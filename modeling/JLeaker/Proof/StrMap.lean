import JLeaker.Lib.Chains
import JLeaker.Lib.Run
import JLeaker.Model.StrMap

/-!
# The hash table is a finite map

Each pair stands in the bucket of its key, and a key has one pair at most.  So the answers to any run
of calls are those of a finite map, in which a new key is refused if `sm_put` cannot allocate its copy or
its pair.
-/

namespace JLeaker

open CString

variable {V : Type} {cp : CharPlatform} {answers : ℕ → Bool}

namespace BucketMap

/-! ## One bucket -/

section

variable {pairs : List (BucketPair V)} {pair : BucketPair V} {key : Str} {value : V} {i : ℕ}

theorem getPair_cons : getPair (pair :: pairs) key =
    if pair.key = key then some 0 else (getPair pairs key).map (· + 1) := by
  unfold getPair
  rw [List.findIdx?_cons]
  simp only [decide_eq_true_eq]

/-- The pair `get_pair` points to. -/
theorem getPair_bind : (getPair pairs key).bind (pairs[·]?) = Chains.find BucketPair.key pairs key := by
  induction pairs with
  | nil => rfl
  | cons pair pairs ih =>
    rw [getPair_cons, Chains.find_cons]
    split_ifs
    · rfl
    · rw [← ih]
      cases getPair pairs key <;> rfl

theorem getPair_eq_none (h : getPair pairs key = none) :
    Chains.find BucketPair.key pairs key = none := by
  rw [← getPair_bind, h]
  rfl

theorem getPair_eq_some (h : getPair pairs key = some i) :
    ∃ pair, pairs[i]? = some pair ∧ Chains.find BucketPair.key pairs key = some pair := by
  induction pairs generalizing i with
  | nil => cases h
  | cons pair pairs ih =>
    rw [getPair_cons] at h
    rw [Chains.find_cons]
    split_ifs at h ⊢ with heq
    · cases h
      exact ⟨pair, rfl, rfl⟩
    · obtain ⟨j, hj, rfl⟩ := Option.map_eq_some_iff.1 h
      exact ih hj

/-- Assign a value to the pair of a key. -/
def replace (key : Str) (value : V) (pair : BucketPair V) : BucketPair V :=
  if pair.key = key then { pair with value := value } else pair

theorem replace_key : (replace key value pair).key = pair.key := by
  unfold replace
  split_ifs <;> rfl

/-- The assignment to the pair `get_pair` points to. -/
theorem modify_getPair (keyed : (pairs.map BucketPair.key).Nodup) (h : getPair pairs key = some i)
    (value : V) :
    (pairs.modify i fun pair => { pair with value := value }) = pairs.map (replace key value) := by
  induction pairs generalizing i with
  | nil => cases h
  | cons pair pairs ih =>
    rw [getPair_cons] at h
    rw [List.map_cons, List.nodup_cons] at keyed
    split_ifs at h with heq
    · cases h
      -- the other pairs have other keys
      have others : pairs.map (replace key value) = pairs := by
        refine (List.map_congr_left fun other hother => ?_).trans (List.map_id pairs)
        have hne : other.key ≠ key := by
          rintro rfl
          exact keyed.1 (heq ▸ List.mem_map_of_mem hother)
        exact if_neg hne
      rw [List.modify_zero_cons, List.map_cons, others, replace, if_pos heq]
    · obtain ⟨j, hj, rfl⟩ := Option.map_eq_some_iff.1 h
      rw [List.modify_succ_cons, ih keyed.2 hj, List.map_cons, replace, if_neg heq]

end

/-! ## The table -/

variable {map : BucketMap V} {key : Str} {value : V} {index : ℕ}

/-- The number of the bucket a key belongs to. -/
def slot (cp : CharPlatform) (map : BucketMap V) (key : Str) : ℕ :=
  hash cp key % map.buckets.length

/-- The pairs, one bucket after another. -/
def pairs (map : BucketMap V) : List (BucketPair V) := (map.buckets.map (·.pairs)).flatten

/-- There are buckets, and each pair is in the one of its key. -/
structure WellFormed (cp : CharPlatform) (map : BucketMap V) : Prop where
  pos : 0 < map.buckets.length
  placed : Chains.Placed BucketPair.key (map.slot cp) (map.buckets.map (·.pairs))

theorem getD_pairs (map : BucketMap V) (i : ℕ) :
    (map.buckets.map (·.pairs)).getD i [] = (map.bucket i).pairs := by
  unfold bucket
  rw [List.getD_eq_getElem?_getD, List.getD_eq_getElem?_getD, List.getElem?_map]
  cases map.buckets[i]? <;> rfl

/-- Another bucket in place of one. -/
theorem map_set_pairs (bucket : Bucket V) :
    (map.buckets.set index bucket).map (·.pairs) = (map.buckets.map (·.pairs)).set index bucket.pairs :=
  List.map_set

namespace WellFormed

variable (wf : map.WellFormed cp)

include wf

theorem keyed : (map.pairs.map BucketPair.key).Nodup := wf.placed.nodup_flatten

theorem slot_lt (key : Str) : map.slot cp key < map.buckets.length := Nat.mod_lt _ wf.pos

theorem bucketIndex (key : Str) : map.bucketIndex cp key = .ok (map.slot cp key) :=
  if_neg (by have := wf.pos; omega)

theorem find_bucket (key : Str) :
    Chains.find BucketPair.key (map.bucket (map.slot cp key)).pairs key =
      Chains.find BucketPair.key map.pairs key := by
  rw [← getD_pairs]
  exact wf.placed.find_flatten.symm

theorem bucket_keyed (i : ℕ) : ((map.bucket i).pairs.map BucketPair.key).Nodup := by
  rw [← getD_pairs]
  exact wf.placed.nodup i

theorem smGet (key : Str) : BucketMap.smGet cp (some map) (some key) =
    .ok ((Chains.find BucketPair.key map.pairs key).map (·.value)) := by
  show (map.bucketIndex cp key >>= _) = _
  rw [wf.bucketIndex, Run.ok_bind, ← wf.find_bucket, ← getPair_bind]
  rfl

theorem smExists (key : Str) : BucketMap.smExists cp (some map) (some key) =
    .ok (Chains.find BucketPair.key map.pairs key).isSome := by
  show (map.bucketIndex cp key >>= _) = _
  rw [wf.bucketIndex, Run.ok_bind, ← wf.find_bucket]
  cases h : getPair (map.bucket (map.slot cp key)).pairs key with
  | none =>
    rw [getPair_eq_none h]
    rfl
  | some i =>
    obtain ⟨pair, -, found⟩ := getPair_eq_some h
    rw [found]
    rfl

/-- Another bucket with pairs of the same slot. -/
theorem set (key : Str) (bucket : Bucket V)
    (slots : ∀ pair ∈ bucket.pairs, map.slot cp pair.key = map.slot cp key)
    (nodup : (bucket.pairs.map BucketPair.key).Nodup) :
    WellFormed cp { map with buckets := map.buckets.set (map.slot cp key) bucket } := by
  have same : slot cp { map with buckets := map.buckets.set (map.slot cp key) bucket } =
      map.slot cp := by
    funext key'
    simp only [slot, List.length_set]
  refine ⟨by simpa only [List.length_set] using wf.pos, ?_⟩
  rw [same, map_set_pairs]
  exact wf.placed.set (by simpa only [List.length_map] using wf.slot_lt key) slots nodup

theorem slot_of_mem {i : ℕ} {pair : BucketPair V} (hpair : pair ∈ (map.bucket i).pairs) :
    map.slot cp pair.key = i := wf.placed.slot_eq i pair (by rwa [getD_pairs])

/-- The value of a known key is replaced. -/
theorem smPut_known (answers : ℕ → Bool) {pair : BucketPair V}
    (known : Chains.find BucketPair.key map.pairs key = some pair) (value : V) (heap : BlockHeap) :
    ∃ map' : BucketMap V, smPut cp answers (some map) (some key) value heap =
        .ok (some pair.value, some map', heap) ∧
      map'.WellFormed cp ∧ map'.pairs = map.pairs.map (replace key value) := by
  have keyed := wf.bucket_keyed (map.slot cp key)
  rw [← wf.find_bucket, ← getPair_bind] at known
  obtain ⟨i, hi, hpair⟩ := Option.bind_eq_some_iff.1 known
  have changed := modify_getPair keyed hi value
  refine ⟨_, ?_, wf.set key { map.bucket (map.slot cp key) with
      pairs := (map.bucket (map.slot cp key)).pairs.map (replace key value) } ?_ ?_, ?_⟩
  · show (map.bucketIndex cp key >>= _) = _
    rw [wf.bucketIndex, Run.ok_bind]
    simp only [hi, hpair, ← changed]
    rfl
  · intro pair' hpair'
    obtain ⟨old, hold, rfl⟩ := List.mem_map.1 hpair'
    rw [replace_key]
    exact wf.slot_of_mem hold
  · rw [Chains.keys_map _ fun _ => replace_key]
    exact keyed
  · unfold pairs
    rw [map_set_pairs]
    have others : ∀ pair : BucketPair V, map.slot cp pair.key ≠ map.slot cp key →
        replace key value pair = pair := fun pair hne =>
      if_neg fun h => hne (congrArg (map.slot cp) h)
    rw [← wf.placed.flatten_set_map (i := map.slot cp key) _ others, getD_pairs]

end WellFormed

/-- The calls of `sm_put` for the copy of a new key and for its pair both get a block; `n` calls were
made before. -/
def Allocates (answers : ℕ → Bool) (n : ℕ) : Prop := answers n = true ∧ answers (n + 1) = true

/-- The calls made after `sm_put` for a new key, which asks for a pair if it has a copy of the key. -/
def callsAfter (answers : ℕ → Bool) (n : ℕ) : ℕ := if answers n then n + 2 else n + 1

/-- What is left of `sm_put` for a new key: it is added, unless one of its own allocations fails. -/
theorem addPair_cases {map' : BucketMap V} {heap heap' : BlockHeap}
    (added : map.addPair answers index key value heap = .ok (map', heap')) :
    heap'.calls = callsAfter answers heap.calls ∧
      (Allocates answers heap.calls ∧ (∃ newKey block, map' = { map with
          buckets := map.buckets.set index
            ⟨(map.bucket index).pairs ++ [⟨key, newKey, value⟩], some block⟩ }) ∨
        ¬ Allocates answers heap.calls ∧ map' = map) := by
  unfold addPair at added
  unfold callsAfter Allocates
  split at added
  · next heap₁ call =>
    cases added
    obtain ⟨answer, calls⟩ := BlockHeap.malloc_answer call
    simp only [← answer, calls]
    simp
  · next newKey heap₁ call =>
    obtain ⟨answer, calls⟩ := BlockHeap.malloc_answer call
    dsimp only at added
    generalize hroom : (if (map.bucket index).pairs.isEmpty = true then heap₁.malloc answers
      else heap₁.realloc answers (map.bucket index).pairsBlock) = room at added
    obtain ⟨block, heap₂⟩ := room
    have second : block.isSome = answers heap₁.calls ∧ heap₂.calls = heap₁.calls + 1 := by
      split_ifs at hroom
      · exact BlockHeap.malloc_answer hroom
      · exact BlockHeap.realloc_answer hroom
    rw [calls] at second
    rw [← answer, ← second.1, Option.isSome_some, if_pos rfl]
    cases block with
    | none =>
      cases added
      exact ⟨second.2, .inr ⟨by simp, rfl⟩⟩
    | some block =>
      dsimp only at added
      split_ifs at added
      cases added
      exact ⟨second.2, .inl ⟨⟨rfl, rfl⟩, newKey, block, rfl⟩⟩

theorem addPair_returns (answers : ℕ → Bool) (map : BucketMap V) (index : ℕ) (value : V)
    (heap : BlockHeap) (fits : keyFits key = true) :
    ∃ r, map.addPair answers index key value heap = .ok r := by
  unfold addPair
  split
  · exact ⟨_, rfl⟩
  · dsimp only
    split
    · exact ⟨_, rfl⟩
    · rw [if_pos fits]
      exact ⟨_, rfl⟩

theorem WellFormed.absent (wf : map.WellFormed cp)
    (unknown : Chains.find BucketPair.key map.pairs key = none) :
    getPair (map.bucket (map.slot cp key)).pairs key = none := by
  cases h : getPair (map.bucket (map.slot cp key)).pairs key with
  | none => rfl
  | some i =>
    obtain ⟨pair, -, found⟩ := getPair_eq_some h
    rw [wf.find_bucket, unknown] at found
    cases found

/-- For a new key all is left to `addPair`. -/
theorem WellFormed.smPut_absent (wf : map.WellFormed cp) (answers : ℕ → Bool)
    (unknown : Chains.find BucketPair.key map.pairs key = none) (value : V) (heap : BlockHeap) :
    smPut cp answers (some map) (some key) value heap =
      (map.addPair answers (map.slot cp key) key value heap).map fun r => (none, some r.1, r.2) := by
  show (map.bucketIndex cp key >>= _) = _
  rw [wf.bucketIndex, Run.ok_bind]
  simp only [wf.absent unknown]
  cases map.addPair answers (map.slot cp key) key value heap <;> rfl

/-- A new key is added, unless one of its own allocations fails. -/
theorem WellFormed.smPut_unknown (wf : map.WellFormed cp)
    (unknown : Chains.find BucketPair.key map.pairs key = none) {heap heap' : BlockHeap}
    {old : Option V} {map' : Option (BucketMap V)}
    (put : smPut cp answers (some map) (some key) value heap = .ok (old, map', heap')) :
    old = none ∧ heap'.calls = callsAfter answers heap.calls ∧ ∃ m, map' = some m ∧ m.WellFormed cp ∧
      (Allocates answers heap.calls ∧ (∃ newKey, m.pairs.Perm (map.pairs ++ [⟨key, newKey, value⟩])) ∨
        ¬ Allocates answers heap.calls ∧ m = map) := by
  rw [wf.smPut_absent answers unknown] at put
  cases added : map.addPair answers (map.slot cp key) key value heap with
  | error e =>
    rw [added] at put
    cases put
  | ok r =>
    rw [added] at put
    cases put
    obtain ⟨calls, cases⟩ := addPair_cases added
    refine ⟨rfl, calls, _, rfl, ?_⟩
    rcases cases with ⟨allocates, newKey, block, same⟩ | ⟨fails, same⟩
    · rw [same]
      refine ⟨wf.set key _ ?_ ?_, .inl ⟨allocates, newKey, ?_⟩⟩
      · intro pair hpair
        rcases List.mem_append.1 hpair with hpair | hpair
        · exact wf.slot_of_mem hpair
        · rw [List.mem_singleton.1 hpair]
      · rw [List.map_append, List.nodup_append]
        refine ⟨wf.bucket_keyed _, List.nodup_singleton _, ?_⟩
        rintro k hk k' hk' rfl
        rw [List.map_singleton, List.mem_singleton] at hk'
        subst hk'
        exact Chains.find_eq_none_iff.1 (getPair_eq_none (wf.absent unknown)) hk
      · unfold pairs
        rw [map_set_pairs, ← getD_pairs]
        exact Chains.flatten_set_append (by simpa only [List.length_map] using wf.slot_lt key)
    · rw [same]
      exact ⟨wf, .inr ⟨fails, rfl⟩⟩

theorem WellFormed.smPut_returns (wf : map.WellFormed cp) (answers : ℕ → Bool)
    (fits : keyFits key = true) (value : V) (heap : BlockHeap) :
    ∃ r, smPut cp answers (some map) (some key) value heap = .ok r := by
  cases known : Chains.find BucketPair.key map.pairs key with
  | some pair =>
    obtain ⟨map', put, -⟩ := wf.smPut_known answers known value heap
    exact ⟨_, put⟩
  | none =>
    obtain ⟨r, added⟩ := addPair_returns answers map (map.slot cp key) value heap fits
    rw [wf.smPut_absent answers known, added]
    exact ⟨_, rfl⟩

theorem smNew_buckets {capacity : ℕ} {heap heap' : BlockHeap}
    (new : smNew answers capacity heap = (some map, heap')) :
    map.buckets = List.replicate capacity ⟨[], none⟩ := by
  unfold smNew at new
  split at new
  · cases new
  · split at new
    · cases new
    · cases new
      rfl

/-- A map that was just made. -/
theorem smNew_wellFormed (cp : CharPlatform) {capacity : ℕ} (pos : 0 < capacity)
    {heap heap' : BlockHeap} (new : smNew answers capacity heap = (some map, heap')) :
    map.WellFormed cp ∧ map.pairs = [] := by
  have chains : map.buckets.map (·.pairs) = List.replicate capacity [] := by
    rw [smNew_buckets new, List.map_replicate]
  refine ⟨⟨by simpa [smNew_buckets new] using pos, ?_⟩, ?_⟩
  · rw [chains]
    exact Chains.Placed.replicate _
  · rw [pairs, chains, List.flatten_replicate_nil]

/-! ## All pairs -/

theorem count_pairs (buckets : List (Bucket V)) (count : ℕ) :
    buckets.foldl (fun count bucket =>
        bucket.pairs.foldl (fun count _ => (count + 1) % 2 ^ 32) count) count % 2 ^ 32 =
      (count + ((buckets.map (·.pairs)).flatten).length) % 2 ^ 32 := by
  have inner : ∀ (pairs : List (BucketPair V)) (count : ℕ),
      pairs.foldl (fun count _ => (count + 1) % 2 ^ 32) count % 2 ^ 32 =
        (count + pairs.length) % 2 ^ 32 := by
    intro pairs
    induction pairs with
    | nil => exact fun _ => rfl
    | cons pair pairs ih =>
      intro count
      rw [List.foldl_cons, ih, List.length_cons]
      omega
  induction buckets generalizing count with
  | nil => rfl
  | cons bucket buckets ih =>
    rw [List.foldl_cons, ih, List.map_cons, List.flatten_cons, List.length_append]
    have := inner bucket.pairs count
    omega

theorem smGetCount_eq (map : BucketMap V) : smGetCount (some map) = toInt map.pairs.length := by
  have total := count_pairs map.buckets 0
  rw [Nat.zero_add] at total
  unfold smGetCount toInt
  apply Int.bmod_eq_bmod_iff_bmod_sub_eq_zero.2
  apply Int.bmod_eq_zero_of_dvd
  unfold pairs
  omega

theorem smEnum_eq {σ : Type} (enumFunc : σ → Str → V → σ) (obj : σ) (map : BucketMap V) :
    smEnum (some enumFunc) obj (some map) =
      (true, map.pairs.foldl (fun obj pair => enumFunc obj pair.key pair.value) obj) := by
  unfold smEnum pairs
  rw [List.foldl_flatten, List.foldl_map]

/-- What users of the table see of a pair. -/
def entry (pair : BucketPair V) : Str × V := (pair.key, pair.value)

/-- What a well-formed table stands for. -/
def toFun (map : BucketMap V) (key : Str) : Option V :=
  (Chains.find BucketPair.key map.pairs key).map (·.value)

theorem WellFormed.toFun_eq_some_iff (wf : map.WellFormed cp) :
    map.toFun key = some value ↔ (key, value) ∈ map.pairs.map entry := by
  unfold toFun
  rw [Option.map_eq_some_iff, List.mem_map]
  constructor
  · rintro ⟨pair, found, rfl⟩
    obtain ⟨hpair, rfl⟩ := (Chains.find_eq_some_iff wf.keyed).1 found
    exact ⟨pair, hpair, rfl⟩
  · rintro ⟨pair, hpair, h⟩
    cases h
    exact ⟨pair, (Chains.find_eq_some_iff wf.keyed).2 ⟨hpair, rfl⟩, rfl⟩

theorem toFun_of_pairs_map {map' : BucketMap V}
    (pairs : map'.pairs = map.pairs.map (replace key value))
    (known : (map.toFun key).isSome) :
    map'.toFun = Function.update map.toFun key (some value) := by
  funext other
  unfold toFun
  rw [pairs, Chains.find_map _ fun _ => replace_key, Function.update_apply]
  split_ifs with h
  · subst h
    unfold toFun at known
    rw [Option.isSome_map] at known
    obtain ⟨pair, found⟩ := Option.isSome_iff_exists.1 known
    have key_eq : pair.key = other := by simpa using List.find?_some found
    rw [found, Option.map_some, Option.map_some, replace, if_pos key_eq]
  · cases found : Chains.find BucketPair.key map.pairs other with
    | none => rfl
    | some pair =>
      have key_eq : pair.key = other := by simpa using List.find?_some found
      rw [Option.map_some, Option.map_some, Option.map_some, replace,
        if_neg fun h' => h (key_eq.symm.trans h')]

theorem WellFormed.toFun_of_perm {map' : BucketMap V} (wf : map'.WellFormed cp) {newKey : ℕ}
    (perm : map'.pairs.Perm (map.pairs ++ [⟨key, newKey, value⟩])) (unknown : map.toFun key = none) :
    map'.toFun = Function.update map.toFun key (some value) := by
  have absent : Chains.find BucketPair.key map.pairs key = none := by
    unfold toFun at unknown
    rwa [Option.map_eq_none_iff] at unknown
  funext other
  unfold toFun
  rw [Chains.find_perm perm wf.keyed, Function.update_apply]
  unfold Chains.find at absent ⊢
  rw [List.find?_append]
  split_ifs with h
  · subst h
    rw [absent]
    simp
  · have hne : key ≠ other := fun h' => h h'.symm
    cases map.pairs.find? fun x => decide (x.key = other) with
    | none => simp [hne]
    | some pair => rfl

end BucketMap

/-! ## A finite map -/

open BucketMap in
/-- What a call may do to a finite map, after `n` calls of `malloc` and `realloc`. -/
inductive SmSpec (answers : ℕ → Bool) (n : ℕ) (m : Str → Option V) :
    SmCall V → SmAnswer V → ℕ → (Str → Option V) → Prop
  | smGet (key : Option Str) : SmSpec answers n m (.smGet key) (.value (key.bind m)) n m
  | smExists (key : Option Str) : SmSpec answers n m (.smExists key) (.flag (key.bind m).isSome) n m
  | assigned (key : Str) (value : V) (known : (m key).isSome) :
    SmSpec answers n m (.smPut (some key) value) (.old (m key)) n (Function.update m key (some value))
  | added (key : Str) (value : V) (unknown : m key = none) (allocates : Allocates answers n) :
    SmSpec answers n m (.smPut (some key) value) (.old none) (callsAfter answers n)
      (Function.update m key (some value))
  | refused (key : Str) (value : V) (unknown : m key = none) (fails : ¬ Allocates answers n) :
    SmSpec answers n m (.smPut (some key) value) (.old none) (callsAfter answers n) m
  | smPutNull (value : V) : SmSpec answers n m (.smPut none value) (.old none) n m
  | smGetCount (keys : Finset Str) (mem_keys : ∀ key, key ∈ keys ↔ (m key).isSome) :
    SmSpec answers n m .smGetCount (.count (toInt keys.card)) n m
  | smEnum (values : List (Str × V)) (nodup : (values.map Prod.fst).Nodup)
      (mem_values : ∀ key value, (key, value) ∈ values ↔ m key = some value) :
    SmSpec answers n m .smEnum (.pairs true values) n m

open BucketMap in
/-- `sm_put` of a key stores the value, or the key is new and refused. -/
theorem SmSpec.smPut {n n' : ℕ} {m m' : Str → Option V} {key : Str} {value : V} {answer : SmAnswer V}
    (spec : SmSpec answers n m (.smPut (some key) value) answer n' m') :
    (answer = .old (m key) ∧ m' = Function.update m key (some value)) ∨
      m key = none ∧ ¬ Allocates answers n ∧ m' = m := by
  cases spec with
  | assigned => exact .inl ⟨rfl, rfl⟩
  | added _ _ unknown => exact .inl ⟨by rw [unknown], rfl⟩
  | refused _ _ unknown fails => exact .inr ⟨unknown, fails, rfl⟩

/-- A run of calls on a finite map. -/
inductive SmSpecRun (answers : ℕ → Bool) :
    ℕ → (Str → Option V) → List (SmCall V) → List (SmAnswer V) → (Str → Option V) → Prop
  | nil (n : ℕ) (m : Str → Option V) : SmSpecRun answers n m [] [] m
  | cons {n n' : ℕ} {m m' m'' : Str → Option V} {call : SmCall V} {calls : List (SmCall V)}
      {answer : SmAnswer V} {replies : List (SmAnswer V)} (first : SmSpec answers n m call answer n' m')
      (rest : SmSpecRun answers n' m' calls replies m'') :
    SmSpecRun answers n m (call :: calls) (answer :: replies) m''

theorem keyFits_iff {key : Str} : BucketMap.keyFits key = true ↔ key.length + 1 < 2 ^ 32 := by
  unfold BucketMap.keyFits
  rw [decide_eq_true_iff]
  omega

/-- Every key that is put is short enough for `key_len`. -/
def SmCall.Fits (call : SmCall V) : Prop :=
  ∀ key value, call = .smPut (some key) value → key.length + 1 < 2 ^ 32

open BucketMap in
/-- A call on a table that returns does what it may do to the finite map. -/
theorem SmState.call_spec {map : BucketMap V} (wf : map.WellFormed cp) {heap : BlockHeap}
    {call : SmCall V} {answer : SmAnswer V} {st' : SmState V}
    (h : SmState.call cp answers ⟨some map, heap⟩ call = .ok (answer, st')) :
    ∃ map', st'.map = some map' ∧ map'.WellFormed cp ∧
      SmSpec answers heap.calls map.toFun call answer st'.heap.calls map'.toFun := by
  cases call with
  | smGet key =>
    obtain ⟨res, got, h⟩ := Run.bind_eq_ok.1 h
    cases h
    refine ⟨map, rfl, wf, ?_⟩
    cases key with
    | none =>
      cases got
      exact .smGet none
    | some key =>
      rw [wf.smGet] at got
      cases got
      exact .smGet (some key)
  | smExists key =>
    obtain ⟨res, got, h⟩ := Run.bind_eq_ok.1 h
    cases h
    refine ⟨map, rfl, wf, ?_⟩
    cases key with
    | none =>
      cases got
      exact .smExists none
    | some key =>
      rw [wf.smExists] at got
      cases got
      have answer : SmSpec answers heap.calls map.toFun (.smExists (some key))
          (.flag ((some key).bind map.toFun).isSome) heap.calls map.toFun := .smExists (some key)
      rwa [Option.bind_some, toFun, Option.isSome_map] at answer
  | smPut key value =>
    obtain ⟨⟨old, map', heap'⟩, put, h⟩ := Run.bind_eq_ok.1 h
    cases h
    cases key with
    | none =>
      cases put
      exact ⟨map, rfl, wf, .smPutNull value⟩
    | some key =>
      cases known : Chains.find BucketPair.key map.pairs key with
      | some pair =>
        obtain ⟨m, put', wf', pairs⟩ := wf.smPut_known answers known value heap
        cases put.symm.trans put'
        have value_eq : map.toFun key = some pair.value := by
          unfold toFun
          rw [known]
          rfl
        have isSome : (map.toFun key).isSome := by rw [value_eq]; rfl
        refine ⟨m, rfl, wf', ?_⟩
        rw [toFun_of_pairs_map pairs isSome, ← value_eq]
        exact .assigned key value isSome
      | none =>
        have value_eq : map.toFun key = none := by
          unfold toFun
          rw [known]
          rfl
        obtain ⟨rfl, calls, m, rfl, wf', cases⟩ := wf.smPut_unknown known put
        refine ⟨m, rfl, wf', ?_⟩
        rw [calls]
        rcases cases with ⟨allocates, newKey, perm⟩ | ⟨fails, rfl⟩
        · rw [wf'.toFun_of_perm perm value_eq]
          exact .added key value value_eq allocates
        · exact .refused key value value_eq fails
  | smGetCount =>
    cases h
    refine ⟨map, rfl, wf, ?_⟩
    have count : map.pairs.length = ((map.pairs.map BucketPair.key).toFinset).card := by
      rw [List.toFinset_card_of_nodup wf.keyed, List.length_map]
    rw [smGetCount_eq, count]
    apply SmSpec.smGetCount
    intro key
    unfold toFun
    rw [List.mem_toFinset, Option.isSome_map, Option.isSome_iff_ne_none, ne_eq,
      Chains.find_eq_none_iff, not_not]
  | smEnum =>
    have all : (smEnum (some fun pairs key value => pairs ++ [(key, value)]) [] (some map)) =
        (true, map.pairs.map fun pair => (pair.key, pair.value)) := by
      rw [smEnum_eq]
      have collect : ∀ (pairs : List (BucketPair V)) (values : List (Str × V)),
          pairs.foldl (fun values pair => values ++ [(pair.key, pair.value)]) values =
            values ++ pairs.map fun pair => (pair.key, pair.value) := by
        intro pairs
        induction pairs with
        | nil => simp
        | cons pair pairs ih => simp [ih]
      rw [collect, List.nil_append]
    unfold SmState.call at h
    rw [all] at h
    cases h
    refine ⟨map, rfl, wf, .smEnum _ ?_ fun key value => wf.toFun_eq_some_iff.symm⟩
    rw [List.map_map]
    exact wf.keyed

/-- A call on a table returns. -/
theorem SmState.call_returns (answers : ℕ → Bool) {map : BucketMap V} (wf : map.WellFormed cp)
    (heap : BlockHeap) {call : SmCall V} (fits : call.Fits) :
    ∃ r, SmState.call cp answers ⟨some map, heap⟩ call = .ok r := by
  cases call with
  | smGet key =>
    cases key with
    | none => exact ⟨_, rfl⟩
    | some key => exact ⟨_, Run.bind_eq_ok.2 ⟨_, wf.smGet key, rfl⟩⟩
  | smExists key =>
    cases key with
    | none => exact ⟨_, rfl⟩
    | some key => exact ⟨_, Run.bind_eq_ok.2 ⟨_, wf.smExists key, rfl⟩⟩
  | smPut key value =>
    cases key with
    | none => exact ⟨_, rfl⟩
    | some key =>
      obtain ⟨r, put⟩ := wf.smPut_returns answers (keyFits_iff.2 (fits key value rfl)) value heap
      exact ⟨_, Run.bind_eq_ok.2 ⟨r, put, rfl⟩⟩
  | smGetCount => exact ⟨_, rfl⟩
  | smEnum => exact ⟨_, rfl⟩

/-- A run of calls on a table is a run on the finite map. -/
theorem SmState.calls_spec {calls : List (SmCall V)} {map : BucketMap V} (wf : map.WellFormed cp)
    {heap : BlockHeap} {before replies : List (SmAnswer V)} {st : SmState V}
    (run : calls.foldlM (SmState.step cp answers) (before, ⟨some map, heap⟩) = .ok (replies, st)) :
    ∃ later map', replies = before ++ later ∧ st.map = some map' ∧ map'.WellFormed cp ∧
      SmSpecRun answers heap.calls map.toFun calls later map'.toFun := by
  induction calls generalizing map heap before with
  | nil =>
    cases run
    exact ⟨[], map, (List.append_nil _).symm, rfl, wf, .nil _ _⟩
  | cons call calls ih =>
    obtain ⟨⟨before', st₁⟩, first, rest⟩ := Run.foldlM_cons_eq_ok.1 run
    obtain ⟨⟨answer, st₁⟩, called, first⟩ := Run.bind_eq_ok.1 first
    cases first
    obtain ⟨map₁, some, wf₁, spec⟩ := SmState.call_spec wf called
    obtain ⟨map', heap'⟩ := st₁
    cases some
    obtain ⟨later, map', rfl, last, wf', specs⟩ := ih wf₁ rest
    exact ⟨answer :: later, map', by rw [List.append_assoc]; rfl, last, wf', .cons spec specs⟩

theorem SmState.calls_return (answers : ℕ → Bool) {calls : List (SmCall V)}
    (fits : ∀ call ∈ calls, call.Fits) {map : BucketMap V} (wf : map.WellFormed cp) (heap : BlockHeap)
    (before : List (SmAnswer V)) :
    ∃ r, calls.foldlM (SmState.step cp answers) (before, ⟨some map, heap⟩) = .ok r := by
  induction calls generalizing map heap before with
  | nil => exact ⟨_, rfl⟩
  | cons call calls ih =>
    obtain ⟨⟨answer, st₁⟩, called⟩ := SmState.call_returns answers wf heap
      (fits call List.mem_cons_self)
    obtain ⟨map₁, some, wf₁, -⟩ := SmState.call_spec wf called
    obtain ⟨map', heap'⟩ := st₁
    cases some
    obtain ⟨r, rest⟩ :=
      ih (fun c hc => fits c (List.mem_cons_of_mem _ hc)) wf₁ heap' (before ++ [answer])
    exact ⟨r, Run.foldlM_cons_eq_ok.2 ⟨_, Run.bind_eq_ok.2 ⟨_, called, rfl⟩, rest⟩⟩

theorem smNew_calls {map : BucketMap V} {capacity : ℕ} {heap heap' : BlockHeap}
    (new : BucketMap.smNew answers capacity heap = (some map, heap')) :
    heap'.calls = heap.calls + 2 := by
  unfold BucketMap.smNew at new
  split at new
  · cases new
  · next block heap₁ first =>
    split at new
    · cases new
    · next bucketsBlock heap₂ second =>
      cases new
      rw [(BlockHeap.malloc_answer second).2, (BlockHeap.malloc_answer first).2]

/-- Every run of calls on a new map, which took two calls of `malloc`, returns and answers as a finite
map does. -/
theorem smRun_finiteMap {capacity : ℕ} (pos : 0 < capacity) {map : BucketMap V} {heap : BlockHeap}
    (new : BucketMap.smNew answers capacity .empty = (some map, heap)) {calls : List (SmCall V)}
    (fits : ∀ call ∈ calls, call.Fits) :
    ∃ replies st m, SmState.run cp answers capacity calls = .ok (replies, st) ∧
      SmSpecRun answers 2 (fun _ => none) calls replies m := by
  obtain ⟨wf, pairs⟩ := BucketMap.smNew_wellFormed cp pos new
  have empty : map.toFun = fun _ => none := by
    funext key
    unfold BucketMap.toFun
    rw [pairs]
    rfl
  obtain ⟨⟨replies, st⟩, run⟩ := SmState.calls_return answers fits wf heap []
  obtain ⟨later, map', rfl, -, -, spec⟩ := SmState.calls_spec wf run
  rw [empty, show heap.calls = 2 from smNew_calls new] at spec
  refine ⟨_, st, map'.toFun, ?_, spec⟩
  unfold SmState.run
  rw [new]
  exact run

theorem smRun_finiteMap_sample :
    ∃ replies st m, SmState.run Sample.signedUnix64 (fun n => n != 5) 10 Sample.smCalls =
        .ok (replies, st) ∧
      SmSpecRun (fun n => n != 5) 2 (fun _ => none) Sample.smCalls replies m := by
  refine smRun_finiteMap (by decide) rfl fun call hcall => ?_
  rintro key value rfl
  simp only [Sample.smCalls, List.mem_cons, SmCall.smPut.injEq, Option.some.injEq, reduceCtorEq,
    List.not_mem_nil, or_false] at hcall
  rcases hcall with ⟨rfl, -⟩ | ⟨rfl, -⟩ | ⟨rfl, -⟩ <;> decide

end JLeaker
