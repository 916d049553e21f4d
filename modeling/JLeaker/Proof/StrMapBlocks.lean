import JLeaker.Proof.StrMap

/-!
# The blocks and the values of a hash table

Whatever `malloc` answers, a table holds exactly the blocks it was given and has not freed, and each
value that was put is in the table under its key, or the next `sm_put` of its key has handed it back, or
it was refused.
-/

namespace JLeaker

open CString

variable {V : Type} {cp : CharPlatform} {answers : ℕ → Bool}

/-- The blocks of a bucket. -/
def Bucket.owned (bucket : Bucket V) : List ℕ :=
  bucket.pairsBlock.toList ++ bucket.pairs.map (·.keyBlock)

/-- The values in a bucket. -/
def Bucket.values (bucket : Bucket V) : List V := bucket.pairs.map (·.value)

namespace BucketMap

/-- The blocks of a map. -/
def owned (map : BucketMap V) : List ℕ :=
  map.block :: map.bucketsBlock :: map.buckets.flatMap Bucket.owned

/-- The values in a map. -/
def values (map : BucketMap V) : List V := map.buckets.flatMap Bucket.values

/-- A bucket without pairs has no block. -/
def Tidy (map : BucketMap V) : Prop :=
  ∀ bucket ∈ map.buckets, bucket.pairs = [] → bucket.pairsBlock = none

/-- Another bucket in place of one. -/
def setBucket (map : BucketMap V) (index : ℕ) (bucket : Bucket V) : BucketMap V :=
  { map with buckets := map.buckets.set index bucket }

variable {map map' : BucketMap V} {key : Str} {value : V} {index : ℕ} {heap heap' : BlockHeap}
  {others : List ℕ} {bucket : Bucket V}

theorem bucket_mem (h : index < map.buckets.length) :
    map.buckets[index]? = some (map.bucket index) := by
  unfold BucketMap.bucket
  rw [List.getD_eq_getElem _ _ h, List.getElem?_eq_getElem h]

theorem Tidy.setBucket (tidy : map.Tidy) (new : bucket.pairs = [] → bucket.pairsBlock = none) :
    (map.setBucket index bucket).Tidy := by
  intro b hb
  rcases List.mem_or_eq_of_mem_set hb with hb | rfl
  · exact tidy b hb
  · exact new

theorem setBucket_owned (h : index < map.buckets.length) (bucket : Bucket V) :
    ((map.bucket index).owned ++ (map.setBucket index bucket).owned).Perm
      (bucket.owned ++ map.owned) := by
  have exchange := Chains.flatMap_set_perm (bucket_mem h) bucket Bucket.owned
  rw [List.perm_iff_count] at exchange ⊢
  intro block
  have := exchange block
  simp only [setBucket, owned, List.count_append, List.count_cons] at this ⊢
  omega

theorem setBucket_values (h : index < map.buckets.length) (bucket : Bucket V) :
    ((map.bucket index).values ++ (map.setBucket index bucket).values).Perm
      (bucket.values ++ map.values) := Chains.flatMap_set_perm (bucket_mem h) bucket Bucket.values

/-- A new value for the pair at `i`. -/
def assigned (bucket : Bucket V) (i : ℕ) (value : V) : Bucket V :=
  { bucket with pairs := bucket.pairs.modify i fun pair => { pair with value := value } }

/-! ## `sm_put` -/

/-- How a call of `sm_put` ends. -/
inductive PutCase (cp : CharPlatform) (answers : ℕ → Bool) (value : V) (heap : BlockHeap) :
    Option (BucketMap V) → Option Str → Option V → Option (BucketMap V) → BlockHeap → Prop
  | noMap (key : Option Str) : PutCase cp answers value heap none key none none heap
  | noKey (map : BucketMap V) : PutCase cp answers value heap (some map) none none (some map) heap
  | known (map : BucketMap V) (key : Str) (i : ℕ) (pair : BucketPair V)
      (lt : map.slot cp key < map.buckets.length)
      (found : (map.bucket (map.slot cp key)).pairs[i]? = some pair)
      (first : Chains.find BucketPair.key (map.bucket (map.slot cp key)).pairs key = some pair) :
    PutCase cp answers value heap (some map) (some key) (some pair.value)
      (some (map.setBucket (map.slot cp key) (assigned (map.bucket (map.slot cp key)) i value))) heap
  | new (map map' : BucketMap V) (key : Str) (heap' : BlockHeap)
      (lt : map.slot cp key < map.buckets.length)
      (absent : Chains.find BucketPair.key (map.bucket (map.slot cp key)).pairs key = none)
      (added : map.addPair answers (map.slot cp key) key value heap = .ok (map', heap')) :
    PutCase cp answers value heap (some map) (some key) none (some map') heap'

theorem smPut_case {map map' : Option (BucketMap V)} {key : Option Str} {old : Option V}
    (put : smPut cp answers map key value heap = .ok (old, map', heap')) :
    PutCase cp answers value heap map key old map' heap' := by
  cases map with
  | none =>
    cases put
    exact .noMap key
  | some map =>
    cases key with
    | none =>
      cases put
      exact .noKey map
    | some key =>
      obtain ⟨index, hindex, put⟩ := Run.bind_eq_ok.1 put
      unfold bucketIndex at hindex
      split_ifs at hindex with empty
      cases hindex
      have lt : map.slot cp key < map.buckets.length := Nat.mod_lt _ (by omega)
      dsimp only at put
      split at put
      · next i found =>
        cases put
        obtain ⟨pair, hpair, first⟩ := getPair_eq_some found
        rw [hpair]
        exact .known map key i pair lt hpair first
      · next absent =>
        obtain ⟨⟨map', heap'⟩, added, put⟩ := Run.bind_eq_ok.1 put
        cases put
        exact .new map map' key heap' lt (getPair_eq_none absent) added

/-- What one call of `sm_put` leaves: it was accounted for before and is now, and the value is in the
map, in place of the one that is returned, unless it was refused. -/
structure PutLeaves (others : List ℕ) (value : V) (before : List V) (old : Option V)
    (map' : Option (BucketMap V)) (heap' : BlockHeap) (refused : List V) : Prop where
  tidy : ∀ m ∈ map', m.Tidy
  accounts : heap'.Accounts (map'.elim [] owned ++ others)
  values : (value :: before).Perm (old.toList ++ refused ++ map'.elim [] values)

theorem addPair_leaves (tidy : map.Tidy) (lt : index < map.buckets.length)
    (accounts : heap.Accounts (map.owned ++ others))
    (added : map.addPair answers index key value heap = .ok (map', heap')) :
    (Allocates answers heap.calls → PutLeaves others value map.values none (some map') heap' []) ∧
      (¬ Allocates answers heap.calls →
        PutLeaves others value map.values none (some map') heap' [value]) := by
  unfold Allocates
  unfold addPair at added
  split at added
  · next heap₁ call =>
    cases added
    have fails := (BlockHeap.malloc_none call).1
    refine ⟨fun allocates => absurd allocates.1 (by simp [fails]), fun _ =>
      ⟨by rintro m ⟨⟩; exact tidy, accounts.malloc_none call, List.Perm.refl _⟩⟩
  · next newKey heap₁ call =>
    obtain ⟨copied, calls⟩ := BlockHeap.malloc_answer call
    dsimp only at added
    have keyed := accounts.malloc_some call
    generalize hroom : (if (map.bucket index).pairs.isEmpty = true then heap₁.malloc answers
      else heap₁.realloc answers (map.bucket index).pairsBlock) = room at added
    obtain ⟨block, heap₂⟩ := room
    cases block with
    | none =>
      cases added
      have failed : heap₁.malloc answers = (none, heap₂) := by
        split_ifs at hroom
        · exact hroom
        · exact BlockHeap.realloc_none hroom
      have fails := (BlockHeap.malloc_none failed).1
      rw [calls] at fails
      refine ⟨fun allocates => absurd allocates.2 (by simp [fails]), fun _ =>
        ⟨by rintro m ⟨⟩; exact tidy, (keyed.malloc_none failed).free, List.Perm.refl _⟩⟩
    | some block =>
      have paired : answers (heap.calls + 1) = true := by
        rw [← calls]
        split_ifs at hroom
        · exact (BlockHeap.malloc_answer hroom).1.symm
        · exact (BlockHeap.realloc_answer hroom).1.symm
      refine ⟨fun _ => ?_, fun fails => absurd ⟨copied.symm, paired⟩ fails⟩
      dsimp only at added
      split_ifs at added with fits
      cases added
      -- the blocks but for that of the array of pairs
      have exchange := setBucket_owned lt ⟨[], none⟩
      have room : heap'.Accounts (block :: newKey :: ((map.bucket index).pairs.map (·.keyBlock) ++
          (map.setBucket index ⟨[], none⟩).owned ++ others)) := by
        have perm : ((map.bucket index).pairsBlock.toList ++ newKey ::
            ((map.bucket index).pairs.map (·.keyBlock) ++
              (map.setBucket index ⟨[], none⟩).owned ++ others)).Perm
            (newKey :: (map.owned ++ others)) := by
          rw [List.perm_iff_count] at exchange ⊢
          intro b
          have := exchange b
          simp only [Bucket.owned, List.count_append, List.count_cons, Option.toList_none,
            List.map_nil, List.count_nil] at this ⊢
          omega
        split_ifs at hroom with none
        · have free : (map.bucket index).pairsBlock = Option.none :=
            tidy _ (List.mem_of_getElem? (bucket_mem lt)) (List.isEmpty_iff.1 none)
          rw [free] at perm
          exact (keyed.of_perm perm).malloc_some hroom
        · exact (keyed.of_perm perm).realloc_some hroom
      refine ⟨?_, ?_, ?_⟩
      · rintro m ⟨⟩
        exact tidy.setBucket (by simp)
      · refine room.of_perm ?_
        have exchange' := setBucket_owned lt
          ⟨(map.bucket index).pairs ++ [⟨key, newKey, value⟩], some block⟩
        rw [List.perm_iff_count] at exchange exchange' ⊢
        intro b
        have without := exchange b
        have stored := exchange' b
        simp only [Bucket.owned, setBucket, List.count_append, List.count_cons, Option.toList_none,
          Option.toList_some, List.map_nil, List.map_append, List.map_cons, List.count_nil,
          Option.elim_some] at without stored ⊢
        omega
      · have exchange' := setBucket_values lt
          ⟨(map.bucket index).pairs ++ [⟨key, newKey, value⟩], some block⟩
        unfold Bucket.values at exchange'
        rw [List.map_append, List.append_assoc] at exchange'
        exact ((List.perm_append_left_iff _).1 exchange').symm

theorem modify_values {pairs : List (BucketPair V)} {pair : BucketPair V} {i : ℕ}
    (found : pairs[i]? = some pair) (value : V) :
    (pair.value :: (pairs.modify i fun pair => { pair with value := value }).map (·.value)).Perm
      (value :: pairs.map (·.value)) := by
  induction pairs generalizing i with
  | nil => cases found
  | cons first pairs ih =>
    cases i with
    | zero =>
      cases found
      exact List.Perm.swap _ _ _
    | succ i =>
      rw [List.modify_succ_cons, List.map_cons, List.map_cons]
      exact (List.Perm.swap _ _ _).trans (((ih found).cons _).trans (List.Perm.swap _ _ _))

theorem modify_keyBlocks (pairs : List (BucketPair V)) (i : ℕ) (value : V) :
    (pairs.modify i fun pair => { pair with value := value }).map (·.keyBlock) =
      pairs.map (·.keyBlock) := by
  induction pairs generalizing i with
  | nil => simp
  | cons pair pairs ih =>
    cases i with
    | zero => rfl
    | succ i => rw [List.modify_succ_cons, List.map_cons, List.map_cons, ih]

/-- A table with buckets is well formed. -/
def Sound (cp : CharPlatform) (map : Option (BucketMap V)) : Prop :=
  ∀ m ∈ map, 0 < m.buckets.length → m.WellFormed cp

/-- `sm_put` stores nothing: there is no map or no key, or the key is new and one of the two allocations
for it fails. -/
def refuses (answers : ℕ → Bool) (map : Option (BucketMap V)) (key : Option Str) (heap : BlockHeap) :
    Bool :=
  key.all fun key => map.all fun map =>
    (map.toFun key).isNone && !(answers heap.calls && answers (heap.calls + 1))

theorem smPut_leaves {map map' : Option (BucketMap V)} {key : Option Str} {old : Option V}
    (tidy : ∀ m ∈ map, m.Tidy) (sound : Sound cp map)
    (accounts : heap.Accounts (map.elim [] owned ++ others))
    (put : smPut cp answers map key value heap = .ok (old, map', heap')) :
    PutLeaves others value (map.elim [] values) old map' heap'
      (if refuses answers map key heap then [value] else []) := by
  cases smPut_case put with
  | noMap key =>
    have refused : refuses answers (none : Option (BucketMap V)) key heap = true := by
      cases key <;> rfl
    rw [if_pos refused]
    exact ⟨tidy, accounts, List.Perm.refl _⟩
  | noKey m => exact ⟨tidy, accounts, List.Perm.refl _⟩
  | known m key i pair lt found first =>
    have wf := sound m rfl (by omega)
    have stored : (m.toFun key).isNone = false := by
      rw [toFun, ← wf.find_bucket, first]
      rfl
    have old := tidy m rfl _ (List.mem_of_getElem? (bucket_mem lt))
    rw [if_neg (by simp [refuses, stored])]
    refine ⟨?_, ?_, ?_⟩
    · rintro m' ⟨⟩
      refine Tidy.setBucket (tidy m rfl) fun none => old ?_
      simpa [assigned] using none
    · refine accounts.of_perm (List.Perm.append_right _ ?_)
      have exchange := setBucket_owned lt (assigned (m.bucket (m.slot cp key)) i value)
      unfold Bucket.owned assigned at exchange
      rw [modify_keyBlocks] at exchange
      exact (List.perm_append_left_iff _).1 exchange
    · have exchange := setBucket_values lt (assigned (m.bucket (m.slot cp key)) i value)
      have modified := (modify_values found value).append_right m.values
      have cancelled : ((m.bucket (m.slot cp key)).values ++ (value :: m.values)).Perm
          ((m.bucket (m.slot cp key)).values ++ (pair.value ::
            (m.setBucket (m.slot cp key) (assigned (m.bucket (m.slot cp key)) i value)).values)) :=
        List.perm_middle.trans (modified.symm.trans
          ((exchange.symm.cons pair.value).trans List.perm_middle.symm))
      exact (List.perm_append_left_iff _).1 cancelled
  | new m m' key heap' lt absent added =>
    have wf := sound m rfl (by omega)
    have unknown : (m.toFun key).isNone = true := by
      rw [toFun, ← wf.find_bucket, absent]
      rfl
    obtain ⟨stores, refused⟩ := addPair_leaves (tidy m rfl) lt accounts added
    by_cases allocates : Allocates answers heap.calls
    · rw [if_neg (by simp [refuses, allocates.1, allocates.2])]
      exact stores allocates
    · have fails : (answers heap.calls && answers (heap.calls + 1)) = false := by
        rw [← Bool.not_eq_true, Bool.and_eq_true]
        exact allocates
      rw [if_pos (by simp [refuses, unknown, fails])]
      exact refused allocates

/-! ## `sm_new` and `sm_delete` -/

theorem smNew_leaves (V : Type) (answers : ℕ → Bool) (capacity : ℕ) (accounts : heap.Accounts others) :
    (∀ m ∈ (smNew (V := V) answers capacity heap).1, m.Tidy) ∧
      (smNew (V := V) answers capacity heap).2.Accounts
        ((smNew (V := V) answers capacity heap).1.elim [] owned ++ others) ∧
      (smNew (V := V) answers capacity heap).1.elim [] values = [] := by
  unfold smNew
  split
  · next heap₁ call => exact ⟨by simp, accounts.malloc_none call, rfl⟩
  · next block heap₁ call =>
    split
    · next heap₂ call' =>
      exact ⟨by simp, ((accounts.malloc_some call).malloc_none call').free, rfl⟩
    · next bucketsBlock heap₂ call' =>
      have flat : ∀ {α : Type} (f : Bucket V → List α), f ⟨[], none⟩ = [] →
          (List.replicate capacity (⟨[], none⟩ : Bucket V)).flatMap f = [] := by
        intro α f h
        rw [List.flatMap_eq_nil_iff]
        intro b hb
        rw [List.eq_of_mem_replicate hb, h]
      refine ⟨?_, ?_, flat _ rfl⟩
      · rintro m ⟨⟩ b hb -
        rw [List.eq_of_mem_replicate hb]
      · refine ((accounts.malloc_some call).malloc_some call').of_perm ?_
        show (block :: bucketsBlock :: _ ++ others).Perm _
        rw [flat _ rfl]
        exact List.Perm.swap _ _ _

theorem smNew_sound (V : Type) (cp : CharPlatform) (answers : ℕ → Bool) (capacity : ℕ)
    (heap : BlockHeap) : Sound cp (smNew (V := V) answers capacity heap).1 := by
  intro map hmap pos
  have new : smNew answers capacity heap = (some map, (smNew (V := V) answers capacity heap).2) :=
    Prod.ext hmap rfl
  rw [smNew_buckets new, List.length_replicate] at pos
  exact (smNew_wellFormed cp pos new).1

theorem foldl_freePair (pairs : List (BucketPair V)) (freed : List V) (heap : BlockHeap)
    (accounts : heap.Accounts (pairs.map (·.keyBlock) ++ others)) :
    (pairs.foldl freePair (freed, heap)).1 = freed ++ pairs.map (·.value) ∧
      (pairs.foldl freePair (freed, heap)).2.Accounts others := by
  induction pairs generalizing freed heap with
  | nil => exact ⟨(List.append_nil _).symm, accounts⟩
  | cons pair pairs ih =>
    obtain ⟨values, rest⟩ := ih (freed ++ [pair.value]) (heap.free pair.keyBlock) accounts.free
    exact ⟨values.trans (by rw [List.append_assoc]; rfl), rest⟩

theorem foldl_freeBucket (buckets : List (Bucket V)) (freed : List V) (heap : BlockHeap)
    (accounts : heap.Accounts (buckets.flatMap Bucket.owned ++ others)) :
    (buckets.foldl freeBucket (freed, heap)).1 = freed ++ buckets.flatMap Bucket.values ∧
      (buckets.foldl freeBucket (freed, heap)).2.Accounts others := by
  induction buckets generalizing freed heap with
  | nil => exact ⟨(List.append_nil _).symm, accounts⟩
  | cons bucket buckets ih =>
    rw [List.flatMap_cons, Bucket.owned] at accounts
    have pairsFirst : (bucket.pairs.map (·.keyBlock) ++
        (bucket.pairsBlock.toList ++ (buckets.flatMap Bucket.owned ++ others))).Perm
        (bucket.pairsBlock.toList ++ bucket.pairs.map (·.keyBlock) ++
          buckets.flatMap Bucket.owned ++ others) := by
      rw [List.append_assoc, List.append_assoc]
      exact List.perm_append_comm_assoc _ _ _
    obtain ⟨values, rest⟩ := foldl_freePair bucket.pairs freed heap (accounts.of_perm pairsFirst)
    obtain ⟨values', rest'⟩ := ih (freed ++ bucket.values)
      ((bucket.pairs.foldl freePair (freed, heap)).2.free? bucket.pairsBlock) rest.free?
    rw [List.foldl_cons, freeBucket, values]
    exact ⟨values'.trans (by rw [List.flatMap_cons, List.append_assoc]), rest'⟩

/-- `sm_delete` frees the blocks of the map and hands its values to `free_func`. -/
theorem smDelete_leaves (map : Option (BucketMap V))
    (accounts : heap.Accounts (map.elim [] owned ++ others)) :
    (smDelete map heap).1 = map.elim [] values ∧ (smDelete map heap).2.Accounts others := by
  cases map with
  | none => exact ⟨rfl, accounts⟩
  | some map =>
    have last : (map.buckets.flatMap Bucket.owned ++ (map.bucketsBlock :: map.block :: others)).Perm
        (map.owned ++ others) :=
      List.perm_middle.trans ((List.perm_middle.cons _).trans (List.Perm.swap _ _ _))
    obtain ⟨values, rest⟩ := foldl_freeBucket map.buckets [] heap (accounts.of_perm last)
    exact ⟨values.trans (List.nil_append _), rest.free.free⟩

end BucketMap

/-! ## Runs -/

/-- The values handed to `sm_put`. -/
def putValues (calls : List (SmCall V)) : List V :=
  calls.filterMap fun
    | .smPut _ value => some value
    | _ => none

/-- The values `sm_put` handed back. -/
def oldValues (replies : List (SmAnswer V)) : List V :=
  replies.filterMap fun
    | .old res => res
    | _ => none

open BucketMap

/-- The call is one of `sm_put` that stores nothing. -/
def SmState.refuses (answers : ℕ → Bool) (st : SmState V) : SmCall V → Bool
  | .smPut key _ => BucketMap.refuses answers st.map key st.heap
  | _ => false

/-- The values that are refused in a run. -/
def refusedValues (cp : CharPlatform) (answers : ℕ → Bool) : SmState V → List (SmCall V) → List V
  | _, [] => []
  | st, call :: calls =>
    match st.call cp answers call with
    | .error _ => []
    | .ok (_, st') =>
      (if st.refuses answers call then putValues [call] else []) ++ refusedValues cp answers st' calls

/-- What a call leaves: the blocks are accounted for, and no value is lost. -/
structure SmState.Leaves (cp : CharPlatform) (answers : ℕ → Bool) (st : SmState V) (call : SmCall V)
    (answer : SmAnswer V) (st' : SmState V) : Prop where
  tidy : ∀ m ∈ st'.map, m.Tidy
  sound : Sound cp st'.map
  accounts : st'.heap.Accounts (st'.map.elim [] owned)
  values : (putValues [call] ++ st.map.elim [] BucketMap.values).Perm
    (oldValues [answer] ++ (if st.refuses answers call then putValues [call] else []) ++
      st'.map.elim [] BucketMap.values)

/-- Only `sm_put` changes the table, and only `sm_put` takes values and hands values back. -/
theorem SmState.call_of_ne_smPut {st st' : SmState V} {call : SmCall V} {answer : SmAnswer V}
    (other : ∀ key value, call ≠ .smPut key value) (h : st.call cp answers call = .ok (answer, st')) :
    st' = st ∧ putValues [call] = [] ∧ oldValues [answer] = [] := by
  cases call with
  | smGet key | smExists key =>
    obtain ⟨res, -, h⟩ := Run.bind_eq_ok.1 h
    cases h
    exact ⟨rfl, rfl, rfl⟩
  | smPut key value => exact absurd rfl (other key value)
  | smGetCount | smEnum =>
    cases h
    exact ⟨rfl, rfl, rfl⟩

/-- A table stays well formed. -/
theorem SmState.call_sound {st st' : SmState V} {call : SmCall V} {answer : SmAnswer V}
    (sound : Sound cp st.map) (h : st.call cp answers call = .ok (answer, st')) : Sound cp st'.map := by
  by_cases isPut : ∃ key value, call = .smPut key value
  · obtain ⟨key, value, rfl⟩ := isPut
    obtain ⟨⟨old, map', heap'⟩, put, done⟩ := Run.bind_eq_ok.1 h
    obtain ⟨map, heap⟩ := st
    have stored : ∀ m, map = some m → 0 < m.buckets.length → Sound cp st'.map := by
      rintro m rfl pos
      obtain ⟨m', some, wf', -⟩ := SmState.call_spec (sound m rfl pos) h
      rw [some]
      rintro _ ⟨⟩ -
      exact wf'
    cases done
    cases smPut_case put with
    | noMap key => exact sound
    | noKey m => exact sound
    | known m key i pair lt => exact stored m rfl (Nat.zero_lt_of_lt lt)
    | new m m' key heap' lt => exact stored m rfl (Nat.zero_lt_of_lt lt)
  · obtain ⟨rfl, -⟩ := SmState.call_of_ne_smPut (fun key value eq => isPut ⟨key, value, eq⟩) h
    exact sound

theorem SmState.call_leaves {st st' : SmState V} {call : SmCall V} {answer : SmAnswer V}
    (tidy : ∀ m ∈ st.map, m.Tidy) (sound : Sound cp st.map)
    (accounts : st.heap.Accounts (st.map.elim [] owned))
    (h : st.call cp answers call = .ok (answer, st')) : st.Leaves cp answers call answer st' := by
  have sound' := SmState.call_sound sound h
  by_cases isPut : ∃ key value, call = .smPut key value
  · obtain ⟨key, value, rfl⟩ := isPut
    obtain ⟨⟨old, map', heap'⟩, put, done⟩ := Run.bind_eq_ok.1 h
    cases done
    have padded : st.heap.Accounts (st.map.elim [] owned ++ []) := by rwa [List.append_nil]
    have leaves := smPut_leaves tidy sound padded put
    refine ⟨leaves.tidy, sound', ?_, ?_⟩
    · have left := leaves.accounts
      rwa [List.append_nil] at left
    · cases old with
      | none => exact leaves.values
      | some old => exact leaves.values
  · obtain ⟨rfl, puts, olds⟩ :=
      SmState.call_of_ne_smPut (fun key value eq => isPut ⟨key, value, eq⟩) h
    refine ⟨tidy, sound, accounts, ?_⟩
    rw [puts, olds, ite_self]
    exact List.Perm.refl _

/-- What a run of calls leaves. -/
structure SmState.RunLeaves (cp : CharPlatform) (answers : ℕ → Bool) (st : SmState V)
    (calls : List (SmCall V)) (replies : List (SmAnswer V)) (st' : SmState V) : Prop where
  length : replies.length = calls.length
  tidy : ∀ m ∈ st'.map, m.Tidy
  sound : Sound cp st'.map
  accounts : st'.heap.Accounts (st'.map.elim [] owned)
  values : (putValues calls ++ st.map.elim [] BucketMap.values).Perm
    (oldValues replies ++ refusedValues cp answers st calls ++ st'.map.elim [] BucketMap.values)

theorem SmState.calls_leave {calls : List (SmCall V)} {before replies : List (SmAnswer V)}
    {st st' : SmState V} (tidy : ∀ m ∈ st.map, m.Tidy) (sound : Sound cp st.map)
    (accounts : st.heap.Accounts (st.map.elim [] owned))
    (run : calls.foldlM (SmState.step cp answers) (before, st) = .ok (replies, st')) :
    ∃ later, replies = before ++ later ∧ st.RunLeaves cp answers calls later st' := by
  induction calls generalizing st before with
  | nil =>
    cases run
    exact ⟨[], (List.append_nil _).symm, rfl, tidy, sound, accounts, List.Perm.refl _⟩
  | cons call calls ih =>
    obtain ⟨⟨before', st₁⟩, first, rest⟩ := Run.foldlM_cons_eq_ok.1 run
    obtain ⟨⟨answer, st₁⟩, called, first⟩ := Run.bind_eq_ok.1 first
    cases first
    have leaves := SmState.call_leaves tidy sound accounts called
    obtain ⟨later, rfl, done⟩ := ih leaves.tidy leaves.sound leaves.accounts rest
    refine ⟨answer :: later, by rw [List.append_assoc]; rfl, congrArg (· + 1) done.length, done.tidy,
      done.sound, done.accounts, ?_⟩
    have puts : putValues (call :: calls) = putValues [call] ++ putValues calls :=
      List.filterMap_append (l := [call])
    have olds : oldValues (answer :: later) = oldValues [answer] ++ oldValues later :=
      List.filterMap_append (l := [answer])
    rw [puts, olds, refusedValues, called]
    classical
    rw [List.perm_iff_count]
    intro value
    have now := leaves.values.count_eq value
    have later := done.values.count_eq value
    simp only [List.count_append] at now later ⊢
    omega

/-! ## The way of a value -/

/-- The next `sm_put` of the key hands the value back; if there is none, it is deleted with the map. -/
def HandedBack (key : Str) (value : V) (deleted : List (Str × V)) :
    List (SmCall V) → List (SmAnswer V) → Prop
  | .smPut (some other) _ :: calls, answer :: replies =>
    if other = key then answer = .old (some value) else HandedBack key value deleted calls replies
  | _ :: calls, _ :: replies => HandedBack key value deleted calls replies
  | _, _ => (key, value) ∈ deleted

/-- A value in a finite map is handed back. -/
theorem SmSpecRun.handedBack {n : ℕ} {m m' : Str → Option V} {calls : List (SmCall V)}
    {replies : List (SmAnswer V)} (run : SmSpecRun answers n m calls replies m') {key : Str} {value : V}
    (holds : m key = some value) {deleted : List (Str × V)}
    (last : ∀ key value, m' key = some value → (key, value) ∈ deleted) :
    HandedBack key value deleted calls replies := by
  induction run with
  | nil => exact last key value holds
  | cons first rest ih =>
    have update : ∀ {m : Str → Option V} {other : Str} {new : V}, other ≠ key → m key = some value →
        Function.update m other (some new) key = some value := fun ne holds => by
      rwa [Function.update_of_ne ne.symm]
    cases first with
    | smGet | smExists | smGetCount | smEnum | smPutNull => exact ih holds last
    | assigned other new known =>
      unfold HandedBack
      split_ifs with same
      · rw [same, holds]
      · exact ih (update same holds) last
    | added other new unknown =>
      unfold HandedBack
      rw [if_neg fun same => by rw [same, holds] at unknown; cases unknown]
      exact ih (update (fun same => by rw [same, holds] at unknown; cases unknown) holds) last
    | refused other new unknown =>
      unfold HandedBack
      rw [if_neg fun same => by rw [same, holds] at unknown; cases unknown]
      exact ih holds last

/-- The keys and values in a map. -/
def entries (map : Option (BucketMap V)) : List (Str × V) :=
  map.elim [] fun map => map.pairs.map entry

theorem values_eq_entries (map : Option (BucketMap V)) :
    map.elim [] BucketMap.values = (entries map).map Prod.snd := by
  cases map with
  | none => rfl
  | some map =>
    show map.buckets.flatMap Bucket.values = (map.pairs.map entry).map _
    unfold BucketMap.pairs
    rw [List.map_map, List.map_flatten, List.map_map]
    rfl

/-- A value that is not refused is handed on. -/
theorem SmState.put_handedBack {st st₁ st' : SmState V} (sound : Sound cp st.map) {key : Option Str}
    {value : V} (stores : st.refuses answers (.smPut key value) = false) {answer : SmAnswer V}
    (put : st.call cp answers (.smPut key value) = .ok (answer, st₁)) {calls : List (SmCall V)}
    {before replies : List (SmAnswer V)}
    (run : calls.foldlM (SmState.step cp answers) (before, st₁) = .ok (before ++ replies, st')) :
    ∃ k, key = some k ∧ HandedBack k value (entries st'.map) calls replies := by
  obtain ⟨map, heap⟩ := st
  cases key with
  | none => cases stores
  | some k =>
    cases map with
    | none => cases stores
    | some map =>
      have pos : 0 < map.buckets.length := by
        obtain ⟨⟨old, map', heap'⟩, put, -⟩ := Run.bind_eq_ok.1 put
        cases smPut_case put with
        | known _ _ _ _ lt => exact Nat.zero_lt_of_lt lt
        | new _ _ _ _ lt => exact Nat.zero_lt_of_lt lt
      obtain ⟨map₁, some, wf₁, spec⟩ := SmState.call_spec (sound map rfl pos) put
      obtain ⟨_, heap₁⟩ := st₁
      cases some
      obtain ⟨later, map', eq, last, wf', specs⟩ := SmState.calls_spec wf₁ run
      obtain rfl := List.append_cancel_left eq
      have stored : map₁.toFun k = some value := by
        rcases spec.smPut with ⟨-, same⟩ | ⟨unknown, fails, -⟩
        · rw [same, Function.update_self]
        · have succeed : (answers heap.calls && answers (heap.calls + 1)) = true := by
            simpa [SmState.refuses, BucketMap.refuses, unknown] using stores
          exact absurd (Bool.and_eq_true_iff.1 succeed) fails
      refine ⟨k, rfl, specs.handedBack stored fun key value holds => ?_⟩
      rw [last]
      exact wf'.toFun_eq_some_iff.1 holds

/-- The map a run starts with. -/
def SmState.initial (V : Type) (answers : ℕ → Bool) (capacity : ℕ) : SmState V :=
  ⟨(smNew answers capacity .empty).1, (smNew (V := V) answers capacity .empty).2⟩

/-- After a run of calls, `sm_delete` has freed every block that was handed out, each once.  Every value
that was put was handed back by `sm_put`, was refused or went to `free_func`, once; and one that was not
refused was handed back by the next `sm_put` of its key, or went to `free_func` if there was none. -/
theorem smRun_smDelete {capacity : ℕ} {calls : List (SmCall V)} {replies : List (SmAnswer V)}
    {st : SmState V} (run : SmState.run cp answers capacity calls = .ok (replies, st)) :
    (smDelete st.map st.heap).2.given.Nodup ∧
      (smDelete st.map st.heap).2.freed.Perm (smDelete st.map st.heap).2.given ∧
      (smDelete st.map st.heap).1 = (entries st.map).map Prod.snd ∧
      (putValues calls).Perm (oldValues replies ++
        refusedValues cp answers (.initial V answers capacity) calls ++ (smDelete st.map st.heap).1) ∧
      ∀ before key value after, calls = before ++ .smPut key value :: after → ∀ answered st₁,
        SmState.run cp answers capacity before = .ok (answered, st₁) →
          st₁.refuses answers (.smPut key value) = false →
            ∃ k, key = some k ∧
              HandedBack k value (entries st.map) after (replies.drop (before.length + 1)) := by
  obtain ⟨tidy, accounts, none⟩ := smNew_leaves V answers capacity BlockHeap.Accounts.empty
  have sound := smNew_sound V cp answers capacity .empty
  rw [List.append_nil] at accounts
  have leave : ∀ {calls : List (SmCall V)} {replies : List (SmAnswer V)} {st : SmState V},
      SmState.run cp answers capacity calls = .ok (replies, st) →
        (SmState.initial V answers capacity).RunLeaves cp answers calls replies st := by
    intro calls replies st run
    obtain ⟨later, rfl, leaves⟩ : ∃ later, replies = [] ++ later ∧
        (SmState.initial V answers capacity).RunLeaves cp answers calls later st :=
      SmState.calls_leave tidy sound accounts run
    exact leaves
  have leaves := leave run
  have accounts' := leaves.accounts
  rw [← List.append_nil (st.map.elim [] owned)] at accounts'
  obtain ⟨freed, done⟩ := smDelete_leaves st.map accounts'
  refine ⟨done.nodup, done.freed_perm, ?_, ?_, ?_⟩
  · rw [freed, values_eq_entries]
  · have values := leaves.values
    rw [show (SmState.initial V answers capacity).map.elim [] BucketMap.values = [] from none,
      List.append_nil] at values
    rwa [freed]
  rintro before key value after rfl answered st₁ run₁ stores
  have leaves₁ := leave run₁
  -- the call of `sm_put`, and those after it
  obtain ⟨⟨answered', st₁'⟩, run₁', rest⟩ := Run.foldlM_append_eq_ok.1 run
  cases run₁.symm.trans run₁'
  obtain ⟨⟨answered', st₂⟩, first, rest⟩ := Run.foldlM_cons_eq_ok.1 rest
  obtain ⟨⟨answer, st₂⟩, put, first⟩ := Run.bind_eq_ok.1 first
  cases first
  have leaves₂ := SmState.call_leaves leaves₁.tidy leaves₁.sound leaves₁.accounts put
  obtain ⟨later, rfl, -⟩ := SmState.calls_leave leaves₂.tidy leaves₂.sound leaves₂.accounts rest
  have dropped : ((answered ++ [answer]) ++ later).drop (before.length + 1) = later := by
    rw [← leaves₁.length]
    exact List.drop_left' (by simp)
  rw [dropped]
  exact SmState.put_handedBack leaves₁.sound stores put rest

/-- The call of `malloc` for the pair of `set` fails. -/
theorem smRun_smDelete_sample :
    ∃ (replies : List (SmAnswer ℕ)) (st : SmState ℕ),
      SmState.run Sample.signedUnix64 (fun n => n != 5) 10 Sample.smCalls = .ok (replies, st) ∧
      (smDelete st.map st.heap).2.freed.Perm (smDelete st.map st.heap).2.given ∧
      (putValues Sample.smCalls).Perm (oldValues replies ++ [2] ++ (smDelete st.map st.heap).1) ∧
      HandedBack "map".toList 1 (entries st.map) (Sample.smCalls.drop 1) (replies.drop 1) := by
  obtain ⟨⟨replies, st⟩, run, -⟩ := Run.exists_ok_of_any
    (x := SmState.run Sample.signedUnix64 (fun n => n != 5) 10 Sample.smCalls)
    (p := fun _ => true) (by decide +kernel)
  obtain ⟨-, freed, -, values, handedBack⟩ := smRun_smDelete run
  have refused : refusedValues Sample.signedUnix64 (fun n => n != 5)
      (.initial ℕ (fun n => n != 5) 10) Sample.smCalls = [2] := by decide +kernel
  rw [refused] at values
  refine ⟨replies, st, run, freed, values, ?_⟩
  obtain ⟨k, key, handedBack⟩ :=
    handedBack [] (some "map".toList) 1 (Sample.smCalls.drop 1) rfl [] _ rfl
      (by decide +kernel)
  cases key
  exact handedBack

end JLeaker
