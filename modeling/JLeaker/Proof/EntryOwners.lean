import JLeaker.Lib.Custody
import JLeaker.Model.EntryCalls
import JLeaker.Proof.IgnoreEntries

/-!
# Every ignored field has one owner

A record of `ignore_referenced_by` is in the list of one class name or of one node until it is
freed.  The lists of records are, in the same order, those of the map and of the nodes of the graph
(`EntriesKept`); as the dump frees the whole graph and deletes the map, every record is freed, once.
-/

namespace JLeaker

open CString

/-! ## Owners -/

/-- What has a list of records: a key of `ignore_referenced_by`, or a node. -/
inductive EntryOwner
  | key (classname : Str)
  | node (address : ℕ)
deriving DecidableEq

namespace EntryMemory

/-- The records in the list of an owner. -/
def listOf (mem : EntryMemory) : EntryOwner → List ℕ
  | .key classname => ((smGet mem.ignoreReferencedBy classname).getD []).map (·.id)
  | .node address => (mem.ignoreFields address).map (·.id)

/-- The record and its name are not freed, and the record is in one list, once. -/
structure InOneList (mem : EntryMemory) (i : ℕ) : Prop where
  name : i ∉ mem.freedNames
  entry : i ∉ mem.freedEntries
  owner : ∃! o, i ∈ mem.listOf o
  once : ∀ o, (mem.listOf o).count i ≤ 1

/-- The record and its name were freed once, and the record is in no list. -/
structure FreedOnce (mem : EntryMemory) (i : ℕ) : Prop where
  name : mem.freedNames.count i = 1
  entry : mem.freedEntries.count i = 1
  nobody : ∀ o, i ∉ mem.listOf o

/-- Who has which record. -/
def custody (mem : EntryMemory) : Custody EntryOwner ℕ := ⟨mem.listOf, mem.freedEntries⟩

@[simp] theorem held_custody (mem : EntryMemory) : mem.custody.held = mem.listOf := rfl

@[simp] theorem gone_custody (mem : EntryMemory) : mem.custody.gone = mem.freedEntries := rfl

/-- The records made so far are with one owner each, or were freed with their names. -/
structure Exact (mem : EntryMemory) : Prop where
  custody : mem.custody.Exact {i | i < mem.created}
  keys : KeysNodup mem.ignoreReferencedBy
  names : mem.freedNames = mem.freedEntries

theorem exact_init : init.Exact where
  custody := by
    have none : {i : ℕ | i < init.created} = ∅ :=
      Set.eq_empty_of_forall_notMem fun i h => Nat.not_lt_zero i h
    have empty : init.custody = Custody.empty := by
      refine congrArg₂ Custody.mk (funext fun o => ?_) rfl
      cases o <;> rfl
    rw [none, empty]
    exact Custody.exact_empty
  keys := keysNodup_nil
  names := rfl

/-! ## One call -/

theorem freeList_eq (mem : EntryMemory) (entries : List Entry) :
    mem.freeList entries = { mem with
      freedNames := mem.freedNames ++ entries.map (·.id)
      freedEntries := mem.freedEntries ++ entries.map (·.id) } := by
  unfold freeList
  induction entries generalizing mem with
  | nil => simp
  | cons e entries ih => simp [ih, freeEntry]

theorem step_freeMemoryNode (mem : EntryMemory) (node : ℕ) :
    mem.step (.freeMemoryNode node) = { mem with
      ignoreFields := Function.update mem.ignoreFields node []
      freedNames := mem.freedNames ++ (mem.ignoreFields node).map (·.id)
      freedEntries := mem.freedEntries ++ (mem.ignoreFields node).map (·.id) } := by
  show ({ mem.freeList (mem.ignoreFields node) with ignoreFields := _ } : EntryMemory) = _
  rw [freeList_eq]

theorem step_smDelete (mem : EntryMemory) :
    mem.step .smDelete = { mem with
      ignoreReferencedBy := []
      freedNames := mem.freedNames ++ (mem.ignoreReferencedBy.flatMap Prod.snd).map (·.id)
      freedEntries :=
        mem.freedEntries ++ (mem.ignoreReferencedBy.flatMap Prod.snd).map (·.id) } := by
  have all : mem.ignoreReferencedBy.foldl (fun mem pair => mem.freeList pair.2) mem =
      mem.freeList (mem.ignoreReferencedBy.flatMap Prod.snd) := List.foldl_flatMap.symm
  show ({ mem.ignoreReferencedBy.foldl (fun mem pair => mem.freeList pair.2) mem with
    ignoreReferencedBy := [] } : EntryMemory) = _
  rw [all, freeList_eq]

/-- The lists of all keys, one after another. -/
theorem flatMap_smGet {V : Type} {map : StrMap (List V)} (keys : KeysNodup map) :
    (map.map Prod.fst).flatMap (fun key => (smGet map key).getD []) = map.flatMap Prod.snd := by
  induction map with
  | nil => rfl
  | cons pair rest ih =>
    obtain ⟨unknown, keys'⟩ := List.nodup_cons.1 keys
    rw [List.map_cons, List.flatMap_cons, List.flatMap_cons, smGet_cons, if_pos rfl,
      Option.getD_some, ← ih keys']
    refine congrArg (pair.2 ++ ·) (List.flatMap_congr fun key hkey => ?_)
    have hne : key ≠ pair.1 := fun h => unknown (h ▸ hkey)
    rw [smGet_cons, if_neg hne]

end EntryMemory

/-- The node that gets a list has none. -/
def EntryCall.Fits (mem : EntryMemory) : EntryCall → Prop
  | .fillClassIgnoreList node _ _ => mem.ignoreFields node = []
  | _ => True

namespace EntryMemory

variable {mem : EntryMemory}

theorem Exact.iniHandler (exact : mem.Exact) (classname : Str) (newElement : IgnoreField) :
    (mem.step (.iniHandler classname newElement)).Exact where
  custody := by
    have received : (mem.step (.iniHandler classname newElement)).custody =
        mem.custody.receive (.key classname) mem.created := by
      refine congrArg₂ Custody.mk (funext fun o => ?_) rfl
      cases o with
      | key other =>
        show List.map _ ((smGet (smPut _ _ _) other).getD []) = _
        rw [smGet_smPut, Function.update_apply]
        simp only [EntryOwner.key.injEq]
        split_ifs
        · rfl
        · rfl
      | node address => rfl
    have more : {i : ℕ | i < mem.created + 1} = insert mem.created {i | i < mem.created} := by
      ext i
      simp only [Set.mem_ofPred_eq, Set.mem_insert_iff]
      omega
    rw [received]
    show Custody.Exact {i : ℕ | i < mem.created + 1} _
    rw [more]
    exact exact.custody.receive _ (by simp)
  keys := exact.keys.smPut _ _
  names := exact.names

theorem Exact.fillClassIgnoreList (exact : mem.Exact) {node : ℕ} (free : mem.ignoreFields node = [])
    (classname : Str) (fieldOffset : String → ℤ) :
    (mem.step (.fillClassIgnoreList node classname fieldOffset)).Exact := by
  unfold step
  dsimp only
  split_ifs
  · exact exact
  refine ⟨?_, exact.keys.smPut _ _, exact.names⟩
  have moved : ∀ mem' : EntryMemory, mem'.created = mem.created →
      mem'.freedEntries = mem.freedEntries →
      (∀ o, mem'.listOf o = if o = .key classname then [] else
        if o = .node node then mem.listOf (.key classname) else mem.listOf o) →
      mem'.custody.Exact {i | i < mem'.created} := by
    intro mem' created freed lists
    have same : mem'.custody = mem.custody.move (.key classname) (.node node) := by
      refine congrArg₂ Custody.mk (funext fun o => ?_) freed
      rw [lists, Function.update_apply, Function.update_apply]
      rfl
    rw [created, same]
    refine exact.custody.move (by simp) ?_
    show List.map _ (mem.ignoreFields node) = []
    rw [free, List.map_nil]
  refine moved _ rfl rfl fun o => ?_
  cases o with
  | key other =>
    show List.map _ ((smGet (smPut _ _ _) other).getD []) = _
    rw [smGet_smPut]
    by_cases h : other = classname
    · simp [h]
    · simp [h, listOf]
  | node address =>
    by_cases h : address = node
    · simp [h, listOf, Function.comp_def]
    · simp [h, listOf]

theorem custody_freeMemoryNode (mem : EntryMemory) (node : ℕ) :
    (mem.step (.freeMemoryNode node)).custody = mem.custody.giveUp [.node node] := by
  rw [step_freeMemoryNode]
  refine congrArg₂ Custody.mk (funext fun o => ?_) ?_
  · cases o with
    | key other => simp [listOf]
    | node address =>
      by_cases h : address = node
      · simp [h, listOf]
      · simp [h, listOf]
  · simp [listOf]

theorem custody_smDelete (mem : EntryMemory) (keys : KeysNodup mem.ignoreReferencedBy) :
    (mem.step .smDelete).custody =
      mem.custody.giveUp ((mem.ignoreReferencedBy.map Prod.fst).map .key) := by
  rw [step_smDelete]
  refine congrArg₂ Custody.mk (funext fun o => ?_) ?_
  · cases o with
    | key other =>
      by_cases known : other ∈ mem.ignoreReferencedBy.map Prod.fst
      · have key := List.mem_map_of_mem (f := EntryOwner.key) known
        rw [if_pos key]
        rfl
      · have key : EntryOwner.key other ∉ (mem.ignoreReferencedBy.map Prod.fst).map .key :=
          fun h => known (by simpa using h)
        rw [if_neg key]
        show [] = List.map _ ((smGet mem.ignoreReferencedBy other).getD [])
        rw [smGet_eq_none known]
        rfl
    | node address => simp [listOf]
  · rw [← flatMap_smGet keys, List.map_flatMap, List.flatMap_map (g := mem.custody.held)]
    rfl

theorem Exact.freeMemoryNode (exact : mem.Exact) (node : ℕ) :
    (mem.step (.freeMemoryNode node)).Exact where
  custody := by
    rw [custody_freeMemoryNode, step_freeMemoryNode]
    exact exact.custody.giveUp (List.nodup_singleton _)
  keys := by
    rw [step_freeMemoryNode]
    exact exact.keys
  names := by
    rw [step_freeMemoryNode]
    exact congrArg (· ++ _) exact.names

theorem Exact.smDelete (exact : mem.Exact) : (mem.step .smDelete).Exact where
  custody := by
    rw [custody_smDelete mem exact.keys, step_smDelete]
    exact exact.custody.giveUp (exact.keys.map fun _ _ h => EntryOwner.key.inj h)
  keys := keysNodup_nil
  names := by
    rw [step_smDelete]
    exact congrArg (· ++ _) exact.names

/-- Every call keeps each record with one owner, or frees it. -/
theorem Exact.step (exact : mem.Exact) (call : EntryCall) (fits : call.Fits mem) :
    (mem.step call).Exact := by
  cases call with
  | iniHandler classname newElement => exact exact.iniHandler classname newElement
  | fillClassIgnoreList node classname fieldOffset =>
    exact exact.fillClassIgnoreList fits classname fieldOffset
  | freeMemoryNode node => exact exact.freeMemoryNode node
  | smDelete => exact exact.smDelete

/-- What `Exact` says of one record. -/
theorem Exact.owned (exact : mem.Exact) {i : ℕ} (hi : i < mem.created) :
    mem.InOneList i ∨ mem.FreedOnce i := by
  by_cases freed : i ∈ mem.freedEntries
  · refine .inr ⟨?_, ?_, fun o ho => exact.custody.kept o i ho freed⟩
    · rw [exact.names]
      exact List.count_eq_one_of_mem exact.custody.gone_nodup freed
    · exact List.count_eq_one_of_mem exact.custody.gone_nodup freed
  · refine .inl ⟨?_, freed, exact.custody.existsUnique hi freed, fun o => ?_⟩
    · rw [exact.names]
      exact freed
    · exact List.nodup_iff_count_le_one.1 (exact.custody.nodup o) i

/-- When no list has a record, all of them are freed. -/
theorem Exact.freed (exact : mem.Exact) (nobody : ∀ o, mem.listOf o = []) {i : ℕ}
    (hi : i < mem.created) : mem.FreedOnce i := by
  refine (exact.owned hi).resolve_left fun h => ?_
  obtain ⟨o, ho, -⟩ := h.owner
  rw [nobody o] at ho
  cases ho

theorem after_append_singleton (calls : List EntryCall) (call : EntryCall) :
    after (calls ++ [call]) = (after calls).step call := by
  simp [after, List.foldl_append]

end EntryMemory

/-! ## The lists of the program -/

variable {Obj : Type}

/-- The ignored fields of the node at an address, none where no node is. -/
def ignoreFieldsAt (nodes : CHeap (MemoryNode Obj)) (a : ℕ) : List IgnoreField :=
  (nodes.get? a).elim [] (·.ignoreFields)

/-- A map without the addresses of its records. -/
def contentsOf (map : StrMap (List Entry)) : StrMap (List IgnoreField) :=
  map.map fun pair => (pair.1, pair.2.map (·.contents))

section

variable {nodes : CHeap (MemoryNode Obj)}

theorem ignoreFieldsAt_modify {f : MemoryNode Obj → MemoryNode Obj}
    (same : ∀ nd, (f nd).ignoreFields = nd.ignoreFields) (a b : ℕ) :
    ignoreFieldsAt (nodes.modify a f) b = ignoreFieldsAt nodes b := by
  unfold ignoreFieldsAt
  rw [CHeap.get?_modify]
  split_ifs
  · cases nodes.get? b with
    | none => rfl
    | some nd => exact same nd
  · rfl

theorem ignoreFieldsAt_alloc (m : Malloc) (nd : MemoryNode Obj) (b : ℕ) :
    ignoreFieldsAt (nodes.alloc m nd) b =
      if b = nodes.fresh m then nd.ignoreFields else ignoreFieldsAt nodes b := by
  unfold ignoreFieldsAt
  rw [CHeap.get?_alloc]
  split_ifs <;> rfl

theorem ignoreFieldsAt_of_notMem {a : ℕ} (ha : a ∉ nodes.dom) : ignoreFieldsAt nodes a = [] := by
  rw [ignoreFieldsAt, nodes.get?_of_notMem ha, Option.elim_none]

theorem ignoreFieldsAt_free (a b : ℕ) :
    ignoreFieldsAt (nodes.free a) b = if b = a then [] else ignoreFieldsAt nodes b := by
  unfold ignoreFieldsAt
  rw [CHeap.get?_free]
  split_ifs <;> rfl

theorem smGet_contentsOf (map : StrMap (List Entry)) (key : Str) :
    (smGet (contentsOf map) key).getD [] = ((smGet map key).getD []).map (·.contents) := by
  induction map with
  | nil => rfl
  | cons pair rest ih =>
    rw [contentsOf, List.map_cons, smGet_cons, smGet_cons]
    split_ifs
    · rfl
    · exact ih

theorem smPut_contentsOf (map : StrMap (List Entry)) (key : Str) (entries : List Entry) :
    contentsOf (smPut map key entries) = smPut (contentsOf map) key (entries.map (·.contents)) := by
  unfold smPut contentsOf
  rw [List.any_map]
  show List.map _ (if (map.any fun pair => pair.1 == key) = true then _ else _) =
    if (map.any fun pair => pair.1 == key) = true then _ else _
  split_ifs
  · rw [List.map_map, List.map_map]
    refine List.map_congr_left fun pair _ => ?_
    simp only [Function.comp]
    split_ifs <;> rfl
  · rw [List.map_append]
    rfl

end

/-- At all times along the calls each record is with one owner, or was freed. -/
def AlwaysExact (calls : List EntryCall) : Prop := ∀ k, (EntryMemory.after (calls.take k)).Exact

namespace AlwaysExact

variable {calls : List EntryCall}

theorem nil : AlwaysExact [] := by
  intro k
  rw [List.take_nil]
  exact EntryMemory.exact_init

theorem after (exact : AlwaysExact calls) : (EntryMemory.after calls).Exact := by
  have now := exact calls.length
  rwa [List.take_length] at now

theorem append (exact : AlwaysExact calls) (call : EntryCall)
    (fits : call.Fits (EntryMemory.after calls)) : AlwaysExact (calls ++ [call]) := by
  intro k
  by_cases h : k ≤ calls.length
  · rw [List.take_append_of_le_length h]
    exact exact k
  · have all : (calls ++ [call]).length ≤ k := by
      rw [List.length_append, List.length_singleton]
      omega
    rw [List.take_of_length_le all, EntryMemory.after_append_singleton]
    exact exact.after.step call fits

end AlwaysExact

/-- Each record has had one owner at all times, and the lists are those of the map and the nodes. -/
structure EntriesKept (calls : List EntryCall) (map : StrMap (List IgnoreField))
    (nodes : CHeap (MemoryNode Obj)) : Prop where
  exact : AlwaysExact calls
  map : contentsOf (EntryMemory.after calls).ignoreReferencedBy = map
  nodes : ∀ a, ((EntryMemory.after calls).ignoreFields a).map (·.contents) = ignoreFieldsAt nodes a

namespace EntriesKept

variable {calls : List EntryCall} {map map' : StrMap (List IgnoreField)}
  {nodes nodes' : CHeap (MemoryNode Obj)}

theorem init (none : nodes.dom = ∅) : EntriesKept [] [] nodes where
  exact := .nil
  map := rfl
  nodes a := (ignoreFieldsAt_of_notMem (none ▸ Finset.notMem_empty a)).symm

/-- The list of a node that has no ignored fields is empty. -/
theorem ignoreFields_eq_nil (kept : EntriesKept calls map nodes) {a : ℕ}
    (none : ignoreFieldsAt nodes a = []) : (EntryMemory.after calls).ignoreFields a = [] := by
  rw [← kept.nodes a] at none
  exact List.map_eq_nil_iff.1 none

/-- A step that changes no list. -/
theorem of_ignoreFieldsAt (kept : EntriesKept calls map nodes)
    (same : ∀ a, ignoreFieldsAt nodes' a = ignoreFieldsAt nodes a) : EntriesKept calls map nodes' :=
  ⟨kept.exact, kept.map, fun a => (kept.nodes a).trans (same a).symm⟩

end EntriesKept

end JLeaker
