import JLeaker.Lib.BlockHeap
import JLeaker.Model.Attach

/-!
# `strmap.c`: the hash table

A `StrMap` is an array of buckets, each an array of pairs of a key and a value.  The functions here work
on the buckets and on the blocks of the C heap.
-/

namespace JLeaker

open CString

/-! ## The table -/

/-- A `Pair`; its key is a string in a block of its own. -/
structure BucketPair (V : Type) where
  key : Str
  keyBlock : ℕ
  value : V

/-- A `Bucket`; `count` is the number of its pairs. -/
structure Bucket (V : Type) where
  pairs : List (BucketPair V)
  pairsBlock : Option ℕ

/-- A `StrMap` with its buckets; `count` is their number. -/
structure BucketMap (V : Type) where
  block : ℕ
  bucketsBlock : ℕ
  buckets : List (Bucket V)

/-- What goes wrong in `strmap.c`. -/
inductive StrMapFault
  /-- `hash(key) % map->count` with a `count` of zero. -/
  | divisionByZero
  /-- `strcpy` writes past the end of the block for the key. -/
  | bufferOverflow
deriving DecidableEq

/-- The C platform, and whether its `char` is signed. -/
structure CharPlatform extends CPlatform where
  charSigned : Bool

variable {V : Type} (cp : CharPlatform) (answers : ℕ → Bool)

/-- The conversion of a `char` to an `int`. -/
def CharPlatform.charToInt (c : Char) : ℤ :=
  if cp.charSigned then (c.toNat : ℤ).bmod 256 else (c.toNat : ℤ) % 256

namespace BucketMap

/-- `hash`. -/
def hash (str : Str) : ℕ :=
  str.foldl (fun (hash : ℕ) c =>
    ((((hash <<< 5) + hash : ℕ) + cp.charToInt c : ℤ) % 2 ^ cp.longBits).toNat) 5381

/-- `get_pair`: where the pair of a key stands in its bucket. -/
def getPair (pairs : List (BucketPair V)) (key : Str) : Option ℕ :=
  pairs.findIdx? fun pair => decide (pair.key = key)

/-- `sm_new`. -/
def smNew (capacity : ℕ) (heap : BlockHeap) : Option (BucketMap V) × BlockHeap :=
  match heap.malloc answers with
  | (none, heap) => (none, heap)
  | (some block, heap) =>
    match heap.malloc answers with
    | (none, heap) => (none, heap.free block)
    | (some bucketsBlock, heap) =>
      (some ⟨block, bucketsBlock, List.replicate capacity ⟨[], none⟩⟩, heap)

/-- The number of the bucket of a key. -/
def bucketIndex (map : BucketMap V) (key : Str) : Except StrMapFault ℕ :=
  if map.buckets.length = 0 then .error .divisionByZero
  else .ok (hash cp key % map.buckets.length)

/-- `map->buckets[index]`. -/
def bucket (map : BucketMap V) (index : ℕ) : Bucket V := map.buckets.getD index ⟨[], none⟩

/-- `sm_get`: the value it stores in `res`, if it returns 1. -/
def smGet : Option (BucketMap V) → Option Str → Except StrMapFault (Option V)
  | none, _ => .ok none
  | some _, none => .ok none
  | some map, some key => do
    let index ← map.bucketIndex cp key
    let pairs := (map.bucket index).pairs
    return ((getPair pairs key).bind (pairs[·]?)).map (·.value)

/-- `sm_exists`. -/
def smExists : Option (BucketMap V) → Option Str → Except StrMapFault Bool
  | none, _ => .ok false
  | some _, none => .ok false
  | some map, some key => do
    let index ← map.bucketIndex cp key
    return (getPair (map.bucket index).pairs key).isSome

/-- The block `sm_put` asks for has `key_len + 1` bytes, in an `unsigned int`; `strcpy` writes all
characters of the key and a NUL. -/
def keyFits (key : Str) : Bool := decide (key.length + 1 ≤ (key.length % 2 ^ 32 + 1) % 2 ^ 32)

/-- The part of `sm_put` after `get_pair` has found nothing. -/
def addPair (map : BucketMap V) (index : ℕ) (key : Str) (value : V) (heap : BlockHeap) :
    Except StrMapFault (BucketMap V × BlockHeap) :=
  match heap.malloc answers with
  | (none, heap) => .ok (map, heap)
  | (some newKey, heap) =>
    let bucket := map.bucket index
    -- the first pair of a bucket, or room for one more
    let (pairsBlock, heap) := if bucket.pairs.isEmpty then heap.malloc answers
      else heap.realloc answers bucket.pairsBlock
    match pairsBlock with
    | none => .ok (map, heap.free newKey)
    | some pairsBlock =>
      if keyFits key then
        .ok ({ map with
          buckets := map.buckets.set index
            ⟨bucket.pairs ++ [⟨key, newKey, value⟩], some pairsBlock⟩ }, heap)
      else .error .bufferOverflow

/-- `sm_put`: what it returns, the map and the heap. -/
def smPut (map : Option (BucketMap V)) (key : Option Str) (value : V) (heap : BlockHeap) :
    Except StrMapFault (Option V × Option (BucketMap V) × BlockHeap) :=
  match map, key with
  | none, _ => .ok (none, none, heap)
  | some map, none => .ok (none, some map, heap)
  | some map, some key => do
    let index ← map.bucketIndex cp key
    let bucket := map.bucket index
    match getPair bucket.pairs key with
    | some i =>
      return ((bucket.pairs[i]?).map (·.value),
        some { map with
          buckets := map.buckets.set index
            { bucket with pairs := bucket.pairs.modify i fun pair => { pair with value := value } } },
        heap)
    | none =>
      let (map, heap) ← map.addPair answers index key value heap
      return (none, some map, heap)

/-- `sm_get_count`. -/
def smGetCount : Option (BucketMap V) → ℤ
  | none => 0
  | some map =>
    toInt ((map.buckets.foldl (fun count bucket =>
      bucket.pairs.foldl (fun count _ => (count + 1) % 2 ^ 32) count) 0 : ℕ) : ℤ)

/-- `sm_enum`, for a function that may be NULL: what it returns, and what the calls leave of `obj`. -/
def smEnum {σ : Type} (enumFunc : Option (σ → Str → V → σ)) (obj : σ) :
    Option (BucketMap V) → Bool × σ
  | none => (false, obj)
  | some map =>
    match enumFunc with
    | none => (false, obj)
    | some enumFunc =>
      (true, map.buckets.foldl (fun obj bucket =>
        bucket.pairs.foldl (fun obj pair => enumFunc obj pair.key pair.value) obj) obj)

/-- The inner loop of `sm_delete`: `freed` are the values `free_func` got. -/
def freePair (st : List V × BlockHeap) (pair : BucketPair V) : List V × BlockHeap :=
  (st.1 ++ [pair.value], st.2.free pair.keyBlock)

/-- The outer loop of `sm_delete`. -/
def freeBucket (st : List V × BlockHeap) (bucket : Bucket V) : List V × BlockHeap :=
  let st := bucket.pairs.foldl freePair st
  (st.1, st.2.free? bucket.pairsBlock)

/-- `sm_delete`: the values `free_func` got, and the heap. -/
def smDelete (map : Option (BucketMap V)) (heap : BlockHeap) : List V × BlockHeap :=
  match map with
  | none => ([], heap)
  | some map =>
    let st := map.buckets.foldl freeBucket ([], heap)
    (st.1, (st.2.free map.bucketsBlock).free map.block)

end BucketMap

/-! ## Calls -/

/-- A call of a function of `strmap.c` on a map. -/
inductive SmCall (V : Type)
  | smGet (key : Option Str)
  | smExists (key : Option Str)
  | smPut (key : Option Str) (value : V)
  | smGetCount
  | smEnum

/-- What a call returns: `values` are the pairs a call of `sm_enum` hands to its function. -/
inductive SmAnswer (V : Type)
  | value (res : Option V)
  | old (res : Option V)
  | flag (res : Bool)
  | count (res : ℤ)
  | pairs (res : Bool) (values : List (Str × V))
deriving DecidableEq

/-- A map, and the heap. -/
structure SmState (V : Type) where
  map : Option (BucketMap V)
  heap : BlockHeap

/-- What a call does. -/
def SmState.call (st : SmState V) : SmCall V → Except StrMapFault (SmAnswer V × SmState V)
  | .smGet key => do
    let res ← BucketMap.smGet cp st.map key
    return (.value res, st)
  | .smExists key => do
    let res ← BucketMap.smExists cp st.map key
    return (.flag res, st)
  | .smPut key value => do
    let (old, map, heap) ← BucketMap.smPut cp answers st.map key value st.heap
    return (.old old, ⟨map, heap⟩)
  | .smGetCount => .ok (.count (BucketMap.smGetCount st.map), st)
  | .smEnum =>
    let (res, values) := BucketMap.smEnum (some fun pairs key value => pairs ++ [(key, value)]) []
      st.map
    .ok (.pairs res values, st)

/-- One call of a run, after the answers so far. -/
def SmState.step (st : List (SmAnswer V) × SmState V) (call : SmCall V) :
    Except StrMapFault (List (SmAnswer V) × SmState V) := do
  let (answer, state) ← st.2.call cp answers call
  return (st.1 ++ [answer], state)

/-- `sm_new`, and a run of calls. -/
def SmState.run (capacity : ℕ) (calls : List (SmCall V)) :
    Except StrMapFault (List (SmAnswer V) × SmState V) :=
  let (map, heap) := BucketMap.smNew answers capacity BlockHeap.empty
  calls.foldlM (SmState.step cp answers) ([], ⟨map, heap⟩)

/-! ## A configuration in two such maps -/

/-- The two maps while a configuration is read, and the heap. -/
structure BucketConfiguration where
  ignoreClasses : Option (BucketMap Unit)
  ignoreReferencedBy : Option (BucketMap (List IgnoreField))
  heap : BlockHeap

/-- The calls of `sm_new` in `parse_agent_options`. -/
def BucketConfiguration.new (heap : BlockHeap) : BucketConfiguration :=
  let (ignoreClasses, heap) := BucketMap.smNew answers 10 heap
  let (ignoreReferencedBy, heap) := BucketMap.smNew answers 10 heap
  ⟨ignoreClasses, ignoreReferencedBy, heap⟩

/-- `ini_handler`, for the maps only. -/
def iniHandlerBuckets (conf : BucketConfiguration) (sectionName name value : Str) :
    Except StrMapFault (Bool × BucketConfiguration) :=
  if sectionName = "ignore_classes".toList then do
    let (_, map, heap) ← BucketMap.smPut cp answers conf.ignoreClasses (some name) () conf.heap
    return (true, { conf with ignoreClasses := map, heap := heap })
  else if sectionName = "ignore_referenced_by".toList then
    let (v, endptr) := strtol cp.longBits value
    if endptr ≠ [] then .ok (false, conf)
    else
      match splitAtLastDot name with
      | none => .ok (false, conf)
      | some (classname, fieldName) =>
        if fieldName = [] then .ok (false, conf)
        else do
          let old ← BucketMap.smGet cp conf.ignoreReferencedBy (some classname)
          let newElement : IgnoreField := ⟨0, String.ofList fieldName, toInt v⟩
          let (_, map, heap) ← BucketMap.smPut cp answers conf.ignoreReferencedBy (some classname)
            (newElement :: old.getD []) conf.heap
          return (true, { conf with ignoreReferencedBy := map, heap := heap })
  else .ok (true, conf)

/-- `ini_handler` on the configuration so far; nothing is done after a fault. -/
def iniHandlerOrFault (conf : Except StrMapFault BucketConfiguration) (sectionName name value : Str) :
    Bool × Except StrMapFault BucketConfiguration :=
  match conf with
  | .error fault => (false, .error fault)
  | .ok conf =>
    match iniHandlerBuckets cp answers conf sectionName name value with
    | .error fault => (false, .error fault)
    | .ok (success, conf) => (success, .ok conf)

/-- What one `ini_parse` does to the two maps. -/
def readConfFileBuckets (files : Str → Option Str) (conf : Except StrMapFault BucketConfiguration)
    (name : Str) : Except StrMapFault BucketConfiguration :=
  (iniParse (iniHandlerOrFault cp answers) files name conf).2

namespace Sample

/-- 64-bit unix with a signed `char`. -/
def signedUnix64 : CharPlatform := ⟨unix64, true⟩

/-- Two keys, one of them put twice, and what is asked then. -/
def smCalls : List (SmCall ℕ) :=
  [.smPut (some "map".toList) 1, .smPut (some "set".toList) 2, .smPut (some "map".toList) 3,
    .smGet (some "map".toList), .smExists none, .smGetCount, .smEnum]

end Sample

end JLeaker
