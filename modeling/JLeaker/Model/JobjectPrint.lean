import Mathlib.Data.Int.Notation
import JLeaker.Model.XmlOutput

/-!
# `jobject_print.c`: printing a leaking container

The first `num_elements_to_dump` elements of a collection, or entries of a map, are printed as one XML
element each.  Their texts come from methods of the application's own objects; the JNI returns NULL
for a method that returned null or threw.
-/

namespace JLeaker

open CString

variable {Obj : Type}

/-- What goes wrong while an object is printed. -/
inductive PrintFault
  /-- `escapeString` was given NULL. -/
  | nullString
  /-- A method was called on NULL. -/
  | nullReceiver
deriving DecidableEq

/-- What the methods of the application's objects return; `none` is NULL. -/
structure JavaMethods (Obj : Type) where
  toString : Obj → Option Obj
  getKey : Obj → Option Obj
  getValue : Obj → Option Obj
  entrySet : Obj → Option Obj
  entries : Obj → Option Obj
  /-- `iterator()`: what `next()` returns as long as `hasNext()` does not return false. -/
  iterator : Obj → Option (List (Option Obj))
  /-- `GetStringUTFChars`. -/
  getStringUTFChars : Obj → Option Str

/-- `complete_xml_element` with values that may be NULL; it passes each to `escapeString`. -/
def completeXmlElementOf (f : OutputStream) (xmlDepth : ℕ) (tag : Str)
    (attrs : List (Str × Option Str)) : Except PrintFault Str := do
  let attrs ← attrs.mapM fun (attr, value) =>
    match value with
    | none => .error .nullString
    | some value => .ok (attr, value)
  return completeXmlElement f xmlDepth tag attrs

variable (methods : JavaMethods Obj) (f : OutputStream)

/-- The text of an object, by way of `toString()`. -/
def utfOf (obj : Option Obj) : Option Str := do
  let objString ← methods.toString (← obj)
  methods.getStringUTFChars objString

/-- `printNormalObject`. -/
def printNormalObject (xmlDepth : ℕ) (obj : Option Obj) : Except PrintFault Str :=
  completeXmlElementOf f xmlDepth "collection-element".toList
    [("value".toList, utfOf methods obj)]

/-- `printEntryObject`. -/
def printEntryObject (xmlDepth : ℕ) (obj : Option Obj) : Except PrintFault Str :=
  match obj with
  | none => .error .nullReceiver
  | some obj =>
    completeXmlElementOf f xmlDepth "map-element".toList
      [("key".toList, utfOf methods (methods.getKey obj)),
        ("value".toList, utfOf methods (methods.getValue obj))]

/-- The loop of `printCollectionUsingMethod`. -/
def printElements (printSingleObject : Option Obj → Except PrintFault Str) :
    ℤ → List (Option Obj) → Except PrintFault Str
  | _, [] => .ok []
  | limit, obj :: rest =>
    if limit > 0 then do
      let text ← printSingleObject obj
      let texts ← printElements printSingleObject (limit - 1) rest
      return text ++ texts
    else .ok []

/-- `printCollectionUsingMethod`; `limit` is `num_elements_to_dump`. -/
def printCollectionUsingMethod (printSingleObject : Option Obj → Except PrintFault Str) (limit : ℤ)
    (collection : Obj) : Except PrintFault Str :=
  match methods.iterator collection with
  | none => if limit > 0 then .error .nullReceiver else .ok []
  | some elements => printElements printSingleObject limit elements

/-- `printCollection`. -/
def printCollection (xmlDepth : ℕ) (limit : ℤ) (collection : Obj) : Except PrintFault Str := do
  let (opening, xmlDepth) := openXmlElement f xmlDepth "collection".toList []
  let texts ← printCollectionUsingMethod methods (printNormalObject methods f xmlDepth) limit
    collection
  return opening ++ texts ++ (closeXmlElement f xmlDepth "collection".toList).1

/-- The body that `printMap` and `printMultiMap` share: the entries of a map, or an error element. -/
def printEntries (xmlDepth : ℕ) (limit : ℤ) (tag error : Str) (entries : Option Obj) :
    Except PrintFault Str := do
  let (opening, xmlDepth) := openXmlElement f xmlDepth tag []
  let texts ← match entries with
    | none => completeXmlElementOf f xmlDepth "error".toList [("message".toList, some error)]
    | some entries =>
      printCollectionUsingMethod methods (printEntryObject methods f xmlDepth) limit entries
  return opening ++ texts ++ (closeXmlElement f xmlDepth tag).1

/-- `printMap`. -/
def printMap (xmlDepth : ℕ) (limit : ℤ) (map : Obj) : Except PrintFault Str :=
  printEntries methods f xmlDepth limit "map".toList
    "Failed to invoke entrySet() on this map".toList (methods.entrySet map)

/-- `printMultiMap`. -/
def printMultiMap (xmlDepth : ℕ) (limit : ℤ) (map : Obj) : Except PrintFault Str :=
  printEntries methods f xmlDepth limit "multi-map".toList
    "Failed to invoke entries() on this multi-map".toList (methods.entries map)

end JLeaker
