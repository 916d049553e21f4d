import JLeaker.Lib.CString

/-!
# `agent_util.c`: the output

A dump is one XML document, declared as ISO-8859-1: the characters of the strings stand for their
bytes.  `echo_xml_element` prints one tag on a line of its own, indented by the depth of the open
elements.
-/

namespace JLeaker

open CString

/-- The types of an `OutputStream`. -/
inductive OutputStream
  | file
  | win32Sock
deriving DecidableEq

/-- `vsnprintf` of Visual Studio 2010 (the Windows build) of a text that is formatted already: a text as
long as the buffer is stored whole, without a terminator. -/
def vsnprintf (count : ℕ) (text : Str) : Str := text.take count

/-- `myPrintf` of a text that is formatted already.  For a Windows socket as many bytes as the text has
are stored in a buffer and sent. -/
def myPrintf (f : OutputStream) (text : Str) : Str :=
  match f with
  | .file => text
  | .win32Sock => vsnprintf text.length text

@[simp] theorem myPrintf_eq (f : OutputStream) (text : Str) : myPrintf f text = text := by
  cases f with
  | file => rfl
  | win32Sock => exact List.take_length

/-- `escapeString`. -/
def escapeString (s : Str) : Str :=
  if s.count '"' = 0 then s
  else s.flatMap fun c => if c = '"' then "&quot;".toList else [c]

/-- `apply_xml_identation`. -/
def applyXmlIdentation (f : OutputStream) (xmlDepth : ℕ) : Str :=
  (List.range xmlDepth).flatMap fun _ => myPrintf f ['\t']

/-- `echo_xml_element`; `attrs` are the names and values before the terminating NULL. -/
def echoXmlElement (f : OutputStream) (xmlDepth : ℕ) (tag endTag : Str) (attrs : List (Str × Str)) :
    Str :=
  applyXmlIdentation f xmlDepth ++ myPrintf f ("<".toList ++ tag) ++
    (attrs.flatMap fun (attr, value) =>
      myPrintf f (" ".toList ++ attr ++ "=\"".toList ++ escapeString value ++ "\"".toList)) ++
    myPrintf f (endTag ++ ">\n".toList)

/-- `complete_xml_element`. -/
def completeXmlElement (f : OutputStream) (xmlDepth : ℕ) (tag : Str) (attrs : List (Str × Str)) :
    Str := echoXmlElement f xmlDepth tag " /".toList attrs

/-- `open_xml_element`: the text, and the new depth. -/
def openXmlElement (f : OutputStream) (xmlDepth : ℕ) (tag : Str) (attrs : List (Str × Str)) :
    Str × ℕ := (echoXmlElement f xmlDepth tag [] attrs, xmlDepth + 1)

/-- `close_xml_element`: the text, and the new depth. -/
def closeXmlElement (f : OutputStream) (xmlDepth : ℕ) (tag : Str) : Str × ℕ :=
  (applyXmlIdentation f (xmlDepth - 1) ++ myPrintf f ("</".toList ++ tag ++ ">\n".toList),
    xmlDepth - 1)

end JLeaker
