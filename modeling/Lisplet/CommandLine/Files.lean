import Lisplet.Integer
import Lisplet.Text.Quoted
import Lisplet.Text.Utf8

/-!
# Files

A path is cut at its slashes; empty parts and single dots say nothing and are dropped.  One leading
slash, or three and more, make it start at the root, and two leading slashes stay two.

What opening a file gives comes from the machine: bytes, or a fault.  `load` makes a text of it.
-/

namespace Lisplet.CommandLine

/-- a path in its shortest form -/
structure Path where
  /-- the slashes it starts with: none, one or two -/
  root : String
  parts : List String
  deriving DecidableEq, Repr

namespace Path

def cut (s : String) : List String := s.splitOn "/"

def ofText (s : String) : Path :=
  let slashes := (s.toList.takeWhile (· = '/')).length
  let root := if slashes = 0 then "" else if slashes = 2 then "//" else "/"
  ⟨root, (cut s).filter fun part => part ≠ "" && part ≠ "."⟩

def text (p : Path) : String :=
  if p.root = "" && p.parts.isEmpty then "." else p.root ++ String.intercalate "/" p.parts

/-- a null character is in the path; no system takes such a path -/
def hasNull (p : Path) : Bool := p.text.toList.contains '\x00'

end Path

/-- why a file cannot be opened: the number and the text of the system's error -/
structure FileFault where
  number : Nat
  text : String
  deriving DecidableEq, Repr

namespace FileFault

def notFound : FileFault := ⟨2, "No such file or directory"⟩
def notADirectory : FileFault := ⟨20, "Not a directory"⟩
def isADirectory : FileFault := ⟨21, "Is a directory"⟩
def nameTooLong : FileFault := ⟨36, "File name too long"⟩

def message (f : FileFault) (p : Path) : String :=
  "[Errno " ++ String.ofList (Integer.digits f.number) ++ "] " ++ f.text ++ ": "
    ++ Text.quoted p.text

end FileFault

inductive LoadFault where
  | file (f : FileFault)
  | encoding (f : Text.Utf8Fault)

def LoadFault.message (p : Path) : LoadFault → String
  | .file f => f.message p
  | .encoding f => f.message

/-- the text of bytes: strict UTF-8, with every line end a line feed -/
def textOfBytes (bytes : List UInt8) : Except LoadFault String :=
  match Text.decodeUtf8 bytes with
  | .ok cs => .ok (String.ofList (Text.lineFeeds cs))
  | .error f => .error (.encoding f)

/-- the text of a file, given what opening it gives -/
def load (opened : Except FileFault (List UInt8)) : Except LoadFault String :=
  match opened with
  | .ok bytes => textOfBytes bytes
  | .error f => .error (.file f)

end Lisplet.CommandLine
