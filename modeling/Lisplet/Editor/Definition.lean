import Lisplet.Text.Blank
import Lisplet.Text.Place

/-!
# Definitions in a buffer

A buffer that is being edited need not be readable, so its definitions are found by a scan of the
text and not by the reader.  A definition is an opening bracket, `let`, white space and a name of
small letters, with white space allowed after the bracket.  If an opening bracket, `lambda` and a
list of small letters and white space between brackets follow, it defines a function and the list
holds its parameters.

The scan goes from left to right and goes on after the end of what it has found, so that definitions
never overlap.
-/

namespace Lisplet.Editor

open Text

/-- what stands after a word at the start of a text -/
def after? : (word text : List Char) → Option (List Char)
  | [], rest => some rest
  | _ :: _, [] => none
  | w :: ws, c :: cs => if w = c then after? ws cs else none

theorem after?_eq_some {word text rest : List Char} (h : after? word text = some rest) :
    text = word ++ rest := by
  induction word generalizing text with
  | nil =>
    injection h with h
  | cons w ws ih =>
    cases text with
    | nil => exact absurd h (by simp [after?])
    | cons c cs =>
      by_cases e : w = c
      · rw [after?, if_pos e] at h
        rw [e, ih h, List.cons_append]
      · rw [after?, if_neg e] at h
        exact absurd h (by simp)

def skipBlank (text : List Char) : List Char := text.dropWhile isBlank

/-- what may stand between the brackets of a parameter list -/
def isParamChar (c : Char) : Bool := c.isLower || isBlank c

/-- the parameter list at the start of a text, and what follows it -/
def params? (text : List Char) : Option (List Char × List Char) := do
  let rest ← after? ['('] text
  let rest ← after? ['l', 'a', 'm', 'b', 'd', 'a'] (skipBlank rest)
  let rest ← after? ['('] (skipBlank rest)
  let rest' ← after? [')'] (rest.dropWhile isParamChar)
  return (rest.takeWhile isParamChar, rest')

structure Match where
  name : List Char
  /-- what stands from the name on -/
  fromName : List Char
  params : Option (List Char)
  rest : List Char

def match? (text : List Char) : Option Match := do
  let rest ← after? ['('] text
  let rest ← after? ['l', 'e', 't'] (skipBlank rest)
  let fromName := skipBlank rest
  let name := fromName.takeWhile Char.isLower
  if fromName.length < rest.length ∧ name ≠ [] then
    let rest := skipBlank (fromName.dropWhile Char.isLower)
    match params? rest with
    | some (params, rest') => return ⟨name, fromName, some params, rest'⟩
    | none => return ⟨name, fromName, none, rest⟩
  else none

structure Found where
  name : List Char
  offset : Nat
  params : Option (List Char)
  deriving DecidableEq, Repr

/-- the definitions of a text that starts at an offset, without its first `skip` characters -/
def foundFrom : (skip offset : Nat) → (text : List Char) → List Found
  | _, _, [] => []
  | skip + 1, offset, _ :: cs => foundFrom skip (offset + 1) cs
  | 0, offset, c :: cs =>
    match match? (c :: cs) with
    | none => foundFrom 0 (offset + 1) cs
    | some m =>
      ⟨m.name, offset + ((c :: cs).length - m.fromName.length), m.params⟩
        :: foundFrom (cs.length - m.rest.length) (offset + 1) cs

def found (text : List Char) : List Found := foundFrom 0 0 text

/-! ## definitions as an editor shows them -/

/-- a definition: name, place (from zero) and, for a function, its parameters -/
structure Definition where
  name : String
  line : Nat
  column : Nat
  params : Option String
  deriving DecidableEq, Repr

/-- parameters with one blank between two of them -/
def paramText (cs : List Char) : String :=
  String.intercalate " " ((words cs).map String.ofList)

def Found.definition (text : List Char) (f : Found) : Definition :=
  let p := position text f.offset
  ⟨String.ofList f.name, p.1, p.2, f.params.map paramText⟩

/-- definitions by name: a later one takes the place of an earlier one of that name -/
def put (d : Definition) : List Definition → List Definition
  | [] => [d]
  | e :: es => if e.name = d.name then d :: es else e :: put d es

/-- the definitions of a text, in the order in which their names first appear -/
def definitions (text : List Char) : List Definition :=
  ((found text).map (Found.definition text)).foldl (fun ds d => put d ds) []

end Lisplet.Editor
