import Lisplet.Editor.Definition
import Lisplet.Machine
import Lisplet.Session

/-!
# The index of a buffer

What an editor knows about a buffer without running it: the first error the reader finds, and the
definitions.
-/

namespace Lisplet.Editor

/-- an error and where it is: line and column, counted from zero -/
structure Diagnostic where
  message : String
  place : Nat × Nat
  deriving DecidableEq, Repr

def Diagnostic.ofError (e : ParseError) : Diagnostic :=
  ⟨e.message, (e.place.line - 1, e.place.column - 1)⟩

/-- the first error of a text that should be a program, read with the levels of a machine; blank
text has none -/
def checkSyntax (m : Machine) (text : String) : Option Diagnostic :=
  if (Text.trim text.toList).isEmpty then none
  else match Reading.unit (Reader.ofText text (.empty Session.tableId) (.ofLevels m.limit)) with
    | .ok _ _ => none
    | .error e _ => some (.ofError e)

structure Index where
  error : Option Diagnostic
  definitions : List Definition
  deriving DecidableEq, Repr

def Index.ofText (m : Machine) (text : String) : Index :=
  ⟨checkSyntax m text, Editor.definitions text.toList⟩

def Index.get? (i : Index) (name : String) : Option Definition :=
  i.definitions.find? fun d => d.name = name

/-! ## what is shown for a word -/

/-- names that are known everywhere, with what they take and give -/
def signatures : List (String × String) :=
  [("println", "(println value...) -> nil"),
   ("plus", "(plus a b) -> integer"),
   ("minus", "(minus a b) -> integer"),
   ("mul", "(mul a b) -> integer"),
   ("div", "(div a b) -> integer"),
   ("lt", "(lt a b) -> boolean"),
   ("le", "(le a b) -> boolean"),
   ("gt", "(gt a b) -> boolean"),
   ("ge", "(ge a b) -> boolean"),
   ("not", "(not b) -> boolean"),
   ("if", "(if condition then else) -> value"),
   ("lambda", "(lambda (params) body) -> function"),
   ("let", "(let name value) -> nil")]

/-- line and column, counted from one -/
def Definition.placeText (d : Definition) : String :=
  countText (d.line + 1) ++ ":" ++ countText (d.column + 1)

def Definition.hover (d : Definition) : String :=
  match d.params with
  | some ps => "(lambda (" ++ ps ++ ") ...) defined at " ++ d.placeText
  | none => d.name ++ ": var (defined at " ++ d.placeText ++ ")"

/-- what is shown for a word: a signature goes before a definition -/
def Index.hover? (i : Index) (word : String) : Option String :=
  match signatures.lookup word with
  | some s => some s
  | none => (i.get? word).map Definition.hover

end Lisplet.Editor
