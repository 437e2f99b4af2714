import Lisplet.Failure
import Lisplet.Text.Alphabetic
import Lisplet.Text.Rows

/-!
# The word at the cursor

A cursor stands between two characters of a row.  The word at the cursor is the longest run of
letters that ends or goes on there.  It is looked for from the cursor outwards, a character at a
time: to the left the row is asked for the character before the cursor, even if it has none there,
and to the right only for characters that it has.
-/

namespace Lisplet.Editor

/-- where the letters right before a cursor start; the fault names the character that the row has
not -/
def wordStart (row : List Char) : Nat → Except Failure Nat
  | 0 => .ok 0
  | k + 1 =>
    match row[k]? with
    | none => .error (.fault (.noCharacter k))
    | some c => if Text.isAlphabetic c then wordStart row k else .ok (k + 1)

def wordEnd (row : List Char) (k : Nat) : Nat :=
  if h : k < row.length then
    if Text.isAlphabetic (row.get ⟨k, h⟩) then wordEnd row (k + 1) else k
  else k
termination_by row.length - k

def wordOf? : List Char → Option String
  | [] => none
  | cs => some (String.ofList cs)

/-- the word at a cursor, if a letter touches it; a row that does not exist has no word -/
def wordAt (text : String) (line character : Nat) : Except Failure (Option String) :=
  match (Text.rows text.toList)[line]? with
  | none => .ok none
  | some row => (wordStart row character).map fun s =>
      wordOf? (row.extract s (wordEnd row character))

end Lisplet.Editor
