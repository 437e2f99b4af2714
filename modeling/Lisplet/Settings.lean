import Lisplet.Machine
import Lisplet.Session
import Lisplet.Text.Blank
import Lisplet.Text.Decimal

/-!
# Settings

Two variables change how a session runs: one names the level of the log, the other the number of
stack levels.  A value that means nothing is ignored; to raise the limit of the machine beyond
`maxLevels` is a fault.
-/

namespace Lisplet.Settings

/-! ## the level of the log -/

/-- the capital of a letter of a level name.  Besides the small letters, dotless i and long s have
plain capitals. -/
def capital (c : Char) : Char :=
  if c = '\u0131' then 'I' else if c = '\u017f' then 'S' else c.toUpper

def levelOf? (name : String) : Option Level :=
  Level.ofName? (String.ofList (name.toList.map capital))

/-- the level a variable asks for, and otherwise that of warnings -/
def level (given : Option String) : Level :=
  match given with
  | none => .warning
  | some s => (levelOf? (String.ofList (Text.trim s.toList))).getD .warning

/-! ## the number of stack levels

A decimal number: digits of any script, single underscores between them, a sign in front and white
space around it. -/

/-- white space around a number; the separators U+001C to U+001F do not count -/
def isNumberBlank (c : Char) : Bool := Text.isBlank c && !(0x1C ≤ c.toNat && c.toNat ≤ 0x1F)

/-- reads digits; `value` and `count` tell the number and how many digits there are so far, and
`afterDigit` whether an underscore may come next -/
def digitsFrom (value count : Nat) (afterDigit : Bool) : List Char → Option (Nat × Nat)
  | [] => if afterDigit then some (value, count) else none
  | c :: cs =>
    if c = '_' then
      if afterDigit then digitsFrom value count false cs else none
    else match Text.digitValue? c with
      | some d => digitsFrom (value * 10 + d) (count + 1) true cs
      | none => none

def natural? (cs : List Char) : Option Nat :=
  match digitsFrom 0 0 false cs with
  | some (n, count) => if count ≤ Integer.maxDigits then some n else none
  | none => none

def integer? (text : String) : Option Int :=
  match Text.trimBy isNumberBlank text.toList with
  | '-' :: cs => (natural? cs).map fun n => -(n : Int)
  | '+' :: cs => (natural? cs).map fun n => (n : Int)
  | cs => (natural? cs).map fun n => (n : Int)

/-- the limit a variable asks for if it is a positive number, and otherwise the standard one -/
def limit (given : Option String) : Nat :=
  match given.bind integer? with
  | some n => if 0 < n then n.toNat else Session.standardLevels
  | none => Session.standardLevels

def maxLevels : Nat := Nat.pow 2 31 - 1

/-- the levels of a session: the limit of the machine, raised to the one that is asked for if that
is greater -/
def levels (m : Machine) (given : Option String) : Except Failure Nat :=
  if limit given ≤ m.limit then .ok m.limit
  else if maxLevels < limit given then .error (.fault .tooManyLevels)
  else .ok (limit given)

section
variable {m : Machine} {given : Option String}

theorem levels_of_le (h : limit given ≤ max m.limit maxLevels) :
    levels m given = .ok (max m.limit (limit given)) := by
  unfold levels
  by_cases hm : limit given ≤ m.limit
  · rw [if_pos hm, Nat.max_eq_left hm]
  · rw [if_neg hm, if_neg (by omega), Nat.max_eq_right (by omega)]

theorem levels_of_lt (h : max m.limit maxLevels < limit given) :
    levels m given = .error (.fault .tooManyLevels) := by
  unfold levels
  rw [if_neg (by omega), if_pos (by omega)]

end

/-! ## the variables -/

def levelVariable : String := "MINILISP_LOG_LEVEL"

def limitVariable : String := "MINILISP_RECURSION_LIMIT"

end Lisplet.Settings
