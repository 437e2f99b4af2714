/-!
# Escapes in string literals

A string literal stands between double quotes.  Five characters are written as a backslash and a
letter of their own: line feed, tab, carriage return, the double quote and the backslash.  Writing
(`escapeLetter?`) and reading (`escapeMeaning?`) are inverse to each other, so a text survives being
written and read, whatever characters it has.
-/

namespace Lisplet.Text

/-- the letter after the backslash that stands for `c`, if `c` has to be escaped -/
def escapeLetter? (c : Char) : Option Char :=
  if c = '\n' then some 'n'
  else if c = '\t' then some 't'
  else if c = '\r' then some 'r'
  else if c = '"' then some '"'
  else if c = '\\' then some '\\'
  else none

/-- the character that a backslash followed by `e` stands for -/
def escapeMeaning? (e : Char) : Option Char :=
  if e = 'n' then some '\n'
  else if e = 't' then some '\t'
  else if e = 'r' then some '\r'
  else if e = '"' then some '"'
  else if e = '\\' then some '\\'
  else none

theorem escapeMeaning?_of_escapeLetter? {c e : Char} (h : escapeLetter? c = some e) :
    escapeMeaning? e = some c := by
  unfold escapeLetter? at h
  repeat' split at h
  all_goals first
    | (injection h with h; subst h; rename_i hc; rw [hc]; rfl)
    | exact absurd h (by simp)

/-- a character that is written as itself is neither a quote nor a backslash -/
theorem escapeLetter?_eq_none {c : Char} (h : escapeLetter? c = none) : c ≠ '"' ∧ c ≠ '\\' := by
  unfold escapeLetter? at h
  repeat' split at h
  all_goals simp_all

def literalChar (c : Char) : List Char :=
  match escapeLetter? c with
  | some e => ['\\', e]
  | none => [c]

/-- a text as a string literal, quotes included -/
def literal (cs : List Char) : List Char := '"' :: cs.flatMap literalChar ++ ['"']

end Lisplet.Text
