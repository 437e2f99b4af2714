import Lisplet.Reading.Reader

/-!
# Reading as an automaton

The reader calls itself for the items of a list.  What it does with a text can also be told without
calls, by an automaton that takes one character at a time.  Its state (`Pending`) is the stack of
the lists that are open, with the items each has so far, and what is being read right now (`Mode`):
nothing, a comment, a name, an integer, a string, or an escape in a string.  Beside the state it
keeps the same `Marks` as the reader.

A name or an integer goes on as long as it can, so it ends at the first character that does not
belong to it, and that character is looked at again as what follows (`gapStep`).  A closing bracket
makes the innermost open list an item of the one around it, or ends the reading if there is none.

`step` looks at one character and `scan` runs the automaton to its end.  Since `scan` recurs on the
text, what it does with a prefix of the text never depends on what comes later.  That the reader
does the same is shown in `Descent`.
-/

namespace Lisplet

open Text (Place)

/-- what lies before a reader, whether or not it has looked at the first character of it -/
structure Outlook where
  rest : List Char
  marks : Marks
  limits : Limits

def Reader.outlook (r : Reader) : Outlook := ⟨r.left, r.marks, r.limits⟩

/-- what is being read; characters are kept last first -/
inductive Mode where
  | gap
  | comment
  | name (taken : List Char)
  | number (value : Nat)
  | text (taken : List Char)
  | escape (taken : List Char)
  deriving DecidableEq, Repr

/-- the open lists, innermost first, each with its items, last first; and what is being read -/
structure Pending where
  opened : List (List Value)
  mode : Mode

/-- what one character does to a reading -/
inductive Step where
  /-- the character is taken and reading goes on -/
  | more (p : Pending) (m : Marks)
  /-- the expression has ended before the character -/
  | ended (v : Value) (m : Marks)
  /-- the expression ends with the character -/
  | closed (v : Value) (m : Marks)
  /-- the character is not taken: it cannot stand here -/
  | refused (e : ParseError) (m : Marks)
  /-- the character is taken, and it spoils what is being read -/
  | spoilt (e : ParseError) (m : Marks)

/-! ## names and numbers -/

/-- a name has ended: a literal, or a symbol of the table -/
def nameEnd (m : Marks) (taken : List Char) : Value × Marks :=
  let name := String.ofList taken.reverse
  match literalName? name with
  | some v => (v, m)
  | none => (.symbol (m.table.symFor name).1, m.named name)

def numberEnd (m : Marks) (value : Nat) : Value × Marks := (.int value, m.counted value)

def digitStep (lim : Limits) (opened : List (List Value)) (value : Nat) (m : Marks) (c : Char) :
    Step :=
  let v := value * 10 + (c.toNat - '0'.toNat)
  if Integer.fits lim.width v then .more ⟨opened, .number v⟩ (m.taking c)
  else .spoilt (.placed .integerRange (m.taking c).place) (m.taking c)

/-! ## one character -/

def closeStep (opened : List (List Value)) (m : Marks) (c : Char) : Step :=
  match opened with
  | [] => .refused (.placed (.notAnExpression c) m.place) m
  | [items] => .closed (.list items.reverse) (m.taking c)
  | items :: outer :: others => .more ⟨(.list items.reverse :: outer) :: others, .gap⟩ (m.taking c)

/-- a character between two items of the innermost open list -/
def gapStep (lim : Limits) (opened : List (List Value)) (m : Marks) (c : Char) : Step :=
  if isGap c then .more ⟨opened, .gap⟩ (m.taking c)
  else if c = ';' then .more ⟨opened, .comment⟩ (m.taking c)
  else if c = ')' then closeStep opened m c
  else if c = '(' then
    if opened.length < lim.depth then .more ⟨[] :: opened, .gap⟩ (m.taking c)
    else .refused (.tooDeep m.place) m
  else if c = '"' then .more ⟨opened, .text []⟩ (m.taking c)
  else if c.isLower then .more ⟨opened, .name [c]⟩ (m.taking c)
  else if c.isDigit then digitStep lim opened 0 m c
  else .refused (.placed (.notAnExpression c) m.place) m

/-- a value has ended before the character `c`: it is the whole, or an item of the innermost open
list and `c` comes after it -/
def itemStep (lim : Limits) (opened : List (List Value)) (v : Value) (m : Marks) (c : Char) :
    Step :=
  match opened with
  | [] => .ended v m
  | items :: outer => gapStep lim ((v :: items) :: outer) m c

/-- a string ends with the character `c` -/
def textEnd (opened : List (List Value)) (taken : List Char) (m : Marks) (c : Char) : Step :=
  let v := Value.str (String.ofList taken.reverse)
  match opened with
  | [] => .closed v (m.taking c)
  | items :: outer => .more ⟨(v :: items) :: outer, .gap⟩ (m.taking c)

def step (lim : Limits) (p : Pending) (m : Marks) (c : Char) : Step :=
  match p.mode with
  | .gap => gapStep lim p.opened m c
  | .comment => .more ⟨p.opened, if c = '\n' then .gap else .comment⟩ (m.taking c)
  | .name taken =>
    if c.isLower then .more ⟨p.opened, .name (c :: taken)⟩ (m.taking c)
    else itemStep lim p.opened (nameEnd m taken).1 (nameEnd m taken).2 c
  | .number value =>
    if c.isDigit then digitStep lim p.opened value m c
    else itemStep lim p.opened (numberEnd m value).1 (numberEnd m value).2 c
  | .text taken =>
    if c = '"' then textEnd p.opened taken m c
    else if c = '\\' then .more ⟨p.opened, .escape taken⟩ (m.taking c)
    else .more ⟨p.opened, .text (c :: taken)⟩ (m.taking c)
  | .escape taken =>
    match Text.escapeMeaning? c with
    | some d => .more ⟨p.opened, .text (d :: taken)⟩ (m.taking c)
    | none => .spoilt (.placed (.invalidEscape c) m.place) (m.taking c)

/-- a value has ended with the text -/
def itemAtEnd (lim : Limits) (opened : List (List Value)) (v : Value) (m : Marks) :
    EStateM.Result ParseError Outlook Value :=
  match opened with
  | [] => .ok v ⟨[], m, lim⟩
  | _ :: _ => .error (.placed .endInList m.place) ⟨[], m, lim⟩

def atEnd (lim : Limits) (p : Pending) (m : Marks) : EStateM.Result ParseError Outlook Value :=
  match p.mode with
  | .gap | .comment => .error (.placed .endInList m.place) ⟨[], m, lim⟩
  | .name taken => itemAtEnd lim p.opened (nameEnd m taken).1 (nameEnd m taken).2
  | .number value => itemAtEnd lim p.opened (numberEnd m value).1 (numberEnd m value).2
  | .text _ | .escape _ => .error (.placed .endInString m.place) ⟨[], m, lim⟩

/-- runs the automaton until the expression has ended or cannot go on -/
def scan (lim : Limits) (p : Pending) (m : Marks) :
    List Char → EStateM.Result ParseError Outlook Value
  | [] => atEnd lim p m
  | c :: cs =>
    match step lim p m c with
    | .more p' m' => scan lim p' m' cs
    | .ended v m' => .ok v ⟨c :: cs, m', lim⟩
    | .closed v m' => .ok v ⟨cs, m', lim⟩
    | .refused e m' => .error e ⟨c :: cs, m', lim⟩
    | .spoilt e m' => .error e ⟨cs, m', lim⟩

theorem scan_nil (lim : Limits) (p : Pending) (m : Marks) : scan lim p m [] = atEnd lim p m := rfl

theorem scan_cons_of_more {lim : Limits} {p p' : Pending} {m m' : Marks} {c : Char} {cs : List Char}
    (h : step lim p m c = .more p' m') : scan lim p m (c :: cs) = scan lim p' m' cs := by
  rw [scan, h]

end Lisplet
