import Lisplet.Reading.Basic
import Lisplet.Text.Escape

/-!
# The reader

Reading is recursive descent with one character of lookahead.  Each operation may fail, and keeps
what it has taken when it fails: the text that is left, the place and the names interned.

* `peek`, `advance`, `expect`, `takeWhile`, `skipGap` work on characters;
* `name`, `string`, `integer`, `list` read one expression of their kind, `item` one of any kind;
* `unit` reads a whole text that is one list, the forms of a program; `expression` reads a whole
  text that is one expression.  Both allow gaps around it and nothing else.

A loop goes round at most once for every character that is left, so each has a text to recur on
besides what it does: the one that was left when it started.  A list is read by reading its items,
which may open one list less than it might: `listWithin` recurs on how many lists may be opened.
-/

namespace Lisplet

open Text (Place)

abbrev Reading := EStateM ParseError Reader

/-- what separates expressions, comments apart -/
def isGap (c : Char) : Bool := c = ' ' || c = '\t' || c = '\r' || c = '\n'

/-- the value of a name that is no symbol -/
def literalName? (name : String) : Option Value :=
  if name = "true" then some (.bool true)
  else if name = "false" then some (.bool false)
  else if name = "nil" then some .nil
  else none

namespace Reading

/-! ## characters -/

def fail {α : Type} (cause : ParseCause) : Reading α := do
  throw (.placed cause (← get).place)

/-- the next character, which is brought into the buffer if none is there -/
def peek : Reading (Option Char) := do
  let r ← get
  match r.buffer, r.rest with
  | none, c :: cs =>
    set { r with buffer := some c, rest := cs }
    return some c
  | found, _ => return found

def advance : Reading (Option Char) := do
  let found ← peek
  modify fun r => r.past found
  return found

def expect (c : Char) : Reading Unit := do
  let found ← peek
  if found = some c then
    let _ ← advance
  else fail (.expected (String.singleton c) found)

/-- takes the next character, which has to be the only one of a text; the reader looks no further
ahead, so any other text is never found -/
def expectText (wanted : String) : Reading Unit :=
  match wanted.toList with
  | [c] => expect c
  | _ => do fail (.expected wanted (← peek))

/-- takes characters of a class; `taken` are those taken before, last first -/
def takeOver (p : Char → Bool) (taken : List Char) : List Char → Reading (List Char)
  | [] => return taken.reverse
  | _ :: ahead => do
    match ← peek with
    | none => return taken.reverse
    | some c =>
      if p c then
        let _ ← advance
        takeOver p (c :: taken) ahead
      else return taken.reverse

def takeWhile (p : Char → Bool) : Reading (List Char) := do
  takeOver p [] (← get).left

def gapOver : List Char → Reading Unit
  | [] => return ()
  | _ :: ahead => do
    match ← peek with
    | none => return ()
    | some c =>
      if isGap c then
        let _ ← advance
        gapOver ahead
      else if c = ';' then
        let _ ← takeWhile fun d => d ≠ '\n'
        gapOver ahead
      else return ()

def skipGap : Reading Unit := do
  gapOver (← get).left

/-! ## names, strings and integers -/

/-- reads a name, a literal or a symbol of the table; where no letter stands, the empty name -/
def name : Reading Value := do
  let text := String.ofList (← takeWhile Char.isLower)
  match literalName? text with
  | some v => return v
  | none =>
    let r ← get
    set { r with marks := r.marks.named text }
    return .symbol (r.marks.table.symFor text).1

/-- the character that an escape stands for; an error is reported after the backslash -/
def escape : Reading Char := do
  let place := (← get).place
  match ← advance with
  | none => fail .endInString
  | some e =>
    match Text.escapeMeaning? e with
    | some c => return c
    | none => throw (.placed (.invalidEscape e) place)

def stringOver (taken : List Char) : List Char → Reading Value
  | [] => fail .endInString
  | _ :: ahead => do
    match ← advance with
    | none => fail .endInString
    | some c =>
      if c = '"' then return .str (String.ofList taken.reverse)
      else if c = '\\' then
        let d ← escape
        stringOver (d :: taken) ahead
      else stringOver (c :: taken) ahead

def string : Reading Value := do
  expect '"'
  stringOver [] (← get).left

def counted (n : Nat) : Reading Value := do
  modify fun r => { r with marks := r.marks.counted n }
  return .int n

def integerOver (value : Nat) : List Char → Reading Value
  | [] => counted value
  | _ :: ahead => do
    match ← peek with
    | none => counted value
    | some c =>
      if c.isDigit then
        let _ ← advance
        let more := value * 10 + (c.toNat - '0'.toNat)
        if Integer.fits (← get).limits.width more then integerOver more ahead
        else fail .integerRange
      else counted value

/-- reads an integer; where no digit stands, zero -/
def integer : Reading Value := do
  integerOver 0 (← get).left

/-! ## lists -/

/-- reads one expression, which has to start right here; `list` reads those that are lists -/
def itemBy (list : Reading Value) : Reading Value := do
  match ← peek with
  | none => fail .endBeforeExpression
  | some c =>
    if c = '(' then list
    else if c = '"' then string
    else if c.isLower then name
    else if c.isDigit then integer
    else fail (.notAnExpression c)

/-- the items up to a closing bracket; `taken` are those read before, last first -/
def itemsOver (item : Reading Value) (taken : List Value) : List Char → Reading (List Value)
  | [] => fail .endInList
  | _ :: ahead => do
    let found ← peek
    if found = some ')' then return taken.reverse
    else if found = none then fail .endInList
    else
      let v ← item
      skipGap
      itemsOver item (v :: taken) ahead

def listBy (item : Reading Value) : Reading Value := do
  expect '('
  skipGap
  let vs ← itemsOver item [] (← get).left
  expect ')'
  return .list vs

/-- reads a list, when so many lists may be opened -/
def listWithin : (depth : Nat) → Reading Value
  | 0 => fail .nestedTooDeeply
  | depth + 1 => listBy (itemBy (listWithin depth))

def list : Reading Value := do
  listWithin (← get).limits.depth

def item : Reading Value := itemBy list

/-! ## whole texts -/

def finish : Reading Unit := do
  skipGap
  match ← peek with
  | none => return ()
  | some c => fail (.trailing c)

def itemsOf : Value → List Value
  | .list items => items
  | _ => []

/-- reads a whole text that is one list: the forms of a program -/
def unit : Reading (List Value) := do
  skipGap
  let found ← peek
  if found = some '(' then
    let v ← list
    finish
    return itemsOf v
  else fail (.noUnit found)

def expression : Reading Value := do
  skipGap
  let v ← item
  finish
  return v

end Reading

end Lisplet
