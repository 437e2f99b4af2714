/-!
# Places in a text

Two ways to say where in a text one is.

* A `Place` counts lines and columns from one; the reader keeps one and moves it with every
  character it takes (`Place.after`).
* `position` computes line and column of an offset, both from zero, from the text itself; an offset
  past the end is in the last line, as if that line went on.  `signedPosition` is the same for
  offsets of either sign; a negative one counts from the end of the text.

Only a line feed ends a line here.
-/

namespace Lisplet.Text

/-- a line and a column, counted from one -/
structure Place where
  line : Nat
  column : Nat
  deriving DecidableEq, Repr

namespace Place

def start : Place := ⟨1, 1⟩

def after (p : Place) (c : Char) : Place :=
  if c = '\n' then ⟨p.line + 1, 1⟩ else ⟨p.line, p.column + 1⟩

def afterAll (p : Place) (cs : List Char) : Place := cs.foldl after p

theorem afterAll_cons (p : Place) (c : Char) (cs : List Char) :
    p.afterAll (c :: cs) = (p.after c).afterAll cs := rfl

theorem afterAll_append (p : Place) (cs ds : List Char) :
    p.afterAll (cs ++ ds) = (p.afterAll cs).afterAll ds := by
  simp [afterAll]

end Place

/-- how many characters stand after the last line feed -/
def sinceBreak (cs : List Char) : Nat := (cs.reverse.takeWhile fun c => c ≠ '\n').length

/-- line and column of an offset, counted from zero -/
def position (cs : List Char) (offset : Nat) : Nat × Nat :=
  let before := cs.take offset
  (before.count '\n', sinceBreak before + (offset - before.length))

/-- line and column of an offset; a negative one counts from the end of the text to find the line,
and the column is what the offset itself is more than the start of that line -/
def signedPosition (cs : List Char) (offset : Int) : Nat × Int :=
  let stop := if offset < 0 then (cs.length + offset).toNat else offset.toNat
  let before := cs.take stop
  (before.count '\n', offset - (before.length - sinceBreak before : Nat))

theorem sinceBreak_concat (cs : List Char) (c : Char) :
    sinceBreak (cs ++ [c]) = if c = '\n' then 0 else sinceBreak cs + 1 := by
  by_cases h : c = '\n' <;> simp [sinceBreak, h]

end Lisplet.Text
