import Mathlib
import Lisplet.Editor.Index
import Lisplet.Proofs.Descent
import Lisplet.Proofs.Viability

/-!
# Where a reader stands

A reader that has taken the first `k` characters of a text has the others before it, the next one of
them perhaps in its buffer, and its place is the one that `position` computes for the offset `k`
from the text itself.  This holds after any operations in any order, and it does not matter which of
them have failed: an operation that fails has moved the reader as far as it came.

Every operation `Tracks` (`Lookahead`), so operations one after the other move the reader along its
text (`moves_through`), and an error is reported at an offset of the text (`position_of_error`).
-/

namespace Lisplet

open Sequence
open Text (Place)

/-! ## operations one after the other -/

/-- what may be asked of a reader -/
inductive Action where
  | peek
  | advance
  | expect (wanted : String)
  | skipGap
  | item
  | list
  | name
  | string
  | integer
  | unit
  | expression

/-- the reader after an operation that has succeeded or failed -/
def Action.after : Action → Reader → Reader
  | .peek, r => readerOf (Reading.peek r)
  | .advance, r => readerOf (Reading.advance r)
  | .expect wanted, r => readerOf (Reading.expectText wanted r)
  | .skipGap, r => readerOf (Reading.skipGap r)
  | .item, r => readerOf (Reading.item r)
  | .list, r => readerOf (Reading.list r)
  | .name, r => readerOf (Reading.name r)
  | .string, r => readerOf (Reading.string r)
  | .integer, r => readerOf (Reading.integer r)
  | .unit, r => readerOf (Reading.unit r)
  | .expression, r => readerOf (Reading.expression r)

theorem Tracks.moves_readerOf {α : Type} {x : Reading α} (h : Tracks x) (r : Reader) :
    r.Moves (readerOf (x r)) := by
  have ht := h r
  generalize x r = answer at ht
  cases ht with
  | ok hm => exact hm
  | error hm _ => exact hm

theorem Action.moves (a : Action) (r : Reader) : r.Moves (a.after r) := by
  cases a with
  | peek => exact tracks_peek.moves_readerOf r
  | advance => exact tracks_advance.moves_readerOf r
  | expect wanted => exact (tracks_expectText wanted).moves_readerOf r
  | skipGap => exact tracks_skipGap.moves_readerOf r
  | item => exact tracks_item.moves_readerOf r
  | list => exact tracks_list.moves_readerOf r
  | name => exact tracks_name.moves_readerOf r
  | string => exact tracks_string.moves_readerOf r
  | integer => exact tracks_integer.moves_readerOf r
  | unit => exact tracks_unit.moves_readerOf r
  | expression => exact tracks_expression.moves_readerOf r

namespace Reader

def through (r : Reader) (actions : List Action) : Reader := actions.foldl (fun r a => a.after r) r

theorem moves_through (r : Reader) (actions : List Action) : r.Moves (r.through actions) := by
  induction actions generalizing r with
  | nil => exact .refl r
  | cons a actions ih => exact (a.moves r).trans (ih (a.after r))

/-- the first `k` characters of the text have been taken; what is in the buffer and what is after it
make up the others -/
structure StandsAt (text : List Char) (k : Nat) (r : Reader) : Prop where
  inside : k ≤ text.length
  parts : text.take k ++ (r.buffer.toList ++ r.rest) = text
  place : (r.place.line, r.place.column)
    = ((Text.position text k).1 + 1, (Text.position text k).2 + 1)

section
variable {text : String} {table : SymbolTable} {lim : Limits} {r : Reader}

/-- a reader that has come from the start of a text stands where what is left of it starts -/
theorem Moves.exists_standsAt (h : (Reader.ofText text table lim).Moves r) :
    ∃ k, r.StandsAt text.toList k ∧ r.left = text.toList.drop k := by
  obtain ⟨taken, ht, hp, _⟩ := h
  have htext : text.toList = taken ++ r.left := ht
  have hplace : r.place = Place.start.afterAll taken := hp
  have htake : text.toList.take taken.length = taken := by
    rw [htext]
    exact List.take_left
  have hk : taken.length ≤ text.toList.length := by
    rw [htext, List.length_append]
    omega
  refine ⟨taken.length, ⟨hk, ?_, ?_⟩, ?_⟩
  · rw [htake, htext]
    rfl
  · have hof := Text.placeOf_eq hk
    rw [htake, ← hplace] at hof
    rw [← hof]
    rfl
  · rw [htext]
    exact List.drop_left.symm

theorem StandsAt.left_eq {cs : List Char} {k : Nat} (h : r.StandsAt cs k) : r.left = cs.drop k := by
  have hp : cs.take k ++ r.left = cs.take k ++ cs.drop k := by
    rw [List.take_append_drop]
    exact h.parts
  exact List.append_cancel_left hp

theorem StandsAt.unique {cs : List Char} {j k : Nat} (hj : r.StandsAt cs j) (hk : r.StandsAt cs k) :
    j = k := by
  have hl := congrArg List.length (hj.left_eq.symm.trans hk.left_eq)
  rw [List.length_drop, List.length_drop] at hl
  have h₁ := hj.inside
  have h₂ := hk.inside
  omega

/-- the next character is brought into the buffer, and the reader stands where it stood -/
theorem StandsAt.peek {k : Nat} (h : r.StandsAt text.toList k) :
    ∃ r', Reading.peek r = .ok text.toList[k]? r' ∧ r'.StandsAt text.toList k ∧
      r'.buffer = text.toList[k]? ∧ r'.marks = r.marks := by
  have hhead : r.left.head? = text.toList[k]? := by rw [h.left_eq, List.head?_drop]
  refine ⟨r.looked, ?_, ⟨h.inside, ?_, h.place⟩, hhead, rfl⟩
  · rw [Reading.peek_eq, hhead]
  · show text.toList.take k ++ r.looked.left = text.toList
    rw [left_looked]
    exact h.parts

/-- the next character is given out, and the reader stands after it; at the end there is none -/
theorem Moves.advance {k : Nat} (hr : (Reader.ofText text table lim).Moves r)
    (h : r.StandsAt text.toList k) :
    ∃ r', Reading.advance r = .ok text.toList[k]? r' ∧
      r'.StandsAt text.toList (min (k + 1) text.toList.length) ∧
      (k = text.toList.length → r' = r) := by
  refine ⟨r.advanced, ?_, ?_, ?_⟩
  · rw [Reading.advance_eq, h.left_eq, List.head?_drop]
  · obtain ⟨j, hj, hjd⟩ := (hr.trans r.moves_advanced).exists_standsAt
    -- one character less is left, or none
    have hleft : r.advanced.left = text.toList.drop (k + 1) := by
      rw [left_advanced, h.left_eq, List.tail_drop]
    have hlen := congrArg List.length (hjd.symm.trans hleft)
    rw [List.length_drop, List.length_drop] at hlen
    have hin := hj.inside
    rw [show min (k + 1) text.toList.length = j by omega]
    exact hj
  · intro hk
    refine advanced_of_nil ?_
    rw [h.left_eq, hk, List.drop_length]

end

end Reader

/-- an error is reported at an offset of the text, and so is its diagnostic -/
theorem position_of_error {text : String} {table : SymbolTable} {lim : Limits} {α : Type}
    {x : Reading α} {e : ParseError} {r : Reader} (hx : Tracks x)
    (h : x (Reader.ofText text table lim) = .error e r) :
    ∃ k, k ≤ text.toList.length ∧
      (Editor.Diagnostic.ofError e).place = Text.position text.toList k := by
  have ht := hx (Reader.ofText text table lim)
  rw [h] at ht
  cases ht with
  | error hm he =>
    obtain ⟨a, hpre, hplace⟩ := he
    have hk : a.length ≤ text.toList.length := hpre.length_le
    have hof := Text.placeOf_eq hk
    have htake : text.toList.take a.length = a := (List.prefix_iff_eq_take.1 hpre).symm
    rw [htake] at hof
    have hp : e.place = Text.placeOf text.toList a.length := hplace.trans hof.symm
    refine ⟨a.length, hk, ?_⟩
    show (e.place.line - 1, e.place.column - 1) = _
    rw [hp]
    rfl

/-- **A reader never loses or repeats a character, and knows where it is.** Whatever has been asked
of it, it stands at an offset of its text.  Looking ahead fills the buffer and moves nothing, the
next character is given out once, at the end nothing changes any more, and no further operations
bring the reader back.  So every diagnostic of a text, that of too deep nesting too, is at an offset
of it, on whatever machine the text is read. -/
theorem reader_stands_at_offset (text : String) (table : SymbolTable) (lim : Limits)
    (actions : List Action) :
    (∃ r k, r = (Reader.ofText text table lim).through actions ∧ r.StandsAt text.toList k ∧
      (∀ j, r.StandsAt text.toList j → j = k) ∧
      (∃ r', Reading.peek r = .ok text.toList[k]? r' ∧ r'.StandsAt text.toList k ∧
        r'.buffer = text.toList[k]? ∧ r'.marks = r.marks) ∧
      (∃ r', Reading.advance r = .ok text.toList[k]? r' ∧
        r'.StandsAt text.toList (min (k + 1) text.toList.length) ∧
        (k = text.toList.length → r' = r)) ∧
      ∀ more, ∃ l, k ≤ l ∧ (r.through more).StandsAt text.toList l) ∧
    ∀ m d, Editor.checkSyntax m text = some d → ∃ e r k, k ≤ text.toList.length ∧
      Reading.unit (Reader.ofText text (.empty Session.tableId) (.ofLevels m.limit)) = .error e r ∧
      d = .ofError e ∧ d.place = Text.position text.toList k := by
  constructor
  · have hm := (Reader.ofText text table lim).moves_through actions
    generalize (Reader.ofText text table lim).through actions = r at hm
    obtain ⟨k, hs, hd⟩ := hm.exists_standsAt
    refine ⟨r, k, rfl, hs, fun j hj => hj.unique hs, hs.peek, hm.advance hs, fun more => ?_⟩
    have hmore := r.moves_through more
    obtain ⟨l, hl, hld⟩ := (hm.trans hmore).exists_standsAt
    refine ⟨l, ?_, hl⟩
    have hlen := hmore.length_le
    rw [hd, hld, List.length_drop, List.length_drop] at hlen
    have hk := hs.inside
    have hin := hl.inside
    omega
  · intro m d h
    unfold Editor.checkSyntax at h
    split at h
    · cases h
    · cases hu : Reading.unit (Reader.ofText text (.empty Session.tableId) (.ofLevels m.limit)) with
      | ok vs r =>
        simp only [hu] at h
        cases h
      | error e r =>
        simp only [hu] at h
        cases h
        obtain ⟨k, hk, hp⟩ := position_of_error tracks_unit hu
        exact ⟨e, r, k, hk, rfl, rfl, hp⟩

end Lisplet
