import Mathlib
import Lisplet.Proofs.BigStep
import Lisplet.Session

/-!
# Arithmetic modulo a power of two

A number of a width stands for all integers that differ from it by a multiple of `2 ^ bits`, and
every integer has one number of the width that stands for it.

* `represents_iff`          wrapping by mask and sign bit finds that number;
* `Represents.binary`       it may be put in place of the integer before an operation;
* `call_of_values`          a call of a primitive whose two arguments have values;
* `Arithmetic.evaluates`    a nested expression, by induction.

So an expression can be wrapped at every call, as the evaluator does, or only once in the end.
-/

namespace Lisplet

open Sequence

namespace Integer

def InRange (bits : Nat) (m : Int) : Prop := least bits ≤ m ∧ m ≤ greatest bits

/-- `m` is a number of this width, and stands for `n` -/
structure Represents (bits : Nat) (n m : Int) : Prop where
  inRange : InRange bits m
  congruent : m ≡ n [ZMOD 2 ^ bits]

section
variable {bits : Nat} {n m : Int}

/-- the range of a width is half the power of two on either side of zero -/
theorem inRange_iff (h : 1 ≤ bits) :
    InRange bits m ↔ -((2 ^ bits : Nat) : Int) ≤ m * 2 ∧ m * 2 < (2 ^ bits : Nat) := by
  obtain ⟨b, rfl⟩ : ∃ b, bits = b + 1 := ⟨bits - 1, by omega⟩
  have hl : least (b + 1) = -(2 : Int) ^ b := rfl
  have hg : greatest (b + 1) = (2 : Int) ^ b - 1 := rfl
  have hp : (((2 : Nat) ^ (b + 1) : Nat) : Int) = 2 * 2 ^ b := by
    push_cast
    ring
  rw [InRange, hl, hg, hp]
  constructor
  · rintro ⟨h₁, h₂⟩
    omega
  · rintro ⟨h₁, h₂⟩
    omega

theorem wrap_congruent (bits : Nat) (n : Int) : wrap bits n ≡ n [ZMOD 2 ^ bits] := by
  have h : n.bmod (2 ^ bits) % ((2 ^ bits : Nat) : Int) = n % ((2 ^ bits : Nat) : Int) :=
    Int.bmod_emod
  push_cast at h
  rw [wrap_eq_bmod]
  exact h

theorem wrap_inRange (h : 1 ≤ bits) (n : Int) : InRange bits (wrap bits n) := by
  have hp : 0 < 2 ^ bits := Nat.pow_pos (by decide)
  have hl : -(((2 ^ bits : Nat) : Int) / 2) ≤ n.bmod (2 ^ bits) := Int.le_bmod hp
  have hg : n.bmod (2 ^ bits) < (((2 ^ bits : Nat) : Int) + 1) / 2 := Int.bmod_lt hp
  have hw : wrap bits n = n.bmod (2 ^ bits) := wrap_eq_bmod bits n
  rw [inRange_iff h, hw]
  omega

/-- a number of the width is left alone -/
theorem wrap_of_inRange (h : 1 ≤ bits) (hm : InRange bits m) : wrap bits m = m := by
  obtain ⟨hl, hg⟩ := (inRange_iff h).1 hm
  rw [wrap_eq_bmod]
  exact Int.bmod_eq_of_le_mul_two hl hg

theorem wrap_of_congruent (h : m ≡ n [ZMOD 2 ^ bits]) : wrap bits m = wrap bits n := by
  have he : m % ((2 ^ bits : Nat) : Int) = n % ((2 ^ bits : Nat) : Int) := by
    push_cast
    exact h
  rw [wrap_eq_bmod, wrap_eq_bmod]
  show m.bmod (2 ^ bits) = n.bmod (2 ^ bits)
  rw [← Int.emod_bmod m, he, Int.emod_bmod]

/-- wrapping gives the only number of the width that stands for an integer -/
theorem represents_iff (h : 1 ≤ bits) : Represents bits n m ↔ m = wrap bits n := by
  constructor
  · intro hr
    rw [← wrap_of_inRange h hr.inRange]
    exact wrap_of_congruent hr.congruent
  · rintro rfl
    exact ⟨wrap_inRange h n, wrap_congruent bits n⟩

end

end Integer

open Integer (InRange Represents)

/-! ## operations -/

/-- the primitives that compute modulo a power of two -/
inductive RingOperation where
  | plus
  | minus
  | mul
  deriving DecidableEq, Repr

namespace RingOperation

def primitive : RingOperation → Primitive
  | .plus => .plus
  | .minus => .minus
  | .mul => .mul

def exact : RingOperation → Int → Int → Int
  | .plus => (· + ·)
  | .minus => (· - ·)
  | .mul => (· * ·)

theorem value_primitive (op : RingOperation) (a b : Int) :
    op.primitive.value [.int a, .int b] = .ok (.int (Integer.wrapped (op.exact a b))) := by
  cases op <;> rfl

theorem primitive_ne_println (op : RingOperation) : op.primitive ≠ .println := by
  cases op <;> decide

/-- no operation is named like a special form -/
theorem of?_primitive (table : Nat) (op : RingOperation) :
    SpecialForm.of? table ⟨table, op.primitive.name⟩ = none := by
  unfold SpecialForm.of?
  rw [if_pos rfl]
  cases op <;> rfl

theorem exact_congruent (op : RingOperation) {k a a' b b' : Int} (ha : a ≡ a' [ZMOD k])
    (hb : b ≡ b' [ZMOD k]) :
    op.exact a b ≡ op.exact a' b' [ZMOD k] := by
  cases op with
  | plus => exact ha.add hb
  | minus => exact ha.sub hb
  | mul => exact ha.mul hb

end RingOperation

/-- operands may be wrapped before an operation as well as after it -/
theorem Integer.Represents.binary (op : RingOperation) {a a' b b' : Int} (ha : Represents 32 a a')
    (hb : Represents 32 b b') :
    Represents 32 (op.exact a b) (Integer.wrapped (op.exact a' b')) := by
  refine (Integer.represents_iff (by decide)).2 ?_
  exact Integer.wrap_of_congruent (op.exact_congruent ha.congruent hb.congruent)

/-! ## calls of primitives -/

/-- frames and table are as they were, and nothing has been printed -/
structure World.Untouched (w w' : World) : Prop where
  frames : w'.frames = w.frames
  table : w'.table = w.table
  output : w'.output = w.output

namespace World.Untouched

variable {w w₁ w₂ : World}

theorem refl (w : World) : w.Untouched w := ⟨rfl, rfl, rfl⟩

theorem trans (h : w.Untouched w₁) (h' : w₁.Untouched w₂) : w.Untouched w₂ :=
  ⟨h'.frames.trans h.frames, h'.table.trans h.table, h'.output.trans h.output⟩

theorem note (h : w.Untouched w₁) {e : Event} (he : e.output = "") : w.Untouched (w₁.note e) :=
  ⟨h.frames, h.table, by rw [World.output_note, he, String.append_empty, h.output]⟩

end World.Untouched

theorem lookup_of_frames {w : World} {n : Symbol} {v : Value}
    (h : w.frames.lookup (.symbol n) = .ok v) :
    Run.lookup (.symbol n) w = .ok v w := by
  unfold Run.lookup
  rw [h]

/-- a primitive is called with the values of its two arguments -/
theorem call_of_values {part below : Value → Run Value} {w w₁ w₂ : World} {head name : Symbol}
    {p : Primitive} {a b x y v : Value} (host : Host) (levels : Nat)
    (hf : w.frames.lookup (.symbol head) = .ok (.native ⟨name, .primitive p⟩))
    (ha : part a w = .ok x w₁) (hb : part b w₁ = .ok y w₂) (hp : p ≠ .println)
    (hv : p.value [x, y] = .ok v) :
    ∃ w', Eval.call host levels part below head [a, b] w = .ok v w' ∧ w₂.Untouched w' := by
  let w₃ := w₂.note (.applying head [x, y])
  let w₄ := w₃.note (.called ⟨name, .primitive p⟩ [x, y])
  have hargs : Eval.arguments part [a, b] w = .ok [x, y] w₂ := by
    refine (bind_of_ok ha).trans ((bind_of_ok ?_).trans rfl)
    exact (bind_of_ok hb).trans rfl
  refine ⟨w₄, ?_, ((World.Untouched.refl w₂).note rfl).note rfl⟩
  refine (bind_of_ok (lookup_of_frames hf)).trans ((bind_of_ok hargs).trans ?_)
  show Primitive.run levels p [x, y] w₄ = .ok v w₄
  unfold Primitive.run
  rw [if_neg hp, hv]
  rfl

/-! ## nested expressions -/

/-- an expression of literals, names, and calls of the operations -/
inductive Arithmetic where
  | literal (n : Nat)
  | name (s : Symbol)
  | call (op : RingOperation) (a b : Arithmetic)

namespace Arithmetic

/-- the expression as a program, with the symbols of a table -/
def form (table : Nat) : Arithmetic → Value
  | literal n => .int n
  | name s => .symbol s
  | call op a b => .list [.symbol ⟨table, op.primitive.name⟩, a.form table, b.form table]

/-- the value of the expression in integers of any size -/
def exact (values : Symbol → Int) : Arithmetic → Int
  | literal n => n
  | name s => values s
  | call op a b => op.exact (a.exact values) (b.exact values)

def depth : Arithmetic → Nat
  | literal _ => 0
  | name _ => 0
  | call _ a b => max a.depth b.depth + 1

/-- literals have the width of the language, and so have the integers that the names are bound to -/
def Fits (frames : FrameStack) (values : Symbol → Int) : Arithmetic → Prop
  | literal n => InRange 32 n
  | name s => frames.lookup (.symbol s) = .ok (.int (values s)) ∧ InRange 32 (values s)
  | call _ a b => a.Fits frames values ∧ b.Fits frames values

end Arithmetic

/-- the names of the operations are bound to them -/
def World.HasOperations (w : World) : Prop :=
  ∀ op : RingOperation, ∃ name,
    w.frames.lookup (.symbol (w.table.symbol op.primitive.name))
      = .ok (.native ⟨name, .primitive op.primitive⟩)

theorem World.HasOperations.congr {w w' : World} (h : w.HasOperations) (hw : w.Untouched w') :
    w'.HasOperations := by
  intro op
  rw [hw.frames, hw.table]
  exact h op

/-- what evaluation makes of an arithmetic expression: a number that stands for its exact value -/
def Arithmetic.Computed (host : Host) (levels : Nat) (w : World) (values : Symbol → Int)
    (e : Arithmetic) : Prop :=
  ∃ m w', Eval.evaluate host levels (e.form w.table.id) w = .ok (.int m) w' ∧
    Represents 32 (e.exact values) m ∧
    w.Untouched w'

section
variable {w : World} {values : Symbol → Int}

theorem Arithmetic.Computed.call {host : Host} {n : Nat} (hw : w.HasOperations) (op : RingOperation)
    {a b : Arithmetic} (ha : a.Computed host (n + 1) w values)
    (hb : ∀ w', w.Untouched w' → b.Computed host (n + 1) w' values) :
    (Arithmetic.call op a b).Computed host (n + 3) w values := by
  obtain ⟨x, w₁, hx, hxr, hw₁⟩ := ha
  obtain ⟨y, w₂, hy, hyr, hw₂⟩ := hb w₁ hw₁
  obtain ⟨name, hop⟩ := hw op
  rw [hw₁.table] at hy
  obtain ⟨w₃, hcall, hw₃⟩ :=
    call_of_values host n hop hx hy op.primitive_ne_println (op.value_primitive x y)
  refine ⟨Integer.wrapped (op.exact x y), w₃, ?_, hxr.binary op hyr, (hw₁.trans hw₂).trans hw₃⟩
  rw [Eval.evaluate_add_three, Arithmetic.form, step_list, op.of?_primitive]
  exact hcall

/-- by induction on the expression; the second operand is evaluated in the world that the first one
leaves -/
theorem Arithmetic.evaluates (host : Host) {levels : Nat} (e : Arithmetic) (hw : w.HasOperations)
    (he : e.Fits w.frames values) (hl : 2 * e.depth + 3 ≤ levels) :
    e.Computed host levels w values := by
  induction e generalizing w levels with
  | literal k =>
    obtain ⟨n, rfl⟩ : ∃ n, levels = n + 3 := ⟨levels - 3, by omega⟩
    refine ⟨k, w, ?_, ⟨he, Int.ModEq.refl _⟩, .refl w⟩
    rw [Eval.evaluate_add_three]
    rfl
  | name s =>
    obtain ⟨n, rfl⟩ : ∃ n, levels = n + 3 := ⟨levels - 3, by omega⟩
    refine ⟨values s, w, ?_, ⟨he.2, Int.ModEq.refl _⟩, .refl w⟩
    rw [Eval.evaluate_add_three]
    exact lookup_of_frames he.1
  | call op a b iha ihb =>
    have hmax : 2 * (max a.depth b.depth + 1) + 3 ≤ levels := hl
    obtain ⟨n, rfl⟩ : ∃ n, levels = n + 3 := ⟨levels - 3, by omega⟩
    refine .call hw op (iha hw he.1 (by omega)) ?_
    intro w' hw'
    exact ihb (hw.congr hw') (hw'.frames ▸ he.2) (by omega)

end

/-- **Nested arithmetic is exact modulo `2 ^ 32`.** Evaluation gives the only number of 32 bits that
stands for the exact value of the expression, and does nothing else; three levels are enough for a
literal or a name, and two more for every call around it.  In every width the number that stands for
an integer is what wrapping gives. -/
theorem arithmetic_exact_modulo (host : Host) (levels : Nat) (w : World) (values : Symbol → Int)
    (e : Arithmetic) (hw : w.HasOperations) (he : e.Fits w.frames values)
    (hl : 2 * e.depth + 3 ≤ levels) :
    (∃ m w', Eval.evaluate host levels (e.form w.table.id) w = .ok (.int m) w' ∧
      (∀ k, Represents 32 (e.exact values) k ↔ k = m) ∧ w.Untouched w') ∧
    ∀ (bits : Nat) (n m : Int), 1 ≤ bits → (Represents bits n m ↔ m = Integer.wrap bits n) := by
  refine ⟨?_, fun bits n m h => Integer.represents_iff h⟩
  obtain ⟨m, w', hm, hr, hw'⟩ := e.evaluates host hw he hl
  refine ⟨m, w', hm, fun k => ?_, hw'⟩
  rw [Integer.represents_iff (by decide), (Integer.represents_iff (by decide)).1 hr]

/-- a session in which `x` is the least number -/
def leastWorld : World :=
  { Session.standardWorld with
    frames := Session.standardWorld.frames.bindAt 0 ⟨0, "x"⟩ (.int (-2147483648)) }

/-- three times what comes before the least number -/
def threefold : Arithmetic := .call .mul (.call .minus (.name ⟨0, "x"⟩) (.literal 1)) (.literal 3)

theorem arithmetic_wraps_below_least :
    leastWorld.HasOperations ∧ threefold.Fits leastWorld.frames (fun _ => -2147483648) ∧
      ∃ w', Eval.evaluate Session.noHost 7 (threefold.form 0) leastWorld
        = .ok (.int 2147483645) w' ∧
        leastWorld.Untouched w' := by
  have hw : leastWorld.HasOperations := by
    intro op
    refine ⟨⟨0, op.primitive.name⟩, ?_⟩
    cases op <;> cbv
  have he : threefold.Fits leastWorld.frames (fun _ => -2147483648) := by
    refine ⟨⟨⟨by cbv, ?_⟩, ?_⟩, ?_⟩
    all_goals
      refine ⟨?_, ?_⟩
      all_goals decide
  obtain ⟨⟨m, w', hm, hr, hw'⟩, _⟩ :=
    arithmetic_exact_modulo Session.noHost 7 leastWorld (fun _ => -2147483648) threefold hw he
      (by decide)
  have h : Represents 32 (threefold.exact fun _ => -2147483648) 2147483645 :=
    ⟨⟨by decide, by decide⟩, by decide⟩
  obtain rfl := (hr _).1 h
  exact ⟨hw, he, w', hm, hw'⟩

end Lisplet
