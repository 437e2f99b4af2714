import Mathlib
import Lisplet.Proofs.Arithmetic

/-!
# Division toward zero

`Truncates a b q r` says what quotient and remainder of a division toward zero are, by three
conditions and without dividing.  Nothing satisfies them for a divisor of zero, and one pair of
numbers for any other.

* `truncates_iff`         the pair is found by dividing;
* `truncates_quotient`    the quotient of the sizes with its sign put back is that quotient;
* `inRange_tdiv_iff`      quotients of numbers of 32 bits have 32 bits, with one exception;
* `remainder_eq`          the remainder can be had from quotient, product and difference, although
                          each of them is wrapped.
-/

namespace Lisplet

open Integer (InRange wrapped)

/-- `q` and `r` are quotient and remainder of a division toward zero -/
structure Truncates (a b q r : Int) : Prop where
  identity : a = b * q + r
  smaller : |r| < |b|
  /-- the remainder is zero, or has the sign of what is divided -/
  sign : r = 0 ∨ r.sign = a.sign

/-! ## quotient and remainder -/

section
variable {a b q r : Int}

theorem Truncates.ne_zero (h : Truncates a b q r) : b ≠ 0 := by
  rintro rfl
  have hr := h.smaller
  rw [abs_zero] at hr
  exact absurd hr (not_lt.2 (abs_nonneg r))

theorem truncates_tdiv (a : Int) (hb : b ≠ 0) : Truncates a b (a.tdiv b) (a.tmod b) := by
  refine ⟨(Int.mul_tdiv_add_tmod a b).symm, ?_, ?_⟩
  · have hmod : a.natAbs % b.natAbs < b.natAbs := Nat.mod_lt _ (Int.natAbs_pos.2 hb)
    rw [Int.abs_eq_natAbs, Int.abs_eq_natAbs, Int.natAbs_tmod]
    omega
  · have hs := Int.sign_tmod a b
    split at hs
    · exact .inl (Int.sign_eq_zero_iff_zero.1 hs)
    · exact .inr hs

/-- the remainder lies on the side of what is divided -/
theorem Truncates.side (h : Truncates a b q r) : (0 ≤ a → 0 ≤ r) ∧ (a ≤ 0 → r ≤ 0) := by
  rcases h.sign with rfl | hs
  · exact ⟨fun _ => le_refl 0, fun _ => le_refl 0⟩
  · constructor
    · intro ha
      rw [← Int.sign_nonneg_iff] at ha ⊢
      omega
    · intro ha
      rw [← Int.sign_nonpos_iff] at ha ⊢
      omega

/-- quotient and remainder are what division gives; the two cases are the two signs of what is
divided -/
theorem truncates_iff : Truncates a b q r ↔ b ≠ 0 ∧ q = a.tdiv b ∧ r = a.tmod b := by
  constructor
  · intro h
    have hr : |r| < (b.natAbs : Int) := by
      rw [← Int.abs_eq_natAbs]
      exact h.smaller
    rw [abs_lt] at hr
    have hid : r + b * q = a := by rw [h.identity, Int.add_comm]
    refine ⟨h.ne_zero, ?_⟩
    rcases Int.le_total 0 a with ha | ha
    · have hu := (Int.tdiv_tmod_unique ha h.ne_zero).2 ⟨hid, h.side.1 ha, hr.2⟩
      exact ⟨hu.1.symm, hu.2.symm⟩
    · have hu := (Int.tdiv_tmod_unique' ha h.ne_zero).2 ⟨hid, hr.1, h.side.2 ha⟩
      exact ⟨hu.1.symm, hu.2.symm⟩
  · rintro ⟨hb, rfl, rfl⟩
    exact truncates_tdiv a hb

theorem Truncates.unique {q' r' : Int} (h : Truncates a b q r) (h' : Truncates a b q' r') :
    q = q' ∧ r = r' := by
  obtain ⟨_, rfl, rfl⟩ := truncates_iff.1 h
  obtain ⟨_, rfl, rfl⟩ := truncates_iff.1 h'
  exact ⟨rfl, rfl⟩

end

/-! ## the quotient of the sizes -/

namespace Primitive

/-- the sizes divide without a sign, and the sign is put back where the operands differ in it; a
zero counts as positive, and its quotient is zero under either sign -/
theorem mul_quotient (a b : Int) :
    b * quotient a b = if 0 ≤ a then ((b.natAbs * (a.natAbs / b.natAbs) : Nat) : Int)
      else -((b.natAbs * (a.natAbs / b.natAbs) : Nat) : Int) := by
  unfold quotient
  dsimp only
  simp only [Nat.cast_mul, decide_eq_decide]
  generalize (((a.natAbs / b.natAbs : Nat) : Nat) : Int) = q
  rcases lt_or_ge a 0 with ha | ha <;> rcases lt_or_ge b 0 with hb | hb
  · have hsize : (b.natAbs : Int) = -b := by omega
    rw [if_pos (by omega), if_neg (by omega), hsize]
    ring
  · have hsize : (b.natAbs : Int) = b := by omega
    rw [if_neg (by omega), if_neg (by omega), hsize]
    ring
  · have hsize : (b.natAbs : Int) = -b := by omega
    rw [if_neg (by omega), if_pos ha, hsize]
    ring
  · have hsize : (b.natAbs : Int) = b := by omega
    rw [if_pos (by omega), if_pos ha, hsize]

end Primitive

/-- the remainder of the sizes goes with the quotient, under the sign of what is divided -/
theorem truncates_quotient (a : Int) {b : Int} (hb : b ≠ 0) :
    ∃ r, Truncates a b (Primitive.quotient a b) r := by
  have hsizes : b.natAbs * (a.natAbs / b.natAbs) + a.natAbs % b.natAbs = a.natAbs :=
    Nat.div_add_mod a.natAbs b.natAbs
  have hmod : a.natAbs % b.natAbs < b.natAbs := Nat.mod_lt _ (Int.natAbs_pos.2 hb)
  have hq := Primitive.mul_quotient a b
  generalize a.natAbs % b.natAbs = m at hsizes hmod
  by_cases ha : 0 ≤ a
  · rw [if_pos ha] at hq
    refine ⟨m, by omega, ?_, ?_⟩
    · rw [Int.abs_eq_natAbs, Int.abs_eq_natAbs]
      omega
    · rcases Nat.eq_zero_or_pos m with h | h
      · exact .inl (by omega)
      · right
        rw [Int.sign_eq_one_of_pos (by omega : 0 < (m : Int)), Int.sign_eq_one_of_pos (by omega)]
  · rw [if_neg ha] at hq
    refine ⟨-m, by omega, ?_, ?_⟩
    · rw [Int.abs_eq_natAbs, Int.abs_eq_natAbs]
      omega
    · rcases Nat.eq_zero_or_pos m with h | h
      · exact .inl (by omega)
      · right
        rw [Int.sign_eq_neg_one_of_neg (by omega : -(m : Int) < 0),
          Int.sign_eq_neg_one_of_neg (by omega)]

/-- so dividing the sizes goes toward zero -/
theorem Primitive.quotient_eq_tdiv (a : Int) {b : Int} (hb : b ≠ 0) :
    quotient a b = a.tdiv b := by
  obtain ⟨r, hr⟩ := truncates_quotient a hb
  exact (truncates_iff.1 hr).2.1

/-! ## the range of 32 bits -/

theorem inRange_iff_bounds {m : Int} : InRange 32 m ↔ -2147483648 ≤ m ∧ m ≤ 2147483647 := Iff.rfl

section
variable {a b : Int}

/-- the only quotient that does not fit is that of the least number by minus one -/
theorem inRange_tdiv_iff (ha : InRange 32 a) (hb : b ≠ 0) :
    InRange 32 (a.tdiv b) ↔ ¬ (a = -2147483648 ∧ b = -1) := by
  rw [inRange_iff_bounds] at ha ⊢
  have hquot : (a.tdiv b).natAbs = a.natAbs / b.natAbs := Int.natAbs_tdiv a b
  constructor
  · rintro ⟨_, h⟩ ⟨rfl, rfl⟩
    exact absurd h (by decide)
  · intro hn
    by_cases hone : b.natAbs = 1
    · rcases (show b = 1 ∨ b = -1 by omega) with rfl | rfl
      · rw [Int.tdiv_one]
        exact ha
      · rw [Int.tdiv_neg, Int.tdiv_one]
        omega
    · -- any other quotient is at most half of what is divided
      have hhalf : a.natAbs / b.natAbs ≤ a.natAbs / 2 := Nat.div_le_div_left (by omega) (by decide)
      omega

theorem inRange_tmod (ha : InRange 32 a) (hb : b ≠ 0) : InRange 32 (a.tmod b) := by
  rw [inRange_iff_bounds] at ha ⊢
  have hmod : (a.tmod b).natAbs = a.natAbs % b.natAbs := Int.natAbs_tmod a b
  have hle : a.natAbs % b.natAbs ≤ a.natAbs := Nat.mod_le _ _
  have hside := (truncates_tdiv a hb).side
  rcases Int.le_total 0 a with h | h
  · have hs := hside.1 h
    omega
  · have hs := hside.2 h
    omega

theorem wrapped_tdiv (ha : InRange 32 a) (hb : b ≠ 0) :
    wrapped (a.tdiv b) = if a = -2147483648 ∧ b = -1 then -2147483648 else a.tdiv b := by
  split
  · next h =>
    rw [h.1, h.2]
    decide
  · next h => exact Integer.wrap_of_inRange (by decide) ((inRange_tdiv_iff ha hb).2 h)

end

/-! ## the primitives -/

namespace Primitive

theorem value_div_zero (a : Int) : value .div [.int a, .int 0] = .error .divisionByZero := rfl

theorem value_div {b : Int} (a : Int) (hb : b ≠ 0) :
    value .div [.int a, .int b] = .ok (.int (wrapped (a.tdiv b))) := by
  show (if b = 0 then _ else _) = _
  rw [if_neg hb, quotient_eq_tdiv a hb]
  rfl

/-- what is left of `a` when `b` is taken off as often as the quotient says -/
def remainder (a b : Value) : Except EvalError Value := do
  let quotient ← value .div [a, b]
  let product ← value .mul [b, quotient]
  value .minus [a, product]

/-- the three results are wrapped, and the last one stands for the remainder, since it is congruent
to it -/
theorem remainder_eq {a b : Int} (ha : InRange 32 a) (hb : b ≠ 0) :
    remainder (.int a) (.int b) = .ok (.int (a.tmod b)) := by
  have hq : wrapped (a.tdiv b) ≡ a.tdiv b [ZMOD 2 ^ 32] := Integer.wrap_congruent 32 (a.tdiv b)
  have hp : wrapped (b * wrapped (a.tdiv b)) ≡ b * a.tdiv b [ZMOD 2 ^ 32] :=
    (Integer.wrap_congruent 32 _).trans (hq.mul_left b)
  have hr : a - wrapped (b * wrapped (a.tdiv b)) ≡ a.tmod b [ZMOD 2 ^ 32] := by
    rw [Int.tmod_def]
    exact Int.ModEq.sub_left a hp
  have hw : wrapped (a - wrapped (b * wrapped (a.tdiv b))) = a.tmod b :=
    (Integer.wrap_of_congruent hr).trans (Integer.wrap_of_inRange (by decide) (inRange_tmod ha hb))
  unfold remainder
  rw [value_div a hb]
  show Except.ok (Value.int (wrapped (a - wrapped (b * wrapped (a.tdiv b))))) = _
  rw [hw]

end Primitive

open Primitive (value remainder)

/-- What the primitive `div` does with two integers: it fails exactly if the divisor is zero
(`fails`), and else gives the quotient, wrapped (`gives`); there is only one (`unique`).  Of numbers
of 32 bits it gives the quotient itself, with one exception (`quotient`), and without exception the
remainder can be had from it (`remainder`). -/
structure DividesTowardZero (a b : Int) : Prop where
  fails : ∀ e, value .div [.int a, .int b] = .error e ↔ b = 0 ∧ e = .divisionByZero ∧ e.kind = .type
  gives : b ≠ 0 → ∃ q r, Truncates a b q r ∧ value .div [.int a, .int b] = .ok (.int (wrapped q))
  unique : ∀ q r q' r', Truncates a b q r → Truncates a b q' r' → q = q' ∧ r = r'
  quotient : InRange 32 a → InRange 32 b → ∀ q r, Truncates a b q r →
    value .div [.int a, .int b] = .ok (.int (if a = -2147483648 ∧ b = -1 then -2147483648 else q))
  remainder : InRange 32 a → InRange 32 b → ∀ q r, Truncates a b q r →
    remainder (.int a) (.int b) = .ok (.int r)

/-- **Division goes toward zero, and is exact but for one overflow.** -/
theorem division_toward_zero (a b : Int) : DividesTowardZero a b where
  fails := by
    intro e
    by_cases hb : b = 0
    · subst hb
      rw [Primitive.value_div_zero]
      constructor
      · intro h
        cases h
        exact ⟨rfl, rfl, rfl⟩
      · rintro ⟨_, rfl, _⟩
        rfl
    · rw [Primitive.value_div a hb]
      constructor
      · intro h
        cases h
      · intro h
        exact absurd h.1 hb
  gives := fun hb => ⟨a.tdiv b, a.tmod b, truncates_tdiv a hb, Primitive.value_div a hb⟩
  unique := fun _ _ _ _ h h' => h.unique h'
  quotient := by
    intro ha _ q r h
    obtain ⟨hb, rfl, _⟩ := truncates_iff.1 h
    rw [Primitive.value_div a hb, wrapped_tdiv ha hb]
  remainder := by
    intro ha _ q r h
    obtain ⟨hb, _, rfl⟩ := truncates_iff.1 h
    exact Primitive.remainder_eq ha hb

/-- the pair that overflows: the quotient is the least number again, and the remainder is right -/
theorem division_of_least_by_minus_one :
    value .div [.int (-2147483648), .int (-1)] = .ok (.int (-2147483648)) ∧
      remainder (.int (-2147483648)) (.int (-1)) = .ok (.int 0) := by
  have ha : InRange 32 (-2147483648) := ⟨by decide, by decide⟩
  have hb : InRange 32 (-1) := ⟨by decide, by decide⟩
  have h : Truncates (-2147483648) (-1) 2147483648 0 := ⟨by decide, by decide, by decide⟩
  have hd := division_toward_zero (-2147483648) (-1)
  exact ⟨hd.quotient ha hb _ _ h, hd.remainder ha hb _ _ h⟩

end Lisplet
