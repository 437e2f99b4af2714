/-!
# Signed integers of a fixed width

The numbers of the language have 32 bits.  `wrap` brings any integer into the range of a width: a
mask keeps its lowest bits, and the highest bit that is kept is the sign.  What comes out is the
balanced remainder (`wrap_eq_bmod`).  `least` and `greatest` are the ends of the range, and `fits`
tells whether a number is in it (`fits_iff`) without forming a power of two.

Between a number and its decimal text stands a bound on the number of digits, `maxDigits`, far
beyond what 32 bits need.
-/

namespace Lisplet.Integer

def standardWidth : Nat := 32

def least (bits : Nat) : Int := -Int.pow 2 (bits - 1)

def greatest (bits : Nat) : Int := Int.pow 2 (bits - 1) - 1

/-! ## numbers in a width -/

def fits (bits n : Nat) : Bool := n = 0 || n.log2 < bits - 1

theorem fits_iff (bits n : Nat) : fits bits n = true ↔ (n : Int) ≤ greatest bits := by
  have hp : 0 < 2 ^ (bits - 1) := Nat.pow_pos (by decide)
  have hg : greatest bits = ((2 ^ (bits - 1) : Nat) : Int) - 1 := by
    show (2 : Int) ^ (bits - 1) - 1 = _
    simp
  rw [hg]
  by_cases h : n = 0
  · subst h
    simp only [fits, decide_true, Bool.true_or, true_iff]
    omega
  · simp only [fits, h, decide_false, Bool.false_or, decide_eq_true_eq, Nat.log2_lt h]
    omega

/-! ## wrapping -/

/-- the bits of a number that a mask has; a negative number has the bits of its two's complement -/
def masked (mask : Nat) : Int → Nat
  | .ofNat n => n &&& mask
  | .negSucc n => mask ^^^ (n &&& mask)

/-- the number of the given width with the same lowest bits; the highest of them is the sign -/
def wrap (bits : Nat) (n : Int) : Int :=
  let low := masked ((1 <<< bits) - 1) n
  if low >>> (bits - 1) = 0 then low else (low : Int) - ((1 <<< bits : Nat) : Int)

/-- the bits of a mask that are not in a number below it -/
theorem xor_mask {bits k : Nat} (h : k < Nat.pow 2 bits) :
    (Nat.pow 2 bits - 1) ^^^ k = Nat.pow 2 bits - (k + 1) := by
  apply Nat.eq_of_testBit_eq
  intro i
  have hk : k.testBit i = true → i < bits := by
    intro ht
    apply Nat.lt_of_not_le
    intro hi
    have hp : Nat.pow 2 bits ≤ Nat.pow 2 i := Nat.pow_le_pow_right (by decide) hi
    rw [Nat.testBit_lt_two_pow (Nat.lt_of_lt_of_le h hp)] at ht
    exact absurd ht (by decide)
  have hm : (Nat.pow 2 bits - 1).testBit i = decide (i < bits) := Nat.testBit_two_pow_sub_one bits i
  have hs : (Nat.pow 2 bits - (k + 1)).testBit i = (decide (i < bits) && !k.testBit i) :=
    Nat.testBit_two_pow_sub_succ h i
  rw [Nat.testBit_xor, hm, hs]
  cases ht : k.testBit i with
  | false => simp
  | true => simp [hk ht]

theorem masked_eq_emod (bits : Nat) (n : Int) :
    (masked ((1 <<< bits) - 1) n : Int) = n % (Nat.pow 2 bits : Nat) := by
  have hone : 1 <<< bits = Nat.pow 2 bits := Nat.one_shiftLeft bits
  have hand : ∀ k : Nat, k &&& (Nat.pow 2 bits - 1) = k % Nat.pow 2 bits :=
    fun k => Nat.and_two_pow_sub_one_eq_mod k bits
  have hp : 0 < Nat.pow 2 bits := Nat.pow_pos (by decide)
  rw [hone]
  cases n with
  | ofNat k =>
    rw [masked, hand]
    exact Int.natCast_emod k _
  | negSucc k =>
    have hlt : k % Nat.pow 2 bits < Nat.pow 2 bits := Nat.mod_lt k hp
    have he : ((k % Nat.pow 2 bits : Nat) : Int) = (k : Int) % (Nat.pow 2 bits : Nat) :=
      Int.natCast_emod k _
    rw [masked, hand, xor_mask hlt, Int.negSucc_emod k (Int.natCast_pos.2 hp), ← he]
    omega

theorem wrap_eq_bmod (bits : Nat) (n : Int) : wrap bits n = n.bmod (Nat.pow 2 bits) := by
  have hlow := masked_eq_emod bits n
  have hone : 1 <<< bits = Nat.pow 2 bits := Nat.one_shiftLeft bits
  have hp : 0 < Nat.pow 2 (bits - 1) := Nat.pow_pos (by decide)
  -- the highest bit is set from half the power of two on
  have hbit : ∀ k : Nat, k >>> (bits - 1) = 0 ↔ k < Nat.pow 2 (bits - 1) := by
    intro k
    rw [Nat.shiftRight_eq_div_pow]
    exact Nat.div_eq_zero_iff_lt hp
  have hhalf : (((Nat.pow 2 bits : Nat) : Int) + 1) / 2 = (Nat.pow 2 (bits - 1) : Nat) := by
    cases bits with
    | zero => rfl
    | succ b =>
      have hb : Nat.pow 2 (b + 1) = Nat.pow 2 b * 2 := rfl
      rw [hb, Nat.add_sub_cancel]
      omega
  rw [wrap, Int.bmod_def, ← hlow, hhalf, hone]
  simp only [hbit, Int.ofNat_lt]

def wrapped (n : Int) : Int := wrap standardWidth n

theorem wrapped_eq (n : Int) : wrapped n = n.bmod (Nat.pow 2 32) := wrap_eq_bmod standardWidth n

/-! ## decimal text -/

def digits (n : Nat) : List Char := Nat.toDigits 10 n

/-- decimal text with a minus sign in front of negative numbers -/
def text : Int → List Char
  | .ofNat n => digits n
  | .negSucc n => '-' :: digits (n + 1)

/-- a number with more decimal digits is not read from text where its width is open, and not
written -/
def maxDigits : Nat := 4300

def writable (n : Int) : Bool := n.natAbs < Nat.pow 10 maxDigits

/-- the integers of the language are all written -/
theorem writable_of_natAbs_le {n : Int} (h : n.natAbs ≤ Nat.pow 2 31) : writable n = true := by
  have hb : Nat.pow 2 31 < Nat.pow 10 maxDigits := by decide +kernel
  exact decide_eq_true (Nat.lt_of_le_of_lt h hb)

end Lisplet.Integer
