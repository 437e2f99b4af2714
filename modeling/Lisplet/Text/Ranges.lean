/-!
# Classes of characters given by ranges of code points

A class of characters that follows a standard is data: a list of closed ranges of code points, in
increasing order and with gaps between them.  `inRanges` is membership in their union.
-/

namespace Lisplet.Text

/-- closed ranges of code points -/
abbrev Ranges := List (Nat × Nat)

def inRanges (rs : Ranges) (c : Char) : Bool :=
  rs.any fun r => decide (r.1 ≤ c.toNat) && decide (c.toNat ≤ r.2)

theorem inRanges_cons (r : Nat × Nat) (rs : Ranges) (c : Char) :
    inRanges (r :: rs) c = ((decide (r.1 ≤ c.toNat) && decide (c.toNat ≤ r.2)) || inRanges rs c) :=
  rfl

end Lisplet.Text
