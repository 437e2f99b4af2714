import Lisplet.Value.Basic

/-!
# Loose equality

The equality of the host: a boolean equals the integer that stands for it, `true` one and `false`
zero, also inside lists and lambdas.  Symbols are equal if they are the same symbol, native
functions if name and procedure agree; nil equals nil only, and a foreign thing equals no other
value.
-/

namespace Lisplet.Value

/-- the integer that a boolean or an integer stands for -/
def number? : Value → Option Int
  | .bool b => some (if b then 1 else 0)
  | .int n => some n
  | _ => none

mutual
def same : Value → Value → Bool
  | .nil, .nil => true
  | .str a, .str b => a == b
  | .symbol a, .symbol b => a == b
  | .list as, .list bs => sameAll as bs
  | .native f, .native g => f == g
  | .lambda ps b, .lambda qs c => sameAll ps qs && same b c
  | a, b => match number? a, number? b with
    | some m, some n => m == n
    | _, _ => false

def sameAll : List Value → List Value → Bool
  | [], [] => true
  | a :: as, b :: bs => same a b && sameAll as bs
  | _, _ => false
end

end Lisplet.Value
