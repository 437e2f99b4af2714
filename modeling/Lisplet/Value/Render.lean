import Lisplet.Value.Inspect
import Lisplet.Text.Escape

/-!
# Printed values

The text of a value for a user.  Items of a list are separated by one blank.  The readable form
writes strings as literals, so that the reader gives the value back; the plain form writes them as
they are.  Functions and foreign things have no readable form and are displayed.

Printing a value takes stack levels of the host, `printLevels`: three for every list around the
innermost item, and those of that item.
-/

namespace Lisplet.Value

mutual
def chars (readable : Bool) : Value → List Char
  | .nil => ['n', 'i', 'l']
  | .bool true => ['t', 'r', 'u', 'e']
  | .bool false => ['f', 'a', 'l', 's', 'e']
  | .int n => Integer.text n
  | .str s => if readable then Text.literal s.toList else s.toList
  | .symbol s => s.name.toList
  | .list items => '(' :: (itemChars readable items ++ [')'])
  | .native f => f.display.toList
  | .lambda ps b => (Value.lambda ps b).display.toList
  | .foreign t => t.toList

/-- the items of a list, one blank between two of them -/
def itemChars (readable : Bool) : List Value → List Char
  | [] => []
  | v :: vs => chars readable v ++ (match vs with
    | [] => []
    | _ :: _ => ' ' :: itemChars readable vs)
end

mutual
/-- no integer that the printed value shows is too long to be written -/
def writable : Value → Bool
  | .int n => Integer.writable n
  | .list items => allWritable items
  | .lambda params _ => allWritable params
  | _ => true

def allWritable : List Value → Bool
  | [] => true
  | v :: vs => writable v && allWritable vs
end

def render (readable : Bool) (v : Value) : String := String.ofList (chars readable v)

def readable (v : Value) : String := render true v

def plain (v : Value) : String := render false v

mutual
/-- the stack levels that printing a value takes -/
def printLevels (readable : Bool) : Value → Nat
  | .int _ => 2
  | .str _ => if readable then 4 else 1
  | .list items => printLevelsOf readable items + 3
  | .native _ => 6
  | .lambda ps _ => max 1 (inspectLevelsOf ps) + 4
  | .foreign _ => 2
  | _ => 1

def printLevelsOf (readable : Bool) : List Value → Nat
  | [] => 0
  | v :: vs => max (printLevels readable v) (printLevelsOf readable vs)
end

theorem printLevelsOf_le {b : Bool} {n : Nat} {vs : List Value}
    (h : ∀ v ∈ vs, v.printLevels b ≤ n) : printLevelsOf b vs ≤ n := by
  induction vs with
  | nil =>
    rw [printLevelsOf]
    exact Nat.zero_le n
  | cons v vs ih =>
    obtain ⟨hv, hvs⟩ := List.forall_mem_cons.1 h
    rw [printLevelsOf]
    exact Nat.max_le.2 ⟨hv, ih hvs⟩

theorem toList_render (r : Bool) (v : Value) : (render r v).toList = chars r v := by
  simp [render]

theorem allWritable_eq_all (vs : List Value) : allWritable vs = vs.all writable := by
  induction vs with
  | nil => rw [allWritable]; rfl
  | cons v vs ih => rw [allWritable, ih, List.all_cons]

theorem itemChars_nil (r : Bool) : itemChars r [] = [] := by rw [itemChars]

theorem itemChars_single (r : Bool) (v : Value) : itemChars r [v] = chars r v := by
  rw [itemChars]; simp

theorem itemChars_cons_cons (r : Bool) (v w : Value) (vs : List Value) :
    itemChars r (v :: w :: vs) = chars r v ++ ' ' :: itemChars r (w :: vs) := by
  rw [itemChars]

end Lisplet.Value
