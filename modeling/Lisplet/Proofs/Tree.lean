import Lisplet.Value.Basic

/-!
# Values as trees

A value is a tree: its lists are the inner nodes, and all else are its leaves.  A lambda is a leaf,
whatever its body is.

* `leaves`       the leaves from left to right;
* `names`        the names of the symbols among them, with repetitions;
* `nesting`      how many lists are around its deepest place, the empty list included.
-/

namespace Lisplet.Value

mutual
/-- the leaves of a value, from left to right -/
def leaves : Value → List Value
  | .list items => leavesOf items
  | v => [v]

/-- the leaves of every item -/
def leavesOf : List Value → List Value
  | [] => []
  | v :: vs => leaves v ++ leavesOf vs
end

mutual
/-- how many lists are around the deepest place of a value -/
def nesting : Value → Nat
  | .list items => nestingOf items + 1
  | _ => 0

/-- the deepest nesting among the items -/
def nestingOf : List Value → Nat
  | [] => 0
  | v :: vs => max (nesting v) (nestingOf vs)
end

/-- the name of a symbol -/
def name? (v : Value) : Option String := v.symbol?.map Symbol.name

/-- the names of the symbols of a value, from left to right -/
def names (v : Value) : List String := v.leaves.filterMap name?

/-- the names of the symbols of every item -/
def namesOf (vs : List Value) : List String := (leavesOf vs).filterMap name?

theorem leavesOf_eq_flatMap (vs : List Value) : leavesOf vs = vs.flatMap leaves := by
  induction vs with
  | nil => rw [leavesOf]; rfl
  | cons v vs ih => rw [leavesOf, ih, List.flatMap_cons]

theorem leaves_list (vs : List Value) : (Value.list vs).leaves = leavesOf vs := by rw [leaves]

theorem nesting_list (vs : List Value) :
    (Value.list vs).nesting = nestingOf vs + 1 := by rw [nesting]

theorem nestingOf_nil : nestingOf [] = 0 := by rw [nestingOf]

theorem nestingOf_cons (v : Value) (vs : List Value) :
    nestingOf (v :: vs) = max v.nesting (nestingOf vs) := by rw [nestingOf]

theorem names_list (vs : List Value) : (Value.list vs).names = namesOf vs := by
  rw [names, leaves_list, namesOf]

theorem namesOf_nil : namesOf [] = [] := by
  rw [namesOf, leavesOf, List.filterMap_nil]

theorem namesOf_cons (v : Value) (vs : List Value) : namesOf (v :: vs) = v.names ++ namesOf vs := by
  rw [namesOf, leavesOf, List.filterMap_append, names, namesOf]

theorem nesting_le_nestingOf {v : Value} {vs : List Value} (h : v ∈ vs) :
    v.nesting ≤ nestingOf vs := by
  induction vs with
  | nil => exact absurd h List.not_mem_nil
  | cons w vs ih =>
    rw [nestingOf_cons]
    rcases List.mem_cons.1 h with he | hm
    · rw [he]
      exact Nat.le_max_left ..
    · exact Nat.le_trans (ih hm) (Nat.le_max_right ..)

theorem mem_namesOf {v : Value} {vs : List Value} {n : String} (h : v ∈ vs) (hn : n ∈ v.names) :
    n ∈ namesOf vs := by
  induction vs with
  | nil => exact absurd h List.not_mem_nil
  | cons w vs ih =>
    rw [namesOf_cons]
    rcases List.mem_cons.1 h with he | hm
    · exact List.mem_append_left _ (he ▸ hn)
    · exact List.mem_append_right _ (ih hm)

end Lisplet.Value
