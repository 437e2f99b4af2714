import Lisplet.Integer
import Lisplet.Value.Basic
import Lisplet.Text.Quoted

/-!
# Values in messages

Two forms of a value that some messages show.

* `inspect` tells kinds apart: strings are quoted, a symbol is `Symbol('x')`, a list is written with
  commas and a list of one item has a comma after it, functions show their parts.
* `display` is the short form: strings, symbols and functions as a user knows them, all else as in
  `inspect`.  Inside a list items are always inspected.

Inspecting a value takes stack levels of the host, `inspectLevels`: one for every list around the
innermost item, and a few for the parts of a symbol or a function.
-/

namespace Lisplet

/-- how a primitive calls itself when it is inspected -/
def Primitive.label : Primitive → String
  | .not => "not_"
  | .println => "make_println.<locals>.println"
  | p => p.name

def Procedure.label : Procedure → String
  | .primitive p => p.label
  | .host id => "host" ++ String.ofList (Integer.digits id)

def Symbol.inspect (s : Symbol) : String := "Symbol(" ++ Text.quoted s.name ++ ")"

def Native.inspect (f : Native) : String :=
  "NativeFunction(name=" ++ f.name.inspect ++ ", code=<function " ++ f.code.label ++ ">)"

def Native.display (f : Native) : String := "<native " ++ f.name.name ++ ">"

namespace Value

/-- items between brackets, with a comma after a single one -/
def bracketed : List String → String
  | [] => "()"
  | [a] => "(" ++ a ++ ",)"
  | as => "(" ++ String.intercalate ", " as ++ ")"

mutual
/-- the form that tells kinds apart -/
def inspect : Value → String
  | .nil => "nil"
  | .bool b => if b then "True" else "False"
  | .int n => String.ofList (Integer.text n)
  | .str s => Text.quoted s
  | .symbol s => s.inspect
  | .list items => bracketed (inspectAll items)
  | .native f => f.inspect
  | .lambda ps b =>
      "UserFunction(params=" ++ bracketed (inspectAll ps) ++ ", body=" ++ inspect b ++ ")"
  | .foreign t => t

def inspectAll : List Value → List String
  | [] => []
  | v :: vs => inspect v :: inspectAll vs
end

mutual
def display : Value → String
  | .str s => s
  | .symbol s => s.name
  | .native f => f.display
  | .lambda ps _ => "<lambda (" ++ String.intercalate " " (displayAll ps) ++ ")>"
  | v => v.inspect

def displayAll : List Value → List String
  | [] => []
  | v :: vs => display v :: displayAll vs
end

mutual
/-- the stack levels that inspecting a value takes -/
def inspectLevels : Value → Nat
  | .symbol _ => 3
  | .list items => inspectLevelsOf items + 1
  | .native _ => 6
  | .lambda ps b => max (inspectLevelsOf ps + 1) (inspectLevels b) + 3
  | _ => 1

def inspectLevelsOf : List Value → Nat
  | [] => 0
  | v :: vs => max (inspectLevels v) (inspectLevelsOf vs)
end

theorem inspectLevelsOf_le {vs : List Value} {n : Nat} (h : ∀ v ∈ vs, v.inspectLevels ≤ n) :
    inspectLevelsOf vs ≤ n := by
  induction vs with
  | nil =>
    rw [inspectLevelsOf]
    exact Nat.zero_le n
  | cons v vs ih =>
    obtain ⟨hv, hvs⟩ := List.forall_mem_cons.1 h
    rw [inspectLevelsOf]
    exact Nat.max_le.2 ⟨hv, ih hvs⟩

end Value

end Lisplet
