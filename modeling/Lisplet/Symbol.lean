/-!
# Symbols and symbol tables

A symbol is an interned name.  It is known by the table that made it and by its spelling, so two
symbols are equal exactly if the same table made them for the same name.  Whoever creates a table
numbers it; two tables of one run bear different numbers.

A table only ever grows: it lists the names interned so far, each once, in the order of their first
use.  `symFor` gives the symbol of a name together with the table after that use.

* `mem_intern`        what a table knows after a name has been interned;
* `names_intern`      the names known before keep their places.
-/

namespace Lisplet

/-- a name, and the number of the table that made it a symbol -/
structure Symbol where
  table : Nat
  name : String
  deriving DecidableEq, Repr

/-- the number that tells this table from others, and the names interned so far, oldest first -/
structure SymbolTable where
  id : Nat
  names : List String
  deriving DecidableEq, Repr

namespace SymbolTable

def empty (id : Nat) : SymbolTable := ⟨id, []⟩

def symbol (t : SymbolTable) (name : String) : Symbol := ⟨t.id, name⟩

def contains (t : SymbolTable) (name : String) : Bool := t.names.contains name

def size (t : SymbolTable) : Nat := t.names.length

def intern (t : SymbolTable) (name : String) : SymbolTable :=
  if t.contains name then t else { t with names := t.names ++ [name] }

/-- the symbol of a name, which is interned by that -/
def symFor (t : SymbolTable) (name : String) :
    Symbol × SymbolTable := (t.symbol name, t.intern name)

def internAll (t : SymbolTable) (names : List String) : SymbolTable :=
  names.foldl (fun t name => (t.symFor name).2) t

/-! ## what interning does -/

theorem id_intern (t : SymbolTable) (name : String) : (t.intern name).id = t.id := by
  unfold intern
  split <;> rfl

theorem intern_of_mem (t : SymbolTable) {name : String} (h : name ∈ t.names) :
    t.intern name = t := by
  simp [intern, contains, h]

theorem names_intern_of_not_mem (t : SymbolTable) {name : String} (h : name ∉ t.names) :
    (t.intern name).names = t.names ++ [name] := by
  simp [intern, contains, h]

theorem mem_intern (t : SymbolTable) (a b : String) :
    b ∈ (t.intern a).names ↔ b = a ∨ b ∈ t.names := by
  by_cases h : a ∈ t.names
  · rw [intern_of_mem t h]
    constructor
    · exact Or.inr
    · rintro (rfl | hb)
      · exact h
      · exact hb
  · rw [names_intern_of_not_mem t h, List.mem_append, List.mem_singleton]
    exact Or.comm

/-- names known before keep their places -/
theorem names_intern (t : SymbolTable) (name : String) :
    ∃ more, (t.intern name).names = t.names ++ more := by
  by_cases h : name ∈ t.names
  · exact ⟨[], by rw [intern_of_mem t h, List.append_nil]⟩
  · exact ⟨[name], names_intern_of_not_mem t h⟩

theorem internAll_cons (t : SymbolTable) (a : String) (as : List String) :
    t.internAll (a :: as) = (t.intern a).internAll as := rfl

theorem internAll_append (t : SymbolTable) (as bs : List String) :
    t.internAll (as ++ bs) = (t.internAll as).internAll bs := by
  simp [internAll]

end SymbolTable

end Lisplet
