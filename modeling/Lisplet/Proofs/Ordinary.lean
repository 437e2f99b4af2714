import Mathlib
import Lisplet.Proofs.Provenance
import Lisplet.Proofs.RoundTrip
import Lisplet.Proofs.Viability

/-!
# Ordinary values

The values that programs work with: nil, booleans, strings, integers of 32 bits, the primitives, and
functions that come from a text.  Neither lists nor symbols are among them, nor anything of the
host.

What is ordinary depends on the symbol table, since a function has names in it, and a table that
grows keeps it (`Ordinary.mono`).  With the names of a table and what its reader can produce,
ordinary values are a realm (`ordinary`), so no evaluation leaves them.

* `producible_iff`     what the reader can produce without learning a name;
* `learns_expression`  what becomes of the table when an expression is read, or cannot be read;
* `learns_unit`        the same for a program.
-/

namespace Lisplet

/-- the symbol is one of the table -/
def SymbolTable.Owns (t : SymbolTable) (n : Symbol) : Prop := n.table = t.id ∧ n.name ∈ t.names

/-- the reader gives the value for some text, and the table knows all names of that text -/
def Producible (t : SymbolTable) (depth : Nat) (v : Value) : Prop :=
  ∃ text r, Reading.expression (Reader.ofText text t ⟨Integer.standardWidth, depth⟩) = .ok v r ∧
    r.marks.table = t

/-- a value that programs work with -/
inductive Ordinary (t : SymbolTable) (depth : Nat) : Value → Prop
  | nil : Ordinary t depth .nil
  | bool (b : Bool) : Ordinary t depth (.bool b)
  | str (s : String) : Ordinary t depth (.str s)
  | int {n : Int} (hl : -2 ^ 31 ≤ n) (hg : n ≤ 2 ^ 31 - 1) : Ordinary t depth (.int n)
  | primitive (p : Primitive) : Ordinary t depth (.native ⟨t.symbol p.name, .primitive p⟩)
  | lambda {params : List Value} {body : Value} (hp : ∀ p ∈ params, ∃ n, p = .symbol n ∧ t.Owns n)
      (hb : Producible t depth body) : Ordinary t depth (.lambda params body)

/-! ## what the reader can produce -/

namespace SymbolTable

variable {t t' : SymbolTable}

theorem internAll_of_subset {names : List String} (h : ∀ n ∈ names, n ∈ t.names) :
    t.internAll names = t := by
  induction names with
  | nil => rfl
  | cons n names ih =>
    rw [internAll_cons, t.intern_of_mem (h n (List.mem_cons_self ..))]
    exact ih fun m hm => h m (List.mem_cons_of_mem _ hm)

theorem mem_internAll {names : List String} {n : String} (h : n ∈ names) :
    n ∈ (t.internAll names).names := by
  induction names generalizing t with
  | nil => exact absurd h List.not_mem_nil
  | cons m names ih =>
    rw [internAll_cons]
    rcases List.mem_cons.1 h with rfl | h
    · have hm : n ∈ (t.intern n).names := (t.mem_intern n n).2 (.inl rfl)
      exact (extends_internAll (t.intern n) names).names.subset hm
    · exact ih h

theorem Owns.mono {n : Symbol} (h : t.Extends t') (hn : t.Owns n) : t'.Owns n :=
  ⟨hn.1.trans h.id.symm, h.names.subset hn.2⟩

theorem Extends.symbol (h : t.Extends t') (name : String) : t'.symbol name = t.symbol name := by
  rw [SymbolTable.symbol, h.id, SymbolTable.symbol]

end SymbolTable

section
variable {t t' : SymbolTable} {depth : Nat}

theorem producible_iff {v : Value} :
    Producible t depth v ↔ v.Readable t.id ∧ v.nesting ≤ depth ∧ ∀ n ∈ v.names, n ∈ t.names := by
  constructor
  · rintro ⟨text, r, hr, ht⟩
    obtain ⟨hread, hnest, htable⟩ := readable_of_expression hr
    refine ⟨hread, hnest, ?_⟩
    intro n hn
    have hm : n ∈ (t.internAll v.names).names := SymbolTable.mem_internAll hn
    rw [← htable, ht] at hm
    exact hm
  · rintro ⟨hread, hnest, hnames⟩
    obtain ⟨text, r, _, hr⟩ := rereads_iff.2 ⟨hread, Nat.le_refl _, hnest⟩
    refine ⟨text, r, hr, ?_⟩
    rw [(readable_of_expression hr).2.2]
    exact SymbolTable.internAll_of_subset hnames

theorem Producible.mono {v : Value} (h : t.Extends t') (hv : Producible t depth v) :
    Producible t' depth v := by
  obtain ⟨hread, hnest, hnames⟩ := producible_iff.1 hv
  exact producible_iff.2 ⟨h.id ▸ hread, hnest, fun n hn => h.names.subset (hnames n hn)⟩

theorem Producible.item {items : List Value} {v : Value} (h : Producible t depth (.list items))
    (hv : v ∈ items) : Producible t depth v := by
  obtain ⟨hread, hnest, hnames⟩ := producible_iff.1 h
  refine producible_iff.2 ⟨Value.readable_list.1 hread v hv, ?_, ?_⟩
  · rw [Value.nesting_list] at hnest
    have hle := Value.nesting_le_nestingOf hv
    omega
  · intro n hn
    apply hnames
    rw [Value.names_list]
    exact Value.mem_namesOf hv hn

theorem Producible.owns {n : Symbol} (h : Producible t depth (.symbol n)) : t.Owns n := by
  obtain ⟨hread, _, hnames⟩ := producible_iff.1 h
  have hleaf : ReadableLeaf t.id (.symbol n) := (Value.readable_leaf rfl).1 hread
  exact ⟨hleaf.1, hnames n.name (List.mem_singleton.2 rfl)⟩

theorem Producible.ordinary {v : Value} (h : Producible t depth v) (hs : ∀ n, v ≠ .symbol n)
    (hl : ∀ items, v ≠ .list items) : Ordinary t depth v := by
  obtain ⟨hread, _, _⟩ := producible_iff.1 h
  cases v with
  | nil => exact .nil
  | bool b => exact .bool b
  | str s => exact .str s
  | int n =>
    obtain ⟨h₀, h₁⟩ : ReadableLeaf t.id (.int n) := (Value.readable_leaf rfl).1 hread
    exact .int (by omega) h₁
  | symbol n => exact absurd rfl (hs n)
  | list items => exact absurd rfl (hl items)
  | _ => exact absurd ((Value.readable_leaf rfl).1 hread) id

/-! ## ordinary values -/

theorem Ordinary.mono {v : Value} (h : t.Extends t') (hv : Ordinary t depth v) :
    Ordinary t' depth v := by
  cases hv with
  | nil => exact .nil
  | bool b => exact .bool b
  | str s => exact .str s
  | int hl hg => exact .int hl hg
  | primitive p =>
    rw [← h.symbol]
    exact .primitive p
  | lambda hp hb =>
    refine .lambda ?_ (hb.mono h)
    intro p hm
    obtain ⟨n, hn, ho⟩ := hp p hm
    exact ⟨n, hn, ho.mono h⟩

theorem ordinary_wrapped (n : Int) : Ordinary t depth (.int (Integer.wrapped n)) := by
  have hw : Integer.wrapped n = n.bmod (2 ^ 32) := Integer.wrapped_eq n
  have hl : -(((2 ^ 32 : Nat) : Int) / 2) ≤ n.bmod (2 ^ 32) := Int.le_bmod (by norm_num)
  have hg : n.bmod (2 ^ 32) < (((2 ^ 32 : Nat) : Int) + 1) / 2 := Int.bmod_lt (by norm_num)
  rw [hw]
  refine .int ?_ ?_
  · norm_num at hl ⊢
    exact hl
  · norm_num at hg ⊢
    omega

theorem Ordinary.lambda_of_list {params : List Value} {body : Value}
    (hl : Producible t depth (.list params)) (hp : ∀ p ∈ params, ∃ n, p = .symbol n)
    (hb : Producible t depth body) :
    Ordinary t depth (.lambda params body) := by
  refine .lambda ?_ hb
  intro p hm
  obtain ⟨n, rfl⟩ := hp p hm
  exact ⟨n, rfl, (hl.item hm).owns⟩

variable (t depth) in
/-- the realm of a session with this table -/
def ordinary : Realm where
  IsExpr := Producible t depth
  IsValue := Ordinary t depth
  IsName := t.Owns
  self := Producible.ordinary
  item := Producible.item
  name := Producible.owns
  lambda := Ordinary.lambda_of_list
  param := by
    intro params body n hf hn
    cases hf with
    | lambda hp _ =>
      obtain ⟨m, hm, ho⟩ := hp _ hn
      cases hm
      exact ho
  body := by
    intro params body hf
    cases hf with
    | lambda _ hb => exact hb
  native := by
    intro f hf
    cases hf with
    | primitive p => exact ⟨p, rfl⟩
  wrapped := ordinary_wrapped
  bool := .bool
  nil := .nil

theorem ordinary_holds_mono (h : t.Extends t') {w : World} (hw : (ordinary t depth).Holds w) :
    (ordinary t' depth).Holds w where
  proper := hw.proper
  bound := fun n v hb => ⟨(hw.bound n v hb).1.mono h, (hw.bound n v hb).2.mono h⟩

theorem ordinary_records_mono (h : t.Extends t') {e : Event} (he : (ordinary t depth).Records e) :
    (ordinary t' depth).Records e := by
  cases e with
  | applying head args => exact fun a ha => (he a ha).mono h
  | mismatch params body args => exact fun a ha => (he a ha).mono h
  | called f args => exact ⟨he.1.mono h, fun a ha => (he.2 a ha).mono h⟩
  | printed text =>
    obtain ⟨args, ha, ht⟩ := he
    exact ⟨args, fun a hm => (ha a hm).mono h, ht⟩
  | _ => trivial

end

/-! ## what reading does to a table -/

section
variable {α : Type}

/-- what a reading that starts with a table may end with -/
def Learns (t : SymbolTable) (Q : SymbolTable → α → Prop) :
    EStateM.Result ParseError Reader α → Prop
  | .ok a r => t.Extends r.marks.table ∧ Q r.marks.table a
  | .error e r => t.Extends r.marks.table ∧ ∀ wanted found, e.cause ≠ .expected wanted found

theorem learns_of_outcome {t t' : SymbolTable} {lim : Limits} {whole : Whole} {text : String}
    {e : ParseError}
    (h : Progress.outcome lim whole (Progress.start t) text.toList = .error ⟨e, t'⟩) :
    t.Extends t' ∧ ∀ wanted found, e.cause ≠ .expected wanted found := by
  have hext := Progress.extends_outcome lim whole (Progress.start t) text.toList
  rw [h] at hext
  exact ⟨hext, Progress.outcome_not_expected h⟩

theorem learns_expression (t : SymbolTable) (depth : Nat) (text : String) :
    Learns t (fun t' v => Producible t' depth v)
      (Reading.expression (Reader.ofText text t ⟨Integer.standardWidth, depth⟩)) := by
  have ht : told (viewed (Reading.expression (Reader.ofText text t ⟨Integer.standardWidth, depth⟩)))
      = _ :=
    Progress.follows_expression t ⟨Integer.standardWidth, depth⟩ text
  cases hr : Reading.expression (Reader.ofText text t ⟨Integer.standardWidth, depth⟩) with
  | ok v r =>
    obtain ⟨hread, hnest, htable⟩ := readable_of_expression hr
    have hext : t.Extends r.marks.table := htable ▸ SymbolTable.extends_internAll t v.names
    refine ⟨hext, producible_iff.2 ⟨hext.id ▸ hread, hnest, ?_⟩⟩
    intro n hn
    rw [htable]
    exact SymbolTable.mem_internAll hn
  | error e r =>
    rw [hr] at ht
    exact learns_of_outcome (error_of_told ht)

theorem learns_unit (t : SymbolTable) (depth : Nat) (text : String) :
    Learns t (fun t' es => ∀ e ∈ es, Producible t' depth e)
      (Reading.unit (Reader.ofText text t ⟨Integer.standardWidth, depth⟩)) := by
  have ht : told (viewed (Reading.unit (Reader.ofText text t ⟨Integer.standardWidth, depth⟩)))
      = _ :=
    Progress.follows_unit t ⟨Integer.standardWidth, depth⟩ text
  cases hr : Reading.unit (Reader.ofText text t ⟨Integer.standardWidth, depth⟩) with
  | ok es r =>
    have hl := learns_expression t depth text
    rw [(Reading.unit_eq_ok_iff ..).1 hr] at hl
    exact ⟨hl.1, fun e he => hl.2.item he⟩
  | error e r =>
    rw [hr] at ht
    exact learns_of_outcome (error_of_told ht)

end

end Lisplet
