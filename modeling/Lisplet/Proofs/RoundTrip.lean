import Lisplet.Proofs.Acceptance
import Lisplet.Value.Written

/-!
# What is written readably is read again

The readable form of a value is read back as the same value exactly if the value could have come
from a text in the first place (`Readable`): its integers are not negative and fit the width, its
symbols are those of the reader's own table and have names that are read as symbols, and it has no
functions.

* `sexp_chars`        the readable form of such a value is an expression of the grammar, whatever
                      follows, as long as that cannot make a name or an integer longer;
* `Sexp.readable`     the grammar derives no other values;
* `reread_iff_readable`   the two together.
-/

namespace Lisplet

open Grammar

/-- a name that is read as a symbol -/
def IsName (s : String) : Prop :=
  s ≠ "" ∧ (∀ c ∈ s.toList, IsLetter c) ∧ s ≠ "true" ∧ s ≠ "false" ∧ s ≠ "nil"

/-- a leaf that a reader with the given table can return -/
def ReadableLeaf (table : Nat) : Value → Prop
  | .nil => True
  | .bool _ => True
  | .int n => 0 ≤ n ∧ n ≤ 2 ^ 31 - 1
  | .str _ => True
  | .symbol s => s.table = table ∧ IsName s.name
  | _ => False

/-- a value that a reader with the given table can return -/
def Value.Readable (table : Nat) (v : Value) : Prop := ∀ w ∈ v.leaves, ReadableLeaf table w

theorem Value.readable_leaf {table : Nat} {v : Value} (h : v.leaves = [v]) :
    v.Readable table ↔ ReadableLeaf table v := by
  rw [Readable, h]
  exact List.forall_mem_singleton

theorem Value.readable_list {table : Nat} {vs : List Value} :
    (Value.list vs).Readable table ↔ ∀ v ∈ vs, v.Readable table := by
  rw [Readable, leaves_list, leavesOf_eq_flatMap]
  constructor
  · intro h v hv w hw
    exact h w (List.mem_flatMap.mpr ⟨v, hv, hw⟩)
  · intro h w hw
    obtain ⟨v, hv, hw⟩ := List.mem_flatMap.mp hw
    exact h v hv w hw

/-! ## derived values are readable -/

theorem Grammar.readable_nameValue (table : Nat) {cs : List Char} (hne : cs ≠ [])
    (hc : ∀ c ∈ cs, IsLetter c) : (nameValue table (String.ofList cs)).Readable table := by
  unfold nameValue
  split
  · exact (Value.readable_leaf rfl).2 trivial
  split
  · exact (Value.readable_leaf rfl).2 trivial
  split
  · exact (Value.readable_leaf rfl).2 trivial
  · next ht hf hn =>
    refine (Value.readable_leaf rfl).2 ⟨rfl, ?_, ?_, ht, hf, hn⟩
    · intro he
      exact hne (by simpa using congrArg String.toList he)
    · rw [String.toList_ofList]
      exact hc

mutual
theorem Grammar.Sexp.readable {table : Nat} {a b : List Char} {v : Value} :
    Sexp Integer.standardWidth table a v b → v.Readable table
  | .list _ hi => Value.readable_list.2 (Items.readable hi)
  | .string _ => (Value.readable_leaf rfl).2 trivial
  | .name hne hc _ => readable_nameValue table hne hc
  | .integer _ _ _ hf => (Value.readable_leaf rfl).2 ⟨Int.natCast_nonneg _, hf⟩

theorem Grammar.Items.readable {table : Nat} {a b : List Char} {vs : List Value} :
    Items Integer.standardWidth table a vs b → ∀ v ∈ vs, v.Readable table
  | .nil _ => fun v hv => absurd hv List.not_mem_nil
  | .cons hs _ hi => by
    have h₁ := Sexp.readable hs
    have h₂ := Items.readable hi
    intro w hw
    rcases List.mem_cons.mp hw with rfl | hw
    · exact h₁
    · exact h₂ w hw
end

/-! ## readable values are written as expressions -/

/-- a text that makes no name and no integer longer -/
def Delimits (a : List Char) : Prop := Stops IsLetter a ∧ Stops IsNumeral a

theorem delimits_blank (a : List Char) : Delimits (' ' :: a) :=
  ⟨show ¬ IsLetter ' ' by decide, show ¬ IsNumeral ' ' by decide⟩

theorem delimits_close (a : List Char) : Delimits (')' :: a) :=
  ⟨show ¬ IsLetter ')' by decide, show ¬ IsNumeral ')' by decide⟩

theorem delimits_nil : Delimits [] := ⟨trivial, trivial⟩

theorem quoted_literalChar (c : Char) {a s b : List Char} (h : Quoted a s b) :
    Quoted (Text.literalChar c ++ a) (c :: s) b := by
  unfold Text.literalChar
  cases he : Text.escapeLetter? c with
  | some e =>
    exact .escape
      ((escapeMeaning?_eq_some_iff e c).1 (Text.escapeMeaning?_of_escapeLetter? he)) h
  | none =>
    obtain ⟨hq, hb⟩ := Text.escapeLetter?_eq_none he
    exact .plain hq hb h

theorem quoted_literal (s a : List Char) : Quoted (s.flatMap Text.literalChar ++ '"' :: a) s a := by
  induction s with
  | nil => exact .close a
  | cons c s ih =>
    rw [List.flatMap_cons, List.append_assoc]
    exact quoted_literalChar c ih

theorem sexp_digits (table n : Nat) (h : (n : Int) ≤ 2 ^ 31 - 1) {a : List Char} (ha : Delimits a) :
    Sexp Integer.standardWidth table (Integer.digits n ++ a) (.int n) a := by
  have hd : decimal (Integer.digits n) = n := Nat.ofDigitChars_ten_toDigits
  have hs : Sexp Integer.standardWidth table (Integer.digits n ++ a)
      (.int (decimal (Integer.digits n))) a := by
    refine .integer Nat.toDigits_ne_nil ?_ ha.2 ?_
    · intro c hc
      exact (isDigit_iff c).1 (Nat.isDigit_of_mem_toDigits (by decide) (by decide) hc)
    · rw [hd]
      exact h
  rw [hd] at hs
  exact hs

theorem sexp_word (table : Nat) {cs a : List Char} {v : Value} (hne : cs ≠ [])
    (hc : ∀ c ∈ cs, IsLetter c) (hv : nameValue table (String.ofList cs) = v) (ha : Delimits a) :
    Sexp Integer.standardWidth table (cs ++ a) v a := by
  rw [← hv]
  exact .name hne hc ha.1

theorem sexp_name (table : Nat) {s : Symbol} (h : s.table = table ∧ IsName s.name) {a : List Char}
    (ha : Delimits a) : Sexp Integer.standardWidth table (s.name.toList ++ a) (.symbol s) a := by
  obtain ⟨rfl, hne, hc, ht, hf, hn⟩ := h
  refine sexp_word s.table ?_ hc ?_ ha
  · intro he
    exact hne (String.toList_eq_nil_iff.1 he)
  · rw [String.ofList_toList]
    simp [nameValue, ht, hf, hn]

mutual
theorem sexp_chars (table : Nat) (a : List Char) (ha : Delimits a) :
    (v : Value) → v.Readable table → Sexp Integer.standardWidth table (v.chars true ++ a) v a
  | .nil, _ => by
    rw [Value.chars]
    exact sexp_word table (by decide) (by simp [IsLetter]) rfl ha
  | .bool true, _ => by
    rw [Value.chars]
    exact sexp_word table (by decide) (by simp [IsLetter]) rfl ha
  | .bool false, _ => by
    rw [Value.chars]
    exact sexp_word table (by decide) (by simp [IsLetter]) rfl ha
  | .int n, h => by
    obtain ⟨h₀, h₁⟩ := (Value.readable_leaf rfl).1 h
    obtain ⟨k, rfl⟩ := Int.eq_ofNat_of_zero_le h₀
    rw [Value.chars]
    exact sexp_digits table k h₁ ha
  | .str s, _ => by
    have hs : Sexp Integer.standardWidth table
        ('"' :: (s.toList.flatMap Text.literalChar ++ '"' :: a))
        (.str (String.ofList s.toList)) a := .string (quoted_literal s.toList a)
    rw [String.ofList_toList] at hs
    simpa [Value.chars, Text.literal] using hs
  | .symbol s, h => by
    rw [Value.chars]
    exact sexp_name table ((Value.readable_leaf rfl).1 h) ha
  | .list vs, h => by
    have hi := items_chars table a vs (Value.readable_list.1 h)
    simpa [Value.chars] using Sexp.list (.none _) hi
  | .native f, h => absurd ((Value.readable_leaf rfl).1 h) id
  | .lambda ps b, h => absurd ((Value.readable_leaf rfl).1 h) id
  | .foreign t, h => absurd ((Value.readable_leaf rfl).1 h) id

theorem items_chars (table : Nat) (a : List Char) :
    (vs : List Value) → (∀ v ∈ vs, v.Readable table) →
      Items Integer.standardWidth table (Value.itemChars true vs ++ ')' :: a) vs (')' :: a)
  | [], _ => by
    rw [Value.itemChars_nil]
    exact .nil _
  | [v], h => by
    rw [Value.itemChars_single]
    exact .cons (sexp_chars table _ (delimits_close a) v (h v (List.mem_cons_self ..))) (.none _)
      (.nil _)
  | v :: w :: vs, h => by
    have hv := sexp_chars table (' ' :: (Value.itemChars true (w :: vs) ++ ')' :: a))
      (delimits_blank _) v (h v (List.mem_cons_self ..))
    have hi := items_chars table a (w :: vs) (fun u hu => h u (List.mem_cons_of_mem _ hu))
    rw [Value.itemChars_cons_cons, List.append_assoc]
    exact .cons hv (.blank (.inl rfl) (.none _)) hi
end

/-! ## readable values can be written -/

mutual
theorem writable_of_readable {table : Nat} : (v : Value) → v.Readable table → v.writable = true
  | .int n, h => by
    obtain ⟨h₀, h₁⟩ := (Value.readable_leaf rfl).1 h
    have hn : n.natAbs ≤ 2 ^ 31 := by omega
    rw [Value.writable]
    exact Integer.writable_of_natAbs_le hn
  | .list vs, h => by
    rw [Value.writable]
    exact allWritable_of_readable vs (Value.readable_list.1 h)
  | .nil, _ | .bool _, _ | .str _, _ | .symbol _, _ => by simp [Value.writable]
  | .native _, h | .lambda _ _, h | .foreign _, h => absurd ((Value.readable_leaf rfl).1 h) id

theorem allWritable_of_readable {table : Nat} :
    (vs : List Value) → (∀ v ∈ vs, v.Readable table) → Value.allWritable vs = true
  | [], _ => by rw [Value.allWritable]
  | v :: vs, h => by
    rw [Value.allWritable, writable_of_readable v (h v (List.mem_cons_self ..)),
      allWritable_of_readable vs (fun w hw => h w (List.mem_cons_of_mem _ hw))]
    rfl
end

theorem written_eq_ok_iff {table levels : Nat} {v : Value} (h : v.Readable table) {text : String} :
    v.written levels = .ok text ↔ v.printLevels true ≤ levels ∧ text = v.readable := by
  rw [Value.written, if_pos (writable_of_readable v h), Value.printed]
  by_cases hl : v.printLevels true ≤ levels
  · rw [if_pos hl]
    constructor
    · intro he
      cases he
      exact ⟨hl, rfl⟩
    · rintro ⟨_, rfl⟩
      rfl
  · rw [if_neg hl]
    constructor
    · intro he
      cases he
    · rintro ⟨hl', _⟩
      exact absurd hl' hl

/-! ## reading what was written -/

theorem isExpression_readable {table : Nat} {v : Value} (h : v.Readable table) :
    IsExpression Integer.standardWidth table v.readable.toList v := by
  refine ⟨v.chars true, [], ?_, ?_, .none []⟩
  · rw [Value.readable, Value.toList_render]
    exact .none _
  · have hs := sexp_chars table [] delimits_nil v h
    rwa [List.append_nil] at hs

/-- the readable form of `v`, printed with so many levels and read with the given table by a reader
of the standard width that admits the given nesting, gives `x` -/
def Rereads {α : Type} (reading : Reading α) (t : SymbolTable) (levels depth : Nat) (v : Value)
    (x : α) :
    Prop :=
  ∃ text r, v.written levels = .ok text ∧
    reading (Reader.ofText text t ⟨Integer.standardWidth, depth⟩) = .ok x r

/-- whatever text it comes from, a value that is read is readable, its nesting is admitted, and its
names are interned -/
theorem readable_of_expression {t : SymbolTable} {depth : Nat} {text : String} {v : Value}
    {r : Reader} (h : Reading.expression (Reader.ofText text t ⟨Integer.standardWidth, depth⟩)
      = .ok v r) :
    v.Readable t.id ∧ v.nesting ≤ depth ∧ r.marks.table = t.internAll v.names := by
  have he := Reading.isExpression_of_expression h
  have hd : v.nesting ≤ depth := by
    apply Nat.le_of_not_lt
    intro hd
    obtain ⟨_, _, h'⟩ := Reading.expression_tooDeep he hd
    rw [h] at h'
    cases h'
  refine ⟨?_, hd, ?_⟩
  · obtain ⟨_, _, _, hs, _⟩ := he
    exact hs.readable
  · obtain ⟨r', ht, h'⟩ := Reading.expression_of_isExpression he hd
    rw [h] at h'
    cases h'
    exact ht

theorem rereads_iff {t : SymbolTable} {levels depth : Nat} {v : Value} :
    Rereads Reading.expression t levels depth v v ↔
      v.Readable t.id ∧ v.printLevels true ≤ levels ∧ v.nesting ≤ depth := by
  constructor
  · rintro ⟨text, r, hw, h⟩
    obtain ⟨hr, hd, _⟩ := readable_of_expression h
    exact ⟨hr, ((written_eq_ok_iff hr).1 hw).1, hd⟩
  · rintro ⟨hr, hl, hd⟩
    obtain ⟨r, _, h⟩ := Reading.expression_of_isExpression
      (r := Reader.ofText v.readable t ⟨Integer.standardWidth, depth⟩) (isExpression_readable hr) hd
    exact ⟨v.readable, r, (written_eq_ok_iff hr).2 ⟨hl, rfl⟩, h⟩

theorem rereads_unit_iff {t : SymbolTable} {levels depth : Nat} {v : Value} {vs : List Value} :
    Rereads Reading.unit t levels depth v vs ↔
      Rereads Reading.expression t levels depth v (.list vs) := by
  simp only [Rereads, Reading.unit_eq_ok_iff]

/-- **Exactly the readable values survive being written and read.** With every table, the readable
form of a value is read back as the value itself if and only if the value is readable, there are
levels enough to print it, and the reader admits its nesting; the table is then extended with the
names of the value, from left to right.  A list is read back as a unit under the same condition. -/
theorem reread_iff_readable (t : SymbolTable) (levels depth : Nat) (v : Value) :
    (Rereads Reading.expression t levels depth v v ↔
      v.Readable t.id ∧ v.printLevels true ≤ levels ∧ v.nesting ≤ depth) ∧
    (∀ vs, v = .list vs → (Rereads Reading.unit t levels depth v vs ↔
      v.Readable t.id ∧ v.printLevels true ≤ levels ∧ v.nesting ≤ depth)) ∧
    (∀ text r, Reading.expression (Reader.ofText text t ⟨Integer.standardWidth, depth⟩) = .ok v r →
      r.marks.table = t.internAll v.names) := by
  refine ⟨rereads_iff, ?_, ?_⟩
  · rintro vs rfl
    exact rereads_unit_iff.trans rereads_iff
  · intro text r h
    exact (readable_of_expression h).2.2

end Lisplet
