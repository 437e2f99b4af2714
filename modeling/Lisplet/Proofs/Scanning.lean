import Lisplet.Proofs.Automaton
import Lisplet.Proofs.Grammar

/-!
# What the automaton does with the parts of a text

The automaton goes character by character.  Here it is said what it does with a part of a text as a
whole: with a gap, a name, an integer, a string, a bracket.  Each statement is an equation between
two runs, the one before the part and the one after it, whatever comes later.

A part that is an expression ends in the same way wherever it stands: it is the value of the whole
reading, or an item of the innermost open list (`resume`).  Of what the reader knows, only the table
is followed here; names are interned as they are read.
-/

namespace Lisplet

open Grammar

/-! ## characters -/

theorem isGap_iff (c : Char) : isGap c = true ↔ IsBlank c := by
  simp [isGap, IsBlank, or_assoc]

theorem isLower_iff (c : Char) : c.isLower = true ↔ IsLetter c := by
  simp only [Char.isLower, IsLetter, ge_iff_le, Bool.and_eq_true, decide_eq_true_eq]
  rfl

theorem isDigit_iff (c : Char) : c.isDigit = true ↔ IsNumeral c := by
  simp only [Char.isDigit, IsNumeral, ge_iff_le, Bool.and_eq_true, decide_eq_true_eq]
  rfl

theorem escapeMeaning?_eq_some_iff (e c : Char) : Text.escapeMeaning? e = some c ↔ Escape e c := by
  constructor
  · intro h
    unfold Text.escapeMeaning? at h
    repeat' split at h
    all_goals first
      | (injection h with h; subst h; subst_vars; constructor)
      | exact absurd h (by simp)
  · intro h
    cases h <;> rfl

/-- a letter opens a name and nothing else -/
theorem gapStep_letter (lim : Limits) (opened : List (List Value)) (m : Marks) {c : Char}
    (h : IsLetter c) : gapStep lim opened m c = .more ⟨opened, .name [c]⟩ (m.taking c) := by
  have hne : ∀ d, ¬ IsLetter d → c ≠ d := fun d hd e => hd (e ▸ h)
  have hg : isGap c = false := by
    simp [isGap, hne ' ' (by decide), hne '\t' (by decide), hne '\r' (by decide),
      hne '\n' (by decide)]
  simp [gapStep, hg, hne ';' (by decide), hne ')' (by decide), hne '(' (by decide),
    hne '"' (by decide), (isLower_iff c).2 h]

/-- a digit opens an integer and nothing else -/
theorem gapStep_numeral (lim : Limits) (opened : List (List Value)) (m : Marks) {c : Char}
    (h : IsNumeral c) : gapStep lim opened m c = digitStep lim opened 0 m c := by
  have hne : ∀ d, ¬ IsNumeral d → c ≠ d := fun d hd e => hd (e ▸ h)
  have hg : isGap c = false := by
    simp [isGap, hne ' ' (by decide), hne '\t' (by decide), hne '\r' (by decide),
      hne '\n' (by decide)]
  have hl : c.isLower = false := by
    rw [← Bool.not_eq_true, isLower_iff]
    intro hc
    exact absurd (Char.le_trans hc.1 h.2) (by decide)
  simp [gapStep, hg, hne ';' (by decide), hne ')' (by decide), hne '(' (by decide),
    hne '"' (by decide), hl, (isDigit_iff c).2 h]

/-- no other character opens an expression or a gap -/
theorem gapStep_other (lim : Limits) (opened : List (List Value)) (m : Marks) {c : Char}
    (hg : ¬ OpensGap c) (hc : c ≠ ')') (ho : c ≠ '(') (hq : c ≠ '"') (hl : ¬ IsLetter c)
    (hn : ¬ IsNumeral c) :
    gapStep lim opened m c = .refused (.placed (.notAnExpression c) m.place) m := by
  have hb : ¬ isGap c = true := fun hb => hg (.inl ((isGap_iff c).1 hb))
  have hs : c ≠ ';' := fun hs => hg (.inr hs)
  rw [← isLower_iff] at hl
  rw [← isDigit_iff] at hn
  simp [gapStep, hb, hs, hc, ho, hq, hl, hn]

/-! ## the end of an expression -/

/-- goes on after an expression: it is the whole, or an item of the innermost open list -/
def resume (lim : Limits) (opened : List (List Value)) (v : Value) (m : Marks) (rest : List Char) :
    EStateM.Result ParseError Outlook Value :=
  match opened with
  | [] => .ok v ⟨rest, m, lim⟩
  | items :: outer => scan lim ⟨(v :: items) :: outer, .gap⟩ m rest

section
variable (lim : Limits) (opened : List (List Value)) (m : Marks)

theorem scan_close (items : List Value) (a : List Char) :
    scan lim ⟨items :: opened, .gap⟩ m (')' :: a)
      = resume lim opened (.list items.reverse) (m.taking ')') a := by
  cases opened <;> rfl

theorem scan_open (h : opened.length < lim.depth) (a : List Char) :
    scan lim ⟨opened, .gap⟩ m ('(' :: a) = scan lim ⟨[] :: opened, .gap⟩ (m.taking '(') a := by
  have hs : step lim ⟨opened, .gap⟩ m '(' = .more ⟨[] :: opened, .gap⟩ (m.taking '(') := by
    simp [step, gapStep, isGap, h]
  exact scan_cons_of_more hs

theorem scan_open_refused (h : ¬ opened.length < lim.depth) (a : List Char) :
    scan lim ⟨opened, .gap⟩ m ('(' :: a) = .error (.tooDeep m.place) ⟨'(' :: a, m, lim⟩ := by
  have hs : step lim ⟨opened, .gap⟩ m '(' = .refused (.tooDeep m.place) m := by
    simp [step, gapStep, isGap, h]
  rw [scan, hs]

/-! ## gaps -/

theorem scan_comment {body a : List Char} (hb : ∀ c ∈ body, c ≠ '\n')
    (ha : Stops (fun c => c ≠ '\n') a) :
    ∃ m', m'.table = m.table ∧
      scan lim ⟨opened, .comment⟩ m (body ++ a) = scan lim ⟨opened, .gap⟩ m' a := by
  induction body generalizing m with
  | nil =>
    cases a with
    | nil => exact ⟨m, rfl, rfl⟩
    | cons c a =>
      have hc : c = '\n' := Decidable.not_not.1 ha
      subst hc
      exact ⟨m, rfl, rfl⟩
  | cons c body ih =>
    have hc := hb c (List.mem_cons_self ..)
    have hs : step lim ⟨opened, .comment⟩ m c = .more ⟨opened, .comment⟩ (m.taking c) := by
      simp [step, hc]
    obtain ⟨m', ht, he⟩ := ih (m.taking c) (fun d hd => hb d (List.mem_cons_of_mem _ hd))
    exact ⟨m', ht, by rw [List.cons_append, scan_cons_of_more hs, he]⟩

theorem scan_gap {a b : List Char} (h : Gap a b) :
    ∃ m', m'.table = m.table ∧
      scan lim ⟨opened, .gap⟩ m a = scan lim ⟨opened, .gap⟩ m' b := by
  induction h generalizing m with
  | none a => exact ⟨m, rfl, rfl⟩
  | @blank c a b hc _ ih =>
    have hs : step lim ⟨opened, .gap⟩ m c = .more ⟨opened, .gap⟩ (m.taking c) := by
      simp [step, gapStep, (isGap_iff c).2 hc]
    obtain ⟨m', ht, he⟩ := ih (m.taking c)
    exact ⟨m', ht, by rw [scan_cons_of_more hs, he]⟩
  | @comment body a b hb ha _ ih =>
    have hs : step lim ⟨opened, .gap⟩ m ';' = .more ⟨opened, .comment⟩ (m.taking ';') := by
      simp [step, gapStep, isGap]
    obtain ⟨m₁, ht₁, he₁⟩ := scan_comment lim opened (m.taking ';') hb ha
    obtain ⟨m₂, ht₂, he₂⟩ := ih m₁
    exact ⟨m₂, ht₂.trans ht₁, by rw [scan_cons_of_more hs, he₁, he₂]⟩

/-! ## names -/

theorem scan_letters {cs : List Char} (h : ∀ c ∈ cs, IsLetter c) (taken a : List Char) :
    ∃ m', m'.table = m.table ∧
      scan lim ⟨opened, .name taken⟩ m (cs ++ a)
        = scan lim ⟨opened, .name (cs.reverse ++ taken)⟩ m' a := by
  induction cs generalizing m taken with
  | nil => exact ⟨m, rfl, rfl⟩
  | cons c cs ih =>
    have hs : step lim ⟨opened, .name taken⟩ m c
        = .more ⟨opened, .name (c :: taken)⟩ (m.taking c) := by
      simp [step, (isLower_iff c).2 (h c (List.mem_cons_self ..))]
    obtain ⟨m', ht, he⟩ :=
      ih (m.taking c) (fun d hd => h d (List.mem_cons_of_mem _ hd)) (c :: taken)
    refine ⟨m', ht, ?_⟩
    rw [List.cons_append, scan_cons_of_more hs, he, List.reverse_cons, List.append_assoc]
    rfl

/-- where no letter follows, a name has ended -/
theorem scan_nameEnd {a : List Char} (h : Stops IsLetter a) (taken : List Char) :
    scan lim ⟨opened, .name taken⟩ m a
      = resume lim opened (nameEnd m taken).1 (nameEnd m taken).2 a := by
  cases a with
  | nil => cases opened <;> rfl
  | cons c a =>
    have hc : c.isLower = false := by rw [← Bool.not_eq_true, isLower_iff]; exact h
    have hs : step lim ⟨opened, .name taken⟩ m c
        = itemStep lim opened (nameEnd m taken).1 (nameEnd m taken).2 c := by
      simp [step, hc]
    rw [scan, hs]
    cases opened <;> rfl

theorem nameEnd_fst (taken : List Char) :
    (nameEnd m taken).1 = nameValue m.table.id (String.ofList taken.reverse) := by
  unfold nameEnd nameValue literalName?
  repeat' split
  all_goals first
    | rfl
    | simp_all [SymbolTable.symFor, SymbolTable.symbol]

theorem names_of_literalName? {s : String} {v : Value} (h : literalName? s = some v) :
    v.names = [] := by
  unfold literalName? at h
  repeat' split at h
  all_goals first
    | (injection h with h; subst h; rfl)
    | exact absurd h (by simp)

theorem table_nameEnd (taken : List Char) :
    (nameEnd m taken).2.table = m.table.internAll (nameEnd m taken).1.names := by
  cases h : literalName? (String.ofList taken.reverse) with
  | none => simp only [nameEnd, h]; rfl
  | some v => simp only [nameEnd, h, names_of_literalName? h]; rfl

theorem scan_gap_letter {c : Char} (h : IsLetter c) (a : List Char) :
    scan lim ⟨opened, .gap⟩ m (c :: a) = scan lim ⟨opened, .name []⟩ m (c :: a) := by
  have hs : step lim ⟨opened, .gap⟩ m c = step lim ⟨opened, .name []⟩ m c := by
    simp [step, gapStep_letter lim opened m h, (isLower_iff c).2 h]
  rw [scan, hs, scan]

/-- a run of letters that no letter follows is read as a name -/
theorem scan_name {cs a : List Char} (hne : cs ≠ []) (h : ∀ c ∈ cs, IsLetter c)
    (ha : Stops IsLetter a) :
    ∃ m', m'.table = m.table.internAll (nameValue m.table.id (String.ofList cs)).names ∧
      scan lim ⟨opened, .gap⟩ m (cs ++ a)
        = resume lim opened (nameValue m.table.id (String.ofList cs)) m' a := by
  obtain ⟨m₁, ht, he⟩ := scan_letters lim opened m h [] a
  have hv : (nameEnd m₁ (cs.reverse ++ [])).1 = nameValue m.table.id (String.ofList cs) := by
    rw [nameEnd_fst, ht, List.append_nil, List.reverse_reverse]
  refine ⟨(nameEnd m₁ (cs.reverse ++ [])).2, by rw [table_nameEnd, hv, ht], ?_⟩
  cases cs with
  | nil => exact absurd rfl hne
  | cons c cs =>
    rw [List.cons_append, scan_gap_letter lim opened m (h c (List.mem_cons_self ..))]
    rw [← hv, ← scan_nameEnd lim opened m₁ ha]
    exact he

/-! ## integers -/

theorem le_ofDigitChars (cs : List Char) (n : Nat) : n ≤ Nat.ofDigitChars 10 cs n := by
  induction cs generalizing n with
  | nil => exact Nat.le_of_eq Nat.ofDigitChars_nil.symm
  | cons c cs ih =>
    rw [Nat.ofDigitChars_cons]
    exact Nat.le_trans (by omega) (ih _)

theorem fits_of_le {bits n k : Nat} (h : n ≤ k) (hk : Integer.fits bits k = true) :
    Integer.fits bits n = true := by
  rw [Integer.fits_iff] at hk ⊢
  exact Int.le_trans (Int.ofNat_le.2 h) hk

theorem digitStep_fits {n : Nat} {c : Char}
    (h : Integer.fits lim.width (10 * n + (c.toNat - '0'.toNat)) = true) :
    digitStep lim opened n m c
      = .more ⟨opened, .number (10 * n + (c.toNat - '0'.toNat))⟩ (m.taking c) := by
  rw [Nat.mul_comm] at h ⊢
  exact if_pos h

theorem digitStep_spoilt {n : Nat} {c : Char}
    (h : ¬ Integer.fits lim.width (10 * n + (c.toNat - '0'.toNat)) = true) :
    digitStep lim opened n m c = .spoilt (.placed .integerRange (m.taking c).place)
      (m.taking c) := by
  rw [Nat.mul_comm] at h
  exact if_neg h

theorem scan_numerals {cs : List Char} (h : ∀ c ∈ cs, IsNumeral c) {n : Nat}
    (hf : Integer.fits lim.width (Nat.ofDigitChars 10 cs n) = true) (a : List Char) :
    ∃ m', m'.table = m.table ∧
      scan lim ⟨opened, .number n⟩ m (cs ++ a)
        = scan lim ⟨opened, .number (Nat.ofDigitChars 10 cs n)⟩ m' a := by
  induction cs generalizing m n with
  | nil => exact ⟨m, rfl, by rw [Nat.ofDigitChars_nil]; rfl⟩
  | cons c cs ih =>
    rw [Nat.ofDigitChars_cons] at hf
    have hs : step lim ⟨opened, .number n⟩ m c
        = .more ⟨opened, .number (10 * n + (c.toNat - '0'.toNat))⟩ (m.taking c) := by
      rw [← digitStep_fits lim opened m (fits_of_le (le_ofDigitChars cs _) hf)]
      simp [step, (isDigit_iff c).2 (h c (List.mem_cons_self ..))]
    obtain ⟨m', ht, he⟩ := ih (m.taking c) (fun d hd => h d (List.mem_cons_of_mem _ hd)) hf
    exact ⟨m', ht, by rw [List.cons_append, scan_cons_of_more hs, he, Nat.ofDigitChars_cons]⟩

/-- where no digit follows, an integer has ended -/
theorem scan_numberEnd {a : List Char} (h : Stops IsNumeral a) (n : Nat) :
    scan lim ⟨opened, .number n⟩ m a = resume lim opened (.int n) (m.counted n) a := by
  cases a with
  | nil => cases opened <;> rfl
  | cons c a =>
    have hc : c.isDigit = false := by rw [← Bool.not_eq_true, isDigit_iff]; exact h
    have hs : step lim ⟨opened, .number n⟩ m c = itemStep lim opened (.int n) (m.counted n) c := by
      simp [step, numberEnd, hc]
    rw [scan, hs]
    cases opened <;> rfl

theorem scan_gap_numeral {c : Char} (h : IsNumeral c) (a : List Char) :
    scan lim ⟨opened, .gap⟩ m (c :: a) = scan lim ⟨opened, .number 0⟩ m (c :: a) := by
  have hs : step lim ⟨opened, .gap⟩ m c = step lim ⟨opened, .number 0⟩ m c := by
    simp [step, gapStep_numeral lim opened m h, (isDigit_iff c).2 h]
  rw [scan, hs, scan]

/-- a run of digits that no digit follows is read as an integer, if that fits the width -/
theorem scan_integer {cs a : List Char} (hne : cs ≠ []) (h : ∀ c ∈ cs, IsNumeral c)
    (ha : Stops IsNumeral a) (hf : Integer.fits lim.width (decimal cs) = true) :
    ∃ m', m'.table = m.table ∧
      scan lim ⟨opened, .gap⟩ m (cs ++ a) = resume lim opened (.int (decimal cs)) m' a := by
  obtain ⟨m', ht, he⟩ := scan_numerals lim opened m h hf a
  refine ⟨m'.counted (decimal cs), ht, ?_⟩
  cases cs with
  | nil => exact absurd rfl hne
  | cons c cs =>
    rw [List.cons_append, scan_gap_numeral lim opened m (h c (List.mem_cons_self ..))]
    exact he.trans (scan_numberEnd lim opened m' ha _)

/-! ## strings -/

theorem scan_quoteEnd (taken a : List Char) :
    scan lim ⟨opened, .text taken⟩ m ('"' :: a)
      = resume lim opened (.str (String.ofList taken.reverse)) (m.taking '"') a := by
  cases opened <;> rfl

theorem scan_quoted {a s b : List Char} (h : Quoted a s b) (taken : List Char) :
    ∃ m', m'.table = m.table ∧
      scan lim ⟨opened, .text taken⟩ m a
        = resume lim opened (.str (String.ofList (taken.reverse ++ s))) m' b := by
  induction h generalizing m taken with
  | close a =>
    refine ⟨m.taking '"', rfl, ?_⟩
    rw [scan_quoteEnd, List.append_nil]
  | @plain c a s b hq hb _ ih =>
    have hs : step lim ⟨opened, .text taken⟩ m c
        = .more ⟨opened, .text (c :: taken)⟩ (m.taking c) := by
      simp [step, hq, hb]
    obtain ⟨m', ht, he⟩ := ih (m.taking c) (c :: taken)
    refine ⟨m', ht, ?_⟩
    rw [scan_cons_of_more hs, he, List.reverse_cons, List.append_assoc]
    rfl
  | @escape e c a s b hc _ ih =>
    have h₁ : step lim ⟨opened, .text taken⟩ m '\\'
        = .more ⟨opened, .escape taken⟩ (m.taking '\\') := rfl
    have h₂ : step lim ⟨opened, .escape taken⟩ (m.taking '\\') e
        = .more ⟨opened, .text (c :: taken)⟩ ((m.taking '\\').taking e) := by
      simp [step, (escapeMeaning?_eq_some_iff e c).2 hc]
    obtain ⟨m', ht, he⟩ := ih ((m.taking '\\').taking e) (c :: taken)
    refine ⟨m', ht, ?_⟩
    rw [scan_cons_of_more h₁, scan_cons_of_more h₂, he, List.reverse_cons, List.append_assoc]
    rfl

end

end Lisplet
