import Lisplet.Proofs.Scanning

/-!
# The automaton reads what the grammar derives

* `scan_sexp`, `scan_items`      what the grammar derives is read, with the value of the derivation,
  as long as no more lists are open at once than the reader admits;
* `scan_sexp_tooDeep`, `scan_items_tooDeep`
                                 where more are open, the reader says so and nothing else;
* `sexp_of_scan`, `items_of_scan`
                                 what the automaton reads has a derivation.

The first two go along the derivation, the last two along the text.  A list that is open on the
stack of the automaton has been entered and not left, so what is known of it is that the rest of the
text closes it: `items_of_scan` is about the rest of the innermost open list, whatever is open
around it.
-/

namespace Lisplet

open Grammar

theorem SymbolTable.id_internAll (t : SymbolTable) (as : List String) :
    (t.internAll as).id = t.id := by
  induction as generalizing t with
  | nil => rfl
  | cons a as ih => rw [internAll_cons, ih, id_intern]

theorem Grammar.nesting_nameValue (table : Nat) (name : String) :
    (nameValue table name).nesting = 0 := by
  unfold nameValue
  repeat' split
  all_goals simp only [Value.nesting]

/-! ## from derivations to runs -/

section
variable {lim : Limits} {table : Nat}

mutual
theorem scan_sexp {a b : List Char} {v : Value} (opened : List (List Value)) (m : Marks)
    (hm : m.table.id = table) :
    Sexp lim.width table a v b → opened.length + v.nesting ≤ lim.depth →
      ∃ m', m'.table = m.table.internAll v.names ∧
        scan lim ⟨opened, .gap⟩ m a = resume lim opened v m' b
  | .list hg hi, hd => by
    rw [Value.nesting_list] at hd
    obtain ⟨m₁, ht₁, he₁⟩ := scan_gap lim ([] :: opened) (m.taking '(') hg
    obtain ⟨m₂, ht₂, he₂⟩ := scan_items [] opened m₁ (by rw [ht₁]; exact hm) hi (by omega)
    refine ⟨m₂.taking ')', ?_, ?_⟩
    · rw [Value.names_list]
      exact ht₂.trans (by rw [ht₁]; rfl)
    · rw [scan_open lim opened m (by omega), he₁, he₂, scan_close, List.append_nil,
        List.reverse_reverse]
  | .string hq, _ => by
    obtain ⟨m', ht, he⟩ := scan_quoted lim opened (m.taking '"') hq []
    exact ⟨m', ht, he⟩
  | .name hne hc ha, _ => by
    subst hm
    exact scan_name lim opened m hne hc ha
  | .integer hne hc ha hf, _ => scan_integer lim opened m hne hc ha ((Integer.fits_iff _ _).2 hf)

theorem scan_items {a b : List Char} {vs : List Value} (items : List Value)
    (outer : List (List Value)) (m : Marks) (hm : m.table.id = table) :
    Items lim.width table a vs b → outer.length + 1 + Value.nestingOf vs ≤ lim.depth →
      ∃ m', m'.table = m.table.internAll (Value.namesOf vs) ∧
        scan lim ⟨items :: outer, .gap⟩ m a = scan lim ⟨(vs.reverse ++ items) :: outer, .gap⟩ m' b
  | .nil _, _ => ⟨m, by rw [Value.namesOf_nil]; rfl, rfl⟩
  | .cons (v := v) hs hg hi, hd => by
    rw [Value.nestingOf_cons] at hd
    obtain ⟨m₁, ht₁, he₁⟩ := scan_sexp (items :: outer) m hm hs (by rw [List.length_cons]; omega)
    obtain ⟨m₂, ht₂, he₂⟩ := scan_gap lim ((v :: items) :: outer) m₁ hg
    have hm₂ : m₂.table.id = table := by rw [ht₂, ht₁, SymbolTable.id_internAll, hm]
    obtain ⟨m₃, ht₃, he₃⟩ := scan_items (v :: items) outer m₂ hm₂ hi (by omega)
    refine ⟨m₃, ?_, ?_⟩
    · rw [ht₃, ht₂, ht₁, Value.namesOf_cons, SymbolTable.internAll_append]
    · rw [he₁, resume, he₂, he₃, List.reverse_cons, List.append_assoc]
      rfl
end

mutual
theorem scan_sexp_tooDeep {a b : List Char} {v : Value} (opened : List (List Value)) (m : Marks)
    (hm : m.table.id = table) (ho : opened.length ≤ lim.depth) :
    Sexp lim.width table a v b → lim.depth < opened.length + v.nesting →
      ∃ p r, scan lim ⟨opened, .gap⟩ m a = .error (.tooDeep p) r
  | .list hg hi, hd => by
    rw [Value.nesting_list] at hd
    by_cases h : opened.length < lim.depth
    · obtain ⟨m₁, ht₁, he₁⟩ := scan_gap lim ([] :: opened) (m.taking '(') hg
      obtain ⟨p, r, he₂⟩ := scan_items_tooDeep [] opened m₁ (by rw [ht₁]; exact hm) h hi (by omega)
      exact ⟨p, r, by rw [scan_open lim opened m h, he₁, he₂]⟩
    · exact ⟨_, _, scan_open_refused lim opened m h _⟩
  | .string _, hd => by simp only [Value.nesting] at hd; omega
  | .name _ _ _, hd => by rw [nesting_nameValue] at hd; omega
  | .integer _ _ _ _, hd => by simp only [Value.nesting] at hd; omega

theorem scan_items_tooDeep {a b : List Char} {vs : List Value} (items : List Value)
    (outer : List (List Value)) (m : Marks) (hm : m.table.id = table)
    (ho : outer.length < lim.depth) :
    Items lim.width table a vs b → lim.depth < outer.length + 1 + Value.nestingOf vs →
      ∃ p r, scan lim ⟨items :: outer, .gap⟩ m a = .error (.tooDeep p) r
  | .nil _, hd => by rw [Value.nestingOf_nil] at hd; omega
  | .cons (v := v) hs hg hi, hd => by
    rw [Value.nestingOf_cons] at hd
    by_cases h : outer.length + 1 + v.nesting ≤ lim.depth
    · obtain ⟨m₁, ht₁, he₁⟩ := scan_sexp (items :: outer) m hm hs h
      obtain ⟨m₂, ht₂, he₂⟩ := scan_gap lim ((v :: items) :: outer) m₁ hg
      have hm₂ : m₂.table.id = table := by rw [ht₂, ht₁, SymbolTable.id_internAll, hm]
      obtain ⟨p, r, he₃⟩ := scan_items_tooDeep (v :: items) outer m₂ hm₂ ho hi (by omega)
      exact ⟨p, r, by rw [he₁, resume, he₂, he₃]⟩
    · exact scan_sexp_tooDeep (items :: outer) m hm ho hs (by rw [List.length_cons]; omega)
end

end

/-! ## from runs to derivations -/

section
variable {lim : Limits} {opened : List (List Value)} {m : Marks} {v : Value} {r : Outlook}

/-- a comment ends before a line feed or with the text -/
theorem comment_of_scan (lim : Limits) (opened : List (List Value)) (m : Marks) (text : List Char) :
    ∃ body a m', text = body ++ a ∧ (∀ c ∈ body, c ≠ '\n') ∧ Stops (fun c => c ≠ '\n') a ∧
      m'.table = m.table ∧
      scan lim ⟨opened, .comment⟩ m text = scan lim ⟨opened, .gap⟩ m' a := by
  obtain ⟨body, a, he, hb, ha⟩ := exists_run (fun c => c ≠ '\n') text
  obtain ⟨m', ht, hs⟩ := scan_comment lim opened m hb ha
  exact ⟨body, a, m', he, hb, ha, ht, he ▸ hs⟩

theorem quoted_of_scan {taken text : List Char}
    (h : scan lim ⟨opened, .text taken⟩ m text = .ok v r) : ∃ s b, Quoted text s b := by
  -- an escape takes two characters, so the induction is on the length
  induction hn : text.length using Nat.strongRecOn generalizing taken m text with
  | ind n ih =>
    cases text with
    | nil => exact absurd h (by simp [scan, atEnd])
    | cons c text =>
      by_cases hq : c = '"'
      · exact ⟨[], text, hq ▸ .close text⟩
      · by_cases hb : c = '\\'
        · subst hb
          have hs : step lim ⟨opened, .text taken⟩ m '\\'
              = .more ⟨opened, .escape taken⟩ (m.taking '\\') :=
            rfl
          rw [scan_cons_of_more hs] at h
          cases text with
          | nil => exact absurd h (by simp [scan, atEnd])
          | cons e text =>
            cases hm : Text.escapeMeaning? e with
            | none => exact absurd h (by simp [scan, step, hm])
            | some d =>
              have hs : step lim ⟨opened, .escape taken⟩ (m.taking '\\') e
                  = .more ⟨opened, .text (d :: taken)⟩ ((m.taking '\\').taking e) := by
                simp [step, hm]
              rw [scan_cons_of_more hs] at h
              obtain ⟨s, b, hqd⟩ := ih text.length (by
                rw [← hn, List.length_cons, List.length_cons]
                omega) h rfl
              exact ⟨d :: s, b, .escape ((escapeMeaning?_eq_some_iff e d).1 hm) hqd⟩
        · have hs : step lim ⟨opened, .text taken⟩ m c
              = .more ⟨opened, .text (c :: taken)⟩ (m.taking c) := by
            simp [step, hq, hb]
          rw [scan_cons_of_more hs] at h
          obtain ⟨s, b, hqd⟩ := ih text.length (by rw [← hn]; simp) h rfl
          exact ⟨c :: s, b, .plain hq hb hqd⟩

theorem fits_of_scan {cs a : List Char} (hc : ∀ c ∈ cs, IsNumeral c) {n : Nat}
    (hn : Integer.fits lim.width n = true)
    (h : scan lim ⟨opened, .number n⟩ m (cs ++ a) = .ok v r) :
    Integer.fits lim.width (Nat.ofDigitChars 10 cs n) = true := by
  induction cs generalizing m n with
  | nil => rw [Nat.ofDigitChars_nil]; exact hn
  | cons c cs ih =>
    have hd : step lim ⟨opened, .number n⟩ m c = digitStep lim opened n m c := by
      simp [step, (isDigit_iff c).2 (hc c (List.mem_cons_self ..))]
    rw [Nat.ofDigitChars_cons]
    by_cases hf : Integer.fits lim.width (10 * n + (c.toNat - '0'.toNat)) = true
    · rw [List.cons_append, scan_cons_of_more (hd.trans (digitStep_fits lim opened m hf))] at h
      exact ih (fun d hd => hc d (List.mem_cons_of_mem _ hd)) hf h
    · rw [List.cons_append, scan, hd, digitStep_spoilt lim opened m hf] at h
      cases h

/-- the rest of the innermost open list has a derivation, and then the list is an expression like
any other; this is what the automaton does with a text that it reads -/
def ReadsItems (lim : Limits) (text : List Char) : Prop :=
  ∀ (items : List Value) (outer : List (List Value)) (m : Marks) (v : Value) (r : Outlook),
    scan lim ⟨items :: outer, .gap⟩ m text = .ok v r →
      ∃ a vs b m', Gap text a ∧ Items lim.width m.table.id a vs (')' :: b) ∧
        m'.table.id = m.table.id ∧
        scan lim ⟨items :: outer, .gap⟩ m text = resume lim outer (.list (items.reverse ++ vs)) m' b

/-- what is read from a character that opens no gap and closes no list is an expression -/
theorem exists_sexp_of_scan {c : Char} {text : List Char} (hi : ReadsItems lim text)
    (hg : ¬ OpensGap c) (hc : c ≠ ')') (h : scan lim ⟨opened, .gap⟩ m (c :: text) = .ok v r) :
    ∃ w b m', Sexp lim.width m.table.id (c :: text) w b ∧ m'.table.id = m.table.id ∧
      scan lim ⟨opened, .gap⟩ m (c :: text) = resume lim opened w m' b := by
  have hd := Nat.lt_or_ge opened.length lim.depth
  by_cases ho : c = '('
  · subst ho
    rcases hd with hd | hd
    · rw [scan_open lim opened m hd] at h ⊢
      obtain ⟨a, vs, b, m', ha, hv, ht, he⟩ := hi [] opened _ v r h
      exact ⟨.list vs, b, m', .list ha hv, ht, he⟩
    · rw [scan_open_refused lim opened m (by omega)] at h
      cases h
  by_cases hq : c = '"'
  · subst hq
    have hs : scan lim ⟨opened, .gap⟩ m ('"' :: text)
        = scan lim ⟨opened, .text []⟩ (m.taking '"') text := rfl
    rw [hs] at h
    obtain ⟨s, b, hqd⟩ := quoted_of_scan h
    obtain ⟨m', ht, he⟩ := scan_quoted lim opened (m.taking '"') hqd []
    exact ⟨_, b, m', .string hqd, by rw [ht]; rfl, hs.trans he⟩
  by_cases hl : IsLetter c
  · obtain ⟨cs, b, he, hne, hcs, hb⟩ := exists_run_of_start hl text
    obtain ⟨m', ht, hs⟩ := scan_name lim opened m hne hcs hb
    rw [he]
    exact ⟨_, b, m', .name hne hcs hb, by rw [ht, SymbolTable.id_internAll], hs⟩
  by_cases hn : IsNumeral c
  · obtain ⟨cs, b, he, hne, hcs, hb⟩ := exists_run_of_start hn text
    have hf : Integer.fits lim.width (decimal cs) = true := by
      rw [scan_gap_numeral lim opened m hn, he] at h
      exact fits_of_scan hcs rfl h
    obtain ⟨m', ht, hs⟩ := scan_integer lim opened m hne hcs hb hf
    rw [he]
    exact ⟨_, b, m', .integer hne hcs hb ((Integer.fits_iff _ _).1 hf), by rw [ht], hs⟩
  have hs : step lim ⟨opened, .gap⟩ m c = _ := gapStep_other lim opened m hg hc ho hq hl hn
  rw [scan, hs] at h
  cases h

theorem items_of_scan (text : List Char) : ReadsItems lim text := by
  induction hn : text.length using Nat.strongRecOn generalizing text with
  | ind n ih =>
    intro items outer m v r h
    cases text with
    | nil => exact absurd h (by simp [scan, atEnd])
    | cons c text =>
      have hlen : text.length < n := by rw [← hn]; exact Nat.lt_succ_self _
      by_cases hb : IsBlank c
      · have hs : step lim ⟨items :: outer, .gap⟩ m c
            = .more ⟨items :: outer, .gap⟩ (m.taking c) := by
          simp [step, gapStep, (isGap_iff c).2 hb]
        rw [scan_cons_of_more hs] at h ⊢
        obtain ⟨a, vs, b, m', ha, hv, ht, he⟩ := ih _ hlen text rfl items outer _ v r h
        exact ⟨a, vs, b, m', .blank hb ha, hv, ht, he⟩
      by_cases hs : c = ';'
      · subst hs
        have hs : step lim ⟨items :: outer, .gap⟩ m ';'
            = .more ⟨items :: outer, .comment⟩ (m.taking ';') := by
          simp [step, gapStep, isGap]
        obtain ⟨body, a, m₁, hc, hbody, ha, ht₁, he₁⟩ :=
          comment_of_scan lim (items :: outer) (m.taking ';') text
        rw [scan_cons_of_more hs, he₁] at h ⊢
        have hla : a.length < n := by
          rw [hc, List.length_append] at hlen
          omega
        obtain ⟨a', vs, b, m', ha', hv, ht, he⟩ := ih _ hla a rfl items outer m₁ v r h
        refine ⟨a', vs, b, m', hc ▸ .comment hbody ha ha', ?_, ht.trans (by rw [ht₁]; rfl), he⟩
        rw [ht₁] at hv
        exact hv
      by_cases hc : c = ')'
      · subst hc
        refine ⟨')' :: text, [], text, m.taking ')', .none _, .nil _, rfl, ?_⟩
        rw [scan_close, List.append_nil]
      · have hg : ¬ OpensGap c := by rintro (hg | hg) <;> contradiction
        obtain ⟨w, b, m₁, hw, ht₁, he₁⟩ := exists_sexp_of_scan (ih _ hlen text rfl) hg hc h
        have hlb : b.length < n := by rw [← hn]; exact hw.length_lt
        rw [he₁] at h ⊢
        obtain ⟨a, vs, b', m', ha, hv, ht, he⟩ := ih _ hlb b rfl (w :: items) outer m₁ v r h
        refine ⟨c :: text, w :: vs, b', m', .none _, .cons hw ha (ht₁ ▸ hv), ht.trans ht₁, ?_⟩
        rw [resume, he, List.reverse_cons, List.append_assoc]
        rfl

/-- what the automaton reads where no list is open is an expression -/
theorem sexp_of_scan {text : List Char} (hne : text ≠ []) (hs : Stops OpensGap text)
    (h : scan lim ⟨[], .gap⟩ m text = .ok v r) : Sexp lim.width m.table.id text v r.rest := by
  cases text with
  | nil => exact absurd rfl hne
  | cons c text =>
    have hc : c ≠ ')' := by
      rintro rfl
      cases h
    obtain ⟨w, b, m', hw, _, he⟩ := exists_sexp_of_scan (items_of_scan text) hs hc h
    cases h.symm.trans he
    exact hw

end

end Lisplet
