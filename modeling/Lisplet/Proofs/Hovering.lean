import Mathlib
import Lisplet.Proofs.Cursor
import Lisplet.Proofs.Entries
import Lisplet.Proofs.Viability

/-!
# Hovering over a definition

The index tells the place of a name by the line feeds before it, and the word at a place is looked
for in the rows of the text.  A carriage return that no line feed follows ends a row and no line, so
each of them before a name moves it one row away from its line.  Apart from that the two agree.

* `Plain`, `plain_of_isUnit`   the characters of a text without strings and comments;
* `touches_of_stops`           a whole word of a row touches the cursors in it and beside it;
* `exists_cut`                 rows and lines before a place, by induction on the text before it;
* `standsIn_of_letPlace`       where the name of a definition stands;
* `wordAt_of_standsIn`         the word that is found there.
-/

namespace Lisplet

open Grammar
open Text (isBlank isAlphabetic isRowEnd rows rowsFrom Place position sinceBreak)
open Editor (Definition Index Store Workspace wordAt LetterAt Touches LetHead LetPlace)

/-! ## characters -/

/-- what a text without strings and comments consists of -/
def Plain (c : Char) : Prop := IsBlank c ∨ c = '(' ∨ c = ')' ∨ IsLetter c ∨ IsNumeral c

section
variable {width table : Nat} {a b : List Char} {v : Value} {vs : List Value}

theorem plain_gap (h : Gap a b) (ha : Bare a) {c : Char} (hc : c ∈ a) : Plain c ∨ c ∈ b := by
  obtain ⟨g, rfl, hg⟩ := h.exists_blanks ha
  exact (List.mem_append.1 hc).imp_left fun hm => .inl (hg c hm)

mutual
theorem plain_sexp {width table : Nat} {a b : List Char} {v : Value} {c : Char} :
    Sexp width table a v b → Bare a → c ∈ a → Plain c ∨ c ∈ b
  | @Sexp.list _ _ a d _ items hg hi, ha, hc => by
    have ha' := ha.suffix (List.suffix_cons '(' a)
    rcases List.mem_cons.1 hc with rfl | hc
    · exact .inl (.inr (.inl rfl))
    rcases plain_gap hg ha' hc with hp | hc
    · exact .inl hp
    rcases plain_items hi (ha'.suffix hg.suffix) hc with hp | hc
    · exact .inl hp
    rcases List.mem_cons.1 hc with rfl | hc
    · exact .inl (.inr (.inr (.inl rfl)))
    · exact .inr hc
  | .string _, ha, _ => absurd (List.mem_cons_self ..) ha.1
  | .name _ hl _, _, hc =>
    (List.mem_append.1 hc).imp_left fun hm => .inr (.inr (.inr (.inl (hl _ hm))))
  | .integer _ hn _ _, _, hc =>
    (List.mem_append.1 hc).imp_left fun hm => .inr (.inr (.inr (.inr (hn _ hm))))

theorem plain_items {width table : Nat} {a b : List Char} {vs : List Value} {c : Char} :
    Items width table a vs b → Bare a → c ∈ a → Plain c ∨ c ∈ b
  | .nil _, _, hc => .inr hc
  | .cons hs hg hi, ha, hc => by
    have hb := ha.suffix (spans_sexp hs ha).suffix
    rcases plain_sexp hs ha hc with hp | hc
    · exact .inl hp
    rcases plain_gap hg hb hc with hp | hc
    · exact .inl hp
    · exact plain_items hi (hb.suffix hg.suffix) hc
end

theorem plain_of_isUnit {text : List Char} (h : IsUnit width table text vs) (ht : Bare text)
    {c : Char} (hc : c ∈ text) : Plain c := by
  obtain ⟨a, b, r, hg, hg', hi, he⟩ := h
  have hs : Sexp width table ('(' :: a) (.list vs) r := .list hg' hi
  have ha := ht.suffix hg.suffix
  rcases plain_gap hg ht hc with hp | hc
  · exact hp
  rcases plain_sexp hs ha hc with hp | hc
  · exact hp
  rcases plain_gap he (ha.suffix (spans_sexp hs ha).suffix) hc with hp | hc
  · exact hp
  · exact absurd hc List.not_mem_nil

end

/-- of the first characters, letters are alphabetic and no others -/
theorem isAlphabetic_of_lt {c : Char} (h : c.toNat < 0xAA) :
    isAlphabetic c = true ↔ (0x41 ≤ c.toNat ∧ c.toNat ≤ 0x5A) ∨
      (0x61 ≤ c.toNat ∧ c.toNat ≤ 0x7A) := by
  have hlater : ∀ r ∈ Text.alphabeticRanges.drop 2, 0xAA ≤ r.1 := by decide +kernel
  have hnone : Text.inRanges (Text.alphabeticRanges.drop 2) c = false := by
    rw [Text.inRanges, List.any_eq_false]
    intro r hr
    have hle := hlater r hr
    simp only [Bool.and_eq_true, decide_eq_true_eq]
    omega
  show Text.inRanges ((0x41, 0x5A) :: (0x61, 0x7A) :: Text.alphabeticRanges.drop 2) c = true ↔ _
  rw [Text.inRanges_cons, Text.inRanges_cons, hnone]
  simp

theorem Grammar.IsLetter.alphabetic {c : Char} (h : IsLetter c) : isAlphabetic c = true := by
  have hl : 0x61 ≤ c.toNat := h.1
  have hu : c.toNat ≤ 0x7A := h.2
  exact (isAlphabetic_of_lt (by omega)).2 (.inr ⟨hl, hu⟩)

/-- in a plain text only letters are alphabetic -/
theorem Plain.not_alphabetic {c : Char} (h : Plain c) (hl : ¬ IsLetter c) :
    ¬ isAlphabetic c = true := by
  rcases h with hb | rfl | rfl | hc | hn
  · rcases hb with rfl | rfl | rfl | rfl <;> decide +kernel
  · decide +kernel
  · decide +kernel
  · exact absurd hc hl
  · have h₁ : 0x30 ≤ c.toNat := hn.1
    have h₂ : c.toNat ≤ 0x39 := hn.2
    rw [isAlphabetic_of_lt (by omega)]
    omega

theorem isRowEnd_eq_false {c : Char} (h : '(' ≤ c ∧ c ≤ 'z') : isRowEnd c = false := by
  have hl : 0x28 ≤ c.toNat := h.1
  have hu : c.toNat ≤ 0x7A := h.2
  rw [Bool.eq_false_iff]
  intro he
  simp only [isRowEnd, Bool.or_eq_true, decide_eq_true_eq] at he
  rcases he with ((((((((rfl | rfl) | rfl) | rfl) | rfl) | rfl) | rfl) | rfl) | rfl) | rfl
  all_goals revert hl hu; decide

theorem Grammar.IsLetter.not_rowEnd {c : Char} (h : IsLetter c) : isRowEnd c = false :=
  isRowEnd_eq_false ⟨Char.le_trans (by decide) h.1, h.2⟩

/-- in a plain text only line feeds and carriage returns end a row -/
theorem Plain.rowEnd {c : Char} (h : Plain c) (hc : isRowEnd c = true) : c = '\n' ∨ c = '\r' := by
  rcases h with hb | rfl | rfl | hl | hn
  · rcases hb with rfl | rfl | rfl | rfl
    · exact absurd hc (by decide)
    · exact absurd hc (by decide)
    · exact .inr rfl
    · exact .inl rfl
  · exact absurd hc (by decide)
  · exact absurd hc (by decide)
  · rw [hl.not_rowEnd] at hc
    cases hc
  · rw [isRowEnd_eq_false ⟨Char.le_trans (by decide) hn.1, Char.le_trans hn.2 (by decide)⟩] at hc
    cases hc

/-! ## the word at a cursor -/

section
variable {left name right : List Char}

theorem not_letterAt_before (h : Stops (isAlphabetic · = true) left.reverse)
    (hlt : 0 < left.length) :
    ¬ LetterAt (left ++ right) (left.length - 1) := by
  rintro ⟨c, hc, ha⟩
  rw [List.getElem?_append_left (Nat.sub_one_lt_of_lt hlt), ← List.getLast?_eq_getElem?,
    ← List.head?_reverse] at hc
  obtain ⟨rest, hrest⟩ := List.head?_eq_some_iff.1 hc
  rw [hrest] at h
  exact h ha

theorem not_letterAt_after (left : List Char) (h : Stops (isAlphabetic · = true) right) :
    ¬ LetterAt (left ++ right) left.length := by
  rintro ⟨c, hc, ha⟩
  rw [List.getElem?_append_right (Nat.le_refl _), Nat.sub_self, ← List.head?_eq_getElem?] at hc
  obtain ⟨rest, rfl⟩ := List.head?_eq_some_iff.1 hc
  exact h ha

theorem isRun_of_letters (hne : name ≠ []) (hn : ∀ c ∈ name, isAlphabetic c = true) :
    Editor.IsRun (left ++ (name ++ right)) left.length (left.length + name.length) := by
  refine ⟨Nat.lt_add_of_pos_right (List.length_pos_of_ne_nil hne), ?_⟩
  intro i hi hie
  obtain ⟨j, rfl⟩ := Nat.exists_eq_add_of_le hi
  have hj : j < name.length := Nat.lt_of_add_lt_add_left hie
  refine ⟨name[j], ?_, hn _ (List.getElem_mem hj)⟩
  rw [List.getElem?_append_right hi, Nat.add_sub_cancel_left, List.getElem?_append_left hj,
    List.getElem?_eq_getElem hj]

/-- a cursor in a word of a row, or at an end of it, touches that word -/
theorem touches_of_stops (hl : Stops (isAlphabetic · = true) left.reverse) (hne : name ≠ [])
    (hn : ∀ c ∈ name, isAlphabetic c = true) (hr : Stops (isAlphabetic · = true) right) {i : Nat}
    (hi : i ≤ name.length) :
    Touches (left ++ (name ++ right)) (left.length + i) left.length
      (left.length + name.length) := by
  have hafter := not_letterAt_after (left ++ name) hr
  rw [List.append_assoc, List.length_append] at hafter
  exact ⟨Editor.isWord_of_stops (isRun_of_letters hne hn) (not_letterAt_before hl) hafter,
    Nat.le_add_right _ _,
    Nat.add_le_add_left hi _⟩

theorem extract_name (left name right : List Char) :
    (left ++ (name ++ right)).extract left.length (left.length + name.length) = name := by
  rw [List.extract_eq_take_drop, List.drop_left, Nat.add_sub_cancel_left, List.take_left]

end

/-! ## rows and lines -/

def loneReturns : List Char → Nat
  | [] => 0
  -- both end one row, and the line feed ends a line
  | '\r' :: '\n' :: cs => loneReturns cs
  | c :: cs => (if c = '\r' then 1 else 0) + loneReturns cs

theorem rowsFrom_of_not_rowEnd {c : Char} (row cs : List Char) (h : isRowEnd c = false) :
    rowsFrom row (c :: cs) = rowsFrom (c :: row) cs := by
  rw [Text.rowsFrom_cons row, if_neg (by rw [h]; exact Bool.false_ne_true)]
  rintro rfl
  exact absurd h (by decide)

theorem rowsFrom_append {cs : List Char} (h : ∀ c ∈ cs, isRowEnd c = false) (row rest : List Char) :
    rowsFrom row (cs ++ rest) = rowsFrom (cs.reverse ++ row) rest := by
  induction cs generalizing row with
  | nil => rfl
  | cons c cs ih =>
    rw [List.cons_append, rowsFrom_of_not_rowEnd _ _ (h c (List.mem_cons_self ..)),
      ih fun d hd => h d (List.mem_cons_of_mem _ hd), List.reverse_cons, List.append_assoc]
    rfl

/-- the row that is being read goes on up to its end, or up to the end of the text -/
theorem exists_row {row : List Char} (hne : row ≠ []) (rest : List Char) :
    ∃ more others, rowsFrom row rest = (row.reverse ++ more) :: others ∧ more <+: rest := by
  fun_induction rowsFrom row rest with
  | case1 row h => exact absurd (List.isEmpty_iff.1 h) hne
  | case2 row h => exact ⟨[], [], by rw [List.append_nil], List.prefix_rfl⟩
  | case3 row cs ih => exact ⟨['\r', '\n'], rowsFrom [] cs, by simp, ⟨cs, rfl⟩⟩
  | case4 row c cs _ h ih => exact ⟨[c], rowsFrom [] cs, by simp, ⟨cs, rfl⟩⟩
  | case5 row c cs _ h ih =>
    obtain ⟨more, others, he, hp⟩ := ih (List.cons_ne_nil c row)
    refine ⟨c :: more, others, ?_, List.cons_prefix_cons.2 ⟨rfl, hp⟩⟩
    rw [he, List.reverse_cons, List.append_assoc]
    rfl

/-- How the text `before` a place is cut into rows, if `row` has been read before it: rows that are
`done`, and the `last` one, which goes on.  `p` is the place at which `before` starts. -/
structure Cut (p : Place) (row before : List Char) (done : List (List Char))
    (last : List Char) : Prop where
  rows : ∀ rest, rest.head? ≠ some '\n' → rowsFrom row (before ++ rest) = done ++ rowsFrom last rest
  suffix : last.reverse <:+ row.reverse ++ before
  line : p.line + done.length = (p.afterAll before).line + loneReturns before
  column : loneReturns before = 0 → p.column = row.length + 1 →
    (p.afterAll before).column = last.length + 1

/-- the text starts with the end of a row, and `k` of its carriage returns stand alone -/
theorem Cut.after_end {p : Place} {row ends before last : List Char} {done : List (List Char)}
    {k : Nat} (h : Cut (p.afterAll ends) [] before done last)
    (hrows : ∀ rest, rest.head? ≠ some '\n' →
      rowsFrom row (ends ++ (before ++ rest))
        = (row.reverse ++ ends) :: rowsFrom [] (before ++ rest))
    (hlone : loneReturns (ends ++ before) = k + loneReturns before)
    (hline : p.line + 1 = (p.afterAll ends).line + k)
    (hcolumn : k = 0 → (p.afterAll ends).column = 1) :
    Cut p row (ends ++ before) ((row.reverse ++ ends) :: done) last where
  rows := by
    intro rest hrest
    rw [List.append_assoc, hrows rest hrest, h.rows rest hrest]
    rfl
  suffix := by
    have hs : last.reverse <:+ before := h.suffix
    exact hs.trans ((List.suffix_append ends before).trans (List.suffix_append row.reverse _))
  line := by
    have hl := h.line
    rw [Place.afterAll_append, List.length_cons]
    omega
  column := by
    intro hzero _
    rw [Place.afterAll_append]
    exact h.column (by omega) (hcolumn (by omega))

theorem Cut.after_char {p : Place} {row before last : List Char} {c : Char}
    {done : List (List Char)} (h : Cut (p.after c) (c :: row) before done last)
    (hc : isRowEnd c = false) (hlone : loneReturns (c :: before) = loneReturns before) :
    Cut p row (c :: before) done last where
  rows := by
    intro rest hrest
    rw [List.cons_append, rowsFrom_of_not_rowEnd _ _ hc, h.rows rest hrest]
  suffix := by
    have hs := h.suffix
    rwa [List.reverse_cons, List.append_assoc] at hs
  line := by
    have hp : (p.after c).line = p.line := by
      rw [Place.after, if_neg (by rintro rfl; exact absurd hc (by decide))]
    rw [Place.afterAll_cons, hlone, ← h.line, hp]
  column := by
    intro hzero hcol
    have hp : (p.after c).column = p.column + 1 := by
      rw [Place.after, if_neg (by rintro rfl; exact absurd hc (by decide))]
    rw [Place.afterAll_cons]
    exact h.column (hlone ▸ hzero) (by rw [hp, hcol]; rfl)

/-- the induction is on the text, as its carriage returns are counted -/
theorem exists_cut {before : List Char} (h : ∀ c ∈ before, isRowEnd c = true → c = '\n' ∨ c = '\r')
    (p : Place) (row : List Char) : ∃ done last, Cut p row before done last := by
  fun_induction loneReturns before generalizing p row with
  | case1 =>
    refine ⟨[], row, fun _ _ => rfl, ?_, rfl, fun _ hc => hc⟩
    rw [List.append_nil]
  | case2 cs ih =>
    obtain ⟨done, last, hcut⟩ := ih (fun c hc => h c (by simp [hc])) (p.afterAll ['\r', '\n']) []
    refine ⟨_, last, hcut.after_end (k := 0) ?_ ?_ rfl fun _ => rfl⟩
    · intro rest _
      show rowsFrom row ('\r' :: '\n' :: (cs ++ rest)) = _
      rw [Text.rowsFrom_crlf, List.reverse_cons, List.reverse_cons, List.append_assoc]
      rfl
    · exact (Nat.zero_add _).symm
  | case3 c cs hcs ih =>
    have hrest : ∀ d ∈ cs, isRowEnd d = true → d = '\n' ∨ d = '\r' :=
      fun d hd => h d (List.mem_cons_of_mem _ hd)
    have hlone : loneReturns (c :: cs) = (if c = '\r' then 1 else 0) + loneReturns cs := by
      rw [loneReturns]
      exact hcs
    cases hc : isRowEnd c with
    | false =>
      obtain ⟨done, last, hcut⟩ := ih hrest (p.after c) (c :: row)
      refine ⟨done, last, hcut.after_char hc ?_⟩
      rw [hlone, if_neg (by rintro rfl; exact absurd hc (by decide)), Nat.zero_add]
    | true =>
      obtain ⟨done, last, hcut⟩ := ih hrest (p.afterAll [c]) []
      refine ⟨_, last, hcut.after_end ?_ hlone ?_ ?_⟩
      · intro rest hhead
        rw [List.singleton_append, Text.rowsFrom_cons row, if_pos hc, List.reverse_cons]
        rintro rfl hn
        -- a line feed could only come from `rest`
        cases cs with
        | nil => exact hhead hn
        | cons d ds =>
          injection hn with hn
          exact hcs ds rfl (by rw [hn])
      · rcases h c (List.mem_cons_self ..) hc with rfl | rfl <;> rfl
      · rcases h c (List.mem_cons_self ..) hc with rfl | rfl
        · exact fun _ => rfl
        · exact fun hone => absurd hone (by decide)

/-! ## the place of a name -/

/-- a whole word of a text: no letter stands before it or after it -/
structure StandsIn (text before name after : List Char) : Prop where
  eq : text = before ++ (name ++ after)
  ne_nil : name ≠ []
  letters : ∀ c ∈ name, IsLetter c
  left : Stops IsLetter before.reverse
  right : Stops IsLetter after

/-- a blank stands before the name of a definition -/
theorem stops_letHead {head : List Char} (h : LetHead head) (before : List Char) :
    Stops IsLetter (before ++ head).reverse := by
  obtain ⟨g, k, rfl, _, hblank, hne⟩ := h
  obtain ⟨c, r, hr⟩ := List.exists_cons_of_ne_nil (mt List.reverse_eq_nil_iff.1 hne)
  have hc : isBlank c = true := hblank c (List.mem_reverse.1 (hr ▸ List.mem_cons_self ..))
  rw [← List.cons_append, ← List.append_assoc, ← List.append_assoc, List.reverse_append, hr]
  intro hl
  rw [hl.not_blank] at hc
  cases hc

theorem standsIn_of_letPlace {text before head name rest : List Char}
    (h : LetPlace text before head name rest) : StandsIn text (before ++ head) name rest where
  eq := by rw [h.eq, List.append_assoc]
  ne_nil := h.ne_nil
  letters := h.letters
  left := stops_letHead h.head before
  right := h.stops

theorem Grammar.Stops.of_start {p : Char → Prop} {a b : List Char} (h : Stops p b) (hab : a <+: b) :
    Stops p a := by
  obtain ⟨r, rfl⟩ := hab
  cases a with
  | nil => trivial
  | cons c a => exact h

theorem stops_alphabetic {cs : List Char} (h : Stops IsLetter cs) (hp : ∀ c ∈ cs, Plain c) :
    Stops (isAlphabetic · = true) cs := by
  cases cs with
  | nil => trivial
  | cons c cs => exact (hp c (List.mem_cons_self ..)).not_alphabetic h

/-- a whole word of a plain text is found in the row that the text before it leaves open -/
theorem wordAt_of_standsIn {text : String} {before name after last : List Char}
    {done : List (List Char)} (hplain : ∀ c ∈ text.toList, Plain c)
    (h : StandsIn text.toList before name after) (hcut : Cut Place.start [] before done last)
    {i : Nat} (hi : i ≤ name.length) :
    wordAt text done.length (last.length + i) = .ok (some (String.ofList name)) := by
  obtain ⟨c, t, hstart, hc⟩ := exists_start h.ne_nil h.letters after
  have hhead : (name ++ after).head? ≠ some '\n' := by
    rw [hstart]
    rintro he
    injection he with he
    subst he
    exact absurd hc (by decide)
  have hopen : name.reverse ++ last ≠ [] := by simp [h.ne_nil]
  -- the row goes on after the name with `more`
  obtain ⟨more, others, hrow, hmore⟩ := exists_row hopen after
  have hrows : rows text.toList = done ++ (last.reverse ++ (name ++ more)) :: others := by
    rw [h.eq, rows, hcut.rows _ hhead,
      rowsFrom_append fun d hd => (h.letters d hd).not_rowEnd, hrow,
      List.reverse_append, List.reverse_reverse, List.append_assoc]
  have hbefore : ∀ c ∈ before.reverse, Plain c :=
    fun c hc => hplain c (by rw [h.eq]; exact List.mem_append_left _ (List.mem_reverse.1 hc))
  have hafter : ∀ c ∈ after, Plain c := fun c hc => hplain c (by rw [h.eq]; simp [hc])
  have hlast : last <+: before.reverse := by
    have hs : last.reverse <:+ before := hcut.suffix
    rwa [← List.reverse_prefix, List.reverse_reverse] at hs
  have htouches : Touches (last.reverse ++ (name ++ more)) (last.reverse.length + i)
      last.reverse.length
      (last.reverse.length + name.length) := by
    refine touches_of_stops ?_ h.ne_nil (fun c hc => (h.letters c hc).alphabetic) ?_ hi
    · rw [List.reverse_reverse]
      exact (stops_alphabetic h.left hbefore).of_start hlast
    · exact (stops_alphabetic h.right hafter).of_start hmore
  have hrow : (rows text.toList)[done.length]? = some (last.reverse ++ (name ++ more)) := by
    rw [hrows, List.getElem?_append_right (Nat.le_refl _), Nat.sub_self]
    rfl
  have hat := Editor.wordAt_of_touches hrow htouches
  rwa [extract_name, List.length_reverse] at hat

/-! ## hovering -/

theorem exists_hover {i : Index} {d : Definition} (h : d ∈ i.definitions) :
    ∃ shown, i.hover? d.name = some shown := by
  unfold Index.hover?
  cases Editor.signatures.lookup d.name with
  | some s => exact ⟨s, rfl⟩
  | none =>
    have hget : (i.get? d.name).isSome = true := List.find?_isSome.2 ⟨d, h, by simp⟩
    obtain ⟨e, he⟩ := Option.isSome_iff_exists.1 hget
    exact ⟨e.hover, by rw [he]; rfl⟩

/-- Hovering over a row from this column on finds a definition: at every place of its name, and on
both sides of it, the word is that name.  What is shown there is what the index has for it, in a
document that was opened with the text, if the store gives it back. -/
def FoundFrom (m : Machine) (text : String) (d : Definition) (line column : Nat) : Prop :=
  ∀ c, column ≤ c → c ≤ column + d.name.length → wordAt text line c = .ok (some d.name) ∧
    ∃ shown, (Index.ofText m text).hover? d.name = some shown ∧
      ∀ {σ : Type} (store : Store σ) (w : Workspace σ) (uri : String),
        store.source (store.hear w.documents (.opened uri text)) uri = text →
        (w.hear store m (.opened uri text)).1.hover store uri line c = .ok (some shown)

/-- the entry says that its name stands at this offset -/
def Editor.Definition.StandsAt (text : String) (d : Definition) (k : Nat) : Prop :=
  k ≤ text.toList.length ∧ position text.toList k = (d.line, d.column)

theorem Editor.Definition.StandsAt.unique {text : String} {d : Definition} {j k : Nat}
    (hj : d.StandsAt text j) (hk : d.StandsAt text k) : j = k := by
  refine Text.placeOf_inj hj.1 hk.1 ?_
  rw [Text.placeOf, Text.placeOf, hj.2, hk.2]

theorem standsIn_of_mem {m : Machine} {text : String} {d : Definition}
    (hd : d ∈ (Index.ofText m text).definitions) :
    ∃ before after, StandsIn text.toList before d.name.toList after ∧
      d.StandsAt text before.length := by
  obtain ⟨f, hf, rfl⟩ := Editor.mem_definitions hd
  obtain ⟨s, m, hs, hm, rfl⟩ := Editor.exists_match hf
  obtain ⟨before, head, rest, hplace, _, _, hfound⟩ := Editor.letPlace_of_match hs hm
  have hstands := standsIn_of_letPlace hplace
  refine ⟨before ++ head, rest, ?_, ?_, ?_⟩
  · show StandsIn text.toList _ (String.ofList m.name).toList rest
    rwa [String.toList_ofList]
  · rw [hstands.eq]
    exact (List.prefix_append _ _).length_le
  · rw [hfound]
    rfl

theorem foundFrom_of_word {m : Machine} {text : String} {d : Definition}
    (hd : d ∈ (Index.ofText m text).definitions) {line column : Nat}
    (h : ∀ i ≤ d.name.length, wordAt text line (column + i) = .ok (some d.name)) :
    FoundFrom m text d line column := by
  intro c hl hu
  obtain ⟨i, rfl⟩ := Nat.exists_eq_add_of_le hl
  have hword := h i (by omega)
  obtain ⟨shown, hshown⟩ := exists_hover hd
  refine ⟨hword, shown, hshown, ?_⟩
  intro σ store w uri hsource
  rw [Workspace.hover_opened hsource, hword]
  exact congrArg Except.ok hshown

/-- **Hovering over a definition finds it, if no carriage return stands alone before it.** For every
text without quotation marks and semicolons that is read as a unit, and every entry of its index:
its name stands at one offset, and each carriage return before it that no line feed follows moves it
one row down from where the entry says. -/
theorem hover_finds_definition (m : Machine) (text : String) (table : SymbolTable) (lim : Limits)
    (unit : List Value) (r : Reader)
    (hread : Reading.unit (Reader.ofText text table lim) = .ok unit r) (hquote : '"' ∉ text.toList)
    (hcomment : ';' ∉ text.toList) (d : Definition) (hd : d ∈ (Index.ofText m text).definitions) :
    (∃ k, d.StandsAt text k) ∧ ∀ k, d.StandsAt text k →
      (loneReturns (text.toList.take k) = 0 → FoundFrom m text d d.line d.column) ∧
      ∃ column, FoundFrom m text d (d.line + loneReturns (text.toList.take k)) column := by
  have hunit : IsUnit lim.width table.id text.toList unit :=
    (isUnit_iff _).2 (Reading.isExpression_of_expression ((Reading.unit_eq_ok_iff _ _ _).1 hread))
  have hplain : ∀ c ∈ text.toList, Plain c :=
    fun c hc => plain_of_isUnit hunit ⟨hquote, hcomment⟩ hc
  obtain ⟨before, after, hstands, hat⟩ := standsIn_of_mem hd
  refine ⟨⟨before.length, hat⟩, ?_⟩
  intro k hk
  obtain rfl := hat.unique hk
  have htake : text.toList.take before.length = before := by rw [hstands.eq, List.take_left]
  have hends : ∀ c ∈ before, isRowEnd c = true → c = '\n' ∨ c = '\r' := by
    intro c hc
    refine (hplain c ?_).rowEnd
    rw [hstands.eq]
    exact List.mem_append_left _ hc
  obtain ⟨done, last, hcut⟩ := exists_cut hends Place.start []
  have hfound : FoundFrom m text d done.length last.length := by
    refine foundFrom_of_word hd ?_
    intro i hi
    have hword := wordAt_of_standsIn hplain hstands hcut (i := i) (by rwa [String.length_toList])
    rwa [String.ofList_toList] at hword
  -- the place of the name, counted from one
  have hplace : Place.start.afterAll before = ⟨d.line + 1, d.column + 1⟩ := by
    have hp := Text.placeOf_eq hat.1
    rw [htake, Text.placeOf, hat.2] at hp
    exact hp.symm
  have hline : done.length = d.line + loneReturns before := by
    have hl := hcut.line
    rw [hplace] at hl
    have hl' : 1 + done.length = d.line + 1 + loneReturns before := hl
    omega
  rw [htake]
  constructor
  · intro hzero
    have hcolumn := hcut.column hzero rfl
    rw [hplace] at hcolumn
    rw [hzero, Nat.add_zero] at hline
    rw [hline, ← Nat.succ.inj hcolumn] at hfound
    exact hfound
  · exact ⟨last.length, hline ▸ hfound⟩

/-- two definitions: a carriage return with a line feed before the first, and one alone before the
second -/
def mixedEnds : String := "(\r\n(let sum 1)\r(let x 2))"

theorem exists_mixedUnit :
    ∃ unit r, Reading.unit (Reader.ofText mixedEnds (.empty 0) ⟨32, 9⟩) = .ok unit r := by
  have hstages : ∃ a, Progress.outcome ⟨32, 9⟩ .unit (.start (.empty 0)) mixedEnds.toList = .ok a :=
    ⟨_, rfl⟩
  obtain ⟨a, ha⟩ := hstages
  exact ⟨_, Progress.exists_unit_of_outcome ha⟩

def hoveringMachine : Machine := .newProcess 1000

/-- the first is found where its entry says, and the second one row further down -/
theorem hover_finds_mixed_ends :
    FoundFrom hoveringMachine mixedEnds ⟨"sum", 1, 5, none⟩ 1 5 ∧
      ∃ column, FoundFrom hoveringMachine mixedEnds ⟨"x", 1, 17, none⟩ 2 column := by
  obtain ⟨unit, r, hread⟩ := exists_mixedUnit
  have h := hover_finds_definition hoveringMachine mixedEnds (.empty 0) ⟨32, 9⟩ unit r hread
    (by decide) (by decide)
  have hsum := (h ⟨"sum", 1, 5, none⟩ (by decide)).2 8 ⟨by decide, by decide⟩
  have hx := (h ⟨"x", 1, 17, none⟩ (by decide)).2 20 ⟨by decide, by decide⟩
  exact ⟨hsum.1 (by decide), hx.2⟩

/-- where the entry of the second definition says that it stands, the cursor is past the end of a
row -/
theorem hover_fails_after_return :
    (∃ unit r, Reading.unit (Reader.ofText mixedEnds (.empty 0) ⟨32, 9⟩) = .ok unit r) ∧
      '"' ∉ mixedEnds.toList ∧ ';' ∉ mixedEnds.toList ∧
      ⟨"x", 1, 17, none⟩ ∈ (Index.ofText hoveringMachine mixedEnds).definitions ∧
      wordAt mixedEnds 1 17 = .error (.fault (.noCharacter 16)) ∧
      ∀ {σ : Type} (store : Store σ) (w : Workspace σ) (uri : String),
        store.source (store.hear w.documents (.opened uri mixedEnds)) uri = mixedEnds →
        (w.hear store hoveringMachine (.opened uri mixedEnds)).1.hover store uri 1 17
          = .error (.fault (.noCharacter 16)) := by
  have hword : wordAt mixedEnds 1 17 = .error (.fault (.noCharacter 16)) := by rfl
  refine ⟨exists_mixedUnit, by decide, by decide, by decide, hword, ?_⟩
  intro σ store w uri hsource
  rw [Workspace.hover_opened hsource, hword]
  rfl

end Lisplet
