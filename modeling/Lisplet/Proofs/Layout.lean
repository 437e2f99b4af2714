import Mathlib
import Lisplet.Proofs.Scanning
import Lisplet.Proofs.DefinitionScan

/-!
# The layout of bare texts

A text is bare if it has no strings and no comments.  Then every bracket in it belongs to a list,
and what stands between expressions is blank, so the text of a tree can be told from its brackets.

* `ListAt`, `ChildAt`      where lists and their items stand;
* `Spans.listed`           the opening brackets of an expression are those of its lists, outer ones
  first;
* `Spans.closed`           before the end of an expression, no bracket is closed that was not
  opened;
* `exists_childAt`         every item of a list stands somewhere.
-/

namespace Lisplet

open Text (isBlank)
open Editor (skipBlank NoBrackets)

namespace Value

mutual
/-- the lists of a value, outer ones first -/
def lists : Value → List (List Value)
  | .list items => items :: listsOf items
  | _ => []

def listsOf : List Value → List (List Value)
  | [] => []
  | v :: vs => lists v ++ listsOf vs
end

theorem lists_list (items : List Value) :
    (Value.list items).lists = items :: listsOf items := by rw [lists]

theorem listsOf_cons (v : Value) (vs : List Value) :
    listsOf (v :: vs) = v.lists ++ listsOf vs := by rw [listsOf]

end Value

namespace Grammar

theorem lists_nameValue (table : Nat) (name : String) : (nameValue table name).lists = [] := by
  unfold nameValue
  repeat' split
  all_goals rw [Value.lists]; nofun

/-! ## characters -/

/-- what is blank to the reader is blank in any text -/
theorem IsBlank.text_isBlank {c : Char} (h : IsBlank c) : Text.isBlank c = true := by
  rcases h with rfl | rfl | rfl | rfl <;> decide

theorem isBlank_eq_false {c : Char} (h : '0' ≤ c ∧ c ≤ 'z') : isBlank c = false := by
  have hl : 48 ≤ c.toNat := h.1
  have hu : c.toNat ≤ 122 := h.2
  rw [Bool.eq_false_iff]
  intro hb
  simp [isBlank, Text.blankRanges, Text.inRanges] at hb
  omega

theorem IsLetter.not_blank {c : Char} (h : IsLetter c) : isBlank c = false :=
  isBlank_eq_false ⟨Char.le_trans (by decide) h.1, h.2⟩

theorem IsNumeral.not_blank {c : Char} (h : IsNumeral c) : isBlank c = false :=
  isBlank_eq_false ⟨h.1, Char.le_trans h.2 (by decide)⟩

/-- no strings and no comments -/
def Bare (text : List Char) : Prop := '"' ∉ text ∧ ';' ∉ text

theorem Bare.suffix {a b : List Char} (h : Bare a) (hs : b <:+ a) : Bare b :=
  ⟨fun hm => h.1 (hs.mem hm), fun hm => h.2 (hs.mem hm)⟩

section
variable {width table : Nat} {a b c : List Char} {v : Value} {vs : List Value}

/-- a gap of a bare text is blank -/
theorem Gap.exists_blanks (h : Gap a b) (ha : Bare a) : ∃ g, a = g ++ b ∧ ∀ c ∈ g, IsBlank c := by
  induction h with
  | none a => exact ⟨[], rfl, fun c hc => absurd hc List.not_mem_nil⟩
  | @blank c a b hc _ ih =>
    obtain ⟨g, rfl, hg⟩ := ih (ha.suffix (List.suffix_cons c a))
    exact ⟨c :: g, rfl, List.forall_mem_cons.2 ⟨hc, hg⟩⟩
  | comment => exact absurd (List.mem_cons_self ..) ha.2

theorem Gap.suffix (h : Gap a b) : b <:+ a := by
  induction h with
  | none a => exact List.suffix_rfl
  | blank _ _ ih => exact ih.trans (List.suffix_cons _ _)
  | comment _ _ _ ih => exact (ih.trans (List.suffix_append _ _)).trans (List.suffix_cons _ _)

theorem Sexp.not_blank (h : Sexp width table a v b) : Stops (isBlank · = true) a := by
  cases h with
  | list => show ¬ isBlank '(' = true; decide
  | string => show ¬ isBlank '"' = true; decide
  | name hne hc _ =>
    obtain ⟨c, a, he, hl⟩ := exists_start hne hc b
    rw [he]
    show ¬ isBlank c = true
    rw [hl.not_blank]
    exact Bool.false_ne_true
  | integer hne hc _ _ =>
    obtain ⟨c, a, he, hl⟩ := exists_start hne hc b
    rw [he]
    show ¬ isBlank c = true
    rw [hl.not_blank]
    exact Bool.false_ne_true

theorem Items.not_blank (h : Items width table a vs (')' :: c)) : Stops (isBlank · = true) a := by
  cases h with
  | nil => show ¬ isBlank ')' = true; decide
  | cons hs _ _ => exact hs.not_blank

/-- the scan skips what the grammar has as a gap -/
theorem skipBlank_eq (hg : Gap a b) (ha : Bare a) (hb : Stops (isBlank · = true) b) :
    skipBlank a = b := by
  obtain ⟨g, rfl, hblank⟩ := hg.exists_blanks ha
  rw [skipBlank, List.dropWhile_append_of_pos fun c hc => (hblank c hc).text_isBlank]
  cases b with
  | nil => rfl
  | cons c b => exact List.dropWhile_cons_of_neg hb

end

/-! ## brackets -/

/-- as many brackets are closed as are opened, and none is closed before it is opened -/
def Closed (p : List Char) : Prop :=
  p.count '(' = p.count ')' ∧ ∀ q, q <:+ p → q.count '(' ≤ q.count ')'

theorem suffix_append_cases {q p r : List Char} (h : q <:+ p ++ r) :
    q <:+ r ∨ ∃ t, t <:+ p ∧ q = t ++ r := by
  rcases List.suffix_or_suffix_of_suffix h (List.suffix_append p r) with hs | ⟨t, rfl⟩
  · exact .inl hs
  · exact .inr ⟨t, List.suffix_append_self_iff.1 h, rfl⟩

theorem closed_of_noBrackets {p : List Char} (h : NoBrackets p) : Closed p := by
  have ho : p.count '(' = 0 := List.count_eq_zero_of_not_mem h.open_not_mem
  have hc : p.count ')' = 0 := List.count_eq_zero_of_not_mem h.close_not_mem
  refine ⟨ho.trans hc.symm, fun q hq => ?_⟩
  have hle := hq.sublist.count_le '('
  omega

theorem Closed.append {p r : List Char} (hp : Closed p) (hr : Closed r) : Closed (p ++ r) := by
  refine ⟨by rw [List.count_append, List.count_append, hp.1, hr.1], fun q hq => ?_⟩
  rcases suffix_append_cases hq with hq | ⟨t, ht, rfl⟩
  · exact hr.2 q hq
  · rw [List.count_append, List.count_append, hr.1]
    exact Nat.add_le_add_right (hp.2 t ht) _

theorem Closed.bracket {p : List Char} (hp : Closed p) : Closed ('(' :: (p ++ [')'])) := by
  have hcount : ('(' :: (p ++ [')'])).count '(' = ('(' :: (p ++ [')'])).count ')' := by
    simp [List.count_append, hp.1]
  refine ⟨hcount, fun q hq => ?_⟩
  rcases List.suffix_cons_iff.1 hq with rfl | hq
  · exact hcount.le
  rcases suffix_append_cases hq with hq | ⟨t, ht, rfl⟩
  · have hle := hq.sublist.count_le '('
    have hnone : [')'].count '(' = 0 := by decide
    omega
  · have hle := hp.2 t ht
    simp only [List.count_append]
    exact Nat.add_le_add hle (by decide)

/-- the places of the opening brackets -/
def openings (text : List Char) : List (List Char) := text.tails.filter fun s => s.head? = some '('

theorem mem_openings {s text : List Char} :
    s ∈ openings text ↔ s <:+ text ∧ s.head? = some '(' := by
  rw [openings, List.mem_filter, List.mem_tails, decide_eq_true_eq]

theorem openings_open (a : List Char) : openings ('(' :: a) = ('(' :: a) :: openings a := by
  rw [openings, List.tails_cons]
  exact List.filter_cons_of_pos (by simp)

theorem openings_cons {c : Char} (hc : c ≠ '(') (a : List Char) :
    openings (c :: a) = openings a := by
  rw [openings, List.tails_cons]
  exact List.filter_cons_of_neg (by simp [hc])

theorem openings_append {g : List Char} (hg : '(' ∉ g) (a : List Char) :
    openings (g ++ a) = openings a := by
  induction g with
  | nil => rfl
  | cons c g ih =>
    rw [List.cons_append, openings_cons fun he => hg (he ▸ List.mem_cons_self ..)]
    exact ih fun hm => hg (List.mem_cons_of_mem _ hm)

/-! ## lists and their items -/

section
variable (width table : Nat)

/-- a list with these items stands here -/
def ListAt (s : List Char) (items : List Value) : Prop :=
  ∃ a b c, s = '(' :: a ∧ Gap a b ∧ Items width table b items (')' :: c)

/-- items as they stand in a list, with the place of one of them -/
inductive ItemAt : List Char → List Value → List Char → Nat → List Char → Prop
  | here {a b c d : List Char} {v : Value} {vs : List Value} :
    Sexp width table a v b → Gap b c → Items width table c vs d → ItemAt a (v :: vs) d 0 a
  | there {a b c d s : List Char} {v : Value} {vs : List Value} {i : Nat} :
    Sexp width table a v b → Gap b c → ItemAt c vs d i s → ItemAt a (v :: vs) d (i + 1) s

/-- a list with these items stands at `s`, and one of the items at `t` -/
def ChildAt (s : List Char) (items : List Value) (i : Nat) (t : List Char) : Prop :=
  ∃ a b c, s = '(' :: a ∧ Gap a b ∧ ItemAt width table b items (')' :: c) i t

/-- The text from `a` to `b` is closed, and its brackets open the given lists. -/
structure Spans (a b : List Char) (lists : List (List Value)) : Prop where
  closed : ∃ p, a = p ++ b ∧ Closed p
  listed : ∃ ss, openings a = ss ++ openings b ∧ List.Forall₂ (ListAt width table) ss lists

end

section
variable {width table : Nat} {a b c d s : List Char} {v : Value} {vs : List Value} {i : Nat}
  {ls ls' : List (List Value)}

theorem Spans.suffix (h : Spans width table a b ls) : b <:+ a := by
  obtain ⟨p, rfl, _⟩ := h.closed
  exact List.suffix_append p b

theorem Spans.trans (h : Spans width table a b ls) (h' : Spans width table b c ls') :
    Spans width table a c (ls ++ ls') := by
  obtain ⟨⟨p, ha, hp⟩, ⟨ss, hss, hls⟩⟩ := h
  obtain ⟨⟨p', hb, hp'⟩, ⟨ss', hss', hls'⟩⟩ := h'
  refine ⟨⟨p ++ p', by rw [ha, hb, List.append_assoc], hp.append hp'⟩, ss ++ ss', ?_,
    List.rel_append hls hls'⟩
  rw [hss, hss', List.append_assoc]

theorem spans_of_noBrackets {p : List Char} (hp : NoBrackets p) (b : List Char) :
    Spans width table (p ++ b) b [] :=
  ⟨⟨p, rfl, closed_of_noBrackets hp⟩, [], openings_append hp.open_not_mem b, .nil⟩

theorem spans_gap (width table : Nat) (hg : Gap a b) (ha : Bare a) : Spans width table a b [] := by
  obtain ⟨g, rfl, hblank⟩ := hg.exists_blanks ha
  have hg : NoBrackets g :=
    Editor.noBrackets_of_all (fun c hc => (hblank c hc).text_isBlank) (by decide) (by decide)
  exact spans_of_noBrackets hg b

theorem noBrackets_of_letters {cs : List Char} (h : ∀ c ∈ cs, IsLetter c) : NoBrackets cs :=
  Editor.noBrackets_of_all (fun c hc => (isLower_iff c).2 (h c hc)) (by decide) (by decide)

theorem noBrackets_of_numerals {cs : List Char} (h : ∀ c ∈ cs, IsNumeral c) : NoBrackets cs :=
  Editor.noBrackets_of_all (fun c hc => (isDigit_iff c).2 (h c hc)) (by decide) (by decide)

mutual
theorem spans_sexp {width table : Nat} {a b : List Char} {v : Value} :
    Sexp width table a v b → Bare a → Spans width table a b v.lists
  | @Sexp.list _ _ a d _ items hg hi, ha => by
    have ha' := ha.suffix (List.suffix_cons '(' a)
    have hs : Spans width table a (')' :: b) (Value.listsOf items) :=
      (spans_gap width table hg ha').trans (spans_items hi (ha'.suffix hg.suffix))
    obtain ⟨⟨p, he, hp⟩, ss, hss, hls⟩ := hs
    rw [Value.lists_list]
    refine ⟨⟨'(' :: (p ++ [')']), by rw [he]; simp, hp.bracket⟩, ('(' :: a) :: ss, ?_, ?_⟩
    · rw [openings_open, hss, openings_cons (by decide)]
      rfl
    · exact .cons ⟨a, d, b, rfl, hg, hi⟩ hls
  | .string _, ha => absurd (List.mem_cons_self ..) ha.1
  | .name _ hc _, _ => by
    rw [lists_nameValue]
    exact spans_of_noBrackets (noBrackets_of_letters hc) b
  | .integer _ hc _ _, _ => by
    have hnone : ∀ n, (Value.int n).lists = [] := fun n => by rw [Value.lists]; nofun
    rw [hnone]
    exact spans_of_noBrackets (noBrackets_of_numerals hc) b

theorem spans_items {width table : Nat} {a b : List Char} {vs : List Value} :
    Items width table a vs b → Bare a → Spans width table a b (Value.listsOf vs)
  | .nil _, _ => by
    rw [Value.listsOf]
    exact spans_of_noBrackets (p := []) (fun c hc => absurd hc List.not_mem_nil) a
  | .cons hs hg hi, ha => by
    have h₁ := spans_sexp hs ha
    have hb := ha.suffix h₁.suffix
    have h₂ := spans_gap width table hg hb
    have h₃ := spans_items hi (hb.suffix hg.suffix)
    rw [Value.listsOf_cons]
    exact h₁.trans (h₂.trans h₃)
end

/-- an item stands after closed text -/
theorem ItemAt.closed (h : ItemAt width table a vs d i s) (ha : Bare a) :
    ∃ p, a = p ++ s ∧ Closed p := by
  induction h with
  | here _ _ _ => exact ⟨[], rfl, closed_of_noBrackets fun c hc => absurd hc List.not_mem_nil⟩
  | there hs hg _ ih =>
    have h₁ := spans_sexp hs ha
    have hb := ha.suffix h₁.suffix
    obtain ⟨p, he, hp⟩ := (h₁.trans (spans_gap _ _ hg hb)).closed
    obtain ⟨p', rfl, hp'⟩ := ih (hb.suffix hg.suffix)
    exact ⟨p ++ p', by rw [he, List.append_assoc], hp.append hp'⟩

theorem ItemAt.items (h : ItemAt width table a vs d i s) : Items width table a vs d := by
  induction h with
  | here hs hg hi => exact .cons hs hg hi
  | there hs hg _ ih => exact .cons hs hg ih

theorem exists_itemAt (h : Items width table a vs d) (hv : vs[i]? = some v) :
    ∃ s b, ItemAt width table a vs d i s ∧ Sexp width table s v b := by
  induction vs generalizing a i with
  | nil => cases hv
  | cons w vs ih =>
    cases h with
    | @cons _ b c _ _ _ hs hg hi =>
      cases i with
      | zero =>
        injection hv with hv
        subst hv
        exact ⟨a, b, .here hs hg hi, hs⟩
      | succ i =>
        obtain ⟨s, e, hat, hv⟩ := ih hi hv
        exact ⟨s, e, .there hs hg hat, hv⟩

/-- every item of a list stands somewhere -/
theorem exists_childAt (h : ListAt width table a vs) (hv : vs[i]? = some v) :
    ∃ s b, ChildAt width table a vs i s ∧ Sexp width table s v b := by
  obtain ⟨b, c, d, rfl, hg, hi⟩ := h
  obtain ⟨s, e, hat, hv⟩ := exists_itemAt hi hv
  exact ⟨s, e, ⟨b, c, d, rfl, hg, hat⟩, hv⟩

/-- before an item of the outermost list, at most one bracket is open -/
theorem count_before_child {text s₀ : List Char} (ht : Bare text) (hg : Gap text s₀)
    (h : ChildAt width table s₀ vs i s) :
    ∃ p, text = p ++ s ∧ ∀ q, q <:+ p → q.count '(' ≤ q.count ')' + 1 := by
  obtain ⟨a, b, c, rfl, hg', hi⟩ := h
  have ha := (ht.suffix hg.suffix).suffix (List.suffix_cons '(' a)
  obtain ⟨g, htext, hgc⟩ := (spans_gap width table hg ht).closed
  obtain ⟨g', ha', hgc'⟩ := (spans_gap width table hg' ha).closed
  obtain ⟨p, hb, hp⟩ := hi.closed (ha.suffix hg'.suffix)
  have hr : Closed (g' ++ p) := hgc'.append hp
  have hopen : ∀ q, q <:+ '(' :: (g' ++ p) → q.count '(' ≤ q.count ')' + 1 := by
    intro q hq
    rcases List.suffix_cons_iff.1 hq with rfl | hq
    · simp [hr.1]
    · exact Nat.le_succ_of_le (hr.2 q hq)
  refine ⟨g ++ '(' :: (g' ++ p), by rw [htext, ha', hb]; simp, fun q hq => ?_⟩
  rcases suffix_append_cases hq with hq | ⟨t, ht, rfl⟩
  · exact hopen q hq
  · have hle := hgc.2 t ht
    have hle' := hopen _ List.suffix_rfl
    rw [List.count_append, List.count_append]
    omega

end

end Grammar

end Lisplet
