import Mathlib
import Lisplet.Proofs.Stages

/-!
# Errors are reported where a text goes wrong

A text goes wrong at its first character after which no continuation is accepted.  The reader
reports its errors there: what stands before the reported place can be completed to a text that is
accepted, and a text that goes on with the same character is refused for the same reason, whatever
follows.  A text that has not gone wrong and is refused all the same has ended too early, and that
is what the reader says of it.

The two halves are about the automaton of `Stages`.

* `exists_completion`    every stage of a reading can be brought to an end: whatever is open is
  closed;
* `outcome_of_refused`   a character that is refused is refused with any text after it.

Two errors are no errors of one character.  An integer is too great only with all its digits, and is
reported after the digit that makes it so; the nesting of lists is limited by the machine.
-/

namespace Lisplet

open Grammar
open Text (Place)

/-! ## places and offsets -/

namespace Text

/-- the place after a text, counted from the text itself -/
theorem Place.afterAll_eq_position (cs : List Char) :
    Place.start.afterAll cs = ⟨cs.count '\n' + 1, sinceBreak cs + 1⟩ := by
  induction cs using List.reverseRecOn with
  | nil => rfl
  | append_singleton cs c ih =>
    rw [Place.afterAll_append, ih, sinceBreak_concat, List.count_append]
    show Place.after _ c = _
    by_cases hc : c = '\n'
    · simp [Place.after, hc]
    · simp [Place.after, hc]

/-- the place at an offset of a text -/
def placeOf (cs : List Char) (k : Nat) : Place := ⟨(position cs k).1 + 1, (position cs k).2 + 1⟩

theorem placeOf_eq {cs : List Char} {k : Nat} (hk : k ≤ cs.length) :
    placeOf cs k = Place.start.afterAll (cs.take k) := by
  have hl : (cs.take k).length = k := by rw [List.length_take]; omega
  rw [Place.afterAll_eq_position, placeOf, position, hl, Nat.sub_self]
  rfl

def Place.Before (p q : Place) : Prop := p.line < q.line ∨ p.line = q.line ∧ p.column < q.column

theorem Place.Before.trans {p q r : Place} (h : p.Before q) (h' : q.Before r) : p.Before r := by
  unfold Place.Before at *
  omega

theorem Place.before_after (p : Place) (c : Char) : p.Before (p.after c) := by
  unfold Place.after
  split
  · exact .inl (Nat.lt_succ_self _)
  · exact .inr ⟨rfl, Nat.lt_succ_self _⟩

theorem Place.before_afterAll (p : Place) (c : Char) (cs : List Char) :
    p.Before (p.afterAll (c :: cs)) := by
  induction cs generalizing p c with
  | nil => exact p.before_after c
  | cons d cs ih => exact (p.before_after c).trans (ih (p.after c) d)

theorem placeOf_inj {cs : List Char} {j k : Nat} (hj : j ≤ cs.length) (hk : k ≤ cs.length)
    (h : placeOf cs j = placeOf cs k) : j = k := by
  have hlt : ∀ {i l : Nat}, i < l → l ≤ cs.length → placeOf cs i ≠ placeOf cs l := by
    intro i l hil hl he
    rw [placeOf_eq (by omega), placeOf_eq hl] at he
    obtain ⟨d, ds, hd⟩ : ∃ d ds, (cs.take l).drop i = d :: ds := by
      apply List.exists_cons_of_length_pos
      rw [List.length_drop, List.length_take]
      omega
    have hsplit : cs.take l = cs.take i ++ d :: ds := by
      have ht : (cs.take l).take i = cs.take i := by rw [List.take_take, Nat.min_eq_left (by omega)]
      rw [← hd, ← ht, List.take_append_drop]
    rw [hsplit, Place.afterAll_append] at he
    have hb := (Place.start.afterAll (cs.take i)).before_afterAll d ds
    rw [← he] at hb
    unfold Place.Before at hb
    omega
  rcases Nat.lt_trichotomy j k with hlt' | heq | hlt'
  · exact absurd h (hlt hlt' hk)
  · exact heq
  · exact absurd h.symm (hlt hlt' hj)

end Text

/-! ## every reading can be brought to an end -/

/-- brings what is being read to its end; between items an empty string is read -/
def Mode.ending : Mode → List Char
  | .gap => ['"', '"']
  | .comment => ['\n', '"', '"']
  | .name _ => []
  | .number _ => []
  | .text _ => ['"']
  | .escape _ => ['n', '"']

def closing (opened : List (List Value)) : List Char := List.replicate opened.length ')'

section
variable (lim : Limits)

theorem resume_closing (opened : List (List Value)) (v : Value) (m : Marks) :
    ∃ w m', resume lim opened v m (closing opened) = .ok w ⟨[], m', lim⟩ := by
  induction opened generalizing v m with
  | nil => exact ⟨v, m, rfl⟩
  | cons items outer ih =>
    have hc : closing (items :: outer) = ')' :: closing outer := List.replicate_succ ..
    rw [hc, resume, scan_close]
    exact ih _ _

theorem stops_closing {p : Char → Prop} (hp : ¬ p ')') (opened : List (List Value)) :
    Stops p (closing opened) := by
  cases opened with
  | nil => trivial
  | cons items outer => exact hp

theorem scan_empty_string (opened : List (List Value)) (m : Marks) (a : List Char) :
    ∃ m', scan lim ⟨opened, .gap⟩ m ('"' :: '"' :: a)
      = resume lim opened (.str (String.ofList [])) m' a := by
  have hs : step lim ⟨opened, .gap⟩ m '"' = .more ⟨opened, .text []⟩ (m.taking '"') := rfl
  refine ⟨(m.taking '"').taking '"', ?_⟩
  rw [scan_cons_of_more hs, scan_quoteEnd]
  rfl

theorem scan_ending (p : Pending) (m : Marks) :
    ∃ v m', scan lim p m (p.mode.ending ++ closing p.opened) = .ok v ⟨[], m', lim⟩ := by
  obtain ⟨opened, mode⟩ := p
  cases mode with
  | gap =>
    obtain ⟨m', h⟩ := scan_empty_string lim opened m (closing opened)
    obtain ⟨v, m₁, hr⟩ := resume_closing lim opened (.str (String.ofList [])) m'
    exact ⟨v, m₁, h.trans hr⟩
  | comment =>
    have hs : step lim ⟨opened, .comment⟩ m '\n' = .more ⟨opened, .gap⟩ (m.taking '\n') := rfl
    obtain ⟨m', h⟩ := scan_empty_string lim opened (m.taking '\n') (closing opened)
    obtain ⟨v, m₁, hr⟩ := resume_closing lim opened (.str (String.ofList [])) m'
    exact ⟨v, m₁, (scan_cons_of_more hs).trans (h.trans hr)⟩
  | name taken =>
    obtain ⟨v, m₁, hr⟩ := resume_closing lim opened (nameEnd m taken).1 (nameEnd m taken).2
    exact ⟨v, m₁, (scan_nameEnd lim opened m (stops_closing (by decide) opened) taken).trans hr⟩
  | number n =>
    obtain ⟨v, m₁, hr⟩ := resume_closing lim opened (.int n) (m.counted n)
    exact ⟨v, m₁, (scan_numberEnd lim opened m (stops_closing (by decide) opened) n).trans hr⟩
  | text taken =>
    obtain ⟨v, m₁, hr⟩ :=
      resume_closing lim opened (.str (String.ofList taken.reverse)) (m.taking '"')
    exact ⟨v, m₁, (scan_quoteEnd lim opened m taken _).trans hr⟩
  | escape taken =>
    have hs : step lim ⟨opened, .escape taken⟩ m 'n'
        = .more ⟨opened, .text ('\n' :: taken)⟩ (m.taking 'n') :=
      rfl
    obtain ⟨v, m₁, hr⟩ := resume_closing lim opened (.str (String.ofList ('\n' :: taken).reverse))
      ((m.taking 'n').taking '"')
    exact ⟨v, m₁, (scan_cons_of_more hs).trans ((scan_quoteEnd lim opened _ _ _).trans hr)⟩

end

namespace Progress

section
variable {lim : Limits}

theorem outcome_open_close (whole : Whole) (hd : 0 < lim.depth) (m : Marks) :
    ∃ a, outcome lim whole ⟨.before false, m⟩ ['(', ')'] = .ok a := by
  have hg : ¬ OpensGap '(' := by decide
  have ho : whole.opens '(' = true := by cases whole <;> rfl
  rw [outcome_start hg ho, scan_open lim [] m hd, scan_close]
  exact ⟨_, rfl⟩

/-- whatever has been read, some text brings the reading to a good end -/
theorem exists_completion (whole : Whole) (hd : 0 < lim.depth) (pr : Progress) :
    ∃ z a, outcome lim whole pr z = .ok a := by
  obtain ⟨stage, m⟩ := pr
  cases stage with
  | before b =>
    cases b with
    | false => exact ⟨['(', ')'], outcome_open_close whole hd m⟩
    | true =>
      obtain ⟨a, ha⟩ := outcome_open_close whole hd (m.taking '\n')
      refine ⟨'\n' :: ['(', ')'], a, ?_⟩
      rw [outcome_cons]
      exact ha
  | inside p =>
    obtain ⟨v, m', hs⟩ := scan_ending lim p m
    refine ⟨p.mode.ending ++ closing p.opened, (v, m'.table), ?_⟩
    rw [outcome_inside, hs]
    rfl
  | after v b => exact ⟨[], (v, m.table), rfl⟩

theorem Refuses.not_endsText {m : Marks} {c : Char} {f : Refusal} (h : Refuses m c f) :
    f.error.cause.endsText = false := by
  rcases h.error with he | he | ⟨cause, hb, he⟩ <;> rw [he]
  · rfl
  · rfl
  · exact hb.not_endsText

theorem Refuses.place_error {m : Marks} {c : Char} {f : Refusal} (h : Refuses m c f)
    (hr : f.error.cause ≠ .integerRange) (hd : f.error.cause ≠ .nestedTooDeeply) :
    f.error.place = m.place := by
  rcases h.error with he | he | ⟨cause, _, he⟩ <;> rw [he] at hr hd ⊢
  · exact absurd rfl hd
  · exact absurd rfl hr

theorem outcome_of_refused {whole : Whole} {pr pr' : Progress} {a : List Char} {c : Char}
    {f : Refusal} (ha : run lim whole pr a = .ok pr') (hc : next lim whole pr' c = .error f)
    (b : List Char) :
    outcome lim whole pr (a ++ c :: b) = .error f := by
  rw [outcome_append ha, outcome_cons, hc]
  rfl

end

end Progress

/-! ## what a reader says of the texts that it does not accept -/

section
variable {α : Type} (reads : String → EStateM.Result ParseError Reader α)

def Accepts (text : String) : Prop := ∃ a r, reads text = .ok a r

def Rejects (text : String) (e : ParseError) : Prop := ∃ r, reads text = .error e r

/-- some continuation of the text is accepted -/
def Continues (cs : List Char) : Prop := ∃ text : String, cs <+: text.toList ∧ Accepts reads text

/-- the place of an error is that of an offset of the text -/
structure ReportedAt (text : String) (e : ParseError) (k : Nat) : Prop where
  inside : k ≤ text.toList.length
  place : e.place = Text.placeOf text.toList k

/-- errors are reported where texts go wrong -/
structure Pinpoints : Prop where
  /-- an error has one offset; what stands before it can be continued, and with the character there
  the text has gone wrong -/
  pinpoint : ∀ text e, Rejects reads text e → e.cause ≠ .integerRange → e.cause ≠ .nestedTooDeeply →
    ∃ k, ReportedAt text e k ∧ (∀ j, ReportedAt text e j → j = k) ∧
      Continues reads (text.toList.take k) ∧
      (k < text.toList.length →
        ∀ text' : String, text.toList.take (k + 1) <+: text'.toList → Rejects reads text' e)
  /-- a text is said to have ended too early exactly if it can be continued -/
  early : ∀ text e, Rejects reads text e → e.cause ≠ .nestedTooDeeply →
    (e.cause.endsText = true ↔ Continues reads text.toList)
  /-- and exactly if the error is reported at its very end -/
  atEnd : ∀ text e, Rejects reads text e → e.cause ≠ .integerRange → e.cause ≠ .nestedTooDeeply →
    (ReportedAt text e text.toList.length ↔ Continues reads text.toList)

end

namespace Progress

section
variable {α : Type} {reads : String → EStateM.Result ParseError Reader α} {lim : Limits}
  {whole : Whole} {table : SymbolTable} {f : Value → α}

/-- the reader is a run of the automaton, up to the form of its values -/
def Follows (reads : String → EStateM.Result ParseError Reader α) (lim : Limits) (whole : Whole)
    (table : SymbolTable) (f : Value → α) : Prop :=
  ∀ text : String, told (viewed (reads text))
    = (outcome lim whole (start table) text.toList).map fun a => (f a.1, a.2)

theorem Follows.accepts_iff (h : Follows reads lim whole table f) (text : String) :
    Accepts reads text ↔ ∃ a, outcome lim whole (start table) text.toList = .ok a := by
  have ht := h text
  unfold Accepts
  cases hr : reads text <;> cases ho : outcome lim whole (start table) text.toList <;>
    rw [hr, ho] at ht <;> simp_all [told, viewed, Except.map]

theorem Follows.rejects_iff (h : Follows reads lim whole table f) (text : String) (e : ParseError) :
    Rejects reads text e ↔ ∃ t, outcome lim whole (start table) text.toList = .error ⟨e, t⟩ := by
  have ht := h text
  constructor
  · rintro ⟨r, hr⟩
    rw [hr] at ht
    exact ⟨r.marks.table, error_of_told ht⟩
  · rintro ⟨t, ho⟩
    rw [ho] at ht
    cases hr : reads text with
    | ok a r =>
      rw [hr] at ht
      cases ht
    | error e' r =>
      rw [hr] at ht
      cases ht
      exact ⟨r, hr⟩

/-- a rejected text has a prefix that can be continued, and then ends or has a character that is
refused with every text after it -/
inductive Fails (reads : String → EStateM.Result ParseError Reader α) (text : String)
    (e : ParseError) : Prop
  | ended (hp : ReportedAt text e text.toList.length) (he : e.cause.endsText = true)
      (hc : Continues reads text.toList)
  | refused {k : Nat} (hk : k < text.toList.length) (he : e.cause.endsText = false)
      (hp : e.cause ≠ .integerRange → e.cause ≠ .nestedTooDeeply → ReportedAt text e k)
      (hc : Continues reads (text.toList.take k))
      (hr : ∀ text' : String, text.toList.take (k + 1) <+: text'.toList → Rejects reads text' e)

theorem Follows.continues (h : Follows reads lim whole table f) (hd : 0 < lim.depth) {a : List Char}
    {pr : Progress} (ha : run lim whole (start table) a = .ok pr) : Continues reads a := by
  obtain ⟨z, x, hz⟩ := exists_completion whole hd pr
  refine ⟨String.ofList (a ++ z), ?_, ?_⟩
  · rw [String.toList_ofList]
    exact List.prefix_append a z
  · rw [h.accepts_iff, String.toList_ofList]
    exact ⟨x, (outcome_append ha z).trans hz⟩

theorem Follows.fails (h : Follows reads lim whole table f) (hd : 0 < lim.depth) {text : String}
    {e : ParseError} (hr : Rejects reads text e) : Fails reads text e := by
  obtain ⟨t, ho⟩ := (h.rejects_iff text e).1 hr
  rcases outcome_cases lim whole (start table) text.toList with
    ⟨pr, hrun, hf⟩ | ⟨a, c, b, pr, g, hs, hrun, hc, hg⟩
  · rw [ho] at hf
    obtain ⟨_, cause, hcause, he⟩ := finish_error hf.symm
    have hplace : pr.marks.place = Text.placeOf text.toList text.toList.length := by
      rw [place_run hrun, Text.placeOf_eq (Nat.le_refl _), List.take_length]
      rfl
    have he' : e = .placed cause pr.marks.place := he
    refine .ended ⟨Nat.le_refl _, ?_⟩ ?_ (h.continues hd hrun)
    · rw [he', hplace]
    · rw [he']
      exact hcause.endsText
  · rw [ho] at hg
    cases hg
    have hlen : text.toList.length = a.length + (b.length + 1) := by
      rw [hs, List.length_append, List.length_cons]
    have htake : text.toList.take a.length = a := by
      rw [hs]
      exact List.take_left
    have htake' : text.toList.take (a.length + 1) = a ++ [c] := by
      rw [hs, List.take_append, List.take_of_length_le (Nat.le_succ _), Nat.add_sub_cancel_left]
      rfl
    have hplace : pr.marks.place = Text.placeOf text.toList a.length := by
      rw [place_run hrun, Text.placeOf_eq (by omega), htake]
      rfl
    have hrefuses := next_error hc
    refine .refused (k := a.length) (by omega) hrefuses.not_endsText ?_ ?_ ?_
    · intro hn₁ hn₂
      exact ⟨by omega, hplace ▸ hrefuses.place_error hn₁ hn₂⟩
    · rw [htake]
      exact h.continues hd hrun
    · intro text' hpre
      rw [htake'] at hpre
      obtain ⟨b', hb'⟩ := hpre
      rw [h.rejects_iff, ← hb', List.append_assoc]
      exact ⟨t, outcome_of_refused hrun hc b'⟩

theorem not_accepts_of_rejects {text : String} {e : ParseError} (hr : Rejects reads text e) :
    ¬ Accepts reads text := by
  rintro ⟨a, r, ha⟩
  obtain ⟨r', hr⟩ := hr
  rw [ha] at hr
  cases hr

theorem reportedAt_unique {text : String} {e : ParseError} {j k : Nat} (hj : ReportedAt text e j)
    (hk : ReportedAt text e k) : j = k := by
  exact Text.placeOf_inj hj.inside hk.inside (hj.place.symm.trans hk.place)

/-- with the refused character a text can no longer be continued -/
theorem not_continues {text : String} {e : ParseError} {k : Nat}
    (hr : ∀ text' : String, text.toList.take (k + 1) <+: text'.toList → Rejects reads text' e) :
    ¬ Continues reads text.toList := by
  rintro ⟨text', hpre, ha⟩
  exact not_accepts_of_rejects (hr text' ((List.take_prefix _ _).trans hpre)) ha

theorem Follows.pinpoints (h : Follows reads lim whole table f) (hd : 0 < lim.depth) :
    Pinpoints reads where
  pinpoint text e hr hn₁ hn₂ := by
    cases h.fails hd hr with
    | ended hp he hc =>
      refine ⟨_, hp, fun j hj => reportedAt_unique hj hp, ?_,
        fun hlt => absurd hlt (Nat.lt_irrefl _)⟩
      rw [List.take_length]
      exact hc
    | refused hk he hp hc hr =>
      exact ⟨_, hp hn₁ hn₂, fun j hj => reportedAt_unique hj (hp hn₁ hn₂), hc, fun _ => hr⟩
  early text e hr _ := by
    cases h.fails hd hr with
    | ended hp he hc => exact ⟨fun _ => hc, fun _ => he⟩
    | refused hk he hp hc hr =>
      rw [he]
      exact ⟨fun hf => absurd hf Bool.false_ne_true, fun hf => absurd hf (not_continues hr)⟩
  atEnd text e hr hn₁ hn₂ := by
    cases h.fails hd hr with
    | ended hp he hc => exact ⟨fun _ => hc, fun _ => hp⟩
    | refused hk he hp hc hr =>
      refine ⟨fun hend => ?_, fun hf => absurd hf (not_continues hr)⟩
      exact absurd (reportedAt_unique hend (hp hn₁ hn₂)) (Nat.ne_of_gt hk)

end

theorem follows_expression (table : SymbolTable) (lim : Limits) :
    Follows (fun text => Reading.expression (Reader.ofText text table lim)) lim .expression table
      id := by
  intro text
  rw [told_expression]
  show _ = Except.map id _
  rw [Except.map_id]
  rfl

theorem follows_unit (table : SymbolTable) (lim : Limits) :
    Follows (fun text => Reading.unit (Reader.ofText text table lim)) lim .unit table
      Reading.itemsOf := by
  intro text
  exact told_unit _

end Progress

/-- **Errors are reported where texts go wrong.** Both readings, whatever the width of the integers,
and whatever the number of lists that may be open, if one may. -/
theorem readings_pinpoint (table : SymbolTable) (width depth : Nat) :
    Pinpoints (fun text => Reading.expression (Reader.ofText text table ⟨width, depth + 1⟩)) ∧
      Pinpoints (fun text => Reading.unit (Reader.ofText text table ⟨width, depth + 1⟩)) :=
  ⟨(Progress.follows_expression table _).pinpoints (Nat.succ_pos _),
    (Progress.follows_unit table _).pinpoints (Nat.succ_pos _)⟩

end Lisplet
