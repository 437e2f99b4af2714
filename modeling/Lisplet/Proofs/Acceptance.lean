import Lisplet.Proofs.Descent
import Lisplet.Proofs.Recognition

/-!
# The reader accepts its grammar

Both ways to read a whole text, as an expression and as a unit, are compared with the grammar.

* `isExpression_of_expression`   what is read as an expression is one;
* `expression_of_isExpression`   an expression is read, with the value of its derivation, and its
  names are interned, if it is not nested too deeply;
* `expression_tooDeep`           an expression that is nested too deeply is refused for that reason;
* `unit_eq_ok_iff`               a unit is read exactly as an expression that is a list;
* `accepts_grammar`              for every text, table, width and admitted nesting, both readers
  agree with the grammar.
-/

namespace Lisplet

open Grammar Sequence
open Text (Place)

/-! ## gaps around the expression -/

theorem afterGap_body {body a : List Char} (hb : ∀ c ∈ body, c ≠ '\n')
    (ha : Stops (fun c => c ≠ '\n') a) (p : Place) :
    ∃ q, afterGap true p (body ++ a) = afterGap false q a := by
  induction body generalizing p with
  | nil =>
    cases a with
    | nil => exact ⟨p, rfl⟩
    | cons c a =>
      have hc : c = '\n' := Decidable.not_not.1 ha
      subst hc
      exact ⟨p, rfl⟩
  | cons c body ih =>
    obtain ⟨q, hq⟩ := ih (fun d hd => hb d (List.mem_cons_of_mem _ hd)) (p.after c)
    refine ⟨q, ?_⟩
    rw [List.cons_append, afterGap, if_pos rfl, decide_eq_true (hb c (List.mem_cons_self ..)), hq]

theorem afterGap_gap {a b : List Char} (h : Gap a b) (p : Place) :
    ∃ q, afterGap false p a = afterGap false q b := by
  induction h generalizing p with
  | none a => exact ⟨p, rfl⟩
  | @blank c a b hc _ ih =>
    obtain ⟨q, hq⟩ := ih (p.after c)
    exact ⟨q, by simp [afterGap, (isGap_iff c).2 hc, hq]⟩
  | @comment body a b hb ha _ ih =>
    obtain ⟨p', hp⟩ := afterGap_body hb ha (p.after ';')
    obtain ⟨q, hq⟩ := ih p'
    exact ⟨q, by simp [afterGap, isGap, hp, hq]⟩

theorem afterGap_of_stops {a : List Char} (h : Stops OpensGap a) (p : Place) :
    afterGap false p a = (a, p) := by
  cases a with
  | nil => rfl
  | cons c a =>
    have hb : isGap c = false := by
      rw [← Bool.not_eq_true, isGap_iff]
      exact fun hb => h (.inl hb)
    have hs : c ≠ ';' := fun hs => h (.inr hs)
    simp [afterGap, hb, hs]

namespace Reader

variable {r : Reader}

/-- a gap that cannot go on is passed as a whole -/
theorem left_pastGap_of_gap {b : List Char} (h : Gap r.left b) (hb : Stops OpensGap b) :
    r.pastGap.left = b := by
  obtain ⟨q, hq⟩ := afterGap_gap h r.place
  rw [left_pastGap, hq, afterGap_of_stops hb]

theorem gap_pastGap (r : Reader) : Gap r.left r.pastGap.left ∧ Stops OpensGap r.pastGap.left := by
  obtain ⟨b, hg, hb⟩ := exists_gap r.left
  rw [left_pastGap_of_gap hg hb]
  exact ⟨hg, hb⟩

theorem table_pastGap (r : Reader) : r.pastGap.marks.table = r.marks.table := by
  rw [marks_pastGap]

end Reader

/-! ## the parts of reading a whole text -/

namespace Reading

/-- past a gap, the reader looks at the next character -/
theorem skipGap_peek {α : Type} (f : Option Char → Reading α) (r : Reader) :
    (skipGap >>= fun _ => peek >>= f) r = f r.pastGap.left.head? r.pastGap.looked := by
  rw [bind_of_ok (skipGap_eq r), bind_of_ok (peek_eq r.pastGap)]

theorem finish_of_nil {r : Reader} (h : r.pastGap.left = []) :
    finish r = .ok () r.pastGap.looked := by
  unfold finish
  rw [skipGap_peek, h]
  rfl

theorem finish_of_cons {r : Reader} {c : Char} {a : List Char} (h : r.pastGap.left = c :: a) :
    finish r = .error (.placed (.trailing c) r.pastGap.place) r.pastGap.looked := by
  unfold finish
  rw [skipGap_peek, h]
  rfl

theorem finish_eq_ok_iff (r r' : Reader) :
    finish r = .ok () r' ↔ Gap r.left [] ∧ r' = r.pastGap.looked := by
  obtain ⟨hg, hs⟩ := r.gap_pastGap
  cases hr : r.pastGap.left with
  | nil =>
    rw [hr] at hg
    rw [finish_of_nil hr]
    constructor
    · intro h
      cases h
      exact ⟨hg, rfl⟩
    · rintro ⟨_, h⟩
      rw [h]
  | cons c a =>
    rw [finish_of_cons hr]
    constructor
    · intro h
      cases h
    · rintro ⟨h, _⟩
      rw [Reader.left_pastGap_of_gap h trivial] at hr
      cases hr

theorem item_open {r : Reader} {text : List Char} (h : r.left = '(' :: text) :
    item r = list r.looked := by
  unfold item itemBy
  rw [bind_of_ok (peek_eq r), h]
  rfl

theorem expression_eq (r : Reader) :
    expression r = (item >>= fun v => finish >>= fun _ => pure v) r.pastGap := by
  unfold expression
  rw [bind_of_ok (skipGap_eq r)]

theorem expression_eq_ok_iff (r r' : Reader) (v : Value) :
    expression r = .ok v r' ↔ ∃ r₁, item r.pastGap = .ok v r₁ ∧ finish r₁ = .ok () r' := by
  rw [expression_eq, bind_eq_ok]
  constructor
  · rintro ⟨w, r₁, hi, hf⟩
    obtain ⟨_, r₂, hf, hp⟩ := bind_eq_ok.1 hf
    cases hp
    exact ⟨r₁, hi, hf⟩
  · rintro ⟨r₁, hi, hf⟩
    exact ⟨v, r₁, hi, bind_eq_ok.2 ⟨(), r', hf, rfl⟩⟩

theorem unit_open {r : Reader} {text : List Char} (h : r.pastGap.left = '(' :: text) :
    unit r = (item >>= fun v => finish >>= fun _ => pure (itemsOf v)) r.pastGap := by
  unfold unit
  rw [skipGap_peek, h, List.head?_cons, if_pos rfl]
  show EStateM.bind _ _ _ = EStateM.bind _ _ _
  rw [EStateM.bind, EStateM.bind, item_open h]

theorem unit_not_open {r : Reader} (h : r.pastGap.left.head? ≠ some '(') :
    unit r = .error (.placed (.noUnit r.pastGap.left.head?) r.pastGap.place) r.pastGap.looked := by
  unfold unit
  rw [skipGap_peek, if_neg h]
  rfl

/-! ## whole texts -/

section
variable {r r' : Reader} {v : Value}

/-- what is read as one expression is one -/
theorem sexp_of_item (hs : Stops OpensGap r.left) (h : item r = .ok v r') :
    Sexp r.limits.width r.marks.table.id r.left v r'.left := by
  have hne : r.left ≠ [] := by
    intro hr
    unfold item itemBy at h
    rw [bind_of_ok (peek_eq r), hr] at h
    cases h
  have hv := viewed_item hne hs
  rw [h] at hv
  exact sexp_of_scan hne hs hv.symm

/-- an expression that is not nested too deeply is read -/
theorem item_of_sexp {b : List Char} (h : Sexp r.limits.width r.marks.table.id r.left v b)
    (hd : v.nesting ≤ r.limits.depth) :
    ∃ r', r'.left = b ∧ r'.marks.table = r.marks.table.internAll v.names ∧ item r = .ok v r' := by
  obtain ⟨m, ht, he⟩ := scan_sexp [] r.marks rfl h (by rw [List.length_nil]; omega)
  have hv : viewed (item r) = .ok v ⟨b, m, r.limits⟩ := (viewed_item h.ne_nil h.stops).trans he
  obtain ⟨r', hi, ho⟩ := exists_of_viewed_ok hv
  injection ho with hleft hmarks
  exact ⟨r', hleft, by rw [hmarks, ht], hi⟩

/-- an expression that is nested too deeply is refused for that reason -/
theorem item_tooDeep {b : List Char} (h : Sexp r.limits.width r.marks.table.id r.left v b)
    (hd : r.limits.depth < v.nesting) : ∃ p r', item r = .error (.tooDeep p) r' := by
  obtain ⟨p, o, he⟩ := scan_sexp_tooDeep [] r.marks rfl (Nat.zero_le _) h
    (by rw [List.length_nil]; omega)
  obtain ⟨r', hi, _⟩ := exists_of_viewed_error ((viewed_item h.ne_nil h.stops).trans he)
  exact ⟨p, r', hi⟩

theorem isExpression_of_expression (h : expression r = .ok v r') :
    IsExpression r.limits.width r.marks.table.id r.left v := by
  obtain ⟨r₁, hi, hf⟩ := (expression_eq_ok_iff r r' v).1 h
  obtain ⟨hg, hs⟩ := r.gap_pastGap
  have hx := sexp_of_item hs hi
  rw [Reader.limits_pastGap, Reader.table_pastGap] at hx
  exact ⟨r.pastGap.left, r₁.left, hg, hx, ((finish_eq_ok_iff r₁ r').1 hf).1⟩

theorem expression_of_isExpression (h : IsExpression r.limits.width r.marks.table.id r.left v)
    (hd : v.nesting ≤ r.limits.depth) :
    ∃ r', r'.marks.table = r.marks.table.internAll v.names ∧ expression r = .ok v r' := by
  obtain ⟨a, b, hg, hs, hb⟩ := h
  rw [← Reader.left_pastGap_of_gap hg hs.stops, ← r.limits_pastGap, ← r.table_pastGap] at hs
  rw [← r.limits_pastGap] at hd
  obtain ⟨r₁, hl, ht, hi⟩ := item_of_sexp hs hd
  rw [← hl] at hb
  refine ⟨r₁.pastGap.looked, ?_, ?_⟩
  · rw [Reader.marks_looked, Reader.table_pastGap, ht, Reader.table_pastGap]
  · rw [expression_eq_ok_iff]
    exact ⟨r₁, hi, (finish_eq_ok_iff _ _).2 ⟨hb, rfl⟩⟩

theorem expression_tooDeep (h : IsExpression r.limits.width r.marks.table.id r.left v)
    (hd : r.limits.depth < v.nesting) : ∃ p r', expression r = .error (.tooDeep p) r' := by
  obtain ⟨a, b, hg, hs, hb⟩ := h
  rw [← Reader.left_pastGap_of_gap hg hs.stops, ← r.limits_pastGap, ← r.table_pastGap] at hs
  rw [← r.limits_pastGap] at hd
  obtain ⟨p, r₁, hi⟩ := item_tooDeep hs hd
  exact ⟨p, r₁, by rw [expression_eq]; exact bind_of_error hi⟩

/-- a text is read as a unit if it is read as an expression that is a list -/
theorem unit_eq_ok_iff (r r' : Reader) (vs : List Value) :
    unit r = .ok vs r' ↔ expression r = .ok (.list vs) r' := by
  obtain ⟨hg, hs⟩ := r.gap_pastGap
  rw [expression_eq_ok_iff]
  constructor
  · intro h
    by_cases hp : r.pastGap.left.head? = some '('
    · obtain ⟨text, hr⟩ := List.head?_eq_some_iff.1 hp
      rw [unit_open hr, bind_eq_ok] at h
      obtain ⟨v, r₁, hi, hf⟩ := h
      obtain ⟨_, _, hf', hv⟩ := bind_eq_ok.1 hf
      cases hv
      have hl := sexp_of_item hs hi
      rw [hr] at hl
      obtain ⟨_, ws, rfl, _⟩ := hl.list_of_open
      exact ⟨r₁, hi, hf'⟩
    · rw [unit_not_open hp] at h
      cases h
  · rintro ⟨r₁, hi, hf⟩
    obtain ⟨text, _, hr, _⟩ := (sexp_of_item hs hi).open_of_list
    rw [unit_open hr, bind_eq_ok]
    exact ⟨.list vs, r₁, hi, bind_eq_ok.2 ⟨(), r', hf, rfl⟩⟩

theorem unit_tooDeep {vs : List Value} (h : IsUnit r.limits.width r.marks.table.id r.left vs)
    (hd : r.limits.depth < (Value.list vs).nesting) : ∃ p r', unit r = .error (.tooDeep p) r' := by
  obtain ⟨a, b, hg, hs, hb⟩ := (isUnit_iff _).1 h
  obtain ⟨text, _, ha, _⟩ := hs.open_of_list
  have hr := Reader.left_pastGap_of_gap hg hs.stops
  rw [← hr, ← r.limits_pastGap, ← r.table_pastGap] at hs
  rw [← hr] at ha
  rw [← r.limits_pastGap] at hd
  obtain ⟨p, r₁, hi⟩ := item_tooDeep hs hd
  exact ⟨p, r₁, by rw [unit_open ha]; exact bind_of_error hi⟩

end

end Reading

/-! ## both readers against the grammar -/

/-- what one answer of the reader has to do with what the grammar derives for the text -/
structure Agrees {α : Type} (derives admitted : α → Prop)
    (answer : EStateM.Result ParseError Reader α) : Prop where
  /-- unless lists are nested too deeply, exactly the derived value is read -/
  exact_unless_tooDeep :
    (∀ p r, answer ≠ .error (.tooDeep p) r) → ∀ x, (∃ r, answer = .ok x r) ↔ derives x
  /-- what is admitted is not nested too deeply -/
  admits : ∀ x, derives x → admitted x → ∃ r, answer = .ok x r
  /-- a text has no two values -/
  unique : ∀ x y, derives x → derives y → x = y
  /-- a text that has no value is refused -/
  rejects : (∀ x, ¬ derives x) → ∃ e r, answer = .error e r

/-- an answer agrees with the grammar if it is sound, complete for what is admitted, and says of
anything else that is derived that it is nested too deeply -/
theorem Agrees.of_sound_complete {α : Type} {derives admitted : α → Prop}
    {answer : EStateM.Result ParseError Reader α}
    (sound : ∀ x r, answer = .ok x r → derives x)
    (complete : ∀ x, derives x → admitted x → ∃ r, answer = .ok x r)
    (deep : ∀ x, derives x → ¬ admitted x → ∃ p r, answer = .error (.tooDeep p) r)
    (unique : ∀ x y, derives x → derives y → x = y) : Agrees derives admitted answer where
  exact_unless_tooDeep := by
    intro hn x
    constructor
    · rintro ⟨r, h⟩
      exact sound x r h
    · intro h
      by_cases ha : admitted x
      · exact complete x h ha
      · obtain ⟨p, r, hr⟩ := deep x h ha
        exact absurd hr (hn p r)
  admits := complete
  unique := unique
  rejects := by
    intro hn
    cases h : answer with
    | ok x r => exact absurd (sound x r h) (hn x)
    | error e r => exact ⟨e, r, rfl⟩

/-- no text is an expression of two values: a reader that admits the deeper one reads both -/
theorem Grammar.IsExpression.unique {width table : Nat} {text : List Char} {v w : Value}
    (hv : IsExpression width table text v) (hw : IsExpression width table text w) : v = w := by
  let r : Reader := ⟨none, text, ⟨.start, ⟨table, []⟩, []⟩, ⟨width, max v.nesting w.nesting⟩⟩
  obtain ⟨r₁, _, h₁⟩ := Reading.expression_of_isExpression (r := r) hv (Nat.le_max_left _ _)
  obtain ⟨r₂, _, h₂⟩ := Reading.expression_of_isExpression (r := r) hw (Nat.le_max_right _ _)
  rw [h₁] at h₂
  cases h₂
  rfl

/-- **The reader accepts its grammar.** For every text, table, width and admitted nesting, both ways
to read the text agree with the grammar. -/
theorem accepts_grammar (lim : Limits) (table : SymbolTable) (text : String) :
    Agrees (IsExpression lim.width table.id text.toList) (fun v => v.nesting ≤ lim.depth)
      (Reading.expression (Reader.ofText text table lim)) ∧
    Agrees (IsUnit lim.width table.id text.toList) (fun vs => (Value.list vs).nesting ≤ lim.depth)
      (Reading.unit (Reader.ofText text table lim)) := by
  constructor
  · apply Agrees.of_sound_complete
    · intro v r h
      exact Reading.isExpression_of_expression h
    · intro v hv hd
      obtain ⟨r, _, h⟩ :=
        Reading.expression_of_isExpression (r := Reader.ofText text table lim) hv hd
      exact ⟨r, h⟩
    · intro v hv hd
      exact Reading.expression_tooDeep (r := Reader.ofText text table lim) hv (Nat.lt_of_not_le hd)
    · intro v w hv hw
      exact hv.unique hw
  · apply Agrees.of_sound_complete
    · intro vs r h
      rw [Reading.unit_eq_ok_iff] at h
      exact (isUnit_iff _).2 (Reading.isExpression_of_expression h)
    · intro vs hv hd
      obtain ⟨r, _, h⟩ := Reading.expression_of_isExpression (r := Reader.ofText text table lim)
        ((isUnit_iff _).1 hv) hd
      exact ⟨r, (Reading.unit_eq_ok_iff _ _ _).2 h⟩
    · intro vs hv hd
      exact Reading.unit_tooDeep (r := Reader.ofText text table lim) hv (Nat.lt_of_not_le hd)
    · intro vs ws hv hw
      have h := ((isUnit_iff _).1 hv).unique ((isUnit_iff _).1 hw)
      cases h
      rfl

end Lisplet
