import Lisplet.Proofs.Acceptance

/-!
# A whole text, one character at a time

The reader goes over a whole text in three stages: the gap before the expression, the expression,
and the gap after it.  Here the three are put together into one automaton that takes the text
character by character (`Progress.next`) and is asked for its verdict at the end of the text
(`Progress.finish`).

`told_expression` and `told_unit` say that the two ways to read a whole text are runs of this
automaton, in all that the reader tells: the value or the error, and the symbol table.  What a
reading does with a prefix of a text can then be said by induction on the prefix:

* `run_append`     a run over a text goes on from the run over its first part;
* `run_eq_error`   a run that is refused has gone over a prefix and is refused at the next
  character;
* `next_ok`, `next_error`, `finish_error`
                   what a character does to place and table, and which errors it can cause;
* `place_run`      after a prefix the reader stands at the place after it;
* `extends_outcome`   no name is forgotten, however the reading ends.
-/

namespace Lisplet

open Grammar Sequence
open Text (Place)

/-- the ways to read a whole text -/
inductive Whole where
  | expression
  | unit

namespace Whole

/-- the character may open the expression, as far as the way of reading is concerned -/
def opens : Whole → Char → Bool
  | .expression, _ => true
  | .unit, c => c = '('

/-- what is said of a text that ends before its expression -/
def endCause : Whole → ParseCause
  | .expression => .endBeforeExpression
  | .unit => .noUnit none

end Whole

/-- how far the reading of a whole text has come; a gap may be in a comment -/
inductive Stage where
  | before (inComment : Bool)
  | inside (p : Pending)
  | after (v : Value) (inComment : Bool)

structure Progress where
  stage : Stage
  marks : Marks

/-- a table that has come from another one by interning names -/
structure SymbolTable.Extends (t t' : SymbolTable) : Prop where
  id : t'.id = t.id
  names : t.names <+: t'.names

/-- the error that ends a reading, and the table it leaves -/
structure Refusal where
  error : ParseError
  table : SymbolTable

/-- what a reader tells when it has ended -/
def told {α : Type} : EStateM.Result ParseError Outlook α → Except Refusal (α × SymbolTable)
  | .ok a o => .ok (a, o.marks.table)
  | .error e o => .error ⟨e, o.marks.table⟩

theorem error_of_told {α : Type} {e : ParseError} {r : Reader}
    {o : Except Refusal (Value × SymbolTable)} {f : Value × SymbolTable → α × SymbolTable}
    (h : told (viewed (.error e r)) = o.map f) : o = .error ⟨e, r.marks.table⟩ := by
  cases o with
  | ok a => cases h
  | error g =>
    cases h
    rfl

namespace Progress

/-- whether a gap goes on with a character, and whether it is then in a comment -/
def gapGoesOn (inComment : Bool) (c : Char) : Option Bool :=
  if inComment then some (c ≠ '\n')
  else if isGap c then some false
  else if c = ';' then some true
  else none

def afterStep (v : Value) (inComment : Bool) (m : Marks) (c : Char) : Except Refusal Progress :=
  match gapGoesOn inComment c with
  | some b => .ok ⟨.after v b, m.taking c⟩
  | none => .error ⟨.placed (.trailing c) m.place, m.table⟩

def insideStep (lim : Limits) (p : Pending) (m : Marks) (c : Char) : Except Refusal Progress :=
  match step lim p m c with
  | .more p' m' => .ok ⟨.inside p', m'⟩
  | .ended v m' => afterStep v false m' c
  | .closed v m' => .ok ⟨.after v false, m'⟩
  | .refused e m' => .error ⟨e, m'.table⟩
  | .spoilt e m' => .error ⟨e, m'.table⟩

def beforeStep (lim : Limits) (whole : Whole) (inComment : Bool) (m : Marks) (c : Char) :
    Except Refusal Progress :=
  match gapGoesOn inComment c with
  | some b => .ok ⟨.before b, m.taking c⟩
  | none =>
    if whole.opens c then insideStep lim ⟨[], .gap⟩ m c
    else .error ⟨.placed (.noUnit (some c)) m.place, m.table⟩

def next (lim : Limits) (whole : Whole) (pr : Progress) (c : Char) : Except Refusal Progress :=
  match pr.stage with
  | .before b => beforeStep lim whole b pr.marks c
  | .inside p => insideStep lim p pr.marks c
  | .after v b => afterStep v b pr.marks c

def run (lim : Limits) (whole : Whole) (pr : Progress) : List Char → Except Refusal Progress
  | [] => .ok pr
  | c :: cs => (next lim whole pr c).bind fun pr' => run lim whole pr' cs

def finish (lim : Limits) (whole : Whole) (pr : Progress) : Except Refusal (Value × SymbolTable) :=
  match pr.stage with
  | .before _ => .error ⟨.placed whole.endCause pr.marks.place, pr.marks.table⟩
  | .inside p => told (atEnd lim p pr.marks)
  | .after v _ => .ok (v, pr.marks.table)

def outcome (lim : Limits) (whole : Whole) (pr : Progress) (cs : List Char) :
    Except Refusal (Value × SymbolTable) :=
  (run lim whole pr cs).bind (finish lim whole)

def start (table : SymbolTable) : Progress := ⟨.before false, ⟨.start, table, []⟩⟩

/-! ## runs -/

section
variable {lim : Limits} {whole : Whole}

theorem run_cons (pr : Progress) (c : Char) (cs : List Char) :
    run lim whole pr (c :: cs) = (next lim whole pr c).bind fun pr' => run lim whole pr' cs := rfl

theorem run_append (pr : Progress) (a b : List Char) :
    run lim whole pr (a ++ b) = (run lim whole pr a).bind fun pr' => run lim whole pr' b := by
  induction a generalizing pr with
  | nil => rfl
  | cons c a ih =>
    rw [List.cons_append, run_cons, run_cons]
    cases h : next lim whole pr c with
    | error e => rfl
    | ok pr' => exact ih pr'

theorem outcome_cons (pr : Progress) (c : Char) (cs : List Char) :
    outcome lim whole pr (c :: cs)
      = (next lim whole pr c).bind fun pr' => outcome lim whole pr' cs := by
  rw [outcome, run_cons]
  cases next lim whole pr c <;> rfl

theorem outcome_append {pr pr' : Progress} {a : List Char} (h : run lim whole pr a = .ok pr')
    (b : List Char) : outcome lim whole pr (a ++ b) = outcome lim whole pr' b := by
  rw [outcome, run_append, h]
  rfl

/-- a refused run has gone over a prefix, and the next character is the one that is refused -/
theorem run_eq_error {pr : Progress} {cs : List Char} {f : Refusal} :
    run lim whole pr cs = .error f ↔
      ∃ a c b pr', cs = a ++ c :: b ∧ run lim whole pr a = .ok pr' ∧
        next lim whole pr' c = .error f := by
  constructor
  · intro h
    induction cs generalizing pr with
    | nil => cases h
    | cons c cs ih =>
      rw [run_cons] at h
      cases hn : next lim whole pr c with
      | error g =>
        rw [hn] at h
        cases h
        exact ⟨[], c, cs, pr, rfl, rfl, hn⟩
      | ok pr₁ =>
        rw [hn] at h
        obtain ⟨a, d, b, pr', he, ha, hd⟩ := ih h
        refine ⟨c :: a, d, b, pr', by rw [he]; rfl, ?_, hd⟩
        rw [run_cons, hn]
        exact ha
  · rintro ⟨a, c, b, pr', rfl, ha, hc⟩
    rw [run_append, ha]
    show (next lim whole pr' c).bind _ = _
    rw [hc]
    rfl

end

/-! ## gaps -/

theorem afterGap_goesOn {b b' : Bool} {c : Char} (h : gapGoesOn b c = some b') (p : Place)
    (cs : List Char) : afterGap b p (c :: cs) = afterGap b' (p.after c) cs := by
  unfold gapGoesOn at h
  rw [afterGap]
  split at h
  · next hb => cases h; rw [if_pos hb]
  · next hb =>
    rw [if_neg hb]
    split at h
    · next hg => cases h; rw [if_pos hg]
    · next hg =>
      rw [if_neg hg]
      split at h
      · next hs => cases h; rw [if_pos hs]
      · cases h

theorem gapGoesOn_eq_none {b : Bool} {c : Char} :
    gapGoesOn b c = none ↔ b = false ∧ ¬ OpensGap c := by
  unfold gapGoesOn OpensGap
  rw [← isGap_iff]
  cases b with
  | true => simp
  | false =>
    by_cases hg : isGap c = true
    · simp [hg]
    · simp [hg]

section
variable {lim : Limits} {whole : Whole}

/-- two runs through a gap that go on with the same stage come to the same end -/
theorem outcome_pastGap (stage : Bool → Stage)
    (hs : ∀ b b' m c, gapGoesOn b c = some b' →
      next lim whole ⟨stage b, m⟩ c = .ok ⟨stage b', m.taking c⟩)
    (he : ∀ b m, finish lim whole ⟨stage b, m⟩ = finish lim whole ⟨stage false, m⟩)
    (b : Bool) (m : Marks) (cs : List Char) :
    outcome lim whole ⟨stage b, m⟩ cs
      = outcome lim whole ⟨stage false, { m with place := (afterGap b m.place cs).2 }⟩
          (afterGap b m.place cs).1 := by
  induction cs generalizing b m with
  | nil => exact he b m
  | cons c cs ih =>
    cases hc : gapGoesOn b c with
    | some b' =>
      rw [outcome_cons, hs b b' m c hc, afterGap_goesOn hc]
      exact ih b' (m.taking c)
    | none =>
      obtain ⟨rfl, hg⟩ := gapGoesOn_eq_none.1 hc
      have hstop : afterGap false m.place (c :: cs) = (c :: cs, m.place) :=
        afterGap_of_stops (a := c :: cs) hg m.place
      rw [hstop]

theorem outcome_before (r : Reader) :
    outcome lim whole ⟨.before false, r.marks⟩ r.left
      = outcome lim whole ⟨.before false, r.pastGap.marks⟩ r.pastGap.left := by
  rw [r.left_pastGap, r.marks_pastGap]
  refine outcome_pastGap .before ?_ (fun _ _ => rfl) false r.marks r.left
  intro b b' m c h
  show beforeStep lim whole b m c = _
  rw [beforeStep, h]

theorem outcome_after (v : Value) (r : Reader) :
    outcome lim whole ⟨.after v false, r.marks⟩ r.left
      = outcome lim whole ⟨.after v false, r.pastGap.marks⟩ r.pastGap.left := by
  rw [r.left_pastGap, r.marks_pastGap]
  refine outcome_pastGap (.after v) ?_ (fun _ _ => rfl) false r.marks r.left
  intro b b' m c h
  show afterStep v b m c = _
  rw [afterStep, h]

/-! ## the reader is this automaton -/

/-- what becomes of a text whose expression has been read, or not -/
def goOn (lim : Limits) (whole : Whole) :
    EStateM.Result ParseError Outlook Value → Except Refusal (Value × SymbolTable)
  | .ok v o => outcome lim whole ⟨.after v false, o.marks⟩ o.rest
  | .error e o => .error ⟨e, o.marks.table⟩

theorem outcome_inside (p : Pending) (m : Marks) (cs : List Char) :
    outcome lim whole ⟨.inside p, m⟩ cs = goOn lim whole (scan lim p m cs) := by
  induction cs generalizing p m with
  | nil =>
    have hf : outcome lim whole ⟨.inside p, m⟩ [] = told (atEnd lim p m) := rfl
    rw [hf, scan_nil]
    -- at the end of the text a value is the whole, so the gap after it is empty
    have hr : ∀ v r, atEnd lim p m = .ok v r → r.rest = [] := by
      intro v r h
      unfold atEnd itemAtEnd at h
      repeat' split at h
      all_goals first
        | (injection h with _ h; subst h; rfl)
        | cases h
    cases he : atEnd lim p m with
    | error e r => rfl
    | ok v r =>
      show Except.ok (v, r.marks.table) = outcome lim whole ⟨.after v false, r.marks⟩ r.rest
      rw [hr v r he]
      rfl
  | cons c cs ih =>
    have hn : next lim whole ⟨.inside p, m⟩ c = insideStep lim p m c := rfl
    rw [outcome_cons, hn, insideStep, scan]
    cases step lim p m c with
    | more p' m' => exact ih p' m'
    | ended v m' =>
      show (afterStep v false m' c).bind _ = outcome lim whole ⟨.after v false, m'⟩ (c :: cs)
      rw [outcome_cons]
      rfl
    | closed v m' => rfl
    | refused e m' => rfl
    | spoilt e m' => rfl

variable {α : Type}

theorem told_finish (f : Value → α) (v : Value) (r : Reader) :
    told (viewed ((Reading.finish >>= fun _ => pure (f v)) r))
      = (outcome lim whole ⟨.after v false, r.marks⟩ r.left).map fun a => (f a.1, a.2) := by
  obtain ⟨_, hg⟩ := r.gap_pastGap
  rw [outcome_after]
  cases hr : r.pastGap.left with
  | nil =>
    rw [bind_of_ok (Reading.finish_of_nil hr)]
    rfl
  | cons c cs =>
    rw [hr] at hg
    have hn : next lim whole ⟨.after v false, r.pastGap.marks⟩ c
        = .error ⟨.placed (.trailing c) r.pastGap.marks.place, r.pastGap.marks.table⟩ := by
      show afterStep v false r.pastGap.marks c = _
      rw [afterStep, gapGoesOn_eq_none.2 ⟨rfl, hg⟩]
    rw [bind_of_error (Reading.finish_of_cons hr), outcome_cons, hn]
    rfl

/-- an expression that starts here is read by the automaton -/
theorem told_item (whole : Whole) (f : Value → α) {r : Reader} {c : Char} {cs : List Char}
    (hr : r.left = c :: cs) (hg : ¬ OpensGap c) :
    told (viewed ((Reading.item >>= fun v => Reading.finish >>= fun _ => pure (f v)) r))
      = (goOn r.limits whole (scan r.limits ⟨[], .gap⟩ r.marks (c :: cs))).map
          fun a => (f a.1, a.2) := by
  have hv : viewed (Reading.item r) = scan r.limits ⟨[], .gap⟩ r.marks (c :: cs) := by
    rw [← hr]
    refine viewed_item ?_ ?_
    · rw [hr]
      exact List.cons_ne_nil c cs
    · rw [hr]
      exact hg
  rw [← hv]
  cases hi : Reading.item r with
  | ok v r' =>
    rw [bind_of_ok hi]
    exact told_finish f v r'
  | error e r' =>
    rw [bind_of_error hi]
    rfl

theorem outcome_start {m : Marks} {c : Char} (hg : ¬ OpensGap c) (ho : whole.opens c = true)
    (cs : List Char) :
    outcome lim whole ⟨.before false, m⟩ (c :: cs)
      = goOn lim whole (scan lim ⟨[], .gap⟩ m (c :: cs)) := by
  have hn : next lim whole ⟨.before false, m⟩ c = next lim whole ⟨.inside ⟨[], .gap⟩, m⟩ c := by
    show beforeStep lim whole false m c = insideStep lim ⟨[], .gap⟩ m c
    rw [beforeStep, gapGoesOn_eq_none.2 ⟨rfl, hg⟩]
    exact if_pos ho
  rw [← outcome_inside, outcome_cons, outcome_cons, hn]

end

theorem told_expression (r : Reader) :
    told (viewed (Reading.expression r))
      = outcome r.limits .expression ⟨.before false, r.marks⟩ r.left := by
  obtain ⟨_, hg⟩ := r.gap_pastGap
  rw [Reading.expression_eq, outcome_before]
  cases hr : r.pastGap.left with
  | nil =>
    have hi : Reading.item r.pastGap
        = .error (.placed .endBeforeExpression r.pastGap.place) r.pastGap.looked := by
      unfold Reading.item Reading.itemBy
      rw [bind_of_ok (Reading.peek_eq _), hr]
      rfl
    rw [bind_of_error hi]
    rfl
  | cons c cs =>
    rw [hr] at hg
    rw [outcome_start hg rfl, ← r.limits_pastGap]
    refine (told_item .expression id hr hg).trans ?_
    show Except.map id _ = _
    rw [Except.map_id]
    rfl

theorem told_unit (r : Reader) :
    told (viewed (Reading.unit r))
      = (outcome r.limits .unit ⟨.before false, r.marks⟩ r.left).map
          fun a => (Reading.itemsOf a.1, a.2) := by
  obtain ⟨_, hg⟩ := r.gap_pastGap
  rw [outcome_before]
  cases hr : r.pastGap.left with
  | nil =>
    have hne : r.pastGap.left.head? ≠ some '(' := by
      rw [hr]
      exact (Option.some_ne_none '(').symm
    rw [Reading.unit_not_open hne, hr]
    rfl
  | cons c cs =>
    rw [hr] at hg
    by_cases ho : c = '('
    · subst ho
      rw [Reading.unit_open hr, outcome_start hg rfl, ← r.limits_pastGap]
      exact told_item .unit Reading.itemsOf hr hg
    · have hne : r.pastGap.left.head? ≠ some '(' := by
        rw [hr]
        intro h
        exact ho (Option.some.inj h)
      have hn : next r.limits .unit ⟨.before false, r.pastGap.marks⟩ c
          = .error ⟨.placed (.noUnit (some c)) r.pastGap.marks.place, r.pastGap.marks.table⟩ := by
        have hu : Whole.unit.opens c = false := decide_eq_false ho
        show beforeStep r.limits .unit false r.pastGap.marks c = _
        rw [beforeStep, gapGoesOn_eq_none.2 ⟨rfl, hg⟩, hu]
        rfl
      rw [Reading.unit_not_open hne, hr, outcome_cons, hn]
      rfl

/-- what the stages take for a unit is read as one -/
theorem exists_unit_of_outcome {lim : Limits} {table : SymbolTable} {text : String}
    {a : Value × SymbolTable} (h : outcome lim .unit (start table) text.toList = .ok a) :
    ∃ r, Reading.unit (Reader.ofText text table lim) = .ok (Reading.itemsOf a.1) r := by
  have ht : told (viewed (Reading.unit (Reader.ofText text table lim)))
      = (outcome lim .unit (start table) text.toList).map fun a => (Reading.itemsOf a.1, a.2) :=
    told_unit _
  rw [h] at ht
  cases hr : Reading.unit (Reader.ofText text table lim) with
  | ok b r =>
    rw [hr] at ht
    have hb : b = Reading.itemsOf a.1 := congrArg Prod.fst (Except.ok.inj ht)
    exact ⟨r, by rw [hb]⟩
  | error e r =>
    rw [hr] at ht
    cases ht

end Progress

/-! ## what one character can do -/

namespace SymbolTable

theorem Extends.refl (t : SymbolTable) : t.Extends t := ⟨rfl, List.prefix_refl _⟩

theorem Extends.trans {t t' t'' : SymbolTable} (h : t.Extends t') (h' : t'.Extends t'') :
    t.Extends t'' :=
  ⟨h'.id.trans h.id, h.names.trans h'.names⟩

theorem extends_intern (t : SymbolTable) (name : String) : t.Extends (t.intern name) := by
  obtain ⟨more, h⟩ := t.names_intern name
  exact ⟨t.id_intern name, more, h.symm⟩

theorem extends_internAll (t : SymbolTable) (names : List String) :
    t.Extends (t.internAll names) := by
  induction names generalizing t with
  | nil => exact .refl t
  | cons name names ih => exact (t.extends_intern name).trans (ih (t.intern name))

end SymbolTable

namespace ParseCause

/-- the error is the character's: it is the one found where another was needed -/
def Blames (c : Char) : ParseCause → Prop
  | .notAnExpression d => d = c
  | .invalidEscape d => d = c
  | .trailing d => d = c
  | .noUnit d => d = some c
  | _ => False

/-- the error is that the text ends -/
def endsText : ParseCause → Bool
  | .endBeforeExpression => true
  | .endInList => true
  | .endInString => true
  | .noUnit none => true
  | .expected _ none => true
  | _ => false

def IsEnd : ParseCause → Prop
  | .endBeforeExpression => True
  | .endInList => True
  | .endInString => True
  | .noUnit d => d = none
  | _ => False

theorem IsEnd.endsText {cause : ParseCause} (h : cause.IsEnd) : cause.endsText = true := by
  cases cause with
  | endBeforeExpression => rfl
  | endInList => rfl
  | endInString => rfl
  | noUnit d => cases h; rfl
  | _ => exact h.elim

theorem Blames.not_endsText {c : Char} {cause : ParseCause} (h : cause.Blames c) :
    cause.endsText = false := by
  cases cause with
  | noUnit d => cases h; rfl
  | notAnExpression d => rfl
  | invalidEscape d => rfl
  | trailing d => rfl
  | _ => exact h.elim

end ParseCause

/-- what a character at the place of `m` can do, in place, table and errors -/
inductive Step.Tells (m : Marks) (c : Char) : Step → Prop
  | more {p : Pending} {m' : Marks} (hp : m'.place = m.place.after c)
      (ht : m.table.Extends m'.table) :
      Tells m c (.more p m')
  | ended {v : Value} {m' : Marks} (hp : m'.place = m.place) (ht : m.table.Extends m'.table) :
      Tells m c (.ended v m')
  | closed {v : Value} {m' : Marks} (hp : m'.place = m.place.after c)
      (ht : m.table.Extends m'.table) :
      Tells m c (.closed v m')
  | tooDeep {m' : Marks} (hp : m'.place = m.place) (ht : m.table.Extends m'.table) :
      Tells m c (.refused (.tooDeep m.place) m')
  | notAnExpression {m' : Marks} (hp : m'.place = m.place) (ht : m.table.Extends m'.table) :
      Tells m c (.refused (.placed (.notAnExpression c) m.place) m')
  | integerRange {m' : Marks} (hp : m'.place = m.place.after c) (ht : m.table.Extends m'.table) :
      Tells m c (.spoilt (.placed .integerRange (m.place.after c)) m')
  | invalidEscape {m' : Marks} (hp : m'.place = m.place.after c) (ht : m.table.Extends m'.table) :
      Tells m c (.spoilt (.placed (.invalidEscape c) m.place) m')

section
variable {lim : Limits} {m : Marks} {c : Char}

/-- the end of a name or an integer changes the table at most -/
theorem Step.Tells.of_marks {m₁ : Marks} {s : Step} (h : Step.Tells m₁ c s)
    (hp : m₁.place = m.place) (ht : m.table.Extends m₁.table) : Step.Tells m c s := by
  cases h with
  | more hp' ht' => exact .more (hp ▸ hp') (ht.trans ht')
  | ended hp' ht' => exact .ended (hp'.trans hp) (ht.trans ht')
  | closed hp' ht' => exact .closed (hp ▸ hp') (ht.trans ht')
  | tooDeep hp' ht' => rw [hp]; exact .tooDeep (hp'.trans hp) (ht.trans ht')
  | notAnExpression hp' ht' => rw [hp]; exact .notAnExpression (hp'.trans hp) (ht.trans ht')
  | integerRange hp' ht' => rw [hp] at hp' ⊢; exact .integerRange hp' (ht.trans ht')
  | invalidEscape hp' ht' => rw [hp] at hp' ⊢; exact .invalidEscape hp' (ht.trans ht')

theorem tells_digitStep (opened : List (List Value)) (n : Nat) :
    Step.Tells m c (digitStep lim opened n m c) := by
  show Step.Tells m c (if Integer.fits lim.width (n * 10 + (c.toNat - '0'.toNat)) then _ else _)
  split
  · exact .more rfl (.refl _)
  · exact .integerRange rfl (.refl _)

theorem tells_closeStep (opened : List (List Value)) : Step.Tells m c (closeStep opened m c) := by
  cases opened with
  | nil => exact .notAnExpression rfl (.refl _)
  | cons items outer =>
    cases outer with
    | nil => exact .closed rfl (.refl _)
    | cons _ _ => exact .more rfl (.refl _)

theorem tells_gapStep (opened : List (List Value)) : Step.Tells m c (gapStep lim opened m c) := by
  unfold gapStep
  split
  · exact .more rfl (.refl _)
  split
  · exact .more rfl (.refl _)
  split
  · exact tells_closeStep opened
  split
  · split
    · exact .more rfl (.refl _)
    · exact .tooDeep rfl (.refl _)
  split
  · exact .more rfl (.refl _)
  split
  · exact .more rfl (.refl _)
  split
  · exact tells_digitStep opened 0
  · exact .notAnExpression rfl (.refl _)

theorem tells_itemStep (opened : List (List Value)) (v : Value) :
    Step.Tells m c (itemStep lim opened v m c) := by
  cases opened with
  | nil => exact .ended rfl (.refl _)
  | cons items outer => exact tells_gapStep _

theorem place_nameEnd (m : Marks) (taken : List Char) : (nameEnd m taken).2.place = m.place := by
  cases h : literalName? (String.ofList taken.reverse) with
  | none => simp only [nameEnd, h]; rfl
  | some v => simp only [nameEnd, h]

theorem extends_nameEnd (m : Marks) (taken : List Char) :
    m.table.Extends (nameEnd m taken).2.table := by
  rw [table_nameEnd]
  exact m.table.extends_internAll _

theorem tells_step (lim : Limits) (p : Pending) (m : Marks) (c : Char) :
    Step.Tells m c (step lim p m c) := by
  obtain ⟨opened, mode⟩ := p
  cases mode with
  | gap => exact tells_gapStep opened
  | comment => exact .more rfl (.refl _)
  | name taken =>
    show Step.Tells m c (if c.isLower then _ else _)
    split
    · exact .more rfl (.refl _)
    · exact (tells_itemStep opened _).of_marks (place_nameEnd m taken) (extends_nameEnd m taken)
  | number n =>
    show Step.Tells m c (if c.isDigit then _ else _)
    split
    · exact tells_digitStep opened n
    · exact (tells_itemStep opened _).of_marks rfl (.refl _)
  | text taken =>
    show Step.Tells m c (if c = '"' then textEnd opened taken m c else _)
    split
    · cases opened with
      | nil => exact .closed rfl (.refl _)
      | cons items outer => exact .more rfl (.refl _)
    split
    · exact .more rfl (.refl _)
    · exact .more rfl (.refl _)
  | escape taken =>
    unfold step
    cases Text.escapeMeaning? c with
    | some d => exact .more rfl (.refl _)
    | none => exact .invalidEscape rfl (.refl _)

end

namespace Progress

/-- a character that is refused at the place of `m`: which error it is, and the table that is
left -/
structure Refuses (m : Marks) (c : Char) (f : Refusal) : Prop where
  table : m.table.Extends f.table
  error : f.error = .tooDeep m.place ∨ f.error = .placed .integerRange (m.place.after c) ∨
    ∃ cause, ParseCause.Blames c cause ∧ f.error = .placed cause m.place

/-- a character that is taken at the place of `m` -/
structure Takes (m : Marks) (c : Char) (pr : Progress) : Prop where
  place : pr.marks.place = m.place.after c
  table : m.table.Extends pr.marks.table

/-- a character is taken or refused -/
def Answers (m : Marks) (c : Char) : Except Refusal Progress → Prop
  | .ok pr => Takes m c pr
  | .error f => Refuses m c f

section
variable {lim : Limits} {whole : Whole} {m : Marks} {c : Char}

theorem answers_afterStep (v : Value) (b : Bool) {m₁ : Marks} (hp : m₁.place = m.place)
    (ht : m.table.Extends m₁.table) : Answers m c (afterStep v b m₁ c) := by
  unfold afterStep
  cases gapGoesOn b c with
  | some b' => exact ⟨congrArg (Place.after · c) hp, ht⟩
  | none => exact ⟨ht, .inr (.inr ⟨.trailing c, rfl, by rw [hp]⟩)⟩

theorem answers_insideStep (p : Pending) : Answers m c (insideStep lim p m c) := by
  have ht := tells_step lim p m c
  unfold insideStep
  generalize step lim p m c = s at ht
  cases ht with
  | more hp ht => exact ⟨hp, ht⟩
  | ended hp ht => exact answers_afterStep _ false hp ht
  | closed hp ht => exact ⟨hp, ht⟩
  | tooDeep _ ht => exact ⟨ht, .inl rfl⟩
  | notAnExpression _ ht => exact ⟨ht, .inr (.inr ⟨.notAnExpression c, rfl, rfl⟩)⟩
  | integerRange _ ht => exact ⟨ht, .inr (.inl rfl)⟩
  | invalidEscape _ ht => exact ⟨ht, .inr (.inr ⟨.invalidEscape c, rfl, rfl⟩)⟩

theorem answers_next (lim : Limits) (whole : Whole) (pr : Progress) (c : Char) :
    Answers pr.marks c (next lim whole pr c) := by
  obtain ⟨stage, m⟩ := pr
  cases stage with
  | before b =>
    show Answers m c (beforeStep lim whole b m c)
    unfold beforeStep
    cases gapGoesOn b c with
    | some b' => exact ⟨rfl, .refl _⟩
    | none =>
      show Answers m c (if whole.opens c then _ else _)
      split
      · exact answers_insideStep _
      · exact ⟨.refl _, .inr (.inr ⟨.noUnit (some c), rfl, rfl⟩)⟩
  | inside p => exact answers_insideStep p
  | after v b => exact answers_afterStep v b rfl (.refl _)

theorem next_ok {pr pr' : Progress} (h : next lim whole pr c = .ok pr') : Takes pr.marks c pr' := by
  have ha := answers_next lim whole pr c
  rw [h] at ha
  exact ha

theorem next_error {pr : Progress} {f : Refusal} (h : next lim whole pr c = .error f) :
    Refuses pr.marks c f := by
  have ha := answers_next lim whole pr c
  rw [h] at ha
  exact ha

theorem place_run {pr pr' : Progress} {a : List Char} (h : run lim whole pr a = .ok pr') :
    pr'.marks.place = pr.marks.place.afterAll a := by
  induction a generalizing pr with
  | nil =>
    cases h
    rfl
  | cons c a ih =>
    rw [run_cons] at h
    cases hn : next lim whole pr c with
    | error f =>
      rw [hn] at h
      cases h
    | ok pr₁ =>
      rw [hn] at h
      rw [ih h, (next_ok hn).place]
      rfl

theorem extends_run {pr pr' : Progress} {a : List Char} (h : run lim whole pr a = .ok pr') :
    pr.marks.table.Extends pr'.marks.table := by
  induction a generalizing pr with
  | nil =>
    cases h
    exact .refl _
  | cons c a ih =>
    rw [run_cons] at h
    cases hn : next lim whole pr c with
    | error f =>
      rw [hn] at h
      cases h
    | ok pr₁ =>
      rw [hn] at h
      exact (next_ok hn).table.trans (ih h)

/-- the verdict at the end of a text that has been read up to `m` -/
def Ends (m : Marks) : Except Refusal (Value × SymbolTable) → Prop
  | .ok a => m.table.Extends a.2
  | .error f => m.table.Extends f.table ∧
    ∃ cause, ParseCause.IsEnd cause ∧ f.error = .placed cause m.place

theorem ends_itemAtEnd (opened : List (List Value)) (v : Value) {m₁ : Marks}
    (hp : m₁.place = m.place) (ht : m.table.Extends m₁.table) :
    Ends m (told (itemAtEnd lim opened v m₁)) := by
  cases opened with
  | nil => exact ht
  | cons items outer => exact ⟨ht, .endInList, trivial, by rw [hp]⟩

theorem ends_finish (lim : Limits) (whole : Whole) (pr : Progress) :
    Ends pr.marks (finish lim whole pr) := by
  obtain ⟨stage, m⟩ := pr
  cases stage with
  | before b =>
    refine ⟨.refl _, whole.endCause, ?_, rfl⟩
    cases whole with
    | expression => trivial
    | unit => rfl
  | inside p =>
    obtain ⟨opened, mode⟩ := p
    cases mode with
    | gap => exact ⟨.refl _, .endInList, trivial, rfl⟩
    | comment => exact ⟨.refl _, .endInList, trivial, rfl⟩
    | name taken => exact ends_itemAtEnd opened _ (place_nameEnd m taken) (extends_nameEnd m taken)
    | number n => exact ends_itemAtEnd opened _ rfl (.refl _)
    | text taken => exact ⟨.refl _, .endInString, trivial, rfl⟩
    | escape taken => exact ⟨.refl _, .endInString, trivial, rfl⟩
  | after v b => exact .refl m.table

theorem finish_ok {pr : Progress} {a : Value × SymbolTable} (h : finish lim whole pr = .ok a) :
    pr.marks.table.Extends a.2 := by
  have he := ends_finish lim whole pr
  rw [h] at he
  exact he

theorem finish_error {pr : Progress} {f : Refusal} (h : finish lim whole pr = .error f) :
    pr.marks.table.Extends f.table ∧
      ∃ cause, ParseCause.IsEnd cause ∧ f.error = .placed cause pr.marks.place := by
  have he := ends_finish lim whole pr
  rw [h] at he
  exact he

/-- a reading goes over a prefix and is refused at the next character, or over the whole text and
gets its verdict there -/
theorem outcome_cases (lim : Limits) (whole : Whole) (pr : Progress) (cs : List Char) :
    (∃ pr', run lim whole pr cs = .ok pr' ∧ outcome lim whole pr cs = finish lim whole pr') ∨
    ∃ a c b pr' f, cs = a ++ c :: b ∧ run lim whole pr a = .ok pr' ∧
      next lim whole pr' c = .error f ∧
      outcome lim whole pr cs = .error f := by
  cases h : run lim whole pr cs with
  | ok pr' => exact .inl ⟨pr', rfl, by rw [outcome, h]; rfl⟩
  | error f =>
    obtain ⟨a, c, b, pr', he, ha, hc⟩ := run_eq_error.1 h
    exact .inr ⟨a, c, b, pr', f, he, ha, hc, by rw [outcome, h]; rfl⟩

/-- a reading never fails because a certain text is missing -/
theorem outcome_not_expected {pr : Progress} {cs : List Char} {f : Refusal}
    (h : outcome lim whole pr cs = .error f) (wanted : String) (found : Option Char) :
    f.error.cause ≠ .expected wanted found := by
  intro he
  rcases outcome_cases lim whole pr cs with ⟨pr', _, ho⟩ | ⟨_, c, _, pr', g, _, _, hc, ho⟩
  · rw [h] at ho
    obtain ⟨_, cause, hend, hf⟩ := finish_error ho.symm
    rw [hf] at he
    cases he
    exact hend
  · rw [h] at ho
    cases ho
    rcases (next_error hc).error with hf | hf | ⟨cause, hb, hf⟩
    · rw [hf] at he
      cases he
    · rw [hf] at he
      cases he
    · rw [hf] at he
      cases he
      exact hb

/-- the table that a reading leaves, however it ends -/
def tableOf : Except Refusal (Value × SymbolTable) → SymbolTable
  | .ok a => a.2
  | .error f => f.table

theorem extends_outcome (lim : Limits) (whole : Whole) (pr : Progress) (cs : List Char) :
    pr.marks.table.Extends (tableOf (outcome lim whole pr cs)) := by
  rcases outcome_cases lim whole pr cs with ⟨pr', hr, ho⟩ | ⟨a, c, b, pr', f, _, hr, hc, ho⟩
  · rw [ho]
    cases hf : finish lim whole pr' with
    | ok x => exact (extends_run hr).trans (finish_ok hf)
    | error f => exact (extends_run hr).trans (finish_error hf).1
  · rw [ho]
    exact (extends_run hr).trans (next_error hc).table

end

end Progress

end Lisplet
