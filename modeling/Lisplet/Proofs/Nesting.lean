import Lisplet.Proofs.Lookahead

/-!
# Reading with wider limits

The nesting limit is looked at in one place only: where a list opens.  So a reader that admits more
lists at once does the same until the stricter one answers that lists are nested too deeply.

* `Limits.Within lim lim'`   the same width, and no less nesting;
* `Widens x y`               under wider limits `y` has the same answer as `x`, and leaves the same
                             reader apart from the limits, unless `x` answered that lists are nested
                             too deeply.

Most operations widen themselves.  The exception is reading a list when so many may be opened:
`widens_listWithin` compares it with reading one when more may be opened.  `Widens` goes through
sequences, so whole readings widen: `widens_expression`, `widens_unit`.
-/

namespace Lisplet

open Sequence

/-- the second limits admit whatever the first do -/
structure Limits.Within (lim lim' : Limits) : Prop where
  width : lim'.width = lim.width
  depth : lim.depth ≤ lim'.depth

/-- the reader with other limits -/
def Reader.under (lim : Limits) (r : Reader) : Reader := { r with limits := lim }

section
variable {α β : Type}

def answerUnder (lim : Limits) :
    EStateM.Result ParseError Reader α → EStateM.Result ParseError Reader α
  | .ok a r => .ok a (r.under lim)
  | .error e r => .error e (r.under lim)

/-- the reader that an answer leaves -/
def Reader.after : EStateM.Result ParseError Reader α → Reader
  | .ok _ r => r
  | .error _ r => r

/-- what an answer under limits `lim` says about the answer `answer'` under wider ones `lim'` -/
def Widened (lim lim' : Limits) (answer answer' : EStateM.Result ParseError Reader α) : Prop :=
  (∃ p r, answer = .error (.tooDeep p) r) ∨
    (Reader.after answer).limits = lim ∧ answer' = answerUnder lim' answer

def Widens (x y : Reading α) : Prop :=
  ∀ r lim', r.limits.Within lim' → Widened r.limits lim' (x r) (y (r.under lim'))

/-! ## sequences -/

theorem Widens.bind {x y : Reading α} {f g : α → Reading β} (hx : Widens x y)
    (hf : ∀ a, Widens (f a) (g a)) : Widens (x >>= f) (y >>= g) := by
  intro r lim' hl
  rcases hx r lim' hl with ⟨p, r₁, he⟩ | ⟨hlim, he⟩
  · exact .inl ⟨p, r₁, bind_of_error he⟩
  · cases hr : x r with
    | ok a r₁ =>
      rw [hr] at hlim he
      have hlim₁ : r₁.limits = r.limits := hlim
      rw [bind_of_ok hr, bind_of_ok he, ← hlim₁]
      exact hf a r₁ lim' (hlim₁ ▸ hl)
    | error e r₁ =>
      rw [hr] at hlim he
      rw [bind_of_error hr, bind_of_error he]
      exact .inr ⟨hlim, rfl⟩

theorem widens_get {f g : Reader → Reading β}
    (h : ∀ r lim', r.limits.Within lim' → Widens (f r) (g (r.under lim'))) :
    Widens (get >>= f) (get >>= g) :=
  fun r lim' hl => h r lim' hl r lim' hl

theorem widens_pure (a : α) : Widens (pure a : Reading α) (pure a) := fun _ _ _ => .inr ⟨rfl, rfl⟩

theorem widens_fail (cause : ParseCause) :
    Widens (Reading.fail cause : Reading α) (Reading.fail cause) :=
  fun _ _ _ => .inr ⟨rfl, rfl⟩

/-! ## characters -/

theorem widens_peek : Widens Reading.peek Reading.peek := by
  intro r lim' _
  rw [Reading.peek_eq, Reading.peek_eq]
  exact .inr ⟨rfl, rfl⟩

theorem widens_advance : Widens Reading.advance Reading.advance := by
  refine widens_peek.bind fun found => ?_
  intro r lim' _
  cases found with
  | none => exact .inr ⟨rfl, rfl⟩
  | some c => exact .inr ⟨rfl, rfl⟩

theorem widens_expect (c : Char) : Widens (Reading.expect c) (Reading.expect c) := by
  refine widens_peek.bind fun found => ?_
  split
  · exact widens_advance.bind fun _ => widens_pure ()
  · exact widens_fail _

theorem widens_takeOver (p : Char → Bool) (taken ahead : List Char) :
    Widens (Reading.takeOver p taken ahead) (Reading.takeOver p taken ahead) := by
  induction ahead generalizing taken with
  | nil => exact widens_pure _
  | cons _ ahead ih =>
    refine widens_peek.bind fun found => ?_
    cases found with
    | none => exact widens_pure _
    | some c =>
      show Widens (if p c then _ else _) (if p c then _ else _)
      split
      · exact widens_advance.bind fun _ => ih (c :: taken)
      · exact widens_pure _

theorem widens_takeWhile (p : Char → Bool) : Widens (Reading.takeWhile p) (Reading.takeWhile p) :=
  widens_get fun r _ _ => widens_takeOver p [] r.left

theorem widens_gapOver (ahead : List Char) :
    Widens (Reading.gapOver ahead) (Reading.gapOver ahead) := by
  induction ahead with
  | nil => exact widens_pure ()
  | cons _ ahead ih =>
    refine widens_peek.bind fun found => ?_
    cases found with
    | none => exact widens_pure ()
    | some c =>
      show Widens (if isGap c then _ else if c = ';' then _ else _)
        (if isGap c then _ else if c = ';' then _ else _)
      split
      · exact widens_advance.bind fun _ => ih
      split
      · exact (widens_takeWhile _).bind fun _ => ih
      · exact widens_pure ()

theorem widens_skipGap : Widens Reading.skipGap Reading.skipGap :=
  widens_get fun r _ _ => widens_gapOver r.left

/-! ## expressions -/

theorem widens_name : Widens Reading.name Reading.name := by
  refine (widens_takeWhile _).bind fun cs => ?_
  dsimp only
  split
  · exact widens_pure _
  · exact fun _ _ _ => .inr ⟨rfl, rfl⟩

theorem widens_escape : Widens Reading.escape Reading.escape := by
  refine widens_get fun r lim' _ => widens_advance.bind fun found => ?_
  cases found with
  | none => exact widens_fail _
  | some e =>
    dsimp only
    cases Text.escapeMeaning? e with
    | none => exact fun _ _ _ => .inr ⟨rfl, rfl⟩
    | some c => exact widens_pure c

theorem widens_stringOver (taken ahead : List Char) :
    Widens (Reading.stringOver taken ahead) (Reading.stringOver taken ahead) := by
  induction ahead generalizing taken with
  | nil => exact widens_fail _
  | cons _ ahead ih =>
    refine widens_advance.bind fun found => ?_
    cases found with
    | none => exact widens_fail _
    | some c =>
      show Widens (if c = '"' then _ else if c = '\\' then _ else _)
        (if c = '"' then _ else if c = '\\' then _ else _)
      split
      · exact widens_pure _
      split
      · exact widens_escape.bind fun d => ih (d :: taken)
      · exact ih (c :: taken)

theorem widens_string : Widens Reading.string Reading.string :=
  (widens_expect '"').bind fun _ => widens_get fun r _ _ => widens_stringOver [] r.left

theorem widens_counted (n : Nat) : Widens (Reading.counted n) (Reading.counted n) :=
  fun _ _ _ => .inr ⟨rfl, rfl⟩

/-- of the limits, an integer asks for the width -/
theorem widens_integerOver (value : Nat) (ahead : List Char) :
    Widens (Reading.integerOver value ahead) (Reading.integerOver value ahead) := by
  induction ahead generalizing value with
  | nil => exact widens_counted value
  | cons _ ahead ih =>
    refine widens_peek.bind fun found => ?_
    cases found with
    | none => exact widens_counted value
    | some c =>
      show Widens (if c.isDigit then _ else _) (if c.isDigit then _ else _)
      split
      · refine widens_advance.bind fun _ => widens_get fun r lim' hl => ?_
        have hw : (r.under lim').limits.width = r.limits.width := hl.width
        rw [hw]
        split
        · exact ih _
        · exact widens_fail _
      · exact widens_counted value

theorem widens_integer : Widens Reading.integer Reading.integer :=
  widens_get fun r _ _ => widens_integerOver 0 r.left

section
variable {x y : Reading Value}

theorem widens_itemBy (h : Widens x y) : Widens (Reading.itemBy x) (Reading.itemBy y) := by
  refine widens_peek.bind fun found => ?_
  cases found with
  | none => exact widens_fail _
  | some c =>
    show Widens (if c = '(' then x else if c = '"' then _ else if c.isLower then _
      else if c.isDigit then _ else _) (if c = '(' then y else if c = '"' then _
      else if c.isLower then _ else if c.isDigit then _ else _)
    split
    · exact h
    split
    · exact widens_string
    split
    · exact widens_name
    split
    · exact widens_integer
    · exact widens_fail _

theorem widens_itemsOver (h : Widens x y) (taken : List Value) (ahead : List Char) :
    Widens (Reading.itemsOver x taken ahead) (Reading.itemsOver y taken ahead) := by
  induction ahead generalizing taken with
  | nil => exact widens_fail _
  | cons _ ahead ih =>
    refine widens_peek.bind fun found => ?_
    split
    · exact widens_pure _
    split
    · exact widens_fail _
    · exact h.bind fun v => widens_skipGap.bind fun _ => ih (v :: taken)

theorem widens_listBy (h : Widens x y) : Widens (Reading.listBy x) (Reading.listBy y) :=
  (widens_expect '(').bind fun _ => widens_skipGap.bind fun _ => widens_get fun r _ _ =>
    (widens_itemsOver h [] r.left).bind fun _ => (widens_expect ')').bind fun _ => widens_pure _

end

theorem widens_listWithin {few many : Nat} (h : few ≤ many) :
    Widens (Reading.listWithin few) (Reading.listWithin many) := by
  induction few generalizing many with
  | zero => exact fun r _ _ => .inl ⟨r.place, r, rfl⟩
  | succ few ih =>
    obtain ⟨more, rfl⟩ : ∃ more, many = more + 1 := ⟨many - 1, by omega⟩
    exact widens_listBy (widens_itemBy (ih (Nat.le_of_succ_le_succ h)))

theorem widens_list : Widens Reading.list Reading.list :=
  widens_get fun _ _ hl => widens_listWithin hl.depth

/-! ## whole texts -/

theorem widens_finish : Widens Reading.finish Reading.finish := by
  refine widens_skipGap.bind fun _ => widens_peek.bind fun found => ?_
  cases found with
  | none => exact widens_pure _
  | some c => exact widens_fail _

theorem widens_expression : Widens Reading.expression Reading.expression :=
  widens_skipGap.bind fun _ => (widens_itemBy widens_list).bind fun v =>
    widens_finish.bind fun _ => widens_pure v

theorem widens_unit : Widens Reading.unit Reading.unit := by
  refine widens_skipGap.bind fun _ => widens_peek.bind fun found => ?_
  split
  · exact widens_list.bind fun v => widens_finish.bind fun _ => widens_pure _
  · exact widens_fail _

end

end Lisplet
