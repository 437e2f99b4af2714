import Mathlib
import Lisplet.Proofs.Viability
import Lisplet.Session

/-!
# Integers that are too great

An integer is read digit by digit, and a digit that makes it too great ends the reading.  That digit
is told from the text alone: the digits that stand before it have a value in range, and together
with it they have not (`Exceeds`).  The reader takes the digit before it looks at the value.  So the
error is reported at the place after the digit, which may be the end of the text, and never at the
digit itself.

The machine of `Stages` counts where a digit belongs to an integer, and forgets the count everywhere
else (`Stage.count?`).  What one character does to the count is said once, in `Carries` and
`Overflows`:

* `adds_next`        a character at any stage of a reading;
* `tallies_run`      after a prefix, the count is the value of the digits that the prefix ends with;
* `exceeds_of_next`  so the digit that is refused is the one at which the value leaves the range.
-/

namespace Lisplet

open Grammar
open Text (Place)

/-! ## the digits before a place -/

/-- the digits that a text ends with -/
def lastDigits (cs : List Char) : List Char := cs.rtakeWhile Char.isDigit

/-- the value of an integer after one more digit -/
def withDigit (n : Nat) (c : Char) : Nat := 10 * n + (c.toNat - '0'.toNat)

theorem lastDigits_concat_digit (cs : List Char) {c : Char} (hc : c.isDigit = true) :
    decimal (lastDigits (cs ++ [c])) = withDigit (decimal (lastDigits cs)) c := by
  rw [lastDigits, List.rtakeWhile_concat_pos _ _ _ hc, decimal, Nat.ofDigitChars_append,
    Nat.ofDigitChars_cons,
    Nat.ofDigitChars_nil]
  rfl

theorem lastDigits_concat_other (cs : List Char) {c : Char} (hc : c.isDigit = false) :
    decimal (lastDigits (cs ++ [c])) = 0 := by
  rw [lastDigits, List.rtakeWhile_concat_neg _ _ _ (by rw [hc]; exact Bool.false_ne_true)]
  rfl

/-- the digit at an offset makes an integer too great: the digits before it have a value of the
width, and with it they have not -/
structure Exceeds (width : Nat) (cs : List Char) (k : Nat) : Prop where
  numeral : ∃ c, cs[k]? = some c ∧ IsNumeral c
  before : (decimal (lastDigits (cs.take k)) : Int) ≤ Integer.greatest width
  exceeds : Integer.greatest width < decimal (lastDigits (cs.take (k + 1)))

/-! ## counting -/

/-- the value of the integer that the next digit goes on with; none where a digit belongs to no
integer -/
def Mode.count? : Mode → Option Nat
  | .gap => some 0
  | .name _ => some 0
  | .number n => some n
  | _ => none

def Stage.count? : Stage → Option Nat
  | .before false => some 0
  | .inside p => p.mode.count?
  | _ => none

/-- what a character makes of a count: a digit goes on with it and all else starts anew, unless
there is none then -/
def Carries (width : Nat) (count : Option Nat) (c : Char) (count' : Option Nat) : Prop :=
  ∀ n', count' = some n' →
    (c.isDigit = true ∧ ∃ n, count = some n ∧ n' = withDigit n c ∧ Integer.fits width n' = true) ∨
      (c.isDigit = false ∧ n' = 0)

/-- a digit with which the count leaves the range -/
def Overflows (width : Nat) (count : Option Nat) (c : Char) : Prop :=
  c.isDigit = true ∧ ∃ n, count = some n ∧ Integer.fits width (withDigit n c) = false

def Step.Adds (width : Nat) (count : Option Nat) (c : Char) : Step → Prop
  | .more p _ => Carries width count c p.mode.count?
  | .refused e _ => e.cause = .integerRange → Overflows width count c
  | .spoilt e _ => e.cause = .integerRange → Overflows width count c
  | _ => True

section
variable {width : Nat} {count : Option Nat} {c : Char}

theorem carries_none :
    Carries width count c none := fun _ h => absurd h.symm (Option.some_ne_none _)

theorem carries_zero (hc : c.isDigit = false) : Carries width count c (some 0) := by
  intro n' h
  cases h
  exact .inr ⟨hc, rfl⟩

/-- without a digit the count before does not matter -/
theorem Carries.of_not_digit {count₁ count' : Option Nat} (h : Carries width count₁ c count')
    (hc : c.isDigit = false) :
    Carries width count c count' := by
  intro n' hn'
  rcases h n' hn' with ⟨hd, _⟩ | hz
  · rw [hc] at hd
    cases hd
  · exact .inr hz

theorem Overflows.not_other (h : Overflows width count c) (hc : c.isDigit = false) : False := by
  have hd := h.1
  rw [hc] at hd
  cases hd

theorem Step.Adds.of_not_digit {count₁ : Option Nat} {s : Step} (h : Step.Adds width count₁ c s)
    (hc : c.isDigit = false) : Step.Adds width count c s := by
  cases s with
  | more p m => exact Carries.of_not_digit h hc
  | refused e m => exact fun he => ((h he).not_other hc).elim
  | spoilt e m => exact fun he => ((h he).not_other hc).elim
  | ended v m => trivial
  | closed v m => trivial

variable {lim : Limits} {m : Marks}

theorem adds_digitStep (opened : List (List Value)) (n : Nat) (hc : c.isDigit = true) :
    Step.Adds lim.width (some n) c (digitStep lim opened n m c) := by
  by_cases hf : Integer.fits lim.width (10 * n + (c.toNat - '0'.toNat)) = true
  · rw [digitStep_fits lim opened m hf]
    intro n' hn'
    cases hn'
    exact .inl ⟨hc, n, rfl, rfl, hf⟩
  · rw [digitStep_spoilt lim opened m hf]
    intro _
    exact ⟨hc, n, rfl, Bool.eq_false_iff.2 hf⟩

theorem adds_closeStep (opened : List (List Value)) (hc : c.isDigit = false) :
    Step.Adds width count c (closeStep opened m c) := by
  cases opened with
  | nil => exact ParseCause.noConfusion
  | cons items outer =>
    cases outer with
    | nil => trivial
    | cons _ _ => exact carries_zero hc

theorem adds_gapStep (opened : List (List Value)) :
    Step.Adds lim.width (some 0) c (gapStep lim opened m c) := by
  by_cases hc : c.isDigit = true
  · rw [gapStep_numeral lim opened m ((isDigit_iff c).1 hc)]
    exact adds_digitStep opened 0 hc
  · have hc' : c.isDigit = false := Bool.eq_false_iff.2 hc
    unfold gapStep
    split
    · exact carries_zero hc'
    split
    · exact carries_none
    split
    · exact adds_closeStep opened hc'
    split
    · split
      · exact carries_zero hc'
      · exact ParseCause.noConfusion
    split
    · exact carries_none
    split
    · exact carries_zero hc'
    · exact ParseCause.noConfusion

theorem adds_itemStep (opened : List (List Value)) (v : Value) :
    Step.Adds lim.width (some 0) c (itemStep lim opened v m c) := by
  cases opened with
  | nil => trivial
  | cons items outer => exact adds_gapStep _

theorem adds_step (lim : Limits) (p : Pending) (m : Marks) (c : Char) :
    Step.Adds lim.width p.mode.count? c (step lim p m c) := by
  obtain ⟨opened, mode⟩ := p
  cases mode with
  | gap => exact adds_gapStep opened
  | comment =>
    show Carries lim.width none c (Mode.count? (if c = '\n' then .gap else .comment))
    split
    · next hc => exact carries_zero (by rw [hc]; rfl)
    · exact carries_none
  | name taken =>
    show Step.Adds lim.width (some 0) c (if c.isLower then _ else _)
    split
    · next hl =>
      refine carries_zero (Bool.eq_false_iff.2 ?_)
      intro hd
      exact absurd (Char.le_trans ((isLower_iff c).1 hl).1 ((isDigit_iff c).1 hd).2) (by decide)
    · exact adds_itemStep opened _
  | number n =>
    show Step.Adds lim.width (some n) c (if c.isDigit then _ else _)
    split
    · next hd => exact adds_digitStep opened n hd
    · next hd => exact (adds_itemStep opened _).of_not_digit (Bool.eq_false_iff.2 hd)
  | text taken =>
    show Step.Adds lim.width none c (if c = '"' then textEnd opened taken m c else _)
    split
    · next hq =>
      cases opened with
      | nil => trivial
      | cons items outer => exact carries_zero (by rw [hq]; rfl)
    split
    · exact carries_none
    · exact carries_none
  | escape taken =>
    unfold step
    cases Text.escapeMeaning? c with
    | some d => exact carries_none
    | none => exact ParseCause.noConfusion

end

/-! ## whole texts -/

namespace Progress

def Adds (width : Nat) (count : Option Nat) (c : Char) : Except Refusal Progress → Prop
  | .ok pr => Carries width count c pr.stage.count?
  | .error f => f.error.cause = .integerRange → Overflows width count c

section
variable {lim : Limits} {whole : Whole} {c : Char}

theorem adds_afterStep (width : Nat) (count : Option Nat) (v : Value) (b : Bool) (m : Marks) :
    Adds width count c (afterStep v b m c) := by
  unfold afterStep
  split
  · exact carries_none
  · exact ParseCause.noConfusion

theorem adds_insideStep (p : Pending) (m : Marks) :
    Adds lim.width p.mode.count? c (insideStep lim p m c) := by
  have h := adds_step lim p m c
  unfold insideStep
  cases hs : step lim p m c with
  | more p' m' =>
    rw [hs] at h
    exact h
  | ended v m' => exact adds_afterStep _ _ v false m'
  | closed v m' => exact carries_none
  | refused e m' =>
    rw [hs] at h
    exact h
  | spoilt e m' =>
    rw [hs] at h
    exact h

/-- a gap that is in no comment ends with a blank -/
theorem not_digit_of_gapGoesOn {b : Bool} (h : gapGoesOn b c = some false) : c.isDigit = false := by
  unfold gapGoesOn at h
  split at h
  · have hc : c = '\n' := by simpa using h
    rw [hc]
    rfl
  split at h
  · next hg =>
    rcases (isGap_iff c).1 hg with rfl | rfl | rfl | rfl <;> rfl
  split at h
  · cases h
  · cases h

theorem adds_beforeStep (b : Bool) (m : Marks) :
    Adds lim.width (Stage.before b).count? c (beforeStep lim whole b m c) := by
  unfold beforeStep
  cases hg : gapGoesOn b c with
  | some b' =>
    show Carries lim.width _ c (Stage.before b').count?
    cases b' with
    | true => exact carries_none
    | false => exact carries_zero (not_digit_of_gapGoesOn hg)
  | none =>
    obtain ⟨rfl, _⟩ := gapGoesOn_eq_none.1 hg
    show Adds lim.width (some 0) c (if whole.opens c then _ else _)
    split
    · exact adds_insideStep ⟨[], .gap⟩ m
    · exact ParseCause.noConfusion

theorem adds_next (lim : Limits) (whole : Whole) (pr : Progress) (c : Char) :
    Adds lim.width pr.stage.count? c (next lim whole pr c) := by
  obtain ⟨stage, m⟩ := pr
  cases stage with
  | before b => exact adds_beforeStep b m
  | inside p => exact adds_insideStep p m
  | after v b => exact adds_afterStep _ _ v b m

/-- the count after the text `done` is the value of the digits at its end, and in range -/
def Tallies (width : Nat) (done : List Char) (pr : Progress) : Prop :=
  ∀ n, pr.stage.count? = some n → decimal (lastDigits done) = n ∧ Integer.fits width n = true

theorem tallies_start (width : Nat) (table : SymbolTable) : Tallies width [] (start table) := by
  intro n hn
  cases hn
  exact ⟨rfl, rfl⟩

theorem tallies_next {done : List Char} {pr pr' : Progress} (h : Tallies lim.width done pr)
    (hn : next lim whole pr c = .ok pr') : Tallies lim.width (done ++ [c]) pr' := by
  have ha := adds_next lim whole pr c
  rw [hn] at ha
  intro n' hn'
  rcases ha n' hn' with ⟨hc, n, hcount, rfl, hf⟩ | ⟨hc, rfl⟩
  · obtain ⟨hd, _⟩ := h n hcount
    rw [lastDigits_concat_digit done hc, hd]
    exact ⟨rfl, hf⟩
  · rw [lastDigits_concat_other done hc]
    exact ⟨rfl, rfl⟩

theorem tallies_run {done cs : List Char} {pr pr' : Progress} (h : Tallies lim.width done pr)
    (hr : run lim whole pr cs = .ok pr') : Tallies lim.width (done ++ cs) pr' := by
  induction cs generalizing done pr with
  | nil =>
    cases hr
    rw [List.append_nil]
    exact h
  | cons c cs ih =>
    rw [run_cons] at hr
    cases hn : next lim whole pr c with
    | error f =>
      rw [hn] at hr
      cases hr
    | ok pr₁ =>
      rw [hn] at hr
      have hall := ih (tallies_next h hn) hr
      rw [List.append_assoc] at hall
      exact hall

theorem overflows_of_next {pr : Progress} {f : Refusal} (hn : next lim whole pr c = .error f)
    (hf : f.error.cause = .integerRange) : Overflows lim.width pr.stage.count? c := by
  have ha := adds_next lim whole pr c
  rw [hn] at ha
  exact ha hf

/-- a digit that is refused as one too many, after the text `a` -/
theorem exceeds_of_next {table : SymbolTable} {a b : List Char} {pr : Progress} {f : Refusal}
    (hr : run lim whole (start table) a = .ok pr) (hn : next lim whole pr c = .error f)
    (hf : f.error.cause = .integerRange) : Exceeds lim.width (a ++ c :: b) a.length := by
  obtain ⟨hc, n, hcount, hover⟩ := overflows_of_next hn hf
  obtain ⟨hd, hfits⟩ := tallies_run (tallies_start lim.width table) hr n hcount
  rw [List.nil_append] at hd
  have htake : (a ++ c :: b).take a.length = a := List.take_left
  have htake' : (a ++ c :: b).take (a.length + 1) = a ++ [c] := List.take_length_add_append ..
  have hat : (a ++ c :: b)[a.length]? = some c := by
    rw [List.getElem?_append_right (Nat.le_refl _), Nat.sub_self]
    rfl
  refine ⟨⟨c, hat, (isDigit_iff c).1 hc⟩, ?_, ?_⟩
  · rw [htake, hd, ← Integer.fits_iff]
    exact hfits
  · rw [htake', lastDigits_concat_digit a hc, hd, ← Int.not_le, ← Integer.fits_iff, hover]
    exact Bool.false_ne_true

/-- the digit has been taken when its error is reported -/
theorem error_of_next {pr : Progress} {f : Refusal} (hn : next lim whole pr c = .error f)
    (hf : f.error.cause = .integerRange) :
    f.error = .placed .integerRange (pr.marks.place.after c) := by
  rcases (next_error hn).error with hdeep | hrange | ⟨cause, hblames, hplaced⟩
  · rw [hdeep] at hf
    cases hf
  · exact hrange
  · rw [hplaced] at hf
    have hcause : cause = .integerRange := hf
    rw [hcause] at hblames
    exact hblames.elim

/-- an integer is too great because of a digit, never because of the end of a text -/
theorem exists_refused_digit {table : SymbolTable} {cs : List Char} {f : Refusal}
    (ho : outcome lim whole (start table) cs = .error f) (hf : f.error.cause = .integerRange) :
    ∃ a c b pr, cs = a ++ c :: b ∧ run lim whole (start table) a = .ok pr ∧
      next lim whole pr c = .error f := by
  rcases outcome_cases lim whole (start table) cs
    with ⟨pr, _, hfinish⟩ | ⟨a, c, b, pr, g, hs, hrun, hc, hg⟩
  · rw [ho] at hfinish
    obtain ⟨_, cause, hend, hplaced⟩ := finish_error hfinish.symm
    rw [hplaced] at hf
    have hcause : cause = .integerRange := hf
    rw [hcause] at hend
    exact hend.elim
  · rw [ho] at hg
    cases hg
    exact ⟨a, c, b, pr, hs, hrun, hc⟩

end

end Progress

section
variable {α : Type} (reads : String → EStateM.Result ParseError Reader α) (width : Nat)

/-- the digit at an offset spoils a text, and the error is reported one column further -/
structure SpoiltAt (text : String) (e : ParseError) (k : Nat) : Prop where
  exceeds : Exceeds width text.toList k
  /-- what stands before the digit can be completed to a text that is accepted -/
  continues : Continues reads (text.toList.take k)
  /-- no text that goes on with the digit is accepted: they all have this error -/
  spoils : ∀ text' : String, text.toList.take (k + 1) <+: text'.toList → Rejects reads text' e
  place : e.place = ⟨(Text.placeOf text.toList k).line, (Text.placeOf text.toList k).column + 1⟩

def ReportsPastDigit : Prop :=
  ∀ text e, Rejects reads text e → e.cause = .integerRange → ∃ k, SpoiltAt reads width text e k

end

/-- a digit does not end a row -/
theorem place_after_digit {c : Char} (hc : IsNumeral c) (p : Place) :
    p.after c = ⟨p.line, p.column + 1⟩ := by
  have hne : c ≠ '\n' := by
    intro h
    rw [h] at hc
    exact absurd hc (by decide)
  exact if_neg hne

theorem Progress.Follows.spoiltAt {α : Type} {reads : String → EStateM.Result ParseError Reader α}
    {lim : Limits} {whole : Whole} {table : SymbolTable} {f : Value → α}
    (h : Follows reads lim whole table f) (hd : 0 < lim.depth) {text : String} {e : ParseError}
    (hr : Rejects reads text e) (he : e.cause = .integerRange) :
    ∃ k, SpoiltAt reads lim.width text e k := by
  obtain ⟨t, ho⟩ := (h.rejects_iff text e).1 hr
  obtain ⟨a, c, b, pr, hs, hrun, hc⟩ := exists_refused_digit ho he
  have htake : text.toList.take a.length = a := by
    rw [hs]
    exact List.take_left
  have htake' : text.toList.take (a.length + 1) = a ++ [c] := by
    rw [hs]
    exact List.take_length_add_append ..
  refine ⟨a.length, ?_, ?_, ?_, ?_⟩
  · rw [hs]
    exact exceeds_of_next hrun hc he
  · rw [htake]
    exact h.continues hd hrun
  · intro text' hpre
    rw [htake'] at hpre
    obtain ⟨b', hb'⟩ := hpre
    rw [h.rejects_iff, ← hb', List.append_assoc]
    exact ⟨t, outcome_of_refused hrun hc b'⟩
  · have hnumeral : IsNumeral c := (isDigit_iff c).1 (overflows_of_next hc he).1
    have hplace : pr.marks.place = Text.placeOf text.toList a.length := by
      rw [place_run hrun, Text.placeOf_eq (by rw [hs, List.length_append]; omega), htake]
      rfl
    have herror : e = .placed .integerRange (pr.marks.place.after c) := error_of_next hc he
    rw [herror, place_after_digit hnumeral, hplace]

/-- **An integer that is too great is reported one column after the digit that makes it so.** Both
readings, whatever the width of the integers, and whatever the number of lists that may be open, if
one may. -/
theorem overflow_reported_past_digit (table : SymbolTable) (width depth : Nat) :
    ReportsPastDigit
      (fun text => Reading.expression (Reader.ofText text table ⟨width, depth + 1⟩)) width ∧
      ReportsPastDigit (fun text => Reading.unit (Reader.ofText text table ⟨width, depth + 1⟩))
        width := by
  constructor
  · intro text e hr he
    exact (Progress.follows_expression table ⟨width, depth + 1⟩).spoiltAt (Nat.succ_pos _) hr he
  · intro text e hr he
    exact (Progress.follows_unit table ⟨width, depth + 1⟩).spoiltAt (Nat.succ_pos _) hr he

/-- with seven bits 63 is the greatest integer; zeros in front do not count -/
theorem overflow_after_zeros :
    let reads := fun text => Reading.unit (Reader.ofText text (SymbolTable.empty 0) ⟨7, 1⟩)
    Rejects reads "(a\n 0099)" (.placed .integerRange ⟨2, 6⟩) ∧
      ∃ k, SpoiltAt reads 7 "(a\n 0099)" (.placed .integerRange ⟨2, 6⟩) k := by
  have hr : Rejects (fun text => Reading.unit (Reader.ofText text (SymbolTable.empty 0) ⟨7, 1⟩))
      "(a\n 0099)" (.placed .integerRange ⟨2, 6⟩) :=
    ((Progress.follows_unit _ _).rejects_iff _ _).2 ⟨_, rfl⟩
  exact ⟨hr, (overflow_reported_past_digit (SymbolTable.empty 0) 7 0).2 _ _ hr rfl⟩

/-- the last digit of 2147483648 is the one too many; it stands in column 10, and the text ends
after it -/
theorem overflow_misplaced_at_end :
    Exceeds Integer.standardWidth "2147483648".toList 9 ∧
      Text.placeOf "2147483648".toList 9 = ⟨1, 10⟩ ∧
      ((Session.new true Session.standardLevels).parseExpression "2147483648").1
        = .error (.parse (.placed .integerRange ⟨1, 11⟩)) := by
  have hbefore : decimal (lastDigits ("2147483648".toList.take 9)) = 214748364 := by cbv
  have hwith : decimal (lastDigits ("2147483648".toList.take 10)) = 2147483648 := by cbv
  refine ⟨⟨⟨'8', by cbv, by decide⟩, ?_, ?_⟩, ?_, ?_⟩
  · rw [hbefore]
    decide
  · rw [hwith]
    decide
  · decide
  · have ho : ∀ t, Progress.outcome (.ofLevels Session.standardLevels) .expression (.start t)
        "2147483648".toList = .error ⟨.placed .integerRange ⟨1, 11⟩, t⟩ := by
      intro t
      rfl
    obtain ⟨r, hr⟩ := ((Progress.follows_expression
      (Session.new true Session.standardLevels).world.table _).rejects_iff _ _).2 ⟨_, ho _⟩
    exact congrArg Prod.fst (Session.run_error (Run.read_of_error (by decide) hr))

end Lisplet
