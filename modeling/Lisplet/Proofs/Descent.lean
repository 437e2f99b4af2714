import Lisplet.Proofs.Lookahead
import Lisplet.Proofs.Scanning

/-!
# The reader does what the automaton does

The reader calls itself for the items of a list, and its loops look ahead; the automaton has neither
calls nor lookahead.  Here it is shown that they do the same with every text: they read the same
value or fail with the same error, and leave the same text, place, table and log (`viewed_item`).

Where lists are open around what is read, the automaton goes on after it with the innermost of them
(`resumed`).  There is one equation for each of the reader's loops, by induction on the text that
the loop recurs on, and one for lists, by induction on how many may still be opened.
-/

namespace Lisplet

open Grammar Sequence
open Text (Place)

/-! ## answers -/

section
variable {α : Type}

/-- an answer, but for what the reader has in its buffer -/
def viewed : EStateM.Result ParseError Reader α → EStateM.Result ParseError Outlook α
  | .ok a r => .ok a r.outlook
  | .error e r => .error e r.outlook

/-- the reader that is left, whether or not an operation has failed -/
def readerOf : EStateM.Result ParseError Reader α → Reader
  | .ok _ r => r
  | .error _ r => r

theorem exists_of_viewed_ok {answer : EStateM.Result ParseError Reader α} {a : α} {o : Outlook}
    (h : viewed answer = .ok a o) : ∃ r, answer = .ok a r ∧ r.outlook = o := by
  cases answer with
  | ok b r =>
    cases h
    exact ⟨r, rfl, rfl⟩
  | error e r => cases h

theorem exists_of_viewed_error {answer : EStateM.Result ParseError Reader α} {e : ParseError}
    {o : Outlook} (h : viewed answer = .error e o) : ∃ r, answer = .error e r ∧ r.outlook = o := by
  cases answer with
  | ok b r => cases h
  | error e r =>
    cases h
    exact ⟨r, rfl, rfl⟩

end

/-- an expression has been read where lists are open: goes on after it as the automaton does -/
def resumed (lim : Limits) (opened : List (List Value)) :
    EStateM.Result ParseError Outlook Value → EStateM.Result ParseError Outlook Value
  | .ok v o => resume lim opened v o.marks o.rest
  | .error e o => .error e o

theorem resumed_nil {lim : Limits} {answer : EStateM.Result ParseError Reader Value}
    (h : ∀ v r, answer = .ok v r → r.limits = lim) :
    resumed lim [] (viewed answer) = viewed answer := by
  cases answer with
  | ok v r =>
    show EStateM.Result.ok v (⟨r.left, r.marks, lim⟩ : Outlook) = .ok v ⟨r.left, r.marks, r.limits⟩
    rw [h v r rfl]
  | error e r => rfl

/-- some characters further -/
def Marks.takingAll (m : Marks) (cs : List Char) : Marks := { m with place := m.place.afterAll cs }

/-! ## characters of a class -/

theorem viewed_takeOver (p : Char → Bool) (taken ahead : List Char) (r : Reader)
    (h : r.left.length ≤ ahead.length) :
    viewed (Reading.takeOver p taken ahead r) = .ok (taken.reverse ++ r.left.takeWhile p)
      ⟨r.left.dropWhile p, r.marks.takingAll (r.left.takeWhile p), r.limits⟩ := by
  induction ahead generalizing taken r with
  | nil =>
    have hr : r.left = [] := List.length_eq_zero_iff.1 (Nat.le_zero.1 h)
    show EStateM.Result.ok taken.reverse (⟨r.left, r.marks, r.limits⟩ : Outlook) = _
    rw [hr, List.takeWhile_nil, List.append_nil]
    rfl
  | cons d ahead ih =>
    rw [Reading.takeOver, bind_of_ok (Reading.peek_eq r)]
    cases hr : r.left with
    | nil =>
      show EStateM.Result.ok taken.reverse (⟨r.looked.left, r.marks, r.limits⟩ : Outlook) = _
      rw [Reader.left_looked, hr, List.takeWhile_nil, List.append_nil]
      rfl
    | cons c cs =>
      show viewed ((if p c then _ else _ : Reading _) r.looked) = _
      by_cases hc : p c = true
      · rw [if_pos hc, bind_of_ok (Reading.advance_eq _), Reader.advanced_looked,
          Reader.advanced_of_cons hr]
        rw [hr, List.length_cons, List.length_cons] at h
        have hstep := ih (c :: taken) ⟨none, cs, r.marks.taking c, r.limits⟩
          (Nat.le_of_succ_le_succ h)
        rw [hstep, List.takeWhile_cons_of_pos hc, List.dropWhile_cons_of_pos hc, List.reverse_cons,
          List.append_assoc]
        rfl
      · rw [if_neg hc, List.takeWhile_cons_of_neg hc, List.dropWhile_cons_of_neg hc,
          List.append_nil]
        show EStateM.Result.ok taken.reverse (⟨r.looked.left, r.marks, r.limits⟩ : Outlook) = _
        rw [Reader.left_looked, hr]
        rfl

theorem viewed_takeWhile (p : Char → Bool) (r : Reader) :
    viewed (Reading.takeWhile p r) = .ok (r.left.takeWhile p)
      ⟨r.left.dropWhile p, r.marks.takingAll (r.left.takeWhile p), r.limits⟩ :=
  viewed_takeOver p [] r.left r (Nat.le_refl _)

/-! ## gaps -/

/-- what is left after a gap, and the place there; the gap may start in a comment -/
def afterGap (inComment : Bool) (p : Place) : List Char → List Char × Place
  | [] => ([], p)
  | c :: cs =>
    if inComment then afterGap (c ≠ '\n') (p.after c) cs
    else if isGap c then afterGap false (p.after c) cs
    else if c = ';' then afterGap true (p.after c) cs
    else (c :: cs, p)

/-- a comment ends before its line does -/
theorem afterGap_comment (p : Place) (cs : List Char) :
    afterGap true p cs = afterGap false (p.afterAll (cs.takeWhile fun d => d ≠ '\n'))
      (cs.dropWhile fun d => d ≠ '\n') := by
  induction cs generalizing p with
  | nil => rfl
  | cons c cs ih =>
    rw [afterGap, if_pos rfl]
    by_cases hc : c = '\n'
    · subst hc
      rfl
    · rw [List.takeWhile_cons_of_pos (by simpa using hc),
        List.dropWhile_cons_of_pos (by simpa using hc),
        decide_eq_true hc, ih]
      rfl

theorem stops_afterGap (inComment : Bool) (p : Place) (cs : List Char) :
    Stops OpensGap (afterGap inComment p cs).1 := by
  induction cs generalizing inComment p with
  | nil => trivial
  | cons c cs ih =>
    rw [afterGap]
    split
    · exact ih _ _
    split
    · exact ih _ _
    split
    · exact ih _ _
    · rename_i hg hs
      intro ho
      rcases ho with hb | hc
      · exact hg ((isGap_iff c).2 hb)
      · exact hs hc

/-- a comment is passed as a whole, and what is a gap after it was one with it -/
theorem exists_pastComment {r : Reader} {cs : List Char} (hr : r.left = ';' :: cs) :
    ∃ r₁, Reading.takeWhile (fun d => d ≠ '\n') r = .ok (r.left.takeWhile fun d => d ≠ '\n') r₁ ∧
      r₁.left.length ≤ cs.length ∧
      (∀ p, { r₁.marks with place := p } = { r.marks with place := p }) ∧
      r₁.limits = r.limits ∧ afterGap false r.place r.left = afterGap false r₁.place r₁.left := by
  obtain ⟨r₁, he, ho⟩ := exists_of_viewed_ok (viewed_takeWhile (fun d => d ≠ '\n') r)
  injection ho with hrest hmarks hlimits
  have hrest' : r₁.left = cs.dropWhile fun d => d ≠ '\n' := by
    rw [hrest, hr]
    rfl
  have hplace : r₁.place = (r.place.after ';').afterAll (cs.takeWhile fun d => d ≠ '\n') := by
    show r₁.marks.place = _
    rw [hmarks, hr]
    rfl
  refine ⟨r₁, he, ?_, ?_, hlimits, ?_⟩
  · rw [hrest']
    exact (List.dropWhile_suffix _).length_le
  · intro p
    rw [hmarks]
    rfl
  · rw [hr, hrest', hplace, ← afterGap_comment]
    rfl

theorem viewed_gapOver (ahead : List Char) (r : Reader) (h : r.left.length ≤ ahead.length) :
    viewed (Reading.gapOver ahead r) = .ok () ⟨(afterGap false r.place r.left).1,
      { r.marks with place := (afterGap false r.place r.left).2 }, r.limits⟩ := by
  induction ahead generalizing r with
  | nil =>
    have hr : r.left = [] := List.length_eq_zero_iff.1 (Nat.le_zero.1 h)
    show EStateM.Result.ok () (⟨r.left, r.marks, r.limits⟩ : Outlook) = _
    rw [hr]
    rfl
  | cons d ahead ih =>
    rw [Reading.gapOver, bind_of_ok (Reading.peek_eq r)]
    cases hr : r.left with
    | nil =>
      show EStateM.Result.ok () (⟨r.looked.left, r.marks, r.limits⟩ : Outlook) = _
      rw [Reader.left_looked, hr]
      rfl
    | cons c cs =>
      rw [hr, List.length_cons, List.length_cons] at h
      show viewed ((if isGap c then _ else if c = ';' then _ else _ : Reading _) r.looked) = _
      by_cases hg : isGap c = true
      · rw [if_pos hg, bind_of_ok (Reading.advance_eq _), Reader.advanced_looked,
          Reader.advanced_of_cons hr]
        have hstep := ih ⟨none, cs, r.marks.taking c, r.limits⟩ (Nat.le_of_succ_le_succ h)
        have hgap : afterGap false r.place (c :: cs) = afterGap false (r.place.after c) cs := by
          rw [afterGap, if_neg Bool.false_ne_true, if_pos hg]
        rw [hstep, hgap]
        rfl
      by_cases hs : c = ';'
      · subst hs
        have hlooked : r.looked.left = ';' :: cs := by rw [Reader.left_looked, hr]
        obtain ⟨r₁, he, hlen, hmarks, hlimits, hgap⟩ := exists_pastComment hlooked
        rw [hlooked] at hgap
        rw [if_neg hg, if_pos rfl, bind_of_ok he, ih r₁ (hlen.trans (Nat.le_of_succ_le_succ h)),
          hlimits, ← hgap, hmarks]
        rfl
      · rw [if_neg hg, if_neg hs]
        have hgap : afterGap false r.place (c :: cs) = (c :: cs, r.place) := by
          rw [afterGap, if_neg Bool.false_ne_true, if_neg hg, if_neg hs]
        show EStateM.Result.ok () (⟨r.looked.left, r.marks, r.limits⟩ : Outlook) = _
        rw [Reader.left_looked, hr, hgap]
        rfl

namespace Reader

/-- the reader after a gap, which may be empty -/
def pastGap (r : Reader) : Reader := readerOf (Reading.skipGap r)

end Reader

theorem Reading.skipGap_eq (r : Reader) : Reading.skipGap r = .ok () r.pastGap := by
  obtain ⟨r', he, _⟩ := exists_of_viewed_ok (viewed_gapOver r.left r (Nat.le_refl _))
  have hs : Reading.skipGap r = .ok () r' := he
  rw [Reader.pastGap, hs]
  rfl

namespace Reader

variable (r : Reader)

theorem outlook_pastGap : r.pastGap.outlook = ⟨(afterGap false r.place r.left).1,
    { r.marks with place := (afterGap false r.place r.left).2 }, r.limits⟩ := by
  have h := viewed_gapOver r.left r (Nat.le_refl _)
  have hs : Reading.gapOver r.left r = .ok () r.pastGap := Reading.skipGap_eq r
  rw [hs] at h
  injection h

theorem left_pastGap : r.pastGap.left = (afterGap false r.place r.left).1 :=
  congrArg Outlook.rest r.outlook_pastGap

theorem marks_pastGap :
    r.pastGap.marks = { r.marks with place := (afterGap false r.place r.left).2 } :=
  congrArg Outlook.marks r.outlook_pastGap

@[simp] theorem limits_pastGap :
    r.pastGap.limits = r.limits := congrArg Outlook.limits r.outlook_pastGap

end Reader

/-! ## the automaton over characters of a class -/

section
variable (lim : Limits) (opened : List (List Value)) (m : Marks)

theorem scan_afterGap (inComment : Bool) (cs : List Char) :
    scan lim ⟨opened, if inComment then .comment else .gap⟩ m cs
      = scan lim ⟨opened, .gap⟩ { m with place := (afterGap inComment m.place cs).2 }
        (afterGap inComment m.place cs).1 := by
  induction cs generalizing inComment m with
  | nil => cases inComment <;> rfl
  | cons c cs ih =>
    cases inComment with
    | true =>
      have hs : step lim ⟨opened, .comment⟩ m c
          = .more ⟨opened, if decide (c ≠ '\n') then .comment else .gap⟩ (m.taking c) := by
        by_cases hc : c = '\n' <;> simp [step, hc]
      rw [afterGap, if_pos rfl, if_pos rfl, scan_cons_of_more hs, ih]
      rfl
    | false =>
      rw [if_neg Bool.false_ne_true, afterGap, if_neg Bool.false_ne_true]
      by_cases hg : isGap c = true
      · have hs : step lim ⟨opened, .gap⟩ m c = .more ⟨opened, .gap⟩ (m.taking c) := by
          simp [step, gapStep, hg]
        rw [if_pos hg, scan_cons_of_more hs]
        exact ih (m.taking c) false
      by_cases hc : c = ';'
      · have hs : step lim ⟨opened, .gap⟩ m c = .more ⟨opened, .comment⟩ (m.taking c) := by
          simp [step, gapStep, hc, isGap]
        rw [if_neg hg, if_pos hc, scan_cons_of_more hs]
        exact ih (m.taking c) true
      · rw [if_neg hg, if_neg hc]

theorem scan_pastGap (r : Reader) :
    scan lim ⟨opened, .gap⟩ r.marks r.left
      = scan lim ⟨opened, .gap⟩ r.pastGap.marks r.pastGap.left := by
  rw [r.left_pastGap, r.marks_pastGap]
  exact scan_afterGap lim opened r.marks false r.left

theorem scan_nameRun (taken cs : List Char) :
    scan lim ⟨opened, .name taken⟩ m cs
      = resume lim opened
        (nameEnd (m.takingAll (cs.takeWhile Char.isLower))
          ((cs.takeWhile Char.isLower).reverse ++ taken)).1
        (nameEnd (m.takingAll (cs.takeWhile Char.isLower))
          ((cs.takeWhile Char.isLower).reverse ++ taken)).2
        (cs.dropWhile Char.isLower) := by
  induction cs generalizing m taken with
  | nil => exact scan_nameEnd lim opened m (show Stops IsLetter [] from trivial) taken
  | cons c cs ih =>
    by_cases hc : c.isLower = true
    · have hs : step lim ⟨opened, .name taken⟩ m c
          = .more ⟨opened, .name (c :: taken)⟩ (m.taking c) := by
        simp [step, hc]
      rw [scan_cons_of_more hs, ih, List.takeWhile_cons_of_pos hc, List.dropWhile_cons_of_pos hc,
        List.reverse_cons, List.append_assoc]
      rfl
    · rw [List.takeWhile_cons_of_neg hc, List.dropWhile_cons_of_neg hc]
      have hs : Stops IsLetter (c :: cs) := fun hl => hc ((isLower_iff c).2 hl)
      exact scan_nameEnd lim opened m hs taken

end

/-! ## names, strings and integers -/

section
variable (opened : List (List Value))

theorem viewed_name (r : Reader) :
    viewed (Reading.name r) = .ok
      (nameEnd (r.marks.takingAll (r.left.takeWhile Char.isLower))
        (r.left.takeWhile Char.isLower).reverse).1
      ⟨r.left.dropWhile Char.isLower,
        (nameEnd (r.marks.takingAll (r.left.takeWhile Char.isLower))
          (r.left.takeWhile Char.isLower).reverse).2,
        r.limits⟩ := by
  obtain ⟨r₁, he, ho⟩ := exists_of_viewed_ok (viewed_takeWhile Char.isLower r)
  rw [Reading.name, bind_of_ok he]
  injection ho with hrest hmarks hlimits
  rw [← hmarks, ← hrest, ← hlimits, nameEnd, List.reverse_reverse]
  cases literalName? (String.ofList (r.left.takeWhile Char.isLower)) with
  | some v => rfl
  | none => rfl

theorem scan_eq_name (r : Reader) :
    scan r.limits ⟨opened, .name []⟩ r.marks r.left
      = resumed r.limits opened (viewed (Reading.name r)) := by
  rw [viewed_name, scan_nameRun, List.append_nil]
  rfl

theorem Reading.escape_of_some {r : Reader} {e d : Char} {cs : List Char} (hr : r.left = e :: cs)
    (hm : Text.escapeMeaning? e = some d) :
    Reading.escape r = .ok d ⟨none, cs, r.marks.taking e, r.limits⟩ := by
  show (Reading.advance >>= _) r = _
  rw [bind_of_ok (Reading.advance_eq r), Reader.advanced_of_cons hr, hr]
  simp only [List.head?_cons, hm]
  rfl

/-- a wrong escape is taken, and reported where it stands -/
theorem Reading.escape_of_none {r : Reader} {e : Char} {cs : List Char} (hr : r.left = e :: cs)
    (hm : Text.escapeMeaning? e = none) :
    Reading.escape r
      = .error (.placed (.invalidEscape e) r.place) ⟨none, cs, r.marks.taking e, r.limits⟩ := by
  show (Reading.advance >>= _) r = _
  rw [bind_of_ok (Reading.advance_eq r), Reader.advanced_of_cons hr, hr]
  simp only [List.head?_cons, hm]
  rfl

theorem step_escape_of_some {lim : Limits} {taken : List Char} {m : Marks} {e d : Char}
    (hm : Text.escapeMeaning? e = some d) :
    step lim ⟨opened, .escape taken⟩ m e = .more ⟨opened, .text (d :: taken)⟩ (m.taking e) := by
  simp [step, hm]

theorem step_escape_of_none {lim : Limits} {taken : List Char} {m : Marks} {e : Char}
    (hm : Text.escapeMeaning? e = none) :
    step lim ⟨opened, .escape taken⟩ m e
      = .spoilt (.placed (.invalidEscape e) m.place) (m.taking e) := by
  simp [step, hm]

theorem scan_eq_stringOver (taken ahead : List Char) (r : Reader)
    (h : r.left.length ≤ ahead.length) :
    scan r.limits ⟨opened, .text taken⟩ r.marks r.left
      = resumed r.limits opened (viewed (Reading.stringOver taken ahead r)) := by
  induction ahead generalizing taken r with
  | nil =>
    have hr : r.left = [] := List.length_eq_zero_iff.1 (Nat.le_zero.1 h)
    show _ = EStateM.Result.error _ (⟨r.left, r.marks, r.limits⟩ : Outlook)
    rw [hr]
    rfl
  | cons d ahead ih =>
    rw [Reading.stringOver, bind_of_ok (Reading.advance_eq r)]
    cases hr : r.left with
    | nil =>
      rw [Reader.advanced_of_nil hr]
      show _ = EStateM.Result.error _ (⟨r.left, r.marks, r.limits⟩ : Outlook)
      rw [hr]
      rfl
    | cons c cs =>
      rw [hr, List.length_cons, List.length_cons] at h
      rw [Reader.advanced_of_cons hr]
      show _ = resumed _ _
          (viewed ((if c = '"' then _ else if c = '\\' then _ else _ : Reading _) _))
      by_cases hq : c = '"'
      · rw [if_pos hq, hq, scan_quoteEnd]
        rfl
      by_cases hb : c = '\\'
      · -- the escape is a second character
        rw [if_neg hq, if_pos hb, hb]
        have hs : step r.limits ⟨opened, .text taken⟩ r.marks '\\'
            = .more ⟨opened, .escape taken⟩ (r.marks.taking '\\') := rfl
        rw [scan_cons_of_more hs]
        cases cs with
        | nil => rfl
        | cons e cs =>
          cases hm : Text.escapeMeaning? e with
          | none =>
            have hesc := Reading.escape_of_none
              (r := ⟨none, e :: cs, r.marks.taking '\\', r.limits⟩) rfl hm
            rw [bind_of_error hesc, scan, step_escape_of_none opened hm]
            rfl
          | some d =>
            have hesc := Reading.escape_of_some
              (r := ⟨none, e :: cs, r.marks.taking '\\', r.limits⟩) rfl hm
            rw [bind_of_ok hesc, scan_cons_of_more (step_escape_of_some opened hm)]
            rw [List.length_cons] at h
            exact ih (d :: taken) ⟨none, cs, (r.marks.taking '\\').taking e, r.limits⟩
              (show cs.length ≤ ahead.length by omega)
      · rw [if_neg hq, if_neg hb]
        have hs : step r.limits ⟨opened, .text taken⟩ r.marks c
            = .more ⟨opened, .text (c :: taken)⟩ (r.marks.taking c) := by
          simp [step, hq, hb]
        rw [scan_cons_of_more hs]
        exact ih (c :: taken) ⟨none, cs, r.marks.taking c, r.limits⟩ (Nat.le_of_succ_le_succ h)

theorem scan_eq_string (r : Reader) (h : r.left.head? = some '"') :
    scan r.limits ⟨opened, .gap⟩ r.marks r.left
      = resumed r.limits opened (viewed (Reading.string r)) := by
  obtain ⟨cs, hr⟩ := List.head?_eq_some_iff.1 h
  have hstring : Reading.string r
      = Reading.stringOver [] cs ⟨none, cs, r.marks.taking '"', r.limits⟩ := by
    rw [Reading.string, bind_of_ok (Reading.expect_of_head h), Reader.advanced_of_cons hr]
    rfl
  have hstep : step r.limits ⟨opened, .gap⟩ r.marks '"'
      = .more ⟨opened, .text []⟩ (r.marks.taking '"') := rfl
  rw [hstring, hr, scan_cons_of_more hstep]
  exact scan_eq_stringOver opened [] cs ⟨none, cs, r.marks.taking '"', r.limits⟩ (Nat.le_refl _)

/-- where no digit follows, both count the integer -/
theorem scan_eq_counted (value : Nat) (r : Reader) (h : Stops IsNumeral r.left) :
    scan r.limits ⟨opened, .number value⟩ r.marks r.left
      = resumed r.limits opened (viewed (Reading.counted value r.looked)) := by
  rw [scan_numberEnd r.limits opened r.marks h]
  show _ = resume r.limits opened (.int value) (r.marks.counted value) r.looked.left
  rw [Reader.left_looked]

theorem scan_eq_integerOver (value : Nat) (ahead : List Char) (r : Reader)
    (h : r.left.length ≤ ahead.length) :
    scan r.limits ⟨opened, .number value⟩ r.marks r.left
      = resumed r.limits opened (viewed (Reading.integerOver value ahead r)) := by
  induction ahead generalizing value r with
  | nil =>
    have hr : r.left = [] := List.length_eq_zero_iff.1 (Nat.le_zero.1 h)
    rw [scan_eq_counted opened value r (by rw [hr]; trivial)]
    show resume _ _ _ _ r.looked.left = resume _ _ _ _ r.left
    rw [Reader.left_looked]
    rfl
  | cons d ahead ih =>
    rw [Reading.integerOver, bind_of_ok (Reading.peek_eq r)]
    cases hr : r.left with
    | nil =>
      show _ = resumed _ _ (viewed (Reading.counted value r.looked))
      rw [← hr]
      exact scan_eq_counted opened value r (by rw [hr]; trivial)
    | cons c cs =>
      show _ = resumed _ _ (viewed ((if c.isDigit then _ else _ : Reading _) _))
      by_cases hc : c.isDigit = true
      · rw [if_pos hc, bind_of_ok (Reading.advance_eq _), Reader.advanced_looked,
          Reader.advanced_of_cons hr]
        rw [hr, List.length_cons, List.length_cons] at h
        show _ = resumed _ _
            (viewed ((if Integer.fits r.limits.width (value * 10 + (c.toNat - '0'.toNat))
          then _ else _ : Reading _) _))
        have hs : step r.limits ⟨opened, .number value⟩ r.marks c
            = digitStep r.limits opened value r.marks c := by
          simp [step, hc]
        by_cases hf : Integer.fits r.limits.width (value * 10 + (c.toNat - '0'.toNat)) = true
        · rw [if_pos hf]
          rw [digitStep, if_pos hf] at hs
          rw [scan_cons_of_more hs]
          exact ih _ ⟨none, cs, r.marks.taking c, r.limits⟩ (Nat.le_of_succ_le_succ h)
        · rw [if_neg hf]
          rw [digitStep, if_neg hf] at hs
          rw [scan, hs]
          rfl
      · rw [if_neg hc, ← hr]
        refine scan_eq_counted opened value r ?_
        rw [hr]
        exact fun hn => hc ((isDigit_iff c).2 hn)

end

/-! ## lists -/

/-- `x` reads an expression as the automaton does where the lists `opened` are open; a closing
bracket is no expression -/
def ReadsAs (lim : Limits) (opened : List (List Value)) (x : Reading Value) : Prop :=
  ∀ r : Reader, r.limits = lim → r.left ≠ [] → Stops OpensGap r.left →
    (r.left.head? = some ')' → opened = []) →
    scan lim ⟨opened, .gap⟩ r.marks r.left = resumed lim opened (viewed (x r))

section
variable {lim : Limits} {opened : List (List Value)} {list item : Reading Value}

theorem readsAs_itemBy
    (hl : ∀ r : Reader, r.limits = lim → r.left.head? = some '(' →
      scan lim ⟨opened, .gap⟩ r.marks r.left = resumed lim opened (viewed (list r))) :
    ReadsAs lim opened (Reading.itemBy list) := by
  intro r hlim hne hs hclose
  rw [Reading.itemBy, bind_of_ok (Reading.peek_eq r)]
  cases hr : r.left with
  | nil => exact absurd hr hne
  | cons c cs =>
    rw [hr] at hs hclose
    have hlooked : r.looked.left = c :: cs := r.left_looked.trans hr
    show _ = resumed _ _ (viewed ((if c = '(' then list else if c = '"' then Reading.string
      else if c.isLower then Reading.name else if c.isDigit then Reading.integer
      else Reading.fail (.notAnExpression c) : Reading Value) r.looked))
    by_cases ho : c = '('
    · have h := hl r.looked hlim (by rw [hlooked, ho]; rfl)
      rw [hlooked] at h
      rw [if_pos ho]
      exact h
    by_cases hq : c = '"'
    · rw [if_neg ho, if_pos hq, ← hlooked, ← hlim]
      exact scan_eq_string opened r.looked (by rw [hlooked, hq]; rfl)
    by_cases hlow : c.isLower = true
    · rw [if_neg ho, if_neg hq, if_pos hlow,
        scan_gap_letter lim opened r.marks ((isLower_iff c).1 hlow),
        ← hlooked, ← hlim]
      exact scan_eq_name opened r.looked
    by_cases hn : c.isDigit = true
    · rw [if_neg ho, if_neg hq, if_neg hlow, if_pos hn,
        scan_gap_numeral lim opened r.marks ((isDigit_iff c).1 hn), ← hlooked, ← hlim]
      exact scan_eq_integerOver opened 0 r.looked.left r.looked (Nat.le_refl _)
    · rw [if_neg ho, if_neg hq, if_neg hlow, if_neg hn]
      have hstep : step lim ⟨opened, .gap⟩ r.marks c
          = .refused (.placed (.notAnExpression c) r.marks.place) r.marks := by
        by_cases hc : c = ')'
        · rw [hclose (congrArg some hc), hc]
          rfl
        · rw [isLower_iff] at hlow
          rw [isDigit_iff] at hn
          exact gapStep_other lim opened r.marks hs hc ho hq hlow hn
      rw [scan, hstep]
      show _ = EStateM.Result.error _ (⟨r.looked.left, r.marks, r.limits⟩ : Outlook)
      rw [hlooked, hlim]
      rfl

/-- the items of a list and its closing bracket; `taken` are the items read before, last first.  A
round of the loop takes at least one character, so the text to recur on lasts. -/
theorem scan_eq_itemsOver (hi : ∀ taken, ReadsAs lim (taken :: opened) item) (ht : Tracks item)
    (hshorter : ∀ {r r' v}, item r = .ok v r' → r'.left.length < r.left.length)
    (taken : List Value) (ahead : List Char) (r : Reader) (hlim : r.limits = lim)
    (hs : Stops OpensGap r.left) (h : r.left.length ≤ ahead.length) :
    scan lim ⟨taken :: opened, .gap⟩ r.marks r.left
      = resumed lim opened (viewed ((Reading.itemsOver item taken ahead >>= fun vs =>
        Reading.expect ')' >>= fun _ => pure (Value.list vs)) r)) := by
  induction ahead generalizing taken r with
  | nil =>
    have hr : r.left = [] := List.length_eq_zero_iff.1 (Nat.le_zero.1 h)
    show _ = EStateM.Result.error _ (⟨r.left, r.marks, r.limits⟩ : Outlook)
    rw [hr, hlim]
    rfl
  | cons d ahead ih =>
    rw [Reading.itemsOver, bind_assoc, bind_of_ok (Reading.peek_eq r)]
    cases hr : r.left with
    | nil =>
      show _ = EStateM.Result.error _ (⟨r.looked.left, r.marks, r.limits⟩ : Outlook)
      rw [Reader.left_looked, hr, hlim]
      rfl
    | cons c cs =>
      by_cases hc : c = ')'
      · subst hc
        have hexp : Reading.expect ')' r.looked = .ok () r.advanced := by
          rw [Reading.expect_of_head (by rw [Reader.left_looked, hr]; rfl), Reader.advanced_looked]
        rw [List.head?_cons, if_pos rfl, pure_bind, bind_of_ok hexp, Reader.advanced_of_cons hr,
          scan_close]
        rfl
      · rw [List.head?_cons, if_neg (by simpa using hc), if_neg (Option.some_ne_none c)]
        have hitem := hi taken r.looked hlim
          (by rw [Reader.left_looked, hr]; exact List.cons_ne_nil _ _)
          (by rw [Reader.left_looked]; exact hs)
          (by rw [Reader.left_looked, hr]; intro he; exact absurd (Option.some.inj he) hc)
        rw [Reader.left_looked, Reader.marks_looked, hr] at hitem
        rw [hitem]
        cases he : item r.looked with
        | error e r₁ =>
          rw [bind_of_error (bind_of_error he)]
          rfl
        | ok v r₁ =>
          have hlen := hshorter he
          rw [Reader.left_looked] at hlen
          have hgap := Reading.skipGap_eq r₁
          have hbind : ((item >>= fun v => Reading.skipGap >>= fun _ =>
                Reading.itemsOver item (v :: taken) ahead) >>= fun vs =>
                Reading.expect ')' >>= fun _ => pure (Value.list vs)) r.looked
              = (Reading.itemsOver item (v :: taken) ahead >>= fun vs =>
                Reading.expect ')' >>= fun _ => pure (Value.list vs)) r₁.pastGap := by
            rw [bind_assoc, bind_of_ok he, bind_assoc, bind_of_ok hgap]
          rw [hbind]
          have hmoves := (tracks_skipGap.moves hgap).length_le
          show scan lim ⟨(v :: taken) :: opened, .gap⟩ r₁.marks r₁.left = _
          rw [scan_pastGap]
          refine ih (v :: taken) r₁.pastGap ?_ ?_ ?_
          · rw [Reader.limits_pastGap, (ht.moves he).limits]
            exact hlim
          · rw [Reader.left_pastGap]
            exact stops_afterGap false _ _
          · rw [List.length_cons] at h
            omega

theorem scan_eq_listBy (hi : ∀ taken, ReadsAs lim (taken :: opened) item) (ht : Tracks item)
    (hshorter : ∀ {r r' v}, item r = .ok v r' → r'.left.length < r.left.length)
    (hd : opened.length < lim.depth) (r : Reader) (hlim : r.limits = lim)
    (ho : r.left.head? = some '(') :
    scan lim ⟨opened, .gap⟩ r.marks r.left
      = resumed lim opened (viewed (Reading.listBy item r)) := by
  obtain ⟨cs, hr⟩ := List.head?_eq_some_iff.1 ho
  have he : Reading.listBy item r = (Reading.itemsOver item [] r.advanced.pastGap.left >>= fun vs =>
      Reading.expect ')' >>= fun _ => pure (Value.list vs)) r.advanced.pastGap := by
    rw [Reading.listBy, bind_of_ok (Reading.expect_of_head ho), bind_of_ok (Reading.skipGap_eq _)]
    rfl
  have hscan : scan lim ⟨opened, .gap⟩ r.marks r.left
      = scan lim ⟨[] :: opened, .gap⟩ r.advanced.marks r.advanced.left := by
    rw [hr, scan_open lim opened r.marks hd, Reader.advanced_of_cons hr]
    rfl
  rw [he, hscan, scan_pastGap]
  refine scan_eq_itemsOver hi ht hshorter [] _ _ ?_ ?_ (Nat.le_refl _)
  · rw [Reader.limits_pastGap, Reader.limits_advanced, hlim]
  · rw [Reader.left_pastGap]
    exact stops_afterGap false _ _

/-- the lists that are open and those that may still be opened make up the depth that is admitted -/
theorem scan_eq_listWithin {depth : Nat} (hd : opened.length + depth = lim.depth) (r : Reader)
    (hlim : r.limits = lim) (ho : r.left.head? = some '(') :
    scan lim ⟨opened, .gap⟩ r.marks r.left
      = resumed lim opened (viewed (Reading.listWithin depth r)) := by
  induction depth generalizing opened r with
  | zero =>
    obtain ⟨cs, hr⟩ := List.head?_eq_some_iff.1 ho
    rw [hr, scan_open_refused lim opened r.marks (by omega)]
    show _ = EStateM.Result.error _ (⟨r.left, r.marks, r.limits⟩ : Outlook)
    rw [hr, hlim]
    rfl
  | succ depth ih =>
    refine scan_eq_listBy ?_ (tracks_itemBy (tracks_listWithin depth))
      (length_lt_of_itemBy length_lt_of_listWithin) (by omega) r hlim ho
    intro taken
    refine readsAs_itemBy fun r' hlim' ho' => ih ?_ r' hlim' ho'
    rw [List.length_cons]
    omega

end

/-- **The reader and the automaton do the same**: the value or the error, the text that is left, the
place, the table and the log. -/
theorem viewed_item {r : Reader} (hne : r.left ≠ []) (hs : Stops OpensGap r.left) :
    viewed (Reading.item r) = scan r.limits ⟨[], .gap⟩ r.marks r.left := by
  have hlist : ∀ r' : Reader, r'.limits = r.limits → r'.left.head? = some '(' →
      scan r.limits ⟨[], .gap⟩ r'.marks r'.left
        = resumed r.limits [] (viewed (Reading.list r')) := by
    intro r' hlim ho
    have h : scan r.limits ⟨[], .gap⟩ r'.marks r'.left
        = resumed r.limits [] (viewed (Reading.listWithin r.limits.depth r')) :=
      scan_eq_listWithin (Nat.zero_add _) r' hlim ho
    rw [h, ← hlim]
    rfl
  have h := readsAs_itemBy hlist r rfl hne hs (fun _ => rfl)
  rw [h, resumed_nil]
  · rfl
  · intro v r' he
    exact (tracks_item.moves he).limits

end Lisplet
