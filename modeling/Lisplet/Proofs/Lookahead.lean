import Lisplet.Reading.Reader
import Lisplet.Proofs.Sequence

/-!
# Looking ahead and moving on

What a reader does to its text.  Looking at the next character brings it into the buffer and changes
nothing else: what is left of the text is the same (`peek_eq`).  Taking it makes what is left one
character shorter and moves the place along (`advance_eq`).

Everything a reader does is made of these two.  So every operation moves the reader along its text,
whether it succeeds or fails, and reports its errors inside the text (`Tracks`).  There is one
`tracks_` lemma for each operation; those of composed operations go by `Tracks.bind`, those of loops
by induction on the text that the loop recurs on.  An expression that has been read has taken at
least one character (`length_lt_of_itemBy`).
-/

namespace Lisplet

open Sequence
open Text (Place)

/-! ## one character -/

namespace Reader

/-- the reader after it has looked at the next character -/
def looked (r : Reader) : Reader := { r with buffer := r.left.head?, rest := r.left.tail }

/-- the reader after it has taken the next character, if there is one -/
def advanced (r : Reader) : Reader := r.looked.past r.left.head?

variable (r : Reader)

@[simp] theorem left_looked : r.looked.left = r.left := by
  show r.left.head?.toList ++ r.left.tail = r.left
  cases r.left <;> rfl

@[simp] theorem marks_looked : r.looked.marks = r.marks := rfl

@[simp] theorem limits_looked : r.looked.limits = r.limits := rfl

@[simp] theorem looked_looked : r.looked.looked = r.looked := by
  show { r.looked with buffer := r.looked.left.head?, rest := r.looked.left.tail } = r.looked
  rw [left_looked]
  rfl

@[simp] theorem limits_advanced : r.advanced.limits = r.limits := by
  unfold advanced
  cases r.left.head? <;> rfl

@[simp] theorem advanced_looked : r.looked.advanced = r.advanced := by
  simp [advanced]

variable {r}

theorem advanced_of_nil (h : r.left = []) : r.advanced = r := by
  obtain ⟨buffer, rest, m, lim⟩ := r
  cases buffer with
  | none =>
    cases h
    rfl
  | some c => cases h

theorem advanced_of_cons {c : Char} {cs : List Char} (h : r.left = c :: cs) :
    r.advanced = ⟨none, cs, r.marks.taking c, r.limits⟩ := by
  simp [advanced, looked, past, h]

theorem left_advanced (r : Reader) : r.advanced.left = r.left.tail := by
  cases h : r.left with
  | nil => rw [advanced_of_nil h, h]; rfl
  | cons c cs => rw [advanced_of_cons h]; rfl

end Reader

namespace Reading

theorem peek_eq (r : Reader) : peek r = .ok r.left.head? r.looked := by
  obtain ⟨buffer, rest, m, lim⟩ := r
  cases buffer with
  | none => cases rest <;> rfl
  | some c => rfl

theorem advance_eq (r : Reader) : advance r = .ok r.left.head? r.advanced := by
  unfold advance
  rw [bind_of_ok (peek_eq r)]
  rfl

theorem expect_of_head {r : Reader} {c : Char} (h : r.left.head? = some c) :
    expect c r = .ok () r.advanced := by
  unfold expect
  rw [bind_of_ok (peek_eq r), if_pos h, bind_of_ok (advance_eq r.looked), Reader.advanced_looked]
  rfl

theorem expect_of_ne {r : Reader} {c : Char} (h : r.left.head? ≠ some c) :
    expect c r = .error (.placed (.expected (String.singleton c) r.left.head?) r.place)
      r.looked := by
  unfold expect
  rw [bind_of_ok (peek_eq r), if_neg h]
  rfl

end Reading

/-! ## moving on -/

namespace Reader

/-- what is no longer left has been taken, and the place has moved along it -/
def Moves (r r' : Reader) : Prop :=
  ∃ taken, r.left = taken ++ r'.left ∧ r'.place = r.place.afterAll taken ∧ r'.limits = r.limits

/-- the error is reported somewhere in the text that is left -/
def Locates (r : Reader) (e : ParseError) : Prop :=
  ∃ a, a <+: r.left ∧ e.place = r.place.afterAll a

section
variable {r r₁ r₂ : Reader}

theorem Moves.refl (r : Reader) : r.Moves r := ⟨[], rfl, rfl, rfl⟩

theorem Moves.trans (h₁ : r.Moves r₁) (h₂ : r₁.Moves r₂) : r.Moves r₂ := by
  obtain ⟨a, ha, hp, hl⟩ := h₁
  obtain ⟨b, hb, hq, hm⟩ := h₂
  refine ⟨a ++ b, ?_, ?_, hm.trans hl⟩
  · rw [ha, hb, List.append_assoc]
  · rw [hq, hp, Place.afterAll_append]

theorem Moves.length_le (h : r.Moves r₁) : r₁.left.length ≤ r.left.length := by
  obtain ⟨taken, ht, _, _⟩ := h
  rw [ht, List.length_append]
  omega

theorem Moves.limits (h : r.Moves r₁) : r₁.limits = r.limits := by
  obtain ⟨_, _, _, hl⟩ := h
  exact hl

theorem Moves.locates {e : ParseError} (h : r.Moves r₁) (he : r₁.Locates e) : r.Locates e := by
  obtain ⟨a, ha, hp, _⟩ := h
  obtain ⟨b, hb, he⟩ := he
  refine ⟨a ++ b, ?_, ?_⟩
  · rw [ha]
    exact (List.prefix_append_right_inj a).2 hb
  · rw [he, hp, Place.afterAll_append]

theorem locates_here (r : Reader) (cause : ParseCause) : r.Locates (.placed cause r.place) :=
  ⟨[], List.nil_prefix, rfl⟩

theorem moves_looked (r : Reader) : r.Moves r.looked := ⟨[], r.left_looked.symm, rfl, rfl⟩

theorem moves_advanced (r : Reader) : r.Moves r.advanced := by
  cases h : r.left with
  | nil =>
    rw [advanced_of_nil h]
    exact .refl r
  | cons c cs =>
    rw [advanced_of_cons h]
    exact ⟨[c], h, rfl, rfl⟩

end

end Reader

section
variable {α β : Type}

/-- a reading from `r` has moved along the text, however it has ended -/
inductive Tracked (r : Reader) : EStateM.Result ParseError Reader α → Prop
  | ok {a r'} (hm : r.Moves r') : Tracked r (.ok a r')
  | error {e r'} (hm : r.Moves r') (he : r.Locates e) : Tracked r (.error e r')

def Tracks (x : Reading α) : Prop := ∀ r, Tracked r (x r)

theorem Tracked.after {r r₁ : Reader} {answer : EStateM.Result ParseError Reader α}
    (h : Tracked r₁ answer) (hm : r.Moves r₁) : Tracked r answer := by
  cases h with
  | ok hm₁ => exact .ok (hm.trans hm₁)
  | error hm₁ he => exact .error (hm.trans hm₁) (hm.locates he)

theorem Tracks.bind {x : Reading α} {f : α → Reading β} (hx : Tracks x) (hf : ∀ a, Tracks (f a)) :
    Tracks (x >>= f) := by
  intro r
  have ht := hx r
  generalize hr : x r = answer at ht
  cases ht with
  | @ok a r₁ hm =>
    rw [bind_of_ok hr]
    exact (hf a r₁).after hm
  | error hm he =>
    rw [bind_of_error hr]
    exact .error hm he

theorem Tracks.moves {x : Reading α} (h : Tracks x) {r r' : Reader} {a : α} (he : x r = .ok a r') :
    r.Moves r' := by
  have ht := h r
  rw [he] at ht
  cases ht with
  | ok hm => exact hm

/-! ## the operations -/

theorem tracks_pure (a : α) : Tracks (pure a : Reading α) := fun r => .ok (.refl r)

theorem tracks_get : Tracks (get : Reading Reader) := fun r => .ok (.refl r)

theorem tracks_fail (cause : ParseCause) : Tracks (Reading.fail cause : Reading α) :=
  fun r => .error (.refl r) (r.locates_here cause)

theorem tracks_peek : Tracks Reading.peek := by
  intro r
  rw [Reading.peek_eq]
  exact .ok r.moves_looked

theorem tracks_advance : Tracks Reading.advance := by
  intro r
  rw [Reading.advance_eq]
  exact .ok r.moves_advanced

theorem tracks_expect (c : Char) : Tracks (Reading.expect c) := by
  intro r
  by_cases h : r.left.head? = some c
  · rw [Reading.expect_of_head h]
    exact .ok r.moves_advanced
  · rw [Reading.expect_of_ne h]
    exact .error r.moves_looked (r.locates_here _)

theorem tracks_expectText (wanted : String) : Tracks (Reading.expectText wanted) := by
  unfold Reading.expectText
  split
  · exact tracks_expect _
  · exact tracks_peek.bind fun found => tracks_fail _

theorem tracks_takeOver (p : Char → Bool) (taken ahead : List Char) :
    Tracks (Reading.takeOver p taken ahead) := by
  induction ahead generalizing taken with
  | nil => exact tracks_pure _
  | cons _ ahead ih =>
    refine tracks_peek.bind fun found => ?_
    cases found with
    | none => exact tracks_pure _
    | some c =>
      show Tracks (if p c then _ else _)
      split
      · exact tracks_advance.bind fun _ => ih (c :: taken)
      · exact tracks_pure _

theorem tracks_takeWhile (p : Char → Bool) : Tracks (Reading.takeWhile p) :=
  tracks_get.bind fun r => tracks_takeOver p [] r.left

theorem tracks_gapOver (ahead : List Char) : Tracks (Reading.gapOver ahead) := by
  induction ahead with
  | nil => exact tracks_pure ()
  | cons _ ahead ih =>
    refine tracks_peek.bind fun found => ?_
    cases found with
    | none => exact tracks_pure ()
    | some c =>
      show Tracks (if isGap c then _ else if c = ';' then _ else _)
      split
      · exact tracks_advance.bind fun _ => ih
      split
      · exact (tracks_takeWhile _).bind fun _ => ih
      · exact tracks_pure ()

theorem tracks_skipGap : Tracks Reading.skipGap := tracks_get.bind fun r => tracks_gapOver r.left

theorem tracks_name : Tracks Reading.name := by
  refine (tracks_takeWhile _).bind fun cs => ?_
  dsimp only
  split
  · exact tracks_pure _
  · exact fun r => .ok ⟨[], rfl, rfl, rfl⟩

/-- a wrong escape is reported where it starts, which is before what has been taken -/
theorem tracks_escape : Tracks Reading.escape := by
  intro r
  show Tracked r ((Reading.advance >>= _) r)
  rw [bind_of_ok (Reading.advance_eq r)]
  cases r.left.head? with
  | none => exact (tracks_fail .endInString r.advanced).after r.moves_advanced
  | some e =>
    dsimp only
    cases Text.escapeMeaning? e with
    | none => exact .error r.moves_advanced (r.locates_here _)
    | some c => exact .ok r.moves_advanced

theorem tracks_stringOver (taken ahead : List Char) : Tracks (Reading.stringOver taken ahead) := by
  induction ahead generalizing taken with
  | nil => exact tracks_fail _
  | cons _ ahead ih =>
    refine tracks_advance.bind fun found => ?_
    cases found with
    | none => exact tracks_fail _
    | some c =>
      show Tracks (if c = '"' then _ else if c = '\\' then _ else _)
      split
      · exact tracks_pure _
      split
      · exact tracks_escape.bind fun d => ih (d :: taken)
      · exact ih (c :: taken)

theorem tracks_string : Tracks Reading.string :=
  (tracks_expect '"').bind fun _ => tracks_get.bind fun r => tracks_stringOver [] r.left

theorem tracks_counted (n : Nat) : Tracks (Reading.counted n) := fun _ => .ok ⟨[], rfl, rfl, rfl⟩

theorem tracks_integerOver (value : Nat) (ahead : List Char) :
    Tracks (Reading.integerOver value ahead) := by
  induction ahead generalizing value with
  | nil => exact tracks_counted value
  | cons _ ahead ih =>
    refine tracks_peek.bind fun found => ?_
    cases found with
    | none => exact tracks_counted value
    | some c =>
      show Tracks (if c.isDigit then _ else _)
      split
      · refine tracks_advance.bind fun _ => tracks_get.bind fun r => ?_
        split
        · exact ih _
        · exact tracks_fail _
      · exact tracks_counted value

theorem tracks_integer : Tracks Reading.integer :=
  tracks_get.bind fun r => tracks_integerOver 0 r.left

section
variable {list item : Reading Value}

theorem tracks_itemBy (h : Tracks list) : Tracks (Reading.itemBy list) := by
  refine tracks_peek.bind fun found => ?_
  cases found with
  | none => exact tracks_fail .endBeforeExpression
  | some c =>
    show Tracks (if c = '(' then list else if c = '"' then Reading.string
      else if c.isLower then Reading.name else if c.isDigit then Reading.integer
      else Reading.fail (.notAnExpression c))
    split
    · exact h
    split
    · exact tracks_string
    split
    · exact tracks_name
    split
    · exact tracks_integer
    · exact tracks_fail _

theorem tracks_itemsOver (h : Tracks item) (taken : List Value) (ahead : List Char) :
    Tracks (Reading.itemsOver item taken ahead) := by
  induction ahead generalizing taken with
  | nil => exact tracks_fail _
  | cons _ ahead ih =>
    refine tracks_peek.bind fun found => ?_
    split
    · exact tracks_pure _
    split
    · exact tracks_fail _
    · exact h.bind fun v => tracks_skipGap.bind fun _ => ih (v :: taken)

/-- the part of a list after its opening bracket -/
theorem tracks_listRest (h : Tracks item) :
    Tracks (do
      Reading.skipGap
      let vs ← Reading.itemsOver item [] (← get).left
      Reading.expect ')'
      return Value.list vs) :=
  tracks_skipGap.bind fun _ => tracks_get.bind fun r => (tracks_itemsOver h [] r.left).bind
    fun vs =>
    (tracks_expect ')').bind fun _ => tracks_pure (Value.list vs)

theorem tracks_listBy (h : Tracks item) : Tracks (Reading.listBy item) :=
  (tracks_expect '(').bind fun _ => tracks_listRest h

end

theorem tracks_listWithin (depth : Nat) : Tracks (Reading.listWithin depth) := by
  induction depth with
  | zero => exact tracks_fail .nestedTooDeeply
  | succ depth ih => exact tracks_listBy (tracks_itemBy ih)

theorem tracks_list : Tracks Reading.list :=
  tracks_get.bind fun r => tracks_listWithin r.limits.depth

theorem tracks_item : Tracks Reading.item := tracks_itemBy tracks_list

theorem tracks_finish : Tracks Reading.finish := by
  refine tracks_skipGap.bind fun _ => tracks_peek.bind fun found => ?_
  cases found with
  | none => exact tracks_pure ()
  | some c => exact tracks_fail (.trailing c)

theorem tracks_unit : Tracks Reading.unit := by
  refine tracks_skipGap.bind fun _ => tracks_peek.bind fun found => ?_
  split
  · exact tracks_list.bind fun v => tracks_finish.bind fun _ => tracks_pure _
  · exact tracks_fail _

theorem tracks_expression : Tracks Reading.expression :=
  tracks_skipGap.bind fun _ => tracks_item.bind fun v => tracks_finish.bind fun _ => tracks_pure v

end

/-! ## an expression takes characters -/

section
variable {α : Type} {x : Reading α} {r r' : Reader} {a : α}

/-- once a character has been taken, less is left whatever comes after it -/
theorem length_lt_of_advanced (hx : Tracks x) (hne : r.left ≠ [])
    (h : x r.advanced = .ok a r') : r'.left.length < r.left.length := by
  have hle := (hx.moves h).length_le
  rw [Reader.left_advanced, List.length_tail] at hle
  have hpos := List.length_pos_iff.2 hne
  omega

theorem length_lt_of_expect {c : Char} (hx : Tracks x)
    (h : (Reading.expect c >>= fun _ => x) r = .ok a r') : r'.left.length < r.left.length := by
  by_cases hc : r.left.head? = some c
  · rw [bind_of_ok (Reading.expect_of_head hc)] at h
    refine length_lt_of_advanced hx ?_ h
    intro he
    rw [he] at hc
    cases hc
  · rw [bind_of_error (Reading.expect_of_ne hc)] at h
    cases h

variable {v : Value}

theorem length_lt_of_name {c : Char} {cs : List Char} (hr : r.left = c :: cs)
    (hc : c.isLower = true) (h : Reading.name r = .ok v r') : r'.left.length < r.left.length := by
  obtain ⟨text, r₁, ht, hv⟩ := bind_eq_ok.1 h
  have hle : r'.left.length ≤ r₁.left.length := by
    cases hn : literalName? (String.ofList text) <;> rw [hn] at hv <;> cases hv <;>
      exact Nat.le_refl _
  refine Nat.lt_of_le_of_lt hle ?_
  have he : Reading.takeWhile Char.isLower r = Reading.takeOver Char.isLower [c] cs r.advanced := by
    show Reading.takeOver Char.isLower [] r.left r = _
    rw [hr, Reading.takeOver, bind_of_ok (Reading.peek_eq r), hr]
    show (if c.isLower then _ else _ : Reading _) _ = _
    rw [if_pos hc, bind_of_ok (Reading.advance_eq _), Reader.advanced_looked]
  rw [he] at ht
  exact length_lt_of_advanced (tracks_takeOver _ _ _) (by rw [hr]; exact List.cons_ne_nil _ _) ht

theorem length_lt_of_integer {c : Char} {cs : List Char} (hr : r.left = c :: cs)
    (hc : c.isDigit = true) (h : Reading.integer r = .ok v r') :
    r'.left.length < r.left.length := by
  have he : Reading.integer r = ((get : Reading Reader) >>= fun r =>
      if Integer.fits r.limits.width (0 * 10 + (c.toNat - '0'.toNat)) then
        Reading.integerOver (0 * 10 + (c.toNat - '0'.toNat)) cs
      else Reading.fail .integerRange) r.advanced := by
    show Reading.integerOver 0 r.left r = _
    rw [hr, Reading.integerOver, bind_of_ok (Reading.peek_eq r), hr]
    show (if c.isDigit then _ else _ : Reading _) _ = _
    rw [if_pos hc, bind_of_ok (Reading.advance_eq _), Reader.advanced_looked]
  rw [he] at h
  refine length_lt_of_advanced ?_ (by rw [hr]; exact List.cons_ne_nil _ _) h
  refine tracks_get.bind fun r => ?_
  split
  · exact tracks_integerOver _ _
  · exact tracks_fail _

theorem length_lt_of_itemBy {list : Reading Value}
    (hl : ∀ {r r' v}, list r = .ok v r' → r'.left.length < r.left.length)
    (h : Reading.itemBy list r = .ok v r') : r'.left.length < r.left.length := by
  unfold Reading.itemBy at h
  rw [bind_of_ok (Reading.peek_eq r)] at h
  rw [← r.left_looked]
  cases hr : r.left with
  | nil =>
    rw [hr] at h
    cases h
  | cons c cs =>
    have hlooked : r.looked.left = c :: cs := r.left_looked.trans hr
    rw [hr] at h
    simp only [List.head?_cons] at h
    split at h
    · exact hl h
    split at h
    · exact length_lt_of_expect (tracks_get.bind fun r => tracks_stringOver [] r.left) h
    split at h
    · exact length_lt_of_name hlooked ‹_› h
    split at h
    · exact length_lt_of_integer hlooked ‹_› h
    · cases h

theorem length_lt_of_listWithin {depth : Nat} (h : Reading.listWithin depth r = .ok v r') :
    r'.left.length < r.left.length := by
  cases depth with
  | zero => cases h
  | succ depth =>
    exact length_lt_of_expect (tracks_listRest (tracks_itemBy (tracks_listWithin depth))) h

end

end Lisplet
