import Mathlib
import Lisplet.Editor.Word

/-!
# The word that a cursor touches

The word at a cursor is looked for by two walks that start at the cursor and go on as long as there
are letters.  Here the word is told without them: it is a run of letters of the row that no other
run contains, and the cursor stands in it or at one of its ends (`Touches`).  A cursor touches at
most one such run, because two runs that meet at a cursor are one.

* `rowsOf_iff`          the rows of a text, told from what stands on both sides of their borders;
* `exists_wordStart`    the walk to the left stays in the row, by induction on the cursor;
* `wordStart_of_lt`     and it fails at once if the cursor is past the end of the row;
* `endsAt_wordEnd`      the walk to the right;
* `touches_iff`         the walks end where a word starts and ends, if there is one.
-/

namespace Lisplet.Editor

open Text (isAlphabetic isRowEnd rows rowsFrom)

/-! ## rows -/

/-- no row ends between these two characters -/
def sameRow (c d : Char) : Bool := !isRowEnd c || (c == '\r' && d == '\n')

/-- The rows of a text: they are not empty, none of them ends before its last character, and where
one follows another the first of them has ended. -/
structure RowsOf (cs : List Char) (rs : List (List Char)) : Prop where
  flatten : cs = rs.flatten
  ne_nil : [] ∉ rs
  whole : ∀ row ∈ rs, row.IsChain fun c d => sameRow c d = true
  apart : rs.IsChain fun a b => ∃ ha hb, sameRow (a.getLast ha) (b.head hb) = false

theorem sameRow_of_not_rowEnd {c : Char} (h : isRowEnd c = false) (d : Char) :
    sameRow c d = true := by
  rw [sameRow, h]
  rfl

theorem sameRow_eq_false {c d : Char} (hc : isRowEnd c = true) (hd : c = '\r' → d ≠ '\n') :
    sameRow c d = false := by
  rw [sameRow, hc, Bool.not_true, Bool.false_or, Bool.and_eq_false_imp]
  intro h
  exact beq_false_of_ne (hd (eq_of_beq h))

theorem isChain_row {body ends : List Char} (hbody : ∀ c ∈ body, isRowEnd c = false)
    (hends : ends.IsChain fun c d => sameRow c d = true) :
    (body ++ ends).IsChain fun c d => sameRow c d = true := by
  induction body with
  | nil => exact hends
  | cons c body ih =>
    refine List.isChain_cons.2 ⟨?_, ih fun d hd => hbody d (List.mem_cons_of_mem c hd)⟩
    intro d _
    exact sameRow_of_not_rowEnd (hbody c (List.mem_cons_self ..)) d

/-- a row that has ended is cut off -/
theorem splitBy_row {body cs : List Char} (ends : List Char)
    (hbody : ∀ c ∈ body, isRowEnd c = false) (hends : ends.IsChain fun c d => sameRow c d = true)
    (hne : ends ≠ []) (hlast : ∀ c ∈ ends.getLast?, ∀ d ∈ cs.head?, sameRow c d = false) :
    (body ++ (ends ++ cs)).splitBy sameRow = (body ++ ends) :: cs.splitBy sameRow := by
  have hrow : body ++ ends ≠ [] := List.append_ne_nil_of_right_ne_nil body hne
  rw [← List.append_assoc, List.splitBy_append,
    List.splitBy_of_isChain hrow (isChain_row hbody hends)]
  · rfl
  · rwa [List.getLast?_append_of_ne_nil body hne]

/-- the row that is being read has not ended -/
theorem rowsFrom_eq_splitBy {row : List Char} (h : ∀ c ∈ row, isRowEnd c = false) (cs : List Char) :
    rowsFrom row cs = (row.reverse ++ cs).splitBy sameRow := by
  have hreverse : ∀ {r : List Char}, (∀ c ∈ r, isRowEnd c = false) →
      ∀ c ∈ r.reverse, isRowEnd c = false :=
    fun hr c hc => hr c (List.mem_reverse.1 hc)
  fun_induction rowsFrom row cs with
  | case1 row he =>
    rw [List.isEmpty_iff.1 he]
    rfl
  | case2 row he =>
    have hne : row.reverse ++ [] ≠ [] := by simpa using he
    rw [List.splitBy_of_isChain hne (isChain_row (hreverse h) List.isChain_nil), List.append_nil]
  | case3 row cs ih =>
    rw [ih (List.forall_mem_nil _)]
    symm
    refine (splitBy_row ['\r', '\n'] (hreverse h) ?_ (List.cons_ne_nil _ _) ?_).trans ?_
    · exact List.isChain_pair.2 rfl
    · rintro c ⟨⟩ d _
      exact sameRow_eq_false rfl fun h => absurd h (by decide)
    · simp
  | case4 row c cs hcs hc ih =>
    rw [ih (List.forall_mem_nil _)]
    symm
    refine (splitBy_row [c] (hreverse h) (List.isChain_singleton c) (List.cons_ne_nil _ _) ?_).trans
      ?_
    · rintro c' ⟨⟩ d hd
      refine sameRow_eq_false hc ?_
      -- a line feed after a carriage return is the case before
      rintro rfl rfl
      obtain ⟨rest, rfl⟩ := List.head?_eq_some_iff.1 hd
      exact hcs rest rfl rfl
    · simp
  | case5 row c cs _ hc ih =>
    have hrow : ∀ d ∈ c :: row, isRowEnd d = false := by
      intro d hd
      rcases List.mem_cons.1 hd with rfl | hd
      · exact Bool.eq_false_iff.2 hc
      · exact h d hd
    rw [ih hrow, List.reverse_cons, List.append_assoc]
    rfl

theorem rowsOf_iff {cs : List Char} {rs : List (List Char)} : RowsOf cs rs ↔ rows cs = rs := by
  rw [rows, rowsFrom_eq_splitBy (List.forall_mem_nil _), List.reverse_nil, List.nil_append,
    List.splitBy_eq_iff]
  exact ⟨fun h => ⟨h.flatten, h.ne_nil, h.whole, h.apart⟩, fun h => ⟨h.1, h.2.1, h.2.2.1, h.2.2.2⟩⟩

/-! ## runs of letters -/

/-- the row has a character at this index, and it is a letter -/
def LetterAt (row : List Char) (i : Nat) : Prop := ∃ c, row[i]? = some c ∧ isAlphabetic c = true

/-- from `s` up to `e` there are only letters -/
def Letters (row : List Char) (s e : Nat) : Prop := ∀ i, s ≤ i → i < e → LetterAt row i

/-- letters, at least one -/
structure IsRun (row : List Char) (s e : Nat) : Prop where
  lt : s < e
  letters : Letters row s e

/-- a run that no other run contains -/
structure IsWord (row : List Char) (s e : Nat) : Prop where
  run : IsRun row s e
  maximal : ∀ s' e', IsRun row s' e' → s' ≤ s → e ≤ e' → s' = s ∧ e' = e

/-- the cursor `k` stands in a word, or at one of its ends -/
structure Touches (row : List Char) (k s e : Nat) : Prop where
  word : IsWord row s e
  left : s ≤ k
  right : k ≤ e

instance (row : List Char) (i : Nat) : Decidable (LetterAt row i) :=
  decidable_of_iff (row[i]?.any isAlphabetic = true) (Option.any_eq_true _ _)

instance (row : List Char) (s e : Nat) : Decidable (IsRun row s e) :=
  decidable_of_iff (s < e ∧ ∀ i < e, s ≤ i → LetterAt row i)
    ⟨fun h => ⟨h.1, fun i hs he => h.2 i he hs⟩, fun h => ⟨h.lt, fun i he hs => h.letters i hs he⟩⟩

section
variable {row : List Char} {i k s e : Nat}

theorem LetterAt.lt_length (h : LetterAt row i) : i < row.length := by
  obtain ⟨c, hc, _⟩ := h
  exact (List.getElem?_eq_some_iff.1 hc).1

theorem letterAt_iff (h : i < row.length) :
    LetterAt row i ↔ isAlphabetic (row.get ⟨i, h⟩) = true := by
  rw [LetterAt, List.getElem?_eq_getElem h]
  constructor
  · rintro ⟨c, hc, ha⟩
    rwa [← Option.some.inj hc] at ha
  · exact fun ha => ⟨_, rfl, ha⟩

theorem letters_self (row : List Char) (k : Nat) : Letters row k k :=
  fun _ hi hk => absurd hk (Nat.not_lt.2 hi)

theorem Letters.append (h : Letters row s k) (h' : Letters row k e) : Letters row s e := by
  intro i hi hie
  rcases Nat.lt_or_ge i k with hk | hk
  · exact h i hi hk
  · exact h' i hk hie

theorem letters_single (h : LetterAt row k) : Letters row k (k + 1) := by
  intro i hi hik
  rwa [Nat.le_antisymm (Nat.le_of_lt_succ hik) hi]

theorem IsRun.le_length (h : IsRun row s e) : e ≤ row.length := by
  have hlast : LetterAt row (e - 1) :=
    h.letters (e - 1) (Nat.le_sub_one_of_lt h.lt) (Nat.sub_one_lt_of_lt h.lt)
  exact Nat.le_of_pred_lt hlast.lt_length

/-- a letter right before a word would make a longer run -/
theorem IsWord.stops_left (h : IsWord row s e) (hs : 0 < s) : ¬ LetterAt row (s - 1) := by
  intro hl
  have hbefore := letters_single hl
  rw [Nat.sub_add_cancel hs] at hbefore
  have hrun : IsRun row (s - 1) e :=
    ⟨(Nat.sub_le s 1).trans_lt h.run.lt, hbefore.append h.run.letters⟩
  have hsame := (h.maximal (s - 1) e hrun (Nat.sub_le s 1) (Nat.le_refl e)).1
  omega

/-- and so would one right after it -/
theorem IsWord.stops_right (h : IsWord row s e) : ¬ LetterAt row e := by
  intro hl
  have hrun : IsRun row s (e + 1) :=
    ⟨Nat.lt_succ_of_lt h.run.lt, h.run.letters.append (letters_single hl)⟩
  have hsame := (h.maximal s (e + 1) hrun (Nat.le_refl s) (Nat.le_succ e)).2
  omega

theorem isWord_of_stops (h : IsRun row s e) (hl : 0 < s → ¬ LetterAt row (s - 1))
    (hr : ¬ LetterAt row e) :
    IsWord row s e := by
  refine ⟨h, ?_⟩
  intro s' e' h' hs he
  have hlt := h.lt
  constructor
  · by_contra hne
    exact hl (by omega) (h'.letters (s - 1) (by omega) (by omega))
  · by_contra hne
    exact hr (h'.letters e (by omega) (by omega))

end

/-! ## the two walks -/

/-- the letters right before the cursor `k` start at `s` -/
structure StartsAt (row : List Char) (k s : Nat) : Prop where
  le : s ≤ k
  letters : Letters row s k
  stops : 0 < s → ¬ LetterAt row (s - 1)

/-- the letters right after the cursor `k` end at `e` -/
structure EndsAt (row : List Char) (k e : Nat) : Prop where
  le : k ≤ e
  letters : Letters row k e
  stops : ¬ LetterAt row e

section
variable {row : List Char} {k s e s' e' : Nat}

theorem startsAt_here (h : 0 < k → ¬ LetterAt row (k - 1)) : StartsAt row k k :=
  ⟨Nat.le_refl k, letters_self row k, h⟩

theorem StartsAt.step (h : StartsAt row k s) (hk : LetterAt row k) : StartsAt row (k + 1) s where
  le := Nat.le_succ_of_le h.le
  letters := h.letters.append (letters_single hk)
  stops := h.stops

theorem endsAt_here (h : ¬ LetterAt row k) : EndsAt row k k :=
  ⟨Nat.le_refl k, letters_self row k, h⟩

theorem EndsAt.step (h : EndsAt row (k + 1) e) (hk : LetterAt row k) : EndsAt row k e where
  le := Nat.le_of_succ_le h.le
  letters := (letters_single hk).append h.letters
  stops := h.stops

/-- from a cursor of the row, the walk to the left only asks for characters that the row has -/
theorem exists_wordStart (h : k ≤ row.length) :
    ∃ s, wordStart row k = .ok s ∧ StartsAt row k s := by
  induction k with
  | zero => exact ⟨0, rfl, startsAt_here fun h0 => absurd h0 (Nat.lt_irrefl 0)⟩
  | succ k ih =>
    rw [wordStart, List.getElem?_eq_getElem h]
    by_cases hc : isAlphabetic (row.get ⟨k, h⟩) = true
    · obtain ⟨s, hs, hat⟩ := ih (Nat.le_of_succ_le h)
      exact ⟨s, (if_pos hc).trans hs, hat.step ((letterAt_iff h).2 hc)⟩
    · refine ⟨k + 1, if_neg hc, startsAt_here ?_⟩
      intro _
      exact mt (letterAt_iff h).1 hc

/-- past the end of the row, it asks for the character before the cursor, which the row has not -/
theorem wordStart_of_lt (h : row.length < k) :
    wordStart row k = .error (.fault (.noCharacter (k - 1))) := by
  cases k with
  | zero => exact absurd h (Nat.not_lt_zero _)
  | succ k =>
    rw [wordStart, List.getElem?_eq_none (Nat.le_of_lt_succ h)]
    rfl

theorem endsAt_wordEnd (row : List Char) (k : Nat) : EndsAt row k (wordEnd row k) := by
  fun_induction wordEnd row k with
  | case1 k h hc ih => exact ih.step ((letterAt_iff h).2 hc)
  | case2 k h hc => exact endsAt_here (mt (letterAt_iff h).1 hc)
  | case3 k h => exact endsAt_here fun hl => h hl.lt_length

/-! ## the word between them -/

/-- A word that touches the cursor starts and ends where the letters around the cursor do. -/
theorem touches_iff (hs : StartsAt row k s) (he : EndsAt row k e) :
    Touches row k s' e' ↔ (s' = s ∧ e' = e) ∧ s < e := by
  constructor
  · rintro ⟨hw, hl, hr⟩
    have hlt := hw.run.lt
    have hsk := hs.le
    have hke := he.le
    -- whichever of two starts is further right has a letter before it, as the other run goes on
    -- there
    have hs' : s' = s := by
      rcases Nat.lt_trichotomy s' s with h | h | h
      · exact absurd (hw.run.letters (s - 1) (by omega) (by omega)) (hs.stops (by omega))
      · exact h
      · exact absurd (hs.letters (s' - 1) (by omega) (by omega)) (hw.stops_left (by omega))
    have he' : e' = e := by
      rcases Nat.lt_trichotomy e' e with h | h | h
      · exact absurd (he.letters e' hr h) hw.stops_right
      · exact h
      · exact absurd (hw.run.letters e (by omega) h) he.stops
    exact ⟨⟨hs', he'⟩, hs' ▸ he' ▸ hlt⟩
  · rintro ⟨⟨rfl, rfl⟩, hlt⟩
    exact ⟨isWord_of_stops ⟨hlt, hs.letters.append he.letters⟩ hs.stops he.stops, hs.le, he.le⟩

theorem Touches.unique (h : Touches row k s e) (h' : Touches row k s' e') : s' = s ∧ e' = e := by
  have hk : k ≤ row.length := h.right.trans h.word.run.le_length
  obtain ⟨t, _, ht⟩ := exists_wordStart hk
  obtain ⟨⟨hs, he⟩, _⟩ := (touches_iff ht (endsAt_wordEnd row k)).1 h
  obtain ⟨⟨hs', he'⟩, _⟩ := (touches_iff ht (endsAt_wordEnd row k)).1 h'
  exact ⟨hs'.trans hs.symm, he'.trans he.symm⟩

theorem extract_eq_nil_iff (h : e ≤ row.length) : row.extract s e = [] ↔ e ≤ s := by
  rw [List.extract_eq_take_drop, List.take_eq_nil_iff, List.drop_eq_nil_iff]
  omega

end

section
variable {text : String} {line character s e : Nat} {row : List Char}

theorem wordOf?_of_ne_nil {cs : List Char} (h : cs ≠ []) :
    wordOf? cs = some (String.ofList cs) := by
  cases cs with
  | nil => exact absurd rfl h
  | cons c cs => rfl

theorem wordAt_of_row (hrow : (rows text.toList)[line]? = some row) :
    wordAt text line character
      = (wordStart row character).map fun s => wordOf? (row.extract s (wordEnd row character)) := by
  rw [wordAt, hrow]

theorem wordAt_of_lt (hrow : (rows text.toList)[line]? = some row) (h : row.length < character) :
    wordAt text line character = .error (.fault (.noCharacter (character - 1))) := by
  rw [wordAt_of_row hrow, wordStart_of_lt h]
  rfl

/-- where both walks end, the letters between them are the word, if there are any -/
theorem exists_wordAt (hrow : (rows text.toList)[line]? = some row) (h : character ≤ row.length) :
    ∃ s e, StartsAt row character s ∧ EndsAt row character e ∧
      wordAt text line character = .ok (wordOf? (row.extract s e)) := by
  obtain ⟨s, hs, hat⟩ := exists_wordStart h
  refine ⟨s, _, hat, endsAt_wordEnd row character, ?_⟩
  rw [wordAt_of_row hrow, hs]
  rfl

theorem wordAt_of_touches (hrow : (rows text.toList)[line]? = some row)
    (h : Touches row character s e) :
    wordAt text line character = .ok (some (String.ofList (row.extract s e))) := by
  have hle := h.word.run.le_length
  obtain ⟨s', e', hs, he, hword⟩ := exists_wordAt hrow (h.right.trans hle)
  obtain ⟨⟨rfl, rfl⟩, hlt⟩ := (touches_iff hs he).1 h
  rw [hword, wordOf?_of_ne_nil]
  exact mt (extract_eq_nil_iff hle).1 (Nat.not_le.2 hlt)

theorem wordAt_of_untouched (hrow : (rows text.toList)[line]? = some row)
    (hle : character ≤ row.length) (h : ¬ ∃ s e, Touches row character s e) :
    wordAt text line character = .ok none := by
  obtain ⟨s, e, hs, he, hword⟩ := exists_wordAt hrow hle
  have hes : e ≤ s := by
    by_contra hlt
    exact h ⟨s, e, (touches_iff hs he).2 ⟨⟨rfl, rfl⟩, Nat.not_le.1 hlt⟩⟩
  rw [hword, List.extract_eq_take_drop, Nat.sub_eq_zero_of_le hes]
  rfl

end

/-- **The word at a cursor is the one word that touches it.** A row that the text does not have has
no word.  Past the end of a row the search fails, and nowhere else. -/
theorem word_touches_cursor (text : String) (line character : Nat) :
    (∃! rs, RowsOf text.toList rs) ∧ ∀ rs, RowsOf text.toList rs →
      (rs.length ≤ line → wordAt text line character = .ok none) ∧
      ∀ row, rs[line]? = some row →
        (wordAt text line character = .error (.fault (.noCharacter (character - 1))) ↔
          row.length < character) ∧
        (∀ s e, Touches row character s e →
          wordAt text line character = .ok (some (String.ofList (row.extract s e))) ∧
          ∀ s' e', Touches row character s' e' → s' = s ∧ e' = e) ∧
        (character ≤ row.length → (¬ ∃ s e, Touches row character s e) →
          wordAt text line character = .ok none) := by
  have hunique : ∀ rs, RowsOf text.toList rs → rs = rows text.toList :=
    fun rs h => (rowsOf_iff.1 h).symm
  refine ⟨⟨rows text.toList, rowsOf_iff.2 rfl, hunique⟩, ?_⟩
  intro rs hrs
  obtain rfl := hunique rs hrs
  constructor
  · intro hline
    rw [wordAt, List.getElem?_eq_none hline]
  · intro row hrow
    refine ⟨⟨?_, wordAt_of_lt hrow⟩, ?_, wordAt_of_untouched hrow⟩
    · intro hfails
      by_contra hlt
      obtain ⟨s, e, _, _, hword⟩ := exists_wordAt hrow (Nat.not_lt.1 hlt)
      rw [hword] at hfails
      cases hfails
    · intro s e h
      exact ⟨wordAt_of_touches hrow h, fun s' e' h' => h.unique h'⟩

/-- two rows, the first of which ends with two characters -/
def summer : String := "(let\r\nété 1)"

theorem rowsOf_summer : RowsOf summer.toList ["(let\r\n".toList, "été 1)".toList] :=
  rowsOf_iff.2 (by decide)

/-- a cursor at the end of a word, one after a row end, one past it, and one below the last row -/
theorem word_touches_summer :
    wordAt summer 1 3 = .ok (some "été") ∧ wordAt summer 0 6 = .ok none ∧
      wordAt summer 0 7 = .error (.fault (.noCharacter 6)) ∧ wordAt summer 2 0 = .ok none := by
  have hword : Touches "été 1)".toList 3 0 3 :=
    ⟨isWord_of_stops (by decide +kernel) (by decide) (by decide +kernel), by decide, by decide⟩
  have hnone : ¬ ∃ s e, Touches "(let\r\n".toList 6 s e := by
    rintro ⟨s, e, h⟩
    have hstart : StartsAt "(let\r\n".toList 6 6 := startsAt_here fun _ => by decide +kernel
    have hend : EndsAt "(let\r\n".toList 6 6 := endsAt_here (by decide)
    exact absurd ((touches_iff hstart hend).1 h).2 (Nat.lt_irrefl 6)
  refine ⟨?_, ?_, ?_, ?_⟩
  · exact ((((word_touches_cursor summer 1 3).2 _ rowsOf_summer).2 _ rfl).2.1 0 3 hword).1
  · exact (((word_touches_cursor summer 0 6).2 _ rowsOf_summer).2 _ rfl).2.2 (by decide) hnone
  · exact (((word_touches_cursor summer 0 7).2 _ rowsOf_summer).2 _ rfl).1.2 (by decide)
  · exact ((word_touches_cursor summer 2 0).2 _ rowsOf_summer).1 (by decide)

end Lisplet.Editor
