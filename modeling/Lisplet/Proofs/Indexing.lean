import Mathlib
import Lisplet.Editor.Workspace
import Lisplet.Proofs.Layout
import Lisplet.Proofs.Stages

/-!
# The index and the tree of a text

A text without strings and comments that is read as a unit has a tree, and the definitions in that
tree can be told from it (`definedName?`, `definedParams?`).  The index is made without reading, and
says the same.

* `words_of_items`          words in a text, and words among items;
* `paramText_of_items`      parameter lists;
* `definedName?_of_match`, `match_of_child`   definitions, from the text and from the tree;
* `names_of_openings`       one after the other, the brackets of a text open the lists of its tree,
  and define what they define;
* `found_of_child`          the scan passes over no form of the unit.
-/

namespace Lisplet

open Grammar
open Text (isBlank words wordsFrom)
open Editor (skipBlank params? match? Match found isParamChar paramText Index)

/-! ## definitions in a tree -/

/-- the word a value is read from: the name of a symbol, or a literal -/
def Value.word? : Value → Option String
  | .symbol s => some s.name
  | .bool true => some "true"
  | .bool false => some "false"
  | .nil => some "nil"
  | _ => none

/-- the name that a list defines stands after `let` -/
def definedName? : List Value → Option String
  | head :: name :: _ => if head.name? = some "let" then name.word? else none
  | _ => none

/-- the parameters of a list that starts with `lambda` and a list of words -/
def Value.lambdaParams? : Value → Option (List String)
  | .list (head :: .list params :: _) =>
      if head.name? = some "lambda" then params.mapM Value.word? else none
  | _ => none

/-- the parameters of what a list defines, if that is a function -/
def definedParams? (items : List Value) : Option (List String) := items[2]?.bind Value.lambdaParams?

/-- a word that is no literal is a symbol -/
theorem Value.name?_eq_some_iff {x : String} (hx : x ∉ ["true", "false", "nil"]) (v : Value) :
    v.name? = some x ↔ v.word? = some x := by
  simp only [List.mem_cons, List.not_mem_nil, or_false, not_or] at hx
  obtain ⟨ht, hf, hn⟩ := hx
  cases v with
  | symbol s => exact Iff.rfl
  | bool b => cases b <;> simp [name?, symbol?, word?, Ne.symm ht, Ne.symm hf]
  | nil => simp [name?, symbol?, word?, Ne.symm hn]
  | _ => simp [name?, symbol?, word?]

/-! ## words -/

theorem word?_nameValue (table : Nat) (name : String) :
    (nameValue table name).word? = some name := by
  unfold nameValue
  split
  · next h => rw [h]; rfl
  split
  · next h => rw [h]; rfl
  split
  · next h => rw [h]; rfl
  · rfl

/-- a run of letters is cut off as a whole -/
theorem cut_letters {w r : List Char} (hw : ∀ c ∈ w, IsLetter c) (hr : Stops IsLetter r) :
    (w ++ r).takeWhile Char.isLower = w ∧ (w ++ r).dropWhile Char.isLower = r := by
  have hlower : ∀ c ∈ w, c.isLower = true := fun c hc => (isLower_iff c).2 (hw c hc)
  rw [List.takeWhile_append_of_pos hlower, List.dropWhile_append_of_pos hlower]
  cases r with
  | nil => exact ⟨List.append_nil w, rfl⟩
  | cons c r =>
    have hc : ¬ c.isLower = true := mt (isLower_iff c).1 hr
    rw [List.takeWhile_cons_of_neg hc, List.dropWhile_cons_of_neg hc, List.append_nil]
    exact ⟨rfl, rfl⟩

theorem stops_dropWhile (n : List Char) : Stops IsLetter (n.dropWhile Char.isLower) := by
  cases h : n.dropWhile Char.isLower with
  | nil => trivial
  | cons c r =>
    have hne : n.dropWhile Char.isLower ≠ [] := by rw [h]; exact List.cons_ne_nil c r
    have hc := List.head_dropWhile_not Char.isLower hne
    simp only [h, List.head_cons] at hc
    show ¬ IsLetter c
    rw [← isLower_iff, hc]
    exact Bool.false_ne_true

section
variable {width table : Nat} {a b c r w : List Char} {v : Value} {vs : List Value}

theorem Grammar.Sexp.of_word {x : String} (h : Sexp width table a v b) (hx : v.word? = some x) :
    a = x.toList ++ b ∧ x.toList ≠ [] ∧ (∀ c ∈ x.toList, IsLetter c) ∧ Stops IsLetter b := by
  cases h with
  | list => cases hx
  | string => cases hx
  | integer => cases hx
  | name hne hc hb =>
    rw [word?_nameValue] at hx
    injection hx with hx
    subst hx
    rw [String.toList_ofList]
    exact ⟨rfl, hne, hc, hb⟩

theorem Grammar.Sexp.start_of_no_word (h : Sexp width table a v b) (hv : v.word? = none) :
    ∃ c t, a = c :: t ∧ ¬ IsLetter c ∧ isBlank c = false ∧ c ≠ ')' := by
  cases h with
  | list => exact ⟨_, _, rfl, by decide, by decide, by decide⟩
  | string => exact ⟨_, _, rfl, by decide, by decide, by decide⟩
  | name =>
    rw [word?_nameValue] at hv
    cases hv
  | integer hne hc _ _ =>
    obtain ⟨c, t, he, hd⟩ := exists_start hne hc b
    refine ⟨c, t, he, fun hl => absurd (Char.le_trans hl.1 hd.2) (by decide), hd.not_blank, ?_⟩
    rintro rfl
    exact absurd hd (by decide)

/-- items that start with a run of letters start with a word -/
theorem Grammar.Items.exists_word (h : Items width table (w ++ r) vs (')' :: c)) (hne : w ≠ [])
    (hw : ∀ c ∈ w, IsLetter c) (hr : Stops IsLetter r) :
    ∃ v vs' r', vs = v :: vs' ∧ v.word? = some (String.ofList w) ∧ Gap r r' ∧
      Items width table r' vs' (')' :: c) := by
  obtain ⟨d, t, he, hd⟩ := exists_start hne hw r
  generalize ha : w ++ r = a at h
  cases h with
  | nil =>
    injection ha.symm.trans he with hc _
    exact absurd (hc ▸ hd) (by decide)
  | @cons _ b b' _ v vs' hs hg hi =>
    cases hv : v.word? with
    | none =>
      obtain ⟨d', _, he', hd', _⟩ := hs.start_of_no_word hv
      injection (ha.symm.trans he).symm.trans he' with hc _
      exact absurd (hc ▸ hd) hd'
    | some x =>
      obtain ⟨hx, _, hxl, hb⟩ := hs.of_word hv
      have h₁ := cut_letters hw hr
      have h₂ := cut_letters hxl hb
      rw [ha, hx] at h₁
      have hwx : x.toList = w := h₂.1.symm.trans h₁.1
      have hbr : b = r := h₂.2.symm.trans h₁.2
      subst hbr
      exact ⟨v, vs', b', rfl, by rw [← hwx, String.ofList_toList, hv], hg, hi⟩

end

/-! ## words in a text -/

theorem wordsFrom_append {cs : List Char} (h : ∀ c ∈ cs, isBlank c = false) (w rest : List Char) :
    wordsFrom w (cs ++ rest) = wordsFrom (cs.reverse ++ w) rest := by
  induction cs generalizing w with
  | nil => rfl
  | cons c cs ih =>
    have hc : ¬ isBlank c = true := by rw [h c (List.mem_cons_self ..)]; exact Bool.false_ne_true
    rw [List.cons_append, wordsFrom, if_neg hc, ih fun d hd => h d (List.mem_cons_of_mem _ hd)]
    rw [List.reverse_cons, List.append_assoc]
    rfl

theorem words_blanks {g : List Char} (h : ∀ c ∈ g, isBlank c = true) (rest : List Char) :
    words (g ++ rest) = words rest := by
  induction g with
  | nil => rfl
  | cons c g ih =>
    rw [words, List.cons_append, wordsFrom, if_pos (h c (List.mem_cons_self ..))]
    exact ih fun d hd => h d (List.mem_cons_of_mem _ hd)

/-- a word ends with the text, or before a blank -/
theorem words_append {cs g rest : List Char} (hne : cs ≠ []) (hcs : ∀ c ∈ cs, isBlank c = false)
    (hg : ∀ c ∈ g, isBlank c = true) (hend : g = [] → rest = []) :
    words (cs ++ (g ++ rest)) = cs :: words rest := by
  have hcons : ∀ ws, Text.consWord (cs.reverse ++ []).reverse ws = cs :: ws := by
    intro ws
    rw [List.append_nil, List.reverse_reverse, Text.consWord, if_neg (by simp [hne])]
  rw [words, wordsFrom_append hcs]
  cases g with
  | nil =>
    rw [hend rfl]
    exact hcons []
  | cons c g =>
    rw [List.cons_append, wordsFrom, if_pos (hg c (List.mem_cons_self ..)), hcons]
    exact congrArg (cs :: ·) (words_blanks (fun d hd => hg d (List.mem_cons_of_mem _ hd)) rest)

theorem isParamChar_of_letter {c : Char} (h : IsLetter c) : isParamChar c = true := by
  rw [isParamChar, (isLower_iff c).2 h, Bool.true_or]

theorem isParamChar_of_blank {c : Char} (h : IsBlank c) : isParamChar c = true := by
  rw [isParamChar, h.text_isBlank, Bool.or_true]

theorem isParamChar_eq_false {c : Char} (hl : ¬ IsLetter c) (hb : ¬ isBlank c = true) :
    ¬ isParamChar c = true := by
  rw [isParamChar, Bool.or_eq_true, isLower_iff]
  exact not_or.2 ⟨hl, hb⟩

theorem mapM_cons_eq_some {v : Value} {vs : List Value} {x : String} {xs : List String}
    (hv : v.word? = some x) (hvs : vs.mapM Value.word? = some xs) :
    (v :: vs).mapM Value.word? = some (x :: xs) := by
  rw [List.mapM_cons, hv, hvs]
  rfl

section
variable {width table : Nat} {a b c : List Char} {v : Value} {vs : List Value}

/-- a word among items, and the gap after it, can be parameters -/
theorem cut_word {x : String} (hs : Sexp width table a v b) (hg : Gap b c) (hv : v.word? = some x)
    (ha : Bare a) (hc : Stops (isBlank · = true) c) :
    a.dropWhile isParamChar = c.dropWhile isParamChar ∧
      words (a.takeWhile isParamChar) = x.toList :: words (c.takeWhile isParamChar) := by
  obtain ⟨rfl, hne, hx, hb⟩ := hs.of_word hv
  obtain ⟨g, rfl, hblank⟩ := hg.exists_blanks (ha.suffix (List.suffix_append _ _))
  have hxp : ∀ d ∈ x.toList, isParamChar d = true := fun d hd => isParamChar_of_letter (hx d hd)
  have hgp : ∀ d ∈ g, isParamChar d = true := fun d hd => isParamChar_of_blank (hblank d hd)
  rw [List.dropWhile_append_of_pos hxp, List.dropWhile_append_of_pos hgp,
    List.takeWhile_append_of_pos hxp,
    List.takeWhile_append_of_pos hgp]
  refine ⟨rfl, words_append hne (fun d hd => (hx d hd).not_blank)
    (fun d hd => (hblank d hd).text_isBlank) ?_⟩
  rintro rfl
  -- without a gap, the next item does not start with a letter
  cases c with
  | nil => rfl
  | cons d c => exact List.takeWhile_cons_of_neg (isParamChar_eq_false hb hc)

/-- items before the first character that is neither letter nor blank are words -/
theorem words_of_items (h : Items width table a vs (')' :: c)) (ha : Bare a) {rest : List Char}
    (hd : a.dropWhile isParamChar = ')' :: rest) :
    ∃ xs, vs.mapM Value.word? = some xs ∧
      words (a.takeWhile isParamChar) = xs.map String.toList := by
  induction vs generalizing a with
  | nil =>
    cases h
    exact ⟨[], rfl, rfl⟩
  | cons v vs ih =>
    cases h with
    | @cons _ b b' _ _ _ hs hg hi =>
      cases hv : v.word? with
      | none =>
        obtain ⟨d, t, rfl, hl, hb, hne⟩ := hs.start_of_no_word hv
        rw [List.dropWhile_cons_of_neg
          (isParamChar_eq_false hl (by rw [hb]; exact Bool.false_ne_true))] at hd
        injection hd with hd _
        exact absurd hd hne
      | some x =>
        obtain ⟨hdrop, hwords⟩ := cut_word hs hg hv ha hi.not_blank
        have hb' := (ha.suffix (spans_sexp hs ha).suffix).suffix hg.suffix
        obtain ⟨xs, hxs, hw⟩ := ih hi hb' (hdrop ▸ hd)
        exact ⟨x :: xs, mapM_cons_eq_some hv hxs, by rw [hwords, hw]; rfl⟩

/-- words are letters and blanks up to the end of the list -/
theorem dropWhile_of_words (h : Items width table a vs (')' :: c)) (ha : Bare a) {xs : List String}
    (hv : vs.mapM Value.word? = some xs) : a.dropWhile isParamChar = ')' :: c := by
  induction vs generalizing a xs with
  | nil =>
    cases h
    rfl
  | cons v vs ih =>
    cases h with
    | @cons _ b b' _ _ _ hs hg hi =>
      rw [List.mapM_cons] at hv
      obtain ⟨x, hx, hv⟩ := Option.bind_eq_some_iff.1 hv
      obtain ⟨xs', hxs, _⟩ := Option.bind_eq_some_iff.1 hv
      rw [(cut_word hs hg hx ha hi.not_blank).1]
      exact ih hi ((ha.suffix (spans_sexp hs ha).suffix).suffix hg.suffix) hxs

/-- the parameters between two brackets are the words of the list there -/
theorem paramText_of_list (hg : Gap a b) (hi : Items width table b vs (')' :: c)) (ha : Bare a)
    {rest : List Char} (hd : a.dropWhile isParamChar = ')' :: rest) :
    ∃ xs, vs.mapM Value.word? = some xs ∧
      paramText (a.takeWhile isParamChar) = String.intercalate " " xs := by
  obtain ⟨g, rfl, hblank⟩ := hg.exists_blanks ha
  have hgp : ∀ d ∈ g, isParamChar d = true := fun d hd => isParamChar_of_blank (hblank d hd)
  rw [List.dropWhile_append_of_pos hgp] at hd
  obtain ⟨xs, hxs, hw⟩ := words_of_items hi (ha.suffix (List.suffix_append g b)) hd
  refine ⟨xs, hxs, ?_⟩
  rw [List.takeWhile_append_of_pos hgp, paramText,
    words_blanks fun d hd => (hblank d hd).text_isBlank, hw,
    List.map_map]
  congr 1
  exact (List.map_congr_left fun x _ => String.ofList_toList).trans (List.map_id xs)

/-! ## parameter lists -/

theorem letters_let : ∀ c ∈ ['l', 'e', 't'], IsLetter c := by simp [IsLetter]

theorem letters_lambda : ∀ c ∈ ['l', 'a', 'm', 'b', 'd', 'a'], IsLetter c := by simp [IsLetter]

theorem skipBlank_of_letter {d : Char} (hd : IsLetter d) (t : List Char) :
    skipBlank (d :: t) = d :: t := by
  refine List.dropWhile_cons_of_neg ?_
  rw [hd.not_blank]
  exact Bool.false_ne_true

/-- where the scan finds a run of letters, the first item of a list is that word -/
theorem word_of_scan {w r : List Char} (hg : Gap a b) (hi : Items width table b vs (')' :: c))
    (ha : Bare a) (hw : skipBlank a = w ++ r) (hne : w ≠ []) (hl : ∀ c ∈ w, IsLetter c)
    (hr : Stops IsLetter r) :
    ∃ v vs', vs = v :: vs' ∧ v.word? = some (String.ofList w) ∧
      Items width table (skipBlank r) vs' (')' :: c) ∧
      Bare (skipBlank r) := by
  obtain rfl : b = w ++ r := (skipBlank_eq hg ha hi.not_blank).symm.trans hw
  obtain ⟨v, vs', r', rfl, hv, hg', hi'⟩ := hi.exists_word hne hl hr
  have hbare : Bare r := (ha.suffix hg.suffix).suffix (List.suffix_append w r)
  rw [skipBlank_eq hg' hbare hi'.not_blank]
  exact ⟨v, vs', rfl, hv, hi', hbare.suffix hg'.suffix⟩

/-- what the scan takes for parameters are those of the first item -/
theorem params_of_scan (h : Items width table a vs (')' :: c)) (ha : Bare a) {ps rest : List Char}
    (hp : params? a = some (ps, rest)) :
    ∃ xs, vs.head?.bind Value.lambdaParams? = some xs ∧
      paramText ps = String.intercalate " " xs := by
  obtain ⟨a, b, d, rfl, hb, hd, rfl, hrest⟩ := Editor.params?_eq_some_iff.1 hp
  cases h with
  | @cons _ e _ _ v vs' hs _ _ =>
    obtain ⟨a', us, rfl, hg, hi⟩ := hs.list_of_open
    have hstop : Stops IsLetter b := by
      cases b with
      | nil => trivial
      | cons k t =>
        intro hk
        rw [skipBlank_of_letter hk] at hd
        injection hd with hd _
        subst hd
        exact absurd hk (by decide)
    obtain ⟨head, us', rfl, hw, hi', hbare⟩ :=
      word_of_scan hg hi (ha.suffix (List.suffix_cons '(' a)) hb
      (List.cons_ne_nil _ _) letters_lambda hstop
    rw [hd] at hi' hbare
    cases hi' with
    | @cons _ e' _ _ v' us'' hs' _ _ =>
      obtain ⟨d', params, rfl, hgd, hid⟩ := hs'.list_of_open
      obtain ⟨xs, hxs, htext⟩ :=
        paramText_of_list hgd hid (hbare.suffix (List.suffix_cons '(' d)) hrest
      refine ⟨xs, ?_, htext⟩
      have hhead : head.name? = some "lambda" := (Value.name?_eq_some_iff (by decide) head).2 hw
      show (if head.name? = some "lambda" then params.mapM Value.word? else none) = some xs
      rw [if_pos hhead, hxs]

theorem lambdaParams?_eq_some {v : Value} {xs : List String} (h : v.lambdaParams? = some xs) :
    ∃ head params us, v = .list (head :: .list params :: us) ∧ head.word? = some "lambda" ∧
      params.mapM Value.word? = some xs := by
  unfold Value.lambdaParams? at h
  split at h
  · next head params us =>
    split at h
    · next hh => exact ⟨head, params, us, rfl, (Value.name?_eq_some_iff (by decide) head).1 hh, h⟩
    · cases h
  · cases h

/-- the parameters of the first item are found -/
theorem scan_of_params (h : Items width table a vs (')' :: c)) (ha : Bare a) {xs : List String}
    (hp : vs.head?.bind Value.lambdaParams? = some xs) : ∃ p, params? a = some p := by
  obtain ⟨v, hv, hp⟩ := Option.bind_eq_some_iff.1 hp
  obtain ⟨vs', rfl⟩ := List.head?_eq_some_iff.1 hv
  obtain ⟨head, params, us, rfl, hhead, hparams⟩ := lambdaParams?_eq_some hp
  cases h with
  | cons hs _ _ =>
    obtain ⟨a, a', rfl, hg, hi⟩ := hs.open_of_list
    have ha₁ := ha.suffix (List.suffix_cons '(' a)
    have ha₂ := ha₁.suffix hg.suffix
    have hskip := skipBlank_eq hg ha₁ hi.not_blank
    cases hi with
    | @cons _ b r _ _ _ hsw hg' hi' =>
      obtain ⟨rfl, _, _, _⟩ := hsw.of_word hhead
      have hb₁ := ha₂.suffix (List.suffix_append _ b)
      have hb₂ := hb₁.suffix hg'.suffix
      have hskip' := skipBlank_eq hg' hb₁ hi'.not_blank
      cases hi' with
      | cons hs' _ _ =>
        obtain ⟨d, d', rfl, hgd, hid⟩ := hs'.open_of_list
        have hd₁ := hb₂.suffix (List.suffix_cons '(' d)
        have hend := dropWhile_of_words hid (hd₁.suffix hgd.suffix) hparams
        obtain ⟨g, rfl, hblank⟩ := hgd.exists_blanks hd₁
        rw [← List.dropWhile_append_of_pos fun k hk => isParamChar_of_blank (hblank k hk)] at hend
        exact ⟨_, Editor.params?_eq_some_iff.2 ⟨a, b, g ++ d', rfl, hskip, hskip', rfl, hend⟩⟩

theorem paramText_of_items (h : Items width table a vs (')' :: c)) (ha : Bare a) :
    ((params? a).map Prod.fst).map paramText
      = (vs.head?.bind Value.lambdaParams?).map (String.intercalate " ") := by
  cases hp : params? a with
  | some p =>
    obtain ⟨ps, rest⟩ := p
    obtain ⟨xs, hxs, htext⟩ := params_of_scan h ha hp
    rw [hxs, Option.map_some, Option.map_some, Option.map_some, htext]
  | none =>
    cases hx : vs.head?.bind Value.lambdaParams? with
    | none => rfl
    | some xs =>
      obtain ⟨p, hp'⟩ := scan_of_params h ha hx
      rw [hp] at hp'
      cases hp'

/-! ## definitions -/

/-- what the scan takes for a definition defines that name -/
theorem definedName?_of_match {s : List Char} {m : Match} (h : ListAt width table s vs)
    (hs : Bare s) (hm : match? s = some m) : definedName? vs = some (String.ofList m.name) := by
  obtain ⟨a, a', c, rfl, hg, hi⟩ := h
  obtain ⟨_, b, he, hb, hlt, hne, rfl⟩ := Editor.match?_eq_some_iff.1 hm
  injection he with _ he
  subst he
  have hstop : Stops IsLetter b := by
    cases b with
    | nil => trivial
    | cons k t =>
      intro hk
      rw [skipBlank_of_letter hk] at hlt
      exact absurd hlt (Nat.lt_irrefl _)
  obtain ⟨head, vs', rfl, hw, hi', _⟩ := word_of_scan hg hi (hs.suffix (List.suffix_cons '(' a)) hb
    (List.cons_ne_nil _ _) letters_let hstop
  rw [← List.takeWhile_append_dropWhile (p := Char.isLower) (l := skipBlank b)] at hi'
  have hletters : ∀ c ∈ (skipBlank b).takeWhile Char.isLower, IsLetter c :=
    fun c hc => (isLower_iff c).1 (List.mem_takeWhile_imp hc)
  obtain ⟨name, vs'', _, rfl, hname, _, _⟩ := hi'.exists_word hne hletters (stops_dropWhile _)
  have hhead : head.name? = some "let" := (Value.name?_eq_some_iff (by decide) head).2 hw
  show (if head.name? = some "let" then name.word? else none) = _
  rw [if_pos hhead, hname]
  rfl

theorem definedName?_eq_some {x : String} (h : definedName? vs = some x) :
    ∃ head name rest, vs = head :: name :: rest ∧ head.word? = some "let" ∧
      name.word? = some x := by
  unfold definedName? at h
  split at h
  · next head name rest =>
    split at h
    · next hh => exact ⟨head, name, rest, rfl, (Value.name?_eq_some_iff (by decide) head).1 hh, h⟩
    · cases h
  · cases h

/-- a list that defines a name is taken for a definition, from the place of the name on -/
theorem match_of_child {s n : List Char} {x : String} (h : ChildAt width table s vs 1 n)
    (hs : Bare s) (hx : definedName? vs = some x) :
    ∃ m, match? s = some m ∧ m.fromName = n ∧ m.name = x.toList ∧
      m.params.map paramText = (definedParams? vs).map (String.intercalate " ") := by
  obtain ⟨head, name, rest, rfl, hhead, hname⟩ := definedName?_eq_some hx
  obtain ⟨a, a', c, rfl, hg, hi⟩ := h
  have ha₁ := hs.suffix (List.suffix_cons '(' a)
  have ha₂ := ha₁.suffix hg.suffix
  have hskip := skipBlank_eq hg ha₁ hi.items.not_blank
  cases hi with
  | @there _ b _ _ _ _ _ _ hs₁ hg₁ hi =>
    cases hi with
    | @here _ e f _ _ _ hs₂ hg₂ hi₂ =>
      obtain ⟨rfl, _, _, hstop⟩ := hs₁.of_word hhead
      have hb₁ := ha₂.suffix (List.suffix_append _ b)
      have hn₁ := hb₁.suffix hg₁.suffix
      have hskip₁ := skipBlank_eq hg₁ hb₁ hs₂.not_blank
      obtain ⟨hn, hne, hletters, hstop₂⟩ := hs₂.of_word hname
      have hcut := cut_letters hletters hstop₂
      have hf : skipBlank e = f :=
        skipBlank_eq hg₂ (hn₁.suffix (spans_sexp hs₂ hn₁).suffix) hi₂.not_blank
      rw [← hn] at hcut
      refine ⟨Match.ofName n,
        Editor.match?_eq_some_iff.2 ⟨a, b, rfl, hskip, ?_, ?_, by rw [hskip₁]⟩, rfl, hcut.1, ?_⟩
      · -- letters follow letters only after a gap
        obtain ⟨g, rfl, _⟩ := hg₁.exists_blanks hb₁
        rw [hskip₁]
        refine length_lt_append ?_ n
        rintro rfl
        obtain ⟨k, t, he, hk⟩ := exists_start hne hletters e
        rw [List.nil_append, hn, he] at hstop
        exact hstop hk
      · rw [hskip₁, hcut.1]
        exact hne
      · have hparams : (Match.ofName n).params = (params? f).map Prod.fst := by
          show (params? (skipBlank (n.dropWhile Char.isLower))).map Prod.fst = _
          rw [hcut.2, hf]
        rw [hparams, paramText_of_items hi₂
          ((hn₁.suffix (spans_sexp hs₂ hn₁).suffix).suffix hg₂.suffix)]
        rw [definedParams?, List.getElem?_cons_succ, List.getElem?_cons_succ,
          List.head?_eq_getElem?]

end

/-! ## the whole text -/

section
variable {width table : Nat} {text s₀ s : List Char} {unit items : List Value} {i : Nat} {m : Match}

/-- the list that a whole text is -/
theorem listAt_of_isUnit (h : IsUnit width table text unit) :
    ∃ s₀, Gap text s₀ ∧ ListAt width table s₀ unit := by
  obtain ⟨a, b, c, hg, hg', hi, _⟩ := h
  exact ⟨'(' :: a, hg, a, b, c, rfl, hg', hi⟩

/-- the brackets of a text open the lists of its tree -/
theorem openings_of_isUnit (h : IsUnit width table text unit) (ht : Bare text) :
    List.Forall₂ (ListAt width table) (openings text) (Value.list unit).lists := by
  obtain ⟨a, b, c, hg, hg', hi, he⟩ := h
  have hs : Sexp width table ('(' :: a) (.list unit) c := .list hg' hi
  have ha := ht.suffix hg.suffix
  have hspan := ((spans_gap width table hg ht).trans (spans_sexp hs ha)).trans
    (spans_gap width table he (ha.suffix (spans_sexp hs ha).suffix))
  rw [List.nil_append, List.append_nil] at hspan
  obtain ⟨ss, hss, hls⟩ := hspan.listed
  have hnone : openings [] = [] := rfl
  rw [hss, hnone, List.append_nil]
  exact hls

/-- one after the other, the definitions at the brackets of a text are those of the lists of its
tree -/
theorem names_of_openings (h : IsUnit width table text unit) (ht : Bare text) :
    (openings text).map (fun s => (match? s).map fun m => String.ofList m.name)
      = (Value.list unit).lists.map definedName? := by
  have hbare : ∀ s ∈ openings text, Bare s := fun s hs => ht.suffix (mem_openings.1 hs).1
  rw [← List.forall₂_eq_eq_eq, List.forall₂_map_left_iff, List.forall₂_map_right_iff]
  refine ((List.forall₂_and_left _ _).2 ⟨hbare, openings_of_isUnit h ht⟩).imp ?_
  rintro s items ⟨hs, hl⟩
  cases hm : match? s with
  | some m => exact (definedName?_of_match hl hs hm).symm
  | none =>
    cases hx : definedName? items with
    | none => rfl
    | some x =>
      obtain ⟨head, name, rest, rfl, _⟩ := definedName?_eq_some hx
      obtain ⟨n, _, hn, _⟩ := exists_childAt (i := 1) (v := name) hl rfl
      obtain ⟨m, hm', _⟩ := match_of_child hn hs hx
      rw [hm] at hm'
      cases hm'

/-- a form of the unit is not inside a definition, so the scan finds it -/
theorem found_of_child (ht : Bare text) (hg : Gap text s₀) (h : ChildAt width table s₀ unit i s)
    (hm : match? s = some m) : m.found text.length ∈ found text := by
  obtain ⟨p, htext, hp⟩ := count_before_child ht hg h
  have hs : s <:+ text := htext ▸ List.suffix_append p s
  rcases Editor.found_or_covered hs hm with hf | ⟨s₁, m₁, hs₁, hm₁, hss, hlt, hr⟩
  · exact hf
  · obtain ⟨q, _, _, _, rfl, ho, hc⟩ := Editor.covered_by_params hm hm₁ hss hlt hr
    have hq : q <:+ p := List.suffix_append_self_iff.1 (htext ▸ hs₁)
    have hle := hp q hq
    omega

end

/-- the name that the form `i` of a unit defines stands here -/
def NameAt (width table : Nat) (text : List Char) (unit : List Value) (i : Nat) (items : List Value)
    (n : List Char) : Prop :=
  ∃ s₀ s, Gap text s₀ ∧ ChildAt width table s₀ unit i s ∧ ChildAt width table s items 1 n

/-- what an entry says of a definition -/
structure Editor.Definition.Describes (d : Editor.Definition) (items : List Value) : Prop where
  params : d.params = (definedParams? items).map (String.intercalate " ")
  function : d.role = .function ↔ (definedParams? items).isSome
  value : d.role = .value ↔ definedParams? items = none

/-- The index says what the tree says.  Names that forms of the unit define have entries
(`complete`), and entries are names that some list defines (`sound`).  If only one list of the tree
defines a name, and it is a form of the unit, its entry describes it and says where its name stands
(`described`). -/
structure IndexAgrees (width table : Nat) (m : Machine) (text : String) (unit : List Value) :
    Prop where
  complete : ∀ items x, .list items ∈ unit → definedName? items = some x →
    ∃ d, (Index.ofText m text).get? x = some d
  sound : ∀ d ∈ (Index.ofText m text).definitions,
    ∃ items ∈ (Value.list unit).lists, definedName? items = some d.name
  described : ∀ i items x, unit[i]? = some (.list items) → definedName? items = some x →
    (Value.list unit).lists.countP (fun l => decide (definedName? l = some x)) = 1 →
    ∃ d, (Index.ofText m text).get? x = some d ∧ d.Describes items ∧
      (∃ n, NameAt width table text.toList unit i items n) ∧
      ∀ n, NameAt width table text.toList unit i items n →
        (d.line, d.column) = Text.position text.toList (text.toList.length - n.length)

theorem Editor.Definition.describes_of_params {d : Editor.Definition} {items : List Value}
    (h : d.params = (definedParams? items).map (String.intercalate " ")) : d.Describes items := by
  refine ⟨h, ?_, ?_⟩
  all_goals
    rw [Editor.Definition.role, h, Option.isSome_map]
    cases definedParams? items <;> simp

section
variable {width table : Nat} {text : String} {unit items : List Value} {i : Nat} {x : String}

theorem exists_nameAt (h : IsUnit width table text.toList unit) (hi : unit[i]? = some (.list items))
    (hx : definedName? items = some x) : ∃ n, NameAt width table text.toList unit i items n := by
  obtain ⟨s₀, hg, hl⟩ := listAt_of_isUnit h
  obtain ⟨s, b, hs, hv⟩ := exists_childAt hl hi
  obtain ⟨c, d, rfl, hg', hi'⟩ := hv.open_of_list
  obtain ⟨head, name, rest, rfl, _⟩ := definedName?_eq_some hx
  obtain ⟨n, _, hn, _⟩ := exists_childAt (i := 1) (v := name) ⟨c, d, b, rfl, hg', hi'⟩ rfl
  exact ⟨n, s₀, _, hg, hs, hn⟩

/-- the definition whose name stands at `n` is found, with that name, place and parameters -/
theorem found_of_nameAt {n : List Char} (ht : Bare text.toList)
    (h : NameAt width table text.toList unit i items n) (hx : definedName? items = some x) :
    ∃ s m, s <:+ text.toList ∧ match? s = some m ∧
      m.found text.toList.length ∈ found text.toList ∧ m.fromName = n ∧ m.name = x.toList ∧
      m.params.map paramText = (definedParams? items).map (String.intercalate " ") := by
  obtain ⟨s₀, s, hg, hs, hn⟩ := h
  obtain ⟨p, htext, _⟩ := count_before_child ht hg hs
  have hsuffix : s <:+ text.toList := htext ▸ List.suffix_append p s
  obtain ⟨m, hm, hfrom, hname, hparams⟩ := match_of_child hn (ht.suffix hsuffix) hx
  exact ⟨s, m, hsuffix, hm, found_of_child ht hg hs hm, hfrom, hname, hparams⟩

theorem mem_openings_of_match {s : List Char} {m : Match} (hs : s <:+ text.toList)
    (hm : match? s = some m) :
    s ∈ openings text.toList := by
  obtain ⟨a, _, rfl, _⟩ := Editor.match?_eq_some_iff.1 hm
  exact mem_openings.2 ⟨hs, rfl⟩

/-- if one list of the tree defines a name, there is one definition of it in the text -/
theorem match_unique (h : IsUnit width table text.toList unit) (ht : Bare text.toList)
    (hone : (Value.list unit).lists.countP (fun l => decide (definedName? l = some x)) = 1)
    {s s' : List Char} {m m' : Match} (hs : s <:+ text.toList) (hm : match? s = some m)
    (hx : String.ofList m.name = x) (hs' : s' <:+ text.toList) (hm' : match? s' = some m')
    (hx' : String.ofList m'.name = x) : m = m' := by
  let defines : List Char → Bool :=
    fun s => decide ((match? s).map (fun m => String.ofList m.name) = some x)
  have hcount : (openings text.toList).countP defines = 1 := by
    have hnames := congrArg (List.countP fun y => decide (y = some x)) (names_of_openings h ht)
    rw [List.countP_map, List.countP_map] at hnames
    exact hnames.trans hone
  rw [List.countP_eq_length_filter, List.length_eq_one_iff] at hcount
  obtain ⟨t, hcount⟩ := hcount
  have hall : ∀ s m, s <:+ text.toList → match? s = some m → String.ofList m.name = x → s = t := by
    intro s m hs hm hx
    have hmem : s ∈ (openings text.toList).filter defines := by
      refine List.mem_filter.2 ⟨mem_openings_of_match hs hm, decide_eq_true ?_⟩
      rw [hm, Option.map_some, hx]
    rw [hcount] at hmem
    exact List.mem_singleton.1 hmem
  obtain rfl := hall s m hs hm hx
  obtain rfl := hall s' m' hs' hm' hx'
  rw [hm] at hm'
  injection hm'

end

/-- **The index agrees with the reader.** For every text without quotation marks and semicolons that
is read as a unit, whatever the machine, the table and the limits of the reader. -/
theorem index_agrees_with_reading (machine : Machine) (text : String) (table : SymbolTable)
    (lim : Limits) (unit : List Value) (r : Reader)
    (hread : Reading.unit (Reader.ofText text table lim) = .ok unit r) (hquote : '"' ∉ text.toList)
    (hcomment : ';' ∉ text.toList) : IndexAgrees lim.width table.id machine text unit := by
  have ht : Bare text.toList := ⟨hquote, hcomment⟩
  have hunit : IsUnit lim.width table.id text.toList unit :=
    (isUnit_iff _).2 (Reading.isExpression_of_expression ((Reading.unit_eq_ok_iff _ _ _).1 hread))
  refine ⟨?_, ?_, ?_⟩
  · intro items x hitems hx
    obtain ⟨i, hi⟩ := List.mem_iff_getElem?.1 hitems
    obtain ⟨n, hn⟩ := exists_nameAt hunit hi hx
    obtain ⟨s, m, _, _, hf, _, hname, _⟩ := found_of_nameAt ht hn hx
    have hd := Editor.exists_get?_of_found hf machine
    have hfname : (m.found text.toList.length).name = x.toList := hname
    rwa [hfname, String.ofList_toList] at hd
  · intro d hd
    obtain ⟨f, hf, rfl⟩ := Editor.mem_definitions hd
    obtain ⟨s, m, hs, hm, rfl⟩ := Editor.exists_match hf
    have hmem : (match? s).map (fun m => String.ofList m.name)
        ∈ (openings text.toList).map fun s => (match? s).map fun m => String.ofList m.name :=
      List.mem_map_of_mem (mem_openings_of_match hs hm)
    rw [names_of_openings hunit ht, hm] at hmem
    obtain ⟨items, hitems, hx⟩ := List.mem_map.1 hmem
    exact ⟨items, hitems, hx⟩
  · intro i items x hi hx hone
    obtain ⟨n₀, hn₀⟩ := exists_nameAt hunit hi hx
    obtain ⟨s₀, m₀, hs₀, hm₀, hf₀, _, hname₀, hparams₀⟩ := found_of_nameAt ht hn₀ hx
    have hx₀ : String.ofList m₀.name = x := by rw [hname₀, String.ofList_toList]
    obtain ⟨d, hd⟩ := Editor.exists_get?_of_found hf₀ machine
    have hd : (Index.ofText machine text).get? x = some d := hx₀ ▸ hd
    obtain ⟨f, hf, rfl, hfx⟩ := Editor.exists_found_of_get? hd
    obtain ⟨s, m, hs, hm, rfl⟩ := Editor.exists_match hf
    -- the entry comes from the only definition of the name
    have hentry : ∀ {s' m'}, s' <:+ text.toList → match? s' = some m' → m'.name = x.toList →
        m = m' :=
      fun hs' hm' hx' => match_unique hunit ht hone hs hm hfx hs' hm'
        (by rw [hx', String.ofList_toList])
    refine ⟨_, hd, ?_, ⟨n₀, hn₀⟩, ?_⟩
    · obtain rfl := hentry hs₀ hm₀ hname₀
      exact Editor.Definition.describes_of_params hparams₀
    · intro n hn
      obtain ⟨s', m', hs', hm', _, hfrom, hname, _⟩ := found_of_nameAt ht hn hx
      obtain rfl := hentry hs' hm' hname
      rw [← hfrom]
      rfl

/-- one form, which defines a function of two parameters -/
def indexedText : String := "((let f\n(lambda (x nil) x)))"

def indexedUnit : List Value :=
  let params := Value.list [.symbol ⟨0, "x"⟩, .nil]
  [.list [.symbol ⟨0, "let"⟩, .symbol ⟨0, "f"⟩,
    .list [.symbol ⟨0, "lambda"⟩, params, .symbol ⟨0, "x"⟩]]]

theorem index_agrees_on_function :
    let m : Machine := .newProcess 1000
    IndexAgrees 32 0 m indexedText indexedUnit ∧
      ∃ d, (Index.ofText m indexedText).get? "f" = some d ∧ d.params = some "x nil" := by
  intro m
  have hstages : Progress.outcome ⟨32, 9⟩ .unit (.start (.empty 0)) indexedText.toList
      = .ok (.list indexedUnit, ⟨0, ["let", "f", "lambda", "x"]⟩) := rfl
  obtain ⟨r, hread⟩ := Progress.exists_unit_of_outcome hstages
  have h : IndexAgrees 32 0 m indexedText indexedUnit :=
    index_agrees_with_reading m indexedText (.empty 0) ⟨32, 9⟩ indexedUnit r hread (by decide)
      (by decide)
  obtain ⟨d, hd, hdescribes, _⟩ := h.described 0 _ "f" rfl (by decide) (by decide)
  exact ⟨h, d, hd, hdescribes.params⟩

end Lisplet
