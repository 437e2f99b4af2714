import Mathlib
import Lisplet.Proofs.Documents
import Lisplet.Proofs.Indexing

/-!
# The entries of an index

Each entry of an index points at a place of its text where its name is defined, whether the text can
be read or not.  Such places are described without the scan: a bracket, `let` and a name, with white
space between them (`LetPlace`).

The scan finds every such place but one kind.  A function's parameters stand between brackets and
may look like a definition, as in `(let f (lambda (let x) x))`, and the scan goes on after them
(`isParameterList_of_covered`).  No function starts inside of another definition, so the functions
themselves are all found (`function_found`).

What is found is in the order of the text (`pairwise_foundFrom`), and the entry of a name is the
last that was found of it (`find?_foldl_put`).  So after the place that an entry points at, its name
is defined in parameter lists only.
-/

namespace Lisplet.Editor

open Grammar Text

/-! ## places where a name is defined -/

def Blanks (g : List Char) : Prop := ∀ c ∈ g, isBlank c = true

/-- the text of a definition before its name -/
def LetHead (head : List Char) : Prop :=
  ∃ g k, head = '(' :: (g ++ (['l', 'e', 't'] ++ k)) ∧ Blanks g ∧ Blanks k ∧ k ≠ []

/-- the text of a function's definition between its name and its parameters -/
def LambdaHead (head : List Char) : Prop :=
  ∃ j g k, head = j ++ '(' :: (g ++ (['l', 'a', 'm', 'b', 'd', 'a'] ++ k)) ∧ Blanks j ∧ Blanks g ∧
    Blanks k

/-- a name is defined in a text, after what stands `before` and the `head` of the definition -/
structure LetPlace (text before head name rest : List Char) : Prop where
  eq : text = before ++ (head ++ (name ++ rest))
  head : LetHead head
  ne_nil : name ≠ []
  letters : ∀ c ∈ name, IsLetter c
  stops : Stops IsLetter rest

/-- what stands after `before` is the parameter list of a function that the scan finds -/
def IsParameterList (text before : List Char) : Prop :=
  ∃ a head name l ps rest, before = a ++ (head ++ (name ++ l)) ∧
    text = before ++ '(' :: (ps ++ ')' :: rest) ∧
    LetHead head ∧ LambdaHead l ∧ (∀ c ∈ ps, isParamChar c = true) ∧
    ⟨name, (a ++ head).length, some ps⟩ ∈ found text

/-! ## the scan and the places -/

theorem skipBlank_append {g a : List Char} (h : Blanks g) : skipBlank (g ++ a) = skipBlank a :=
  List.dropWhile_append_of_pos h

section
variable {text s : List Char} {m : Match}

/-- a definition stands where the scan sees one -/
theorem letPlace_of_match (hs : s <:+ text) (hm : match? s = some m) : ∃ before head rest,
    LetPlace text before head m.name rest ∧ s = head ++ (m.name ++ rest) ∧
      m = Match.ofName (m.name ++ rest) ∧
      m.found text.length = ⟨m.name, (before ++ head).length, m.params⟩ := by
  obtain ⟨a, b, rfl, ha, hlt, hne, rfl⟩ := match?_eq_some_iff.1 hm
  obtain ⟨g, hg, hgb⟩ := exists_blanks a
  obtain ⟨k, hk, hkb⟩ := exists_blanks b
  obtain ⟨before, rfl⟩ := hs
  have hk' : k ≠ [] := by
    rintro rfl
    rw [List.nil_append] at hk
    rw [← hk] at hlt
    exact absurd hlt (Nat.lt_irrefl _)
  have hcut : (Match.ofName (skipBlank b)).name ++ (skipBlank b).dropWhile Char.isLower
      = skipBlank b :=
    List.takeWhile_append_dropWhile
  have hsplit : '(' :: a = ('(' :: (g ++ (['l', 'e', 't'] ++ k))) ++ skipBlank b := by
    show '(' :: a = '(' :: ((g ++ (['l', 'e', 't'] ++ k)) ++ skipBlank b)
    rw [List.append_assoc, List.append_assoc, ← hk, ← ha, ← hg]
  refine ⟨before, '(' :: (g ++ (['l', 'e', 't'] ++ k)), (skipBlank b).dropWhile Char.isLower,
    ⟨?_, ⟨g, k, rfl, hgb, hkb, hk'⟩, hne, ?_, stops_dropWhile _⟩, ?_, ?_, ?_⟩
  · rw [hcut, ← hsplit]
  · intro c hc
    exact (isLower_iff c).1 (List.mem_takeWhile_imp hc)
  · rw [hcut, ← hsplit]
  · rw [hcut]
  · show Found.mk _ _ _ = Found.mk _ _ _
    congr 1
    show (before ++ '(' :: a).length - (skipBlank b).length = _
    rw [hsplit]
    simp only [List.length_append]
    omega

/-- and the scan sees one at each such place -/
theorem match_of_letPlace {before head name rest : List Char}
    (h : LetPlace text before head name rest) :
    ∃ m, match? (head ++ (name ++ rest)) = some m ∧ m.name = name ∧
      m.found text.length = ⟨name, (before ++ head).length, m.params⟩ := by
  obtain ⟨heq, ⟨g, k, rfl, hg, hk, hne⟩, hname, hletters, hstops⟩ := h
  obtain ⟨htake, _⟩ := cut_letters hletters hstops
  have hskip : skipBlank (k ++ (name ++ rest)) = name ++ rest := by
    obtain ⟨c, t, he, hc⟩ := exists_start hname hletters rest
    rw [skipBlank_append hk, he, skipBlank_of_letter hc]
  refine ⟨Match.ofName (name ++ rest), ?_, htake, ?_⟩
  · refine match?_eq_some_iff.2
      ⟨g ++ (['l', 'e', 't'] ++ (k ++ (name ++ rest))), k ++ (name ++ rest), ?_, ?_, ?_, ?_, ?_⟩
    · simp
    · rw [skipBlank_append hg]
      exact skipBlank_of_letter (by decide) _
    · have hpos := List.length_pos_of_ne_nil hne
      have hlen : (k ++ (name ++ rest)).length = k.length + (name ++ rest).length :=
        List.length_append
      rw [hskip]
      omega
    · rw [hskip, htake]
      exact hname
    · rw [hskip]
  · show Found.mk _ _ _ = Found.mk _ _ _
    congr 1
    show text.length - (name ++ rest).length = _
    rw [heq]
    simp only [List.length_append]
    omega

/-- the parameters of a function, and what stands between them and its name -/
theorem exists_lambdaHead {n ps : List Char} (h : (Match.ofName n).params = some ps) : ∃ l,
    n.dropWhile Char.isLower = l ++ '(' :: (ps ++ ')' :: (Match.ofName n).rest) ∧ LambdaHead l ∧
      ∀ c ∈ ps, isParamChar c = true := by
  obtain ⟨j, hj, hjb⟩ := exists_blanks (n.dropWhile Char.isLower)
  cases hp : params? (skipBlank (n.dropWhile Char.isLower)) with
  | none => simp [Match.ofName, hp] at h
  | some p =>
    obtain ⟨qs, rest⟩ := p
    obtain rfl : qs = ps := by simpa [Match.ofName, hp] using h
    have hrest : (Match.ofName n).rest = rest := by simp [Match.ofName, hp]
    obtain ⟨a, b, d, hr, ha, hb, hps, hd⟩ := params?_eq_some_iff.1 hp
    obtain ⟨g, hg, hgb⟩ := exists_blanks a
    obtain ⟨k, hk, hkb⟩ := exists_blanks b
    refine ⟨j ++ '(' :: (g ++ (['l', 'a', 'm', 'b', 'd', 'a'] ++ k)), ?_,
      ⟨j, g, k, rfl, hjb, hgb, hkb⟩, ?_⟩
    · have hlist : qs ++ ')' :: rest = d := by rw [← hps, ← hd, List.takeWhile_append_dropWhile]
      rw [hrest, hlist, List.append_assoc, ← hb]
      show _ = j ++ '(' :: ((g ++ (['l', 'a', 'm', 'b', 'd', 'a'] ++ k)) ++ skipBlank b)
      rw [List.append_assoc, List.append_assoc, ← hk, ← ha, ← hg, ← hr, ← hj]
    · intro c hc
      rw [← hps] at hc
      exact List.mem_takeWhile_imp hc

theorem noBrackets_of_params {ps : List Char} (h : ∀ c ∈ ps, isParamChar c = true) :
    NoBrackets ps :=
  noBrackets_of_all h (by decide) (by decide)

/-- the first bracket of a text opens or closes -/
theorem bracket_unique {u p x y : List Char} (hu : NoBrackets u) (hp : NoBrackets p) :
    u ++ '(' :: x ≠ p ++ ')' :: y := by
  induction u generalizing p with
  | nil =>
    cases p with
    | nil => simp
    | cons c p =>
      intro h
      injection h with hc _
      exact (hp c (List.mem_cons_self ..)).1 hc.symm
  | cons c u ih =>
    cases p with
    | nil =>
      intro h
      injection h with hc _
      exact (hu c (List.mem_cons_self ..)).2 hc
    | cons d p =>
      intro h
      injection h with _ h
      exact ih (fun e he => hu e (List.mem_cons_of_mem _ he))
        (fun e he => hp e (List.mem_cons_of_mem _ he)) h

/-- **A function is found wherever it stands**: a definition that is covered has no bracket before
the one that closes it, and that of a function has one. -/
theorem function_found (hs : s <:+ text) (hm : match? s = some m) {ps : List Char}
    (hp : m.params = some ps) :
    m.found text.length ∈ found text := by
  rcases found_or_covered hs hm with h | ⟨s₀, m₀, hs₀, hm₀, hss, hlt, hr⟩
  · exact h
  · exfalso
    obtain ⟨q, qs, hqs, hs', _⟩ := covered_by_params hm hm₀ hss hlt hr
    obtain ⟨_, _, _, _, _, hof, _⟩ := letPlace_of_match hs₀ hm₀
    have hqb : NoBrackets qs := by
      rw [hof] at hqs
      obtain ⟨_, _, _, hqs⟩ := exists_lambdaHead hqs
      exact noBrackets_of_params hqs
    obtain ⟨u, r, hu, hub, _, hcase⟩ := match?_shape hm
    rcases hcase with ⟨hnone, _⟩ | ⟨_, _, hr⟩
    · rw [hp] at hnone
      cases hnone
    · obtain ⟨v, hv, _⟩ := params?_shape hr
      rw [hu, hv] at hs'
      injection hs' with _ hs'
      exact bracket_unique hub hqb hs'

/-- a definition that is covered is the parameter list of a function that is found -/
theorem isParameterList_of_covered {before : List Char} (hs : text = before ++ s)
    (hm : match? s = some m) (hc : Covered text s) : IsParameterList text before := by
  obtain ⟨s₀, m₀, hs₀, hm₀, hss, hlt, hr⟩ := hc
  obtain ⟨q, ps, hps, hs', _⟩ := covered_by_params hm hm₀ hss hlt hr
  have hfound := function_found hs₀ hm₀ hps
  obtain ⟨a, head, rest, hplace, hs₀', hof, hf⟩ := letPlace_of_match hs₀ hm₀
  rw [hf, hps] at hfound
  obtain ⟨_, hdrop⟩ := cut_letters hplace.letters hplace.stops
  have hparams := hps
  rw [hof] at hparams
  obtain ⟨l, hl, hlhead, hchars⟩ := exists_lambdaHead hparams
  rw [hdrop, ← hof] at hl
  have htext : text = (a ++ (head ++ (m₀.name ++ l))) ++ s := by
    rw [hs', hplace.eq, hl]
    simp
  refine ⟨a, head, m₀.name, l, ps, m₀.rest, ?_, ?_, hplace.head, hlhead, hchars, hfound⟩
  · exact List.append_cancel_right (hs.symm.trans htext)
  · rw [← hs']
    exact hs

/-- a place where a name is defined is found, or it is a parameter list -/
theorem found_or_parameterList {before head name rest : List Char}
    (h : LetPlace text before head name rest) :
    (∃ params, ⟨name, (before ++ head).length, params⟩ ∈ found text) ∨
      IsParameterList text before := by
  obtain ⟨m, hm, _, hf⟩ := match_of_letPlace h
  have hs : head ++ (name ++ rest) <:+ text := h.eq ▸ List.suffix_append before _
  rcases found_or_covered hs hm with hmem | hc
  · rw [hf] at hmem
    exact .inl ⟨m.params, hmem⟩
  · exact .inr (isParameterList_of_covered h.eq hm hc)

/-! ## the order of what is found -/

theorem rest_ofName_suffix (n : List Char) :
    (Match.ofName n).rest <:+ n.dropWhile Char.isLower := by
  have hskip : skipBlank (n.dropWhile Char.isLower) <:+ n.dropWhile Char.isLower :=
    List.dropWhile_suffix _
  refine List.IsSuffix.trans ?_ hskip
  cases hp : params? (skipBlank (n.dropWhile Char.isLower)) with
  | none =>
    have hrest : (Match.ofName n).rest
        = skipBlank (n.dropWhile Char.isLower) := by simp [Match.ofName, hp]
    rw [hrest]
  | some p =>
    obtain ⟨ps, rest⟩ := p
    have hrest : (Match.ofName n).rest = rest := by simp [Match.ofName, hp]
    obtain ⟨v, hv, _⟩ := params?_shape hp
    rw [hrest, hv]
    exact ⟨'(' :: (v ++ '(' :: (ps ++ [')'])), by simp⟩

/-- the scan goes on after a definition, and its name stands before that -/
theorem rest_lt_fromName (hm : match? s = some m) : m.rest.length < m.fromName.length := by
  obtain ⟨_, b, _, _, _, hne, rfl⟩ := match?_eq_some_iff.1 hm
  have hname := List.length_pos_of_ne_nil hne
  have hrest := (rest_ofName_suffix (skipBlank b)).length_le
  have hlen := congrArg List.length
    (List.takeWhile_append_dropWhile (p := Char.isLower) (l := skipBlank b))
  rw [List.length_append] at hlen
  show (Match.ofName (skipBlank b)).rest.length < (skipBlank b).length
  omega

end

theorem le_offset {skip offset : Nat} {cs : List Char} {f : Found}
    (h : f ∈ foundFrom skip offset cs) :
    offset + skip ≤ f.offset := by
  induction cs generalizing skip offset with
  | nil =>
    rw [foundFrom] at h
    exact absurd h List.not_mem_nil
  | cons c cs ih =>
    cases skip with
    | succ skip =>
      have hle := ih h
      omega
    | zero =>
      rw [foundFrom] at h
      cases hm : match? (c :: cs) with
      | none =>
        rw [hm] at h
        have hle := ih h
        omega
      | some m =>
        rw [hm] at h
        rcases List.mem_cons.1 h with rfl | h
        · exact Nat.le_add_right _ _
        · have hle := ih h
          omega

theorem pairwise_foundFrom (skip offset : Nat) (cs : List Char) :
    (foundFrom skip offset cs).Pairwise fun f g => f.offset < g.offset := by
  induction cs generalizing skip offset with
  | nil =>
    rw [foundFrom]
    exact List.Pairwise.nil
  | cons c cs ih =>
    cases skip with
    | succ skip => exact ih skip (offset + 1)
    | zero =>
      rw [foundFrom]
      cases hm : match? (c :: cs) with
      | none => exact ih 0 (offset + 1)
      | some m =>
        refine List.Pairwise.cons ?_ (ih _ _)
        intro g hg
        have hle := le_offset hg
        have hlt := rest_lt_fromName hm
        have hrest : m.rest.length ≤ cs.length := (rest_suffix hm).length_le
        show offset + ((c :: cs).length - m.fromName.length) < g.offset
        rw [List.length_cons]
        omega

/-! ## the last definition of a name -/

theorem find?_put (d : Definition) (ds : List Definition) (x : String) :
    (put d ds).find? (fun e => e.name = x) = if d.name = x then some d
      else ds.find? fun e => e.name = x := by
  induction ds with
  | nil =>
    by_cases hx : d.name = x
    · simp [put, hx]
    · simp [put, hx]
  | cons e ds ih =>
    rw [put]
    by_cases he : e.name = d.name
    · rw [if_pos he]
      by_cases hx : d.name = x
      · simp [hx]
      · simp [he, hx]
    · rw [if_neg he]
      by_cases hx : e.name = x
      · have hd : d.name ≠ x := fun h => he (hx.trans h.symm)
        simp [hx, hd]
      · rw [List.find?_cons_of_neg (by simpa using hx), ih,
          List.find?_cons_of_neg (by simpa using hx)]

/-- of the definitions that are put one after the other, the last one of a name stays -/
theorem find?_foldl_put (fs ds : List Definition) (x : String) :
    (fs.foldl (fun ds d => put d ds) ds).find? (fun e => e.name = x)
      = (fs.reverse.find? fun e => e.name = x).or (ds.find? fun e => e.name = x) := by
  induction fs generalizing ds with
  | nil => rfl
  | cons f fs ih =>
    rw [List.foldl_cons, ih, find?_put, List.reverse_cons, List.find?_append, Option.or_assoc]
    congr 1
    by_cases hx : f.name = x
    · simp [hx]
    · simp [hx]

theorem nodup_put {d : Definition} {ds : List Definition} (h : (ds.map Definition.name).Nodup) :
    ((put d ds).map Definition.name).Nodup := by
  induction ds with
  | nil => simp [put]
  | cons e ds ih =>
    rw [List.map_cons, List.nodup_cons] at h
    rw [put]
    split
    · next he =>
      rw [List.map_cons, List.nodup_cons, ← he]
      exact h
    · next he =>
      rw [List.map_cons, List.nodup_cons, map_name_put]
      refine ⟨?_, ih h.2⟩
      rintro (hn | hn)
      · exact he hn
      · exact h.1 hn

theorem nodup_definitions (text : List Char) : ((definitions text).map Definition.name).Nodup := by
  have hall : ∀ fs ds : List Definition, (ds.map Definition.name).Nodup →
      ((fs.foldl (fun ds d => put d ds) ds).map Definition.name).Nodup := by
    intro fs
    induction fs with
    | nil => exact fun _ h => h
    | cons f fs ih => exact fun ds h => ih _ (nodup_put h)
  exact hall _ [] List.nodup_nil

/-- where names differ, an entry is found under its own -/
theorem find?_of_nodup {ds : List Definition} (hn : (ds.map Definition.name).Nodup) {d : Definition}
    (hd : d ∈ ds) :
    ds.find? (fun e => e.name = d.name) = some d := by
  induction ds with
  | nil => exact absurd hd List.not_mem_nil
  | cons e ds ih =>
    rw [List.map_cons, List.nodup_cons] at hn
    rcases List.mem_cons.1 hd with rfl | hd
    · exact List.find?_cons_of_pos (by simp)
    · have he : e.name ≠ d.name := fun h => hn.1 (h ▸ List.mem_map_of_mem hd)
      rw [List.find?_cons_of_neg (by simpa using he)]
      exact ih hn.2 hd

theorem get?_eq_some_iff {m : Machine} {text x : String} {d : Definition} :
    (Index.ofText m text).get? x = some d ↔ d ∈ (Index.ofText m text).definitions ∧ d.name = x := by
  constructor
  · intro h
    have hname := List.find?_some h
    exact ⟨List.mem_of_find?_eq_some h, of_decide_eq_true hname⟩
  · rintro ⟨hd, rfl⟩
    exact find?_of_nodup (nodup_definitions text.toList) hd

/-- an entry comes from what was found of its name at the greatest offset -/
theorem exists_last_found {text : List Char} {d : Definition} (h : d ∈ definitions text) :
    ∃ f ∈ found text, d = f.definition text ∧
      ∀ g ∈ found text, String.ofList g.name = d.name → g.offset ≤ f.offset := by
  have hfind := find?_of_nodup (nodup_definitions text) h
  rw [definitions, find?_foldl_put, List.find?_nil, Option.or_none, ← List.map_reverse,
    List.find?_map] at hfind
  obtain ⟨f, hf, rfl⟩ := Option.map_eq_some_iff.1 hfind
  obtain ⟨_, as, bs, hsplit, hbefore⟩ := List.find?_eq_some_iff_append.1 hf
  -- `as` holds what was found after `f`, last first
  have hfound : found text = bs.reverse ++ f :: as.reverse := by
    have hr := congrArg List.reverse hsplit
    simpa using hr
  refine ⟨f, by rw [hfound]; simp, rfl, ?_⟩
  intro g hg hname
  have horder := pairwise_foundFrom 0 0 text
  have hin : foundFrom 0 0 text = bs.reverse ++ f :: as.reverse := hfound
  rw [hfound] at hg
  rw [hin] at horder
  rcases List.mem_append.1 hg with hg | hg
  · exact Nat.le_of_lt ((List.pairwise_append.1 horder).2.2 g hg f (List.mem_cons_self ..))
  · rcases List.mem_cons.1 hg with rfl | hg
    · exact Nat.le_refl _
    · have hne := hbefore g (List.mem_reverse.1 hg)
      have hname' : (Found.definition text g).name = (Found.definition text f).name := hname
      simp [hname'] at hne

/-! ## rows -/

/-- how the text `before` a place is cut at line feeds: `rows` that have ended, and what stands
`left` of the place -/
structure RowsBefore (before : List Char) (rows : List (List Char)) (left : List Char) : Prop where
  unbroken : ∀ c ∈ left, c ≠ '\n'
  cut : ∀ rest, (before ++ rest).splitOn '\n' = rows ++ (left ++ rest).splitOn '\n'
  line : rows.length = before.count '\n'
  column : left.length = sinceBreak before

theorem splitOn_unbroken {row : List Char} (h : ∀ c ∈ row, c ≠ '\n') :
    row.splitOn '\n' = [row] := by
  apply List.splitOnP_eq_singleton
  intro c hc
  simpa using h c hc

theorem exists_rowsBefore (before : List Char) : ∃ rows left, RowsBefore before rows left := by
  induction before using List.reverseRecOn with
  | nil => exact ⟨[], [], nofun, fun _ => rfl, rfl, rfl⟩
  | append_singleton before c ih =>
    obtain ⟨rows, left, hunbroken, hcut, hline, hcolumn⟩ := ih
    by_cases hc : c = '\n'
    · subst hc
      refine ⟨rows ++ [left], [], nofun, ?_, ?_, ?_⟩
      · intro rest
        have hbreak : (left ++ '\n' :: rest).splitOn '\n'
            = left.splitOn '\n' ++ rest.splitOn '\n' :=
          List.splitOnP_append_cons left rest (by decide)
        rw [List.append_assoc, List.singleton_append, hcut, hbreak, splitOn_unbroken hunbroken,
          List.append_assoc,
          List.nil_append]
      · rw [List.length_append, hline, List.count_append]
        rfl
      · rw [sinceBreak_concat, if_pos rfl]
        rfl
    · refine ⟨rows, left ++ [c], ?_, ?_, ?_, ?_⟩
      · intro d hd
        rcases List.mem_append.1 hd with hd | hd
        · exact hunbroken d hd
        · rw [List.mem_singleton.1 hd]
          exact hc
      · intro rest
        rw [List.append_assoc, hcut, List.append_assoc]
      · rw [hline, List.count_append, List.count_singleton, if_neg (by simpa using hc)]
        rfl
      · rw [sinceBreak_concat, if_neg hc, List.length_append, hcolumn]
        rfl

/-- the first row goes on after a text without line feeds -/
theorem exists_firstRow {cs : List Char} (h : ∀ c ∈ cs, c ≠ '\n') (rest : List Char) :
    ∃ right more, (cs ++ rest).splitOn '\n' = (cs ++ right) :: more := by
  induction cs with
  | nil =>
    obtain ⟨right, more, he⟩ := List.exists_cons_of_ne_nil (List.splitOn_ne_nil '\n' rest)
    exact ⟨right, more, he⟩
  | cons c cs ih =>
    obtain ⟨right, more, he⟩ := ih fun d hd => h d (List.mem_cons_of_mem _ hd)
    have hc : ¬ (c == '\n') = true := by simpa using h c (List.mem_cons_self ..)
    have hcons : ((c :: cs) ++ rest).splitOn '\n'
        = ((cs ++ rest).splitOn '\n').modifyHead (List.cons c) := by
      show List.splitOnP _ (c :: (cs ++ rest)) = _
      rw [List.splitOnP_cons_eq_if_modifyHead, if_neg hc]
      rfl
    exact ⟨right, more, by rw [hcons, he]; rfl⟩

/-! ## what entries point at -/

/-- an entry points at a place of the text where its name is defined -/
structure PointsAt (text : List Char) (d : Definition) (before head rest : List Char) : Prop where
  place : LetPlace text before head d.name.toList rest
  /-- cut at line feeds, the text has the name in the row of the entry, from its column on -/
  row : ∃ rows left right, (before ++ head).splitOn '\n' = rows ++ [left] ∧ rows.length = d.line ∧
    left.length = d.column ∧ (text.splitOn '\n')[d.line]? = some (left ++ (d.name.toList ++ right))
  /-- where the name is defined later on, it is in a parameter list -/
  last : ∀ before' head' rest', LetPlace text before' head' d.name.toList rest' →
    (before ++ head).length < (before' ++ head').length → IsParameterList text before'

theorem row_of_letPlace {text before head name rest : List Char}
    (h : LetPlace text before head name rest) :
    ∃ rows left right, (before ++ head).splitOn '\n' = rows ++ [left] ∧
      position text (before ++ head).length = (rows.length, left.length) ∧
      (text.splitOn '\n')[rows.length]? = some (left ++ (name ++ right)) := by
  obtain ⟨rows, left, hunbroken, hcut, hline, hcolumn⟩ := exists_rowsBefore (before ++ head)
  have htext : text = (before ++ head) ++ (name ++ rest) := by rw [h.eq, List.append_assoc]
  have hbroken : ∀ c ∈ left ++ name, c ≠ '\n' := by
    intro c hc
    rcases List.mem_append.1 hc with hc | hc
    · exact hunbroken c hc
    · rintro rfl
      exact absurd (h.letters _ hc) (by decide)
  obtain ⟨right, more, hrow⟩ := exists_firstRow hbroken rest
  refine ⟨rows, left, right, ?_, ?_, ?_⟩
  · have hnone := hcut []
    rw [List.append_nil, List.append_nil] at hnone
    rw [hnone, splitOn_unbroken hunbroken]
  · have htake : text.take (before ++ head).length = before ++ head := by
      rw [htext]
      exact List.take_left
    rw [position, htake, Nat.sub_self, hline, hcolumn]
    rfl
  · rw [htext, hcut, ← List.append_assoc left, hrow, List.getElem?_append_right (Nat.le_refl _),
      Nat.sub_self,
      List.append_assoc]
    rfl

theorem exists_pointsAt {text : List Char} {d : Definition} (h : d ∈ definitions text) :
    ∃ before head rest, PointsAt text d before head rest := by
  obtain ⟨f, hf, rfl, hlast⟩ := exists_last_found h
  obtain ⟨s, m, hs, hm, rfl⟩ := exists_match hf
  obtain ⟨before, head, rest, hplace, _, _, hfound⟩ := letPlace_of_match hs hm
  rw [hfound] at hf hlast ⊢
  have hname : (Found.definition text ⟨m.name, (before ++ head).length, m.params⟩).name.toList
      = m.name :=
    String.toList_ofList
  refine ⟨before, head, rest, ?_, ?_, ?_⟩
  · rw [hname]
    exact hplace
  · obtain ⟨rows, left, right, hrows, hposition, hrow⟩ := row_of_letPlace hplace
    have hline : (Found.definition text ⟨m.name, (before ++ head).length, m.params⟩).line
        = rows.length :=
      congrArg Prod.fst hposition
    have hcolumn : (Found.definition text ⟨m.name, (before ++ head).length, m.params⟩).column
        = left.length :=
      congrArg Prod.snd hposition
    refine ⟨rows, left, right, hrows, hline.symm, hcolumn.symm, ?_⟩
    rw [hline, hname]
    exact hrow
  · intro before' head' rest' hplace' hlt
    rw [hname] at hplace'
    rcases found_or_parameterList hplace' with ⟨params, hfound'⟩ | hp
    · have hle : (before' ++ head').length ≤ (before ++ head).length := hlast _ hfound' rfl
      omega
    · exact hp

/-- What an editor is told about the names of a document, from the index of its text.  Outline and
completions are those of a document that was opened with the text, if the store gives it back. -/
structure IndexPoints (m : Machine) (text : String) : Prop where
  /-- there is one entry under a name, and the name is its own -/
  key : ∀ x d, (Index.ofText m text).get? x = some d ↔
    d ∈ (Index.ofText m text).definitions ∧ d.name = x
  entry : ∀ d ∈ (Index.ofText m text).definitions,
    ∃ before head rest, PointsAt text.toList d before head rest
  /-- a name has an entry if it is defined anywhere else than in a parameter list -/
  indexed : ∀ before head name rest, LetPlace text.toList before head name rest →
    ¬ IsParameterList text.toList before →
    ∃ d, (Index.ofText m text).get? (String.ofList name) = some d
  /-- the outline gives the characters of each name -/
  outline : ∀ {σ : Type} (store : Store σ) (w : Workspace σ) (uri : String),
    store.source (store.hear w.documents (.opened uri text)) uri = text →
    ∃ os, (w.hear store m (.opened uri text)).1.outline uri = some os ∧
      os.map (fun o => (o.name, o.span)) = (Index.ofText m text).definitions.map fun d =>
        (d.name, ⟨d.line, d.column, d.line, d.column + d.name.toList.length⟩)
  /-- completions are the signatures and then each name that has an entry, once -/
  completions : ∀ {σ : Type} (store : Store σ) (w : Workspace σ) (uri : String),
    store.source (store.hear w.documents (.opened uri text)) uri = text →
    ∃ own, (w.hear store m (.opened uri text)).1.completions uri
        = signatures.map (fun s => ⟨s.1, .function, some s.2⟩) ++ own ∧
      (own.map Completion.label).Nodup ∧
      ∀ x, x ∈ own.map Completion.label ↔ ∃ d, (Index.ofText m text).get? x = some d

/-- **The entries of an index point at their names**, whatever the text is, on every machine. -/
theorem index_points_at_names (m : Machine) (text : String) : IndexPoints m text where
  key x d := get?_eq_some_iff
  entry d hd := exists_pointsAt hd
  indexed before head name rest h hn := by
    rcases found_or_parameterList h with ⟨params, hf⟩ | hp
    · exact exists_get?_of_found hf m
    · exact absurd hp hn
  outline store w uri h := by
    rw [Workspace.outline, Workspace.index?_opened h]
    refine ⟨_, rfl, ?_⟩
    rw [List.map_map]
    apply List.map_congr_left
    intro d _
    show (d.name, d.span) = _
    rw [Definition.span, String.length_toList]
  completions store w uri h := by
    rw [Workspace.completions, Workspace.index?_opened h]
    refine ⟨_, rfl, ?_, ?_⟩
    · rw [List.map_map]
      exact nodup_definitions text.toList
    · intro x
      rw [List.map_map, List.mem_map]
      simp only [get?_eq_some_iff]
      rfl

end Lisplet.Editor
