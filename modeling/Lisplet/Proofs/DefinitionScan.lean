import Mathlib
import Lisplet.Editor.Index

/-!
# What the scan for definitions finds

The scan is made for texts that need not be readable, and all that is said here holds of every
text.  Places in a text are told by what stands from there on, so a place is a suffix of the text.

* `match?_eq_some_iff`    what a definition looks like;
* `exists_match`          what is found is a definition that stands somewhere;
* `found_or_covered`      a definition is found, unless it starts inside one that is found;
* `covered_by_params`     the only definition inside another is a parameter list, such as `(let x)`;
* `mem_definitions`       every entry comes from something that was found.
-/

namespace Lisplet.Editor

open Text

/-! ## words and blanks -/

theorem after?_append (word rest : List Char) : after? word (word ++ rest) = some rest := by
  induction word with
  | nil => rfl
  | cons w ws ih =>
    rw [List.cons_append, after?, if_pos rfl]
    exact ih

theorem after?_eq_some_iff {word text rest : List Char} :
    after? word text = some rest ↔ text = word ++ rest := by
  constructor
  · exact after?_eq_some
  · rintro rfl
    exact after?_append word rest

/-- what is skipped is blank -/
theorem exists_blanks (a : List Char) : ∃ g, a = g ++ skipBlank a ∧ ∀ c ∈ g, isBlank c = true :=
  ⟨a.takeWhile isBlank, List.takeWhile_append_dropWhile.symm, fun _ hc => List.mem_takeWhile_imp hc⟩

/-- a place whose first character is not in `a` is not in `a` -/
theorem suffix_of_not_mem {c : Char} {a b t : List Char} (hc : c ∉ a) (h : c :: t <:+ a ++ b) :
    c :: t <:+ b := by
  induction a with
  | nil => exact h
  | cons d a ih =>
    rcases List.suffix_cons_iff.1 h with he | hs
    · injection he with he _
      exact absurd (he ▸ List.mem_cons_self ..) hc
    · exact ih (fun hm => hc (List.mem_cons_of_mem _ hm)) hs

/-! ## parameter lists -/

theorem params?_eq_some_iff {r ps rest : List Char} : params? r = some (ps, rest) ↔
    ∃ a b d, r = '(' :: a ∧ skipBlank a = ['l', 'a', 'm', 'b', 'd', 'a'] ++ b ∧
      skipBlank b = '(' :: d ∧
      d.takeWhile isParamChar = ps ∧ d.dropWhile isParamChar = ')' :: rest := by
  simp only [params?, Option.bind_eq_bind, Option.bind_eq_some_iff, after?_eq_some_iff]
  constructor
  · rintro ⟨a, ha, b, hb, d, hd, e, he, h⟩
    cases h
    exact ⟨a, b, d, ha, hb, hd, rfl, he⟩
  · rintro ⟨a, b, d, ha, hb, hd, rfl, he⟩
    exact ⟨a, ha, b, hb, d, hd, rest, he, rfl⟩

/-! ## single definitions -/

/-- the definition whose name starts a text -/
def Match.ofName (fromName : List Char) : Match :=
  let rest := skipBlank (fromName.dropWhile Char.isLower)
  ⟨fromName.takeWhile Char.isLower, fromName, (params? rest).map Prod.fst,
    ((params? rest).map Prod.snd).getD rest⟩

theorem match?_eq_some_iff {s : List Char} {m : Match} : match? s = some m ↔
    ∃ a b, s = '(' :: a ∧ skipBlank a = ['l', 'e', 't'] ++ b ∧ (skipBlank b).length < b.length ∧
      (skipBlank b).takeWhile Char.isLower ≠ [] ∧ m = Match.ofName (skipBlank b) := by
  simp only [match?, Option.bind_eq_bind, Option.bind_eq_some_iff, after?_eq_some_iff]
  refine exists_congr fun a => ?_
  rw [← exists_and_left]
  refine exists_congr fun b => and_congr_right fun _ => and_congr_right fun _ => ?_
  unfold Match.ofName
  split
  · next hc =>
    simp only [hc.1, true_and, ne_eq, hc.2, not_false_eq_true]
    cases params? (skipBlank ((skipBlank b).dropWhile Char.isLower)) with
    | none => exact Option.some_inj.trans eq_comm
    | some p => exact Option.some_inj.trans eq_comm
  · next hc =>
    refine iff_of_false nofun fun h => hc ⟨h.1, h.2.1⟩

/-! ## brackets in a definition -/

def NoBrackets (cs : List Char) : Prop := ∀ c ∈ cs, c ≠ '(' ∧ c ≠ ')'

theorem NoBrackets.append {cs ds : List Char} (h : NoBrackets cs) (h' : NoBrackets ds) :
    NoBrackets (cs ++ ds) := by
  intro c hc
  exact (List.mem_append.1 hc).elim (h c) (h' c)

theorem NoBrackets.open_not_mem {cs : List Char} (h : NoBrackets cs) :
    '(' ∉ cs := fun hc => (h _ hc).1 rfl

theorem NoBrackets.close_not_mem {cs : List Char} (h : NoBrackets cs) :
    ')' ∉ cs := fun hc => (h _ hc).2 rfl

theorem noBrackets_of_all {p : Char → Bool} {cs : List Char} (h : ∀ c ∈ cs, p c = true)
    (ho : p '(' = false) (hc : p ')' = false) : NoBrackets cs := by
  intro c hm
  constructor
  · rintro rfl
    rw [h _ hm] at ho
    cases ho
  · rintro rfl
    rw [h _ hm] at hc
    cases hc

theorem exists_skipped (a : List Char) : ∃ g, a = g ++ skipBlank a ∧ NoBrackets g := by
  obtain ⟨g, he, hg⟩ := exists_blanks a
  exact ⟨g, he, noBrackets_of_all hg (by decide) (by decide)⟩

theorem noBrackets_takeWhile {p : Char → Bool} (ho : p '(' = false) (hc : p ')' = false)
    (cs : List Char) :
    NoBrackets (cs.takeWhile p) :=
  noBrackets_of_all (fun _ h => List.mem_takeWhile_imp h) ho hc

/-- a parameter list has two brackets that open, and no definition starts at the first -/
theorem params?_shape {r ps rest : List Char} (h : params? r = some (ps, rest)) :
    ∃ v, r = '(' :: (v ++ '(' :: (ps ++ ')' :: rest)) ∧ NoBrackets v ∧ NoBrackets ps ∧
      match? r = none := by
  obtain ⟨a, b, d, rfl, ha, hb, rfl, hd⟩ := params?_eq_some_iff.1 h
  obtain ⟨g, hg, hgb⟩ := exists_skipped a
  obtain ⟨k, hk, hkb⟩ := exists_skipped b
  refine ⟨g ++ (['l', 'a', 'm', 'b', 'd', 'a'] ++ k), ?_, ?_, ?_, ?_⟩
  · rw [← hd, List.takeWhile_append_dropWhile, ← hb, List.append_assoc, List.append_assoc, ← hk,
      ← ha, ← hg]
  · have hlambda : NoBrackets ['l', 'a', 'm', 'b', 'd', 'a'] := by simp [NoBrackets]
    exact hgb.append (hlambda.append hkb)
  · exact noBrackets_takeWhile (by decide) (by decide) d
  · rw [Option.eq_none_iff_forall_ne_some]
    intro m hm
    obtain ⟨a', b', he, ha', _⟩ := match?_eq_some_iff.1 hm
    injection he with _ he
    subst he
    rw [ha] at ha'
    injection ha' with _ ha'
    injection ha' with ha' _
    exact absurd ha' (by decide)

/-- the text of a definition from its name on to its parameters -/
theorem ofName_shape (n : List Char) : ∃ u r, n = u ++ r ∧ NoBrackets u ∧
    ((Match.ofName n).params = none ∧ (Match.ofName n).rest = r ∨
      ∃ ps, (Match.ofName n).params = some ps ∧ params? r = some (ps, (Match.ofName n).rest)) := by
  obtain ⟨j, hj, hjb⟩ := exists_skipped (n.dropWhile Char.isLower)
  refine ⟨n.takeWhile Char.isLower ++ j, skipBlank (n.dropWhile Char.isLower), ?_, ?_, ?_⟩
  · rw [List.append_assoc, ← hj, List.takeWhile_append_dropWhile]
  · exact (noBrackets_takeWhile (by decide) (by decide) n).append hjb
  · cases hp : params? (skipBlank (n.dropWhile Char.isLower)) with
    | none => exact .inl (by simp [Match.ofName, hp])
    | some p => exact .inr ⟨p.1, by simp [Match.ofName, hp]⟩

/-- the text of a definition up to its parameters -/
theorem match?_shape {s : List Char} {m : Match} (h : match? s = some m) : ∃ u r,
    s = '(' :: (u ++ r) ∧ NoBrackets u ∧ m.fromName <:+ u ++ r ∧
      (m.params = none ∧ m.rest = r ∨ ∃ ps, m.params = some ps ∧
        params? r = some (ps, m.rest)) := by
  obtain ⟨a, b, rfl, ha, _, _, rfl⟩ := match?_eq_some_iff.1 h
  obtain ⟨g, hg, hgb⟩ := exists_skipped a
  obtain ⟨k, hk, hkb⟩ := exists_skipped b
  obtain ⟨u, r, hn, hub, hr⟩ := ofName_shape (skipBlank b)
  have he : a = (g ++ (['l', 'e', 't'] ++ (k ++ u))) ++ r := by
    simp only [List.append_assoc]
    rw [← hn, ← hk, ← ha, ← hg]
  refine ⟨g ++ (['l', 'e', 't'] ++ (k ++ u)), r, by rw [← he], ?_, ?_, hr⟩
  · have hlet : NoBrackets ['l', 'e', 't'] := by simp [NoBrackets]
    exact hgb.append (hlet.append (hkb.append hub))
  · rw [← he, hg, ha]
    exact (List.dropWhile_suffix _).trans ((List.suffix_append _ _).trans (List.suffix_append _ _))

theorem rest_suffix {s : List Char} {m : Match} (h : match? s = some m) : m.rest <:+ s.tail := by
  obtain ⟨u, r, rfl, _, _, hr⟩ := match?_shape h
  rcases hr with ⟨_, rfl⟩ | ⟨ps, _, hp⟩
  · exact List.suffix_append u m.rest
  · obtain ⟨v, rfl, _⟩ := params?_shape hp
    exact ⟨u ++ '(' :: (v ++ '(' :: (ps ++ [')'])), by simp⟩

/-- **A definition inside another is its parameter list.** It has the two opening brackets of the
other before it. -/
theorem covered_by_params {s s₀ : List Char} {m m₀ : Match} (h : match? s = some m)
    (h₀ : match? s₀ = some m₀) (hs : s <:+ s₀) (hlt : s.length < s₀.length)
    (hr : m₀.rest.length < s.length) : ∃ q ps, m₀.params = some ps ∧
      s = '(' :: (ps ++ ')' :: m₀.rest) ∧ s₀ = q ++ s ∧ q.count '(' = 2 ∧ q.count ')' = 0 := by
  obtain ⟨t, _, rfl, _⟩ := match?_eq_some_iff.1 h
  obtain ⟨u, r, rfl, hu, _, hm⟩ := match?_shape h₀
  rcases List.suffix_cons_iff.1 hs with he | hs
  · rw [he] at hlt
    exact absurd hlt (Nat.lt_irrefl _)
  have hs := suffix_of_not_mem hu.open_not_mem hs
  rcases hm with ⟨_, rfl⟩ | ⟨ps, hps, hp⟩
  · exact absurd hs.length_le (Nat.not_le_of_lt hr)
  obtain ⟨v, rfl, hv, hpsb, hnone⟩ := params?_shape hp
  rcases List.suffix_cons_iff.1 hs with he | hs
  · rw [he, hnone] at h
    cases h
  rcases List.suffix_cons_iff.1 (suffix_of_not_mem hv.open_not_mem hs) with he | hs
  · refine ⟨'(' :: (u ++ '(' :: v), ps, hps, he, ?_, ?_, ?_⟩
    · rw [he]
      simp
    · simp [List.count_eq_zero_of_not_mem hu.open_not_mem,
        List.count_eq_zero_of_not_mem hv.open_not_mem]
    · simp [List.count_eq_zero_of_not_mem hu.close_not_mem,
        List.count_eq_zero_of_not_mem hv.close_not_mem]
  · have hs := suffix_of_not_mem hpsb.open_not_mem hs
    rcases List.suffix_cons_iff.1 hs with he | hs
    · cases he
    · exact absurd hs.length_le (Nat.not_le_of_lt hr)

/-! ## the scan -/

/-- what is found at a definition, in a text of the given length -/
def Match.found (length : Nat) (m : Match) : Found := ⟨m.name, length - m.fromName.length, m.params⟩

theorem foundFrom_offset {s : List Char} {m : Match} (h : match? s = some m) (offset : Nat) :
    offset + (s.length - m.fromName.length) = offset + s.length - m.fromName.length := by
  obtain ⟨u, r, rfl, _, hn, _⟩ := match?_shape h
  have hle := hn.length_le
  rw [List.length_cons]
  omega

/-- the scan from any place on finds definitions that stand there -/
theorem exists_match_foundFrom {skip offset : Nat} {cs : List Char} {f : Found}
    (h : f ∈ foundFrom skip offset cs) :
    ∃ s m, s <:+ cs ∧ match? s = some m ∧ f = m.found (offset + cs.length) := by
  induction cs generalizing skip offset with
  | nil =>
    rw [foundFrom] at h
    exact absurd h List.not_mem_nil
  | cons c cs ih =>
    have hlen : offset + 1 + cs.length = offset + (c :: cs).length := by
      rw [List.length_cons]
      omega
    have htail : ∀ skip, f ∈ foundFrom skip (offset + 1) cs →
        ∃ s m, s <:+ c :: cs ∧ match? s = some m ∧ f = m.found (offset + (c :: cs).length) := by
      intro skip h
      obtain ⟨s, m, hs, hm, hf⟩ := ih h
      exact ⟨s, m, hs.trans (List.suffix_cons c cs), hm, hlen ▸ hf⟩
    cases skip with
    | succ skip => exact htail skip h
    | zero =>
      rw [foundFrom] at h
      cases hm : match? (c :: cs) with
      | none =>
        rw [hm] at h
        exact htail 0 h
      | some m =>
        rw [hm] at h
        rcases List.mem_cons.1 h with rfl | h
        · refine ⟨c :: cs, m, List.suffix_rfl, hm, ?_⟩
          rw [foundFrom_offset hm]
          rfl
        · exact htail _ h

/-- a definition starts inside another -/
def Covered (text s : List Char) : Prop :=
  ∃ s₀ m₀, s₀ <:+ text ∧ match? s₀ = some m₀ ∧ s <:+ s₀ ∧ s.length < s₀.length ∧
    m₀.rest.length < s.length

theorem Covered.cons {cs s : List Char} (h : Covered cs s) (c : Char) : Covered (c :: cs) s := by
  obtain ⟨s₀, m₀, hs₀, h⟩ := h
  exact ⟨s₀, m₀, hs₀.trans (List.suffix_cons c cs), h⟩

/-- a definition is found by a scan from any place before it, unless it is skipped or covered -/
theorem foundFrom_or_covered (skip offset : Nat) {cs s : List Char} {m : Match} (hs : s <:+ cs)
    (hm : match? s = some m) : m.found (offset + cs.length) ∈ foundFrom skip offset cs ∨
      cs.length < s.length + skip ∨ Covered cs s := by
  induction cs generalizing skip offset with
  | nil =>
    rw [List.suffix_nil.1 hs] at hm
    cases hm
  | cons c cs ih =>
    have hlen : offset + 1 + cs.length = offset + (c :: cs).length := by
      rw [List.length_cons]
      omega
    rw [List.length_cons] at hlen ⊢
    cases skip with
    | succ skip =>
      rcases List.suffix_cons_iff.1 hs with rfl | hs
      · refine .inr (.inl ?_)
        rw [List.length_cons]
        omega
      · rcases ih skip (offset + 1) hs with h | h | h
        · exact .inl (hlen ▸ h)
        · exact .inr (.inl (by omega))
        · exact .inr (.inr (h.cons c))
    | zero =>
      rw [foundFrom]
      rcases List.suffix_cons_iff.1 hs with rfl | hs
      · refine .inl ?_
        rw [hm]
        refine List.mem_cons.2 (.inl ?_)
        rw [foundFrom_offset hm]
        rfl
      have hle := hs.length_le
      cases hm₀ : match? (c :: cs) with
      | none =>
        rcases ih 0 (offset + 1) hs with h | h | h
        · exact .inl (hlen ▸ h)
        · exact absurd h (Nat.not_lt_of_le hle)
        · exact .inr (.inr (h.cons c))
      | some m₀ =>
        have hrest : m₀.rest.length ≤ cs.length := (rest_suffix hm₀).length_le
        rcases ih (cs.length - m₀.rest.length) (offset + 1) hs with h | h | h
        · exact .inl (List.mem_cons_of_mem _ (hlen ▸ h))
        · refine .inr (.inr
            ⟨c :: cs, m₀, List.suffix_rfl, hm₀, hs.trans (List.suffix_cons c cs), ?_, by omega⟩)
          rw [List.length_cons]
          omega
        · exact .inr (.inr (h.cons c))

theorem exists_match {text : List Char} {f : Found} (h : f ∈ found text) :
    ∃ s m, s <:+ text ∧ match? s = some m ∧ f = m.found text.length := by
  have hf := exists_match_foundFrom h
  rwa [Nat.zero_add] at hf

theorem found_or_covered {text s : List Char} {m : Match} (hs : s <:+ text)
    (hm : match? s = some m) :
    m.found text.length ∈ found text ∨ Covered text s := by
  rcases foundFrom_or_covered 0 0 hs hm with h | h | h
  · rw [Nat.zero_add] at h
    exact .inl h
  · exact absurd h (Nat.not_lt_of_le hs.length_le)
  · exact .inr h

/-! ## definitions by name -/

theorem mem_put {d e : Definition} {ds : List Definition} (h : e ∈ put d ds) : e = d ∨ e ∈ ds := by
  induction ds with
  | nil => exact .inl (List.mem_singleton.1 h)
  | cons x ds ih =>
    rw [put] at h
    split at h
    · rcases List.mem_cons.1 h with h | h
      · exact .inl h
      · exact .inr (List.mem_cons_of_mem _ h)
    · rcases List.mem_cons.1 h with h | h
      · exact .inr (h ▸ List.mem_cons_self ..)
      · exact (ih h).imp_right (List.mem_cons_of_mem _)

theorem map_name_put (d : Definition) (ds : List Definition) (n : String) :
    n ∈ (put d ds).map Definition.name ↔ n = d.name ∨ n ∈ ds.map Definition.name := by
  induction ds with
  | nil => simp [put]
  | cons x ds ih =>
    rw [put]
    split
    · next hx => simp [hx]
    · rw [List.map_cons, List.mem_cons, ih, List.map_cons, List.mem_cons]
      exact or_left_comm

theorem mem_foldl_put {fs ds : List Definition} {d : Definition}
    (h : d ∈ fs.foldl (fun ds d => put d ds) ds) :
    d ∈ fs ∨ d ∈ ds := by
  induction fs generalizing ds with
  | nil => exact .inr h
  | cons f fs ih =>
    rcases ih h with h | h
    · exact .inl (List.mem_cons_of_mem _ h)
    · refine (mem_put h).imp_left ?_
      rintro rfl
      exact List.mem_cons_self ..

theorem map_name_foldl_put (fs ds : List Definition) (n : String) :
    n ∈ (fs.foldl (fun ds d => put d ds) ds).map Definition.name ↔
      n ∈ fs.map Definition.name ∨ n ∈ ds.map Definition.name := by
  induction fs generalizing ds with
  | nil => simp
  | cons f fs ih =>
    rw [List.foldl_cons, ih, map_name_put, List.map_cons, List.mem_cons]
    tauto

theorem mem_definitions {text : List Char} {d : Definition} (h : d ∈ definitions text) :
    ∃ f ∈ found text, d = f.definition text := by
  rcases mem_foldl_put h with h | h
  · obtain ⟨f, hf, rfl⟩ := List.mem_map.1 h
    exact ⟨f, hf, rfl⟩
  · exact absurd h List.not_mem_nil

/-- every name that is found has an entry -/
theorem exists_get?_of_found {text : String} {f : Found} (h : f ∈ found text.toList) (m : Machine) :
    ∃ d, (Index.ofText m text).get? (String.ofList f.name) = some d := by
  have hname : String.ofList f.name ∈ (definitions text.toList).map Definition.name := by
    refine (map_name_foldl_put _ [] _).2 (.inl ?_)
    exact List.mem_map.2 ⟨f.definition text.toList, List.mem_map_of_mem h, rfl⟩
  obtain ⟨d, hd, hn⟩ := List.mem_map.1 hname
  rw [← Option.isSome_iff_exists]
  exact List.find?_isSome.2 ⟨d, hd, decide_eq_true hn⟩

/-- an entry comes from something of its name that was found -/
theorem exists_found_of_get? {m : Machine} {text x : String} {d : Definition}
    (h : (Index.ofText m text).get? x = some d) :
    ∃ f ∈ found text.toList, d = f.definition text.toList ∧ String.ofList f.name = x := by
  obtain ⟨f, hf, rfl⟩ := mem_definitions (List.mem_of_find?_eq_some h)
  have hname := List.find?_some h
  exact ⟨f, hf, rfl, of_decide_eq_true hname⟩

end Lisplet.Editor
