import Lisplet.Frames

/-!
# Proper stacks of frames

A stack is proper if its handles are in order: the root frame has no parent, the parent of any other
frame is the one below it, and the top frame is current.  So every frame can be reached from the
current one, and a name is looked up from the top down.

Two relations say how a stack `t` comes from a proper stack `s`.

* `Undisturbed s t`   as many frames, the same current one, the same parents; the frames below the
                      current one are the same, and the current one has lost no name;
* `Covers s t`        `t` is proper and may have more frames on top; of the frames that `s` has,
  those below its current one are the same, and that one has lost no name.

Popping a frame that was pushed leads back to the very same stack (`Undisturbed.pop_push`), and if
frames were left on top it still covers it (`Covers.pop_push`); unwinding to the old handle puts
everything right (`Covers.unwind`).
-/

namespace Lisplet

/-- the names that a frame binds, in the order in which they were first bound -/
def Frame.names (f : Frame) : List Symbol := f.vars.map Prod.fst

/-- binding a name loses none and moves none -/
theorem Frame.names_prefix_bind (f : Frame) (s : Symbol) (v : Value) :
    f.names <+: (f.bind s v).names := by
  show f.vars.map Prod.fst <+: (put s v f.vars).map Prod.fst
  induction f.vars with
  | nil => exact List.nil_prefix
  | cons b vars ih =>
    obtain ⟨t, w⟩ := b
    by_cases h : t = s
    · simp [put, h]
    · simp only [put, h, if_false, List.map_cons]
      exact List.cons_prefix_cons.2 ⟨rfl, ih⟩

namespace FrameStack

/-! ## one frame of a stack -/

/-- the frame of a handle, if there is one -/
def frame? (s : FrameStack) (h : Nat) : Option Frame := s.frames[h]?

theorem frame?_eq_none_iff (s : FrameStack) (h : Nat) : s.frame? h = none ↔ s.depth ≤ h :=
  Array.getElem?_eq_none_iff

theorem exists_frame {s : FrameStack} {h : Nat} (hh : h < s.depth) : ∃ f, s.frame? h = some f := by
  cases hf : s.frame? h with
  | none =>
    rw [frame?_eq_none_iff] at hf
    omega
  | some f => exact ⟨f, rfl⟩

theorem lt_depth_of_frame {s : FrameStack} {h : Nat} {f : Frame} (hf : s.frame? h = some f) :
    h < s.depth := by
  apply Nat.lt_of_not_le
  rw [← frame?_eq_none_iff, hf]
  exact Option.some_ne_none f

theorem frame?_push (s : FrameStack) (h : Nat) :
    s.push.frame? h = if h = s.depth then some ⟨some s.current, []⟩ else s.frame? h :=
  Array.getElem?_push

theorem frame?_bindAt (s : FrameStack) (h k : Nat) (n : Symbol) (v : Value) :
    (s.bindAt h n v).frame? k = if h = k then (s.frame? k).map (fun f => f.bind n v)
      else s.frame? k :=
  Array.getElem?_modify

theorem frame?_unwind (s : FrameStack) (h k : Nat) :
    (s.unwind h).frame? k = if k < h + 1 then s.frame? k else none := by
  show (s.frames.extract 0 (h + 1))[k]? = _
  rw [Array.getElem?_extract, Nat.zero_add, Nat.sub_zero]
  by_cases hk : k < h + 1
  · rw [if_pos hk]
    by_cases hs : k < s.frames.size
    · rw [if_pos (by omega)]
      rfl
    · rw [if_neg (by omega)]
      exact ((s.frame?_eq_none_iff k).2 (Nat.le_of_not_lt hs)).symm
  · rw [if_neg hk, if_neg (by omega)]

/-- the stack without its top frame -/
def popped (s : FrameStack) : FrameStack := ⟨s.frames.pop, s.current - 1⟩

theorem depth_popped (s : FrameStack) : s.popped.depth = s.depth - 1 := Array.size_pop

theorem frame?_popped (s : FrameStack) (h : Nat) :
    s.popped.frame? h = if h < s.depth - 1 then s.frame? h else none := Array.getElem?_pop

/-- a pop makes the parent of the top frame current -/
theorem pop_of_top {s : FrameStack} {f : Frame} (hd : 1 < s.depth)
    (hf : s.frame? (s.depth - 1) = some f) :
    s.pop = .ok ⟨s.frames.pop, f.parent.getD 0⟩ := by
  have hn : ¬ s.frames.size ≤ 1 := Nat.not_le_of_lt hd
  have hb : s.frames.back? = some f := by
    rw [Array.back?_eq_getElem?]
    exact hf
  rw [pop, if_neg hn, hb]

/-! ## proper stacks -/

/-- the parent of the frame of a handle where handles are in order -/
def parentOf : Nat → Option Nat
  | 0 => none
  | h + 1 => some h

/-- handles are in order and the top frame is current -/
structure Proper (s : FrameStack) : Prop where
  top : s.current + 1 = s.depth
  parents : ∀ h f, s.frame? h = some f → f.parent = parentOf h

theorem Proper.root : FrameStack.root.Proper where
  top := rfl
  parents := by
    intro h f hf
    cases h with
    | zero => cases hf; rfl
    | succ h => cases hf

section
variable {s : FrameStack}

theorem Proper.push (hs : s.Proper) : s.push.Proper where
  top := by rw [depth_push]; rfl
  parents := by
    intro h f hf
    rw [frame?_push] at hf
    split at hf
    · next he =>
      cases hf
      rw [he, ← hs.top]
      rfl
    · exact hs.parents h f hf

theorem Proper.bindAt (hs : s.Proper) (h : Nat) (n : Symbol) (v : Value) :
    (s.bindAt h n v).Proper where
  top := by rw [depth_bindAt]; exact hs.top
  parents := by
    intro k f hf
    rw [frame?_bindAt] at hf
    split at hf
    · obtain ⟨g, hg, rfl⟩ := Option.map_eq_some_iff.1 hf
      exact hs.parents k g hg
    · exact hs.parents k f hf

theorem Proper.pop_eq (hs : s.Proper) (hd : 1 < s.depth) : s.pop = .ok s.popped := by
  have ht := hs.top
  obtain ⟨f, hf⟩ := exists_frame (s := s) (h := s.depth - 1) (by omega)
  have hp : f.parent.getD 0 = s.current - 1 := by
    rw [hs.parents _ f hf, ← ht, Nat.add_sub_cancel]
    cases hc : s.current with
    | zero => omega
    | succ h => rfl
  rw [pop_of_top hd hf, hp]
  rfl

theorem Proper.popped (hs : s.Proper) (hd : 1 < s.depth) : s.popped.Proper where
  top := by
    rw [depth_popped, ← hs.top]
    show s.current - 1 + 1 = _
    have ht := hs.top
    omega
  parents := by
    intro h f hf
    rw [frame?_popped] at hf
    split at hf
    · exact hs.parents h f hf
    · cases hf

theorem Proper.unwind (hs : s.Proper) {h : Nat} (hh : h < s.depth) : (s.unwind h).Proper where
  top := by rw [current_unwind, depth_unwind]; omega
  parents := by
    intro k f hf
    rw [frame?_unwind] at hf
    split at hf
    · exact hs.parents k f hf
    · cases hf

/-! ## defining and looking up

In a proper stack every handle names a frame, so neither operation comes upon one that does not. -/

theorem Proper.define_symbol (hs : s.Proper) (n : Symbol) (value : Value) :
    s.define (.symbol n) value = .ok (s.bindAt s.current n value) := by
  have hc : s.current < s.frames.size := by
    show s.current < s.depth
    have ht := hs.top
    omega
  exact if_pos hc

theorem define_of_not_symbol {name : Value} (h : name.symbol? = none) (value : Value) :
    s.define name value = .error (.eval (.undefinable name)) := by
  cases name with
  | symbol n => cases h
  | _ => rfl

theorem Proper.define_cases (hs : s.Proper) (name value : Value) :
    (∃ n, name = .symbol n ∧ s.define name value = .ok (s.bindAt s.current n value)) ∨
      s.define name value = .error (.eval (.undefinable name)) := by
  cases name with
  | symbol n => exact .inl ⟨n, rfl, hs.define_symbol n value⟩
  | _ => exact .inr rfl

theorem Proper.findFrom_ok (hs : s.Proper) (bound : Frame → Bool) (steps h : Nat)
    (hh : h < s.depth) :
    ∃ r, findFrom s.frames bound steps h = .ok r ∧
      ∀ k, r = some k → ∃ f, s.frame? k = some f ∧ bound f = true := by
  induction steps generalizing h with
  | zero => exact ⟨none, rfl, fun k hk => by cases hk⟩
  | succ n ih =>
    obtain ⟨f, hf⟩ := exists_frame hh
    have hp := hs.parents h f hf
    have he : s.frames[h]? = some f := hf
    simp only [findFrom, he]
    by_cases hb : bound f = true
    · refine ⟨some h, if_pos hb, ?_⟩
      intro k hk
      cases hk
      exact ⟨f, hf, hb⟩
    · rw [if_neg hb, hp]
      cases h with
      | zero => exact ⟨none, rfl, fun k hk => by cases hk⟩
      | succ h => exact ih h (by omega)

theorem lookup_of_find_some {name : Value} {h : Nat} (hf : s.find name = .ok (some h)) :
    s.lookup name = s.valueAt h name := by
  unfold lookup
  rw [hf]
  rfl

theorem lookup_of_find_none {name : Value} (hf : s.find name = .ok none) :
    s.lookup name = .error (.eval (.unbound name)) := by
  unfold lookup
  rw [hf]
  rfl

theorem Proper.lookup_cases (hs : s.Proper) (name : Value) :
    (∃ v, s.lookup name = .ok v) ∨ s.lookup name = .error (.eval (.unbound name)) := by
  obtain ⟨r, hr, hb⟩ := hs.findFrom_ok (binds name) (s.frames.size + 1) s.current (by
    have ht := hs.top
    omega)
  cases r with
  | none => exact .inr (lookup_of_find_none hr)
  | some h =>
    rw [lookup_of_find_some hr]
    obtain ⟨f, hf, hn⟩ := hb h rfl
    have he : s.frames[h]? = some f := hf
    cases name with
    | symbol n =>
      obtain ⟨v, hv⟩ := Option.isSome_iff_exists.1 hn
      refine .inl ⟨v, ?_⟩
      simp only [valueAt, he, hv]
    | _ => cases hn

end

/-! ## how one stack comes from another -/

/-- the same stack up to names that were added to the current frame or bound anew in it -/
structure Undisturbed (s t : FrameStack) : Prop where
  depth : t.depth = s.depth
  current : t.current = s.current
  parents : ∀ h, (t.frame? h).map Frame.parent = (s.frame? h).map Frame.parent
  below : ∀ h, h < s.current → t.frame? h = s.frame? h
  names : ∀ f g, s.frame? s.current = some f → t.frame? s.current = some g → f.names <+: g.names

/-- the same with frames that may have been left on top -/
structure Covers (s t : FrameStack) : Prop where
  proper : t.Proper
  depth : s.depth ≤ t.depth
  below : ∀ h, h < s.current → t.frame? h = s.frame? h
  names : ∀ f g, s.frame? s.current = some f → t.frame? s.current = some g → f.names <+: g.names

section
variable {s t u : FrameStack}

theorem Undisturbed.refl (s : FrameStack) : Undisturbed s s where
  depth := rfl
  current := rfl
  parents := fun _ => rfl
  below := fun _ _ => rfl
  names := by
    intro f g hf hg
    rw [hf] at hg
    cases hg
    exact List.prefix_refl _

theorem Undisturbed.trans (h₁ : Undisturbed s t) (h₂ : Undisturbed t u) : Undisturbed s u where
  depth := h₂.depth.trans h₁.depth
  current := h₂.current.trans h₁.current
  parents := fun h => (h₂.parents h).trans (h₁.parents h)
  below := fun h hh => (h₂.below h (h₁.current ▸ hh)).trans (h₁.below h hh)
  names := by
    intro f g hf hg
    obtain ⟨f', hf'⟩ := exists_frame (s := t) (h := s.current) (h₁.depth ▸ lt_depth_of_frame hf)
    exact (h₁.names f f' hf hf').trans (h₂.names f' g (h₁.current ▸ hf') (h₁.current ▸ hg))

theorem Undisturbed.trans_covers (h₁ : Undisturbed s t) (h₂ : Covers t u) : Covers s u where
  proper := h₂.proper
  depth := h₁.depth ▸ h₂.depth
  below := fun h hh => (h₂.below h (h₁.current ▸ hh)).trans (h₁.below h hh)
  names := by
    intro f g hf hg
    obtain ⟨f', hf'⟩ := exists_frame (s := t) (h := s.current) (h₁.depth ▸ lt_depth_of_frame hf)
    exact (h₁.names f f' hf hf').trans (h₂.names f' g (h₁.current ▸ hf') (h₁.current ▸ hg))

theorem Undisturbed.proper (h : Undisturbed s t) (hs : s.Proper) : t.Proper where
  top := by rw [h.current, h.depth]; exact hs.top
  parents := by
    intro k f hf
    have hp := h.parents k
    rw [hf] at hp
    obtain ⟨g, hg, he⟩ := Option.map_eq_some_iff.1 hp.symm
    rw [← he]
    exact hs.parents k g hg

theorem Undisturbed.covers (h : Undisturbed s t) (hs : s.Proper) : Covers s t where
  proper := h.proper hs
  depth := Nat.le_of_eq h.depth.symm
  below := h.below
  names := h.names

theorem undisturbed_bindAt (s : FrameStack) (n : Symbol) (v : Value) :
    Undisturbed s (s.bindAt s.current n v) where
  depth := depth_bindAt ..
  current := rfl
  parents := by
    intro h
    rw [frame?_bindAt]
    split
    · rw [Option.map_map]
      rfl
    · rfl
  below := by
    intro h hh
    rw [frame?_bindAt, if_neg (by omega)]
  names := by
    intro f g hf hg
    rw [frame?_bindAt, if_pos rfl, hf] at hg
    cases hg
    exact f.names_prefix_bind n v

/-- a frame that was pushed and not left is popped, and the stack is as it was before the push -/
theorem Undisturbed.pop_push (hs : s.Proper) (h : Undisturbed s.push t) : t.pop = .ok s := by
  have ht := hs.top
  have hd : t.depth = s.depth + 1 := by rw [h.depth, depth_push]
  have hc : t.popped.current = s.current := by
    show t.current - 1 = s.current
    rw [h.current, current_push]
    omega
  -- `t` may differ from `s.push` only in its top frame, and that one is gone
  have hf : t.popped.frames = s.frames := by
    apply Array.ext_getElem?
    intro k
    show t.popped.frame? k = s.frame? k
    rw [frame?_popped, hd, Nat.add_sub_cancel]
    split
    · next hk => rw [h.below k hk, frame?_push, if_neg (by omega)]
    · next hk => exact ((s.frame?_eq_none_iff k).2 (Nat.le_of_not_lt hk)).symm
  rw [(h.proper hs.push).pop_eq (by omega)]
  congr 1
  cases s
  cases ht' : t.popped
  rw [ht'] at hc hf
  cases hc
  cases hf
  rfl

theorem Covers.of_push (hs : s.Proper) (h : Covers s.push t) : Covers s t := by
  have ht := hs.top
  have hb : ∀ k, k < s.depth → t.frame? k = s.frame? k := by
    intro k hk
    rw [h.below k hk, frame?_push, if_neg (by omega)]
  refine ⟨h.proper, ?_, fun k hk => hb k (by omega), ?_⟩
  · have hd := h.depth
    rw [depth_push] at hd
    omega
  · intro f g hf hg
    rw [hb s.current (by omega), hf] at hg
    cases hg
    exact List.prefix_refl _

/-- where frames were left on top of one that was pushed, a pop takes none that was there before -/
theorem Covers.pop_push (hs : s.Proper) (h : Covers s.push t) :
    t.pop = .ok t.popped ∧ Covers s t.popped := by
  have ht := hs.top
  have hd := h.depth
  rw [depth_push] at hd
  have hc := h.of_push hs
  have hb : ∀ k, k < s.depth → t.popped.frame? k = t.frame? k := by
    intro k hk
    rw [frame?_popped, if_pos (by omega)]
  refine ⟨h.proper.pop_eq (by omega), h.proper.popped (by omega), ?_, ?_, ?_⟩
  · rw [depth_popped]
    omega
  · intro k hk
    rw [hb k (by omega), hc.below k hk]
  · intro f g hf hg
    rw [hb s.current (by omega)] at hg
    exact hc.names f g hf hg

/-- unwinding to the old handle takes off what was left on top -/
theorem Covers.unwind (hs : s.Proper) (h : Covers s t) : Undisturbed s (t.unwind s.current) := by
  have ht := hs.top
  have hd := h.depth
  have hp := h.proper.unwind (h := s.current) (by omega)
  have hn : (t.unwind s.current).depth = s.depth := by
    rw [depth_unwind]
    omega
  have hb : ∀ k, k < s.depth → (t.unwind s.current).frame? k = t.frame? k := by
    intro k hk
    rw [frame?_unwind, if_pos (by omega)]
  refine ⟨hn, rfl, ?_, fun k hk => (hb k (by omega)).trans (h.below k hk), ?_⟩
  · -- both stacks are proper, so a parent is known from the handle alone
    intro k
    by_cases hk : k < s.depth
    · obtain ⟨f, hf⟩ := exists_frame hk
      obtain ⟨g, hg⟩ := exists_frame (hn ▸ hk)
      rw [hf, hg, Option.map_some, Option.map_some, hs.parents k f hf, hp.parents k g hg]
    · rw [(frame?_eq_none_iff _ _).2 (Nat.le_of_not_lt hk),
        (frame?_eq_none_iff _ _).2 (Nat.le_of_not_lt (hn ▸ hk))]
  · intro f g hf hg
    rw [hb s.current (by omega)] at hg
    exact h.names f g hf hg

end

end FrameStack

end Lisplet
