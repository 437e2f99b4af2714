import Mathlib
import Lisplet.Proofs.Derivation
import Lisplet.Proofs.Nesting
import Lisplet.Proofs.Restoration
import Lisplet.Proofs.RoundTrip

/-!
# More levels

A run with few levels is the run with many levels, or it is broken off somewhere on the way.
`CutAt` says this of the results `few` and `many` of two runs from the same world: they are the
same, or `few` is exhausted, and then what it has printed is the beginning of what `many` prints.
`CutAt` also says where `many` leads to, since what comes after a part that is broken off has to
print something longer still.

It goes through sequences (`CutAt.bind`), so one lemma for each form of the language is enough:

* `cut_bracket`     a body in a frame of its own: the frame can be popped, however the body has
  ended;
* `cut_step`        one level of evaluation, from those below it;
* `cut_evaluate`    evaluation with any two numbers of levels;
* `cut_call`        reading a text and running under guard what was read.

No stack has to be proper for this.  A procedure of the host, on the other hand, may go on after a
call back that was exhausted, and so may notice the limit; hence nothing of the host may be bound.
-/

namespace Lisplet

open FrameStack Sequence

/-! ## worlds on the way -/

namespace World

/-- what was printed before is still there, and more may have come after it -/
def Prints (w w' : World) : Prop := ∃ more, w'.output = w.output ++ more

/-- no procedure of the host is bound -/
def Hostless (w : World) : Prop := ∀ n v, w.frames.Bound n v → v.hostFree = true

structure GoesOn (w w' : World) : Prop where
  hostless : w'.Hostless
  depth : w.frames.depth ≤ w'.frames.depth
  prints : w.Prints w'

section
variable {w w₁ w₂ : World}

theorem prints_of_eq (h : w₁.output = w.output) :
    w.Prints w₁ := ⟨"", by rw [h, String.append_empty]⟩

theorem Prints.trans (h₁ : w.Prints w₁) (h₂ : w₁.Prints w₂) : w.Prints w₂ := by
  obtain ⟨p, hp⟩ := h₁
  obtain ⟨q, hq⟩ := h₂
  exact ⟨p ++ q, by rw [hq, hp, String.append_assoc]⟩

theorem Prints.congr {v v₁ : World} (h : w.Prints w₁) (ho : v.output = w.output)
    (ho₁ : v₁.output = w₁.output) :
    v.Prints v₁ := by
  obtain ⟨more, hmore⟩ := h
  exact ⟨more, by rw [ho₁, hmore, ho]⟩

theorem GoesOn.refl (h : w.Hostless) : w.GoesOn w := ⟨h, Nat.le_refl _, prints_of_eq rfl⟩

theorem GoesOn.trans (h₁ : w.GoesOn w₁) (h₂ : w₁.GoesOn w₂) : w.GoesOn w₂ :=
  ⟨h₂.hostless, Nat.le_trans h₁.depth h₂.depth, h₁.prints.trans h₂.prints⟩

theorem goesOn_note (h : w.Hostless) (e : Event) : w.GoesOn (w.note e) :=
  ⟨h, Nat.le_refl _, e.output, w.output_note e⟩

end

end World

/-! ## runs that are cut short -/

section
variable {α β : Type}

/-- a run from `w` that was exhausted in `w₁`, where with more levels it comes to `w₂` -/
structure BrokenOff (w w₁ w₂ : World) : Prop where
  depth : w.frames.depth ≤ w₁.frames.depth
  before : w.Prints w₁
  after : w₁.Prints w₂

/-- of two runs from `w`, the first is the second or breaks off on the way; the second has values of
`Q` -/
structure CutAt (Q : α → Prop) (w : World) (few many : EStateM.Result Failure World α) : Prop where
  goesOn : w.GoesOn (World.after many)
  value : ∀ a w', many = .ok a w' → Q a
  cut : few = many ∨ ∃ o w₁, few = .error (.exhausted o) w₁ ∧ BrokenOff w w₁ (World.after many)

variable {Q : α → Prop} {P : β → Prop} {w : World}

theorem cut_same {r : EStateM.Result Failure World α} (hg : w.GoesOn (World.after r))
    (hv : ∀ a w', r = .ok a w' → Q a) : CutAt Q w r r := ⟨hg, hv, .inl rfl⟩

/-- a run that has no level at all -/
theorem CutAt.at_once {r r' : EStateM.Result Failure World α} (h : CutAt Q w r' r) (o : Overrun) :
    CutAt Q w (.error (.exhausted o) w) r where
  goesOn := h.goesOn
  value := h.value
  cut := .inr ⟨o, w, rfl, Nat.le_refl _, World.prints_of_eq rfl, h.goesOn.prints⟩

theorem CutAt.bind {x x' : Run α} {f f' : α → Run β} (hx : CutAt Q w (x w) (x' w))
    (hf : ∀ a w₁, Q a → w.GoesOn w₁ → CutAt P w₁ (f a w₁) (f' a w₁)) :
    CutAt P w ((x >>= f) w) ((x' >>= f') w) := by
  obtain ⟨hg, hv, hc⟩ := hx
  cases h' : x' w with
  | error e w₁ =>
    rw [h'] at hg hc
    rw [bind_of_error h']
    refine ⟨hg, nofun, ?_⟩
    rcases hc with he | ⟨o, w₀, he, hb⟩
    · exact .inl (bind_of_error he)
    · exact .inr ⟨o, w₀, bind_of_error he, hb⟩
  | ok a w₁ =>
    rw [h'] at hg hc
    rw [bind_of_ok h']
    have hg₁ : w.GoesOn w₁ := hg
    obtain ⟨hg₂, hv₂, hc₂⟩ := hf a w₁ (hv a w₁ h') hg₁
    refine ⟨hg₁.trans hg₂, hv₂, ?_⟩
    rcases hc with he | ⟨o, w₀, he, hb⟩
    · rw [bind_of_ok he]
      rcases hc₂ with hs | ⟨o, w₀, he₂, hb⟩
      · exact .inl hs
      · exact .inr ⟨o, w₀, he₂, Nat.le_trans hg₁.depth hb.depth, hg₁.prints.trans hb.before,
          hb.after⟩
    · -- the first part breaks off, and the second goes on from where all of it would have ended
      exact .inr ⟨o, w₀, bind_of_error he, hb.depth, hb.before, hb.after.trans hg₂.prints⟩

/-! ## single operations -/

theorem cut_pure (hw : w.Hostless) {a : α} (ha : Q a) :
    CutAt Q w ((pure a : Run α) w) ((pure a : Run α) w) := by
  refine cut_same (.refl hw) ?_
  rintro b w' ⟨⟩
  exact ha

theorem cut_error (hw : w.Hostless) (e : Failure) :
    CutAt Q w (.error e w : EStateM.Result Failure World α) (.error e w) :=
  cut_same (.refl hw) nofun

theorem cut_fail (hw : w.Hostless) (e : EvalError) :
    CutAt Q w ((Run.fail e : Run α) w) ((Run.fail e : Run α) w) := cut_error hw (.eval e)

/-- an error that takes more levels to be worded than there are breaks the run off where it is -/
theorem CutAt.worded {x x' : Run α} {levels levels' : Nat} (hl : levels ≤ levels')
    (hx : CutAt Q w (x w) (x' w)) :
    CutAt Q w (Run.worded levels x w) (Run.worded levels' x' w) := by
  have hmany := Run.worded_cases levels' x' w
  have hafter : World.after (Run.worded levels' x' w) = World.after (x' w) := by
    rcases hmany with h | ⟨e, w', h, _, hw⟩
    · rw [h]
    · rw [hw, h]
      rfl
  obtain ⟨hg, hv, hc⟩ := hx
  refine ⟨?_, ?_, ?_⟩
  · rw [hafter]
    exact hg
  · intro a w' ha
    rcases hmany with h | ⟨_, _, _, _, hw⟩
    · exact hv a w' (h.symm.trans ha)
    · rw [hw] at ha
      cases ha
  · rw [hafter]
    rcases hc with he | ⟨o, w₁, he, hb⟩
    · rcases Run.worded_cases levels x w with hfew | ⟨e, w₁, hx, _, hw⟩
      · left
        rcases hmany with h | ⟨e, w₁, hx', hlt, _⟩
        · rw [hfew, h, he]
        · -- more levels than these would have been there with few levels already
          rw [Run.worded_of_lt hx' hlt, Run.worded_of_lt (he.trans hx') (Nat.lt_of_le_of_lt hl hlt)]
      · rw [← he, hx] at hg ⊢
        exact .inr ⟨e.overrun, w₁, hw, hg.depth, hg.prints, World.prints_of_eq rfl⟩
    · refine .inr ⟨o, w₁, ?_, hb⟩
      unfold Run.worded
      rw [he]

theorem cut_raise (hw : w.Hostless) {levels levels' : Nat} (hl : levels ≤ levels') (e : EvalError) :
    CutAt Q w ((Run.raise levels e : Run α) w) ((Run.raise levels' e : Run α) w) :=
  (cut_fail hw e).worded hl

theorem cut_note (hw : w.Hostless) (e : Event) :
    CutAt (fun _ => True) w (Run.note e w) (Run.note e w) :=
  cut_same (World.goesOn_note hw e) fun _ _ _ => trivial

theorem depth_pos_of_bound {s : FrameStack} {n : Symbol} {v : Value} (h : s.Bound n v) :
    0 < s.depth := by
  obtain ⟨k, f, hf, _⟩ := h
  have hk := lt_depth_of_frame hf
  omega

/-- where a name has a value there is a frame -/
theorem cut_lookup (hw : w.Hostless) (n : Symbol) :
    CutAt (fun v => v.hostFree = true ∧ 0 < w.frames.depth) w (Run.lookup (.symbol n) w)
      (Run.lookup (.symbol n) w) := by
  cases h : w.frames.lookup (.symbol n) with
  | ok v =>
    have hr : Run.lookup (.symbol n) w = .ok v w := by simp only [Run.lookup, h]
    rw [hr]
    refine cut_same (.refl hw) ?_
    rintro u w' ⟨⟩
    have hb := bound_of_lookup h
    exact ⟨hw n v hb, depth_pos_of_bound hb⟩
  | error e =>
    have hr : Run.lookup (.symbol n) w = .error e w := by simp only [Run.lookup, h]
    rw [hr]
    exact cut_error hw e

theorem cut_define (hw : w.Hostless) (name : Value) {v : Value} (hv : v.hostFree = true) :
    CutAt (fun _ => True) w (Run.define name v w) (Run.define name v w) := by
  cases h : w.frames.define name v with
  | error e =>
    have hr : Run.define name v w = .error e w := by simp only [Run.define, Run.onFrames, h]
    rw [hr]
    exact cut_error hw e
  | ok s =>
    have hr : Run.define name v w = .ok () { w with frames := s } := by
      simp only [Run.define, Run.onFrames, h]
    obtain ⟨n, rfl⟩ : ∃ n, s = w.frames.bindAt w.frames.current n v := by
      unfold FrameStack.define FrameStack.defineAt at h
      split at h
      · next n =>
        split at h
        · cases h
          exact ⟨n, rfl⟩
        · cases h
      · cases h
    rw [hr]
    refine cut_same ⟨?_, Nat.le_of_eq (depth_bindAt ..).symm, World.prints_of_eq rfl⟩
      fun _ _ _ => trivial
    intro m u hb
    rcases bound_of_bound_bindAt hb with ⟨_, rfl⟩ | hb
    · exact hv
    · exact hw m u hb

/-! ## frames of their own -/

theorem pop_of_depth {s : FrameStack} (h : 1 < s.depth) :
    ∃ t, s.pop = .ok t ∧ t.frames = s.frames.pop := by
  obtain ⟨f, hf⟩ := exists_frame (s := s) (h := s.depth - 1) (by omega)
  exact ⟨_, pop_of_top h hf, rfl⟩

def World.pushed (w : World) : World := { w with frames := w.frames.push }

/-- what a pop leaves of a world -/
structure Uncovered (w w' : World) : Prop where
  bound : ∀ n v, w'.frames.Bound n v → w.frames.Bound n v
  depth : w.frames.depth ≤ w'.frames.depth + 1
  output : w'.output = w.output

theorem uncovered_refl (w : World) : Uncovered w w := ⟨fun _ _ h => h, Nat.le_succ _, rfl⟩

theorem uncovered_pop {s : FrameStack} (h : s.frames = w.frames.frames.pop) :
    Uncovered w { w with frames := s } where
  bound := by
    rintro n v ⟨k, f, hf, hb⟩
    have hf' : w.frames.popped.frame? k = some f := by
      show w.frames.frames.pop[k]? = some f
      rw [← h]
      exact hf
    exact bound_of_bound_popped ⟨k, f, hf', hb⟩
  depth := by
    have hs : s.depth = w.frames.depth - 1 := by
      show s.frames.size = _
      rw [h]
      exact Array.size_pop
    show w.frames.depth ≤ s.depth + 1
    omega
  output := rfl

section
variable {w' w₁ w₂ w₃ : World} (hu : Uncovered w' w₂)
include hu

theorem Uncovered.goesOn (hg : w.pushed.GoesOn w') : w.GoesOn w₂ where
  hostless := fun n v hb => hg.hostless n v (hu.bound n v hb)
  depth := by
    have hpush : w.pushed.frames.depth = w.frames.depth + 1 := depth_push _
    have hd := hg.depth
    have hd' := hu.depth
    omega
  prints := hg.prints.congr rfl hu.output

theorem Uncovered.brokenOff (hu₁ : Uncovered w₁ w₃) (hb : BrokenOff w.pushed w₁ w') :
    BrokenOff w w₃ w₂ where
  depth := by
    have hpush : w.pushed.frames.depth = w.frames.depth + 1 := depth_push _
    have hd := hb.depth
    have hd' := hu₁.depth
    omega
  before := hb.before.congr rfl hu₁.output
  after := hb.after.congr hu₁.output hu.output

end

/-- the same result in another world -/
def World.moved (w : World) : EStateM.Result Failure World α → EStateM.Result Failure World α
  | .ok a _ => .ok a w
  | .error e _ => .error e w

theorem World.after_moved (w : World) (r : EStateM.Result Failure World α) :
    World.after (World.moved w r) = w := by
  cases r <;> rfl

theorem leaving_moved (levels : Nat) (act : Run α) (hd : 1 < (World.after (act w)).frames.depth) :
    ∃ w₁, Eval.leaving levels act w = World.moved w₁ (act w) ∧
      Uncovered (World.after (act w)) w₁ := by
  obtain ⟨t, hp, hf⟩ := pop_of_depth hd
  cases h : act w with
  | ok a w' =>
    rw [h] at hp hf
    have hp' : w'.frames.pop = .ok t := hp
    refine ⟨{ w' with frames := t }, ?_, uncovered_pop hf⟩
    simp only [Eval.leaving, h, hp']
    rfl
  | error e w' =>
    rw [h] at hp hf
    have hp' : w'.frames.pop = .ok t := hp
    by_cases he : (∃ o, e = .exhausted o) ∧ levels = 0
    · obtain ⟨⟨o, rfl⟩, hz⟩ := he
      refine ⟨w', ?_, uncovered_refl w'⟩
      simp only [Eval.leaving, h, if_pos hz]
      rfl
    · refine ⟨{ w' with frames := t }, ?_, uncovered_pop hf⟩
      exact (leaving_of_error levels h fun o hx hz => he ⟨⟨o, hx⟩, hz⟩).1 t hp'

/-- levels matter to an exhausted run only -/
theorem leaving_congr (levels levels' : Nat) {act act' : Run α} (h : act w = act' w)
    (hn : ∀ o w₁, act' w ≠ .error (.exhausted o) w₁) :
    Eval.leaving levels act w = Eval.leaving levels' act' w := by
  cases hr : act' w with
  | ok a w₁ => simp only [Eval.leaving, h, hr]
  | error e w₁ =>
    cases e with
    | exhausted o => exact absurd hr (hn o w₁)
    | _ => simp only [Eval.leaving, h, hr]

/-- a body that is broken off is broken off with its frame popped -/
theorem brokenOff_leaving (levels : Nat) {act : Run α} {w' w₁ w₂ : World} {o : Overrun}
    (hd : 0 < w.frames.depth) (hu : Uncovered w' w₂)
    (he : act w.pushed = .error (.exhausted o) w₁) (hb : BrokenOff w.pushed w₁ w') :
    ∃ o w₃, Eval.leaving levels act w.pushed = .error (.exhausted o) w₃ ∧ BrokenOff w w₃ w₂ := by
  have hpush : w.pushed.frames.depth = w.frames.depth + 1 := depth_push _
  have hdepth : 1 < (World.after (act w.pushed)).frames.depth := by
    have hdb := hb.depth
    rw [he]
    show 1 < w₁.frames.depth
    omega
  obtain ⟨w₃, hm, hu₃⟩ := leaving_moved levels act hdepth
  rw [he] at hm hu₃
  exact ⟨o, w₃, hm, hu.brokenOff hu₃ hb⟩

theorem cut_bracket (levels levels' : Nat) {act act' : Run α} (hd : 0 < w.frames.depth)
    (h : CutAt Q w.pushed (act w.pushed) (act' w.pushed)) :
    CutAt Q w ((Run.push >>= fun _ => Eval.leaving levels act) w)
      ((Run.push >>= fun _ => Eval.leaving levels' act') w) := by
  show CutAt Q w (Eval.leaving levels act w.pushed) (Eval.leaving levels' act' w.pushed)
  have hpush : w.pushed.frames.depth = w.frames.depth + 1 := depth_push _
  obtain ⟨hg, hv, hc⟩ := h
  -- however it ends, the body ends above the frame that was pushed, so there is one to pop
  have hdepth := hg.depth
  obtain ⟨w₂, hm, hu⟩ := leaving_moved levels' act' (w := w.pushed) (by omega)
  refine ⟨?_, ?_, ?_⟩
  · rw [hm, World.after_moved]
    exact hu.goesOn hg
  · intro a w' he
    rw [hm] at he
    cases hr : act' w.pushed with
    | ok b w₁ =>
      rw [hr] at he
      cases he
      exact hv a w₁ hr
    | error e w₁ =>
      rw [hr] at he
      cases he
  · have hafter : World.after (Eval.leaving levels' act' w.pushed)
        = w₂ := by rw [hm, World.after_moved]
    rw [hafter]
    rcases hc with he | ⟨o, w₁, he, hb⟩
    · by_cases hx : ∃ o w₁, act' w.pushed = .error (.exhausted o) w₁
      · obtain ⟨o, w₁, hx⟩ := hx
        refine .inr (brokenOff_leaving levels hd hu (he.trans hx) ?_)
        rw [hx] at hg ⊢
        exact ⟨hg.depth, hg.prints, World.prints_of_eq rfl⟩
      · exact .inl (leaving_congr levels levels' he fun o w₁ hx' => hx ⟨o, w₁, hx'⟩)
    · exact .inr (brokenOff_leaving levels hd hu he hb)

end

/-! ## the forms of the language -/

/-- evaluation with few levels and evaluation with many -/
def Shortens (ev ev' : Value → Run Value) : Prop :=
  ∀ e w, e.hostFree = true → w.Hostless → CutAt (fun v => v.hostFree = true) w (ev e w) (ev' e w)

section
variable {ev ev' : Value → Run Value} (hev : Shortens ev ev') {w : World} (hw : w.Hostless)
  {es : List Value} (hes : ∀ e ∈ es, e.hostFree = true)
include hev hw hes

theorem cut_arguments :
    CutAt (fun vs => ∀ v ∈ vs, v.hostFree = true) w (Eval.arguments ev es w)
      (Eval.arguments ev' es w) := by
  induction es generalizing w with
  | nil => exact cut_pure hw fun v hv => absurd hv List.not_mem_nil
  | cons e es ih =>
    obtain ⟨he, hes⟩ := List.forall_mem_cons.1 hes
    refine (hev e w he hw).bind fun v w₁ hv h₁ => ?_
    refine (ih h₁.hostless hes).bind fun vs w₂ hvs h₂ => ?_
    exact cut_pure h₂.hostless (List.forall_mem_cons.2 ⟨hv, hvs⟩)

theorem cut_formsFrom {last : Value} (hl : last.hostFree = true) :
    CutAt (fun v => v.hostFree = true) w (Eval.formsFrom ev last es w)
      (Eval.formsFrom ev' last es w) := by
  induction es generalizing w last with
  | nil => exact cut_pure hw hl
  | cons e es ih =>
    obtain ⟨he, hes⟩ := List.forall_mem_cons.1 hes
    exact (hev e w he hw).bind fun v w₁ hv h₁ => ih h₁.hostless hes hv

theorem cut_ifForm :
    CutAt (fun v => v.hostFree = true) w (Eval.ifForm ev es w) (Eval.ifForm ev' es w) := by
  cases es with
  | nil => exact cut_fail hw _
  | cons c es =>
    cases es with
    | nil => exact cut_fail hw _
    | cons yes rest =>
      obtain ⟨hc, hes⟩ := List.forall_mem_cons.1 hes
      obtain ⟨hyes, hrest⟩ := List.forall_mem_cons.1 hes
      refine (hev c w hc hw).bind fun v w₁ _ h₁ => ?_
      cases v with
      | bool b =>
        cases b with
        | true => exact hev yes w₁ hyes h₁.hostless
        | false =>
          cases rest with
          | nil => exact cut_pure h₁.hostless (by simp [Value.hostFree])
          | cons no rest => exact hev no w₁ (hrest no (List.mem_cons_self ..)) h₁.hostless
      | _ => exact cut_fail h₁.hostless _

theorem cut_letForm {levels levels' : Nat} (hl : levels ≤ levels') :
    CutAt (fun v => v.hostFree = true) w (Eval.letForm levels ev es w)
      (Eval.letForm levels' ev' es w) := by
  cases es with
  | nil => exact cut_fail hw _
  | cons x es =>
    cases x with
    | symbol n =>
      cases es with
      | nil => exact cut_fail hw _
      | cons e rest =>
        refine (hev e w (hes e (by simp)) hw).bind fun v w₁ hv h₁ => ?_
        refine (cut_define h₁.hostless (.symbol n) hv).bind fun _ w₂ _ h₂ => ?_
        exact cut_pure h₂.hostless (by simp [Value.hostFree])
    | _ => exact cut_raise hw hl _

end

section
variable {w : World} (hw : w.Hostless) {levels levels' : Nat} (hl : levels ≤ levels')
include hw hl

theorem cut_lambdaForm {tail : List Value} (ht : ∀ e ∈ tail, e.hostFree = true) :
    CutAt (fun v => v.hostFree = true) w (Eval.lambdaForm levels tail w)
      (Eval.lambdaForm levels' tail w) := by
  unfold Eval.lambdaForm
  split
  · exact cut_fail hw _
  · exact cut_fail hw _
  · next params body _ =>
    cases Eval.notSymbol? params with
    | some v => exact cut_raise hw hl _
    | none =>
      have hp : (Value.list params).hostFree = true := ht _ (by simp)
      exact cut_pure hw (hostFree_lambda.2 ⟨hostFree_list.1 hp, ht body (by simp)⟩)
  · exact cut_raise hw hl _

theorem cut_bindAll (params : List Value) {args : List Value} (ha : ∀ a ∈ args, a.hostFree = true) :
    CutAt (fun _ => True) w (Eval.bindAll levels params args w)
      (Eval.bindAll levels' params args w) := by
  induction params generalizing args w with
  | nil => exact cut_pure hw trivial
  | cons p params ih =>
    cases args with
    | nil => exact cut_pure hw trivial
    | cons a args =>
      obtain ⟨hv, ha⟩ := List.forall_mem_cons.1 ha
      exact ((cut_define hw p hv).worded hl).bind fun _ w₁ _ h₁ => ih h₁.hostless ha

theorem cut_print (args : List Value) :
    CutAt (fun _ => True) w (Primitive.print levels args w) (Primitive.print levels' args w) := by
  have hnote := cut_note hw (.printed (Primitive.printLine args))
  unfold Primitive.print
  by_cases h : Value.printLevelsOf false args + 2 ≤ levels
  · rw [if_pos h, if_pos (Nat.le_trans h hl)]
    exact hnote
  rw [if_neg h]
  by_cases h' : Value.printLevelsOf false args + 2 ≤ levels'
  · rw [if_pos h']
    exact hnote.at_once .calling
  · rw [if_neg h']
    exact cut_error hw (.exhausted .calling)

theorem cut_primitive (p : Primitive) (args : List Value) :
    CutAt (fun v => v.hostFree = true) w (p.run levels args w) (p.run levels' args w) := by
  have hc := p.computes_value args
  -- a line may be printed before the result is given
  have hprint : ∀ next : Run Value,
      (∀ w : World, w.Hostless → CutAt (fun v => v.hostFree = true) w (next w) (next w)) →
      CutAt (fun v => v.hostFree = true) w
        ((if p = .println then Primitive.print levels args >>= fun _ => next else next) w)
        ((if p = .println then Primitive.print levels' args >>= fun _ => next else next) w) := by
    intro next hn
    split
    · exact (cut_print hw hl args).bind fun _ w₁ _ h₁ => hn w₁ h₁.hostless
    · exact hn w hw
  unfold Primitive.run
  generalize p.value args = result at hc
  cases hc with
  | int n => exact hprint _ fun w hw => cut_pure hw (by simp [Value.hostFree])
  | bool b => exact hprint _ fun w hw => cut_pure hw (by simp [Value.hostFree])
  | nil => exact hprint _ fun w hw => cut_pure hw (by simp [Value.hostFree])
  | _ => exact hprint _ fun w hw => cut_fail hw _

end

section
variable {part part' below below' : Value → Run Value} (hpart : Shortens part part')
  (hbelow : Shortens below below') (host : Host) {levels levels' : Nat} (hl : levels ≤ levels')
  {w : World} (hw : w.Hostless)

include hbelow hl hw

theorem cut_applyLambda {params args : List Value} {body : Value} (hd : 0 < w.frames.depth)
    (hf : (Value.lambda params body).hostFree = true) (ha : ∀ a ∈ args, a.hostFree = true) :
    CutAt (fun v => v.hostFree = true) w (Eval.applyLambda levels below params body args w)
      (Eval.applyLambda levels' below' params body args w) := by
  have hbody := (hostFree_lambda.1 hf).2
  have hbracket : ∀ w : World, w.Hostless → 0 < w.frames.depth →
      CutAt (fun v => v.hostFree = true) w
        ((Run.push >>= fun _ => Eval.leaving levels
          (Eval.bindAll levels params args >>= fun _ => below body)) w)
        ((Run.push >>= fun _ => Eval.leaving levels'
          (Eval.bindAll levels' params args >>= fun _ => below' body)) w) := by
    intro w hw hd
    apply cut_bracket levels levels' hd
    have hw₀ : w.pushed.Hostless := fun n v hb => hw n v (bound_of_bound_push hb)
    exact (cut_bindAll hw₀ hl params ha).bind fun _ w₁ _ h₁ => hbelow body w₁ hbody h₁.hostless
  unfold Eval.applyLambda
  split
  · refine (cut_note hw _).bind fun _ w₁ _ h₁ => ?_
    exact hbracket w₁ h₁.hostless (Nat.lt_of_lt_of_le hd h₁.depth)
  · exact hbracket w hw hd

theorem cut_apply {f : Value} {args : List Value} (hd : 0 < w.frames.depth) (hf : f.hostFree = true)
    (ha : ∀ a ∈ args, a.hostFree = true) :
    CutAt (fun v => v.hostFree = true) w (Eval.apply host levels below f args w)
      (Eval.apply host levels' below' f args w) := by
  cases f with
  | native g =>
    obtain ⟨p, hp⟩ := hostless.native hf
    refine (cut_note hw _).bind fun _ w₁ _ h₁ => ?_
    rw [hp]
    exact cut_primitive h₁.hostless hl p args
  | lambda params body => exact cut_applyLambda hbelow hl hw hd hf ha
  | _ => exact cut_raise hw (Nat.add_le_add_right hl 1) _

include hpart

theorem cut_headed {n : Symbol} {tail : List Value} (ht : ∀ e ∈ tail, e.hostFree = true) :
    CutAt (fun v => v.hostFree = true) w (Eval.call host levels part below n tail w)
      (Eval.call host levels' part' below' n tail w) := by
  refine (cut_lookup hw n).bind fun f w₁ hf h₁ => ?_
  obtain ⟨hfree, hd⟩ := hf
  split
  · refine (cut_arguments hpart h₁.hostless ht).bind fun args w₂ ha h₂ => ?_
    refine (cut_note h₂.hostless _).bind fun _ w₃ _ h₃ => ?_
    have hd₃ : 0 < w₃.frames.depth :=
      Nat.lt_of_lt_of_le hd (Nat.le_trans h₁.depth (Nat.le_trans h₂.depth h₃.depth))
    exact cut_apply hbelow host hl h₃.hostless hd₃ hfree ha
  · exact cut_raise h₁.hostless (Nat.add_le_add_right hl 2) _

/-- one level of evaluation, from the evaluation of parts and of what runs below a call -/
theorem cut_step {e : Value} (he : e.hostFree = true) :
    CutAt (fun v => v.hostFree = true) w (Eval.step host levels part below e w)
      (Eval.step host levels' part' below' e w) := by
  cases e with
  | symbol n =>
    have hl := cut_lookup hw n
    exact ⟨hl.goesOn, fun v w' hv => (hl.value v w' hv).1, hl.cut⟩
  | list items =>
    cases items with
    | nil => exact cut_fail hw _
    | cons head tail =>
      have ht : ∀ e ∈ tail, e.hostFree = true :=
        fun e h => hostFree_list.1 he e (List.mem_cons_of_mem _ h)
      cases head with
      | symbol n =>
        rw [step_list, step_list]
        cases SpecialForm.of? w.table.id n with
        | none => exact cut_headed hpart hbelow host hl hw ht
        | some form =>
          cases form with
          | ifForm => exact cut_ifForm hpart hw ht
          | lambdaForm => exact cut_lambdaForm hw (Nat.add_le_add_right hl 1) ht
          | letForm => exact cut_letForm hpart hw ht (Nat.add_le_add_right hl 1)
      | _ => exact cut_raise hw (Nat.add_le_add_right hl 2) _
  | _ => exact cut_pure hw he

end

/-! ## evaluation -/

-- the recursion follows the larger number of levels; a smaller one below three breaks off at once
theorem cut_evaluate (host : Host) : ∀ many few, few ≤ many →
    Shortens (Eval.evaluate host few) (Eval.evaluate host many)
  | 0, few, h | 1, few, h | 2, few, h => by
    intro e w _ hw
    rw [Eval.evaluate_exhausted host (by omega), Eval.evaluate_exhausted host (by omega)]
    exact cut_error hw (.exhausted .calling)
  | many + 3, few, h => by
    intro e w he hw
    by_cases hf : few < 3
    · have hself : CutAt (fun v => v.hostFree = true) w (Eval.evaluate host (many + 3) e w)
          (Eval.evaluate host (many + 3) e w) := by
        rw [Eval.evaluate_add_three]
        exact cut_step (cut_evaluate host (many + 1) (many + 1) (Nat.le_refl _))
          (cut_evaluate host many many (Nat.le_refl _)) host (Nat.le_refl _) hw he
      rw [Eval.evaluate_exhausted host hf]
      exact hself.at_once .calling
    · obtain ⟨few, rfl⟩ : ∃ n, few = n + 3 := ⟨few - 3, by omega⟩
      rw [Eval.evaluate_add_three, Eval.evaluate_add_three]
      exact cut_step (cut_evaluate host (many + 1) (few + 1) (by omega))
        (cut_evaluate host many few (by omega)) host (by omega) hw he

/-! ## calls of a session -/

mutual
theorem hostFree_of_readable {table : Nat} : (v : Value) → v.Readable table → v.hostFree = true
  | .list vs, h => by
    rw [Value.hostFree]
    exact hostFreeAll_of_readable vs (Value.readable_list.1 h)
  | .nil, _ | .bool _, _ | .int _, _ | .str _, _ | .symbol _, _ => by simp [Value.hostFree]
  | .native _, h | .lambda _ _, h | .foreign _, h => absurd ((Value.readable_leaf rfl).1 h) id

theorem hostFreeAll_of_readable {table : Nat} :
    (vs : List Value) → (∀ v ∈ vs, v.Readable table) → Value.hostFreeAll vs = true
  | [], _ => by rw [Value.hostFreeAll]
  | v :: vs, h => by
    rw [Value.hostFreeAll, hostFree_of_readable v (h v (List.mem_cons_self ..)),
      hostFreeAll_of_readable vs (fun u hu => h u (List.mem_cons_of_mem _ hu))]
    rfl
end

/-- a call failed for want of levels: while it read the text, while it ran what it had read, or
before it could do either -/
def Failure.IsDeep : Failure → Prop
  | .parse p => p.cause = .nestedTooDeeply
  | .eval .tooDeep => True
  | .exhausted _ => True
  | _ => False

section
variable {α : Type} {Q : Value → Prop} {w : World}

/-- `CutAt` for a call: it is not exhausted but fails -/
structure CutOff (w : World) (few many : EStateM.Result Failure World Value) : Prop where
  cut : few = many ∨ ∃ e w₁, few = .error e w₁ ∧ e.IsDeep
  before : w.Prints (World.after few)
  after : (World.after few).Prints (World.after many)

theorem output_guarded (act : Run Value) (w : World) :
    (World.after (Eval.guarded act w)).output = (World.after (act w)).output := by
  cases h : act w with
  | ok v w₁ => simp only [Eval.guarded, h]
  | error e w₁ =>
    cases e with
    | exhausted o =>
      simp only [Eval.guarded, h]
      rfl
    | _ => simp only [Eval.guarded, h]

theorem CutAt.guarded {act act' : Run Value} (h : CutAt Q w (act w) (act' w)) :
    CutOff w (Eval.guarded act w) (Eval.guarded act' w) := by
  have hdeep : ∀ o w₁, act w = .error (.exhausted o) w₁ →
      ∃ e w₂, Eval.guarded act w = .error e w₂ ∧ e.IsDeep := by
    intro o w₁ he
    exact ⟨.eval .tooDeep, _, by simp only [Eval.guarded, he]; rfl, trivial⟩
  have hfew := output_guarded act w
  have hmany := output_guarded act' w
  rcases h.cut with he | ⟨o, w₁, he, hb⟩
  · refine ⟨.inl ?_, ?_, ?_⟩
    · simp only [Eval.guarded, he]
    · exact h.goesOn.prints.congr rfl (by rw [hfew, he])
    · exact World.prints_of_eq (by rw [hfew, hmany, he])
  · rw [he] at hfew
    exact ⟨.inr (hdeep o w₁ he), hb.before.congr rfl hfew, hb.after.congr hfew hmany⟩

theorem output_afterReading (w : World) (m : Marks) : (w.afterReading m).output = w.output :=
  printedText_afterReading w m

variable {few many : Nat} {x : Reading α}

/-- reading with few levels runs out, without printing anything, or does what it does with many -/
theorem read_within (hx : Widens x x) (hl : few ≤ many) (text : String) (w : World) :
    (∃ e w₁, Run.read few x text w = .error e w₁ ∧ e.IsDeep ∧ w₁.output = w.output) ∨
      Run.read few x text w = Run.read many x text w := by
  by_cases hf : few < Reading.overhead
  · exact .inl ⟨_, w, Run.read_of_lt hf, trivial, rfl⟩
  have hm : ¬ many < Reading.overhead := by omega
  have hlim : (Limits.ofLevels few).Within (.ofLevels many) :=
    ⟨rfl, Nat.div_le_div_right (Nat.sub_le_sub_right hl _)⟩
  let r := Reader.ofText text w.table (.ofLevels few)
  have hr : Reader.ofText text w.table (.ofLevels many) = r.under (.ofLevels many) := rfl
  rcases hx r (.ofLevels many) hlim with ⟨p, r', he⟩ | ⟨_, he⟩
  · have hdeep : Reading.reported few (.tooDeep p) = .parse (.tooDeep p) :=
      Reading.reported_of_le (Nat.le_of_not_lt hf)
    refine .inl ⟨_, _, Run.read_of_error hf he, ?_, output_afterReading w r'.marks⟩
    rw [hdeep]
    rfl
  · -- a reader keeps its limits to itself: the world afterwards has the marks only
    rw [← hr] at he
    cases h : x r with
    | ok a r' =>
      rw [h] at he
      rw [Run.read_of_ok hf h, Run.read_of_ok hm he]
      exact .inr rfl
    | error e r' =>
      rw [h] at he
      have hfew := Run.read_of_error hf h
      by_cases hword : Reading.wordingLevels e.cause ≤ few
      · rw [Reading.reported_of_le hword] at hfew
        rw [hfew, Run.read_of_error hm he, Reading.reported_of_le (hword.trans hl)]
        exact .inr rfl
      · have hout : Reading.reported few e = .exhausted .wording := if_pos (Nat.lt_of_not_le hword)
        refine .inl ⟨_, _, hfew, ?_, output_afterReading w r'.marks⟩
        rw [hout]
        trivial

variable {P : α → Prop} {body body' : α → Run Value} (hw : w.Hostless)
include hw

/-- what is run on a text read either way -/
theorem cut_read {text : String} (hread : Run.read few x text w = Run.read many x text w)
    (hP : ∀ a r, x (Reader.ofText text w.table (.ofLevels many)) = .ok a r → P a)
    (hbody : ∀ a w, P a → w.Hostless → CutAt Q w (body a w) (body' a w)) :
    CutOff w ((Run.read few x text >>= fun a => Eval.guarded (body a)) w)
      ((Run.read many x text >>= fun a => Eval.guarded (body' a)) w) := by
  have herror : ∀ {e w₁}, Run.read many x text w = .error e w₁ → w₁.output = w.output →
      CutOff w ((Run.read few x text >>= fun a => Eval.guarded (body a)) w)
        ((Run.read many x text >>= fun a => Eval.guarded (body' a)) w) := by
    intro e w₁ hr ho
    rw [bind_of_error hr, bind_of_error (hread.trans hr)]
    exact ⟨.inl rfl, World.prints_of_eq ho, World.prints_of_eq rfl⟩
  by_cases hm : many < Reading.overhead
  · exact herror (Run.read_of_lt hm) rfl
  cases h : x (Reader.ofText text w.table (.ofLevels many)) with
  | error e r => exact herror (Run.read_of_error hm h) (output_afterReading w _)
  | ok a r =>
    have hr := Run.read_of_ok hm h
    rw [bind_of_ok hr, bind_of_ok (hread.trans hr)]
    have hg := (hbody a (w.afterReading r.marks) (hP a r h) hw).guarded
    exact ⟨hg.cut, (World.prints_of_eq (output_afterReading w _)).trans hg.before, hg.after⟩

theorem cut_call (hx : Widens x x) (hl : few ≤ many) (text : String)
    (hP : ∀ a r, x (Reader.ofText text w.table (.ofLevels many)) = .ok a r → P a)
    (hbody : ∀ a w, P a → w.Hostless → CutAt Q w (body a w) (body' a w))
    (hself : ∀ a w, P a → w.Hostless → CutAt Q w (body' a w) (body' a w)) :
    CutOff w ((Run.read few x text >>= fun a => Eval.guarded (body a)) w)
      ((Run.read many x text >>= fun a => Eval.guarded (body' a)) w) := by
  rcases read_within hx hl text w with ⟨e, w₁, he, hdeep, ho⟩ | he
  · obtain ⟨_, hb, ha⟩ := cut_read hw (rfl : Run.read many x text w = _) hP hself
    rw [bind_of_error he]
    exact ⟨.inr ⟨e, w₁, rfl, hdeep⟩, World.prints_of_eq ho,
      (World.prints_of_eq ho.symm).trans (hb.trans ha)⟩
  · exact cut_read hw he hP hbody

end

/-- the outcomes `few` and `many` of one call from `before`, the second made with more levels -/
structure CutsShort (before : World) (few many : Except Failure Value × Session) : Prop where
  same : (∀ e, few.1 = .error e → ¬ e.IsDeep) → many.1 = few.1 ∧ many.2.world = few.2.world
  deep : ∀ e, many.1 = .error e → e.IsDeep → ∃ e', few.1 = .error e' ∧ e'.IsDeep
  before : before.Prints few.2.world
  after : few.2.world.Prints many.2.world

/-- the same session with another number of levels -/
def Session.withLevels (s : Session) (levels : Nat) : Session := { s with levels := levels }

theorem cutsShort_run {s : Session} {few many : Nat} {act act' : Run Value}
    (h : CutOff s.world (act s.world) (act' s.world)) :
    CutsShort s.world ((s.withLevels few).run act) ((s.withLevels many).run act') := by
  have hafter := (s.withLevels few).world_run act
  have hafter' := (s.withLevels many).world_run act'
  have hdeep : ∀ e w₁, act s.world = .error e w₁ → ((s.withLevels few).run act).1 = .error e := by
    intro e w₁ he
    rw [Session.run_error (s := s.withLevels few) he]
  have hsame : act s.world = act' s.world →
      ((s.withLevels many).run act').1 = ((s.withLevels few).run act).1 := by
    intro he
    cases hr : act' s.world with
    | ok v w =>
      rw [Session.run_ok (s := s.withLevels many) hr,
        Session.run_ok (s := s.withLevels few) (he.trans hr)]
    | error e w => rw [Session.run_error (s := s.withLevels many) hr, hdeep e w (he.trans hr)]
  refine ⟨?_, ?_, ?_, ?_⟩
  · intro hn
    rcases h.cut with he | ⟨e, w₁, he, hd⟩
    · refine ⟨hsame he, ?_⟩
      rw [hafter, hafter']
      exact congrArg World.after he.symm
    · exact absurd hd (hn e (hdeep e w₁ he))
  · intro e hm hd
    rcases h.cut with he | ⟨e', w₁, he, hd'⟩
    · exact ⟨e, by rw [← hsame he, hm], hd⟩
    · exact ⟨e', hdeep e' w₁ he, hd'⟩
  · rw [hafter]
    exact h.before
  · rw [hafter, hafter']
    exact h.after

/-- More levels change nothing but what was cut short: for any text, run as a program or as an
expression, in any session without procedures of the host, whatever its frames are like. -/
theorem levels_only_cut_short (s : Session) (hs : s.world.Hostless) (text : String) (few many : Nat)
    (hl : few ≤ many) :
    CutsShort s.world ((s.withLevels few).eval text) ((s.withLevels many).eval text) ∧
    CutsShort s.world ((s.withLevels few).evalExpression text)
      ((s.withLevels many).evalExpression text) := by
  have hev := cut_evaluate s.host many
  refine ⟨?_, ?_⟩
  · unfold Session.eval
    rw [runUnit_eq, runUnit_eq]
    refine cutsShort_run (cut_call (P := fun es => ∀ e ∈ es, e.hostFree = true)
      (Q := fun v => v.hostFree = true) hs widens_unit hl text ?_ ?_ ?_)
    · intro es r h
      have he := (readable_of_expression ((Reading.unit_eq_ok_iff _ _ _).1 h)).1
      exact hostFree_list.1 (hostFree_of_readable _ he)
    · intro es w hes hw
      exact (cut_note hw _).bind fun _ w₁ _ h₁ =>
        cut_formsFrom (hev few hl) h₁.hostless hes (by simp [Value.hostFree])
    · intro es w hes hw
      exact (cut_note hw _).bind fun _ w₁ _ h₁ =>
        cut_formsFrom (hev many (Nat.le_refl _)) h₁.hostless hes (by simp [Value.hostFree])
  · refine cutsShort_run (cut_call (P := fun e => e.hostFree = true)
      (Q := fun v => v.hostFree = true) hs widens_expression hl text ?_ ?_ ?_)
    · intro e r h
      exact hostFree_of_readable e (readable_of_expression h).1
    · exact fun e w he hw => hev few hl e w he hw
    · exact fun e w he hw => hev many (Nat.le_refl _) e w he hw

/-! ## new sessions -/

theorem hostless_emptyWorld : Session.emptyWorld.Hostless := fun _ _ hb => absurd hb not_bound_root

theorem World.Hostless.registerIn {w : World} (hw : w.Hostless) (p : Primitive) :
    (Session.registerIn w p.name (.primitive p)).Hostless := by
  intro n v hb
  rcases bound_of_bound_bindAt hb with ⟨_, rfl⟩ | hb
  · simp [Session.nativeIn, Value.hostFree, Procedure.isPrimitive]
  · exact hw n v hb

/-- `f` calls `g`, which prints 2 -/
def announcing : Session :=
  let w := Session.registerIn Session.emptyWorld "println" (.primitive .println)
  let call := Value.list [.symbol ⟨0, "g"⟩]
  let body := Value.list [.symbol ⟨0, "println"⟩, .int 2]
  let frames := w.frames.bindAt 0 ⟨0, "f"⟩ (.lambda [] call)
  ⟨{ w with frames := frames.bindAt 0 ⟨0, "g"⟩ (.lambda [] body) }, Session.noHost, 0⟩

/-- twelve levels are enough for the argument, and thirteen for the body of `g` as well -/
theorem levels_cut_body_short :
    announcing.world.Hostless ∧
      ((announcing.withLevels 12).evalExpression "(f (println 1))").1 = .error (.eval .tooDeep) ∧
      ((announcing.withLevels 12).evalExpression "(f (println 1))").2.world.output = "1\n" ∧
      ((announcing.withLevels 13).evalExpression "(f (println 1))").1 = .ok .nil ∧
      ((announcing.withLevels 13).evalExpression "(f (println 1))").2.world.output = "1\n2\n" ∧
      CutsShort announcing.world ((announcing.withLevels 12).evalExpression "(f (println 1))")
        ((announcing.withLevels 13).evalExpression "(f (println 1))") := by
  have hs : announcing.world.Hostless := by
    intro n v hb
    rcases bound_of_bound_bindAt hb with ⟨_, rfl⟩ | hb
    · decide
    rcases bound_of_bound_bindAt hb with ⟨_, rfl⟩ | hb
    · decide
    · exact hostless_emptyWorld.registerIn .println n v hb
  refine ⟨hs, ?_, ?_, ?_, ?_, (levels_only_cut_short announcing hs _ 12 13 (by decide)).2⟩
  · cbv
  · cbv
  · cbv
  · cbv

end Lisplet
