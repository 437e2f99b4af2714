import Mathlib
import Lisplet.Proofs.Ordinary
import Lisplet.Proofs.Restoration

/-!
# What a session has come to

A new session knows the primitives.  After that its owner makes calls, which read texts or run them,
and each may succeed or fail.  A world is `Sound` if all bindings of its frames are ordinary, under
names of its table, and so is all that the trace speaks of.

* `sound_standardWorld`   the world of a new session is sound;
* `settled_read`          reading keeps it sound: the table grows, and nothing else changes;
* `settled_guarded`       so does running what has been read;
* `sound_afterCalls`      so it is sound after any calls.

`Settled` collects how a call ends: with an ordinary value, with a parse error, with an error of the
evaluation that speaks of nothing but expressions and ordinary values, or without the levels to
begin.
-/

namespace Lisplet

open FrameStack Sequence

/-- the values that are passed in an event -/
def Event.arguments : Event → List Value
  | .applying _ args => args
  | .mismatch _ _ args => args
  | .called _ args => args
  | _ => []

/-! ## sound worlds -/

/-- bindings and trace are ordinary -/
structure World.Sound (depth : Nat) (w : World) : Prop where
  holds : (ordinary w.table depth).Holds w
  trace : ∀ e ∈ w.trace, (ordinary w.table depth).Records e

section
variable {depth : Nat}

theorem World.Sound.arguments {w : World} (hw : w.Sound depth) {e : Event} (he : e ∈ w.trace) :
    ∀ a ∈ e.arguments, Ordinary w.table depth a := by
  have hr := hw.trace e he
  cases e with
  | applying head args => exact hr
  | mismatch params body args => exact hr
  | called f args => exact hr.2
  | _ => exact fun a ha => absurd ha List.not_mem_nil

theorem World.Sound.note {w : World} (hw : w.Sound depth) {e : Event}
    (he : (ordinary w.table depth).Records e) : (w.note e).Sound depth where
  holds := ⟨hw.holds.proper, hw.holds.bound⟩
  trace := by
    intro e' he'
    rcases Array.mem_push.1 he' with hm | rfl
    · exact hw.trace e' hm
    · exact he

theorem sound_emptyWorld : Session.emptyWorld.Sound depth where
  holds := ⟨Proper.root, fun _ _ hb => absurd hb not_bound_root⟩
  trace := fun e he => absurd he (Array.not_mem_empty e)

theorem World.Sound.registerIn {w : World} (hw : w.Sound depth) (p : Primitive) :
    (Session.registerIn w p.name (.primitive p)).Sound depth := by
  have hext : w.table.Extends (w.table.intern p.name) := w.table.extends_intern p.name
  have hname : (w.table.intern p.name).Owns (w.table.symbol p.name) :=
    ⟨(w.table.id_intern p.name).symm, (w.table.mem_intern p.name p.name).2 (.inl rfl)⟩
  have hvalue : Ordinary (w.table.intern p.name) depth
      (Session.nativeIn w p.name (.primitive p)) := by
    show Ordinary _ depth (.native ⟨w.table.symbol p.name, .primitive p⟩)
    rw [← hext.symbol]
    exact .primitive p
  refine ⟨⟨hw.holds.proper.bindAt .., ?_⟩, fun e he => ordinary_records_mono hext (hw.trace e he)⟩
  intro n v hb
  rcases bound_of_bound_bindAt hb with ⟨rfl, rfl⟩ | hb
  · exact ⟨hname, hvalue⟩
  · exact (ordinary_holds_mono hext hw.holds).bound n v hb

theorem sound_standardWorld : Session.standardWorld.Sound depth :=
  Session.standardWorld_induction sound_emptyWorld (fun _ hw p => hw.registerIn p) fun _ hw =>
    hw.note trivial

theorem World.Sound.of_leads {w w' : World} (hw : w.Sound depth)
    (h : (ordinary w.table depth).Leads w w') : w'.Sound depth where
  holds := h.table ▸ h.holds
  trace := by
    intro e he
    rw [h.table]
    rcases h.trace e he with hm | hr
    · exact hw.trace e hm
    · exact hr

theorem World.Sound.afterReading {w : World} (hw : w.Sound depth) {m : Marks}
    (h : w.table.Extends m.table) :
    (w.afterReading m).Sound depth where
  holds := ⟨hw.holds.proper, (ordinary_holds_mono h hw.holds).bound⟩
  trace := by
    intro e he
    rcases Array.mem_append.1 he with hm | hm
    · exact ordinary_records_mono h (hw.trace e hm)
    · obtain ⟨l, _, rfl⟩ := List.mem_map.1 (List.mem_toArray.1 hm)
      trivial

end

/-! ## how calls end -/

section
variable {α : Type} {levels : Nat}

/-- how a call with so many levels may end -/
def Settled (levels : Nat) (Q : SymbolTable → α → Prop) : EStateM.Result Failure World α → Prop
  | .ok a w => Q w.table a ∧ w.Sound (Limits.ofLevels levels).depth
  | .error (.parse e) w =>
    (∀ wanted found, e.cause ≠ .expected wanted found) ∧ w.Sound (Limits.ofLevels levels).depth
  | .error (.eval e) w =>
    (ordinary w.table (Limits.ofLevels levels).depth).Raises e ∧
      w.Sound (Limits.ofLevels levels).depth
  | .error (.fault _) _ => False
  | .error (.exhausted _) w => levels ≤ Reading.overhead ∧ w.Sound (Limits.ofLevels levels).depth

theorem Settled.sound {Q : SymbolTable → α → Prop} {r : EStateM.Result Failure World α}
    (h : Settled levels Q r) : (World.after r).Sound (Limits.ofLevels levels).depth := by
  cases r with
  | ok a w => exact h.2
  | error e w =>
    cases e with
    | parse e => exact h.2
    | eval e => exact h.2
    | fault f => exact h.elim
    | exhausted o => exact h.2

theorem settled_read {reading : Reading α} {Q : SymbolTable → α → Prop} {text : String}
    (hr : ∀ t, Learns t Q (reading (Reader.ofText text t (.ofLevels levels)))) {w : World}
    (hw : w.Sound (Limits.ofLevels levels).depth) :
    Settled levels Q (Run.read levels reading text w) := by
  by_cases hlow : levels < Reading.overhead
  · rw [Run.read_of_lt hlow]
    exact ⟨Nat.le_of_lt hlow, hw⟩
  have hl := hr w.table
  cases h : reading (Reader.ofText text w.table (.ofLevels levels)) with
  | ok a r =>
    rw [h] at hl
    rw [Run.read_of_ok hlow h]
    exact ⟨hl.2, hw.afterReading hl.1⟩
  | error e r =>
    rw [h] at hl
    rw [Run.read_of_error hlow h]
    rcases Reading.reported_cases hlow e with he | ⟨he, hlevels, _⟩
    · rw [he]
      exact ⟨hl.2, hw.afterReading hl.1⟩
    · rw [he]
      exact ⟨Nat.le_of_eq hlevels, hw.afterReading hl.1⟩

/-- ordinary for a session with so many levels -/
def OrdinaryWith (levels : Nat) (t : SymbolTable) (v : Value) : Prop :=
  Ordinary t (Limits.ofLevels levels).depth v

theorem settled_guarded {act : Run Value} {w : World} (hw : w.Sound (Limits.ofLevels levels).depth)
    (h : (ordinary w.table (Limits.ofLevels levels).depth).Secures
      (ordinary w.table (Limits.ofLevels levels).depth).IsValue act) :
    Settled levels (OrdinaryWith levels) (Eval.guarded act w) := by
  have hy := Realm.secures_guarded h w hw.holds
  cases hr : Eval.guarded act w with
  | ok v w' =>
    rw [hr] at hy
    obtain ⟨hv, hl⟩ := hy
    refine ⟨?_, hw.of_leads hl⟩
    show Ordinary w'.table _ v
    rw [hl.table]
    exact hv
  | error e w' =>
    rw [hr] at hy
    cases e with
    | parse e => exact hy.elim
    | fault f => exact hy.elim
    | eval e =>
      obtain ⟨he, hl⟩ := hy
      refine ⟨?_, hw.of_leads hl⟩
      rw [hl.table]
      exact he
    | exhausted o => exact absurd hr (guarded_ne_exhausted act w w' o)

/-- a text is read, and what was read is run -/
theorem Settled.bind_guarded {x : Run α} {f : α → Run Value} {Q : SymbolTable → α → Prop}
    {w : World} (hx : Settled levels Q (x w))
    (hf : ∀ t a, Q t a → (ordinary t (Limits.ofLevels levels).depth).Secures
      (ordinary t (Limits.ofLevels levels).depth).IsValue (f a)) :
    Settled levels (OrdinaryWith levels) ((x >>= fun a => Eval.guarded (f a)) w) := by
  cases h : x w with
  | ok a w' =>
    rw [h] at hx
    rw [bind_of_ok h]
    exact settled_guarded hx.2 (hf w'.table a hx.1)
  | error e w' =>
    rw [h] at hx
    rw [bind_of_error h]
    cases e with
    | parse e => exact hx
    | eval e => exact hx
    | fault f => exact hx
    | exhausted o => exact hx

end

/-! ## sessions -/

namespace Session

/-- the world of the session is sound for what its reader admits -/
def Sound (s : Session) : Prop := s.world.Sound (Limits.ofLevels s.levels).depth

variable {s : Session}

theorem Sound.settled_parse (hs : s.Sound) (text : String) :
    Settled s.levels (fun t es => ∀ e ∈ es, Producible t (Limits.ofLevels s.levels).depth e)
      (Run.read s.levels Reading.unit text s.world) :=
  settled_read (fun t => learns_unit t _ text) hs

theorem Sound.settled_parseExpression (hs : s.Sound) (text : String) :
    Settled s.levels (fun t e => Producible t (Limits.ofLevels s.levels).depth e)
      (Run.read s.levels Reading.expression text s.world) :=
  settled_read (fun t => learns_expression t _ text) hs

theorem Sound.settled_eval (hs : s.Sound) (text : String) :
    Settled s.levels (OrdinaryWith s.levels)
      (Eval.runUnit s.levels s.evaluator text s.world) := by
  rw [runUnit_eq]
  refine (hs.settled_parse text).bind_guarded fun t es hes => ?_
  refine (Realm.secures_note (e := .evaluating es.length) trivial).bind fun _ _ => ?_
  exact Realm.secures_formsFrom (fun _ => Realm.secures_evaluate s.host s.levels) (Realm.nil _) hes

theorem Sound.settled_evalExpression (hs : s.Sound) (text : String) :
    Settled s.levels (OrdinaryWith s.levels)
      (Eval.runExpression s.levels s.evaluator text s.world) := by
  refine (hs.settled_parseExpression text).bind_guarded fun t e he => ?_
  exact Realm.secures_evaluate s.host s.levels he

theorem levels_run {α : Type} (s : Session) (act : Run α) : (s.run act).2.levels = s.levels := by
  cases h : act s.world with
  | ok a w => rw [run_ok h]
  | error e w => rw [run_error h]

theorem Sound.run {α : Type} {act : Run α} {Q : SymbolTable → α → Prop}
    (h : Settled s.levels Q (act s.world)) : (s.run act).2.Sound := by
  unfold Sound
  rw [levels_run, world_run]
  exact h.sound

theorem sound_new (primitives : Bool) (levels : Nat) : (Session.new primitives levels).Sound := by
  cases primitives with
  | true => exact sound_standardWorld
  | false => exact sound_emptyWorld

end Session

/-- a call that the owner of a session makes -/
inductive Call where
  | eval (text : String)
  | evalExpression (text : String)
  | parse (text : String)
  | parseExpression (text : String)

namespace Session

/-- the session after a call, however it has ended -/
def afterCall (s : Session) : Call → Session
  | .eval text => (s.eval text).2
  | .evalExpression text => (s.evalExpression text).2
  | .parse text => (s.parse text).2
  | .parseExpression text => (s.parseExpression text).2

def afterCalls (s : Session) (calls : List Call) : Session := calls.foldl afterCall s

theorem Sound.afterCall {s : Session} (hs : s.Sound) (c : Call) : (s.afterCall c).Sound := by
  cases c with
  | eval text => exact Sound.run (hs.settled_eval text)
  | evalExpression text => exact Sound.run (hs.settled_evalExpression text)
  | parse text => exact Sound.run (hs.settled_parse text)
  | parseExpression text => exact Sound.run (hs.settled_parseExpression text)

theorem Sound.afterCalls {s : Session} (hs : s.Sound) (calls : List Call) :
    (s.afterCalls calls).Sound := by
  induction calls generalizing s with
  | nil => exact hs
  | cons c calls ih => exact ih (hs.afterCall c)

theorem levels_afterCalls (s : Session) (calls : List Call) :
    (s.afterCalls calls).levels = s.levels := by
  induction calls generalizing s with
  | nil => rfl
  | cons c calls ih =>
    refine (ih (s.afterCall c)).trans ?_
    cases c <;> exact levels_run ..

end Session

theorem ordinary_of_run {s : Session} {act : Run Value} {v : Value}
    (h : Settled s.levels (OrdinaryWith s.levels) (act s.world)) (hv : (s.run act).1 = .ok v) :
    OrdinaryWith s.levels (s.run act).2.world.table v := by
  cases hr : act s.world with
  | ok u w =>
    rw [hr] at h
    rw [Session.run_ok hr] at hv ⊢
    cases hv
    exact h.1
  | error e w =>
    rw [Session.run_error hr] at hv
    cases hv

/-- **A session works with ordinary values only.**  After any calls of a new session, succeeding or
failing: what its frames bind is ordinary, under names of its table, so is what was ever passed to a
function, and so is what the next run gives back. -/
theorem session_ordinary (levels : Nat) (calls : List Call) (text : String) :
    let s := (Session.new true levels).afterCalls calls
    let depth := (Limits.ofLevels levels).depth
    (∀ n v, s.world.frames.Bound n v → s.world.table.Owns n ∧ Ordinary s.world.table depth v) ∧
    (∀ e ∈ s.world.trace, ∀ a ∈ e.arguments, Ordinary s.world.table depth a) ∧
    (∀ v, (s.eval text).1 = .ok v → Ordinary (s.eval text).2.world.table depth v) ∧
    (∀ v, (s.evalExpression text).1 = .ok v →
      Ordinary (s.evalExpression text).2.world.table depth v) := by
  intro s depth
  have hs : s.Sound := (Session.sound_new true levels).afterCalls calls
  have hl : s.levels = levels := (Session.new true levels).levels_afterCalls calls
  have hd : (Limits.ofLevels s.levels).depth = depth := by rw [hl]
  have hw : s.world.Sound depth := hd ▸ hs
  refine ⟨hw.holds.bound, fun e he => hw.arguments he, ?_, ?_⟩
  · intro v hv
    exact hd ▸ ordinary_of_run (hs.settled_eval text) hv
  · intro v hv
    exact hd ▸ ordinary_of_run (hs.settled_evalExpression text) hv

end Lisplet
