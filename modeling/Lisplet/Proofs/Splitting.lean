import Mathlib
import Lisplet.Proofs.Formatting

/-!
# A program in several calls

A session keeps its frames from call to call, so a program may be given to it in pieces.

* `runForms_append`        forms that follow other forms are run in a call of their own with the
  same effect;
* `runForms_breaks_off`    a program that fails has the effect of the form that failed, after those
  in front of it;
* `sameEnd_eval`           the same for texts.  The pieces are read one by one, which leaves other
  symbols and another trace behind, but no run depends on these (`Session.Like`).

A whole program is guarded once and its pieces are guarded one by one.  That makes no difference
since the first piece leaves the current frame where it was (`undisturbed_runForms`).
-/

namespace Lisplet

open FrameStack Sequence

/-! ## forms in a row -/

section
variable {ev : Value → Run Value}

theorem formsFrom_append (last : Value) (u v : List Value) :
    Eval.formsFrom ev last (u ++ v) = Eval.formsFrom ev last u >>=
      fun a => Eval.formsFrom ev a v := by
  induction u generalizing last with
  | nil => rfl
  | cons e u ih =>
    show (ev e >>= fun a => Eval.formsFrom ev a (u ++ v))
      = (ev e >>= fun a => Eval.formsFrom ev a u) >>= fun a => Eval.formsFrom ev a v
    rw [bind_assoc]
    congr 1
    funext a
    exact ih a

/-- the value of the first forms is dropped if another form follows -/
theorem forms_append (u : List Value) {v : List Value} (hv : v ≠ []) :
    Eval.forms ev (u ++ v) = Eval.forms ev u >>= fun _ => Eval.forms ev v := by
  cases v with
  | nil => exact absurd rfl hv
  | cons e v => exact formsFrom_append .nil u (e :: v)

/-- a program fails at one of its forms -/
theorem exists_failing_form {u : List Value} {last : Value} {e : Failure} {w w' : World}
    (h : Eval.formsFrom ev last u w = .error e w') :
    ∃ done f rest a w₁, u = done ++ f :: rest ∧ Eval.formsFrom ev last done w = .ok a w₁ ∧
      ev f w₁ = .error e w' := by
  induction u generalizing last w with
  | nil => cases h
  | cons f u ih =>
    cases hf : ev f w with
    | error e₁ w₁ =>
      have hr : Eval.formsFrom ev last (f :: u) w = .error e₁ w₁ := bind_of_error hf
      rw [hr] at h
      cases h
      exact ⟨[], f, u, last, w, rfl, rfl, hf⟩
    | ok a w₁ =>
      have hr : Eval.formsFrom ev last (f :: u) w = Eval.formsFrom ev a u w₁ := bind_of_ok hf
      rw [hr] at h
      obtain ⟨done, g, rest, b, w₂, rfl, hd, hg⟩ := ih h
      exact ⟨f :: done, g, rest, b, w₂, rfl, (bind_of_ok hf).trans hd, hg⟩

end

section
variable {α : Type} {x : Run α} {w w' : World}

theorem guarded_of_ok {a : α} (h : x w = .ok a w') : Eval.guarded x w = .ok a w' := by
  simp only [Eval.guarded, h]

/-- all that matters of the world at the beginning is the current frame -/
theorem guarded_congr {x' : Run α} (h : x w = x' w') (hc : w'.frames.current = w.frames.current) :
    Eval.guarded x w = Eval.guarded x' w' := by
  simp only [Eval.guarded, h, hc]

end

/-! ## programs in a session -/

namespace Session

/-- runs a program that has been read -/
def runForms (s : Session) (es : List Value) : Except Failure Value × Session :=
  s.run (Eval.guarded (Eval.forms s.evaluator es))

/-- a second call, unless the first one has failed -/
def andThen (first : Except Failure Value × Session)
    (second : Session → Except Failure Value × Session) :
    Except Failure Value × Session :=
  match first.1 with
  | .ok _ => second first.2
  | .error _ => first

/-- sessions in which programs have the same effect -/
structure Like (s s' : Session) : Prop where
  levels : s'.levels = s.levels
  frames : s'.world.frames = s.world.frames
  table : s'.world.table.id = s.world.table.id
  output : s'.world.output = s.world.output

/-- how a session goes on -/
structure GoesOn (s t : Session) : Prop where
  levels : t.levels = s.levels
  table : t.world.table = s.world.table
  hostless : t.world.Hostless
  prints : s.world.Prints t.world

/-- the same value or failure in sessions that are alike -/
structure SameEnd (a b : Except Failure Value × Session) : Prop where
  result : b.1 = a.1
  session : a.2.Like b.2

variable {s s' t : Session} {u v es : List Value}

theorem Like.symm (h : s.Like s') :
    s'.Like s := ⟨h.levels.symm, h.frames.symm, h.table.symm, h.output.symm⟩

theorem Like.trans (h : s.Like s') (h' : s'.Like t) : s.Like t where
  levels := h'.levels.trans h.levels
  frames := h'.frames.trans h.frames
  table := h'.table.trans h.table
  output := h'.output.trans h.output

theorem Like.hostless (h : s.Like s') (hs : s.world.Hostless) : s'.world.Hostless := by
  intro n v hb
  rw [h.frames] at hb
  exact hs n v hb

theorem Like.proper (h : s.Like s') (hs : s.world.frames.Proper) : s'.world.frames.Proper := by
  rw [h.frames]
  exact hs

theorem run_congr {act act' : Run Value} {w : World} (h : act s.world = act' w) :
    s.run act = Session.run { s with world := w } act' := by
  simp only [Session.run, h]

/-- programs are run side by side in sessions that are alike; not even the hosts have to be the
same -/
theorem leads_runForms (h : s.Like s') (hs : s.world.Hostless) (hes : ∀ e ∈ es, e.hostFree = true) :
    ∃ r w w', s.runForms es = (r, { s with world := w }) ∧
      s'.runForms es = (r, { s' with world := w' }) ∧
      (verbatim s.world.table.id).Leads s.world s'.world w w' := by
  let C := verbatim s.world.table.id
  have hev := C.corresponds_evaluate_hosts s.host s'.host s.levels
  have hforms := C.corresponds_formsFrom hev hes (show C.Values .nil .nil from ⟨rfl, C.nil⟩)
  rw [show es.map (Value.rename C.rename) = es from Value.map_rename_id es] at hforms
  have ha := C.corresponds_guarded hforms _ _ (pairs_of_frames hs h.frames h.table)
  have hlevels : s'.evaluator = Eval.evaluate s'.host s.levels := by rw [evaluator, h.levels]
  unfold runForms
  rw [hlevels]
  generalize hr : Eval.guarded (Eval.formsFrom (Eval.evaluate s.host s.levels) .nil es) s.world = r,
    hr' : Eval.guarded (Eval.formsFrom (Eval.evaluate s'.host s.levels) .nil es) s'.world = r' at ha
  cases ha with
  | ok hv hl =>
    obtain ⟨rfl, _⟩ := hv
    rw [show Value.rename C.rename _ = _ from Value.rename_id _] at hr'
    exact ⟨_, _, _, run_ok hr, run_ok hr', hl⟩
  | error hl =>
    rw [show Failure.rename C.rename _ = _ from Failure.rename_id _] at hr'
    exact ⟨_, _, _, run_error hr, run_error hr', hl⟩

theorem sameEnd_runForms (h : s.Like s') (hs : s.world.Hostless)
    (hes : ∀ e ∈ es, e.hostFree = true) :
    SameEnd (s.runForms es) (s'.runForms es) := by
  obtain ⟨r, w, w', hr, hr', hl⟩ := leads_runForms h hs hes
  obtain ⟨more, more', ht, ht', hm⟩ := hl.trace
  have ho : printedText s'.world.trace.toList = printedText s.world.trace.toList := h.output
  rw [hr, hr']
  refine ⟨rfl, h.levels, eq_of_matched hl.pairs.frames, ?_, ?_⟩
  · show w'.table.id = w.table.id
    rw [hl.table, hl.table', h.table]
  · show printedText w'.trace.toList = printedText w.trace.toList
    rw [ht, ht', printedText_append, printedText_append, ho, events_eq_of_id hm]

theorem goesOn_runForms (hs : s.world.Hostless) (hes : ∀ e ∈ es, e.hostFree = true) :
    s.GoesOn (s.runForms es).2 := by
  obtain ⟨r, w, _, hr, _, hl⟩ := leads_runForms ⟨rfl, rfl, rfl, rfl⟩ hs hes
  obtain ⟨more, _, ht, _⟩ := hl.trace
  rw [hr]
  refine ⟨rfl, hl.table, hostless_of_pairs hl.pairs, printedText more, ?_⟩
  show printedText w.trace.toList = printedText s.world.trace.toList ++ printedText more
  rw [ht, printedText_append]

theorem confined_noHost : noHost.Confined := Host.confined_of_frames_eq fun _ _ _ _ => rfl

/-- the host of the session may be anything, since it is never asked -/
theorem undisturbed_runForms (hp : s.world.frames.Proper) (hs : s.world.Hostless)
    (hes : ∀ e ∈ es, e.hostFree = true) :
    Undisturbed s.world.frames (s.runForms es).2.world.frames := by
  let alone : Session := { s with host := noHost }
  have hsame : SameEnd (alone.runForms es) (s.runForms es) :=
    sameEnd_runForms ⟨rfl, rfl, rfl, rfl⟩ hs hes
  have hforms := disciplined_formsFrom (disciplined_evaluate confined_noHost s.levels) .nil es
  have hu := (contained_guarded hforms).undisturbed hp
  rw [hsame.session.frames, runForms, world_run]
  exact hu

/-- a program in two pieces -/
theorem runForms_append (hp : s.world.frames.Proper) (hs : s.world.Hostless)
    (hu : ∀ e ∈ u, e.hostFree = true) (hv : v ≠ []) :
    s.runForms (u ++ v) = andThen (s.runForms u) fun t => t.runForms v := by
  have hforms : Eval.forms s.evaluator (u ++ v) = Eval.forms s.evaluator u >>=
      fun _ => Eval.forms s.evaluator v :=
    forms_append u hv
  cases hr : Eval.forms s.evaluator u s.world with
  | ok a w =>
    have hfirst : s.runForms u = (.ok a, { s with world := w }) := run_ok (guarded_of_ok hr)
    have hc : w.frames.current = s.world.frames.current := by
      have hun := undisturbed_runForms hp hs hu
      rw [hfirst] at hun
      exact hun.current
    rw [hfirst]
    refine run_congr (guarded_congr ?_ hc)
    rw [hforms]
    exact bind_of_ok hr
  | error e w =>
    have hboth : Eval.forms s.evaluator (u ++ v) s.world = Eval.forms s.evaluator u s.world := by
      rw [hforms, bind_of_error hr, hr]
    have hfirst : s.runForms (u ++ v) = s.runForms u := run_congr (guarded_congr hboth rfl)
    have hfails : ∃ e, (s.runForms u).1 = .error e := by
      unfold runForms run Eval.guarded
      rw [hr]
      cases e <;> exact ⟨_, rfl⟩
    obtain ⟨e', he⟩ := hfails
    rw [hfirst, andThen, he]

/-- The program `u` fails, at `f`.  The forms in front of `f` are run to their end, and `f` then
leaves the session as it would in a call of its own: what they have printed and bound stays. -/
def BreaksOff (s : Session) (u : List Value) (final : Except Failure Value × Session) : Prop :=
  ∃ done f rest a t, u = done ++ f :: rest ∧ s.runForms done = (.ok a, t) ∧ t.runForms [f] = final ∧
    t.world.Prints final.2.world ∧ Undisturbed t.world.frames final.2.world.frames

theorem runForms_breaks_off (hp : s.world.frames.Proper) (hs : s.world.Hostless)
    (hu : ∀ e ∈ u, e.hostFree = true) {e : Failure} (he : (s.runForms u).1 = .error e) :
    s.BreaksOff u (s.runForms u) := by
  cases hr : Eval.forms s.evaluator u s.world with
  | ok a w =>
    rw [runForms, run_ok (guarded_of_ok hr)] at he
    cases he
  | error e₀ w₀ =>
    obtain ⟨done, f, rest, a, w, rfl, hdone, hf⟩ := exists_failing_form hr
    have hd : ∀ e ∈ done, e.hostFree = true := fun e he => hu e (List.mem_append_left _ he)
    have hff : ∀ e ∈ [f], e.hostFree = true := List.forall_mem_singleton.2 (hu f (by simp))
    let t : Session := { s with world := w }
    have hfirst : s.runForms done = (.ok a, t) := run_ok (guarded_of_ok hdone)
    have hun : Undisturbed s.world.frames t.world.frames := by
      have h := undisturbed_runForms hp hs hd
      rwa [hfirst] at h
    have hgo : s.GoesOn t := by
      have h := goesOn_runForms hs hd
      rwa [hfirst] at h
    have hlast : t.runForms [f] = s.runForms (done ++ f :: rest) := by
      have hone : Eval.forms s.evaluator [f] w = .error e₀ w₀ := bind_of_error hf
      exact (run_congr (guarded_congr (hr.trans hone.symm) hun.current)).symm
    rw [← hlast]
    exact ⟨done, f, rest, a, t, rfl, hfirst, rfl, (goesOn_runForms hgo.hostless hff).prints,
      undisturbed_runForms (hun.proper hp) hgo.hostless hff⟩

/-! ## texts -/

section
variable {text : String}

theorem hostFree_of_parse (h : (s.parse text).1 = .ok es) : ∀ e ∈ es, e.hostFree = true := by
  obtain ⟨⟨_, _, _, hsexp, _⟩, _⟩ := forms_of_parse h
  exact hostFree_list.1 (hostFree_of_readable _ hsexp.readable)

/-- what a text is read as depends on the levels and the number of the table -/
theorem parse_eq_ok_of_eq (hl : t.levels = s.levels) (ht : t.world.table.id = s.world.table.id)
    (h : (s.parse text).1 = .ok es) : (t.parse text).1 = .ok es := by
  obtain ⟨he, hd⟩ := forms_of_parse h
  rw [← hl] at hd
  rw [← ht] at he
  obtain ⟨m, hr, _⟩ := read_forms he hd
  rw [Session.parse, run_ok hr]

theorem eval_of_parse (h : (s.parse text).1 = .ok es) :
    ∃ s', s.Like s' ∧ s.eval text = s'.runForms es := by
  obtain ⟨he, hd⟩ := forms_of_parse h
  obtain ⟨m, hr, ht⟩ := read_forms he hd
  let w := (s.world.afterReading m).note (.evaluating es.length)
  refine ⟨{ s with world := w }, ⟨rfl, rfl, ?_, ?_⟩, ?_⟩
  · show m.table.id = s.world.table.id
    rw [ht, SymbolTable.id_internAll]
  · show w.output = s.world.output
    rw [World.output_note, output_afterReading]
    exact String.append_empty
  · exact run_congr (bind_of_ok hr)

end

theorem sameEnd_eval {whole first second : String} (hp : s.world.frames.Proper)
    (hs : s.world.Hostless) (hu : (s.parse first).1 = .ok u) (hv : (s.parse second).1 = .ok v)
    (hne : v ≠ []) (hw : (s.parse whole).1 = .ok (u ++ v)) :
    SameEnd (s.eval whole) (andThen (s.eval first) fun t => t.eval second) := by
  have hfu := hostFree_of_parse hu
  obtain ⟨s₁, h₁, hwhole⟩ := eval_of_parse hw
  obtain ⟨s₂, h₂, hfirst⟩ := eval_of_parse hu
  have hs₁ := h₁.hostless hs
  have hsame := sameEnd_runForms (h₁.symm.trans h₂) hs₁ hfu
  have hgo := goesOn_runForms hs₁ hfu
  rw [hwhole, hfirst, runForms_append (h₁.proper hp) hs₁ hfu hne, andThen, andThen, hsame.result]
  cases hr : (s₁.runForms u).1 with
  | error e => exact hsame
  | ok a =>
    -- the second text is read after the first has been run, and still as the same forms
    have hl := (hsame.session.levels.trans hgo.levels).trans h₁.levels
    have ht := (hsame.session.table.trans (congrArg SymbolTable.id hgo.table)).trans h₁.table
    obtain ⟨s₃, h₃, hsecond⟩ := eval_of_parse (parse_eq_ok_of_eq hl ht hv)
    show SameEnd ((s₁.runForms u).2.runForms v) ((s₂.runForms u).2.eval second)
    rw [hsecond]
    exact sameEnd_runForms (hsame.session.trans h₃) hgo.hostless (hostFree_of_parse hv)

end Session

open Session

/-- Splitting a program changes nothing.  The programs `u` and `v` are read from texts.  To run `u
++ v` is to run `u` and then, if that succeeded, `v`.  A text of `u ++ v` is evaluated to the same
value or failure, with the same frames and output, as a text of `u` and then one of `v`.  If `u`
fails, then `u ++ v` ends where `u` does, and it has gone as far as the form that failed. -/
theorem splitting_changes_nothing (s : Session) (hp : s.world.frames.Proper) (hs : s.world.Hostless)
    (first second : String) (u v : List Value) (hu : (s.parse first).1 = .ok u)
    (hv : (s.parse second).1 = .ok v) (hne : v ≠ []) :
    s.runForms (u ++ v) = andThen (s.runForms u) (fun t => t.runForms v) ∧
      (∀ whole, (s.parse whole).1 = .ok (u ++ v) →
        SameEnd (s.eval whole) (andThen (s.eval first) fun t => t.eval second)) ∧
      ∀ e, (s.runForms u).1 = .error e →
        s.runForms (u ++ v) = s.runForms u ∧ s.BreaksOff u (s.runForms (u ++ v)) := by
  have hfu := hostFree_of_parse hu
  have happend := runForms_append hp hs hfu hne
  refine ⟨happend, fun whole hw => sameEnd_eval hp hs hu hv hne hw, fun e he => ?_⟩
  have hfails : s.runForms (u ++ v) = s.runForms u := by
    rw [happend, andThen, he]
  rw [hfails]
  exact ⟨rfl, runForms_breaks_off hp hs hfu he⟩

/-- `(let f (lambda (n) (f n)))`, then `(f (println 3))`, then `(let y 4)` -/
def endlessProgram : List Value :=
  [.list [.symbol ⟨0, "let"⟩, .symbol ⟨0, "f"⟩,
      .list [.symbol ⟨0, "lambda"⟩, .list [.symbol ⟨0, "n"⟩],
        .list [.symbol ⟨0, "f"⟩, .symbol ⟨0, "n"⟩]]],
    .list [.symbol ⟨0, "f"⟩, .list [.symbol ⟨0, "println"⟩, .int 3]],
    .list [.symbol ⟨0, "let"⟩, .symbol ⟨0, "y"⟩, .int 4]]

/-- `println` is all that is bound -/
def printing : Session :=
  ⟨Session.registerIn Session.emptyWorld "println" (.primitive .println), Session.noHost, 15⟩

/-- the second form is exhausted after it has printed its argument -/
theorem splitting_endless_program :
    let v : List Value := [.list [.symbol ⟨0, "println"⟩, .int 5]]
    (printing.runForms endlessProgram).1 = .error (.eval .tooDeep) ∧
      (printing.runForms endlessProgram).2.world.output = "3\n" ∧
      printing.BreaksOff endlessProgram (printing.runForms (endlessProgram ++ v)) ∧
      SameEnd (printing.eval "((let f (lambda (n) (f n))) (f (println 3)) (let y 4) (println 5))")
        (andThen (printing.eval "((let f (lambda (n) (f n))) (f (println 3)) (let y 4))") fun t =>
          t.eval "((println 5))") := by
  intro v
  have hp : printing.world.frames.Proper := Proper.root.bindAt ..
  have hs : printing.world.Hostless := hostless_emptyWorld.registerIn .println
  have hu : (printing.parse "((let f (lambda (n) (f n))) (f (println 3)) (let y 4))").1
      = .ok endlessProgram := by cbv
  have hv : (printing.parse "((println 5))").1 = .ok v := by cbv
  have hw : (printing.parse "((let f (lambda (n) (f n))) (f (println 3)) (let y 4) (println 5))").1
      = .ok (endlessProgram ++ v) := by cbv
  have he : (printing.runForms endlessProgram).1 = .error (.eval .tooDeep) := by cbv
  have ho : (printing.runForms endlessProgram).2.world.output = "3\n" := by cbv
  obtain ⟨_, htexts, hfails⟩ := splitting_changes_nothing printing hp hs _ _ endlessProgram v hu hv
    (List.cons_ne_nil _ _)
  exact ⟨he, ho, (hfails _ he).2, htexts _ hw⟩

end Lisplet
