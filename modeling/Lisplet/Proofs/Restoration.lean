import Lisplet.Proofs.FrameDiscipline

/-!
# What a call of the session restores

A call of the session reads a text and runs what it has read.  A run may be exhausted with frames
left on top, and the call then takes them off.  So a call always leaves the stack undisturbed,
whatever its depth was; a procedure of the host that calls back is no exception, since its call is
one of a session with the levels that are left.

`Restores` collects what a call gives back: the stack (`frames`), the result of the run if it was
not exhausted (`ends`) and an error of the language if it was (`tooDeep`), and nothing but the error
if the text could not be read (`unread`).  It fails with a fault only if the host raises it.

Only the run is guarded, and not the reading before it.  So exhaustion itself does come out of a
call, exactly if there are too few levels to read a text at all, or just too few to say that
something follows its expression (`escapes`).  A procedure that calls back deep inside a run meets
this (`exhaustion_escapes_call_back`).
-/

namespace Lisplet

open FrameStack Sequence

/-! ## a text that is read prints nothing -/

theorem printedText_append_reads (events : List Event) (seen : List Lexeme) :
    printedText (events ++ seen.map Event.read) = printedText events := by
  have hseen : ∀ acc : String,
      ((seen.map Event.read).map Event.output).foldl (fun r s => r ++ s) acc = acc := by
    induction seen with
    | nil => exact fun _ => rfl
    | cons l seen ih =>
      intro acc
      show ((seen.map Event.read).map Event.output).foldl (fun r s => r ++ s) (acc ++ "") = acc
      rw [String.append_empty]
      exact ih acc
  show ((events ++ seen.map Event.read).map Event.output).foldl (fun r s => r ++ s) ""
      = printedText events
  rw [List.map_append, List.foldl_append, hseen]
  rfl

theorem printedText_afterReading (w : World) (m : Marks) :
    printedText (w.afterReading m).trace.toList = printedText w.trace.toList := by
  show printedText (w.trace ++ (m.seen.reverse.map Event.read).toArray).toList = _
  rw [Array.toList_append]
  exact printedText_append_reads ..

/-! ## runs of a session -/

section
variable {α β : Type} {s s' : Session} {act : Run α} {f : α → Run β}

theorem Session.world_run (s : Session) (act : Run α) :
    (s.run act).2.world = World.after (act s.world) := by
  cases h : act s.world with
  | ok a w => rw [Session.run_ok h]; rfl
  | error e w => rw [Session.run_error h]; rfl

theorem Session.error_of_run {e : Failure} (h : (s.run act).1 = .error e) :
    ∃ w, act s.world = .error e w := by
  cases hr : act s.world with
  | ok a w =>
    rw [Session.run_ok hr] at h
    cases h
  | error e' w =>
    rw [Session.run_error hr] at h
    cases h
    exact ⟨w, rfl⟩

theorem Session.run_bind_of_ok {a : α} (h : s.run act = (.ok a, s')) :
    s.run (act >>= f) = s'.run (f a) := by
  cases hr : act s.world with
  | ok a' w =>
    rw [Session.run_ok hr] at h
    cases h
    simp only [Session.run, bind_of_ok hr]
  | error e w =>
    rw [Session.run_error hr] at h
    cases h

theorem Session.run_bind_of_error {e : Failure} (h : (s.run act).1 = .error e) :
    s.run (act >>= f) = (.error e, (s.run act).2) := by
  obtain ⟨w, hr⟩ := Session.error_of_run h
  rw [Session.run_error (bind_of_error hr), Session.run_error hr]

theorem Session.run_guarded_of_ends (h : ∀ o, (s.run act).1 ≠ .error (.exhausted o)) :
    s.run (Eval.guarded act) = s.run act := by
  cases hr : act s.world with
  | ok a w => simp only [Session.run, Eval.guarded, hr]
  | error e w =>
    cases e with
    | exhausted o =>
      rw [Session.run_error hr] at h
      exact absurd rfl (h o)
    | _ => simp only [Session.run, Eval.guarded, hr]

theorem Session.run_guarded_of_exhausted {o : Overrun} (h : (s.run act).1 = .error (.exhausted o)) :
    (s.run (Eval.guarded act)).1 = .error (.eval .tooDeep) := by
  obtain ⟨w, hr⟩ := Session.error_of_run h
  simp only [Session.run, Eval.guarded, hr]

theorem Session.run_guarded_ne_exhausted (s : Session) (act : Run α) (o : Overrun) :
    (s.run (Eval.guarded act)).1 ≠ .error (.exhausted o) := by
  intro h
  obtain ⟨w, hr⟩ := Session.error_of_run h
  exact guarded_ne_exhausted act s.world w o hr

/-- with the levels of a session, an expression is read that something follows -/
def Session.Trails (s : Session) (reading : Reading α) (text : String) : Prop :=
  ∃ e r c, reading (Reader.ofText text s.world.table (.ofLevels s.levels)) = .error e r ∧
    e.cause = .trailing c

/-- there are too few levels to read a text, or to word what is wrong with it -/
def Session.Escapes (s : Session) (reading : Reading α) (text : String) : Prop :=
  s.levels < Reading.overhead ∨ s.levels = Reading.overhead ∧ s.Trails reading text

/-- why a text of a session has not been read -/
def Session.Unread (s : Session) (reading : Reading α) (text : String) (e : Failure) : Prop :=
  (∃ p, e = .parse p) ∨ s.Escapes reading text ∧ ∃ o, e = .exhausted o

/-- a text that cannot be read is a parse error, or there are no levels for it; then nothing but
symbols and log lines is new -/
theorem Session.unread (s : Session) (reading : Reading α) (text : String) {e : Failure}
    (h : (s.run (Run.read s.levels reading text)).1 = .error e) :
    s.Unread reading text e ∧
      (s.run (Run.read s.levels reading text)).2.world.frames = s.world.frames ∧
      printedText (s.run (Run.read s.levels reading text)).2.world.trace.toList
        = printedText s.world.trace.toList := by
  by_cases hl : s.levels < Reading.overhead
  · rw [Session.run_error (Run.read_of_lt hl)] at h ⊢
    cases h
    exact ⟨.inr ⟨.inl hl, _, rfl⟩, rfl, rfl⟩
  · cases hr : reading (Reader.ofText text s.world.table (.ofLevels s.levels)) with
    | ok a r =>
      rw [Session.run_ok (Run.read_of_ok hl hr)] at h
      cases h
    | error p r =>
      rw [Session.run_error (Run.read_of_error hl hr)] at h ⊢
      refine ⟨?_, rfl, printedText_afterReading ..⟩
      injection h with h
      subst h
      rcases Reading.reported_cases hl p with he | ⟨he, hlevels, c, hc⟩
      · exact .inl ⟨p, he⟩
      · exact .inr ⟨.inr ⟨hlevels, p, r, c, hr, hc⟩, _, he⟩

/-- where there are too few levels, the text is not read -/
theorem Session.exhausted_of_escapes {s : Session} {reading : Reading α} {text : String}
    (h : s.Escapes reading text) :
    ∃ o, (s.run (Run.read s.levels reading text)).1 = .error (.exhausted o) := by
  rcases h with hl | ⟨hl, p, r, c, hr, hc⟩
  · exact ⟨_, by rw [Session.run_error (Run.read_of_lt hl)]⟩
  · have hw : Reading.reported s.levels p = .exhausted .wording := by
      rw [Reading.reported, hc, hl]
      rfl
    have hlow : ¬ s.levels < Reading.overhead := Nat.not_lt_of_le (Nat.le_of_eq hl.symm)
    exact ⟨.wording, by rw [Session.run_error (Run.read_of_error hlow hr), hw]⟩

end

/-! ## calls of a session -/

section
variable {α β : Type}

/-- what a call of a session `s` gives back; `reading` is how it reads its text, and `body` is run
on what was read -/
structure Restores (s : Session) (reading : Reading α) (text : String) (body : α → Run β)
    (outcome : Except Failure β × Session) : Prop where
  frames : Undisturbed s.world.frames outcome.2.world.frames
  raised : ∀ f, outcome.1 = .error (.fault f) → s.host.Raises f
  ends : ∀ a s', s.run (Run.read s.levels reading text) = (.ok a, s') →
    (∀ o, (s'.run (body a)).1 ≠ .error (.exhausted o)) → outcome = s'.run (body a)
  tooDeep : ∀ a s' o, s.run (Run.read s.levels reading text) = (.ok a, s') →
    (s'.run (body a)).1 = .error (.exhausted o) →
    ∃ e : EvalError, outcome.1 = .error (.eval e) ∧ e.kind = .general ∧
      e.message = "maximum recursion depth exceeded"
  unread : ∀ e, (s.run (Run.read s.levels reading text)).1 = .error e →
    s.Unread reading text e ∧ outcome.1 = .error e ∧
    outcome.2.world.frames = s.world.frames ∧
    printedText outcome.2.world.trace.toList = printedText s.world.trace.toList
  escapes : (∃ o, outcome.1 = .error (.exhausted o)) ↔ s.Escapes reading text
  unstarted : s.levels < Reading.overhead →
    outcome = (.error (.exhausted (Reading.overrun s.levels)), s)

/-- reading a text and running under guard what was read -/
theorem restores_guarded {s : Session} (hs : s.world.frames.Proper) (reading : Reading α)
    {body : α → Run β} (hb : ∀ a, Disciplined s.host.Raises (body a)) (text : String) :
    Restores s reading text body
      (s.run (Run.read s.levels reading text >>= fun a => Eval.guarded (body a))) := by
  have hc : Contained s.host.Raises
      (Run.read s.levels reading text >>= fun a => Eval.guarded (body a)) :=
    (contained_read s.levels reading text).bind fun a => contained_guarded (hb a)
  have hfew : s.levels < Reading.overhead →
      s.run (Run.read s.levels reading text >>= fun a => Eval.guarded (body a))
        = (.error (.exhausted (Reading.overrun s.levels)), s) := by
    intro hl
    rw [Session.run_error (bind_of_error (Run.read_of_lt hl))]
  refine ⟨?_, ?_, ?_, ?_, ?_, ⟨?_, ?_⟩, hfew⟩
  · rw [Session.world_run]
    exact hc.undisturbed hs
  · intro f hf
    obtain ⟨w, hw⟩ := Session.error_of_run hf
    exact hc.own_fault hs hw
  · intro a s' hr hn
    rw [Session.run_bind_of_ok hr]
    exact Session.run_guarded_of_ends hn
  · intro a s' o hr hx
    rw [Session.run_bind_of_ok hr]
    exact ⟨.tooDeep, Session.run_guarded_of_exhausted hx, rfl, rfl⟩
  · intro e he
    obtain ⟨hp, hf, ht⟩ := s.unread reading text he
    rw [Session.run_bind_of_error he]
    exact ⟨hp, rfl, hf, ht⟩
  · -- what was read runs under guard, so exhaustion has come from the reading
    rintro ⟨o, ho⟩
    cases hr : (s.run (Run.read s.levels reading text)).1 with
    | ok a =>
      have hpair : s.run (Run.read s.levels reading text)
          = (.ok a, (s.run (Run.read s.levels reading text)).2) := by rw [← hr]
      rw [Session.run_bind_of_ok hpair] at ho
      exact absurd ho (Session.run_guarded_ne_exhausted _ _ o)
    | error e =>
      rw [Session.run_bind_of_error hr] at ho
      rcases (s.unread reading text hr).1 with ⟨p, rfl⟩ | ⟨hl, _⟩
      · cases ho
      · exact hl
  · intro hl
    obtain ⟨o, ho⟩ := Session.exhausted_of_escapes hl
    exact ⟨o, by rw [Session.run_bind_of_error ho]⟩

end

/-- announcing a run does not change what it is guarded against -/
theorem runUnit_eq (levels : Nat) (ev : Value → Run Value) (text : String) :
    Eval.runUnit levels ev text = Run.read levels Reading.unit text >>= fun es =>
      Eval.guarded (Run.note (.evaluating es.length) >>= fun _ => Eval.forms ev es) := rfl

/-- **A call of a session restores the stack it found**, with any text and any number of levels, and
reports exhaustion as an error of the language, unless it comes from reading the text. -/
theorem call_restores (s : Session) (hh : s.host.Confined) (hs : s.world.frames.Proper)
    (text : String) :
    Restores s Reading.unit text
      (fun es => Run.note (.evaluating es.length) >>= fun _ => Eval.forms s.evaluator es)
      (s.eval text) ∧
    Restores s Reading.expression text s.evaluator (s.evalExpression text) := by
  have hev : ∀ e, Disciplined s.host.Raises (s.evaluator e) := disciplined_evaluate hh s.levels
  refine ⟨?_, ?_⟩
  · unfold Session.eval
    rw [runUnit_eq]
    apply restores_guarded hs
    intro es
    exact (contained_note _).disciplined.bind fun _ => disciplined_formsFrom hev .nil es
  · exact restores_guarded hs _ hev text

/-- a host whose procedures evaluate the text they are given -/
def echoHost : Host := fun _ re args =>
  match args with
  | [.str text] => re.runExpression text
  | _ => Run.fail (.rejected "a text is expected")

theorem confined_echoHost : echoHost.Confined := by
  intro id args w re
  unfold echoHost
  split
  · exact .runExpression .here _
  · exact .here

/-- a session with a function `f` that calls itself, and a function `g` that calls back to call
`f` -/
def reentrant (levels : Nat) : Session :=
  let w := Session.registerIn Session.emptyWorld "call" (.host 0)
  let f : Symbol := ⟨0, "f"⟩
  let g : Symbol := ⟨0, "g"⟩
  let frames := (w.frames.push.bindAt 1 f (.lambda [] (.list [.symbol f]))).bindAt 1 g
    (.lambda [] (.list [.symbol ⟨0, "call"⟩, .str "(f)"]))
  ⟨{ w with frames := frames }, echoHost, levels⟩

theorem proper_reentrant (levels : Nat) : (reentrant levels).world.frames.Proper :=
  (((Proper.root.bindAt ..).push).bindAt ..).bindAt ..

/-- a function whose body calls back into the session, where another one runs out of levels -/
theorem restores_from_call_back :
    (reentrant 17).host.Confined ∧ (reentrant 17).world.frames.Proper ∧
      ((reentrant 17).evalExpression "(g)").1 = .error (.eval .tooDeep) ∧
      Restores (reentrant 17) Reading.expression "(g)" (reentrant 17).evaluator
        ((reentrant 17).evalExpression "(g)") := by
  have hs := proper_reentrant 17
  have hg : ((reentrant 17).evalExpression "(g)").1 = .error (.eval .tooDeep) := by cbv
  exact ⟨confined_echoHost, hs, hg, (call_restores (reentrant 17) confined_echoHost hs "(g)").2⟩

/-- a call back with six levels left is not even read, and its exhaustion is no error of the
language; with seven, a text that goes on after its expression is not refused -/
theorem exhaustion_escapes_call_back :
    ((reentrant 6).evalExpression "true").1 = .error (.exhausted .wording) ∧
      ((reentrant 7).evalExpression "true x").1 = .error (.exhausted .wording) ∧
      ((reentrant 9).evaluate (.list [.symbol ⟨0, "call"⟩, .str "true"])).1
        = .error (.exhausted .wording) ∧
      Failure.message (.exhausted .wording)
        = "maximum recursion depth exceeded while getting the str of an object" := by
  refine ⟨?_, ?_, ?_, ?_⟩
  · cbv
  · cbv
  · cbv
  · decide

end Lisplet
