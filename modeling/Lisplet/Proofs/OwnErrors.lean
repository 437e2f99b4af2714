import Mathlib
import Lisplet.CommandLine.Program
import Lisplet.Proofs.History

/-!
# Programs fail with errors of the language only

A run of a session ends with a value, with a text that cannot be read, or with a rule of the
language that the program broke.  Faults are out of reach, and so are the errors that only a host
can cause: to bind something that is no symbol, to apply something that is no function, to miss a
bracket where one was seen before.  What an error or printing shows are values that printing has a
rule for.

Only with too few levels to read a text at all is there no error of the language (`FailsOwn`), and a
process always has more.  Nor does it want for levels to print a value in the end: that takes no
more of them than reading does (`Ordinary.printLevels_le`).

Hence the program at the command line exits with 0 or 1 on a file that it can load.  One thing
stands before that: the number of levels that the environment asks for.  A number that means nothing
is ignored, one that is too large to count breaks the program off, and one that is larger than the
machine has room for may end in a crash (`exits_iff_levels_counted`).
-/

namespace Lisplet

/-! ## values that can be shown -/

/-- printing has a rule for all of the value: nothing in it is the host's, and no integer is too
long -/
def Value.Printable (v : Value) : Prop :=
  (∀ leaf ∈ v.leaves, ∀ text, leaf ≠ .foreign text) ∧ v.writable = true

section
variable {t : SymbolTable} {depth : Nat} {v : Value}

theorem Producible.printable (h : Producible t depth v) : v.Printable := by
  obtain ⟨hread, _, _⟩ := producible_iff.1 h
  refine ⟨?_, writable_of_readable v hread⟩
  rintro leaf hleaf text rfl
  exact hread _ hleaf

theorem Ordinary.printable (h : Ordinary t depth v) : v.Printable := by
  cases h with
  | nil => exact ⟨by simp [Value.leaves], by simp [Value.writable]⟩
  | bool b => exact ⟨by simp [Value.leaves], by simp [Value.writable]⟩
  | str s => exact ⟨by simp [Value.leaves], by simp [Value.writable]⟩
  | primitive p => exact ⟨by simp [Value.leaves], by simp [Value.writable]⟩
  | int hl hg =>
    refine ⟨by simp [Value.leaves], ?_⟩
    rw [Value.writable]
    apply Integer.writable_of_natAbs_le
    show Int.natAbs _ ≤ 2 ^ 31
    omega
  | lambda hp hb =>
    refine ⟨by simp [Value.leaves], ?_⟩
    rw [Value.writable, Value.allWritable_eq_all, List.all_eq_true]
    intro p hm
    obtain ⟨n, rfl, _⟩ := hp p hm
    simp [Value.writable]

/-- most levels are needed for a function, which is printed with its parameters -/
theorem Ordinary.printLevels_le (h : Ordinary t depth v) :
    v.printLevels true ≤ Reading.overhead := by
  cases h with
  | @lambda params body hp hb =>
    have hps : Value.inspectLevelsOf params ≤ 3 := by
      apply Value.inspectLevelsOf_le
      intro p hm
      obtain ⟨n, rfl, _⟩ := hp p hm
      simp [Value.inspectLevels]
    rw [Value.printLevels, Reading.overhead]
    omega
  | _ => simp [Value.printLevels, Reading.overhead]

end

/-! ## errors of the language -/

/-- an error that a program can cause, and that shows printable values only -/
def EvalError.Own : EvalError → Prop
  | .undefinable _ => False
  | .notFunction _ => False
  | .rejected _ => False
  | .headNotSymbol v => v.Printable
  | .notCallable _ v => v.Printable
  | .lambdaParams v => v.Printable
  | .lambdaParam v => v.Printable
  | .letName v => v.Printable
  | _ => True

/-- a failure of the language -/
def Failure.Own : Failure → Prop
  | .parse e => ∀ wanted found, e.cause ≠ .expected wanted found
  | .eval e => e.Own
  | .fault _ => False
  | .exhausted _ => False

section
variable {t : SymbolTable} {depth : Nat}

theorem own_of_raises {e : EvalError} (h : (ordinary t depth).Raises e) : e.Own := by
  cases e with
  | headNotSymbol v => exact Producible.printable h
  | lambdaParams v => exact Producible.printable h
  | lambdaParam v => exact Producible.printable h
  | letName v => exact Producible.printable h
  | notCallable n v => exact Ordinary.printable h
  | undefinable v =>
    -- the parameters of an ordinary function are symbols
    obtain ⟨params, body, hf, hv, hn⟩ := h
    cases hf with
    | lambda hp _ =>
      obtain ⟨n, rfl, _⟩ := hp v hv
      cases hn
  | notFunction v => exact h
  | rejected m => exact h
  | _ => trivial

/-- a failure of the language, or there were too few levels to begin -/
def Session.OwnFailure (s : Session) (f : Failure) : Prop :=
  f.Own ∨ s.levels ≤ Reading.overhead ∧ ∃ o, f = .exhausted o

theorem own_of_run {s : Session} {α : Type} {act : Run α} {Q : SymbolTable → α → Prop} {f : Failure}
    (h : Settled s.levels Q (act s.world)) (hf : (s.run act).1 = .error f) :
    s.OwnFailure f := by
  obtain ⟨w, hr⟩ := Session.error_of_run hf
  rw [hr] at h
  cases f with
  | parse e => exact .inl h.1
  | eval e => exact .inl (own_of_raises h.1)
  | fault f => exact h.elim
  | exhausted o => exact .inr ⟨h.1, o, rfl⟩

theorem World.Sound.printed {w : World} (hw : w.Sound depth) {text : String}
    (h : .printed text ∈ w.trace) :
    ∃ args, (∀ a ∈ args, Value.Printable a) ∧ text = Primitive.printLine args := by
  obtain ⟨args, ha, ht⟩ := hw.trace _ h
  exact ⟨args, fun a hm => (ha a hm).printable, ht⟩

end

/-- a session whose runs fail in no other way than the language has -/
structure Session.FailsOwn (s : Session) : Prop where
  eval : ∀ text f, (s.eval text).1 = .error f → s.OwnFailure f
  evalExpression : ∀ text f, (s.evalExpression text).1 = .error f → s.OwnFailure f
  printed : ∀ text, .printed text ∈ s.world.trace →
    ∃ args, (∀ a ∈ args, Value.Printable a) ∧ text = Primitive.printLine args

theorem Session.Sound.failsOwn {s : Session} (hs : s.Sound) : s.FailsOwn where
  eval := fun text _ hf => own_of_run (hs.settled_eval text) hf
  evalExpression := fun text _ hf => own_of_run (hs.settled_evalExpression text) hf
  printed := fun _ h => World.Sound.printed hs h

/-! ## the command line -/

namespace CommandLine

/-- how the program ends when its result has been printed, or there is none -/
def endingAfter (crashes : Bool) : Except Failure String → Ending
  | .ok _ => .exit 0
  | .error f => if crashes && cutShort f then .crashed else (endingOf f).1

/-- the ways to end for a program that is not broken off: a crash is possible where `crashes` says
so -/
def EndsOrderly (crashes : Bool) (e : Ending) : Prop :=
  (∃ code, code ≤ 1 ∧ e = .exit code) ∨ crashes = true ∧ e = .crashed

theorem endsOrderly_endingAfter {crashes : Bool} {r : Except Failure String}
    (h : ∀ f, r = .error f → f.Own ∨ crashes = true ∧ ∃ o, f = .exhausted o) :
    EndsOrderly crashes (endingAfter crashes r) := by
  cases r with
  | ok shown => exact .inl ⟨0, Nat.zero_le _, rfl⟩
  | error f =>
    rw [endingAfter]
    split
    · next hc => exact .inr ⟨(Bool.and_eq_true_iff.1 hc).1, rfl⟩
    · next hc =>
      rcases h f rfl with hf | ⟨hcrash, o, rfl⟩
      · cases f with
        | parse e => exact .inl ⟨1, Nat.le_refl _, rfl⟩
        | eval e => exact .inl ⟨1, Nat.le_refl _, rfl⟩
        | fault f => exact hf.elim
        | exhausted o => exact hf.elim
      · exact absurd (Bool.and_eq_true_iff.2 ⟨hcrash, rfl⟩) hc

section
variable {o : Options} {read : Path → Except FileFault (List UInt8)} {text : String}

theorem ending_runIn (hn : (Path.ofText o.file).hasNull = false)
    (hl : load (read (Path.ofText o.file)) = .ok text) (s : Session) (crashes : Bool)
    (level : Level) :
    (o.runIn s crashes level read).ending = endingAfter crashes
      ((o.execute s text).1.bind fun v => v.printed (o.execute s text).2.levels) := by
  simp only [Options.runIn, hn, hl, Bool.false_eq_true, if_false]
  cases (o.execute s text).1.bind fun v => v.printed (o.execute s text).2.levels with
  | ok shown => rfl
  | error f => exact apply_ite Report.ending ..

/-- what a sound session gives back is printed with the levels that there are, unless these are too
few to read a text -/
theorem own_of_printed {s : Session} (hs : s.Sound) {f : Failure}
    (hf : (s.eval text).1.bind (fun v => v.printed (s.eval text).2.levels) = .error f) :
    s.OwnFailure f := by
  cases hr : (s.eval text).1 with
  | error e =>
    rw [hr] at hf
    cases hf
    exact hs.failsOwn.eval text _ hr
  | ok v =>
    have hv : OrdinaryWith s.levels _ v := ordinary_of_run (hs.settled_eval text) hr
    have hlev : (s.eval text).2.levels = s.levels := s.levels_run _
    have hp : v.printed s.levels = .error f := by
      rw [hr, hlev] at hf
      exact hf
    rw [Value.printed] at hp
    split at hp
    · cases hp
    · next hfew =>
      cases hp
      exact .inr ⟨(Nat.lt_of_not_le hfew).le.trans hv.printLevels_le, .calling, rfl⟩

theorem endsOrderly_runIn (hp : o.parseOnly = false) (hn : (Path.ofText o.file).hasNull = false)
    (hl : load (read (Path.ofText o.file)) = .ok text) {s : Session} (hs : s.Sound)
    {crashes : Bool} (hc : s.levels ≤ Reading.overhead → crashes = true) (level : Level) :
    EndsOrderly crashes (o.runIn s crashes level read).ending := by
  have hnote : Session.Sound { s with world := s.world.note (.running o.file) } :=
    World.Sound.note hs trivial
  have he : o.execute s text
      = Session.eval { s with world := s.world.note (.running o.file) } text := by
    simp only [Options.execute, hp, Bool.false_eq_true, if_false]
    rfl
  rw [ending_runIn hn hl, he]
  apply endsOrderly_endingAfter
  intro f hf
  rcases own_of_printed hnote hf with h | ⟨hfew, h⟩
  · exact .inl h
  · exact .inr ⟨hc hfew, h⟩

/-- a process has levels enough to read a text, so only the room of the machine can be too small -/
theorem endsOrderly_run (m : Machine) (vars : String → Option String) (hp : o.parseOnly = false)
    (hn : (Path.ofText o.file).hasNull = false) (hl : load (read (Path.ofText o.file)) = .ok text)
    (hc : Settings.limit (vars Settings.limitVariable) ≤ max m.limit Settings.maxLevels) :
    EndsOrderly (decide (m.room < max m.limit (Settings.limit (vars Settings.limitVariable))))
      (o.run m vars read).ending := by
  simp only [Options.run, Settings.levels_of_le hc]
  refine endsOrderly_runIn hp hn hl (Session.sound_new true _) ?_ _
  generalize Settings.limit (vars Settings.limitVariable) = asked
  intro hfew
  have hlow : min (max m.limit asked) m.room ≤ Reading.overhead := hfew
  have hlim := m.overhead_lt
  rw [decide_eq_true_eq]
  omega

theorem broken_run (m : Machine) (o : Options) (read : Path → Except FileFault (List UInt8))
    (vars : String → Option String)
    (hc : max m.limit Settings.maxLevels < Settings.limit (vars Settings.limitVariable)) :
    (o.run m vars read).ending = .broken (.fault .tooManyLevels) := by
  simp only [Options.run, Settings.levels_of_lt hc]

end

end CommandLine

open CommandLine in
/-- **Programs fail with errors of the language only.** Whatever calls a session has had, its runs
fail in no other way, if there are levels enough to read a text.  Let the environment ask for so
many levels on any machine, and the file be one that can be loaded.  If the machine has room for
them, the program at the command line exits with 0 or 1 exactly if they can be counted.  If they are
counted but there is no room, it may also crash, and if they cannot be counted it is broken off. -/
theorem exits_iff_levels_counted (levels : Nat) (calls : List Call) (m : Machine)
    (args : List String) (vars : String → Option String)
    (read : Path → Except FileFault (List UInt8)) :
    ((Session.new true levels).afterCalls calls).FailsOwn ∧
    ∀ o text asked, CommandLine.parse args = .ok (.run o) → o.parseOnly = false →
      (Path.ofText o.file).hasNull = false → load (read (Path.ofText o.file)) = .ok text →
      asked = Settings.limit (vars Settings.limitVariable) →
      (max m.limit asked ≤ m.room →
        ((∃ code, code ≤ 1 ∧ (CommandLine.run m args vars read).ending = .exit code) ↔
          asked ≤ max m.limit Settings.maxLevels)) ∧
      (asked ≤ max m.limit Settings.maxLevels →
        (∃ code, code ≤ 1 ∧ (CommandLine.run m args vars read).ending = .exit code) ∨
          (CommandLine.run m args vars read).ending = .crashed) ∧
      (max m.limit Settings.maxLevels < asked →
        (CommandLine.run m args vars read).ending = .broken (.fault .tooManyLevels)) := by
  refine ⟨((Session.sound_new true levels).afterCalls calls).failsOwn, ?_⟩
  rintro o text asked ha hp hn hl rfl
  have hrun : CommandLine.run m args vars read = o.run m vars read := by
    simp only [CommandLine.run, ha]
  rw [hrun]
  have hends := endsOrderly_run m vars hp hn hl
  refine ⟨fun hroom => ⟨?_, ?_⟩, ?_, broken_run m o read vars⟩
  · rintro ⟨code, _, hcode⟩
    apply Nat.le_of_not_lt
    intro hlim
    rw [broken_run m o read vars hlim] at hcode
    cases hcode
  · intro hc
    rcases hends hc with h | ⟨hcrash, _⟩
    · exact h
    · exact absurd (of_decide_eq_true hcrash) (Nat.not_lt_of_le hroom)
  · intro hc
    rcases hends hc with h | ⟨_, h⟩
    · exact .inl h
    · exact .inr h

open CommandLine in
/-- one level more than can be counted, and a program that is in order -/
theorem broken_off_by_uncounted_levels :
    let m : Machine := .newProcess 2147483648
    let vars : String → Option String := fun name =>
      if name = Settings.limitVariable then some "2147483648" else none
    let read : Path → Except FileFault (List UInt8) := fun _ =>
      .ok ("((plus 1 2))".toList.map fun c => c.toNat.toUInt8)
    CommandLine.parse ["p"] = .ok (.run ⟨"p", false, false, none⟩) ∧
      (Path.ofText "p").hasNull = false ∧ load (read (Path.ofText "p")) = .ok "((plus 1 2))" ∧
      (CommandLine.run m ["p"] vars read).ending = .broken (.fault .tooManyLevels) := by
  intro m vars read
  have hlim : max m.limit Settings.maxLevels < Settings.limit (some "2147483648") := by
    decide +kernel
  refine ⟨?_, ?_, ?_, ?_⟩
  · cbv
  · cbv
  · cbv
  · exact broken_run m ⟨"p", false, false, none⟩ read vars hlim

end Lisplet
