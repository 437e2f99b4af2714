import Mathlib
import Lisplet.Proofs.BigStep
import Lisplet.Proofs.Renaming

/-!
# Two runs in step

Two evaluations with the same number of levels, in worlds with matching frames, take the same steps
if they never look at what differs.  A `Correspondence` says what they may look at:

* `IsExpr`, `IsValue`   what the first run evaluates, and what comes out of it;
* `Reads`, `Writes`     the names it looks up, and those it binds;
* `Vars`                how the bindings of a frame and of its partner are related.  A name that is
  looked up has the same value in both, up to the renaming, and binding a name on both sides keeps
  them related.

`Corresponds Q x y` says of computations `x` and `y` that from corresponding worlds they end alike:
with values related by `Q`, or both with an error, in corresponding worlds again, after the same
events.  It goes through sequences, and there is one lemma for each form of the language;
`corresponds_evaluate` is about all expressions.

The frames need not be proper, and a run may also be exhausted or fail on a handle of no frame.
Then so does the other.
-/

namespace Lisplet

open FrameStack Sequence

structure Correspondence where
  /-- the number of both symbol tables -/
  table : Nat
  rename : Symbol → Symbol
  IsExpr : Value → Prop
  IsValue : Value → Prop
  Reads : Symbol → Prop
  Writes : Symbol → Prop
  Vars : Scope → Scope → Prop
  special (n : Symbol) : SpecialForm.of? table (rename n) = SpecialForm.of? table n
  self {v : Value} : IsExpr v → (∀ n, v ≠ .symbol n) → (∀ items, v ≠ .list items) → IsValue v
  name {n : Symbol} : IsExpr (.symbol n) → Reads n ∧ Writes n
  /-- the head of a call is looked up, the head of a special form is not -/
  head {n : Symbol} {tail : List Value} :
    IsExpr (.list (.symbol n :: tail)) → SpecialForm.of? table n = none → Reads n
  tail {v : Value} {tail : List Value} : IsExpr (.list (v :: tail)) → ∀ e ∈ tail, IsExpr e
  lambda {params : List Value} {body : Value} : IsExpr (.list params) →
    (∀ p ∈ params, ∃ n, p = .symbol n) → IsExpr body → IsValue (.lambda params body)
  param {params : List Value} {body : Value} {n : Symbol} :
    IsValue (.lambda params body) → .symbol n ∈ params → Writes n
  body {params : List Value} {body : Value} : IsValue (.lambda params body) → IsExpr body
  native {f : Native} : IsValue (.native f) → ∃ p, f.code = .primitive p
  wrapped (n : Int) : IsValue (.int (Integer.wrapped n))
  bool (b : Bool) : IsValue (.bool b)
  nil : IsValue .nil
  empty : Vars [] []
  get {b b' : Scope} {n : Symbol} : Vars b b' → Reads n →
    b'.lookup (rename n) = (b.lookup n).map (Value.rename rename)
  got {b b' : Scope} {n : Symbol} {v : Value} :
    Vars b b' → Reads n → b.lookup n = some v → IsValue v
  put {b b' : Scope} {n : Symbol} {v : Value} : Vars b b' → Writes n → IsValue v →
    Vars (Frame.put n v b) (Frame.put (rename n) (v.rename rename) b')

namespace Correspondence

variable (C : Correspondence)

def Values (v v' : Value) : Prop := v' = v.rename C.rename ∧ C.IsValue v

def Lists (vs vs' : List Value) : Prop :=
  vs' = vs.map (Value.rename C.rename) ∧ ∀ v ∈ vs, C.IsValue v

structure Pairs (w w' : World) : Prop where
  frames : w.frames.Matched C.Vars w'.frames
  table : w.table.id = C.table
  table' : w'.table.id = C.table

/-- how runs from `w` and `w'` go on to `v` and `v'` -/
structure Leads (w w' v v' : World) : Prop where
  pairs : C.Pairs v v'
  table : v.table = w.table
  table' : v'.table = w'.table
  trace : ∃ more more', v.trace.toList = w.trace.toList ++ more ∧
    v'.trace.toList = w'.trace.toList ++ more' ∧
    List.Forall₂ (Event.Renamed C.rename) more more'

section
variable {α β : Type}

inductive Alike (Q : α → β → Prop) (w w' : World) :
    EStateM.Result Failure World α → EStateM.Result Failure World β → Prop
  | ok {a b v v'} : Q a b → C.Leads w w' v v' → Alike Q w w' (.ok a v) (.ok b v')
  | error {e v v'} : C.Leads w w' v v' → Alike Q w w' (.error e v) (.error (e.rename C.rename) v')

def Corresponds (Q : α → β → Prop) (x : Run α) (y : Run β) : Prop :=
  ∀ w w', C.Pairs w w' → C.Alike Q w w' (x w) (y w')

end

variable {C}

theorem Leads.refl {w w' : World} (h : C.Pairs w w') : C.Leads w w' w w' where
  pairs := h
  table := rfl
  table' := rfl
  trace := ⟨[], [], (List.append_nil _).symm, (List.append_nil _).symm, .nil⟩

theorem Leads.trans {w w' v v' u u' : World} (h₁ : C.Leads w w' v v') (h₂ : C.Leads v v' u u') :
    C.Leads w w' u u' where
  pairs := h₂.pairs
  table := h₂.table.trans h₁.table
  table' := h₂.table'.trans h₁.table'
  trace := by
    obtain ⟨a, a', ha, ha', hab⟩ := h₁.trace
    obtain ⟨b, b', hb, hb', hbb⟩ := h₂.trace
    refine ⟨a ++ b, a' ++ b', ?_, ?_, List.rel_append hab hbb⟩
    · rw [hb, ha, List.append_assoc]
    · rw [hb', ha', List.append_assoc]

theorem Leads.onFrames {w w' v v' : World} {s t : FrameStack} (h : C.Leads w w' v v')
    (hf : s.Matched C.Vars t) :
    C.Leads w w' { v with frames := s } { v' with frames := t } where
  pairs := ⟨hf, h.pairs.table, h.pairs.table'⟩
  table := h.table
  table' := h.table'
  trace := h.trace

section
variable {α β γ δ : Type} {Q : α → β → Prop} {P : γ → δ → Prop}

theorem Alike.after {w w' v v' : World} {r : EStateM.Result Failure World α}
    {r' : EStateM.Result Failure World β} (h : C.Alike Q v v' r r') (hl : C.Leads w w' v v') :
    C.Alike Q w w' r r' := by
  cases h with
  | ok hq hl' => exact .ok hq (hl.trans hl')
  | error hl' => exact .error (hl.trans hl')

theorem Corresponds.bind {x : Run α} {y : Run β} {f : α → Run γ} {g : β → Run δ}
    (hx : C.Corresponds Q x y) (hf : ∀ a b, Q a b → C.Corresponds P (f a) (g b)) :
    C.Corresponds P (x >>= f) (y >>= g) := by
  intro w w' hw
  have hy := hx w w' hw
  generalize hr : x w = r, hr' : y w' = r' at hy
  cases hy with
  | ok hq hl =>
    rw [bind_of_ok hr, bind_of_ok hr']
    exact (hf _ _ hq _ _ hl.pairs).after hl
  | error hl =>
    rw [bind_of_error hr, bind_of_error hr']
    exact .error hl

/-! ## single operations -/

theorem corresponds_pure {a : α} {b : β} (h : Q a b) : C.Corresponds Q (pure a) (pure b) :=
  fun _ _ hw => .ok h (.refl hw)

theorem corresponds_fail {e e' : EvalError} (h : e' = e.rename C.rename) :
    C.Corresponds Q (Run.fail e : Run α) (Run.fail e' : Run β) := by
  subst h
  exact fun _ _ hw => .error (e := .eval e) (.refl hw)

theorem corresponds_worded (levels : Nat) {x : Run α} {y : Run β} (h : C.Corresponds Q x y) :
    C.Corresponds Q (Run.worded levels x) (Run.worded levels y) := by
  intro w w' hw
  have hy := h w w' hw
  generalize hr : x w = r, hr' : y w' = r' at hy
  cases hy with
  | ok hq hl =>
    simp only [Run.worded, hr, hr']
    exact .ok hq hl
  | @error e v v' hl =>
    cases e with
    | eval e =>
      simp only [Run.worded, hr, hr', Failure.rename, EvalError.levels_rename,
        EvalError.overrun_rename]
      split
      · exact .error (e := .eval e) hl
      · exact .error (e := .exhausted e.overrun) hl
    | _ =>
      simp only [Run.worded, hr, hr', Failure.rename]
      exact .error hl

theorem corresponds_raise (levels : Nat) {e e' : EvalError} (h : e' = e.rename C.rename) :
    C.Corresponds Q (Run.raise levels e : Run α) (Run.raise levels e' : Run β) :=
  corresponds_worded levels (corresponds_fail h)

theorem corresponds_exhausted (o : Overrun) :
    C.Corresponds Q (throw (.exhausted o) : Run α) (throw (.exhausted o) : Run β) :=
  fun _ _ hw => .error (e := .exhausted o) (.refl hw)

theorem corresponds_note {e e' : Event} (h : Event.Renamed C.rename e e') :
    C.Corresponds (fun _ _ => True) (Run.note e) (Run.note e') := by
  intro w w' hw
  refine .ok trivial ⟨⟨hw.frames, hw.table, hw.table'⟩, rfl, rfl, [e], [e'], ?_, ?_, .cons h .nil⟩
  · exact Array.toList_push
  · exact Array.toList_push

theorem corresponds_push : C.Corresponds (fun _ _ => True) Run.push Run.push :=
  fun _ _ hw => .ok trivial ((Leads.refl hw).onFrames (hw.frames.push C.empty))

theorem corresponds_lookup {n : Symbol} (hn : C.Reads n) :
    C.Corresponds C.Values (Run.lookup (.symbol n)) (Run.lookup (.symbol (C.rename n))) := by
  intro w w' hw
  unfold Run.lookup
  rcases hw.frames.lookup (n := n) fun _ _ hb => C.get hb hn
    with ⟨v, b, b', hb, hv, hs, ht⟩ | ⟨e, hs, ht⟩
  · rw [hs, ht]
    exact .ok ⟨rfl, C.got hb hn hv⟩ (.refl hw)
  · rw [hs, ht]
    exact .error (.refl hw)

theorem corresponds_define (name : Value) {v v' : Value} (hn : ∀ n, name = .symbol n → C.Writes n)
    (hv : C.Values v v') :
    C.Corresponds (fun _ _ => True) (Run.define name v) (Run.define (name.rename C.rename) v') := by
  intro w w' hw
  obtain ⟨rfl, hval⟩ := hv
  rcases hw.frames.define (r := C.rename) name v (v.rename C.rename)
    with ⟨n, hname, hs, ht⟩ | ⟨e, hs, ht⟩
  · rw [hw.frames.current] at ht
    simp only [Run.define, Run.onFrames, hs, ht]
    refine .ok trivial ((Leads.refl hw).onFrames (hw.frames.bindAt ?_ _))
    exact fun b b' hb => C.put hb (hn n hname) hval
  · simp only [Run.define, Run.onFrames, hs, ht]
    exact .error (.refl hw)

/-! ## frames of their own -/

theorem corresponds_leaving (levels : Nat) {x : Run α} {y : Run β} (h : C.Corresponds Q x y) :
    C.Corresponds Q (Eval.leaving levels x) (Eval.leaving levels y) := by
  intro w w' hw
  have hy := h w w' hw
  generalize hr : x w = r, hr' : y w' = r' at hy
  cases hy with
  | ok hq hl =>
    rcases hl.pairs.frames.pop with ⟨hs, ht⟩ | ⟨s, t, hs, ht, hm⟩
    · simp only [Eval.leaving, hr, hr', hs, ht]
      exact .error (e := .fault .rootPop) hl
    · simp only [Eval.leaving, hr, hr', hs, ht]
      exact .ok hq (hl.onFrames hm)
  | @error e v v' hl =>
    by_cases hz : (∃ o, e = .exhausted o) ∧ levels = 0
    · obtain ⟨⟨o, rfl⟩, hz⟩ := hz
      simp only [Eval.leaving, hr, hr', Failure.rename, if_pos hz]
      exact .error (e := .exhausted o) hl
    · have hrenamed : ∀ o, e.rename C.rename = .exhausted o → levels ≠ 0 := by
        intro o he hl
        cases e with
        | exhausted o' => exact hz ⟨⟨o', rfl⟩, hl⟩
        | _ => cases he
      obtain ⟨hok, herr⟩ := leaving_of_error levels hr fun o he hl => hz ⟨⟨o, he⟩, hl⟩
      obtain ⟨hok', herr'⟩ := leaving_of_error levels hr' hrenamed
      rcases hl.pairs.frames.pop with ⟨hs, ht⟩ | ⟨s, t, hs, ht, hm⟩
      · rw [herr _ hs, herr' _ ht]
        exact .error (e := .fault .rootPop) hl
      · rw [hok s hs, hok' t ht]
        exact .error (hl.onFrames hm)

theorem corresponds_guarded {x : Run α} {y : Run β} (h : C.Corresponds Q x y) :
    C.Corresponds Q (Eval.guarded x) (Eval.guarded y) := by
  intro w w' hw
  have hy := h w w' hw
  generalize hr : x w = r, hr' : y w' = r' at hy
  cases hy with
  | ok hq hl =>
    simp only [Eval.guarded, hr, hr']
    exact .ok hq hl
  | @error e v v' hl =>
    cases e with
    | exhausted o =>
      simp only [Eval.guarded, hr, hr', Failure.rename, hw.frames.current]
      exact .error (e := .eval .tooDeep) (hl.onFrames (hl.pairs.frames.unwind _))
    | _ =>
      simp only [Eval.guarded, hr, hr', Failure.rename]
      exact .error hl

end

/-! ## the forms of the language -/

section
variable {ev ev' : Value → Run Value}
  (hev : ∀ e, C.IsExpr e → C.Corresponds C.Values (ev e) (ev' (e.rename C.rename)))
include hev

theorem corresponds_arguments {es : List Value} (hes : ∀ e ∈ es, C.IsExpr e) :
    C.Corresponds C.Lists (Eval.arguments ev es)
      (Eval.arguments ev' (es.map (Value.rename C.rename))) := by
  induction es with
  | nil => exact corresponds_pure ⟨rfl, fun v hv => absurd hv List.not_mem_nil⟩
  | cons e es ih =>
    obtain ⟨he, hes⟩ := List.forall_mem_cons.1 hes
    refine (hev e he).bind fun v v' hv => ?_
    refine (ih hes).bind fun vs vs' hvs => ?_
    obtain ⟨rfl, hv⟩ := hv
    obtain ⟨rfl, hvs⟩ := hvs
    exact corresponds_pure ⟨rfl, List.forall_mem_cons.2 ⟨hv, hvs⟩⟩

theorem corresponds_formsFrom {es : List Value} (hes : ∀ e ∈ es, C.IsExpr e) {last last' : Value}
    (hl : C.Values last last') :
    C.Corresponds C.Values (Eval.formsFrom ev last es)
      (Eval.formsFrom ev' last' (es.map (Value.rename C.rename))) := by
  induction es generalizing last last' with
  | nil => exact corresponds_pure hl
  | cons e es ih =>
    obtain ⟨he, hes⟩ := List.forall_mem_cons.1 hes
    exact (hev e he).bind fun v v' hv => ih hes hv

theorem corresponds_ifForm {tail : List Value} (ht : ∀ e ∈ tail, C.IsExpr e) :
    C.Corresponds C.Values (Eval.ifForm ev tail)
      (Eval.ifForm ev' (tail.map (Value.rename C.rename))) := by
  cases tail with
  | nil => exact corresponds_fail rfl
  | cons c tail =>
    cases tail with
    | nil => exact corresponds_fail rfl
    | cons yes rest =>
      obtain ⟨hc, ht⟩ := List.forall_mem_cons.1 ht
      obtain ⟨hyes, hrest⟩ := List.forall_mem_cons.1 ht
      refine (hev c hc).bind fun v v' hv => ?_
      obtain ⟨rfl, _⟩ := hv
      cases v with
      | bool b =>
        cases b with
        | true => exact hev yes hyes
        | false =>
          cases rest with
          | nil => exact corresponds_pure ⟨rfl, C.nil⟩
          | cons no rest => exact hev no (hrest no (List.mem_cons_self ..))
      | _ => exact corresponds_fail rfl

theorem corresponds_letForm (levels : Nat) {tail : List Value} (ht : ∀ e ∈ tail, C.IsExpr e) :
    C.Corresponds C.Values (Eval.letForm levels ev tail)
      (Eval.letForm levels ev' (tail.map (Value.rename C.rename))) := by
  cases tail with
  | nil => exact corresponds_fail rfl
  | cons x tail =>
    cases x with
    | symbol n =>
      cases tail with
      | nil => exact corresponds_fail rfl
      | cons e rest =>
        have hn : C.Writes n := (C.name (ht _ (List.mem_cons_self ..))).2
        refine (hev e (ht e (by simp))).bind fun v v' hv => ?_
        refine (corresponds_define (.symbol n) (fun m hm => by cases hm; exact hn) hv).bind
          fun _ _ _ => ?_
        exact corresponds_pure ⟨rfl, C.nil⟩
    | _ => exact corresponds_raise levels rfl

end

theorem corresponds_lambdaForm (levels : Nat) {tail : List Value} (ht : ∀ e ∈ tail, C.IsExpr e) :
    C.Corresponds C.Values (Eval.lambdaForm levels tail)
      (Eval.lambdaForm levels (tail.map (Value.rename C.rename))) := by
  cases tail with
  | nil => exact corresponds_fail rfl
  | cons x tail =>
    cases tail with
    | nil => exact corresponds_fail rfl
    | cons body rest =>
      cases x with
      | list params =>
        rw [List.map_cons, List.map_cons, Value.rename_list]
        simp only [Eval.lambdaForm, notSymbol?_rename]
        cases hn : Eval.notSymbol? params with
        | some v => exact corresponds_raise levels rfl
        | none =>
          have hs := Realm.symbols_of_notSymbol? hn
          refine corresponds_pure ⟨(Value.rename_lambda ..).symm, ?_⟩
          exact C.lambda (ht _ (by simp)) hs (ht body (by simp))
      | _ => exact corresponds_raise levels rfl

theorem corresponds_bindAll (levels : Nat) {params args : List Value}
    (hp : ∀ n, .symbol n ∈ params → C.Writes n) (ha : ∀ a ∈ args, C.IsValue a) :
    C.Corresponds (fun _ _ => True) (Eval.bindAll levels params args)
      (Eval.bindAll levels (params.map (Value.rename C.rename))
        (args.map (Value.rename C.rename))) := by
  induction params generalizing args with
  | nil => exact corresponds_pure trivial
  | cons p params ih =>
    cases args with
    | nil => exact corresponds_pure trivial
    | cons a args =>
      obtain ⟨hv, ha⟩ := List.forall_mem_cons.1 ha
      refine (corresponds_worded levels (corresponds_define p ?_ ⟨rfl, hv⟩)).bind fun _ _ _ => ?_
      · rintro n rfl
        exact hp n (List.mem_cons_self ..)
      · exact ih (fun n hn => hp n (List.mem_cons_of_mem _ hn)) ha

theorem corresponds_print (levels : Nat) (args : List Value) :
    C.Corresponds (fun _ _ => True) (Primitive.print levels args)
      (Primitive.print levels (args.map (Value.rename C.rename))) := by
  unfold Primitive.print
  rw [← Value.renameAll_eq_map, Value.printLevelsOf_renameAll, Value.renameAll_eq_map]
  split
  · exact corresponds_note (.printed args)
  · exact corresponds_exhausted .calling

theorem corresponds_primitive (levels : Nat) (p : Primitive) (args : List Value) :
    C.Corresponds C.Values (p.run levels args)
      (p.run levels (args.map (Value.rename C.rename))) := by
  have hc := p.computes_value args
  have hprint : ∀ next : Run Value, C.Corresponds C.Values next next → C.Corresponds C.Values
      (if p = .println then Primitive.print levels args >>= fun _ => next else next)
      (if p = .println then
        Primitive.print levels (args.map (Value.rename C.rename)) >>= fun _ => next
        else next) := by
    intro next hn
    split
    · exact (corresponds_print levels args).bind fun _ _ _ => hn
    · exact hn
  -- the value is computed from numbers and booleans only, and has no symbol in it to be renamed
  unfold Primitive.run
  rw [Primitive.value_rename]
  generalize p.value args = result at hc
  cases hc with
  | int n => exact hprint _ (corresponds_pure ⟨rfl, C.wrapped n⟩)
  | bool b => exact hprint _ (corresponds_pure ⟨rfl, C.bool b⟩)
  | nil => exact hprint _ (corresponds_pure ⟨rfl, C.nil⟩)
  | _ => exact hprint _ (corresponds_fail rfl)

section
variable {part part' below below' : Value → Run Value}
  (hpart : ∀ e, C.IsExpr e → C.Corresponds C.Values (part e) (part' (e.rename C.rename)))
  (hbelow : ∀ e, C.IsExpr e → C.Corresponds C.Values (below e) (below' (e.rename C.rename)))
  (host host' : Host) (levels : Nat)
include hbelow

theorem corresponds_applyLambda {params args : List Value} {body : Value}
    (hf : C.IsValue (.lambda params body)) (ha : ∀ a ∈ args, C.IsValue a) :
    C.Corresponds C.Values (Eval.applyLambda levels below params body args)
      (Eval.applyLambda levels below' (params.map (Value.rename C.rename)) (body.rename C.rename)
        (args.map (Value.rename C.rename))) := by
  have hbracket := corresponds_push.bind fun _ _ _ =>
    corresponds_leaving levels
      ((corresponds_bindAll levels (fun n hn => C.param hf hn) ha).bind fun _ _ _ =>
      hbelow body (C.body hf))
  unfold Eval.applyLambda
  rw [List.length_map, List.length_map]
  split
  · exact (corresponds_note (.mismatch params body args)).bind fun _ _ _ => hbracket
  · exact hbracket

theorem corresponds_apply {f : Value} {args : List Value} (hf : C.IsValue f)
    (ha : ∀ a ∈ args, C.IsValue a) :
    C.Corresponds C.Values (Eval.apply host levels below f args)
      (Eval.apply host' levels below' (f.rename C.rename) (args.map (Value.rename C.rename))) := by
  cases f with
  | native g =>
    obtain ⟨p, hp⟩ := C.native hf
    refine (corresponds_note (.called g args)).bind fun _ _ _ => ?_
    rw [hp]
    exact corresponds_primitive levels p args
  | lambda params body =>
    rw [Value.rename_lambda]
    exact corresponds_applyLambda hbelow levels hf ha
  | _ => exact corresponds_raise (levels + 1) rfl

include hpart

theorem corresponds_call {n : Symbol} {tail : List Value} (hn : C.Reads n)
    (ht : ∀ e ∈ tail, C.IsExpr e) :
    C.Corresponds C.Values (Eval.call host levels part below n tail)
      (Eval.call host' levels part' below' (C.rename n) (tail.map (Value.rename C.rename))) := by
  refine (corresponds_lookup hn).bind fun f f' hf => ?_
  obtain ⟨rfl, hf⟩ := hf
  rw [Value.isFunction_rename]
  split
  · refine (corresponds_arguments hpart ht).bind fun args args' ha => ?_
    obtain ⟨rfl, ha⟩ := ha
    refine (corresponds_note (.applying n args)).bind fun _ _ _ => ?_
    exact corresponds_apply hbelow host host' levels hf ha
  · exact corresponds_raise (levels + 2) rfl

theorem corresponds_step {e : Value} (he : C.IsExpr e) :
    C.Corresponds C.Values (Eval.step host levels part below e)
      (Eval.step host' levels part' below' (e.rename C.rename)) := by
  cases e with
  | symbol n => exact corresponds_lookup (C.name he).1
  | list items =>
    rw [Value.rename_list]
    cases items with
    | nil => exact corresponds_fail rfl
    | cons head tail =>
      have ht := C.tail he
      cases head with
      | symbol n =>
        -- which form it is depends on the table of the world, so the worlds are needed before the
        -- case split
        intro w w' hw
        show C.Alike _ w w' _
            (Eval.step host' levels part' below' (.list (.symbol (C.rename n) :: _)) w')
        rw [step_list, step_list, hw.table, hw.table', C.special]
        cases hn : SpecialForm.of? C.table n with
        | none => exact corresponds_call hpart hbelow host host' levels (C.head he hn) ht w w' hw
        | some form =>
          cases form with
          | ifForm => exact corresponds_ifForm hpart ht w w' hw
          | lambdaForm => exact corresponds_lambdaForm (levels + 1) ht w w' hw
          | letForm => exact corresponds_letForm hpart (levels + 1) ht w w' hw
      | _ => exact corresponds_raise (levels + 2) rfl
  | _ => exact corresponds_pure ⟨rfl, C.self he nofun nofun⟩

end

/-! ## evaluation -/

/-- nothing of the host is called, so the two runs may have different hosts -/
theorem corresponds_evaluate_hosts (host host' : Host) : ∀ (levels : Nat) (e : Value), C.IsExpr e →
    C.Corresponds C.Values (Eval.evaluate host levels e)
      (Eval.evaluate host' levels (e.rename C.rename))
  | 0, _, _ | 1, _, _ | 2, _, _ => corresponds_exhausted .calling
  | n + 3, e, he => by
    rw [Eval.evaluate_add_three, Eval.evaluate_add_three]
    exact corresponds_step (corresponds_evaluate_hosts host host' (n + 1))
      (corresponds_evaluate_hosts host host' n) host host' n he

theorem corresponds_evaluate (host : Host) (levels : Nat) (e : Value) (he : C.IsExpr e) :
    C.Corresponds C.Values (Eval.evaluate host levels e)
      (Eval.evaluate host levels (e.rename C.rename)) :=
  corresponds_evaluate_hosts host host levels e he

end Correspondence

end Lisplet
