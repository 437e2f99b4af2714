import Mathlib
import Lisplet.Session
import Lisplet.Proofs.BigStep

/-!
# Every run has a derivation

A run that is not exhausted went by the rules.  This is shown by following the evaluator: a run is
`Known` if it is exhausted or ends with what some rule gives, and each form of the language makes
known runs from those of its parts.

The rules speak of primitives only, so nothing of the host may be at hand: neither in the expression
nor in the scopes (`Value.hostFree`).  Such values are a realm, and no evaluation leaves it.

* `known_step`        one level of evaluation, from those below it;
* `derives_evaluate`  evaluation with any number of levels;
* `evaluator_implements_rules`  evaluation and rules agree, in both directions.
-/

namespace Lisplet

open FrameStack Sequence

/-! ## values without the host -/

def Procedure.isPrimitive : Procedure → Bool
  | .primitive _ => true
  | .host _ => false

mutual

/-- no procedure of the host is in the value -/
def Value.hostFree : Value → Bool
  | .native f => f.code.isPrimitive
  | .list items => hostFreeAll items
  | .lambda params body => hostFreeAll params && hostFree body
  | _ => true

def Value.hostFreeAll : List Value → Bool
  | [] => true
  | v :: vs => hostFree v && hostFreeAll vs

end

theorem hostFreeAll_iff {vs : List Value} :
    Value.hostFreeAll vs = true ↔ ∀ v ∈ vs, v.hostFree = true := by
  induction vs with
  | nil => simp [Value.hostFreeAll]
  | cons v vs ih => rw [Value.hostFreeAll, Bool.and_eq_true, ih, List.forall_mem_cons]

theorem hostFree_list {items : List Value} :
    (Value.list items).hostFree = true ↔ ∀ v ∈ items, v.hostFree = true := by
  rw [Value.hostFree, hostFreeAll_iff]

theorem hostFree_lambda {params : List Value} {body : Value} :
    (Value.lambda params body).hostFree = true ↔
      (∀ v ∈ params, v.hostFree = true) ∧ body.hostFree = true := by
  rw [Value.hostFree, Bool.and_eq_true, hostFreeAll_iff]

/-- the realm of all values without the host -/
def hostless : Realm where
  IsExpr := fun v => v.hostFree = true
  IsValue := fun v => v.hostFree = true
  IsName := fun _ => True
  self := fun h _ _ => h
  item := fun h hv => hostFree_list.1 h _ hv
  name := fun _ => trivial
  lambda := fun hl _ hb => hostFree_lambda.2 ⟨hostFree_list.1 hl, hb⟩
  param := fun _ _ => trivial
  body := fun h => (hostFree_lambda.1 h).2
  native := by
    intro f hf
    rw [Value.hostFree] at hf
    cases hc : f.code with
    | primitive p => exact ⟨p, rfl⟩
    | host id =>
      rw [hc] at hf
      cases hf
  wrapped := fun _ => by simp [Value.hostFree]
  bool := fun _ => by simp [Value.hostFree]
  nil := by simp [Value.hostFree]

/-! ## known runs -/

section
variable {α β : Type}

/-- a run from `w` is exhausted, or ends with what `P` says; the scopes `o` are left alone -/
def Known (table : Nat) (o : List Scope) (P : Except EvalError α → Scope → String → Prop)
    (act : Run α) (w : World) : Prop :=
  (∃ x w', act w = .error (.exhausted x) w') ∨ ∃ r s out, P r s out ∧
    Ends table act w r (s :: o) out

variable {table : Nat} {o : List Scope} {w : World}
  {P P' : Except EvalError α → Scope → String → Prop}
  {Q : Except EvalError β → Scope → String → Prop}

theorem Known.mono {act : Run α} (h : Known table o P act w)
    (hp : ∀ r s out, P r s out → P' r s out) :
    Known table o P' act w := by
  rcases h with hx | ⟨r, s, out, h, he⟩
  · exact .inl hx
  · exact .inr ⟨r, s, out, hp r s out h, he⟩

theorem Known.congr {act act' : Run α} (he : act w = act' w) (h : Known table o P act' w) :
    Known table o P act w := by
  unfold Known Ends at *
  rw [he]
  exact h

theorem Does.known {act : Run α} {s s' : Scope} {r : Except EvalError α} {out : String}
    (h : Does table act (s :: o) r (s' :: o) out) (hw : w.Shows table (s :: o)) (hp : P r s' out) :
    Known table o P act w := .inr ⟨r, s', out, hp, h w hw⟩

/-- an error is worded, or there are too few levels for it -/
theorem known_raise {s : Scope} {levels : Nat} {e : EvalError} (hs : w.Shows table (s :: o))
    (hp : P (.error e) s "") : Known table o P (Run.raise levels e : Run α) w := by
  by_cases hl : e.levels ≤ levels
  · exact (does_raise hl).known hs hp
  · exact .inl ⟨e.overrun, w, Run.raise_of_lt (Nat.lt_of_not_le hl) w⟩

/-- after what has printed `out` already, and printing nothing more -/
theorem Does.known_after {act : Run α} {s s' : Scope} {r : Except EvalError α} {out : String}
    (h : Does table act (s :: o) r (s' :: o) "") (hw : w.Shows table (s :: o)) (hp : P r s' out) :
    Known table o (fun r s' q => P r s' (out ++ q)) act w := by
  refine h.known hw ?_
  rw [String.append_empty]
  exact hp

theorem Known.bind {x : Run α} {f : α → Run β} {S : α → Prop} (hx : Known table o P x w)
    (hsec : hostless.Secures S x) (hw : hostless.Holds w)
    (hok : ∀ a s out w', P (.ok a) s out → S a → hostless.Holds w' → w'.Shows table (s :: o) →
      Known table o (fun r s' out' => Q r s' (out ++ out')) (f a) w')
    (herr : ∀ e s out, P (.error e) s out → Q (.error e) s out) : Known table o Q (x >>= f) w := by
  rcases hx with ⟨x, w', hx⟩ | ⟨r, s, out, hp, w', hr, hs, ho⟩
  · exact .inl ⟨x, w', bind_of_error hx⟩
  · cases r with
    | error e => exact .inr ⟨.error e, s, out, herr e s out hp, w', bind_of_error hr, hs, ho⟩
    | ok a =>
      have hr' : x w = .ok a w' := hr
      have hy := hsec w hw
      rw [hr'] at hy
      have hb : (x >>= f) w = f a w' := bind_of_ok hr'
      rcases hok a s out w' hp hy.1 hy.2.holds hs with
        ⟨y, w₂, h₂⟩ | ⟨r₂, s₂, out₂, hq, w₂, h₂, hs₂, ho₂⟩
      · exact .inl ⟨y, w₂, hb.trans h₂⟩
      · refine .inr ⟨r₂, s₂, out ++ out₂, hq, w₂, hb.trans h₂, hs₂, ?_⟩
        rw [ho₂, ho, String.append_assoc]

/-- an event that prints nothing comes first -/
theorem Known.note {act : Run α} {e : Event} (he : e.output = "")
    (h : Known table o P act (w.note e)) :
    Known table o P (Run.note e >>= fun _ => act) w := by
  rcases h with ⟨x, w', hx⟩ | ⟨r, s, out, hp, w', hr, hs, ho⟩
  · exact .inl ⟨x, w', hx⟩
  · refine .inr ⟨r, s, out, hp, w', hr, hs, ?_⟩
    rw [ho, World.output_note, he, String.append_empty]

/-- a body in a scope of its own -/
theorem Known.bracket {act : Run α} {S : α → Prop} {s : Scope} (levels : Nat)
    (hw : hostless.Holds w) (hs : w.Shows table (s :: o)) (hsec : hostless.Secures S act)
    (h : Known table (s :: o) P act { w with frames := w.frames.push })
    (hp : ∀ r i out, P r i out → P' r s out) :
    Known table o P' (Run.push >>= fun _ => Eval.leaving levels act) w := by
  rcases h with ⟨x, w', hx⟩ | ⟨r, i, out, hi, he⟩
  · -- an exhausted body may have left frames on top, and there is one to pop
    have hy := hsec _ hw.push
    rw [hx] at hy
    obtain ⟨hpop, _⟩ := Realm.Leads.popped hw hy
    refine .inl ⟨x, ?_⟩
    show ∃ w', Eval.leaving levels act { w with frames := w.frames.push } = .error (.exhausted x) w'
    by_cases hz : levels = 0
    · simp only [Eval.leaving, hx, if_pos hz]
      exact ⟨w', rfl⟩
    · simp only [Eval.leaving, hx, if_neg hz, hpop]
      exact ⟨_, rfl⟩
  · exact .inr ⟨r, s, out, hp r i out hi, ends_bracket levels hs he⟩

end

/-! ## the forms of the language -/

/-- an evaluation whose runs are known, and that does not bring in the host -/
structure Derives (table : Nat) (ev : Value → Run Value) : Prop where
  secures : ∀ e, e.hostFree = true → hostless.Secures hostless.IsValue (ev e)
  known : ∀ e, e.hostFree = true → ∀ s o w, hostless.Holds w → w.Shows table (s :: o) →
    Known table o (Evaluates table e s o) (ev e) w

section
variable {table : Nat} {ev : Value → Run Value} (hev : Derives table ev) {n : Symbol}
  {tail : List Value} {s : Scope} {o : List Scope} {w : World} (hw : hostless.Holds w)
  (hs : w.Shows table (s :: o))
include hev hw hs

theorem known_arguments {es : List Value} (hes : ∀ e ∈ es, e.hostFree = true) :
    Known table o (EvaluatesAll table es s o) (Eval.arguments ev es) w := by
  induction es generalizing s w with
  | nil => exact (does_pure _).known hs .nil
  | cons e es ih =>
    obtain ⟨he, hes⟩ := List.forall_mem_cons.1 hes
    refine (hev.known e he s o w hw hs).bind (hev.secures e he) hw ?_ ?_
    · intro v s₁ p w₁ hv _ hw₁ hs₁
      refine (ih hw₁ hs₁ hes).bind (Realm.secures_arguments hev.secures hes) hw₁ ?_ ?_
      · intro vs s₂ q w₂ hvs _ hw₂ hs₂
        refine (does_pure _).known hs₂ ?_
        rw [String.append_empty]
        exact .cons hv hvs
      · exact fun x s₂ q hx => .failsLater hv hx
    · exact fun x s₁ p hx => .fails hx

theorem known_formsFrom {es : List Value} (hes : ∀ e ∈ es, e.hostFree = true) (last : Value) :
    Known table o (EvaluatesForms table last es s o) (Eval.formsFrom ev last es) w := by
  induction es generalizing s w last with
  | nil => exact (does_pure _).known hs .nil
  | cons e es ih =>
    obtain ⟨he, hes⟩ := List.forall_mem_cons.1 hes
    refine (hev.known e he s o w hw hs).bind (hev.secures e he) hw ?_ ?_
    · intro v s₁ p w₁ hv _ hw₁ hs₁
      exact (ih hw₁ hs₁ hes v).mono fun r s₂ q hr => .cons hv hr
    · exact fun x s₁ p hx => .fails hx

theorem known_ifForm (hn : SpecialForm.of? table n = some .ifForm)
    (ht : ∀ e ∈ tail, e.hostFree = true) :
    Known table o (Evaluates table (.list (.symbol n :: tail)) s o) (Eval.ifForm ev tail) w := by
  cases tail with
  | nil => exact (does_ifShort (by decide)).known hs (.ifShort hn (by decide))
  | cons c tail =>
    cases tail with
    | nil =>
      have hshort : [c].length < 2 := Nat.lt_succ_self 1
      exact (does_ifShort hshort).known hs (.ifShort hn hshort)
    | cons yes rest =>
      obtain ⟨hc, ht⟩ := List.forall_mem_cons.1 ht
      obtain ⟨hyes, hrest⟩ := List.forall_mem_cons.1 ht
      refine (hev.known c hc s o w hw hs).bind (hev.secures c hc) hw ?_ ?_
      · intro v s₁ p w₁ hv _ hw₁ hs₁
        cases v with
        | bool b =>
          cases b with
          | true =>
            exact (hev.known yes hyes s₁ o w₁ hw₁ hs₁).mono fun r s₂ q hy =>
              .ifTrue hn hv hy
          | false =>
            cases rest with
            | nil => exact (does_pure _).known_after hs₁ (Evaluates.ifNoElse hn hv)
            | cons no rest =>
              have hno := hrest no (List.mem_cons_self ..)
              exact (hev.known no hno s₁ o w₁ hw₁ hs₁).mono fun r s₂ q hr => .ifFalse hn hv hr
        | _ => exact (does_fail .ifCondition).known_after hs₁ (Evaluates.ifCondition hn hv nofun)
      · exact fun x s₁ p hx => .ifError hn hx

theorem known_letForm (hn : SpecialForm.of? table n = some .letForm)
    (ht : ∀ e ∈ tail, e.hostFree = true) (levels : Nat) :
    Known table o (Evaluates table (.list (.symbol n :: tail)) s o)
      (Eval.letForm levels ev tail) w := by
  cases tail with
  | nil => exact (does_fail _).known hs (.letWithoutName hn)
  | cons x tail =>
    cases x with
    | symbol m =>
      cases tail with
      | nil => exact (does_fail _).known hs (.letWithoutValue hn)
      | cons e rest =>
        have he := ht e (by simp)
        refine (hev.known e he s o w hw hs).bind (hev.secures e he) hw ?_ ?_
        · intro v s₁ p w₁ hv _ hw₁ hs₁
          exact (does_define m v s₁ o).known_after hs₁ (Evaluates.letBind hn hv)
        · exact fun x s₁ p hx => .letError hn hx
    | _ => exact known_raise hs (.letName hn nofun)

end

/-- the symbols of a list, up to the first item that is none -/
theorem notSymbol?_eq_some {params : List Value} {p : Value} (h : Eval.notSymbol? params = some p) :
    ∃ (names : List Symbol) (more : List Value),
      params = names.map Value.symbol ++ p :: more ∧ ∀ m, p ≠ .symbol m := by
  induction params with
  | nil => cases h
  | cons v params ih =>
    cases v with
    | symbol m =>
      obtain ⟨names, more, he, hp⟩ := ih h
      exact ⟨m :: names, more, by rw [he]; rfl, hp⟩
    | _ =>
      cases h
      exact ⟨[], params, rfl, nofun⟩

theorem notSymbol?_eq_none {params : List Value} (h : Eval.notSymbol? params = none) :
    ∃ names : List Symbol, params = names.map Value.symbol := by
  induction params with
  | nil => exact ⟨[], rfl⟩
  | cons v params ih =>
    obtain ⟨m, rfl⟩ := Realm.symbols_of_notSymbol? h v (List.mem_cons_self ..)
    obtain ⟨names, he⟩ := ih h
    exact ⟨m :: names, by rw [he]; rfl⟩

section
variable {table : Nat} {n : Symbol} {s : Scope} {o : List Scope} {w : World}

theorem known_lambdaForm (hs : w.Shows table (s :: o))
    (hn : SpecialForm.of? table n = some .lambdaForm) (levels : Nat) (tail : List Value) :
    Known table o (Evaluates table (.list (.symbol n :: tail)) s o)
      (Eval.lambdaForm levels tail) w := by
  cases tail with
  | nil => exact (does_fail _).known hs (.lambdaWithoutParams hn)
  | cons x tail =>
    cases tail with
    | nil => exact (does_fail _).known hs (.lambdaWithoutBody hn)
    | cons body rest =>
      cases x with
      | list params =>
        cases hp : Eval.notSymbol? params with
        | some p =>
          obtain ⟨names, more, rfl, hne⟩ := notSymbol?_eq_some hp
          simp only [Eval.lambdaForm, hp]
          exact known_raise hs (.lambdaParam hn hne)
        | none =>
          obtain ⟨names, rfl⟩ := notSymbol?_eq_none hp
          exact (does_lambda hp body).known hs (.lambda hn)
      | _ => exact known_raise hs (.lambdaParams hn (by rintro _ ⟨⟩))

end

/-! ## calls -/

section
variable {table : Nat} {below : Value → Run Value} (hbelow : Derives table below) {s : Scope}
  {o : List Scope} {w : World} (hw : hostless.Holds w) (hs : w.Shows table (s :: o))
  {params args : List Value} {body : Value} (hf : (Value.lambda params body).hostFree = true)
  (ha : ∀ a ∈ args, a.hostFree = true)

/-- a parameter that takes too many levels to be shown ends the binding of parameters -/
theorem bindAll_exhausted {inner : Scope} {levels : Nat} {x : EvalError} {params args : List Value}
    {w : World} (hw : w.Shows table (inner :: o))
    (hx : (Scope.bindAll inner params args).1 = .error x) (hl : levels < x.levels) :
    ∃ w', Eval.bindAll levels params args w = .error (.exhausted x.overrun) w' := by
  induction params generalizing args inner w with
  | nil => cases hx
  | cons p params ih =>
    cases args with
    | nil => cases p <;> cases hx
    | cons a args =>
      cases p with
      | symbol m =>
        obtain ⟨w₁, hd, hs₁, _⟩ := (ends_define hw m a).worded levels nofun
        obtain ⟨w', he⟩ := ih hs₁ hx
        exact ⟨w', (bind_of_ok hd).trans he⟩
      | _ =>
        cases hx
        exact ⟨w, bind_of_error (Run.worded_of_lt (define_unfit rfl a w) hl)⟩

/-- what the body of a function comes to: the parameters are bound and it is evaluated, or they
cannot be -/
def BodyEvaluates (table : Nat) (params args : List Value) (body : Value) (caller : List Scope)
    (r : Except EvalError Value) (i' : Scope) (out : String) : Prop :=
  (∃ i, Scope.bindAll [] params args = (.ok (), i) ∧ Evaluates table body i caller r i' out) ∨
    ∃ x, Scope.bindAll [] params args = (.error x, i') ∧ r = .error x ∧ out = ""

/-- a parameter that is no symbol is an error, or there are too few levels to word it -/
theorem known_bindAll {inner : Scope} (levels : Nat) (params args : List Value)
    (hw : w.Shows table (inner :: o)) :
    Known table o (fun r i out => Scope.bindAll inner params args = (r, i) ∧ out = "")
      (Eval.bindAll levels params args) w := by
  by_cases hl : ∀ x, (Scope.bindAll inner params args).1 = .error x → x.levels ≤ levels
  · exact .inr ⟨_, _, _, ⟨rfl, rfl⟩, ends_bindAll levels params args hw hl⟩
  · refine .inl ?_
    obtain ⟨x, hx⟩ := not_forall.1 hl
    obtain ⟨hx, hlt⟩ := Classical.not_imp.1 hx
    obtain ⟨w', he⟩ := bindAll_exhausted hw hx (Nat.lt_of_not_le hlt)
    exact ⟨_, w', he⟩

include hbelow hw hs hf ha

theorem known_body (levels : Nat) :
    Known table (s :: o) (BodyEvaluates table params args body (s :: o))
      (Eval.bindAll levels params args >>= fun _ => below body)
        { w with frames := w.frames.push } := by
  have hbody := (hostFree_lambda.1 hf).2
  have hbind := known_bindAll levels params args hs.push
  refine hbind.bind (Realm.secures_parameters (R := hostless) levels hf ha) hw.push ?_ ?_
  · rintro ⟨⟩ i out w' ⟨hi, rfl⟩ _ hw' hs'
    refine (hbelow.known body hbody i (s :: o) w' hw' hs').mono ?_
    intro r i' q hr
    rw [String.empty_append]
    exact .inl ⟨i, hi, hr⟩
  · rintro x i out ⟨hi, rfl⟩
    exact .inr ⟨x, hi, rfl, rfl⟩

theorem known_applyLambda (levels : Nat) :
    Known table o (fun r s' out => s' = s ∧
      ∃ i, BodyEvaluates table params args body (s :: o) r i out)
      (Eval.applyLambda levels below params body args) w := by
  have hsec : hostless.Secures hostless.IsValue
      (Eval.bindAll levels params args >>= fun _ => below body) :=
    (Realm.secures_parameters (R := hostless) levels hf ha).bind fun _ _ =>
      hbelow.secures body (hostFree_lambda.1 hf).2
  have hbracket : ∀ w : World, hostless.Holds w → w.Shows table (s :: o) →
      Known table o (fun r s' out => s' = s ∧
        ∃ i, BodyEvaluates table params args body (s :: o) r i out)
        (Run.push >>= fun _ => Eval.leaving levels
          (Eval.bindAll levels params args >>= fun _ => below body)) w := by
    intro w hw hs
    refine Known.bracket levels hw hs hsec (known_body hbelow hw hs hf ha levels) ?_
    exact fun r i out hr => ⟨rfl, i, hr⟩
  unfold Eval.applyLambda
  split
  · exact Known.note rfl (hbracket _ (hw.note _) (hs.note _))
  · exact hbracket w hw hs

end

/-- printing goes on, or there are too few levels for it -/
theorem known_applyPrimitive (host : Host) {table : Nat} {ev : Value → Run Value} {s : Scope}
    {o : List Scope} {w : World} {P : Except EvalError Value → Scope → String → Prop} (levels : Nat)
    (m : Symbol) {b : Primitive} {args : List Value} (hs : w.Shows table (s :: o))
    (hp : P (b.value args) s (b.prints args)) :
    Known table o P (Eval.apply host levels ev (.native ⟨m, .primitive b⟩) args) w := by
  by_cases hl : b.levels args ≤ levels
  · exact (does_applyPrimitive host m hl).known hs hp
  · exact .inl ⟨_, _,
      Primitive.run_of_lt (Nat.lt_of_not_le hl) (w.note (.called ⟨m, .primitive b⟩ args))⟩

section
variable (host : Host) {table : Nat} {part below : Value → Run Value} (hpart : Derives table part)
  (hbelow : Derives table below) {s : Scope} {o : List Scope} {w : World} (hw : hostless.Holds w)
  (hs : w.Shows table (s :: o)) (levels : Nat)
include hpart hbelow hw hs

theorem known_call {n : Symbol} {tail : List Value} (hn : SpecialForm.of? table n = none)
    (ht : ∀ e ∈ tail, e.hostFree = true) :
    Known table o (Evaluates table (.list (.symbol n :: tail)) s o)
      (Eval.call host levels part below n tail) w := by
  cases h : Scope.find? n (s :: o) with
  | none => exact (does_headUnbound host levels h).known hs (.headUnbound hn h)
  | some f =>
    have hlookup : w.frames.lookup (.symbol n) = .ok f := by
      rw [hs.proper.lookup_eq, hs.scopes, h]
      rfl
    have hfree : f.hostFree = true := (hw.bound n f (bound_of_lookup hlookup)).2
    have hrun : Run.lookup (.symbol n) w = .ok f w := by simp only [Run.lookup, hlookup]
    by_cases hf : f.isFunction = true
    · refine Known.congr (bind_of_ok hrun) ?_
      rw [if_pos hf]
      refine (known_arguments hpart hw hs ht).bind (Realm.secures_arguments hpart.secures ht)
        hw ?_ ?_
      · intro args s₁ p w₁ hargs hafree hw₁ hs₁
        refine Known.note rfl ?_
        have hw₂ := hw₁.note (.applying n args)
        have hs₂ := hs₁.note (.applying n args)
        cases f with
        | native g =>
          obtain ⟨m, code⟩ := g
          cases code with
          | primitive b =>
            exact known_applyPrimitive host levels m hs₂ (Evaluates.primitive hn h hargs)
          | host id => cases hfree
        | lambda params body =>
          refine (known_applyLambda hbelow hw₂ hs₂ hfree hafree levels).mono ?_
          rintro r s₂ q ⟨rfl, i', ⟨i, hi, hr⟩ | ⟨x, hi, rfl, rfl⟩⟩
          · exact .call hn h hargs hi hr
          · rw [String.append_empty]
            exact .unfitParam hn h hargs hi
        | _ => cases hf
      · exact fun x s₁ p hx => .argumentError hn h hf hx
    · have hf' : f.isFunction = false := Bool.eq_false_iff.2 hf
      refine Known.congr (bind_of_ok hrun) ?_
      rw [if_neg hf]
      exact known_raise hs (.notCallable hn h hf')

/-- one level of evaluation, from the evaluation of parts and of what runs below a call -/
theorem known_step {e : Value} (he : e.hostFree = true) :
    Known table o (Evaluates table e s o) (Eval.step host levels part below e) w := by
  cases e with
  | symbol n =>
    cases h : Scope.find? n (s :: o) with
    | some v => exact (does_lookup h).known hs (.name h)
    | none => exact (does_lookup_unbound h).known hs (.unbound h)
  | list items =>
    cases items with
    | nil => exact (does_fail _).known hs .emptyCall
    | cons head tail =>
      have ht : ∀ e ∈ tail, e.hostFree = true :=
        fun e h => hostFree_list.1 he e (List.mem_cons_of_mem _ h)
      cases head with
      | symbol n =>
        refine Known.congr (step_list host levels part below n tail w) ?_
        rw [hs.table]
        cases hn : SpecialForm.of? table n with
        | none => exact known_call host hpart hbelow hw hs levels hn ht
        | some form =>
          cases form with
          | ifForm => exact known_ifForm hpart hw hs hn ht
          | lambdaForm => exact known_lambdaForm hs hn _ tail
          | letForm => exact known_letForm hpart hw hs hn ht _
      | _ => exact known_raise hs (.headNotSymbol nofun)
  | _ => exact (does_pure _).known hs (.literal nofun nofun)

end

theorem derives_evaluate (host : Host) (table : Nat) :
    ∀ levels, Derives table (Eval.evaluate host levels)
  | 0 => ⟨fun _ he => Realm.secures_evaluate host 0 he, fun _ _ _ _ w _ _ => .inl ⟨_, w, rfl⟩⟩
  | 1 => ⟨fun _ he => Realm.secures_evaluate host 1 he, fun _ _ _ _ w _ _ => .inl ⟨_, w, rfl⟩⟩
  | 2 => ⟨fun _ he => Realm.secures_evaluate host 2 he, fun _ _ _ _ w _ _ => .inl ⟨_, w, rfl⟩⟩
  | n + 3 => by
    refine ⟨fun _ he => Realm.secures_evaluate host (n + 3) he, ?_⟩
    intro e he s o w hw hs
    rw [Eval.evaluate_add_three]
    exact known_step host (derives_evaluate host table (n + 1)) (derives_evaluate host table n)
      hw hs n he

/-! ## rules and evaluator -/

/-- what is computed with levels agrees with rules: it comes to what they give, with all numbers of
levels from some on, and to nothing else; and it is always exhausted where they give nothing -/
structure Implements {α : Type} (table : Nat) (act : Nat → Run α) (w : World) (o : List Scope)
    (P : Except EvalError α → Scope → String → Prop) : Prop where
  results : ∀ r s out, P r s out ↔ ∃ levels, Ends table (act levels) w r (s :: o) out
  reached : ∀ r s out, P r s out → ∃ enough, ∀ levels, enough ≤ levels →
    Ends table (act levels) w r (s :: o) out
  diverges : (∀ r s out, ¬ P r s out) ↔ ∀ levels, ∃ x w', act levels w = .error (.exhausted x) w'

/-- the run decides what the rules can give -/
theorem implements_of_known {α : Type} {table : Nat} {act : Nat → Run α} {w : World} {s : Scope}
    {o : List Scope} {P : Except EvalError α → Scope → String → Prop} (hs : w.Shows table (s :: o))
    (hreach : ∀ r s' out, P r s' out → Reached table act (s :: o) r (s' :: o) out)
    (hknown : ∀ levels, Known table o P (act levels) w) : Implements table act w o P where
  reached := by
    intro r s' out hp
    obtain ⟨N, hN⟩ := hreach r s' out hp
    exact ⟨N, fun levels hl => hN levels hl w hs⟩
  results := by
    intro r s' out
    constructor
    · intro hp
      obtain ⟨N, hN⟩ := hreach r s' out hp
      exact ⟨N, hN N (Nat.le_refl N) w hs⟩
    · rintro ⟨levels, hends⟩
      rcases hknown levels with ⟨x, w₁, hx⟩ | ⟨r₁, s₁, out₁, hp, hends₁⟩
      · obtain ⟨w', hr, _⟩ := hends
        exact absurd (hr.symm.trans hx) (ended_ne_exhausted r w' w₁ x)
      · obtain ⟨rfl, hsc, rfl⟩ := hends.unique hends₁
        obtain ⟨rfl, _⟩ := List.cons.inj hsc
        exact hp
  diverges := by
    constructor
    · intro hno levels
      rcases hknown levels with hx | ⟨r, s', out, hp, _⟩
      · exact hx
      · exact absurd hp (hno r s' out)
    · intro hx r s' out hp
      obtain ⟨N, hN⟩ := hreach r s' out hp
      obtain ⟨w', hr, _⟩ := hN N (Nat.le_refl N) w hs
      obtain ⟨x, w₁, hx⟩ := hx N
      exact ended_ne_exhausted r w' w₁ x (hr.symm.trans hx)

theorem holds_of_scopes {w : World} (hp : w.frames.Proper)
    (hb : ∀ scope ∈ w.frames.scopes, ∀ b ∈ scope, b.2.hostFree = true) : hostless.Holds w := by
  refine ⟨hp, ?_⟩
  rintro n v ⟨h, f, hf, hm⟩
  exact ⟨trivial, hb f.vars (mem_scopes hf) (n, v) hm⟩

/-- From any stack of scopes without the host, the evaluator and the rules give the same: for an
expression and for the forms of a program. -/
theorem evaluator_implements_rules (host : Host) (w : World) (s : Scope) (o : List Scope)
    (hp : w.frames.Proper) (hsc : w.frames.scopes = s :: o)
    (hb : ∀ scope ∈ s :: o, ∀ b ∈ scope, b.2.hostFree = true) :
    (∀ e, e.hostFree = true →
      Implements w.table.id (fun levels => Eval.evaluate host levels e) w o
        (Evaluates w.table.id e s o)) ∧
    (∀ es, (∀ e ∈ es, e.hostFree = true) →
      Implements w.table.id (fun levels => Eval.forms (Eval.evaluate host levels) es) w o
        (EvaluatesForms w.table.id .nil es s o)) := by
  have hw : hostless.Holds w := holds_of_scopes hp (hsc ▸ hb)
  have hs : w.Shows w.table.id (s :: o) := ⟨rfl, hp, hsc⟩
  refine ⟨?_, ?_⟩
  · intro e he
    refine implements_of_known hs (fun r s' out h => h.reached host) ?_
    exact fun levels => (derives_evaluate host _ levels).known e he s o w hw hs
  · intro es hes
    refine implements_of_known hs (fun r s' out h => h.reached host) ?_
    exact fun levels => known_formsFrom (derives_evaluate host _ levels) hw hs hes .nil

/-- `f` gives `y`, which is 1 where `f` was made and 2 where it is called -/
def callSite : World :=
  let f : Symbol := ⟨0, "f"⟩
  let y : Symbol := ⟨0, "y"⟩
  let outside := (FrameStack.root.bindAt 0 f (.lambda [] (.symbol y))).bindAt 0 y (.int 1)
  ⟨outside.push.bindAt 1 y (.int 2), .empty 0, #[]⟩

theorem evaluator_implements_rules_at_call_site :
    ∃ levels, Ends 0 (Eval.evaluate Session.noHost levels (.list [.symbol ⟨0, "f"⟩])) callSite
      (.ok (.int 2)) callSite.frames.scopes "" := by
  have hp : callSite.frames.Proper := (((Proper.root.bindAt _ _ _).bindAt _ _ _).push).bindAt _ _ _
  have hb : ∀ scope ∈ callSite.frames.scopes, ∀ b ∈ scope, b.2.hostFree = true := by
    decide
  have h := (evaluator_implements_rules Session.noHost callSite _ _ hp rfl hb).1
    (.list [.symbol ⟨0, "f"⟩]) (by decide)
  refine (h.results _ _ _).1 ?_
  exact .call rfl rfl .nil rfl (.name rfl)

end Lisplet
