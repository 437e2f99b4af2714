import Mathlib
import Lisplet.Proofs.Scopes

/-!
# The rules of the language

`Evaluates` gives the meaning of an expression by rules, without frames, handles and levels: in a
stack of scopes it has a value or an error, leaves a new innermost scope, and prints some text.  The
scopes below the innermost one cannot change.  `EvaluatesAll` does the same for the arguments of a
call, and `EvaluatesForms` for the forms of a program.

An expression without a derivation runs forever.

The other half of this module shows that evaluation follows the rules: where a rule gives a result,
the evaluator comes to it if it has enough levels (`Evaluates.reached`).
-/

namespace Lisplet

open Sequence

/-- what a primitive prints -/
def Primitive.prints (p : Primitive) (args : List Value) : String :=
  if p = .println then printLine args else ""

mutual

/-- `Evaluates table e s outer r s' out`: in the scopes `s :: outer`, the expression `e` has the
result `r`, turns `s` into `s'`, and prints `out`; special forms are those of the table -/
inductive Evaluates (table : Nat) :
    Value → Scope → List Scope → Except EvalError Value → Scope → String → Prop
  -- literals and names
  | literal {v s o} (hs : ∀ n, v ≠ .symbol n) (hl : ∀ items, v ≠ .list items) :
      Evaluates table v s o (.ok v) s ""
  | name {n v s o} (h : Scope.find? n (s :: o) = some v) :
      Evaluates table (.symbol n) s o (.ok v) s ""
  | unbound {n s o} (h : Scope.find? n (s :: o) = none) :
      Evaluates table (.symbol n) s o (.error (.unbound (.symbol n))) s ""
  -- lists that are no forms
  | emptyCall {s o} : Evaluates table (.list []) s o (.error .emptyCall) s ""
  | headNotSymbol {x tail s o} (h : ∀ n, x ≠ .symbol n) :
      Evaluates table (.list (x :: tail)) s o (.error (.headNotSymbol x)) s ""
  -- conditionals
  | ifShort {n tail s o} (hn : SpecialForm.of? table n = some .ifForm) (h : tail.length < 2) :
      Evaluates table (.list (.symbol n :: tail)) s o (.error .ifShort) s ""
  | ifError {n c yes rest s o x s₁ p} (hn : SpecialForm.of? table n = some .ifForm)
      (hc : Evaluates table c s o (.error x) s₁ p) :
      Evaluates table (.list (.symbol n :: c :: yes :: rest)) s o (.error x) s₁ p
  | ifCondition {n c yes rest s o v s₁ p} (hn : SpecialForm.of? table n = some .ifForm)
      (hc : Evaluates table c s o (.ok v) s₁ p) (hv : ∀ b, v ≠ .bool b) :
      Evaluates table (.list (.symbol n :: c :: yes :: rest)) s o (.error .ifCondition) s₁ p
  | ifTrue {n c yes rest s o s₁ p r s₂ q} (hn : SpecialForm.of? table n = some .ifForm)
      (hc : Evaluates table c s o (.ok (.bool true)) s₁ p) (hy : Evaluates table yes s₁ o r s₂ q) :
      Evaluates table (.list (.symbol n :: c :: yes :: rest)) s o r s₂ (p ++ q)
  | ifFalse {n c yes no rest s o s₁ p r s₂ q} (hn : SpecialForm.of? table n = some .ifForm)
      (hc : Evaluates table c s o (.ok (.bool false)) s₁ p) (hn' : Evaluates table no s₁ o r s₂ q) :
      Evaluates table (.list (.symbol n :: c :: yes :: no :: rest)) s o r s₂ (p ++ q)
  | ifNoElse {n c yes s o s₁ p} (hn : SpecialForm.of? table n = some .ifForm)
      (hc : Evaluates table c s o (.ok (.bool false)) s₁ p) :
      Evaluates table (.list [.symbol n, c, yes]) s o (.ok .nil) s₁ p
  -- functions
  | lambdaWithoutParams {n s o} (hn : SpecialForm.of? table n = some .lambdaForm) :
      Evaluates table (.list [.symbol n]) s o (.error .lambdaWithoutParams) s ""
  | lambdaWithoutBody {n x s o} (hn : SpecialForm.of? table n = some .lambdaForm) :
      Evaluates table (.list [.symbol n, x]) s o (.error .lambdaWithoutBody) s ""
  | lambdaParams {n x body rest s o} (hn : SpecialForm.of? table n = some .lambdaForm)
      (hx : ∀ items, x ≠ .list items) :
      Evaluates table (.list (.symbol n :: x :: body :: rest)) s o (.error (.lambdaParams x)) s ""
  | lambdaParam {n p more body rest s o} {names : List Symbol}
      (hn : SpecialForm.of? table n = some .lambdaForm) (hp : ∀ m, p ≠ .symbol m) :
      Evaluates table
        (.list (.symbol n :: .list (names.map Value.symbol ++ p :: more) :: body :: rest)) s o
        (.error (.lambdaParam p)) s ""
  | lambda {n body rest s o} {names : List Symbol}
      (hn : SpecialForm.of? table n = some .lambdaForm) :
      Evaluates table (.list (.symbol n :: .list (names.map Value.symbol) :: body :: rest)) s o
        (.ok (.lambda (names.map Value.symbol) body)) s ""
  -- bindings
  | letWithoutName {n s o} (hn : SpecialForm.of? table n = some .letForm) :
      Evaluates table (.list [.symbol n]) s o (.error .letWithoutName) s ""
  | letName {n x rest s o} (hn : SpecialForm.of? table n = some .letForm)
      (hx : ∀ m, x ≠ .symbol m) :
      Evaluates table (.list (.symbol n :: x :: rest)) s o (.error (.letName x)) s ""
  | letWithoutValue {n m s o} (hn : SpecialForm.of? table n = some .letForm) :
      Evaluates table (.list [.symbol n, .symbol m]) s o (.error .letWithoutValue) s ""
  | letError {n m e rest s o x s₁ p} (hn : SpecialForm.of? table n = some .letForm)
      (he : Evaluates table e s o (.error x) s₁ p) :
      Evaluates table (.list (.symbol n :: .symbol m :: e :: rest)) s o (.error x) s₁ p
  | letBind {n m e rest s o v s₁ p} (hn : SpecialForm.of? table n = some .letForm)
      (he : Evaluates table e s o (.ok v) s₁ p) :
      Evaluates table (.list (.symbol n :: .symbol m :: e :: rest)) s o (.ok .nil)
        (Frame.put m v s₁) p
  -- calls: the head is looked up before the arguments are evaluated
  | headUnbound {n tail s o} (hn : SpecialForm.of? table n = none)
      (h : Scope.find? n (s :: o) = none) :
      Evaluates table (.list (.symbol n :: tail)) s o (.error (.unbound (.symbol n))) s ""
  | notCallable {n tail v s o} (hn : SpecialForm.of? table n = none)
      (h : Scope.find? n (s :: o) = some v) (hv : v.isFunction = false) :
      Evaluates table (.list (.symbol n :: tail)) s o (.error (.notCallable n v)) s ""
  | argumentError {n tail f s o x s₁ p} (hn : SpecialForm.of? table n = none)
      (h : Scope.find? n (s :: o) = some f) (hf : f.isFunction = true)
      (ha : EvaluatesAll table tail s o (.error x) s₁ p) :
      Evaluates table (.list (.symbol n :: tail)) s o (.error x) s₁ p
  | primitive {n tail m b args s o s₁ p} (hn : SpecialForm.of? table n = none)
      (h : Scope.find? n (s :: o) = some (.native ⟨m, .primitive b⟩))
      (ha : EvaluatesAll table tail s o (.ok args) s₁ p) :
      Evaluates table (.list (.symbol n :: tail)) s o (b.value args) s₁ (p ++ b.prints args)
  | unfitParam {n tail params body args s o s₁ p x i} (hn : SpecialForm.of? table n = none)
      (h : Scope.find? n (s :: o) = some (.lambda params body))
      (ha : EvaluatesAll table tail s o (.ok args) s₁ p)
      (hb : Scope.bindAll [] params args = (.error x, i)) :
      Evaluates table (.list (.symbol n :: tail)) s o (.error x) s₁ p
  -- the scope of a call lies on those of its caller, and is dropped in the end
  | call {n tail params body args s o s₁ p i r i' q} (hn : SpecialForm.of? table n = none)
      (h : Scope.find? n (s :: o) = some (.lambda params body))
      (ha : EvaluatesAll table tail s o (.ok args) s₁ p)
      (hb : Scope.bindAll [] params args = (.ok (), i))
      (hbody : Evaluates table body i (s₁ :: o) r i' q) :
      Evaluates table (.list (.symbol n :: tail)) s o r s₁ (p ++ q)

/-- expressions from left to right, up to the first that fails -/
inductive EvaluatesAll (table : Nat) :
    List Value → Scope → List Scope → Except EvalError (List Value) → Scope → String → Prop
  | nil {s o} : EvaluatesAll table [] s o (.ok []) s ""
  | fails {e es s o x s₁ p} (he : Evaluates table e s o (.error x) s₁ p) :
      EvaluatesAll table (e :: es) s o (.error x) s₁ p
  | failsLater {e es s o v s₁ p x s₂ q} (he : Evaluates table e s o (.ok v) s₁ p)
      (hes : EvaluatesAll table es s₁ o (.error x) s₂ q) :
      EvaluatesAll table (e :: es) s o (.error x) s₂ (p ++ q)
  | cons {e es s o v s₁ p vs s₂ q} (he : Evaluates table e s o (.ok v) s₁ p)
      (hes : EvaluatesAll table es s₁ o (.ok vs) s₂ q) :
      EvaluatesAll table (e :: es) s o (.ok (v :: vs)) s₂ (p ++ q)

end

/-- forms one after the other, up to the first that fails; the value is that of the last one -/
inductive EvaluatesForms (table : Nat) :
    Value → List Value → Scope → List Scope → Except EvalError Value → Scope → String → Prop
  | nil {last s o} : EvaluatesForms table last [] s o (.ok last) s ""
  | fails {last e es s o x s₁ p} (he : Evaluates table e s o (.error x) s₁ p) :
      EvaluatesForms table last (e :: es) s o (.error x) s₁ p
  | cons {last e es s o v s₁ p r s₂ q} (he : Evaluates table e s o (.ok v) s₁ p)
      (hes : EvaluatesForms table v es s₁ o r s₂ q) :
      EvaluatesForms table last (e :: es) s o r s₂ (p ++ q)

/-! ## one level of evaluation -/

section
variable (host : Host) (levels : Nat) (part below : Value → Run Value)

/-- a list whose head is a symbol: a special form or a call -/
def Eval.listForm (n : Symbol) (tail : List Value) : Option SpecialForm → Run Value
  | some .ifForm => Eval.ifForm part tail
  | some .lambdaForm => Eval.lambdaForm (levels + 1) tail
  | some .letForm => Eval.letForm (levels + 1) part tail
  | none => Eval.call host levels part below n tail

theorem step_list (n : Symbol) (tail : List Value) (w : World) :
    Eval.step host levels part below (.list (.symbol n :: tail)) w
      = Eval.listForm host levels part below n tail (SpecialForm.of? w.table.id n) w := by
  have hget : (get : Run World) w = .ok w w := rfl
  simp only [Eval.step, bind_of_ok hget]
  cases SpecialForm.of? w.table.id n with
  | none => rfl
  | some f => cases f <;> rfl

end

/-! ## the evaluator follows the rules -/

/-- with enough levels the evaluator comes to this result -/
def Reached {α : Type} (table : Nat) (act : Nat → Run α) (before : List Scope)
    (r : Except EvalError α) (after : List Scope) (out : String) : Prop :=
  ∃ enough, ∀ levels, enough ≤ levels → Does table (act levels) before r after out

section
variable {host : Host} {table : Nat} {e : Value} {a b : List Scope} {r : Except EvalError Value}
  {out : String}

theorem reached_of_step (N : Nat) (h : ∀ n, N ≤ n → Does table
      (Eval.step host n (Eval.evaluate host (n + 1)) (Eval.evaluate host n) e) a r b out) :
    Reached table (fun levels => Eval.evaluate host levels e) a r b out := by
  refine ⟨N + 3, ?_⟩
  intro levels hl
  obtain ⟨n, rfl⟩ : ∃ n, levels = n + 3 := ⟨levels - 3, by omega⟩
  show Does table (Eval.evaluate host (n + 3) e) a r b out
  rw [Eval.evaluate_add_three]
  exact h n (by omega)

theorem reached_of_form {m : Symbol} {tail : List Value} {form : Option SpecialForm}
    (hm : SpecialForm.of? table m = form) (N : Nat) (h : ∀ n, N ≤ n → Does table
      (Eval.listForm host n (Eval.evaluate host (n + 1)) (Eval.evaluate host n) m tail form) a r
        b out) :
    Reached table (fun levels => Eval.evaluate host levels (.list (.symbol m :: tail))) a r b
      out := by
  apply reached_of_step N
  intro n hn w hw
  obtain ⟨w', hr, hs, ho⟩ := h n hn w hw
  refine ⟨w', ?_, hs, ho⟩
  rw [step_list, hw.table, hm]
  exact hr

section
variable {m : Symbol} {tail : List Value}

theorem reached_of_if (hm : SpecialForm.of? table m = some .ifForm) (N : Nat)
    (h : ∀ n, N ≤ n → Does table (Eval.ifForm (Eval.evaluate host (n + 1)) tail) a r b out) :
    Reached table (fun levels => Eval.evaluate host levels (.list (.symbol m :: tail))) a r b out :=
  reached_of_form hm N h

theorem reached_of_lambda (hm : SpecialForm.of? table m = some .lambdaForm) (N : Nat)
    (h : ∀ n, N ≤ n → Does table (Eval.lambdaForm (n + 1) tail) a r b out) :
    Reached table (fun levels => Eval.evaluate host levels (.list (.symbol m :: tail))) a r b out :=
  reached_of_form hm N h

theorem reached_of_let (hm : SpecialForm.of? table m = some .letForm) (N : Nat)
    (h : ∀ n, N ≤ n →
      Does table (Eval.letForm (n + 1) (Eval.evaluate host (n + 1)) tail) a r b out) :
    Reached table (fun levels => Eval.evaluate host levels (.list (.symbol m :: tail))) a r b out :=
  reached_of_form hm N h

theorem reached_of_call (hm : SpecialForm.of? table m = none) (N : Nat)
    (h : ∀ n, N ≤ n → Does table
      (Eval.call host n (Eval.evaluate host (n + 1)) (Eval.evaluate host n) m tail) a r b out) :
    Reached table (fun levels => Eval.evaluate host levels (.list (.symbol m :: tail))) a r b out :=
  reached_of_form hm N h

end

end

/-! ## the rules, one by one -/

section
variable {table : Nat} {ev : Value → Run Value} {scopes a b d : List Scope}
  {r : Except EvalError Value} {p q : String}

theorem does_pure {α : Type} (x : α) :
    Does table (pure x) scopes (.ok x) scopes "" := fun _ hw => ends_pure hw x

theorem does_fail {α : Type} (e : EvalError) :
    Does table (Run.fail e : Run α) scopes (.error e) scopes "" := fun _ hw => ends_fail hw e

theorem does_raise {α : Type} {levels : Nat} {e : EvalError} (h : e.levels ≤ levels) :
    Does table (Run.raise levels e : Run α) scopes (.error e) scopes "" :=
  fun _ hw => ends_raise hw h

theorem does_lookup {n : Symbol} {v : Value} (h : Scope.find? n scopes = some v) :
    Does table (Run.lookup (.symbol n)) scopes (.ok v) scopes "" := by
  intro w hw
  have hl := ends_lookup hw n
  rw [h] at hl
  exact hl

theorem does_lookup_unbound {n : Symbol} (h : Scope.find? n scopes = none) :
    Does table (Run.lookup (.symbol n)) scopes (.error (.unbound (.symbol n))) scopes "" := by
  intro w hw
  have hl := ends_lookup hw n
  rw [h] at hl
  exact hl

/-! ### conditionals -/

section
variable {c yes no v : Value} {rest : List Value}

theorem does_ifShort {tail : List Value} (h : tail.length < 2) :
    Does table (Eval.ifForm ev tail) scopes (.error .ifShort) scopes "" := by
  cases tail with
  | nil => exact does_fail _
  | cons c tail =>
    cases tail with
    | nil => exact does_fail _
    | cons yes rest =>
      rw [List.length_cons, List.length_cons] at h
      omega

theorem does_ifError {x : EvalError} (hc : Does table (ev c) a (.error x) b p) :
    Does table (Eval.ifForm ev (c :: yes :: rest)) a (.error x) b p :=
  fun w hw => (hc w hw).bind_error _

theorem does_ifTrue (hc : Does table (ev c) a (.ok (.bool true)) b p)
    (hy : Does table (ev yes) b r d q) :
    Does table (Eval.ifForm ev (c :: yes :: rest)) a r d (p ++ q) := by
  intro w hw
  refine (hc w hw).bind ?_
  exact hy

theorem does_ifFalse (hc : Does table (ev c) a (.ok (.bool false)) b p)
    (hno : Does table (ev no) b r d q) :
    Does table (Eval.ifForm ev (c :: yes :: no :: rest)) a r d (p ++ q) := by
  intro w hw
  refine (hc w hw).bind ?_
  exact hno

theorem does_ifNoElse (hc : Does table (ev c) a (.ok (.bool false)) b p) :
    Does table (Eval.ifForm ev [c, yes]) a (.ok .nil) b p := by
  intro w hw
  refine (hc w hw).bind_silent ?_
  exact does_pure _

theorem does_ifCondition (hc : Does table (ev c) a (.ok v) b p) (hv : ∀ t, v ≠ .bool t) :
    Does table (Eval.ifForm ev (c :: yes :: rest)) a (.error .ifCondition) b p := by
  intro w hw
  refine (hc w hw).bind_silent ?_
  cases v with
  | bool t => exact absurd rfl (hv t)
  | _ => exact does_fail _

end

/-! ### functions -/

theorem notSymbol?_names (names : List Symbol) :
    Eval.notSymbol? (names.map Value.symbol) = none := by
  apply List.find?_eq_none.2
  intro v hv
  obtain ⟨n, _, rfl⟩ := List.mem_map.1 hv
  exact Bool.false_ne_true

theorem notSymbol?_append (names : List Symbol) {x : Value} (hx : ∀ m, x ≠ .symbol m)
    (more : List Value) :
    Eval.notSymbol? (names.map Value.symbol ++ x :: more) = some x := by
  have hnone : (names.map Value.symbol).find? (fun v => v.symbol?.isNone) = none :=
    notSymbol?_names names
  have hsome : x.symbol?.isNone = true := by
    cases x with
    | symbol m => exact absurd rfl (hx m)
    | _ => rfl
  rw [Eval.notSymbol?, List.find?_append, hnone, List.find?_cons, hsome]
  rfl

section
variable {levels : Nat}

theorem does_lambdaParams {x : Value} (hx : ∀ items, x ≠ .list items) (body : Value)
    (rest : List Value) (hl : (EvalError.lambdaParams x).levels ≤ levels) :
    Does table (Eval.lambdaForm levels (x :: body :: rest)) scopes (.error (.lambdaParams x)) scopes
      "" := by
  cases x with
  | list items => exact absurd rfl (hx items)
  | _ => exact does_raise hl

theorem does_lambdaParam {params rest : List Value} {x : Value}
    (h : Eval.notSymbol? params = some x) (body : Value)
    (hl : (EvalError.lambdaParam x).levels ≤ levels) :
    Does table (Eval.lambdaForm levels (.list params :: body :: rest)) scopes
      (.error (.lambdaParam x)) scopes "" := by
  simp only [Eval.lambdaForm, h]
  exact does_raise hl

theorem does_lambda {params rest : List Value} (h : Eval.notSymbol? params = none) (body : Value) :
    Does table (Eval.lambdaForm levels (.list params :: body :: rest)) scopes
      (.ok (.lambda params body)) scopes "" := by
  simp only [Eval.lambdaForm, h]
  exact does_pure _

/-! ### bindings -/

theorem does_letName {x : Value} (hx : ∀ m, x ≠ .symbol m) (rest : List Value)
    (hl : (EvalError.letName x).levels ≤ levels) :
    Does table (Eval.letForm levels ev (x :: rest)) scopes (.error (.letName x)) scopes "" := by
  cases x with
  | symbol m => exact absurd rfl (hx m)
  | _ => exact does_raise hl

theorem does_letError {m : Symbol} {e : Value} {rest : List Value} {x : EvalError}
    (he : Does table (ev e) a (.error x) b p) :
    Does table (Eval.letForm levels ev (.symbol m :: e :: rest)) a (.error x) b p :=
  fun w hw => (he w hw).bind_error _

theorem does_define (m : Symbol) (v : Value) (s : Scope) (o : List Scope) :
    Does table (Run.define (.symbol m) v >>= fun _ => pure Value.nil) (s :: o) (.ok .nil)
      (Frame.put m v s :: o) "" :=
  fun _ hw => (ends_define hw m v).bind_silent (does_pure _)

theorem does_letBind {m : Symbol} {e v : Value} {rest : List Value} {s : Scope} {o : List Scope}
    (he : Does table (ev e) a (.ok v) (s :: o) p) :
    Does table (Eval.letForm levels ev (.symbol m :: e :: rest)) a (.ok .nil)
      (Frame.put m v s :: o) p := by
  intro w hw
  refine (he w hw).bind_silent ?_
  exact does_define m v s o

end

/-! ### calls -/

/-- the levels that a primitive takes: only printing takes any -/
def Primitive.levels (b : Primitive) (args : List Value) : Nat :=
  if b = .println then Value.printLevelsOf false args + 2 else 0

theorem Primitive.run_println {levels : Nat} {args : List Value}
    (h : Primitive.println.levels args ≤ levels) (w : World) :
    Primitive.println.run levels args w = .ok .nil (w.note (.printed (printLine args))) := by
  have hp : print levels args = Run.note (.printed (printLine args)) := if_pos h
  unfold Primitive.run
  rw [hp]
  rfl

theorem Primitive.run_of_lt {levels : Nat} {b : Primitive} {args : List Value}
    (h : levels < b.levels args) (w : World) :
    b.run levels args w = .error (.exhausted .calling) w := by
  by_cases hb : b = .println
  · subst hb
    have hp : print levels args = throw (.exhausted .calling) := if_neg (Nat.not_le_of_lt h)
    unfold Primitive.run
    rw [hp]
    rfl
  · rw [Primitive.levels, if_neg hb] at h
    exact absurd h (Nat.not_lt_zero levels)

theorem does_primitive {levels : Nat} {b : Primitive} {args : List Value}
    (h : b.levels args ≤ levels) :
    Does table (b.run levels args) scopes (b.value args) scopes (b.prints args) := by
  intro w hw
  by_cases hb : b = .println
  · subst hb
    exact ⟨_, Primitive.run_println h w, hw.note _, w.output_note _⟩
  · unfold Primitive.run Primitive.prints
    rw [if_neg hb, if_neg hb]
    cases b.value args with
    | ok v => exact ends_pure hw v
    | error e => exact ends_fail hw e

theorem does_applyPrimitive (host : Host) {levels : Nat} (m : Symbol) {b : Primitive}
    {args : List Value} (h : b.levels args ≤ levels) :
    Does table (Eval.apply host levels ev (.native ⟨m, .primitive b⟩) args) scopes
      (b.value args) scopes (b.prints args) := by
  intro w hw
  refine (ends_note hw (.called ⟨m, .primitive b⟩ args)).bind_quiet ?_
  exact does_primitive h

/-- a function runs in a scope on top of those of its caller -/
theorem does_applyLambda {params args : List Value} {body : Value} {i : Scope}
    {r : Except EvalError Value} {out : String} (levels : Nat)
    (h : Does table (Eval.bindAll levels params args >>= fun _ => ev body) ([] :: scopes) r
      (i :: scopes) out) :
    Does table (Eval.applyLambda levels ev params body args) scopes r scopes out := by
  have hbracket : Does table (Run.push >>= fun _ => Eval.leaving levels
      (Eval.bindAll levels params args >>= fun _ => ev body)) scopes r scopes out :=
    fun w hw => ends_bracket levels hw (h _ hw.push)
  intro w hw
  unfold Eval.applyLambda
  split
  · exact (ends_note hw (.mismatch params body args)).bind_quiet hbracket
  · exact hbracket w hw

theorem does_body {params args : List Value} {body : Value} {i i' : Scope}
    {r : Except EvalError Value} {out : String} {levels : Nat}
    (hb : Scope.bindAll [] params args = (.ok (), i))
    (hbody : Does table (ev body) (i :: scopes) r (i' :: scopes) out) :
    Does table (Eval.bindAll levels params args >>= fun _ => ev body) ([] :: scopes) r
      (i' :: scopes) out := by
  intro w hw
  have h := ends_bindAll levels params args hw (by rw [hb]; exact nofun)
  rw [hb] at h
  exact h.bind_quiet hbody

theorem does_body_unfit {params args : List Value} (body : Value) {i : Scope} {x : EvalError}
    {levels : Nat} (hb : Scope.bindAll [] params args = (.error x, i)) (hl : x.levels ≤ levels) :
    Does table (Eval.bindAll levels params args >>= fun _ => ev body) ([] :: scopes) (.error x)
      (i :: scopes) "" := by
  intro w hw
  have hx : ∀ y, (Scope.bindAll [] params args).1 = .error y → y.levels ≤ levels := by
    intro y hy
    rw [hb] at hy
    cases hy
    exact hl
  have h := ends_bindAll levels params args hw hx
  rw [hb] at h
  exact h.bind_error _

section
variable (host : Host) (levels : Nat) {part : Value → Run Value} {n : Symbol} {f : Value}
  {tail args : List Value}

theorem does_headUnbound (h : Scope.find? n scopes = none) :
    Does table (Eval.call host levels part ev n tail) scopes (.error (.unbound (.symbol n)))
      scopes "" :=
  fun w hw => (does_lookup_unbound h w hw).bind_error _

theorem does_notCallable (h : Scope.find? n scopes = some f) (hf : f.isFunction = false)
    (hl : (EvalError.notCallable n f).levels ≤ levels + 2) :
    Does table (Eval.call host levels part ev n tail) scopes (.error (.notCallable n f)) scopes
      "" := by
  intro w hw
  refine (does_lookup h w hw).bind_quiet ?_
  rw [hf]
  exact does_raise hl

theorem does_argumentError {x : EvalError} (h : Scope.find? n a = some f) (hf : f.isFunction = true)
    (ha : Does table (Eval.arguments part tail) a (.error x) b p) :
    Does table (Eval.call host levels part ev n tail) a (.error x) b p := by
  intro w hw
  refine (does_lookup h w hw).bind_quiet ?_
  intro w₁ hw₁
  rw [if_pos hf]
  exact (ha w₁ hw₁).bind_error _

theorem does_call (h : Scope.find? n a = some f) (hf : f.isFunction = true)
    (ha : Does table (Eval.arguments part tail) a (.ok args) b p)
    (happ : Does table (Eval.apply host levels ev f args) b r d q) :
    Does table (Eval.call host levels part ev n tail) a r d (p ++ q) := by
  intro w hw
  refine (does_lookup h w hw).bind_quiet ?_
  intro w₁ hw₁
  rw [if_pos hf]
  refine (ha w₁ hw₁).bind ?_
  intro w₂ hw₂
  exact (ends_note hw₂ (.applying n args)).bind_quiet happ

end

end

section
variable {host : Host} {table : Nat} {n : Symbol} {tail args : List Value} {s s₁ : Scope}
  {o : List Scope} {p : String}

theorem reached_of_primitive {m : Symbol} {b : Primitive} (hn : SpecialForm.of? table n = none)
    (h : Scope.find? n (s :: o) = some (.native ⟨m, .primitive b⟩))
    (ha : Reached table (fun levels => Eval.arguments (Eval.evaluate host levels) tail) (s :: o)
      (.ok args) (s₁ :: o) p) :
    Reached table (fun levels => Eval.evaluate host levels (.list (.symbol n :: tail))) (s :: o)
      (b.value args) (s₁ :: o) (p ++ b.prints args) := by
  obtain ⟨N, hN⟩ := ha
  apply reached_of_call hn (max N (b.levels args))
  intro k hk
  exact does_call host k h rfl (hN (k + 1) (by omega)) (does_applyPrimitive host m (by omega))

theorem reached_of_unfit {params : List Value} {body : Value} {x : EvalError} {i : Scope}
    (hn : SpecialForm.of? table n = none) (h : Scope.find? n (s :: o) = some (.lambda params body))
    (ha : Reached table (fun levels => Eval.arguments (Eval.evaluate host levels) tail) (s :: o)
      (.ok args) (s₁ :: o) p)
    (hb : Scope.bindAll [] params args = (.error x, i)) :
    Reached table (fun levels => Eval.evaluate host levels (.list (.symbol n :: tail))) (s :: o)
      (.error x) (s₁ :: o) (p ++ "") := by
  obtain ⟨N, hN⟩ := ha
  apply reached_of_call hn (max N x.levels)
  intro k hk
  refine does_call host k h rfl (hN (k + 1) (by omega)) ?_
  exact does_applyLambda k (does_body_unfit body hb (by omega))

end

-- how many levels are enough comes from the parts of the derivation
mutual

theorem Evaluates.reached (host : Host) {table : Nat} {e : Value} {s : Scope} {o : List Scope}
    {r : Except EvalError Value} {s' : Scope} {out : String} :
    Evaluates table e s o r s' out →
      Reached table (fun levels => Eval.evaluate host levels e) (s :: o) r (s' :: o) out
  | .literal hs hl => by
    apply reached_of_step 0
    intro n _
    cases e with
    | symbol m => exact absurd rfl (hs m)
    | list items => exact absurd rfl (hl items)
    | _ => exact does_pure _
  | .name h => reached_of_step 0 fun _ _ => does_lookup h
  | .unbound h => reached_of_step 0 fun _ _ => does_lookup_unbound h
  | .emptyCall => reached_of_step 0 fun _ _ => does_fail _
  | .headNotSymbol (x := x) h => by
    apply reached_of_step (EvalError.headNotSymbol x).levels
    intro n hn
    have hl : (EvalError.headNotSymbol x).levels ≤ n + 2 := by omega
    cases x with
    | symbol m => exact absurd rfl (h m)
    | _ => exact does_raise hl
  | .ifShort hm h => reached_of_if hm 0 fun _ _ => does_ifShort h
  | .ifError hm hc => by
    obtain ⟨N, hN⟩ := hc.reached host
    exact reached_of_if hm N fun n hn => does_ifError (hN (n + 1) (by omega))
  | .ifCondition hm hc hv => by
    obtain ⟨N, hN⟩ := hc.reached host
    exact reached_of_if hm N fun n hn => does_ifCondition (hN (n + 1) (by omega)) hv
  | .ifTrue hm hc hy => by
    obtain ⟨N₁, h₁⟩ := hc.reached host
    obtain ⟨N₂, h₂⟩ := hy.reached host
    apply reached_of_if hm (max N₁ N₂)
    exact fun n hn => does_ifTrue (h₁ (n + 1) (by omega)) (h₂ (n + 1) (by omega))
  | .ifFalse hm hc hno => by
    obtain ⟨N₁, h₁⟩ := hc.reached host
    obtain ⟨N₂, h₂⟩ := hno.reached host
    apply reached_of_if hm (max N₁ N₂)
    exact fun n hn => does_ifFalse (h₁ (n + 1) (by omega)) (h₂ (n + 1) (by omega))
  | .ifNoElse hm hc => by
    obtain ⟨N, hN⟩ := hc.reached host
    exact reached_of_if hm N fun n hn => does_ifNoElse (hN (n + 1) (by omega))
  | .lambdaWithoutParams hm => reached_of_lambda hm 0 fun _ _ => does_fail _
  | .lambdaWithoutBody hm => reached_of_lambda hm 0 fun _ _ => does_fail _
  | .lambdaParams (x := x) hm hx =>
    reached_of_lambda hm (EvalError.lambdaParams x).levels fun _ hn =>
      does_lambdaParams hx _ _ (Nat.le_succ_of_le hn)
  | .lambdaParam (p := p) hm hp =>
    reached_of_lambda hm (EvalError.lambdaParam p).levels fun _ hn =>
      does_lambdaParam (notSymbol?_append _ hp _) _ (Nat.le_succ_of_le hn)
  | .lambda hm => reached_of_lambda hm 0 fun _ _ => does_lambda (notSymbol?_names _) _
  | .letWithoutName hm => reached_of_let hm 0 fun _ _ => does_fail _
  | .letName (x := x) hm hx =>
    reached_of_let hm (EvalError.letName x).levels fun _ hn =>
      does_letName hx _ (Nat.le_succ_of_le hn)
  | .letWithoutValue hm => reached_of_let hm 0 fun _ _ => does_fail _
  | .letError hm he => by
    obtain ⟨N, hN⟩ := he.reached host
    exact reached_of_let hm N fun n hn => does_letError (hN (n + 1) (by omega))
  | .letBind hm he => by
    obtain ⟨N, hN⟩ := he.reached host
    exact reached_of_let hm N fun n hn => does_letBind (hN (n + 1) (by omega))
  | .headUnbound hm h => reached_of_call hm 0 fun n _ => does_headUnbound host n h
  | .notCallable (n := m) (v := v) hm h hv =>
    reached_of_call hm (EvalError.notCallable m v).levels fun n hn =>
      does_notCallable host n h hv (Nat.le_add_right_of_le hn)
  | .argumentError hm h hf ha => by
    obtain ⟨N, hN⟩ := ha.reached host
    exact reached_of_call hm N fun n hn => does_argumentError host n h hf (hN (n + 1) (by omega))
  | .primitive hm h ha => reached_of_primitive hm h (ha.reached host)
  | .unfitParam (p := p) hm h ha hb => by
    rw [← String.append_empty (s := p)]
    exact reached_of_unfit hm h (ha.reached host) hb
  | .call hm h ha hb hbody => by
    obtain ⟨N₁, h₁⟩ := ha.reached host
    obtain ⟨N₂, h₂⟩ := hbody.reached host
    apply reached_of_call hm (max N₁ N₂)
    intro n hn
    have happ := does_applyLambda n (does_body hb (h₂ n (by omega)))
    exact does_call host n h rfl (h₁ (n + 1) (by omega)) happ

theorem EvaluatesAll.reached (host : Host) {table : Nat} {es : List Value} {s : Scope}
    {o : List Scope} {r : Except EvalError (List Value)} {s' : Scope} {out : String} :
    EvaluatesAll table es s o r s' out →
      Reached table (fun levels => Eval.arguments (Eval.evaluate host levels) es) (s :: o) r
        (s' :: o) out
  | .nil => ⟨0, fun _ _ => does_pure _⟩
  | .fails he => by
    obtain ⟨N, hN⟩ := he.reached host
    exact ⟨N, fun n hn w hw => (hN n hn w hw).bind_error _⟩
  | .failsLater he hes => by
    obtain ⟨N₁, h₁⟩ := he.reached host
    obtain ⟨N₂, h₂⟩ := hes.reached host
    refine ⟨max N₁ N₂, ?_⟩
    intro n hn w hw
    refine (h₁ n (by omega) w hw).bind ?_
    exact fun w₁ hw₁ => (h₂ n (by omega) w₁ hw₁).bind_error _
  | .cons he hes => by
    obtain ⟨N₁, h₁⟩ := he.reached host
    obtain ⟨N₂, h₂⟩ := hes.reached host
    refine ⟨max N₁ N₂, ?_⟩
    intro n hn w hw
    refine (h₁ n (by omega) w hw).bind ?_
    exact fun w₁ hw₁ => (h₂ n (by omega) w₁ hw₁).bind_silent (does_pure _)

end

theorem EvaluatesForms.reached (host : Host) {table : Nat} {last : Value} {es : List Value}
    {s : Scope} {o : List Scope} {r : Except EvalError Value} {s' : Scope} {out : String}
    (h : EvaluatesForms table last es s o r s' out) :
    Reached table (fun levels => Eval.formsFrom (Eval.evaluate host levels) last es) (s :: o) r
      (s' :: o) out := by
  induction h with
  | nil => exact ⟨0, fun _ _ => does_pure _⟩
  | fails he =>
    obtain ⟨N, hN⟩ := he.reached host
    exact ⟨N, fun n hn w hw => (hN n hn w hw).bind_error _⟩
  | cons he _ ih =>
    obtain ⟨N₁, h₁⟩ := he.reached host
    obtain ⟨N₂, h₂⟩ := ih
    refine ⟨max N₁ N₂, ?_⟩
    intro n hn w hw
    refine (h₁ n (by omega) w hw).bind ?_
    exact h₂ n (by omega)

end Lisplet
