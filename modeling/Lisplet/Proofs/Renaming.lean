import Mathlib
import Lisplet.Proofs.Scopes

/-!
# Renamed values and matching frames

Two runs are compared here by what they work on.  The values of the second are those of the first
with other symbols in them (`Value.rename`); with the identity for a renaming they are the same.
Natives stay what they are.

Frames match (`FrameStack.Matched`) if they have the same handles and parents, and bindings that are
related, frame by frame.  How bindings are related is left open, so frames may differ in more than
names.  Every operation on frames takes matching stacks to matching stacks, whether or not they are
proper.
-/

namespace Lisplet

open FrameStack

/-! ## values -/

namespace Value

mutual
def rename (r : Symbol → Symbol) : Value → Value
  | .symbol n => .symbol (r n)
  | .list items => .list (renameAll r items)
  | .lambda params body => .lambda (renameAll r params) (rename r body)
  | v => v

def renameAll (r : Symbol → Symbol) : List Value → List Value
  | [] => []
  | v :: vs => rename r v :: renameAll r vs
end

theorem renameAll_eq_map (r : Symbol → Symbol) (vs : List Value) :
    renameAll r vs = vs.map (rename r) := by
  induction vs with
  | nil => rfl
  | cons v vs ih => rw [renameAll, ih, List.map_cons]

theorem rename_list (r : Symbol → Symbol) (items : List Value) :
    rename r (.list items) = .list (items.map (rename r)) := by
  rw [rename, renameAll_eq_map]

theorem rename_lambda (r : Symbol → Symbol) (params : List Value) (body : Value) :
    rename r (.lambda params body) = .lambda (params.map (rename r)) (rename r body) := by
  rw [rename, renameAll_eq_map]

mutual
theorem rename_id : (v : Value) → rename id v = v
  | .list items => by rw [rename, renameAll_id items]
  | .lambda params body => by rw [rename, renameAll_id params, rename_id body]
  | .symbol _ | .nil | .bool _ | .int _ | .str _ | .native _ | .foreign _ => by
    rw [rename]
    all_goals simp

theorem renameAll_id : (vs : List Value) → renameAll id vs = vs
  | [] => by rw [renameAll]
  | v :: vs => by rw [renameAll, rename_id v, renameAll_id vs]
end

theorem map_rename_id (vs : List Value) : vs.map (rename id) = vs := by
  rw [← renameAll_eq_map, renameAll_id]

mutual
/-- a symbol takes as many levels as any other -/
theorem inspectLevels_rename (r : Symbol → Symbol) :
    (v : Value) → (rename r v).inspectLevels = v.inspectLevels
  | .list items => by
    rw [rename, inspectLevels, inspectLevels, inspectLevelsOf_renameAll r items]
  | .lambda params body => by
    rw [rename, inspectLevels, inspectLevels, inspectLevelsOf_renameAll r params,
      inspectLevels_rename r body]
  | .symbol _ | .nil | .bool _ | .int _ | .str _ | .native _ | .foreign _ => by
    rw [rename]
    all_goals simp [inspectLevels]

theorem inspectLevelsOf_renameAll (r : Symbol → Symbol) :
    (vs : List Value) → inspectLevelsOf (renameAll r vs) = inspectLevelsOf vs
  | [] => by rw [renameAll]
  | v :: vs => by
    rw [renameAll, inspectLevelsOf, inspectLevelsOf, inspectLevels_rename r v,
      inspectLevelsOf_renameAll r vs]
end

mutual
theorem printLevels_rename (b : Bool) (r : Symbol → Symbol) :
    (v : Value) → (rename r v).printLevels b = v.printLevels b
  | .list items => by
    rw [rename, printLevels, printLevels, printLevelsOf_renameAll b r items]
  | .lambda params body => by
    rw [rename, printLevels, printLevels, inspectLevelsOf_renameAll r params]
  | .symbol _ | .nil | .bool _ | .int _ | .str _ | .native _ | .foreign _ => by
    rw [rename]
    all_goals simp [printLevels]

theorem printLevelsOf_renameAll (b : Bool) (r : Symbol → Symbol) :
    (vs : List Value) → printLevelsOf b (renameAll r vs) = printLevelsOf b vs
  | [] => by rw [renameAll]
  | v :: vs => by
    rw [renameAll, printLevelsOf, printLevelsOf, printLevels_rename b r v,
      printLevelsOf_renameAll b r vs]
end

theorem isNone_symbol?_rename (r : Symbol → Symbol) (v : Value) :
    (rename r v).symbol?.isNone = v.symbol?.isNone := by
  cases v <;> rfl

theorem isFunction_rename (r : Symbol → Symbol) (v : Value) :
    (rename r v).isFunction = v.isFunction := by
  cases v <;> rfl

end Value

theorem of?_id (table : Nat) (n : Symbol) :
    SpecialForm.of? table (id n) = SpecialForm.of? table n := rfl

theorem notSymbol?_rename (r : Symbol → Symbol) (vs : List Value) :
    Eval.notSymbol? (vs.map (Value.rename r)) = (Eval.notSymbol? vs).map (Value.rename r) := by
  have hs : (fun v : Value => v.symbol?.isNone) ∘ Value.rename r = fun v => v.symbol?.isNone :=
    funext fun v => Value.isNone_symbol?_rename r v
  unfold Eval.notSymbol?
  rw [List.find?_map, hs]

/-! ## failures and events -/

def EvalError.rename (r : Symbol → Symbol) : EvalError → EvalError
  | .headNotSymbol v => .headNotSymbol (v.rename r)
  | .unbound v => .unbound (v.rename r)
  | .notCallable n v => .notCallable (r n) (v.rename r)
  | .notFunction v => .notFunction (v.rename r)
  | .undefinable v => .undefinable (v.rename r)
  | .lambdaParams v => .lambdaParams (v.rename r)
  | .lambdaParam v => .lambdaParam (v.rename r)
  | .letName v => .letName (v.rename r)
  | e => e

def Failure.rename (r : Symbol → Symbol) : Failure → Failure
  | .eval e => .eval (e.rename r)
  | e => e

/-- the other symbols are worded with as many levels -/
theorem EvalError.levels_rename (r : Symbol → Symbol) (e : EvalError) :
    (e.rename r).levels = e.levels := by
  cases e with
  | headNotSymbol v => exact Value.printLevels_rename true r v
  | notCallable n v => exact Value.printLevels_rename true r v
  | notFunction v => exact Value.inspectLevels_rename r v
  | undefinable v => exact Value.inspectLevels_rename r v
  | lambdaParams v => exact Value.inspectLevels_rename r v
  | lambdaParam v => exact Value.inspectLevels_rename r v
  | letName v => exact Value.inspectLevels_rename r v
  | _ => rfl

theorem EvalError.overrun_rename (r : Symbol → Symbol) (e : EvalError) :
    (e.rename r).overrun = e.overrun := by
  cases e <;> rfl

theorem EvalError.rename_id (e : EvalError) : e.rename id = e := by
  cases e <;> simp [EvalError.rename, Value.rename_id]

theorem Failure.rename_id (e : Failure) : e.rename id = e := by
  cases e with
  | eval e => rw [Failure.rename, EvalError.rename_id]
  | _ => rfl

/-- an event of an evaluation and the same event with other symbols; a line is printed anew -/
inductive Event.Renamed (r : Symbol → Symbol) : Event → Event → Prop
  | evaluating (n : Nat) : Renamed r (.evaluating n) (.evaluating n)
  | applying (head : Symbol) (args : List Value) :
      Renamed r (.applying head args) (.applying (r head) (args.map (Value.rename r)))
  | mismatch (params : List Value) (body : Value) (args : List Value) :
      Renamed r (.mismatch params body args)
        (.mismatch (params.map (Value.rename r)) (body.rename r) (args.map (Value.rename r)))
  | called (f : Native) (args : List Value) :
      Renamed r (.called f args) (.called f (args.map (Value.rename r)))
  | printed (args : List Value) :
      Renamed r (.printed (Primitive.printLine args))
        (.printed (Primitive.printLine (args.map (Value.rename r))))

theorem Event.Renamed.eq_of_id {e e' : Event} (h : Event.Renamed id e e') : e' = e := by
  cases h <;> simp only [Value.map_rename_id, Value.rename_id, id]

theorem events_eq_of_id {es es' : List Event} (h : List.Forall₂ (Event.Renamed id) es es') :
    es' = es := by
  induction h with
  | nil => rfl
  | cons he _ ih => rw [he.eq_of_id, ih]

/-! ## primitives do not look at symbols -/

namespace Primitive

theorem integers_rename (r : Symbol → Symbol) (p : Primitive) (args : List Value) :
    p.integers (args.map (Value.rename r)) = p.integers args := by
  cases args with
  | nil => rfl
  | cons a args =>
    cases args with
    | nil => cases a <;> rfl
    | cons b args =>
      cases args with
      | nil => cases a <;> cases b <;> rfl
      | cons c args => simp [integers]

theorem boolean_rename (r : Symbol → Symbol) (p : Primitive) (args : List Value) :
    p.boolean (args.map (Value.rename r)) = p.boolean args := by
  cases args with
  | nil => rfl
  | cons a args =>
    cases args with
    | nil => cases a <;> rfl
    | cons b args => simp [boolean]

theorem value_rename (r : Symbol → Symbol) (p : Primitive) (args : List Value) :
    p.value (args.map (Value.rename r)) = p.value args := by
  cases p <;> simp only [value, arithmetic, comparison, integers_rename, boolean_rename]

end Primitive

/-! ## matching frames -/

/-- the same handles and parents; the bindings of each frame are related -/
structure FrameStack.Matched (V : Scope → Scope → Prop) (s t : FrameStack) : Prop where
  current : t.current = s.current
  frames : ∀ h, Option.Rel
    (fun f g : Frame => g.parent = f.parent ∧ V f.vars g.vars) (s.frame? h) (t.frame? h)

theorem FrameStack.findFrom_error {frames : Array Frame} {bound : Frame → Bool} {steps h : Nat}
    {e : Failure} (he : findFrom frames bound steps h = .error e) :
    ∃ k, e = .fault (.noFrame k) := by
  induction steps generalizing h with
  | zero => cases he
  | succ steps ih =>
    rw [findFrom] at he
    split at he
    · cases he
      exact ⟨h, rfl⟩
    · split at he
      · cases he
      · split at he
        · cases he
        · exact ih he

namespace FrameStack.Matched

variable {V : Scope → Scope → Prop} {s t : FrameStack} (h : s.Matched V t)
include h

theorem frame_cases (k : Nat) : (s.frame? k = none ∧ t.frame? k = none) ∨
    ∃ f g, s.frame? k = some f ∧ t.frame? k = some g ∧ g.parent = f.parent ∧ V f.vars g.vars := by
  have hr := h.frames k
  generalize s.frame? k = f, t.frame? k = g at hr ⊢
  cases hr with
  | none => exact .inl ⟨rfl, rfl⟩
  | some hfg => exact .inr ⟨_, _, rfl, rfl, hfg⟩

theorem imp {V' : Scope → Scope → Prop}
    (hV : ∀ k f g, s.frame? k = some f → t.frame? k = some g → V f.vars g.vars → V' f.vars g.vars) :
    s.Matched V' t where
  current := h.current
  frames := by
    intro k
    rcases h.frame_cases k with ⟨hs, ht⟩ | ⟨f, g, hs, ht, hp, hv⟩
    · rw [hs, ht]
      exact .none
    · rw [hs, ht]
      exact .some ⟨hp, hV k f g hs ht hv⟩

theorem depth : t.depth = s.depth := by
  have hnone : ∀ k, s.frame? k = none ↔ t.frame? k = none := by
    intro k
    rcases h.frame_cases k with ⟨hs, ht⟩ | ⟨f, g, hs, ht, _⟩
    · rw [hs, ht]
    · rw [hs, ht]
      simp
  have hle : ∀ k, s.depth ≤ k ↔ t.depth ≤ k := by
    intro k
    rw [← s.frame?_eq_none_iff, ← t.frame?_eq_none_iff]
    exact hnone k
  exact Nat.le_antisymm ((hle _).1 (Nat.le_refl _)) ((hle _).2 (Nat.le_refl _))

theorem push (hempty : V [] []) : s.push.Matched V t.push where
  current := by rw [current_push, current_push, h.depth]
  frames := by
    intro k
    rw [frame?_push, frame?_push, h.depth]
    split
    · exact .some ⟨by rw [h.current], hempty⟩
    · exact h.frames k

theorem bindAt {n m : Symbol} {v u : Value}
    (hput : ∀ b b', V b b' → V (Frame.put n v b) (Frame.put m u b')) (k : Nat) :
    (s.bindAt k n v).Matched V (t.bindAt k m u) where
  current := h.current
  frames := by
    intro l
    rw [frame?_bindAt, frame?_bindAt]
    split
    · rcases h.frame_cases l with ⟨hs, ht⟩ | ⟨f, g, hs, ht, hp, hv⟩
      · rw [hs, ht]
        exact .none
      · rw [hs, ht]
        exact .some ⟨hp, hput _ _ hv⟩
    · exact h.frames l

theorem unwind (k : Nat) : (s.unwind k).Matched V (t.unwind k) where
  current := rfl
  frames := by
    intro l
    rw [frame?_unwind, frame?_unwind]
    split
    · exact h.frames l
    · exact .none

theorem pop : (s.pop = .error (.fault .rootPop) ∧ t.pop = .error (.fault .rootPop)) ∨
    ∃ s' t', s.pop = .ok s' ∧ t.pop = .ok t' ∧ s'.Matched V t' := by
  have hdepth := h.depth
  by_cases hd : s.depth ≤ 1
  · exact .inl ⟨s.pop_of_depth_le_one hd, t.pop_of_depth_le_one (by omega)⟩
  · have hd' : 1 < s.depth := Nat.lt_of_not_le hd
    obtain ⟨f, g, hf, hg, hp, _⟩ := (h.frame_cases (s.depth - 1)).resolve_left fun hnone => by
      have hle := (s.frame?_eq_none_iff _).1 hnone.1
      omega
    rw [← hdepth] at hg
    refine .inr ⟨_, _, pop_of_top hd' hf, pop_of_top (by omega) hg,
      congrArg (fun p => p.getD 0) hp, ?_⟩
    intro k
    show Option.Rel _ (s.popped.frame? k) (t.popped.frame? k)
    rw [frame?_popped, frame?_popped, hdepth]
    split
    · exact h.frames k
    · exact .none

variable {r : Symbol → Symbol}

theorem define (name v u : Value) :
    (∃ n, name = .symbol n ∧ s.define name v = .ok (s.bindAt s.current n v) ∧
      t.define (name.rename r) u = .ok (t.bindAt t.current (r n) u)) ∨
    ∃ e, s.define name v = .error e ∧ t.define (name.rename r) u = .error (e.rename r) := by
  have hsize : t.frames.size = s.frames.size := h.depth
  cases name with
  | symbol n =>
    by_cases hc : s.current < s.frames.size
    · have hc' : t.current < t.frames.size := by
        rw [h.current, hsize]
        exact hc
      exact .inl ⟨n, rfl, if_pos hc, if_pos hc'⟩
    · have hc' : ¬ t.current < t.frames.size := by
        rw [h.current, hsize]
        exact hc
      refine .inr ⟨.fault (.noFrame s.current), if_neg hc, ?_⟩
      rw [← h.current]
      exact if_neg hc'
  | _ => exact .inr ⟨_, rfl, rfl⟩

theorem findFrom {bound bound' : Frame → Bool}
    (hb : ∀ f g : Frame, V f.vars g.vars → bound' g = bound f) (steps k : Nat) :
    FrameStack.findFrom t.frames bound' steps k = FrameStack.findFrom s.frames bound steps k := by
  induction steps generalizing k with
  | zero => rfl
  | succ steps ih =>
    rw [FrameStack.findFrom, FrameStack.findFrom]
    rcases h.frame_cases k with ⟨hs, ht⟩ | ⟨f, g, hs, ht, hp, hv⟩
    · have hs' : s.frames[k]? = none := hs
      have ht' : t.frames[k]? = none := ht
      rw [hs', ht']
    · have hs' : s.frames[k]? = some f := hs
      have ht' : t.frames[k]? = some g := ht
      simp only [hs', ht', hb f g hv, hp]
      cases f.parent with
      | none => rfl
      | some p => simp only [ih p]

variable {n : Symbol} (hget : ∀ b b', V b b' → b'.lookup (r n) = (b.lookup n).map (Value.rename r))
include hget

theorem find : t.find (.symbol (r n)) = s.find (.symbol n) := by
  have hsize : t.frames.size = s.frames.size := h.depth
  unfold FrameStack.find
  rw [hsize, h.current]
  apply h.findFrom
  intro f g hfg
  show (g.vars.lookup (r n)).isSome = (f.vars.lookup n).isSome
  rw [hget _ _ hfg, Option.isSome_map]

/-- what is found is found in related bindings -/
theorem lookup :
    (∃ v b b', V b b' ∧ b.lookup n = some v ∧ s.lookup (.symbol n) = .ok v ∧
      t.lookup (.symbol (r n)) = .ok (v.rename r)) ∨
    ∃ e, s.lookup (.symbol n) = .error e ∧ t.lookup (.symbol (r n)) = .error (e.rename r) := by
  have hfind := h.find hget
  cases hs : s.find (.symbol n) with
  | error e =>
    obtain ⟨k, rfl⟩ := findFrom_error hs
    rw [hs] at hfind
    refine .inr ⟨.fault (.noFrame k), ?_, ?_⟩
    · unfold FrameStack.lookup
      rw [hs]
      rfl
    · unfold FrameStack.lookup
      rw [hfind]
      rfl
  | ok found =>
    rw [hs] at hfind
    cases found with
    | none => exact .inr ⟨_, lookup_of_find_none hs, lookup_of_find_none hfind⟩
    | some k =>
      rw [lookup_of_find_some hs, lookup_of_find_some hfind]
      rcases h.frame_cases k with ⟨hs, ht⟩ | ⟨f, g, hs, ht, _, hv⟩
      · have hs' : s.frames[k]? = none := hs
        have ht' : t.frames[k]? = none := ht
        refine .inr ⟨.eval (.unbound (.symbol n)), ?_, ?_⟩
        · simp only [valueAt, hs']
        · simp only [valueAt, ht']
          rfl
      · have hs' : s.frames[k]? = some f := hs
        have ht' : t.frames[k]? = some g := ht
        have hl : g.get? (r n) = (f.get? n).map (Value.rename r) := hget _ _ hv
        cases hf : f.get? n with
        | none =>
          rw [hf] at hl
          refine .inr ⟨.eval (.unbound (.symbol n)), ?_, ?_⟩
          · simp only [valueAt, hs', hf]
          · simp only [valueAt, ht', hl]
            rfl
        | some v =>
          rw [hf] at hl
          refine .inl ⟨v, _, _, hv, hf, ?_, ?_⟩
          · simp only [valueAt, hs', hf]
          · simp only [valueAt, ht', hl]
            rfl

end FrameStack.Matched

end Lisplet
