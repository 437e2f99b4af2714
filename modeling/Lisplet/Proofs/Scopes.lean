import Mathlib
import Lisplet.Proofs.Provenance

/-!
# Frames as scopes

A proper stack of frames is a stack of scopes: only the bindings matter, since handles and parents
are in order.  The operations on frames are simple ones on scopes.

* `Proper.lookup_eq`  a name has the value it has in the innermost scope that binds it;
* `scopes_push`       a new scope is put on top;
* `scopes_popped`     the top scope is dropped;
* `scopes_bindAt`     binding in the current frame changes the top scope.

`Ends` says of a run from a world what it ends with: a value or an error, the scopes that are left,
and what was printed.  It goes through sequences (`Ends.bind`) and brackets (`ends_bracket`).
-/

namespace Lisplet

open FrameStack Sequence

abbrev Scope := List (Symbol × Value)

namespace Scope

/-- the value of a name in the innermost scope that has one -/
def find? (n : Symbol) : List Scope → Option Value
  | [] => none
  | scope :: outer => (scope.lookup n).or (find? n outer)

/-- parameters are bound to arguments from left to right, as far as both go and there are symbols to
bind -/
def bindAll : Scope → List Value → List Value → Except EvalError Unit × Scope
  | scope, .symbol n :: params, a :: args => bindAll (Frame.put n a scope) params args
  | scope, p :: _, _ :: _ => (.error (.undefinable p), scope)
  | scope, _, _ => (.ok (), scope)

end Scope

namespace FrameStack

/-- the scopes of a stack, innermost first -/
def scopes (s : FrameStack) : List Scope := (s.frames.toList.map Frame.vars).reverse

def scopesBelow (s : FrameStack) (h : Nat) :
    List Scope := ((s.frames.toList.take h).map Frame.vars).reverse

section
variable {s : FrameStack}

theorem length_scopes (s : FrameStack) : s.scopes.length = s.depth := by
  simp [scopes, depth]

theorem scopes_push (s : FrameStack) : s.push.scopes = [] :: s.scopes := by
  simp [scopes, push]

theorem scopes_popped (s : FrameStack) : s.popped.scopes = s.scopes.tail := by
  simp only [scopes, popped, Array.toList_pop, List.map_dropLast, List.tail_reverse]

theorem mem_scopes {h : Nat} {f : Frame} (hf : s.frame? h = some f) : f.vars ∈ s.scopes := by
  rw [scopes, List.mem_reverse]
  exact List.mem_map_of_mem (Array.mem_toList_iff.2 (Array.mem_of_getElem? hf))

theorem scopesBelow_succ {h : Nat} {f : Frame} (hf : s.frame? h = some f) :
    s.scopesBelow (h + 1) = f.vars :: s.scopesBelow h := by
  have hl : s.frames.toList[h]? = some f := by
    rw [Array.getElem?_toList]
    exact hf
  rw [scopesBelow, List.take_add_one, hl]
  simp [scopesBelow]

theorem Proper.scopes_eq (hs : s.Proper) : s.scopes = s.scopesBelow (s.current + 1) := by
  have ht : s.current + 1 = s.frames.toList.length := by
    rw [Array.length_toList]
    exact hs.top
  rw [scopesBelow, ht, List.take_length, scopes]

theorem modify_top (below : List Frame) (f : Frame) (g : Frame → Frame) :
    (below ++ [f]).modify below.length g = below ++ [g f] := by
  induction below with
  | nil => rfl
  | cons a below ih =>
    rw [List.cons_append, List.length_cons, List.modify_succ_cons, ih, List.cons_append]

theorem scopes_bindAt {inner : Scope} {outer : List Scope} (hs : s.Proper)
    (hsc : s.scopes = inner :: outer) (n : Symbol) (v : Value) :
    (s.bindAt s.current n v).scopes = Frame.put n v inner :: outer := by
  have hl : s.frames.toList.map Frame.vars = outer.reverse ++ [inner] := by
    rw [← List.reverse_cons, ← hsc, scopes, List.reverse_reverse]
  obtain ⟨below, top, hfs, hbelow, htop⟩ := List.map_eq_append_iff.1 hl
  obtain ⟨f, rfl, hf⟩ : ∃ f, top = [f] ∧ f.vars = inner := by
    cases top with
    | nil => cases htop
    | cons f fs =>
      cases fs with
      | nil =>
        cases htop
        exact ⟨f, rfl, rfl⟩
      | cons g fs => cases htop
  have hc : s.current = below.length := by
    have ht : s.current + 1 = s.frames.toList.length := by
      rw [Array.length_toList]
      exact hs.top
    rw [hfs, List.length_append, List.length_singleton] at ht
    omega
  have hm : (s.bindAt s.current n v).frames.toList = below ++ [f.bind n v] := by
    show (s.frames.modify s.current fun f => f.bind n v).toList = _
    rw [Array.toList_modify, hfs, hc, modify_top]
  rw [scopes, hm, List.map_append, hbelow, ← hf, List.reverse_append, List.reverse_reverse]
  rfl

/-! ## looking up -/

section
variable {n : Symbol} {f : Frame} {h : Nat} (hf : s.frame? h = some f) (steps : Nat)
include hf

theorem findFrom_of_bound {v : Value} (hg : f.get? n = some v) :
    findFrom s.frames (binds (.symbol n)) (steps + 1) h = .ok (some h) ∧
      s.valueAt h (.symbol n) = .ok v := by
  have he : s.frames[h]? = some f := hf
  have hb : binds (.symbol n) f = true := by
    rw [binds, hg]
    rfl
  refine ⟨?_, ?_⟩
  · simp only [findFrom, he, hb, if_true]
  · simp only [valueAt, he, hg]

theorem findFrom_of_not_bound (hg : f.get? n = none) :
    findFrom s.frames (binds (.symbol n)) (steps + 1) h
      = f.parent.elim (.ok none) (findFrom s.frames (binds (.symbol n)) steps) := by
  have he : s.frames[h]? = some f := hf
  have hb : binds (.symbol n) f = false := by
    rw [binds, hg]
    rfl
  simp only [findFrom, he, hb, Bool.false_eq_true, if_false]
  cases f.parent with
  | none => rfl
  | some p => rfl

end

theorem Proper.findFrom_cases (hs : s.Proper) (n : Symbol) {steps h : Nat} (hsteps : h < steps)
    (hh : h < s.depth) :
    (∃ k v, findFrom s.frames (binds (.symbol n)) steps h = .ok (some k) ∧
      s.valueAt k (.symbol n) = .ok v ∧ Scope.find? n (s.scopesBelow (h + 1)) = some v) ∨
    findFrom s.frames (binds (.symbol n)) steps h = .ok none ∧
      Scope.find? n (s.scopesBelow (h + 1)) = none := by
  -- the search goes down by one handle a step, as the list of scopes does
  induction h using Nat.strong_induction_on generalizing steps with
  | _ h ih =>
    obtain ⟨steps, rfl⟩ : ∃ k, steps = k + 1 := ⟨steps - 1, by omega⟩
    obtain ⟨f, hf⟩ := exists_frame hh
    have hp := hs.parents h f hf
    rw [scopesBelow_succ hf, Scope.find?]
    cases hg : f.get? n with
    | some v =>
      obtain ⟨hfind, hv⟩ := findFrom_of_bound hf steps hg
      have hl : f.vars.lookup n = some v := hg
      exact .inl ⟨h, v, hfind, hv, by rw [hl]; rfl⟩
    | none =>
      have hl : f.vars.lookup n = none := hg
      rw [findFrom_of_not_bound hf steps hg, hp, hl]
      cases h with
      | zero => exact .inr ⟨rfl, rfl⟩
      | succ h => exact ih h (Nat.lt_succ_self h) (by omega) (by omega)

theorem Proper.lookup_eq (hs : s.Proper) (n : Symbol) :
    s.lookup (.symbol n)
      = (Scope.find? n s.scopes).elim (.error (.eval (.unbound (.symbol n)))) .ok := by
  have ht := hs.top
  have hdepth : s.current < s.frames.size + 1 := by
    show s.current < s.depth + 1
    omega
  rw [hs.scopes_eq]
  rcases hs.findFrom_cases n hdepth (by omega) with ⟨k, v, hfind, hv, hsc⟩ | ⟨hfind, hsc⟩
  · rw [lookup_of_find_some hfind, hv, hsc]
    rfl
  · rw [lookup_of_find_none hfind, hsc]
    rfl

end

end FrameStack

/-! ## worlds and runs -/

/-- what has been printed in a world -/
def World.output (w : World) : String := printedText w.trace.toList

theorem World.output_note (w : World) (e : Event) : (w.note e).output = w.output ++ e.output := by
  show printedText (w.trace.push e).toList = _
  rw [Array.toList_push, printedText, List.map_append, String.join, List.foldl_append]
  rfl

/-- a world with these scopes -/
structure World.Shows (table : Nat) (scopes : List Scope) (w : World) : Prop where
  table : w.table.id = table
  proper : w.frames.Proper
  scopes : w.frames.scopes = scopes

theorem World.Shows.note {table : Nat} {scopes : List Scope} {w : World} (h : w.Shows table scopes)
    (e : Event) :
    (w.note e).Shows table scopes := ⟨h.table, h.proper, h.scopes⟩

section
variable {α β : Type}

def ended (r : Except EvalError α) (w : World) : EStateM.Result Failure World α :=
  match r with
  | .ok a => .ok a w
  | .error e => .error (.eval e) w

/-- a run from `w` ends with this result, these scopes and this output -/
def Ends (table : Nat) (act : Run α) (w : World) (r : Except EvalError α) (scopes : List Scope)
    (out : String) : Prop :=
  ∃ w', act w = ended r w' ∧ w'.Shows table scopes ∧ w'.output = w.output ++ out

/-- every run from scopes `before` does -/
def Does (table : Nat) (act : Run α) (before : List Scope) (r : Except EvalError α)
    (after : List Scope) (out : String) : Prop :=
  ∀ w, World.Shows table before w → Ends table act w r after out

theorem ended_inj {r r' : Except EvalError α} {w w' : World} (h : ended r w = ended r' w') :
    r = r' ∧ w = w' := by
  cases r <;> cases r' <;> cases h <;> exact ⟨rfl, rfl⟩

theorem ended_ne_exhausted (r : Except EvalError α) (w w' : World) (o : Overrun) :
    ended r w ≠ .error (.exhausted o) w' := by
  cases r <;> exact nofun

variable {table : Nat} {w : World} {scopes scopes' : List Scope} {out out' : String}

theorem Ends.unique {act : Run α} {r r' : Except EvalError α} (h : Ends table act w r scopes out)
    (h' : Ends table act w r' scopes' out') : r = r' ∧ scopes = scopes' ∧ out = out' := by
  obtain ⟨w₁, hr, hs, ho⟩ := h
  obtain ⟨w₂, hr', hs', ho'⟩ := h'
  obtain ⟨rfl, rfl⟩ := ended_inj (hr.symm.trans hr')
  exact ⟨rfl, hs.scopes.symm.trans hs'.scopes, (String.append_right_inj _).1 (ho.symm.trans ho')⟩

theorem ends_pure (hw : w.Shows table scopes) (a : α) : Ends table (pure a) w (.ok a) scopes "" :=
  ⟨w, rfl, hw, String.append_empty.symm⟩

theorem ends_fail (hw : w.Shows table scopes) (e : EvalError) :
    Ends table (Run.fail e : Run α) w (.error e) scopes "" :=
  ⟨w, rfl, hw, String.append_empty.symm⟩

/-- with levels enough to word the error, wording changes nothing -/
theorem Ends.worded {act : Run α} {r : Except EvalError α} (levels : Nat)
    (h : Ends table act w r scopes out) (hl : ∀ e, r = .error e → e.levels ≤ levels) :
    Ends table (Run.worded levels act) w r scopes out := by
  obtain ⟨w', ha, hs, ho⟩ := h
  refine ⟨w', ?_, hs, ho⟩
  rcases Run.worded_cases levels act w with he | ⟨e, w₁, he, hlt, _⟩
  · rw [he, ha]
  · obtain ⟨rfl, _⟩ : r = .error e ∧ w' = w₁ := ended_inj (ha.symm.trans he)
    exact absurd (hl e rfl) (Nat.not_le_of_lt hlt)

theorem ends_raise (hw : w.Shows table scopes) {levels : Nat} {e : EvalError}
    (h : e.levels ≤ levels) :
    Ends table (Run.raise levels e : Run α) w (.error e) scopes "" := by
  refine (ends_fail hw e).worded levels ?_
  intro e' he
  cases he
  exact h

theorem ends_note (hw : w.Shows table scopes) (e : Event) :
    Ends table (Run.note e) w (.ok ()) scopes e.output :=
  ⟨w.note e, rfl, hw.note e, w.output_note e⟩

theorem Ends.bind {x : Run α} {f : α → Run β} {a : α} {r : Except EvalError β}
    (hx : Ends table x w (.ok a) scopes out) (hf : Does table (f a) scopes r scopes' out') :
    Ends table (x >>= f) w r scopes' (out ++ out') := by
  obtain ⟨w₁, h₁, hs₁, ho₁⟩ := hx
  obtain ⟨w₂, h₂, hs₂, ho₂⟩ := hf w₁ hs₁
  refine ⟨w₂, (bind_of_ok h₁).trans h₂, hs₂, ?_⟩
  rw [ho₂, ho₁, String.append_assoc]

/-- the first part prints nothing -/
theorem Ends.bind_quiet {x : Run α} {f : α → Run β} {a : α} {r : Except EvalError β}
    (hx : Ends table x w (.ok a) scopes "") (hf : Does table (f a) scopes r scopes' out) :
    Ends table (x >>= f) w r scopes' out := by
  rw [← String.empty_append (s := out)]
  exact hx.bind hf

/-- the second part prints nothing -/
theorem Ends.bind_silent {x : Run α} {f : α → Run β} {a : α} {r : Except EvalError β}
    (hx : Ends table x w (.ok a) scopes out) (hf : Does table (f a) scopes r scopes' "") :
    Ends table (x >>= f) w r scopes' out := by
  rw [← String.append_empty (s := out)]
  exact hx.bind hf

theorem Ends.bind_error {x : Run α} (f : α → Run β) {e : EvalError}
    (hx : Ends table x w (.error e) scopes out) : Ends table (x >>= f) w (.error e) scopes out := by
  obtain ⟨w₁, h₁, hs₁, ho₁⟩ := hx
  exact ⟨w₁, bind_of_error h₁, hs₁, ho₁⟩

theorem ends_lookup (hw : w.Shows table scopes) (n : Symbol) :
    Ends table (Run.lookup (.symbol n)) w
      ((Scope.find? n scopes).elim (.error (.unbound (.symbol n))) .ok) scopes "" := by
  refine ⟨w, ?_, hw, String.append_empty.symm⟩
  unfold Run.lookup
  rw [hw.proper.lookup_eq, hw.scopes]
  cases Scope.find? n scopes with
  | none => rfl
  | some v => rfl

theorem ends_define {inner : Scope} {outer : List Scope} (hw : w.Shows table (inner :: outer))
    (n : Symbol) (v : Value) :
    Ends table (Run.define (.symbol n) v) w (.ok ()) (Frame.put n v inner :: outer) "" := by
  refine ⟨{ w with frames := w.frames.bindAt w.frames.current n v }, ?_, ?_,
    String.append_empty.symm⟩
  · simp only [Run.define, Run.onFrames, hw.proper.define_symbol n v]
    rfl
  · exact ⟨hw.table, hw.proper.bindAt .., scopes_bindAt hw.proper hw.scopes n v⟩

theorem define_unfit {p : Value} (hp : p.symbol? = none) (v : Value) (w : World) :
    Run.define p v w = .error (.eval (.undefinable p)) w := by
  simp only [Run.define, Run.onFrames, define_of_not_symbol hp v]

theorem ends_define_unfit (hw : w.Shows table scopes) {p : Value} (hp : p.symbol? = none)
    (v : Value) :
    Ends table (Run.define p v) w (.error (.undefinable p)) scopes "" :=
  ⟨w, define_unfit hp v w, hw, String.append_empty.symm⟩

theorem ends_bindAll {inner : Scope} {outer : List Scope} (levels : Nat) (params args : List Value)
    (hw : w.Shows table (inner :: outer))
    (hl : ∀ x, (Scope.bindAll inner params args).1 = .error x → x.levels ≤ levels) :
    Ends table (Eval.bindAll levels params args) w (Scope.bindAll inner params args).1
      ((Scope.bindAll inner params args).2 :: outer) "" := by
  induction params generalizing args inner w with
  | nil => exact ends_pure hw ()
  | cons p params ih =>
    cases args with
    | nil => cases p <;> exact ends_pure hw ()
    | cons a args =>
      cases p with
      | symbol n =>
        have hd := (ends_define hw n a).worded levels nofun
        exact hd.bind_quiet (f := fun _ => Eval.bindAll levels params args) fun w' hw' =>
          ih args hw' hl
      | _ =>
        refine ((ends_define_unfit hw rfl a).worded levels ?_).bind_error _
        intro x hx
        cases hx
        exact hl _ rfl

theorem World.Shows.popped {inner : Scope} (hw : w.Shows table (inner :: scopes))
    (hne : scopes ≠ []) :
    w.frames.pop = .ok w.frames.popped ∧
      World.Shows table scopes { w with frames := w.frames.popped } := by
  have hd : 1 < w.frames.depth := by
    have hlen := length_scopes w.frames
    rw [hw.scopes, List.length_cons] at hlen
    have hpos := List.length_pos_iff.2 hne
    omega
  refine ⟨hw.proper.pop_eq hd, hw.table, hw.proper.popped hd, ?_⟩
  rw [scopes_popped, hw.scopes, List.tail_cons]

theorem World.Shows.ne_nil (hw : w.Shows table scopes) : scopes ≠ [] := by
  have ht := hw.proper.top
  have hlen := length_scopes w.frames
  rw [hw.scopes] at hlen
  exact List.length_pos_iff.1 (by omega)

theorem World.Shows.push (hw : w.Shows table scopes) :
    World.Shows table ([] :: scopes) { w with frames := w.frames.push } :=
  ⟨hw.table, hw.proper.push, by rw [scopes_push, hw.scopes]⟩

/-- an error leaves a frame by popping it, and so does exhaustion while there is a level left -/
theorem leaving_of_error {act : Run α} {e : Failure} {w' : World} (levels : Nat)
    (h : act w = .error e w') (hl : ∀ o, e = .exhausted o → levels ≠ 0) :
    (∀ s, w'.frames.pop = .ok s → Eval.leaving levels act w = .error e { w' with frames := s }) ∧
      ∀ e', w'.frames.pop = .error e' → Eval.leaving levels act w = .error e' w' := by
  cases e with
  | exhausted o =>
    have hz := hl o rfl
    refine ⟨?_, ?_⟩
    · intro s hp
      simp only [Eval.leaving, h, if_neg hz, hp]
    · intro e' hp
      simp only [Eval.leaving, h, if_neg hz, hp]
  | _ =>
    refine ⟨?_, ?_⟩
    · intro s hp
      simp only [Eval.leaving, h, hp]
    · intro e' hp
      simp only [Eval.leaving, h, hp]

/-- a body in a scope of its own -/
theorem ends_bracket {act : Run α} {inner : Scope} {r : Except EvalError α} (levels : Nat)
    (hw : w.Shows table scopes)
    (h : Ends table act { w with frames := w.frames.push } r (inner :: scopes) out) :
    Ends table (Run.push >>= fun _ => Eval.leaving levels act) w r scopes out := by
  obtain ⟨w', ha, hs, ho⟩ := h
  obtain ⟨hp, hs'⟩ := hs.popped hw.ne_nil
  refine ⟨{ w' with frames := w'.frames.popped }, ?_, hs', ho⟩
  show Eval.leaving levels act { w with frames := w.frames.push } = _
  cases r with
  | ok a =>
    have ha' : act { w with frames := w.frames.push } = .ok a w' := ha
    simp only [Eval.leaving, ha', hp]
    rfl
  | error e =>
    have ha' : act { w with frames := w.frames.push } = .error (.eval e) w' := ha
    simp only [Eval.leaving, ha', hp]
    rfl

end

end Lisplet
