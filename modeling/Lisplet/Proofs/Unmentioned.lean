import Mathlib
import Lisplet.Proofs.Correspondence
import Lisplet.Proofs.Derivation

/-!
# Names that are not mentioned

A symbol that stands nowhere in an expression, and in no function that it could come upon, is not
looked up.  So its bindings have no influence: with others, or with none, the expression is
evaluated in the same way.

Special forms go before bindings.  The name of one may therefore stand at the head of lists,
whatever it is bound to (`Value.without`).  A list of parameters is a list too, and may bind it.

This is a `Correspondence` in which nothing is renamed.  Frames agree apart from the symbol, which
may be bound in both runs and is read in none.
-/

namespace Lisplet

open FrameStack

namespace Value

mutual
/-- `s` stands nowhere in the value, except at the head of lists if `heads` holds -/
def without (s : Symbol) (heads : Bool) : Value → Bool
  | .symbol n => decide (n ≠ s)
  | .list items => listWithout s heads items
  | .lambda params body => listWithout s heads params && without s heads body
  | _ => true

def listWithout (s : Symbol) (heads : Bool) : List Value → Bool
  | [] => true
  | v :: vs => (heads && v.symbol? == some s || without s heads v) && allWithout s heads vs

def allWithout (s : Symbol) (heads : Bool) : List Value → Bool
  | [] => true
  | v :: vs => without s heads v && allWithout s heads vs
end

mutual
/-- `s` stands nowhere in the functions of a value -/
def functionsWithout (s : Symbol) (heads : Bool) : Value → Bool
  | .list items => allFunctionsWithout s heads items
  | .lambda params body => without s heads (.lambda params body)
  | _ => true

def allFunctionsWithout (s : Symbol) (heads : Bool) : List Value → Bool
  | [] => true
  | v :: vs => functionsWithout s heads v && allFunctionsWithout s heads vs
end

section
variable {s n : Symbol} {heads : Bool}

theorem allWithout_iff {vs : List Value} :
    allWithout s heads vs = true ↔ ∀ v ∈ vs, v.without s heads = true := by
  induction vs with
  | nil => simp [allWithout]
  | cons v vs ih => rw [allWithout, Bool.and_eq_true, ih, List.forall_mem_cons]

theorem without_symbol : (Value.symbol n).without s heads = true ↔ n ≠ s := by
  rw [without, decide_eq_true_eq]

theorem without_tail {v : Value} {tail : List Value}
    (h : (Value.list (v :: tail)).without s heads = true) :
    ∀ e ∈ tail, e.without s heads = true := by
  rw [without, listWithout, Bool.and_eq_true] at h
  exact allWithout_iff.1 h.2

theorem without_head {tail : List Value}
    (h : (Value.list (.symbol n :: tail)).without s heads = true) (hn : n = s) :
    heads = true := by
  subst hn
  rw [without, listWithout, Bool.and_eq_true, Bool.or_eq_true, without_symbol] at h
  rcases h.1 with hh | hn
  · exact (Bool.and_eq_true_iff.1 hh).1
  · exact absurd rfl hn

theorem without_lambda {params : List Value} {body : Value} :
    (Value.lambda params body).without s heads = true ↔
      (Value.list params).without s heads = true ∧ body.without s heads = true := by
  rw [without, without, Bool.and_eq_true]

end

end Value

/-! ## agreement apart from a symbol -/

/-- the same frames, and the same bindings of every other symbol -/
def FrameStack.AgreesApart (s : Symbol) (t u : FrameStack) : Prop :=
  t.Matched (fun b b' => ∀ n, n ≠ s → b'.lookup n = b.lookup n) u

structure World.AgreesApart (s : Symbol) (w w' : World) : Prop where
  frames : w.frames.AgreesApart s w'.frames
  table : w'.table = w.table
  trace : w'.trace = w.trace

theorem agreesApart_bindAt (s : Symbol) (t : FrameStack) (k : Nat) (v : Value) :
    t.AgreesApart s (t.bindAt k s v) where
  current := rfl
  frames := by
    intro l
    rw [frame?_bindAt]
    cases t.frame? l with
    | none =>
      rw [Option.map_none, ite_self]
      exact .none
    | some f =>
      split
      · refine .some ⟨rfl, fun n hn => ?_⟩
        exact (Frame.lookup_put s n v f.vars).trans (if_neg hn)
      · exact .some ⟨rfl, fun _ _ => rfl⟩

/-- the same value or the same failure, in worlds that agree -/
inductive SameApart (s : Symbol) :
    EStateM.Result Failure World Value → EStateM.Result Failure World Value → Prop
  | ok {v w w'} : w.AgreesApart s w' → SameApart s (.ok v w) (.ok v w')
  | error {e w w'} : w.AgreesApart s w' → SameApart s (.error e w) (.error e w')

/-- the symbol is that of a special form, so it may stand at the head of lists -/
def SpecialForm.heads (table : Nat) (s : Symbol) : Bool := (SpecialForm.of? table s).isSome

/-- no function of the host, and no function that mentions the symbol -/
def Value.Harmless (table : Nat) (s : Symbol) (v : Value) : Prop :=
  v.hostFree = true ∧ v.functionsWithout s (SpecialForm.heads table s) = true

/-- two runs of an expression that does not mention a symbol -/
def unmentioned (table : Nat) (s : Symbol) : Correspondence where
  table := table
  rename := id
  IsExpr := fun e => e.hostFree = true ∧ e.without s (SpecialForm.heads table s) = true
  IsValue := Value.Harmless table s
  Reads := fun n => n ≠ s
  -- a parameter may be the symbol itself: what is bound to it is never read
  Writes := fun _ => True
  Vars := fun b b' => ∀ n, n ≠ s → b'.lookup n = b.lookup n ∧ ∀ v, b.lookup n = some v →
    v.Harmless table s
  special := of?_id table
  self := by
    intro v he hsym hlist
    refine ⟨he.1, ?_⟩
    cases v with
    | symbol n => exact absurd rfl (hsym n)
    | list items => exact absurd rfl (hlist items)
    | lambda params body =>
      rw [Value.functionsWithout]
      exact he.2
    | _ => simp [Value.functionsWithout]
  name := fun he => ⟨Value.without_symbol.1 he.2, trivial⟩
  head := by
    -- a head that names no form is looked up, and only the name of a form may be the symbol
    intro n tail he hn hs
    have hh := Value.without_head he.2 hs
    rw [SpecialForm.heads, ← hs, hn] at hh
    cases hh
  tail := fun he e hm =>
    ⟨hostFree_list.1 he.1 e (List.mem_cons_of_mem _ hm), Value.without_tail he.2 e hm⟩
  lambda := by
    intro params body hp _ hb
    refine ⟨hostFree_lambda.2 ⟨hostFree_list.1 hp.1, hb.1⟩, ?_⟩
    rw [Value.functionsWithout]
    exact Value.without_lambda.2 ⟨hp.2, hb.2⟩
  param := fun _ _ => trivial
  body := by
    intro params body hf
    have hw := hf.2
    rw [Value.functionsWithout, Value.without_lambda] at hw
    exact ⟨(hostFree_lambda.1 hf.1).2, hw.2⟩
  native := fun hf => hostless.native hf.1
  wrapped := fun _ => ⟨by simp [Value.hostFree], by simp [Value.functionsWithout]⟩
  bool := fun _ => ⟨by simp [Value.hostFree], by simp [Value.functionsWithout]⟩
  nil := ⟨by simp [Value.hostFree], by simp [Value.functionsWithout]⟩
  empty := fun _ _ => ⟨rfl, nofun⟩
  get := by
    intro b b' n hb hn
    rw [id, (hb n hn).1]
    cases b.lookup n with
    | none => rfl
    | some v => rw [Option.map_some, Value.rename_id]
  got := fun hb hn hv => (hb _ hn).2 _ hv
  put := by
    intro b b' n v hb _ hv m hm
    rw [id, Value.rename_id, Frame.lookup_put, Frame.lookup_put]
    by_cases hmn : m = n
    · rw [if_pos hmn, if_pos hmn]
      refine ⟨rfl, ?_⟩
      rintro u ⟨⟩
      exact hv
    · rw [if_neg hmn, if_neg hmn]
      exact hb m hm

/-! ## two runs -/

section
variable {table : Nat} {s : Symbol} {w w' : World}

theorem pairs_unmentioned (h : w.AgreesApart s w')
    (hb : ∀ n v, n ≠ s → w.frames.Bound n v → v.Harmless w.table.id s) :
    (unmentioned w.table.id s).Pairs w w' := by
  refine ⟨h.frames.imp ?_, rfl, by rw [h.table]; rfl⟩
  intro k f g hf _ hv n hn
  exact ⟨hv n hn, fun v hl => hb n v hn ⟨k, f, hf, Frame.mem_of_get? hl⟩⟩

/-- apart from the symbol, what corresponds is the same -/
theorem agreesApart_of_leads {v v' : World} (h : w.AgreesApart s w')
    (hl : (unmentioned table s).Leads w w' v v') :
    v.AgreesApart s v' where
  frames := hl.pairs.frames.imp fun _ _ _ _ _ hv n hn => (hv n hn).1
  table := by rw [hl.table, hl.table', h.table]
  trace := by
    obtain ⟨more, more', ht, ht', hm⟩ := hl.trace
    apply Array.ext'
    rw [ht, ht', h.trace, events_eq_of_id hm]

/-- An expression that does not mention a symbol is evaluated in the same way whatever the symbol is
bound to, in any frames; and it leaves frames that agree on all other symbols, as they did
before. -/
theorem evaluate_apart_from_unmentioned (host : Host) (levels : Nat) (w : World)
    (frames : FrameStack) (s : Symbol) (e : Value) (he : e.hostFree = true)
    (hs : e.without s (SpecialForm.heads w.table.id s) = true) (hb : ∀ n v, n ≠ s →
      w.frames.Bound n v → v.Harmless w.table.id s) (hf : w.frames.AgreesApart s frames) :
    SameApart s (Eval.evaluate host levels e w)
      (Eval.evaluate host levels e { w with frames := frames }) := by
  let C := unmentioned w.table.id s
  have ha : w.AgreesApart s { w with frames := frames } := ⟨hf, rfl, rfl⟩
  have hc := C.corresponds_evaluate host levels e ⟨he, hs⟩ _ _ (pairs_unmentioned ha hb)
  rw [show e.rename C.rename = e from Value.rename_id e] at hc
  generalize Eval.evaluate host levels e w = r,
    Eval.evaluate host levels e { w with frames := frames } = r' at hc
  cases hc with
  | ok hv hl =>
    obtain ⟨rfl, _⟩ := hv
    rw [show Value.rename C.rename _ = _ from Value.rename_id _]
    exact .ok (agreesApart_of_leads ha hl)
  | error hl =>
    rw [show Failure.rename C.rename _ = _ from Failure.rename_id _]
    exact .error (agreesApart_of_leads ha hl)

end

/-- `f` chooses between 1 and 2 -/
def choosing : World :=
  let body := Value.list [.symbol ⟨0, "if"⟩, .symbol ⟨0, "x"⟩, .int 1, .int 2]
  ⟨FrameStack.root.bindAt 0 ⟨0, "f"⟩ (.lambda [.symbol ⟨0, "x"⟩] body), .empty 0, #[]⟩

/-- `f` chooses where `if` is bound to a number as well -/
theorem evaluate_apart_from_bound_if :
    let s : Symbol := ⟨0, "if"⟩
    let frames := choosing.frames.bindAt 0 s (.int 7)
    let e := Value.list [.symbol ⟨0, "f"⟩, .bool true]
    frames.lookup (.symbol s) = .ok (.int 7) ∧
      (∃ w, Eval.evaluate Session.noHost 10 e choosing = .ok (.int 1) w) ∧
      SameApart s (Eval.evaluate Session.noHost 10 e choosing)
        (Eval.evaluate Session.noHost 10 e { choosing with frames := frames }) := by
  intro s frames e
  refine ⟨rfl, ⟨_, rfl⟩, ?_⟩
  apply evaluate_apart_from_unmentioned Session.noHost 10 choosing frames s e
  · decide
  · decide
  · intro n v _ hb
    rcases bound_of_bound_bindAt hb with ⟨_, rfl⟩ | hb
    · exact ⟨by decide, by decide⟩
    · exact absurd hb not_bound_root
  · exact agreesApart_bindAt s choosing.frames 0 (.int 7)

end Lisplet
