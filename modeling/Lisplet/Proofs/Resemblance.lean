import Mathlib
import Lisplet.Proofs.Correspondence
import Lisplet.Proofs.Levels

/-!
# Runs do not look back

The trace of a world grows while something runs, and nothing that runs looks at it.  So two worlds
with the same frames, the same table and the same output go on alike, although they may have read
different texts (`World.Resembles`).  This is a `Correspondence` in which every expression and every
name may be used, since there is nothing that differs.  Procedures of the host may look at the
trace, so none may be bound.
-/

namespace Lisplet

open FrameStack Sequence

/-- two runs of the same expression in the same frames -/
def verbatim (table : Nat) : Correspondence where
  table := table
  rename := id
  IsExpr := hostless.IsExpr
  IsValue := hostless.IsValue
  Reads := fun _ => True
  Writes := fun _ => True
  Vars := fun b b' => b' = b ∧ ∀ x ∈ b, hostless.IsValue x.2
  special := of?_id table
  self := hostless.self
  name := fun _ => ⟨trivial, trivial⟩
  head := fun _ _ => trivial
  tail := fun h _ he => hostless.item h (List.mem_cons_of_mem _ he)
  lambda := hostless.lambda
  param := fun _ _ => trivial
  body := hostless.body
  native := hostless.native
  wrapped := hostless.wrapped
  bool := hostless.bool
  nil := hostless.nil
  empty := ⟨rfl, fun _ hx => absurd hx List.not_mem_nil⟩
  get := by
    rintro b b' n ⟨rfl, _⟩ _
    show b'.lookup n = (b'.lookup n).map (Value.rename id)
    cases b'.lookup n with
    | none => rfl
    | some v => rw [Option.map_some, Value.rename_id]
  got := by
    rintro b b' n v ⟨_, hb⟩ _ hv
    exact hb (n, v) (Frame.mem_of_get? (f := ⟨none, b⟩) hv)
  put := by
    rintro b b' n v ⟨rfl, hb⟩ _ hv
    rw [id, Value.rename_id]
    refine ⟨rfl, fun x hx => ?_⟩
    rcases Frame.mem_put hx with rfl | hx
    · exact hv
    · exact hb x hx

section
variable {table : Nat} {w w' : World}

/-- the names in the tables may differ, if the tables have the same number -/
theorem pairs_of_frames (hw : w.Hostless) (hs : w'.frames = w.frames)
    (ht : w'.table.id = w.table.id) :
    (verbatim w.table.id).Pairs w w' := by
  refine ⟨⟨by rw [hs], fun k => ?_⟩, rfl, ht⟩
  rw [hs]
  cases hf : w.frames.frame? k with
  | none => exact .none
  | some f => exact .some ⟨rfl, rfl, fun x hx => hw x.1 x.2 ⟨k, f, hf, hx⟩⟩

theorem hostless_of_pairs (h : (verbatim table).Pairs w w') : w.Hostless := by
  intro n v hb
  obtain ⟨k, f, hf, hb⟩ := hb
  rcases h.frames.frame_cases k with ⟨hs, _⟩ | ⟨g, g', hs, _, _, _, hv⟩
  · exact absurd (hs.symm.trans hf) (Option.some_ne_none f).symm
  · obtain rfl : g = f := Option.some.inj (hs.symm.trans hf)
    exact hv (n, v) hb

theorem eq_of_matched {s t : FrameStack} (h : s.Matched (verbatim table).Vars t) : t = s := by
  obtain ⟨frames, current⟩ := s
  obtain ⟨frames', current'⟩ := t
  have hc : current' = current := h.current
  have hf : frames' = frames := by
    apply Array.ext_getElem?
    intro k
    rcases h.frame_cases k with ⟨hs, ht⟩ | ⟨⟨p, b⟩, ⟨p', b'⟩, hs, ht, hp, hb, _⟩
    · exact ht.trans hs.symm
    · have hp' : p' = p := hp
      have hb' : b' = b := hb
      rw [hp', hb'] at ht
      exact ht.trans hs.symm
  rw [hc, hf]

theorem printedText_append (a b : List Event) :
    printedText (a ++ b) = printedText a ++ printedText b := by
  rw [printedText, List.map_append, String.join_append]
  rfl

end

end Lisplet
