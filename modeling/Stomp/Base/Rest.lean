import Mathlib.Order.WellFounded
import Stomp.Base.Run

/-!
# Systems that come to rest

Some labels of a system only use up what the others brought. Taken alone they come to an end, in
every order.
-/

namespace Stomp

namespace System

variable {S L : Type} {M : System S L} {own : L → Prop} {trace post : List (S × L)} {s s' : S}

/-! ## Runs that go on -/

/-- The system from a state of one of its runs on. -/
def startIn (M : System S L) (s : S) : System S L := { M with init := s }

theorem Run.append (h : M.Run trace s) (hp : (M.startIn s).Run post s') :
    M.Run (trace ++ post) s' := by
  induction hp with
  | nil => rwa [List.append_nil]
  | snoc _ hs ih =>
    rw [← List.append_assoc]
    exact ih.snoc hs

theorem Run.cons {l : L} {t : S} (hs : M.step s l = some t) (hp : (M.startIn t).Run post s') :
    (M.startIn s).Run ((s, l) :: post) s' := by
  have hone : (M.startIn s).Run ([] ++ [(s, l)]) t := Run.nil.snoc hs
  exact hone.append hp

/-! ## Rest -/

/-- No label of `own` is possible. -/
def AtRest (M : System S L) (own : L → Prop) (s : S) : Prop := ∀ l, own l → M.step s l = none

/-- The labels of `own` cannot go on for ever. -/
def ComesToRest (M : System S L) (own : L → Prop) : Prop :=
  WellFounded fun s' s => ∃ l, own l ∧ M.step s l = some s'

theorem comesToRest_of_lt {α : Type} [LT α] [WellFoundedLT α] (f : S → α)
    (h : ∀ s l s', own l → M.step s l = some s' → f s' < f s) : M.ComesToRest own := by
  apply Subrelation.wf (r := InvImage (· < ·) f)
  · rintro s' s ⟨l, hl, hs⟩
    exact h s l s' hl hs
  · exact InvImage.wf f wellFounded_lt

/-- From every state there is a way to rest. -/
theorem ComesToRest.exists_rest (h : M.ComesToRest own) (s : S) :
    ∃ post s', (M.startIn s).Run post s' ∧ (∀ e ∈ post, own e.2) ∧ M.AtRest own s' := by
  induction s using h.induction with
  | _ s ih =>
    by_cases hrest : M.AtRest own s
    · exact ⟨[], s, .nil, nofun, hrest⟩
    · unfold AtRest at hrest
      push Not at hrest
      obtain ⟨l, hl, hne⟩ := hrest
      obtain ⟨t, ht⟩ := Option.ne_none_iff_exists'.mp hne
      obtain ⟨post, s', hp, hown, hs'⟩ := ih t ⟨l, hl, ht⟩
      refine ⟨(s, l) :: post, s', hp.cons ht, ?_, hs'⟩
      exact List.forall_mem_cons.mpr ⟨hl, hown⟩

theorem ComesToRest.not_endless (h : M.ComesToRest own) (f : Nat → S) :
    ∃ n, ∀ l, own l → M.step (f n) l ≠ some (f (n + 1)) := by
  have : IsWellFounded S fun s' s => ∃ l, own l ∧ M.step s l = some s' := ⟨h⟩
  obtain ⟨n, hn⟩ := WellFounded.not_rel_apply_succ (r := fun s' s => ∃ l, own l ∧ M.step s l = some s') f
  exact ⟨n, fun l hl hs => hn ⟨l, hl, hs⟩⟩

end System

end Stomp
