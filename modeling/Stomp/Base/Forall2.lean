import Mathlib.Data.List.Forall2

/-!
# Lists that agree entry by entry

A part of the one list agrees with a part of the other.
-/

namespace Stomp

open List

variable {α β γ : Type} {R : α → β → Prop} {as : List α} {bs bs' : List β}

theorem forall₂_append_right (h : Forall₂ R as (bs ++ bs')) :
    ∃ xs ys, as = xs ++ ys ∧ Forall₂ R xs bs ∧ Forall₂ R ys bs' :=
  ⟨_, _, (take_append_drop bs.length as).symm, forall₂_take_append as bs bs' h,
    forall₂_drop_append as bs bs' h⟩

theorem forall₂_sublist_right (h : Forall₂ R as bs) (hs : bs' <+ bs) :
    ∃ xs, xs <+ as ∧ Forall₂ R xs bs' := by
  induction hs generalizing as with
  | slnil => exact ⟨[], nil_sublist _, .nil⟩
  | cons b _ ih =>
    cases h with
    | cons _ h =>
      obtain ⟨xs, hxs, hR⟩ := ih h
      exact ⟨xs, hxs.cons _, hR⟩
  | cons_cons b _ ih =>
    cases h with
    | cons hb h =>
      obtain ⟨xs, hxs, hR⟩ := ih h
      exact ⟨_, hxs.cons_cons _, .cons hb hR⟩

theorem forall₂_mem_right {b : β} (h : Forall₂ R as bs) (hb : b ∈ bs) : ∃ a ∈ as, R a b := by
  induction h with
  | nil => cases hb
  | cons hR _ ih =>
    rcases mem_cons.mp hb with rfl | hb
    · exact ⟨_, mem_cons_self, hR⟩
    · obtain ⟨a, ha, hR⟩ := ih hb
      exact ⟨a, mem_cons_of_mem _ ha, hR⟩

theorem forall₂_mem_left {a : α} (h : Forall₂ R as bs) (ha : a ∈ as) : ∃ b ∈ bs, R a b := by
  obtain ⟨b, hb, hR⟩ := forall₂_mem_right h.flip ha
  exact ⟨b, hb, hR⟩

theorem forall₂_flatMap_right {S : α → γ → Prop} {f : β → List γ} (h : Forall₂ R as bs)
    (hf : ∀ a ∈ as, ∀ b ∈ bs, R a b → ∃ c, f b = [c] ∧ S a c) : Forall₂ S as (bs.flatMap f) := by
  induction h with
  | nil => exact .nil
  | @cons a b as bs hR _ ih =>
    obtain ⟨c, hc, hS⟩ := hf a mem_cons_self b mem_cons_self hR
    rw [flatMap_cons, hc]
    exact .cons hS (ih fun a ha b hb => hf a (mem_cons_of_mem _ ha) b (mem_cons_of_mem _ hb))

theorem exists_forall₂ (h : ∀ b ∈ bs, ∃ a, R a b) : ∃ as, Forall₂ R as bs := by
  induction bs with
  | nil => exact ⟨[], .nil⟩
  | cons b bs ih =>
    obtain ⟨a, ha⟩ := h b mem_cons_self
    obtain ⟨as, has⟩ := ih fun b hb => h b (mem_cons_of_mem _ hb)
    exact ⟨a :: as, .cons ha has⟩

theorem forall₂_imp_mem {S : α → β → Prop} (h : Forall₂ R as bs)
    (hf : ∀ a ∈ as, ∀ b ∈ bs, R a b → S a b) : Forall₂ S as bs := by
  rw [← flatMap_singleton' bs]
  exact forall₂_flatMap_right h fun a ha b hb hR => ⟨b, rfl, hf a ha b hb hR⟩

theorem mapM_eq_some_iff {f : α → Option β} :
    as.mapM f = some bs ↔ Forall₂ (fun a b => f a = some b) as bs := by
  induction as generalizing bs with
  | nil => simp
  | cons a as ih =>
    rw [mapM_cons, forall₂_cons_left_iff]
    simp only [Option.bind_eq_bind, Option.bind_eq_some_iff, Option.pure_def, Option.some.injEq, ih]
    constructor
    · rintro ⟨b, hb, bs, hbs, rfl⟩
      exact ⟨b, bs, hb, hbs, rfl⟩
    · rintro ⟨b, bs, hb, hbs, rfl⟩
      exact ⟨b, hb, bs, hbs, rfl⟩

end Stomp
