import Mathlib.Data.List.Nodup
import Mathlib.Data.List.Perm.Basic

/-!
# Things that are in one place

Every thing that is known is in one place, once. A thing moves from one place to another, or a new
one is made.
-/

open scoped List

namespace Stomp

variable {P B : Type}

structure Owned (held : P → List B) (known : B → Prop) : Prop where
  nodup : ∀ p, (held p).Nodup
  one : ∀ {p q b}, b ∈ held p → b ∈ held q → p = q
  known_iff : ∀ b, known b ↔ ∃ p, b ∈ held p

namespace Owned

variable {held held' : P → List B} {known known' : B → Prop} {p q : P} {b : B}

theorem same (h : Owned held known) (hp : ∀ p, held' p = held p) : Owned held' known := by
  obtain rfl : held' = held := funext hp
  exact h

theorem move (h : Owned held known) (hp : held p ~ b :: held' p) (hq : held' q ~ b :: held q)
    (hne : p ≠ q) (hother : ∀ r, r ≠ p → r ≠ q → held' r = held r) : Owned held' known := by
  classical
  have hb : b ∈ held p := hp.mem_iff.mpr List.mem_cons_self
  have hmem : ∀ x r, x ∈ held' r ↔ if x = b then r = q else x ∈ held r := by
    intro x r
    have hnodup := hp.nodup_iff.mp (h.nodup p)
    by_cases hrp : r = p
    · subst hrp
      split_ifs with hx
      · subst hx
        exact iff_of_false (List.nodup_cons.mp hnodup).1 hne
      · rw [hp.mem_iff, List.mem_cons, or_iff_right hx]
    · by_cases hrq : r = q
      · subst hrq
        rw [hq.mem_iff, List.mem_cons]
        split_ifs with hx
        · exact iff_of_true (.inl hx) rfl
        · rw [or_iff_right hx]
      · rw [hother r hrp hrq]
        split_ifs with hx
        · subst hx
          exact iff_of_false (fun hr => hrp (h.one hr hb)) hrq
        · rfl
  refine ⟨fun r => ?_, fun {r r' x} hr hr' => ?_, fun x => ?_⟩
  · by_cases hrp : r = p
    · subst hrp
      exact (List.nodup_cons.mp (hp.nodup_iff.mp (h.nodup r))).2
    · by_cases hrq : r = q
      · subst hrq
        rw [hq.nodup_iff, List.nodup_cons]
        exact ⟨fun hr => hrp (h.one hr hb), h.nodup r⟩
      · rw [hother r hrp hrq]
        exact h.nodup r
  · rw [hmem] at hr hr'
    split_ifs at hr hr' with hx
    · rw [hr, hr']
    · exact h.one hr hr'
  · rw [h.known_iff]
    constructor
    · rintro ⟨r, hr⟩
      by_cases hx : x = b
      · exact ⟨q, (hmem x q).mpr (by rw [if_pos hx])⟩
      · exact ⟨r, (hmem x r).mpr (by rwa [if_neg hx])⟩
    · rintro ⟨r, hr⟩
      rw [hmem] at hr
      split_ifs at hr with hx
      · exact ⟨p, hx ▸ hb⟩
      · exact ⟨r, hr⟩

theorem make (h : Owned held known) (hnew : ¬ known b) (hq : held' q = b :: held q)
    (hother : ∀ r, r ≠ q → held' r = held r) (hknown : ∀ x, known' x ↔ known x ∨ x = b) :
    Owned held' known' := by
  have hfree : ∀ r, b ∉ held r := fun r hr => hnew ((h.known_iff b).mpr ⟨r, hr⟩)
  have hmem : ∀ x r, x ∈ held' r ↔ x ∈ held r ∨ x = b ∧ r = q := by
    intro x r
    by_cases hr : r = q
    · subst hr
      rw [hq, List.mem_cons]
      tauto
    · rw [hother r hr]
      tauto
  refine ⟨fun r => ?_, fun {r r' x} hr hr' => ?_, fun x => ?_⟩
  · by_cases hr : r = q
    · subst hr
      rw [hq, List.nodup_cons]
      exact ⟨hfree r, h.nodup r⟩
    · rw [hother r hr]
      exact h.nodup r
  · rw [hmem] at hr hr'
    rcases hr with hr | ⟨rfl, rfl⟩
    · rcases hr' with hr' | ⟨rfl, -⟩
      · exact h.one hr hr'
      · exact absurd hr (hfree r)
    · rcases hr' with hr' | ⟨-, rfl⟩
      · exact absurd hr' (hfree r')
      · rfl
  · simp only [hknown, h.known_iff, hmem]
    constructor
    · rintro (⟨r, hr⟩ | rfl)
      · exact ⟨r, .inl hr⟩
      · exact ⟨q, .inr ⟨rfl, rfl⟩⟩
    · rintro ⟨r, hr | ⟨rfl, -⟩⟩
      · exact .inl ⟨r, hr⟩
      · exact .inr rfl

end Owned

end Stomp
