import Mathlib.Logic.Function.Basic

/-!
# One relation in two tables

`own` maps an id to its topic, `topics` maps a topic to one of its ids. Both are changed
together, but neither change looks at what it replaces.
-/

namespace Stomp.Paired

variable {I T : Type} {own : I → Option T} {topics : T → Option I}

/-- A topic is in one table exactly when it is in the other, and then under an id of its own. -/
def InStep (own : I → Option T) (topics : T → Option I) : Prop :=
  ∀ t, ((topics t).isSome = true ↔ ∃ i, own i = some t) ∧ ∀ i, topics t = some i → own i = some t

/-- Each table is the inverse of the other. -/
def Inverse (own : I → Option T) (topics : T → Option I) : Prop :=
  ∀ i t, own i = some t ↔ topics t = some i

theorem Inverse.inStep (h : Inverse own topics) : InStep own topics := by
  refine fun t => ⟨?_, fun i hi => (h i t).mpr hi⟩
  rw [Option.isSome_iff_exists]
  exact exists_congr fun i => (h i t).symm

theorem inverse_empty : Inverse (fun _ : I => (none : Option T)) fun _ => none := by
  intro i t
  simp

variable [DecidableEq I] [DecidableEq T]

/-! ## Any changes -/

theorem inStep_put_iff (h : InStep own topics) (i : I) (t : T) :
    InStep (Function.update own i (some t)) (Function.update topics t (some i)) ↔
      ∀ t', own i = some t' → t' ≠ t → topics t' ≠ some i := by
  -- A new pair keeps the tables in step unless the id was the one kept for another topic.
  constructor
  · intro h' t' hi hne ht'
    have := (h' t').2 i (by rwa [Function.update_of_ne hne])
    rw [Function.update_self] at this
    exact hne (Option.some.inj this).symm
  · intro hput t'
    by_cases hne : t' = t
    · subst hne
      rw [Function.update_self]
      refine ⟨⟨fun _ => ⟨i, Function.update_self ..⟩, fun _ => rfl⟩, fun k hk => ?_⟩
      rw [← Option.some.inj hk, Function.update_self]
    · rw [Function.update_of_ne hne]
      have hkeep : ∀ k, topics t' = some k → Function.update own i (some t) k = some t' := by
        intro k hk
        have hown := (h t').2 k hk
        have hki : k ≠ i := by
          rintro rfl
          exact hput t' hown hne hk
        rwa [Function.update_of_ne hki]
      refine ⟨⟨fun hs => ?_, fun ⟨j, hj⟩ => ?_⟩, hkeep⟩
      · obtain ⟨k, hk⟩ := Option.isSome_iff_exists.mp hs
        exact ⟨k, hkeep k hk⟩
      · have hji : j ≠ i := by
          rintro rfl
          rw [Function.update_self] at hj
          exact hne (Option.some.inj hj).symm
        rw [Function.update_of_ne hji] at hj
        exact (h t').1.mpr ⟨j, hj⟩

theorem inStep_drop_iff (h : InStep own topics) (i : I) (t : T) (hi : own i = some t) :
    InStep (Function.update own i none) (Function.update topics t none) ↔
      ∀ j, own j = some t → j = i := by
  constructor
  · intro h' j hj
    by_contra hji
    have := (h' t).1.mpr ⟨j, by rwa [Function.update_of_ne hji]⟩
    simp at this
  · intro hdrop t'
    by_cases hne : t' = t
    · subst hne
      rw [Function.update_self]
      refine ⟨⟨fun hs => by simp at hs, fun ⟨j, hj⟩ => ?_⟩, fun k hk => by cases hk⟩
      by_cases hji : j = i
      · rw [hji, Function.update_self] at hj
        cases hj
      · rw [Function.update_of_ne hji] at hj
        exact absurd (hdrop j hj) hji
    · rw [Function.update_of_ne hne]
      have hown : ∀ j, Function.update own i none j = some t' ↔ own j = some t' := by
        intro j
        by_cases hji : j = i
        · subst hji
          rw [Function.update_self, hi]
          simp [Ne.symm hne]
        · rw [Function.update_of_ne hji]
      simp only [hown]
      exact h t'

/-! ## Changes that look first -/

theorem inverse_update (h : Inverse own topics) {i : I} {t : T} (hi : ∀ t', own i = some t' → t' = t)
    (ht : ∀ j, topics t = some j → j = i) (on : Bool) :
    Inverse (Function.update own i (if on then some t else none))
      (Function.update topics t (if on then some i else none)) := by
  intro j t'
  by_cases hj : j = i <;> by_cases ht' : t' = t
  · subst hj ht'
    cases on <;> simp
  · subst hj
    rw [Function.update_self, Function.update_of_ne ht', ← h j t']
    refine iff_of_false ?_ fun h' => ht' (hi t' h')
    cases on <;> simp [Ne.symm ht']
  · subst ht'
    rw [Function.update_self, Function.update_of_ne hj, h j t']
    refine iff_of_false (fun h' => hj (ht j h')) ?_
    cases on <;> simp [Ne.symm hj]
  · rw [Function.update_of_ne hj, Function.update_of_ne ht']
    exact h j t'

theorem inverse_put (h : Inverse own topics) (i : I) (t : T) (hi : own i = none)
    (ht : topics t = none) :
    Inverse (Function.update own i (some t)) (Function.update topics t (some i)) :=
  inverse_update h (by simp [hi]) (by simp [ht]) true

theorem inverse_drop (h : Inverse own topics) (i : I) (t : T) (hi : own i = some t) :
    Inverse (Function.update own i none) (Function.update topics t none) :=
  inverse_update h (by simp [hi]) (by simp [(h i t).mp hi]) false

/-! ## Changes under way -/

/-- What one message asks for: a new pair, the end of a pair, or nothing. -/
inductive Change (I T : Type) where
  | put (i : I) (t : T)
  | drop (i : I) (t : T)
  | keep

namespace Change

/-- A new pair needs an id and a topic that are free, and the end of a pair needs the pair. -/
def Fits (topics : T → Option I) : Change I T → Prop
  | .put i t => topics t = none ∧ ∀ t', topics t' ≠ some i
  | .drop i t => topics t = some i
  | .keep => True

def apply (topics : T → Option I) : Change I T → T → Option I
  | .put i t => Function.update topics t (some i)
  | .drop _ t => Function.update topics t none
  | .keep => topics

def applyOwn (own : I → Option T) : Change I T → I → Option T
  | .put i t => Function.update own i (some t)
  | .drop i _ => Function.update own i none
  | .keep => own

end Change

theorem Inverse.apply (h : Inverse own topics) {x : Change I T} (hx : x.Fits topics) :
    Inverse (x.applyOwn own) (x.apply topics) := by
  cases x with
  | put i t =>
    refine inverse_put h i t ?_ hx.1
    rw [Option.eq_none_iff_forall_ne_some]
    exact fun t' ht' => hx.2 t' ((h i t').mp ht')
  | drop i t => exact inverse_drop h i t ((h i t).mpr hx)
  | keep => exact h

/-- Changes on their way lead from the tables that they will meet to those of their sender. -/
inductive Flight : (T → Option I) → List (Change I T) → (T → Option I) → Prop
  | nil (t : T → Option I) : Flight t [] t
  | cons {t goal : T → Option I} {x : Change I T} {xs : List (Change I T)} (hx : x.Fits t)
    (h : Flight (x.apply t) xs goal) : Flight t (x :: xs) goal

omit [DecidableEq I] in
theorem Flight.append {topics middle goal : T → Option I} {xs ys : List (Change I T)}
    (h : Flight topics xs middle) (h' : Flight middle ys goal) : Flight topics (xs ++ ys) goal := by
  induction h with
  | nil => exact h'
  | cons hx _ ih => exact .cons hx (ih h')

end Stomp.Paired
