import Stomp.Base.Prog

/-!
# Programs that act at once

A program makes its calls between the steps of others. If its calls up to one can be done later,
and those after it sooner, then all of it happens at that one call.
-/

namespace Stomp.Prog

variable {C : Type} {R : C → Type} {α S E : Type}

/-! ## Calls that can be moved -/

/-- With this answer, the call can be done after a step of the others just as well. -/
def Later (answer : Answer C R S) (env : E → S → S → Prop) (c : C) (r : R c) : Prop :=
  ∀ s e t', (answer c s).1 = r → env e (answer c s).2 t' → ∃ t, env e s t ∧ answer c t = (r, t')

/-- In the states `ok` the call can be done before a step of the others just as well. -/
structure Sooner (answer : Answer C R S) (env : E → S → S → Prop) (ok : S → Prop) (c : C) : Prop where
  keeps : ∀ s, ok s → ok (answer c s).2
  moves : ∀ s e t, ok s → env e s t →
    (answer c t).1 = (answer c s).1 ∧ env e (answer c s).2 (answer c t).2

variable (answer : Answer C R S) (env : E → S → S → Prop) (ok : S → Prop)

/-- What is left of the program can be done at once. -/
def Closes (p : Prog C R α) (s : S) : Prop :=
  (∃ a, p = .ret a) ∨ ok s ∧ p.Calls (Sooner answer env ok)

/-- From here on, whatever the others do, the program makes calls that can be done later, up to one
after which the rest can be done at once. -/
def Opens : Prog C R α → S → Prop
  | .ret _, _ => False
  | .call c next, s => ∀ s', (ok s → ok s') →
      Later answer env c (answer c s').1 ∧ (next (answer c s').1).Opens (answer c s').2 ∨
        Closes answer env ok (next (answer c s').1) (answer c s').2

/-- The first calls of a program lead from one state to another, and all can be done later. -/
inductive Began (p : Prog C R α) (t : S) : Prog C R α → S → Prop
  | refl : Began p t p t
  | snoc {c : C} {next : R c → Prog C R α} {s : S} (h : Began p t (.call c next) s)
    (hl : Later answer env c (answer c s).1) : Began p t (next (answer c s).1) (answer c s).2

/-- The state `s`, with `q` left of the program `p`, next to the state `t` in which the program did
not happen yet. -/
def Before (p q : Prog C R α) (s t : S) : Prop := Began answer env p t q s ∧ Opens answer env ok q s

/-- The state `s`, with `q` left of the program, next to the state `t` in which all of it happened. -/
def After (q : Prog C R α) (s t : S) : Prop := Closes answer env ok q s ∧ t = (q.run answer s).2

variable {answer env ok} {p q : Prog C R α} {s t s' : S} {e : E}

theorem closes_ret (a : α) (s : S) : Closes answer env ok (.ret a : Prog C R α) s := .inl ⟨a, rfl⟩

theorem Closes.call {c : C} {next : R c → Prog C R α} (h : Closes answer env ok (.call c next) s) :
    Closes answer env ok (next (answer c s).1) (answer c s).2 := by
  rcases h with ⟨a, ha⟩ | ⟨hok, hc, hnext⟩
  · cases ha
  · exact .inr ⟨hc.keeps s hok, hnext _⟩

theorem Closes.others (hstable : ∀ s e t, ok s → env e s t → ok t) (h : Closes answer env ok p s)
    (he : env e s s') :
    Closes answer env ok p s' ∧ env e (p.run answer s).2 (p.run answer s').2 := by
  rcases h with ⟨a, rfl⟩ | ⟨hok, hcalls⟩
  · exact ⟨closes_ret a s', he⟩
  refine ⟨.inr ⟨hstable s e s' hok he, hcalls⟩, ?_⟩
  induction p generalizing s s' with
  | ret a => exact he
  | call c next ih =>
    obtain ⟨hc, hnext⟩ := hcalls
    obtain ⟨hr, he'⟩ := hc.moves s e s' hok he
    rw [run_call, run_call, hr]
    exact ih _ he' (hc.keeps s hok) (hnext _)

theorem Opens.others (hstable : ∀ s e t, ok s → env e s t → ok t) (h : Opens answer env ok p s)
    (he : env e s s') : Opens answer env ok p s' := by
  cases p with
  | ret a => exact h
  | call c next => exact fun s₁ hs₁ => h s₁ fun hok => hs₁ (hstable s e s' hok he)

theorem Began.run_eq (h : Began answer env p t q s) : p.run answer t = q.run answer s := by
  induction h with
  | refl => rfl
  | snoc _ _ ih => exact ih

theorem Began.others (h : Began answer env p t q s) (he : env e s s') :
    ∃ t', env e t t' ∧ Began answer env p t' q s' := by
  induction h generalizing s' with
  | refl => exact ⟨s', he, .refl⟩
  | @snoc c next s h hl ih =>
    obtain ⟨s₁, he₁, hs₁⟩ := hl s e s' rfl he
    obtain ⟨t', ht', hbegan⟩ := ih he₁
    refine ⟨t', ht', ?_⟩
    have hsnoc : Later answer env c (answer c s₁).1 →
        Began answer env p t' (next (answer c s₁).1) (answer c s₁).2 := hbegan.snoc
    rw [hs₁] at hsnoc
    exact hsnoc hl

/-! ## A program under way -/

theorem before_start (h : Opens answer env ok p s) : Before answer env ok p p s s := ⟨.refl, h⟩

theorem not_before_ret {a : α} : ¬ Before answer env ok p (.ret a) s t := by
  rintro ⟨-, hopens⟩
  exact hopens

theorem After.of_ret {a : α} (h : After answer env ok (.ret a : Prog C R α) s t) : t = s := h.2

theorem Before.others (hstable : ∀ s e t, ok s → env e s t → ok t)
    (h : Before answer env ok p q s t) (he : env e s s') :
    ∃ t', env e t t' ∧ Before answer env ok p q s' t' := by
  obtain ⟨t', ht', hbegan⟩ := h.1.others he
  exact ⟨t', ht', hbegan, h.2.others hstable he⟩

theorem After.others (hstable : ∀ s e t, ok s → env e s t → ok t) (h : After answer env ok q s t)
    (he : env e s s') : ∃ t', env e t t' ∧ After answer env ok q s' t' := by
  obtain ⟨hcloses, he'⟩ := h.1.others hstable he
  exact ⟨_, h.2 ▸ he', hcloses, rfl⟩

theorem Before.call {c : C} {next : R c → Prog C R α} (h : Before answer env ok p (.call c next) s t) :
    Before answer env ok p (next (answer c s).1) (answer c s).2 t ∨
      After answer env ok (next (answer c s).1) (answer c s).2 (p.run answer t).2 := by
  -- A call does nothing yet, or all that the program does.
  obtain ⟨hbegan, hopens⟩ := h
  rcases hopens s id with ⟨hl, hnext⟩ | hcloses
  · exact .inl ⟨hbegan.snoc hl, hnext⟩
  · exact .inr ⟨hcloses, by rw [hbegan.run_eq, run_call]⟩

theorem After.call {c : C} {next : R c → Prog C R α} (h : After answer env ok (.call c next) s t) :
    After answer env ok (next (answer c s).1) (answer c s).2 t := ⟨h.1.call, h.2⟩

end Stomp.Prog
