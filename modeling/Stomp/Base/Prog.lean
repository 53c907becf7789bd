/-!
# Programs of calls

A `Prog C R α` is a program that makes calls `c : C` on shared objects, goes on with the
answer `R c`, and ends with an `α`. The same program runs in one go (`run`), or one call at
a time between the calls of other programs.
-/

namespace Stomp

inductive Prog (C : Type) (R : C → Type) (α : Type) where
  | ret (a : α)
  | call (c : C) (next : R c → Prog C R α)

namespace Prog

variable {C : Type} {R : C → Type} {α β S : Type}

def bind : Prog C R α → (α → Prog C R β) → Prog C R β
  | .ret a, f => f a
  | .call c next, f => .call c fun r => (next r).bind f

instance : Monad (Prog C R) where
  pure := .ret
  bind := bind

/-- The program of one call. -/
def op (c : C) : Prog C R (R c) := .call c .ret

@[simp]
theorem pure_eq (a : α) : (pure a : Prog C R α) = .ret a := rfl

@[simp]
theorem ret_bind (a : α) (f : α → Prog C R β) : (Prog.ret a >>= f) = f a := rfl

@[simp]
theorem call_bind (c : C) (next : R c → Prog C R α) (f : α → Prog C R β) :
    (Prog.call c next >>= f) = .call c fun r => next r >>= f := rfl

@[simp]
theorem op_bind (c : C) (f : R c → Prog C R β) : (op c >>= f) = .call c f := rfl

/-! ## One program in one go -/

/-- How the shared state answers a call. -/
abbrev Answer (C : Type) (R : C → Type) (S : Type) := (c : C) → S → R c × S

def run (answer : Answer C R S) : Prog C R α → S → α × S
  | .ret a, s => (a, s)
  | .call c next, s => (next (answer c s).1).run answer (answer c s).2

@[simp]
theorem run_ret (answer : Answer C R S) (a : α) (s : S) : (ret a).run answer s = (a, s) := rfl

@[simp]
theorem run_call (answer : Answer C R S) (c : C) (next : R c → Prog C R α) (s : S) :
    (call c next).run answer s = (next (answer c s).1).run answer (answer c s).2 := rfl

@[simp]
theorem run_bind (answer : Answer C R S) (p : Prog C R α) (f : α → Prog C R β) (s : S) :
    (p >>= f).run answer s = (f (p.run answer s).1).run answer (p.run answer s).2 := by
  induction p generalizing s with
  | ret a => rfl
  | call c next ih => exact ih _ _

/-! ## The calls a program can make -/

/-- Every call the program can make, whatever the answers are, satisfies `P`. -/
def Calls (P : C → Prop) : Prog C R α → Prop
  | .ret _ => True
  | .call c next => P c ∧ ∀ r, (next r).Calls P

@[simp]
theorem calls_ret (P : C → Prop) (a : α) : (ret a : Prog C R α).Calls P := trivial

@[simp]
theorem calls_call (P : C → Prop) (c : C) (next : R c → Prog C R α) :
    (call c next).Calls P ↔ P c ∧ ∀ r, (next r).Calls P := Iff.rfl

theorem calls_bind {P : C → Prop} {p : Prog C R α} {f : α → Prog C R β} (hp : p.Calls P)
    (hf : ∀ a, (f a).Calls P) : (p >>= f).Calls P := by
  induction p with
  | ret a => exact hf a
  | call c next ih => exact ⟨hp.1, fun r => ih r (hp.2 r)⟩

theorem calls_mono {P Q : C → Prop} {p : Prog C R α} (h : ∀ c, P c → Q c) (hp : p.Calls P) :
    p.Calls Q := by
  induction p with
  | ret a => trivial
  | call c next ih => exact ⟨h c hp.1, fun r => ih r (hp.2 r)⟩

theorem calls_ite {P : C → Prop} {b : Prop} [Decidable b] {p q : Prog C R α} (hp : b → p.Calls P)
    (hq : ¬ b → q.Calls P) : (if b then p else q).Calls P := by
  by_cases h : b
  · rw [if_pos h]; exact hp h
  · rw [if_neg h]; exact hq h

/-- `P` holds of the program, and of what is left of it after any calls. -/
def Always (P : Prog C R α → Prop) : Prog C R α → Prop
  | .ret a => P (.ret a)
  | .call c next => P (.call c next) ∧ ∀ r, (next r).Always P

theorem Always.here {P : Prog C R α → Prop} {p : Prog C R α} (h : p.Always P) : P p := by
  cases p with
  | ret a => exact h
  | call c next => exact h.1

theorem bind_assoc {γ : Type} (p : Prog C R α) (f : α → Prog C R β) (g : β → Prog C R γ) :
    (p >>= f) >>= g = p >>= fun a => f a >>= g := by
  induction p with
  | ret a => rfl
  | call c next ih => exact congrArg (call c) (funext ih)

end Prog

end Stomp
