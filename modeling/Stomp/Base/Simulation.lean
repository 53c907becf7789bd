import Mathlib.Order.Monotone.Defs
import Mathlib.Order.Nat
import Stomp.Base.Run

/-!
# Simulations

A map of the states under which every step of a run of one system is a finite sequence of steps of
another. Runs of the first are then runs of the second, with the entries of each step in place of the
step. Where no map gives the steps, a run is built next to the run.
-/

namespace Stomp

namespace System

variable {S L T K : Type} (N : System T K)

/-! ## Several steps -/

/-- The state after steps with these labels, if each is possible. -/
def walk : List K → T → Option T
  | [], t => some t
  | k :: ks, t => (N.step t k).bind (walk ks)

/-- The entries that these steps leave in a trace. -/
def entries : List K → T → List (T × K)
  | [], _ => []
  | k :: ks, t => (t, k) :: ((N.step t k).map (entries ks)).getD []

@[simp]
theorem walk_nil (t : T) : N.walk [] t = some t := rfl

@[simp]
theorem entries_nil (t : T) : N.entries [] t = [] := rfl

@[simp]
theorem walk_one (k : K) (t : T) : N.walk [k] t = N.step t k := by
  unfold walk
  cases N.step t k <;> rfl

@[simp]
theorem entries_one (k : K) (t : T) : N.entries [k] t = [(t, k)] := by
  unfold entries
  cases N.step t k <;> rfl

theorem walk_two (k l : K) (t : T) : N.walk [k, l] t = (N.step t k).bind fun t' => N.step t' l := by
  rw [walk]
  congr 1
  funext t'
  exact N.walk_one l t'

theorem entries_two {k : K} (l : K) {t t' : T} (h : N.step t k = some t') :
    N.entries [k, l] t = [(t, k), (t', l)] := by
  rw [entries, h, Option.map_some, Option.getD_some, entries_one]

theorem mem_entries {ks : List K} {t : T} {x : T × K} (h : x ∈ N.entries ks t) : x.2 ∈ ks := by
  induction ks generalizing t with
  | nil => cases h
  | cons k ks ih =>
    unfold entries at h
    rcases List.mem_cons.mp h with rfl | h
    · exact List.mem_cons_self
    · cases hs : N.step t k with
      | none =>
        rw [hs] at h
        cases h
      | some t' =>
        rw [hs] at h
        exact List.mem_cons_of_mem _ (ih h)

variable {N}

/-- What a step keeps, several steps keep. -/
theorem walk_keeps {I : List (T × K) → T → Prop}
    (hI : ∀ trace t k t', I trace t → N.step t k = some t' → I (trace ++ [(t, k)]) t')
    {ks : List K} {trace : List (T × K)} {t t' : T} (h : I trace t)
    (hw : N.walk ks t = some t') : I (trace ++ N.entries ks t) t' := by
  induction ks generalizing trace t with
  | nil =>
    cases hw
    rwa [entries_nil, List.append_nil]
  | cons k ks ih =>
    obtain ⟨t₁, hs, hw⟩ := Option.bind_eq_some_iff.mp hw
    have hrest := ih (hI _ _ _ _ h hs) hw
    rw [List.append_assoc, List.singleton_append] at hrest
    rw [entries, hs]
    exact hrest

/-! ## One run next to another -/

/-- If every step of a run is matched by steps of the other system, there is one run of the other
system for the whole run, and a part of it for each part. -/
theorem Run.alongside {M : System S L} {Q : List (S × L) → S → List (T × K) → T → Prop}
    (h0 : Q [] M.init [] N.init)
    (hQ : ∀ trace s l s' trace' t, Q trace s trace' t → M.step s l = some s' →
      ∃ new t', Q (trace ++ [(s, l)]) s' (trace' ++ new) t')
    {trace : List (S × L)} {s : S} (h : M.Run trace s) :
    ∃ trace' t, ∃ cut : Nat → Nat, Monotone cut ∧ cut trace.length = trace'.length ∧
      Q trace s trace' t ∧ ∀ pre e post, trace = pre ++ e :: post →
        ∃ t₁, Q pre e.1 (trace'.take (cut pre.length)) t₁ := by
  induction h with
  | nil => exact ⟨[], N.init, fun _ => 0, fun _ _ _ => Nat.le_refl 0, rfl, h0, by simp⟩
  | @snoc trace s l s' _ hs ih =>
    obtain ⟨trace', t, cut, hmono, hlength, hq, hparts⟩ := ih
    obtain ⟨new, t', hq'⟩ := hQ _ _ _ _ _ _ hq hs
    have hcut : ∀ n, n ≤ trace.length → cut n ≤ trace'.length := fun n hn => hlength ▸ hmono hn
    have htake : ∀ n, n ≤ trace.length → (trace' ++ new).take (cut n) = trace'.take (cut n) :=
      fun n hn => List.take_append_of_le_length (hcut n hn)
    refine ⟨trace' ++ new, t', fun n => if n ≤ trace.length then cut n else (trace' ++ new).length,
      fun m n hmn => ?_, ?_, hq', fun pre e post heq => ?_⟩
    · by_cases hn : n ≤ trace.length
      · simpa [hn, hmn.trans hn] using hmono hmn
      · by_cases hm : m ≤ trace.length
        · simpa [hn, hm] using Nat.le_add_right_of_le (hcut m hm)
        · simp [hn, hm]
    · exact if_neg (by simp)
    · obtain ⟨-, rfl, rfl⟩ | ⟨post', -, rfl⟩ := snoc_eq_append_cons heq
      · refine ⟨t, ?_⟩
        dsimp only
        rw [if_pos (Nat.le_refl _), htake _ (Nat.le_refl _), hlength, List.take_length]
        exact hq
      · have hle : pre.length ≤ (pre ++ e :: post').length := by simp
        obtain ⟨t₁, ht₁⟩ := hparts pre e post' rfl
        refine ⟨t₁, ?_⟩
        dsimp only
        rw [if_pos hle, htake _ hle]
        exact ht₁

end System

/-! ## Simulations -/

variable {S L T K : Type}

structure Simulation (M : System S L) (N : System T K) where
  abs : S → T
  labels : S → L → List K
  init : abs M.init = N.init
  step : ∀ {trace s l s'}, M.Run trace s → M.step s l = some s' →
    N.walk (labels s l) (abs s) = some (abs s')

namespace Simulation

variable {M : System S L} {N : System T K} (σ : Simulation M N)

/-- What one entry of a trace is in the other system. -/
def image (e : S × L) : List (T × K) := N.entries (σ.labels e.1 e.2) (σ.abs e.1)

def trace (trace : List (S × L)) : List (T × K) := trace.flatMap σ.image

theorem trace_snoc (trace : List (S × L)) (e : S × L) :
    σ.trace (trace ++ [e]) = σ.trace trace ++ σ.image e := by
  unfold Simulation.trace
  rw [List.flatMap_append, List.flatMap_singleton]

theorem run {trace : List (S × L)} {s : S} (h : M.Run trace s) : N.Run (σ.trace trace) (σ.abs s) := by
  induction h with
  | nil =>
    rw [σ.init]
    exact .nil
  | snoc hr hs ih =>
    have hwalk := N.walk_keeps (fun _ _ _ _ h hs => h.snoc hs) ih (σ.step hr hs)
    rw [trace_snoc]
    exact hwalk

end Simulation

/-! ## What happened and was not undone -/

/-- In a list of pieces, the piece with the last `P` is the one that counts. -/
theorem since_flatMap {α β : Type} {P Q : β → Prop} (g : α → List β) (l : List α) :
    Since P Q (l.flatMap g) ↔
      Since (fun a => Since P Q (g a)) (fun a => ∃ x ∈ g a, Q x) l := by
  induction l with
  | nil => rfl
  | cons a l ih =>
    rw [List.flatMap_cons, since_append, ih, Since]
    simp only [List.mem_flatMap, not_exists, not_and, forall_exists_index, and_imp]
    exact or_congr (and_congr Iff.rfl ⟨fun h x hx y hy => h y x hx hy, fun h y x hx hy => h x hx y hy⟩)
      Iff.rfl

end Stomp
