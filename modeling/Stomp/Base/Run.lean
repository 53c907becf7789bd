import Mathlib.Data.List.Basic

/-!
# Runs of a system

A system takes a step for a label when the label is possible in its state. A run keeps its
trace: each label with the state that it was taken in.
-/

namespace Stomp

structure System (S L : Type) where
  init : S
  step : S → L → Option S

namespace System

variable {S L : Type} (M : System S L)

inductive Run : List (S × L) → S → Prop
  | nil : Run [] M.init
  | snoc {trace s l s'} : Run trace s → M.step s l = some s' → Run (trace ++ [(s, l)]) s'

variable {M}

/-! ## Induction over runs -/

theorem Run.inv (I : S → Prop) (h0 : I M.init)
    (hstep : ∀ s l s', I s → M.step s l = some s' → I s') {trace : List (S × L)} {s : S}
    (h : M.Run trace s) : I s := by
  induction h with
  | nil => exact h0
  | snoc _ hs ih => exact hstep _ _ _ ih hs

theorem Run.inv_of (C : S → L → Prop) (I : S → Prop) (h0 : I M.init)
    (hstep : ∀ s l s', I s → C s l → M.step s l = some s' → I s') {trace : List (S × L)} {s : S}
    (h : M.Run trace s) (hC : ∀ e ∈ trace, C e.1 e.2) : I s := by
  induction h with
  | nil => exact h0
  | snoc _ hs ih =>
    exact hstep _ _ _ (ih fun e he => hC e (List.mem_append_left _ he))
      (hC _ (List.mem_append_right _ (List.mem_singleton_self _))) hs

/-- A property that one step keeps exactly when the step meets `C` holds in all states of a run
exactly when all its steps meet `C`. -/
theorem Run.all_iff (J I : S → Prop) (C : S → L → Prop) (hJ0 : J M.init)
    (hJ : ∀ s l s', J s → M.step s l = some s' → J s') (hI0 : I M.init)
    (hI : ∀ s l s', J s → I s → M.step s l = some s' → (I s' ↔ C s l)) {trace : List (S × L)}
    {s : S} (h : M.Run trace s) : ((∀ e ∈ trace, I e.1) ∧ I s) ↔ ∀ e ∈ trace, C e.1 e.2 := by
  induction h with
  | nil => simp [hI0]
  | @snoc trace s l s' hr hs ih =>
    have hJs : J s := Run.inv J hJ0 hJ hr
    have hsplit : (∀ e ∈ trace ++ [(s, l)], I e.1) ↔ (∀ e ∈ trace, I e.1) ∧ I s := by
      simp [or_imp, forall_and]
    rw [hsplit, ih]
    constructor
    · rintro ⟨hC, hI'⟩ e he
      rcases List.mem_append.mp he with he | he
      · exact hC e he
      · cases List.mem_singleton.mp he
        exact (hI s l s' hJs (ih.mpr hC).2 hs).mp hI'
    · intro hC
      have hpre : ∀ e ∈ trace, C e.1 e.2 := fun e he => hC e (List.mem_append_left _ he)
      exact ⟨hpre, (hI s l s' hJs (ih.mpr hpre).2 hs).mpr
        (hC _ (List.mem_append_right _ (List.mem_singleton_self _)))⟩

theorem snoc_eq_append_cons {α : Type} {trace pre post : List α} {x e : α}
    (h : trace ++ [x] = pre ++ e :: post) :
    (post = [] ∧ trace = pre ∧ x = e) ∨ ∃ post', post = post' ++ [x] ∧ trace = pre ++ e :: post' := by
  rcases List.eq_nil_or_concat post with rfl | ⟨post', y, rfl⟩
  · obtain ⟨rfl, hx⟩ := List.append_inj' h rfl
    exact .inl ⟨rfl, rfl, List.singleton_inj.mp hx⟩
  · have hconcat : trace ++ [x] = (pre ++ e :: post') ++ [y] := by simpa using h
    obtain ⟨rfl, hx⟩ := List.append_inj' hconcat rfl
    rw [List.singleton_inj.mp hx, List.concat_eq_append]
    exact .inr ⟨post', rfl, rfl⟩

theorem append_cons_cases {α : Type} {pre pre' post post' : List α} {e e' : α}
    (h : pre ++ e :: post = pre' ++ e' :: post') :
    (pre = pre' ∧ e = e' ∧ post = post') ∨ (∃ mid, pre' = pre ++ e :: mid ∧ post = mid ++ e' :: post') ∨
      ∃ mid, pre = pre' ++ e' :: mid ∧ post' = mid ++ e :: post := by
  rcases List.append_eq_append_iff.mp h with ⟨mid, hpre, hpost⟩ | ⟨mid, hpre, hpost⟩
  · cases mid with
    | nil =>
      cases hpost
      exact .inl ⟨by simpa using hpre.symm, rfl, rfl⟩
    | cons x mid =>
      cases hpost
      exact .inr (.inl ⟨mid, hpre, rfl⟩)
  · cases mid with
    | nil =>
      cases hpost
      exact .inl ⟨by simpa using hpre, rfl, rfl⟩
    | cons x mid =>
      cases hpost
      exact .inr (.inr ⟨mid, hpre, rfl⟩)

theorem Run.split {trace : List (S × L)} {s : S} (h : M.Run trace s) {pre post : List (S × L)}
    {e : S × L} (he : trace = pre ++ e :: post) :
    M.Run pre e.1 ∧ ∃ s', M.step e.1 e.2 = some s' ∧ M.Run (pre ++ [e]) s' := by
  induction h generalizing post with
  | nil => simp at he
  | @snoc trace s l s' hr hs ih =>
    obtain ⟨-, rfl, rfl⟩ | ⟨post', -, htrace⟩ := snoc_eq_append_cons he
    · exact ⟨hr, s', hs, hr.snoc hs⟩
    · exact ih htrace

theorem Run.after (I : S → Prop) {trace : List (S × L)} {s : S} (h : M.Run trace s)
    {pre post : List (S × L)} {e : S × L} (he : trace = pre ++ e :: post)
    (hfirst : ∀ s', M.step e.1 e.2 = some s' → I s')
    (hstep : ∀ x ∈ post, ∀ s', I x.1 → M.step x.1 x.2 = some s' → I s') : I s := by
  induction h generalizing post with
  | nil => simp at he
  | @snoc trace s l s' hr hs ih =>
    obtain ⟨-, -, rfl⟩ | ⟨post', rfl, htrace⟩ := snoc_eq_append_cons he
    · exact hfirst s' hs
    · have hlast := hstep _ (List.mem_append_right _ (List.mem_singleton_self _)) s'
      exact hlast (ih htrace fun x hx => hstep x (List.mem_append_left _ hx)) hs

theorem Run.since (I : List (S × L) → S → Prop) {trace : List (S × L)} {s : S} (h : M.Run trace s)
    {pre post : List (S × L)} {e : S × L} (he : trace = pre ++ e :: post)
    (hfirst : ∀ s', M.step e.1 e.2 = some s' → I [] s')
    (hstep : ∀ mid s l s', M.Run (pre ++ e :: mid) s → I mid s → M.step s l = some s' →
      I (mid ++ [(s, l)]) s') : I post s := by
  induction h generalizing post with
  | nil => simp at he
  | @snoc trace s l s' hr hs ih =>
    obtain ⟨rfl, -, rfl⟩ | ⟨mid, rfl, rfl⟩ := snoc_eq_append_cons he
    · exact hfirst s' hs
    · exact hstep mid s l s' hr (ih rfl) hs

/-! ## Runs that are computed -/

variable (M)

/-- The trace and the last state of the run with these labels, if each is possible. -/
def exec : List L → Option (List (S × L) × S)
  | ls => ls.foldlM (fun r l => (M.step r.2 l).map fun s' => (r.1 ++ [(r.2, l)], s')) ([], M.init)

variable {M}

theorem run_foldlM (ls : List L) {r r' : List (S × L) × S} (hr : M.Run r.1 r.2)
    (h : ls.foldlM (fun r l => (M.step r.2 l).map fun s' => (r.1 ++ [(r.2, l)], s')) r = some r') :
    M.Run r'.1 r'.2 := by
  induction ls generalizing r with
  | nil =>
    cases h
    exact hr
  | cons l ls ih =>
    rw [List.foldlM_cons] at h
    obtain ⟨q, hq, h⟩ := Option.bind_eq_some_iff.mp h
    obtain ⟨s', hs, rfl⟩ := Option.map_eq_some_iff.mp hq
    exact ih (hr.snoc hs) h

theorem exec_run {ls : List L} {r : List (S × L) × S} (h : M.exec ls = some r) : M.Run r.1 r.2 :=
  run_foldlM ls .nil h

theorem labels_foldlM (ls : List L) {r r' : List (S × L) × S}
    (h : ls.foldlM (fun r l => (M.step r.2 l).map fun s' => (r.1 ++ [(r.2, l)], s')) r = some r') :
    r'.1.map (·.2) = r.1.map (·.2) ++ ls := by
  induction ls generalizing r with
  | nil =>
    cases h
    simp
  | cons l ls ih =>
    rw [List.foldlM_cons] at h
    obtain ⟨q, hq, h⟩ := Option.bind_eq_some_iff.mp h
    obtain ⟨s', hs, rfl⟩ := Option.map_eq_some_iff.mp hq
    simpa using ih h

/-- A run with these labels that a computation shows to satisfy `p`. -/
theorem exists_run_labels (ls : List L) (p : List (S × L) → S → Bool)
    (h : (M.exec ls).any (fun r => p r.1 r.2) = true) :
    ∃ trace s, M.Run trace s ∧ trace.map (·.2) = ls ∧ p trace s = true := by
  cases hr : M.exec ls with
  | none => simp [hr] at h
  | some r => exact ⟨r.1, r.2, exec_run hr, labels_foldlM ls hr, by simpa [hr] using h⟩

theorem exists_run (ls : List L) (p : List (S × L) → S → Bool)
    (h : (M.exec ls).any (fun r => p r.1 r.2) = true) : ∃ trace s, M.Run trace s ∧ p trace s = true := by
  obtain ⟨trace, s, hr, -, hp⟩ := exists_run_labels ls p h
  exact ⟨trace, s, hr, hp⟩

end System

/-! ## What happened and was not undone -/

section Since

variable {α : Type} (P Q : α → Prop)

/-- There was a `P`, and no `Q` after it. -/
def Since : List α → Prop
  | [] => False
  | e :: trace => (P e ∧ ∀ x ∈ trace, ¬ Q x) ∨ Since trace

instance decidableSince [DecidablePred P] [DecidablePred Q] : DecidablePred (Since P Q)
  | [] => isFalse id
  | e :: trace =>
    have := decidableSince trace
    inferInstanceAs (Decidable ((P e ∧ ∀ x ∈ trace, ¬ Q x) ∨ Since P Q trace))

theorem since_snoc (trace : List α) (e : α) :
    Since P Q (trace ++ [e]) ↔ P e ∨ (Since P Q trace ∧ ¬ Q e) := by
  induction trace with
  | nil => simp [Since]
  | cons x trace ih =>
    rw [List.cons_append, Since, Since, ih]
    have hall : (∀ y ∈ trace ++ [e], ¬ Q y) ↔ (∀ y ∈ trace, ¬ Q y) ∧ ¬ Q e := by
      simp [or_imp, forall_and]
    rw [hall, ← and_assoc, or_left_comm, ← or_and_right]

theorem since_append (l l' : List α) :
    Since P Q (l ++ l') ↔ (Since P Q l ∧ ∀ x ∈ l', ¬ Q x) ∨ Since P Q l' := by
  induction l with
  | nil => simp [Since]
  | cons x l ih =>
    rw [List.cons_append, Since, Since, ih]
    have hall : (∀ y ∈ l ++ l', ¬ Q y) ↔ (∀ y ∈ l, ¬ Q y) ∧ ∀ y ∈ l', ¬ Q y := by
      simp [or_imp, forall_and]
    rw [hall, ← and_assoc, or_and_right, or_assoc]

theorem since_iff (trace : List α) :
    Since P Q trace ↔ ∃ pre e post, trace = pre ++ e :: post ∧ P e ∧ ∀ x ∈ post, ¬ Q x := by
  induction trace with
  | nil => simp [Since]
  | cons x trace ih =>
    rw [Since, ih]
    constructor
    · rintro (⟨hx, hall⟩ | ⟨pre, e, post, rfl, h⟩)
      · exact ⟨[], x, trace, rfl, hx, hall⟩
      · exact ⟨x :: pre, e, post, rfl, h⟩
    · rintro ⟨pre, e, post, heq, he, hall⟩
      cases pre with
      | nil =>
        cases heq
        exact .inl ⟨he, hall⟩
      | cons y pre =>
        cases heq
        exact .inr ⟨pre, e, post, rfl, he, hall⟩

end Since

theorem forall_split {α : Type} {P : List α → α → Prop} {trace : List α}
    (h : ∀ i (hi : i < trace.length), P (trace.take i) (trace.get ⟨i, hi⟩)) :
    ∀ pre e post, trace = pre ++ e :: post → P pre e := by
  rintro pre e post rfl
  simpa using h pre.length (by simp)

end Stomp
