import Stomp.Base.Table

/-!
# Computations that can throw

A computation on a state ends with a value or with an exception; what it did to the state
before an exception stays. The operations of Java that throw are here: on a null reference, on
an index, on a length, and on a map that takes no null.
-/

namespace Stomp

inductive Throwable where
  | nullPointer
  | indexOutOfBounds
  | negativeArraySize
  | numberFormat
  deriving DecidableEq

abbrev Throws (S : Type) := ExceptT Throwable (StateM S)

namespace Throws

variable {S α β γ : Type}

def result (m : Throws S α) (s : S) : Except Throwable α × S := m.run.run s

/-- The computation ends normally, with a value and a state. -/
def Ends (m : Throws S α) (s : S) (a : α) (s' : S) : Prop := m.result s = (.ok a, s')

/-! ## How programs end -/

section Rules

variable {m : Throws S α} {f : α → Throws S β} {s s' s'' : S} {a : α} {b : β}

theorem ends_pure (a : α) (s : S) : Ends (pure a : Throws S α) s a s := rfl

theorem result_bind (h : Ends m s a s') (f : α → Throws S β) :
    (m >>= f).result s = (f a).result s' := by
  have hm : m.run.run s = (.ok a, s') := h
  show (ExceptT.run (m >>= f)).run s = _
  rw [ExceptT.run_bind, StateT.run_bind, hm]
  rfl

theorem Ends.bind (h : Ends m s a s') (hf : Ends (f a) s' b s'') : Ends (m >>= f) s b s'' :=
  (result_bind h f).trans hf

theorem Ends.map (h : Ends m s a s') (g : α → β) : Ends (g <$> m) s (g a) s' := by
  rw [map_eq_pure_bind]
  exact h.bind (ends_pure _ _)

theorem result_bind_error {e : Throwable} (h : m.result s = (.error e, s'))
    (f : α → Throws S β) : (m >>= f).result s = (.error e, s') := by
  have hm : m.run.run s = (.error e, s') := h
  show (ExceptT.run (m >>= f)).run s = _
  rw [ExceptT.run_bind, StateT.run_bind, hm]
  rfl

theorem ends_get (s : S) : Ends (get : Throws S S) s s s := rfl

theorem ends_set (s s' : S) : Ends (set s' : Throws S PUnit) s ⟨⟩ s' := rfl

theorem ends_modify (g : S → S) (s : S) : Ends (modify g : Throws S PUnit) s ⟨⟩ (g s) := rfl

theorem Ends.catches (h : Ends m s a s') (handler : Throwable → Throws S α) :
    Ends (tryCatch m handler) s a s' := by
  have hm : m.run.run s = (.ok a, s') := h
  show (ExceptT.run (tryCatch m handler)).run s = _
  rw [ExceptT.run_tryCatch, StateT.run_bind, hm]
  rfl

theorem catches_ends {e : Throwable} {handler : Throwable → Throws S α}
    (h : m.result s = (.error e, s')) (hh : Ends (handler e) s' a s'') :
    Ends (tryCatch m handler) s a s'' := by
  have hm : m.run.run s = (.error e, s') := h
  show (ExceptT.run (tryCatch m handler)).run s = _
  rw [ExceptT.run_tryCatch, StateT.run_bind, hm]
  exact hh

theorem Ends.ok (h : Ends m s a s') : ∃ a', (m.result s).1 = .ok a' := ⟨a, by rw [h]⟩

end Rules

/-! ## References, arrays and texts -/

def deref : Option α → Throws S α
  | some a => pure a
  | none => throw .nullPointer

theorem deref_ends (a : α) (s : S) : Ends (deref (some a)) s a s := rfl

def index (xs : List α) (i : Nat) : Throws S α :=
  match xs[i]? with
  | some x => pure x
  | none => throw .indexOutOfBounds

theorem index_ends {xs : List α} {i : Nat} {x : α} (h : xs[i]? = some x) (s : S) :
    Ends (index xs i) s x s := by
  rw [index, h]
  exact ends_pure x s

theorem index_throws {xs : List α} {i : Nat} (h : xs.length ≤ i) (s : S) :
    (index xs i).result s = (.error .indexOutOfBounds, s) := by
  rw [index, List.getElem?_eq_none h]
  rfl

/-- `xs[i] = a`, with the array that it makes. -/
def store (xs : List α) (i : Nat) (a : α) : Throws S (List α) :=
  if i < xs.length then pure (xs.set i a) else throw .indexOutOfBounds

theorem store_ends {xs : List α} {i : Nat} (h : i < xs.length) (a : α) (s : S) :
    Ends (store xs i a) s (xs.set i a) s := by
  rw [store, if_pos h]
  exact ends_pure _ s

/-- The elements from `start` up to `stop`. -/
def slice (xs : List α) (start stop : Nat) : Throws S (List α) :=
  if start ≤ stop ∧ stop ≤ xs.length then pure ((xs.take stop).drop start)
  else throw .indexOutOfBounds

theorem slice_ends {xs : List α} {n : Nat} (h : n ≤ xs.length) (s : S) :
    Ends (slice xs 0 n) s (xs.take n) s := by
  rw [slice, if_pos ⟨Nat.zero_le n, h⟩]
  exact ends_pure _ s

/-- A loop over the indices of an array, from any one on. It works on what `r` makes of the
accumulator of a loop that cannot throw. -/
theorem ends_foldlM_index {f : β → α → Throws S β} {g : γ → α → γ} {r : γ → β}
    (hf : ∀ acc x s, Ends (f (r acc) x) s (r (g acc x)) s) (before xs : List α) (acc : γ) (s : S) :
    Ends ((List.range' before.length xs.length).foldlM
      (fun acc i => index (before ++ xs) i >>= f acc) (r acc)) s (r (xs.foldl g acc)) s := by
  induction xs generalizing before acc with
  | nil => exact ends_pure (r acc) s
  | cons x xs ih =>
    rw [List.length_cons, List.range'_succ, List.foldlM_cons, List.foldl_cons]
    have hx : (before ++ x :: xs)[before.length]? = some x := by simp
    refine ((index_ends hx s).bind (hf acc x s)).bind ?_
    have hrest := ih (before ++ [x]) (g acc x)
    rwa [List.length_append, List.length_singleton, List.append_assoc, List.singleton_append]
      at hrest

/-! ## Maps that take no null -/

namespace ConcurrentHashMap

variable {K V : Type} [DecidableEq K]

def get (t : Table K V) (k : Option K) : Throws S (Option V) := do
  let k ← deref k
  pure (t.lookup k)

def containsKey (t : Table K V) (k : Option K) : Throws S Bool := do
  let k ← deref k
  pure (t.lookup k).isSome

def containsValue [DecidableEq V] (t : Table K V) (v : Option V) : Throws S Bool := do
  let v ← deref v
  pure (t.containsValue v)

/-- Each operation that writes gives the map that it makes. -/
def put (t : Table K V) (k : Option K) (v : Option V) : Throws S (Table K V) := do
  let k ← deref k
  let v ← deref v
  pure (t.insert k v)

def putIfAbsent (t : Table K V) (k : Option K) (v : Option V) : Throws S (Table K V) := do
  let k ← deref k
  let v ← deref v
  pure (t.putIfAbsent k v)

def remove (t : Table K V) (k : Option K) : Throws S (Table K V) := do
  let k ← deref k
  pure (t.erase k)

def getOrDefault (t : Table K V) (k : Option K) (v : V) : Throws S V := do
  let k ← deref k
  pure ((t.lookup k).getD v)

variable (t : Table K V) (k : K) (v : V) (s : S)

theorem get_ends : Ends (get t (some k)) s (t.lookup k) s := rfl

theorem containsKey_ends : Ends (containsKey t (some k)) s (t.lookup k).isSome s := rfl

omit [DecidableEq K] in
theorem containsValue_ends [DecidableEq V] :
    Ends (containsValue t (some v)) s (t.containsValue v) s := rfl

theorem put_ends : Ends (put t (some k) (some v)) s (t.insert k v) s := rfl

theorem putIfAbsent_ends : Ends (putIfAbsent t (some k) (some v)) s (t.putIfAbsent k v) s := rfl

theorem remove_ends : Ends (remove t (some k)) s (t.erase k) s := rfl

theorem getOrDefault_ends : Ends (getOrDefault t (some k) v) s ((t.lookup k).getD v) s := rfl

end ConcurrentHashMap

end Throws

end Stomp
