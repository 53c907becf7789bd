import Mathlib.Data.List.AList
import Mathlib.Logic.Function.Basic

/-!
# Tables

A table is an association list with no repeated key. Its list order is the order in which
an iterator of the map gives the entries. Facts about a table are facts about `lookup`.
-/

namespace Stomp

abbrev Table (K V : Type) := AList fun _ : K => V

namespace Table

variable {K V W : Type}

/-! ## Values -/

def values (t : Table K V) : List V := t.entries.map (·.2)

def mapValues (f : V → W) (t : Table K V) : Table K W where
  entries := t.entries.map fun e => ⟨e.1, f e.2⟩
  nodupKeys := by
    have h : (t.entries.map fun e => (⟨e.1, f e.2⟩ : (_ : K) × W)).keys = t.entries.keys := by
      simp [List.keys, Function.comp_def]
    rw [List.NodupKeys, h]
    exact t.nodupKeys

/-- Gives each key a value from its key and its value. -/
def mapWithKey (f : K → V → W) (t : Table K V) : Table K W where
  entries := t.entries.map fun e => ⟨e.1, f e.1 e.2⟩
  nodupKeys := by
    have h : (t.entries.map fun e => (⟨e.1, f e.1 e.2⟩ : (_ : K) × W)).keys = t.entries.keys := by
      simp [List.keys, Function.comp_def]
    rw [List.NodupKeys, h]
    exact t.nodupKeys

def isEmpty (t : Table K V) : Bool := t.entries.isEmpty

def containsValue [DecidableEq V] (t : Table K V) (v : V) : Bool := t.values.contains v

/-- A loop over the entries that puts `f v` under each key. -/
def ofPairs [DecidableEq K] (l : List (K × V)) : Table K V :=
  l.foldl (fun t e => t.insert e.1 e.2) ∅

def putIfAbsent [DecidableEq K] (t : Table K V) (k : K) (v : V) : Table K V :=
  match t.lookup k with
  | some _ => t
  | none => t.insert k v

/-- Changes the value of a key that is there. -/
def modify [DecidableEq K] (t : Table K V) (k : K) (f : V → V) : Table K V :=
  match t.lookup k with
  | some v => t.insert k (f v)
  | none => t

/-! ## Lookup -/

section Lookup

variable [DecidableEq K]

theorem lookup_insert_if (t : Table K V) (k a : K) (v : V) :
    (t.insert k v).lookup a = if a = k then some v else t.lookup a := by
  split_ifs with h
  · rw [h, AList.lookup_insert]
  · exact AList.lookup_insert_ne h

theorem lookup_erase_if (t : Table K V) (k a : K) :
    (t.erase k).lookup a = if a = k then none else t.lookup a := by
  split_ifs with h
  · rw [h, AList.lookup_erase]
  · exact AList.lookup_erase_ne h

theorem lookup_of_lookup_erase {t : Table K V} {k a : K} {v : V}
    (h : (t.erase k).lookup a = some v) : a ≠ k ∧ t.lookup a = some v := by
  rw [lookup_erase_if] at h
  split_ifs at h with ha
  exact ⟨ha, h⟩

/-- The lookup function of a table. -/
def get (t : Table K V) (k : K) : Option V := t.lookup k

theorem get_insert (t : Table K V) (k : K) (v : V) :
    get (t.insert k v) = Function.update (get t) k (some v) := by
  funext a
  by_cases h : a = k
  · subst h
    simp [get]
  · simp [get, h]

theorem get_erase (t : Table K V) (k : K) : get (t.erase k) = Function.update (get t) k none := by
  funext a
  by_cases h : a = k
  · subst h
    simp [get]
  · simp [get, h]

theorem lookup_putIfAbsent (t : Table K V) (k a : K) (v : V) :
    (t.putIfAbsent k v).lookup a = if a = k then some ((t.lookup k).getD v) else t.lookup a := by
  unfold putIfAbsent
  cases h : t.lookup k with
  | some w =>
    split_ifs with ha
    · rw [ha, h]; rfl
    · rfl
  | none => rw [lookup_insert_if]; rfl

theorem lookup_modify (t : Table K V) (k a : K) (f : V → V) :
    (t.modify k f).lookup a = if a = k then (t.lookup k).map f else t.lookup a := by
  unfold modify
  cases h : t.lookup k with
  | some w => rw [lookup_insert_if]; rfl
  | none =>
    split_ifs with ha
    · rw [ha, h]; rfl
    · rfl

@[simp]
theorem lookup_mapValues (f : V → W) (t : Table K V) (k : K) :
    (t.mapValues f).lookup k = (t.lookup k).map f :=
  List.dlookup_map₂ (f := fun _ => f) k

theorem mapValues_erase (f : V → W) (t : Table K V) (k : K) :
    mapValues f (t.erase k) = (t.mapValues f).erase k := by
  refine AList.ext ?_
  show (t.entries.kerase k).map (fun e => (⟨e.1, f e.2⟩ : (_ : K) × W)) =
    (t.entries.map fun e => (⟨e.1, f e.2⟩ : (_ : K) × W)).kerase k
  induction t.entries with
  | nil => rfl
  | cons e es ih =>
    rw [List.map_cons]
    by_cases h : k = e.1
    · rw [List.kerase_cons_eq h]
      exact (List.kerase_cons_eq (s := (⟨e.1, f e.2⟩ : (_ : K) × W)) h).symm
    · rw [List.kerase_cons_ne h, List.map_cons, ih]
      exact (List.kerase_cons_ne (s := (⟨e.1, f e.2⟩ : (_ : K) × W)) h).symm

theorem mapValues_insert (f : V → W) (t : Table K V) (k : K) (v : V) :
    mapValues f (t.insert k v) = (t.mapValues f).insert k (f v) := by
  refine AList.ext ?_
  show (AList.entries (t.insert k v)).map (fun e => (⟨e.1, f e.2⟩ : (_ : K) × W)) = _
  rw [AList.entries_insert, AList.entries_insert, List.map_cons]
  exact congrArg _ (congrArg AList.entries (mapValues_erase f t k))

theorem insert_erase_self (t : Table K V) (k : K) (v : V) : (t.insert k v).erase k = t.erase k := by
  refine AList.ext ?_
  show (AList.entries (t.insert k v)).kerase k = t.entries.kerase k
  rw [AList.entries_insert]
  exact List.kerase_cons_eq rfl

theorem erase_of_lookup_none {t : Table K V} {k : K} (h : t.lookup k = none) : t.erase k = t :=
  AList.ext (List.kerase_of_notMem_keys (AList.lookup_eq_none.mp h))

@[simp]
theorem lookup_mapWithKey (f : K → V → W) (t : Table K V) (k : K) :
    (t.mapWithKey f).lookup k = (t.lookup k).map (f k) :=
  List.dlookup_map₂ k

theorem mem_entries_iff (t : Table K V) (k : K) (v : V) :
    (⟨k, v⟩ : (_ : K) × V) ∈ t.entries ↔ t.lookup k = some v :=
  AList.mem_lookup_iff.symm

theorem forall_lookup_iff (t : Table K V) (P : K → V → Prop) :
    (∀ k v, t.lookup k = some v → P k v) ↔ ∀ e ∈ t.entries, P e.1 e.2 := by
  constructor
  · exact fun h e he => h e.1 e.2 ((mem_entries_iff t e.1 e.2).mp he)
  · exact fun h k v hk => h ⟨k, v⟩ ((mem_entries_iff t k v).mpr hk)

instance decidableForall (t : Table K V) (P : K → V → Prop) [∀ k v, Decidable (P k v)] :
    Decidable (∀ k v, t.lookup k = some v → P k v) :=
  decidable_of_iff _ (forall_lookup_iff t P).symm

theorem mem_values_iff (t : Table K V) (v : V) : v ∈ t.values ↔ ∃ k, t.lookup k = some v := by
  simp only [values, List.mem_map]
  constructor
  · rintro ⟨⟨k, w⟩, he, rfl⟩
    exact ⟨k, (mem_entries_iff t k w).mp he⟩
  · rintro ⟨k, hk⟩
    exact ⟨⟨k, v⟩, (mem_entries_iff t k v).mpr hk, rfl⟩

theorem containsValue_iff [DecidableEq V] (t : Table K V) (v : V) :
    t.containsValue v = true ↔ ∃ k, t.lookup k = some v := by
  rw [containsValue, List.contains_iff_mem, mem_values_iff]

theorem isEmpty_iff (t : Table K V) : t.isEmpty = true ↔ ∀ k, t.lookup k = none := by
  rw [isEmpty, List.isEmpty_iff]
  constructor
  · intro h k
    rw [AList.lookup_eq_none, AList.mem_keys]
    simp [AList.keys, h, List.keys]
  · intro h
    rw [List.eq_nil_iff_forall_not_mem]
    rintro ⟨k, v⟩ he
    rw [mem_entries_iff, h k] at he
    cases he

theorem filter_key (l : List ((_ : K) × V)) (h : l.NodupKeys) (k : K) :
    l.filter (fun e => e.1 = k) = (l.dlookup k).toList.map fun v => ⟨k, v⟩ := by
  induction l with
  | nil => rfl
  | cons e l ih =>
    obtain ⟨a, v⟩ := e
    rw [List.nodupKeys_cons] at h
    by_cases ha : a = k
    · subst ha
      have hnone : l.dlookup a = none := List.dlookup_eq_none.mpr h.1
      simp [ih h.2, hnone]
    · have hcons : ((⟨a, v⟩ : (_ : K) × V) :: l).dlookup k = l.dlookup k :=
        List.dlookup_cons_ne l _ (Ne.symm ha)
      rw [hcons, ← ih h.2]
      simp [ha]

theorem filter_entries_key (t : Table K V) (k : K) :
    t.entries.filter (fun e => e.1 = k) = (t.lookup k).toList.map fun v => ⟨k, v⟩ :=
  filter_key t.entries t.nodupKeys k

/-! ## Sums -/

/-- The sum of `f` over the entries. -/
def sumOf {K V : Type} (f : V → Nat) (l : List ((_ : K) × V)) : Nat := l.foldr (fun e n => f e.2 + n) 0

/-- The sum of `f` over the values. -/
def total {K V : Type} (f : V → Nat) (t : Table K V) : Nat := sumOf f t.entries

theorem sumOf_cons {K V : Type} (f : V → Nat) (e : (_ : K) × V) (l : List ((_ : K) × V)) :
    sumOf f (e :: l) = f e.2 + sumOf f l := rfl

theorem sumOf_kerase (f : V → Nat) (l : List ((_ : K) × V)) (k : K) :
    sumOf f (l.kerase k) + (l.dlookup k).elim 0 f = sumOf f l := by
  induction l with
  | nil => rfl
  | cons e l ih =>
    obtain ⟨a, v⟩ := e
    by_cases ha : k = a
    · subst ha
      have hself : (⟨k, v⟩ :: l : List ((_ : K) × V)).kerase k = l := List.kerase_cons_eq rfl
      rw [hself, List.dlookup_cons_eq, sumOf_cons, Option.elim_some, Nat.add_comm]
    · rw [List.kerase_cons_ne ha, List.dlookup_cons_ne l _ ha, sumOf_cons, sumOf_cons]
      omega

theorem total_eq_zero {f : V → Nat} {t : Table K V} (h : ∀ k v, t.lookup k = some v → f v = 0) :
    total f t = 0 := by
  have hentries : ∀ e ∈ t.entries, f e.2 = 0 := fun e he =>
    h e.1 e.2 ((mem_entries_iff t e.1 e.2).mp he)
  unfold total
  generalize t.entries = l at hentries
  induction l with
  | nil => rfl
  | cons e l ih =>
    rw [sumOf_cons, hentries e List.mem_cons_self, Nat.zero_add]
    exact ih fun e he => hentries e (List.mem_cons_of_mem _ he)

theorem total_erase (f : V → Nat) (t : Table K V) (k : K) :
    total f (t.erase k) + (t.lookup k).elim 0 f = total f t :=
  sumOf_kerase f t.entries k

theorem total_insert (f : V → Nat) (t : Table K V) (k : K) (v : V) :
    total f (t.insert k v) + (t.lookup k).elim 0 f = total f t + f v := by
  have herase := total_erase f t k
  have hinsert : total f (t.insert k v) = f v + total f (t.erase k) := by
    unfold total
    rw [AList.entries_insert, sumOf_cons]
    rfl
  omega

theorem total_modify {f : V → Nat} {g : V → V} (h : ∀ v, f (g v) = f v) (t : Table K V) (k : K) :
    total f (t.modify k g) = total f t := by
  unfold modify
  cases hk : t.lookup k with
  | none => rfl
  | some v =>
    have hinsert := total_insert f t k (g v)
    rw [hk, Option.elim_some, h] at hinsert
    exact Nat.add_right_cancel hinsert

/-! ## A loop of puts -/

theorem lookup_foldl_insert (l : List (K × V)) (t : Table K V) (k : K) :
    (l.foldl (fun t e => t.insert e.1 e.2) t).lookup k =
      ((l.reverse.find? fun e => e.1 = k).map (·.2)).or (t.lookup k) := by
  induction l generalizing t with
  | nil => simp
  | cons e l ih =>
    rw [List.foldl_cons, ih, List.reverse_cons, List.find?_append, lookup_insert_if]
    by_cases h : e.1 = k
    · cases l.reverse.find? (fun e => decide (e.1 = k)) <;> simp [h]
    · simp [h, Ne.symm h]

theorem lookup_ofPairs (l : List (K × V)) (h : (l.map (·.1)).Nodup) (k : K) (v : V) :
    (ofPairs l).lookup k = some v ↔ (k, v) ∈ l := by
  rw [ofPairs, lookup_foldl_insert, AList.lookup_empty, Option.or_none]
  constructor
  · intro hv
    obtain ⟨⟨a, b⟩, he, rfl⟩ := Option.map_eq_some_iff.mp hv
    have hk := List.find?_some he
    simp only [decide_eq_true_eq] at hk
    subst hk
    exact List.mem_reverse.mp (List.mem_of_find?_eq_some he)
  · intro hm
    cases hf : l.reverse.find? (fun e => decide (e.1 = k)) with
    | none =>
      have := List.find?_eq_none.mp hf (k, v) (List.mem_reverse.mpr hm)
      simp at this
    | some e =>
      have hk := List.find?_some hf
      simp only [decide_eq_true_eq] at hk
      have he := List.mem_reverse.mp (List.mem_of_find?_eq_some hf)
      have : e = (k, v) := List.inj_on_of_nodup_map h he hm hk
      rw [this]
      rfl

theorem lookup_foldl_entries (t : Table K V) (k : K) :
    (t.entries.foldl (fun t e => t.insert e.1 e.2) (∅ : Table K V)).lookup k = t.lookup k := by
  have hkeys : ((t.entries.map fun e => (e.1, e.2)).map (·.1)).Nodup := by
    rw [List.map_map]
    exact t.nodupKeys
  have hpairs := lookup_ofPairs (t.entries.map fun e => (e.1, e.2)) hkeys k
  rw [ofPairs, List.foldl_map] at hpairs
  apply Option.ext
  intro v
  rw [hpairs v, ← mem_entries_iff]
  simp

end Lookup

end Table

end Stomp
