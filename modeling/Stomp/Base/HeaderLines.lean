import Stomp.Base.Split
import Stomp.Base.Table

/-!
# A first line, header lines, a blank line and the rest

The layout over any alphabet with an end of line and a colon, and what a reader of it finds.
-/

open Stomp.Split

namespace Stomp.HeaderLines

variable {α : Type}

/-- A header line without its end. -/
def line (colon : α) (e : (_ : List α) × List α) : List α := e.1 ++ colon :: e.2

def layout (nl colon : α) (command : List α) (headers : List ((_ : List α) × List α))
    (rest : List α) : List α :=
  command ++ nl :: (unlines nl (headers.map (line colon)) ++ nl :: rest)

theorem line_ok {nl colon : α} {e : (_ : List α) × List α} (hne : nl ≠ colon) (hk : nl ∉ e.1)
    (hv : nl ∉ e.2) :
    nl ∉ line colon e ∧ line colon e ≠ [] := by
  simp [line, hk, hv, hne]

variable [DecidableEq α]

/-- A reader puts one header line into its table, and passes over a line with no colon. -/
def put (colon : α) (headers : Table (List α) (List α)) (l : List α) : Table (List α) (List α) :=
  match splitOnce [colon] l with
  | (key, some value) => headers.insert key value
  | (_, none) => headers

variable {nl colon : α}

theorem put_line (headers : Table (List α) (List α)) (e : (_ : List α) × List α)
    (h : colon ∉ e.1) : put colon headers (line colon e) = headers.insert e.1 e.2 := by
  simp [put, line, splitOnce_single colon e.1 e.2 h]

theorem foldl_put (es : List ((_ : List α) × List α)) (headers : Table (List α) (List α))
    (h : ∀ e ∈ es, colon ∉ e.1) :
    (es.map (line colon)).foldl (put colon) headers =
      es.foldl (fun t e => t.insert e.1 e.2) headers := by
  induction es generalizing headers with
  | nil => rfl
  | cons e es ih =>
    simp only [List.map_cons, List.foldl_cons, put_line headers e (h e List.mem_cons_self)]
    exact ih _ fun x hx => h x (List.mem_cons_of_mem _ hx)

theorem lookup_foldl_put (headers : Table (List α) (List α)) (k : List α)
    (h : ∀ e ∈ headers.entries, colon ∉ e.1) :
    ((headers.entries.map (line colon)).foldl (put colon) ∅).lookup k = headers.lookup k := by
  rw [foldl_put _ _ h, Table.lookup_foldl_entries]

theorem exists_line (lines : List (List α)) (t : Table (List α) (List α)) {k v : List α}
    (h : (lines.foldl (put colon) t).lookup k = some v) :
    t.lookup k = some v ∨ colon ∉ k ∧ k ++ colon :: v ∈ lines := by
  induction lines generalizing t with
  | nil => exact .inl h
  | cons l lines ih =>
    rcases ih _ h with h | ⟨hk, hl⟩
    · unfold put at h
      split at h
      · next key value heq =>
        rw [Table.lookup_insert_if] at h
        split at h
        · next hkey =>
          cases h
          subst hkey
          obtain ⟨hc, rfl⟩ := splitOnce_single_some heq
          exact .inr ⟨hc, List.mem_cons_self⟩
        · exact .inl h
      · exact .inl h
    · exact .inr ⟨hk, List.mem_cons_of_mem _ hl⟩

/-! ## Cut at the blank line -/

theorem splitOnce_layout (hne : nl ≠ colon) (command rest : List α)
    (headers : List ((_ : List α) × List α)) (hc : nl ∉ command)
    (hh : ∀ e ∈ headers, nl ∉ e.1 ∧ nl ∉ e.2) :
    splitOnce [nl, nl] (layout nl colon command headers rest) =
      ([nl].intercalate (command :: headers.map (line colon)), some rest) := by
  apply splitOnce_unlines _ _ _ _ hc
  simp only [List.mem_map]
  rintro _ ⟨e, he, rfl⟩
  exact line_ok hne (hh e he).1 (hh e he).2

theorem splitAll_layout (hne : nl ≠ colon) (command : List α)
    (headers : List ((_ : List α) × List α)) (hc : nl ∉ command)
    (hh : ∀ e ∈ headers, nl ∉ e.1 ∧ nl ∉ e.2) :
    splitAll nl ([nl].intercalate (command :: headers.map (line colon))) =
      command :: headers.map (line colon) := by
  apply splitAll_intercalate _ _ _ hc
  simp only [List.mem_map]
  rintro _ ⟨e, he, rfl⟩
  exact line_ok hne (hh e he).1 (hh e he).2

end Stomp.HeaderLines
