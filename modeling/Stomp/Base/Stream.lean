import Stomp.Base.Split

/-!
# Streams that are read piece by piece

What was written to a stream is the pieces that were read, each with its terminator, and what is
left.
-/

open Stomp.Split

namespace Stomp

variable {α : Type} {delim : α}

/-- Of what was written, the pieces `ps` were read, and `left` is left. -/
structure Consumed (delim : α) (written : List α) (ps : List (List α)) (left : List α) : Prop where
  closed : ∀ p ∈ ps, delim ∉ p
  eq : written = unlines delim ps ++ left

namespace Consumed

variable {written left : List α} {ps : List (List α)}

theorem start (delim : α) (written : List α) : Consumed delim written [] written := ⟨by simp, rfl⟩

theorem write (h : Consumed delim written ps left) (xs : List α) :
    Consumed delim (written ++ xs) ps (left ++ xs) :=
  ⟨h.closed, by rw [h.eq, List.append_assoc]⟩

theorem read {piece rest : List α} (h : Consumed delim written ps (piece ++ delim :: rest))
    (hp : delim ∉ piece) : Consumed delim written (ps ++ [piece]) rest where
  closed p hm := by
    rcases List.mem_append.mp hm with hm | hm
    · exact h.closed p hm
    · rwa [List.mem_singleton.mp hm]
  eq := by
    rw [h.eq]
    simp [unlines]

end Consumed

variable [DecidableEq α]

namespace Split

theorem pieces_terminated (delim : α) (xs : List α) : pieces delim (xs ++ [delim]) = xs.splitOn delim := by
  rw [pieces, List.splitOn_append_cons_self, List.splitOn_nil, List.dropLast_concat]

theorem pieces_append (delim : α) (xs ys : List α) :
    pieces delim (xs ++ delim :: ys) = pieces delim (xs ++ [delim]) ++ pieces delim ys := by
  rw [pieces_terminated, pieces, List.splitOn_append_cons_self,
    List.dropLast_append_of_ne_nil (List.splitOn_ne_nil _ _), pieces]

theorem pieces_flatMap_append {β : Type} (f : β → List α) (l : List β) (ys : List α) :
    pieces delim (l.flatMap (fun x => f x ++ [delim]) ++ ys) =
      l.flatMap (fun x => pieces delim (f x ++ [delim])) ++ pieces delim ys := by
  induction l with
  | nil => rfl
  | cons x l ih =>
    rw [List.flatMap_cons, List.flatMap_cons, List.append_assoc, List.append_assoc,
      List.append_assoc, List.singleton_append, pieces_append, ih]

theorem pieces_unlines (lines : List (List α)) (ys : List α) (h : ∀ line ∈ lines, delim ∉ line) :
    pieces delim (unlines delim lines ++ ys) = lines ++ pieces delim ys := by
  induction lines with
  | nil => rfl
  | cons line lines ih =>
    rw [unlines_cons, List.append_assoc, List.cons_append,
      pieces_cons _ _ _ (h line List.mem_cons_self), ih fun x hx => h x (List.mem_cons_of_mem _ hx),
      List.cons_append]

theorem pieces_snoc (delim : α) (l : List α) (b : α) :
    pieces delim (l ++ [b]) =
      if b = delim then pieces delim l ++ [unfinished delim l] else pieces delim l := by
  rcases eq_open_or_cons delim l with h | ⟨xs, rest, hxs, rfl⟩
  · rw [pieces_open delim l h, unfinished_open delim l h]
    split
    · next hb =>
      rw [hb, pieces_cons delim l [] h]
      rfl
    · next hb => exact pieces_open delim _ (by simp [h, Ne.symm hb])
  · rw [List.append_assoc, List.cons_append, pieces_cons delim xs _ hxs,
      pieces_cons delim xs _ hxs, unfinished_cons delim xs _ hxs, pieces_snoc delim rest b]
    split <;> rfl
  termination_by l.length

end Split

theorem consumed_pieces (l : List α) : Consumed delim l (pieces delim l) (unfinished delim l) := by
  induction l using List.reverseRecOn with
  | nil => exact Consumed.start delim []
  | append_singleton l b ih =>
    have hwrite := ih.write [b]
    rw [pieces_snoc, unfinished_snoc]
    by_cases hb : b = delim
    · subst hb
      rw [if_pos rfl, if_pos rfl]
      exact hwrite.read (not_mem_unfinished _ l)
    · rwa [if_neg hb, if_neg hb]

theorem Consumed.pieces_eq {written left : List α} {ps : List (List α)}
    (h : Consumed delim written ps left) : ps ++ pieces delim left = pieces delim written := by
  rw [h.eq, pieces_unlines _ _ h.closed]

end Stomp
