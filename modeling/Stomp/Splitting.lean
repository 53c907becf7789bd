import Mathlib.Data.List.ReduceOption
import Stomp.Base.Stream
import Stomp.Refinement

/-!
# A stream cut at its NULs

The decoder takes one byte after the other, and its buffer is never cleared. What it gives for a
stream are the frames of the pieces between the NULs, one at each NUL.
-/

open Stomp.Split Stomp.Utf8

namespace Stomp.Checked.StompMessageEncoderDecoder

open Throws

/-- The frame that `fromString` makes of the bytes before a NUL. -/
def Parses (piece : Bytes) (frame : StompFrame) : Prop :=
  Ends (StompFrame.fromString (some (Utf8.decode piece)) : Throws Unit StompFrame) () frame ()

/-- What a fresh decoder gave for some bytes, one by one, and how it stands after them. -/
structure Decodes (bs : Bytes) (results : List (Option StompFrame))
    (d : StompMessageEncoderDecoder) : Prop where
  ends : Ends (bs.mapM decodeNextByte) initial results d
  at_nuls : results.map Option.isSome = bs.map (· == 0)
  consumed : Consumed 0 bs (pieces 0 bs) (unfinished 0 bs)
  frames : List.Forall₂ Parses (pieces 0 bs) results.reduceOption
  len_eq : d.len = (unfinished 0 bs).length
  len_le : d.len ≤ d.bytes.length

/-! ## One byte more -/

theorem Parses.plain {piece : Bytes} {frame : StompFrame} (h : Parses piece frame) :
    ∃ f, Stomp.StompFrame.fromString (Utf8.decode piece) = some f ∧ f.checked = frame := by
  have hresult := Stomp.StompFrame.fromString_checked (Utf8.decode piece) ()
  rw [show _ = _ from h] at hresult
  cases hf : Stomp.StompFrame.fromString (Utf8.decode piece) with
  | none =>
    rw [hf] at hresult
    cases hresult
  | some f =>
    rw [hf] at hresult
    cases hresult
    exact ⟨f, rfl, rfl⟩

theorem mapM_snoc_ends {bs : Bytes} {b : UInt8} {results : List (Option StompFrame)}
    {r : Option StompFrame} {d d' d'' : StompMessageEncoderDecoder}
    (hbs : Ends (bs.mapM decodeNextByte) d results d') (hb : Ends (decodeNextByte b) d' r d'') :
    Ends ((bs ++ [b]).mapM decodeNextByte) d (results ++ [r]) d'' := by
  rw [List.mapM_append, List.mapM_cons, List.mapM_nil]
  exact hbs.bind ((hb.bind ((ends_pure [] d'').bind (ends_pure [r] d''))).bind (ends_pure _ d''))

section Step

variable {bs : Bytes} {results : List (Option StompFrame)}
  {e : Stomp.StompMessageEncoderDecoder}

theorem Decodes.push {b : UInt8} (h : Decodes bs results e.checked) (hb : b ≠ 0)
    (hlen : (unfinished 0 bs).length < 2 ^ 30) (hpending : e.pending = unfinished 0 bs) :
    ∃ e' : Stomp.StompMessageEncoderDecoder, e'.pending = unfinished 0 (bs ++ [b]) ∧
      Decodes (bs ++ [b]) (results ++ [none]) e'.checked := by
  have hroom : e.len < 2 ^ 30 := lt_of_eq_of_lt h.len_eq hlen
  have hpending' : (e.decodeNextByte b).2.pending = unfinished 0 (bs ++ [b]) := by
    rw [unfinished_snoc, if_neg hb, ← hpending]
    exact (e.decodeNextByte_ne_zero b hb hroom).2
  refine ⟨_, hpending', ⟨mapM_snoc_ends h.ends (e.decodeNextByte_push hb hroom), ?_,
    consumed_pieces _, ?_, ?_, (e.decodeNextByte b).2.len_le⟩⟩
  · rw [List.map_append, List.map_append, h.at_nuls]
    simp [hb]
  · rw [pieces_snoc, if_neg hb]
    simpa [List.reduceOption] using h.frames
  · rw [← hpending', Stomp.StompMessageEncoderDecoder.length_pending]
    rfl

theorem Decodes.pop {frame : StompFrame} (h : Decodes bs results e.checked)
    (hframe : Parses (unfinished 0 bs) frame) (hpending : e.pending = unfinished 0 bs) :
    ∃ e' : Stomp.StompMessageEncoderDecoder, e'.pending = unfinished 0 (bs ++ [0]) ∧
      Decodes (bs ++ [0]) (results ++ [some frame]) e'.checked := by
  obtain ⟨f, hf, rfl⟩ := hframe.plain
  have hpop := e.decodeNextByte_pop
  rw [hpending, hf] at hpop
  have hpending' : (e.decodeNextByte 0).2.pending = unfinished 0 (bs ++ [0]) := by
    rw [unfinished_snoc, if_pos rfl]
    exact e.decodeNextByte_zero.2
  refine ⟨_, hpending', ⟨mapM_snoc_ends h.ends hpop, ?_, consumed_pieces _, ?_, ?_,
    (e.decodeNextByte 0).2.len_le⟩⟩
  · rw [List.map_append, List.map_append, h.at_nuls]
    rfl
  · rw [pieces_snoc, if_pos rfl, List.reduceOption_append]
    exact List.rel_append h.frames (.cons hframe .nil)
  · rw [← hpending', Stomp.StompMessageEncoderDecoder.length_pending]
    rfl

end Step

/-! ## All bytes -/

theorem splitOn_eq (bs : Bytes) : bs.splitOn 0 = pieces 0 bs ++ [unfinished 0 bs] := by
  rw [pieces, unfinished, List.getLastD_eq_getLast?,
    List.getLast?_eq_some_getLast (List.splitOn_ne_nil 0 bs), Option.getD_some,
    List.dropLast_append_getLast]

theorem pieces_subset_snoc (bs : Bytes) (b : UInt8) : pieces 0 bs ⊆ pieces 0 (bs ++ [b]) := by
  rw [pieces_snoc]
  split
  · exact List.subset_append_left _ _
  · exact List.Subset.refl _

theorem short_of_snoc {bs : Bytes} {b : UInt8} {n : Nat}
    (h : ∀ piece ∈ (bs ++ [b]).splitOn 0, piece.length < n) :
    ∀ piece ∈ bs.splitOn 0, piece.length < n := by
  rw [splitOn_eq, unfinished_snoc] at h
  intro piece hm
  rw [splitOn_eq] at hm
  rcases List.mem_append.mp hm with hm | hm
  · exact h piece (List.mem_append_left _ (pieces_subset_snoc bs b hm))
  · obtain rfl := List.mem_singleton.mp hm
    by_cases hb : b = 0
    · refine h _ (List.mem_append_left _ ?_)
      rw [pieces_snoc, if_pos hb]
      exact List.mem_append_right _ (List.mem_singleton_self _)
    · have hlast := h _ (List.mem_append_right _ (List.mem_singleton_self _))
      rw [if_neg hb, List.length_append] at hlast
      exact Nat.lt_of_le_of_lt (Nat.le_add_right _ _) hlast

theorem decodes_stream (bs : Bytes) (hshort : ∀ piece ∈ bs.splitOn 0, piece.length < 2 ^ 30)
    (hparse : ∀ piece ∈ pieces 0 bs, ∃ frame, Parses piece frame) :
    ∀ pre, pre <+: bs → ∃ results, ∃ e : Stomp.StompMessageEncoderDecoder,
      e.pending = unfinished 0 pre ∧ Decodes pre results e.checked := by
  induction bs using List.reverseRecOn with
  | nil =>
    intro pre hpre
    obtain rfl := List.prefix_nil.mp hpre
    exact ⟨[], .initial, rfl, rfl, rfl, consumed_pieces _, .nil, rfl, Nat.zero_le _⟩
  | append_singleton bs b ih =>
    have hshort' := short_of_snoc hshort
    have ih := ih hshort' fun piece hm => hparse piece (pieces_subset_snoc bs b hm)
    intro pre hpre
    rcases List.prefix_concat_iff.mp hpre with rfl | hpre
    · obtain ⟨results, e, hpending, h⟩ := ih bs (List.prefix_refl bs)
      by_cases hb : b = 0
      · subst hb
        have hlast : unfinished 0 bs ∈ pieces 0 (bs ++ [0]) := by
          rw [pieces_snoc, if_pos rfl]
          exact List.mem_append_right _ (List.mem_singleton_self _)
        obtain ⟨frame, hframe⟩ := hparse _ hlast
        exact ⟨_, h.pop hframe hpending⟩
      · have hlast : unfinished 0 bs ∈ bs.splitOn 0 := by
          rw [splitOn_eq]
          exact List.mem_append_right _ (List.mem_singleton_self _)
        exact ⟨_, h.push hb (hshort' _ hlast) hpending⟩
    · exact ih pre hpre

/-- The decoder cuts a stream exactly at its NULs, as long as `fromString` does not throw. -/
theorem splits_at_nuls (bs : Bytes) (hshort : ∀ piece ∈ bs.splitOn 0, piece.length < 2 ^ 30)
    (hparse : ∀ piece ∈ pieces 0 bs, ∃ frame, Parses piece frame) :
    ∀ pre, pre <+: bs → ∃ results d, Decodes pre results d := by
  intro pre hpre
  obtain ⟨results, e, -, h⟩ := decodes_stream bs hshort hparse pre hpre
  exact ⟨results, e.checked, h⟩

/-- A frame, a shorter one, and the start of a third. -/
theorem splits_at_nuls_twice : ∃ results d, Decodes [65, 66, 67, 0, 68, 0, 69] results d := by
  refine splits_at_nuls [65, 66, 67, 0, 68, 0, 69] (by decide) ?_ _ (List.prefix_refl _)
  have hpieces : pieces 0 ([65, 66, 67, 0, 68, 0, 69] : Bytes) = [[65, 66, 67], [68]] := by decide
  rw [hpieces]
  intro piece hm
  rcases List.mem_cons.mp hm with rfl | hm
  · exact ⟨_, rfl⟩
  · rw [List.mem_singleton.mp hm]
    exact ⟨_, rfl⟩

end Stomp.Checked.StompMessageEncoderDecoder
