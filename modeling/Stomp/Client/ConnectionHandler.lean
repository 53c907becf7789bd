import Stomp.Base.Split
import Stomp.Base.Utf8

/-! # The socket of the client -/

open Stomp.Split Stomp.Utf8

namespace Stomp.Client

/-- The sending side of a socket. A call of `write_some` takes at least one byte, or it fails. -/
structure Socket where
  /-- How many bytes each call has room for, `none` where it fails. -/
  room : Nat → Option {n : Nat // 0 < n}
  calls : Nat
  written : Bytes

namespace Socket

/-- `write_some`: the number of bytes that it took. -/
def write_some (s : Socket) (buffer : Bytes) : Option Nat × Socket :=
  match s.room s.calls with
  | none => (none, { s with calls := s.calls + 1 })
  | some room =>
    let n := min room.1 buffer.length
    (some n, { s with calls := s.calls + 1, written := s.written ++ buffer.take n })

theorem write_some_pos {s s' : Socket} {buffer : Bytes} {n : Nat}
    (h : s.write_some buffer = (some n, s')) (hb : buffer ≠ []) : 0 < n := by
  have hlen := List.length_pos_of_ne_nil hb
  unfold write_some at h
  split at h
  · cases h
  · next room _ =>
    cases h
    have := room.2
    omega

end Socket

/-! ## Sending -/

/-- The loop of `sendBytes`, with `tmp` bytes written already. -/
def sendBytesFrom (bytes : Bytes) (tmp : Nat) (s : Socket) : Bool × Socket :=
  if _hlt : bytes.length > tmp then
    match _h : s.write_some (bytes.drop tmp) with
    | (none, s') => (false, s')
    | (some n, s') => sendBytesFrom bytes (tmp + n) s'
  else (true, s)
termination_by bytes.length - tmp
decreasing_by
  have := Socket.write_some_pos _h (by simpa using _hlt)
  omega

def sendBytes (bytes : Bytes) (s : Socket) : Bool × Socket := sendBytesFrom bytes 0 s

def sendFrameAscii (frame : Bytes) (delimiter : UInt8) (s : Socket) : Bool × Socket :=
  let r := sendBytes frame s
  if r.1 = false then (false, r.2) else sendBytes [delimiter] r.2

/-- No call of `write_some` fails. -/
def Socket.Healthy (s : Socket) : Prop := ∀ k, (s.room k).isSome

theorem Socket.write_some_written {s : Socket} (h : s.Healthy) (buffer : Bytes) :
    ∃ n s', s.write_some buffer = (some n, s') ∧ s'.Healthy ∧
      s'.written = s.written ++ buffer.take n := by
  obtain ⟨room, hroom⟩ := Option.isSome_iff_exists.mp (h s.calls)
  refine ⟨min room.1 buffer.length, ⟨s.room, s.calls + 1,
    s.written ++ buffer.take (min room.1 buffer.length)⟩, ?_, h, rfl⟩
  simp [write_some, hroom]

theorem sendBytesFrom_written (bytes : Bytes) (tmp : Nat) (s : Socket) (h : s.Healthy) :
    (sendBytesFrom bytes tmp s).1 = true ∧ (sendBytesFrom bytes tmp s).2.Healthy ∧
      (sendBytesFrom bytes tmp s).2.written = s.written ++ bytes.drop tmp := by
  induction hn : bytes.length - tmp using Nat.strong_induction_on generalizing tmp s with
  | _ n ih =>
    rw [sendBytesFrom]
    by_cases hlt : bytes.length > tmp
    · obtain ⟨k, s', hw, hs', hwritten⟩ := Socket.write_some_written h (bytes.drop tmp)
      have hpos := Socket.write_some_pos hw (by simpa using hlt)
      obtain ⟨h1, h2, h3⟩ := ih (bytes.length - (tmp + k)) (by omega) (tmp + k) s' hs' rfl
      rw [dif_pos hlt]
      split
      · next heq => rw [hw] at heq; cases heq
      · next heq =>
        rw [hw] at heq
        cases heq
        refine ⟨h1, h2, ?_⟩
        rw [h3, hwritten, List.append_assoc, ← List.drop_drop, List.take_append_drop]
    · rw [dif_neg hlt, List.drop_eq_nil_of_le (by omega), List.append_nil]
      exact ⟨rfl, h, rfl⟩

theorem sendFrameAscii_written (frame : Bytes) (delimiter : UInt8) (s : Socket) (h : s.Healthy) :
    (sendFrameAscii frame delimiter s).1 = true ∧ (sendFrameAscii frame delimiter s).2.Healthy ∧
      (sendFrameAscii frame delimiter s).2.written = s.written ++ frame ++ [delimiter] := by
  obtain ⟨h1, h2, h3⟩ := sendBytesFrom_written frame 0 s h
  obtain ⟨i1, i2, i3⟩ := sendBytesFrom_written [delimiter] 0 _ h2
  rw [List.drop_zero] at h3 i3
  rw [sendFrameAscii, sendBytes, if_neg (by simp [h1])]
  exact ⟨i1, i2, by rw [sendBytes, i3, h3]⟩

/-! ## Receiving -/

/-- `getFrameAscii` on the bytes that arrive: the frame and what follows it, or `none` when the
stream ends before the delimiter. -/
def getFrameAscii (frame : Bytes) (delimiter : UInt8) : Bytes → Option (Bytes × Bytes)
  | [] => none
  | ch :: rest =>
    let frame := if ch ≠ 0 then frame ++ [ch] else frame
    if delimiter ≠ ch then getFrameAscii frame delimiter rest else some (frame, rest)

/-- Frames read one after the other until the stream ends. -/
def readFrames : Nat → Bytes → List Bytes
  | 0, _ => []
  | fuel + 1, input =>
    match getFrameAscii [] 0 input with
    | none => []
    | some (frame, rest) => frame :: readFrames fuel rest

theorem getFrameAscii_frame (frame xs rest : Bytes) (h : 0 ∉ xs) :
    getFrameAscii frame 0 (xs ++ 0 :: rest) = some (frame ++ xs, rest) := by
  induction xs generalizing frame with
  | nil => simp [getFrameAscii]
  | cons x xs ih =>
    simp only [List.mem_cons, not_or] at h
    rw [List.cons_append, getFrameAscii, if_pos (Ne.symm h.1), if_pos h.1, ih _ h.2,
      List.append_assoc, List.singleton_append]

theorem getFrameAscii_end (frame xs : Bytes) (h : 0 ∉ xs) : getFrameAscii frame 0 xs = none := by
  induction xs generalizing frame with
  | nil => rfl
  | cons x xs ih =>
    simp only [List.mem_cons, not_or] at h
    rw [getFrameAscii, if_pos h.1, ih _ h.2]

theorem readFrames_eq (fuel : Nat) (input : Bytes) (h : input.length ≤ fuel) :
    readFrames fuel input = pieces 0 input := by
  induction fuel generalizing input with
  | zero =>
    rw [List.length_eq_zero_iff.mp (Nat.le_zero.mp h)]
    rfl
  | succ fuel ih =>
    by_cases hm : (0 : UInt8) ∈ input
    · obtain ⟨xs, rest, rfl, hx⟩ := List.eq_append_cons_of_mem hm
      rw [List.length_append, List.length_cons] at h
      rw [readFrames, getFrameAscii_frame [] xs rest hx, pieces_cons 0 xs rest hx,
        List.nil_append]
      exact congrArg _ (ih rest (by omega))
    · rw [readFrames, getFrameAscii_end [] input hm, pieces_open 0 input hm]

end Stomp.Client
