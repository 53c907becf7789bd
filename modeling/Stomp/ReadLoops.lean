import Stomp.Codec
import Stomp.Protocol

/-!
# The read loops of the two modes

Both handlers decode the same stream and pass the frames to `process`. One looks at
`shouldTerminate` before every byte, the other goes through whole buffers.
-/

namespace Stomp

open Split Utf8

/-- What the read loops use of a protocol: its state after a frame, and the test of the end. -/
structure MessagingProtocol (P : Type) where
  process : P → StompFrame → P
  shouldTerminate : P → Bool

/-! ## The loops -/

/-- The frames that `run` of the blocking handler passes to `process`, for a protocol in state `p`
and the bytes that `in.read()` will return. -/
def BlockingConnectionHandler.frames {P : Type} (M : MessagingProtocol P) (p : P)
    (encdec : StompMessageEncoderDecoder) : Bytes → List StompFrame
  | [] => []
  | b :: stream =>
    if M.shouldTerminate p then []
    else
      match encdec.decodeNextByte b with
      | (.null, encdec) => frames M p encdec stream
      | (.frame f, encdec) => f :: frames M (M.process p f) encdec stream
      -- the exception leaves `run`
      | (.exception, _) => []

namespace NonBlockingConnectionHandler

/-- The frames that a task of `continueRead` passes to `process`, and the decoder after it. -/
def taskFrames (encdec : StompMessageEncoderDecoder) :
    Bytes → List StompFrame × StompMessageEncoderDecoder
  | [] => ([], encdec)
  | b :: buf =>
    match encdec.decodeNextByte b with
    | (.null, encdec) => taskFrames encdec buf
    | (.frame f, encdec) => (f :: (taskFrames encdec buf).1, (taskFrames encdec buf).2)
    -- the exception ends the task, the next one goes on with its own buffer
    | (.exception, encdec) => ([], encdec)

/-- The frames of the tasks, in the order in which they were submitted. -/
def frames (encdec : StompMessageEncoderDecoder) : List Bytes → List StompFrame
  | [] => []
  | buf :: bufs => (taskFrames encdec buf).1 ++ frames (taskFrames encdec buf).2 bufs

end NonBlockingConnectionHandler

namespace MessagingProtocol

variable {P : Type} (M : MessagingProtocol P)

/-- The state after these frames. -/
def after (p : P) (fs : List StompFrame) : P := fs.foldl M.process p

/-- Where `run` stops in a buffer, with what the task there still goes through: all bytes that
follow the frame that made `shouldTerminate` true, or none after an exception. -/
def stop (p : P) (encdec : StompMessageEncoderDecoder) :
    Bytes → Option (StompMessageEncoderDecoder × Bytes)
  | [] => none
  | b :: buf =>
    if M.shouldTerminate p then some (encdec, b :: buf)
    else
      match encdec.decodeNextByte b with
      | (.null, encdec) => stop p encdec buf
      | (.frame f, encdec) => stop (M.process p f) encdec buf
      | (.exception, encdec) => some (encdec, [])

open StompMessageEncoderDecoder

/-- The tasks of these reads pass no frame. A read is given up at its first NUL when the bytes before
it are no frame, and where a piece gets longer than the buffer of the decoder can be. -/
def Quiet (piece : Bytes) : List Bytes → Prop
  | [] => True
  | buf :: bufs =>
    let piece := piece ++ buf.takeWhile (· ≠ 0)
    if 2 ^ 30 < piece.length then Quiet (piece.take (2 ^ 30)) bufs
    else if 0 ∈ buf then outcome piece = .exception ∧ Quiet [] bufs
    else Quiet piece bufs

/-- The bytes are the frames `fs` and the start of another one, and the session goes on. -/
structure GoesOn (p : P) (bs : Bytes) (fs : List StompFrame) : Prop where
  frames : (pieces 0 bs).map outcome = fs.map Decoded.frame
  fits : ∀ piece ∈ bs.splitOn 0, piece.length ≤ 2 ^ 30
  session : ∀ pre, pre <+: fs → M.shouldTerminate (M.after p pre) = false

open BlockingConnectionHandler NonBlockingConnectionHandler

variable {M}

theorem len_le (d : StompMessageEncoderDecoder) : d.len ≤ 2 ^ 30 := by
  obtain ⟨k, hk, hsize⟩ := d.size
  have hle : 2 ^ (10 + k) ≤ 2 ^ 30 := Nat.pow_le_pow_right (by decide) (by omega)
  have := d.len_le
  omega

theorem length_pending_le (d : StompMessageEncoderDecoder) : d.pending.length ≤ 2 ^ 30 :=
  d.length_pending ▸ len_le d

theorem decodeNextByte_push (d : StompMessageEncoderDecoder) {b : UInt8} (hb : b ≠ 0) :
    (d.pending.length < 2 ^ 30 ∧ ∃ d', d.decodeNextByte b = (.null, d') ∧
      d'.pending = d.pending ++ [b]) ∨
    (d.pending.length = 2 ^ 30 ∧ d.decodeNextByte b = (.exception, d)) := by
  rcases Nat.lt_or_eq_of_le (length_pending_le d) with hlt | heq
  · obtain ⟨hnull, hpending⟩ := d.decodeNextByte_ne_zero b hb (by rwa [← d.length_pending])
    exact .inl ⟨hlt, _, Prod.ext hnull rfl, hpending⟩
  · refine .inr ⟨heq, ?_⟩
    have hlen : d.len = 2 ^ 30 := d.length_pending ▸ heq
    have hfull : ¬ d.len < d.bytes.length := by
      obtain ⟨k, hk, hsize⟩ := d.size
      have hle : 2 ^ (10 + k) ≤ 2 ^ 30 := Nat.pow_le_pow_right (by decide) (by omega)
      omega
    have hnone : d.pushByte b = none := by
      rw [pushByte, dif_neg hfull, dif_pos (by rw [hlen]; decide)]
    rw [decodeNextByte, if_neg hb, hnone]

theorem GoesOn.running {p : P} {bs : Bytes} {fs : List StompFrame} (h : M.GoesOn p bs fs) :
    M.shouldTerminate p = false := h.session [] (List.nil_prefix)

end MessagingProtocol

/-! ## The messaging protocol of the server -/

/-- What the shared tables answer to one connection, for each of its frames and each call that the
handler of the frame makes. -/
abbrev Answers := Nat → Nat → (k : Call) → Reply k

namespace StompMessagingProtocolImpl

/-- A call, with these answers to the calls of the handler. -/
def answered (answers : Nat → (k : Call) → Reply k) :
    Prog.Answer Call Reply (StompMessagingProtocolImpl × Nat)
  | .put self, (_, n) => ((), self, n + 1)
  | k, (self, n) => (answers n k, self, n + 1)

end StompMessagingProtocolImpl

end Stomp
