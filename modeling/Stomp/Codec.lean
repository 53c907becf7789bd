import Stomp.Frame
import Stomp.Base.Utf8
import Stomp.Base.Decimal

/-! # The encoder and the decoder of the server -/

open Stomp.Split Stomp.Utf8

namespace Stomp

/-- What a call of `decodeNextByte` ends with. -/
inductive Decoded where
  | null
  | frame (f : StompFrame)
  | exception
  deriving DecidableEq

/-- The buffer starts with 1 KB and only ever doubles. -/
structure StompMessageEncoderDecoder where
  bytes : Bytes
  len : Nat
  len_le : len ≤ bytes.length
  size : ∃ k ≤ 20, bytes.length = 2 ^ (10 + k)

namespace StompMessageEncoderDecoder

def initial : StompMessageEncoderDecoder where
  bytes := List.replicate 1024 0
  len := 0
  len_le := Nat.zero_le _
  size := ⟨0, by decide, List.length_replicate⟩

/-- `Arrays.copyOf`, for a length that is not negative. -/
def copyOf (bytes : Bytes) (n : Nat) : Bytes := bytes.take n ++ List.replicate (n - bytes.length) 0

theorem length_copyOf (bytes : Bytes) (n : Nat) : (copyOf bytes n).length = n := by
  simp only [copyOf, List.length_append, List.length_take, List.length_replicate]
  omega

theorem doubled_size {d : StompMessageEncoderDecoder} (hfull : ¬ d.len < d.bytes.length)
    (hn : ¬ Decimal.wrap (d.len * 2) < 0) :
    (Decimal.wrap (d.len * 2)).toNat = d.len * 2 ∧ 0 < d.len ∧ ∃ k ≤ 20, d.len * 2 = 2 ^ (10 + k) := by
  obtain ⟨k, hk, hsize⟩ := d.size
  have hlen : d.len = 2 ^ (10 + k) := by have := d.len_le; omega
  have hpos : 0 < 2 ^ (10 + k) := Nat.two_pow_pos _
  by_cases h20 : k = 20
  · subst h20
    rw [hlen] at hn
    exact absurd (by decide) hn
  · have hle : 2 ^ (10 + k) ≤ 2 ^ 29 := Nat.pow_le_pow_right (by decide) (by omega)
    rw [Decimal.wrap_of_inRange ⟨by omega, by omega⟩]
    exact ⟨by omega, by omega, k + 1, by omega, by rw [hlen, ← Nat.pow_succ]; rfl⟩

/-- `none` is the `NegativeArraySizeException` of a length that 32 bits do not hold. -/
def pushByte (d : StompMessageEncoderDecoder) (nextByte : UInt8) : Option StompMessageEncoderDecoder :=
  if h : d.len < d.bytes.length then
    some ⟨d.bytes.set d.len nextByte, d.len + 1, by simpa using Nat.succ_le_of_lt h,
      by simpa using d.size⟩
  else if hn : Decimal.wrap (d.len * 2) < 0 then none
  else
    some ⟨(copyOf d.bytes (Decimal.wrap (d.len * 2)).toNat).set d.len nextByte, d.len + 1,
      by have := doubled_size h hn; simp only [List.length_set, length_copyOf]; omega,
      by have := doubled_size h hn; simp only [List.length_set, length_copyOf, this.1]; exact this.2.2⟩

def popFrame (d : StompMessageEncoderDecoder) : Decoded × StompMessageEncoderDecoder :=
  let message := Utf8.decode (d.bytes.take d.len)
  let d' := { d with len := 0, len_le := Nat.zero_le _ }
  match StompFrame.fromString message with
  | some f => (.frame f, d')
  | none => (.exception, d')

def decodeNextByte (d : StompMessageEncoderDecoder) (nextByte : UInt8) :
    Decoded × StompMessageEncoderDecoder :=
  if nextByte = 0 then d.popFrame
  else match d.pushByte nextByte with
    | some d' => (.null, d')
    | none => (.exception, d)

def encode (message : StompFrame) : Bytes := Utf8.encode message.toString

/-! ## One byte -/

/-- The bytes since the last NUL. -/
def pending (d : StompMessageEncoderDecoder) : Bytes := d.bytes.take d.len

theorem length_pending (d : StompMessageEncoderDecoder) : d.pending.length = d.len := by
  simp [pending, d.len_le]

@[simp]
theorem pending_initial : initial.pending = [] := rfl

theorem take_succ_set (bytes : Bytes) (n : Nat) (b : UInt8) (h : n < bytes.length) :
    (bytes.set n b).take (n + 1) = bytes.take n ++ [b] := by
  rw [List.take_set, List.take_succ_eq_append_getElem h, List.set_append]
  simp [h.le]

theorem take_copyOf (bytes : Bytes) (n len : Nat) (h : len ≤ bytes.length) (hn : len ≤ n) :
    (copyOf bytes n).take len = bytes.take len := by
  rw [copyOf, List.take_append_of_le_length (by simp; omega), List.take_take]
  simp [hn]

theorem pushByte_pending {d d' : StompMessageEncoderDecoder} {b : UInt8} (h : d.pushByte b = some d') :
    d'.pending = d.pending ++ [b] := by
  unfold pushByte at h
  split at h
  · next hlt =>
    cases h
    exact take_succ_set _ _ b hlt
  split at h
  · cases h
  · next hfull hn =>
    rw [← Option.some.inj h]
    obtain ⟨h2, hpos, -⟩ := doubled_size hfull hn
    simp only [pending, h2]
    rw [take_succ_set _ _ b (by rw [length_copyOf]; omega), take_copyOf _ _ _ d.len_le (by omega)]

theorem pushByte_isSome (d : StompMessageEncoderDecoder) (b : UInt8) (h : d.len < 2 ^ 30) :
    ∃ d', d.pushByte b = some d' := by
  unfold pushByte
  split
  · exact ⟨_, rfl⟩
  · have hwrap : Decimal.wrap (d.len * 2) = d.len * 2 :=
      Decimal.wrap_of_inRange ⟨by omega, by omega⟩
    rw [dif_neg (by omega)]
    exact ⟨_, rfl⟩

/-- What a NUL makes of the bytes before it. -/
def outcome (piece : Bytes) : Decoded :=
  match StompFrame.fromString (Utf8.decode piece) with
  | some f => .frame f
  | none => .exception

theorem outcome_ne_null (piece : Bytes) : outcome piece ≠ .null := by
  unfold outcome
  split <;> simp

theorem decodeNextByte_zero (d : StompMessageEncoderDecoder) :
    (d.decodeNextByte 0).1 = outcome d.pending ∧ (d.decodeNextByte 0).2.pending = [] := by
  simp only [decodeNextByte, if_true, popFrame, outcome, pending]
  cases StompFrame.fromString (Utf8.decode (d.bytes.take d.len)) <;> exact ⟨rfl, rfl⟩

theorem decodeNextByte_ne_zero (d : StompMessageEncoderDecoder) (b : UInt8) (hb : b ≠ 0)
    (h : d.len < 2 ^ 30) :
    (d.decodeNextByte b).1 = .null ∧ (d.decodeNextByte b).2.pending = d.pending ++ [b] := by
  obtain ⟨d', hd⟩ := pushByte_isSome d b h
  rw [decodeNextByte, if_neg hb, hd]
  exact ⟨rfl, pushByte_pending hd⟩

theorem decodeNextByte_clean (d : StompMessageEncoderDecoder) (b : UInt8) (h0 : 0 ∉ d.pending) :
    0 ∉ (d.decodeNextByte b).2.pending ∧
      ∀ f, (d.decodeNextByte b).1 = .frame f → ∃ piece, 0 ∉ piece ∧ outcome piece = .frame f := by
  by_cases hb : b = 0
  · subst hb
    obtain ⟨hr, hp⟩ := decodeNextByte_zero d
    rw [hr, hp]
    exact ⟨List.not_mem_nil, fun f hf => ⟨_, h0, hf⟩⟩
  · rw [decodeNextByte, if_neg hb]
    cases hd : d.pushByte b with
    | none => exact ⟨h0, fun f hf => by cases hf⟩
    | some d' =>
      refine ⟨?_, fun f hf => by cases hf⟩
      rw [pushByte_pending hd]
      simp [h0, Ne.symm hb]

theorem decodeNextByte_null {d : StompMessageEncoderDecoder} {b : UInt8}
    (h : (d.decodeNextByte b).1 = .null) :
    b ≠ 0 ∧ (d.decodeNextByte b).2.pending = d.pending ++ [b] := by
  have hb : b ≠ 0 := by
    rintro rfl
    rw [(decodeNextByte_zero d).1] at h
    exact outcome_ne_null _ h
  rw [decodeNextByte, if_neg hb] at h ⊢
  cases hd : d.pushByte b with
  | none => rw [hd] at h; cases h
  | some d' => exact ⟨hb, pushByte_pending hd⟩

theorem decodeNextByte_frame {d : StompMessageEncoderDecoder} {b : UInt8} {f : StompFrame}
    (h : (d.decodeNextByte b).1 = .frame f) :
    b = 0 ∧ outcome d.pending = .frame f ∧ (d.decodeNextByte b).2.pending = [] := by
  have hb : b = 0 := by
    by_contra hb
    rw [decodeNextByte, if_neg hb] at h
    split at h <;> cases h
  subst hb
  obtain ⟨hout, hpending⟩ := decodeNextByte_zero d
  exact ⟨rfl, hout.symm.trans h, hpending⟩

/-! ## A stream of bytes -/

/-- All bytes one by one: the results that are not null, and the decoder that is left. -/
def decodeAll (d : StompMessageEncoderDecoder) : Bytes → List Decoded × StompMessageEncoderDecoder
  | [] => ([], d)
  | b :: bs =>
    let r := d.decodeNextByte b
    let rest := decodeAll r.2 bs
    (if r.1 = .null then rest.1 else r.1 :: rest.1, rest.2)

theorem decodeAll_spec (bs : Bytes) (d : StompMessageEncoderDecoder) (h0 : 0 ∉ d.pending)
    (hlen : d.len + bs.length < 2 ^ 30) :
    (d.decodeAll bs).1 = (pieces 0 (d.pending ++ bs)).map outcome ∧
      (d.decodeAll bs).2.pending = unfinished 0 (d.pending ++ bs) := by
  induction bs generalizing d with
  | nil =>
    rw [List.append_nil, pieces_open 0 _ h0, unfinished_open 0 _ h0]
    exact ⟨rfl, rfl⟩
  | cons b bs ih =>
    rw [List.length_cons] at hlen
    by_cases hb : b = 0
    · subst hb
      obtain ⟨hr, hp⟩ := decodeNextByte_zero d
      have hl : (d.decodeNextByte 0).2.len = 0 := by rw [← length_pending, hp]; rfl
      obtain ⟨ih1, ih2⟩ := ih (d.decodeNextByte 0).2 (by simp [hp]) (by omega)
      rw [pieces_cons 0 _ _ h0, unfinished_cons 0 _ _ h0]
      rw [hp, List.nil_append] at ih1 ih2
      refine ⟨?_, ih2⟩
      simp only [decodeAll]
      rw [hr, if_neg (outcome_ne_null _), ih1, List.map_cons]
    · obtain ⟨hr, hp⟩ := decodeNextByte_ne_zero d b hb (by omega)
      have hl : (d.decodeNextByte b).2.len = d.len + 1 := by
        rw [← length_pending, hp, List.length_append, length_pending]; rfl
      obtain ⟨ih1, ih2⟩ := ih (d.decodeNextByte b).2 (by simp [hp, h0, Ne.symm hb]) (by omega)
      rw [hp, List.append_assoc, List.singleton_append] at ih1 ih2
      refine ⟨?_, ih2⟩
      simp only [decodeAll]
      rw [if_pos hr, ih1]

/-- A frame that the decoder gives for some stream. -/
def FromWire (f : StompFrame) : Prop := ∃ bs, .frame f ∈ (initial.decodeAll bs).1

theorem fromWire_of_outcome {piece : Bytes} {f : StompFrame} (h0 : 0 ∉ piece)
    (hlen : piece.length < 2 ^ 20) (h : outcome piece = .frame f) : FromWire f := by
  refine ⟨piece ++ [0], ?_⟩
  obtain ⟨hout, -⟩ := decodeAll_spec (piece ++ [0]) initial (by simp) (by
    rw [List.length_append, show initial.len = 0 from rfl, List.length_singleton]
    omega)
  rw [hout, pending_initial, List.nil_append, pieces_cons 0 piece [] h0, List.map_cons, h]
  exact List.mem_cons_self

theorem decodeAll_clean (bs : Bytes) (d : StompMessageEncoderDecoder) (h0 : 0 ∉ d.pending)
    (f : StompFrame) (hf : .frame f ∈ (d.decodeAll bs).1) :
    ∃ piece, 0 ∉ piece ∧ outcome piece = .frame f := by
  induction bs generalizing d with
  | nil => cases hf
  | cons b bs ih =>
    obtain ⟨hclean, hframe⟩ := decodeNextByte_clean d b h0
    rw [decodeAll] at hf
    by_cases hr : (d.decodeNextByte b).1 = .null
    · rw [if_pos hr] at hf
      exact ih _ hclean hf
    · rw [if_neg hr] at hf
      rcases List.mem_cons.mp hf with heq | hf
      · exact hframe f heq.symm
      · exact ih _ hclean hf

theorem FromWire.piece {f : StompFrame} (h : FromWire f) :
    ∃ piece, 0 ∉ piece ∧ outcome piece = .frame f := by
  obtain ⟨bs, hbs⟩ := h
  exact decodeAll_clean bs initial (by simp) f hbs

end StompMessageEncoderDecoder

end Stomp
