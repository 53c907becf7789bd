import Mathlib.Data.List.Basic
import Mathlib.Tactic.SplitIfs

/-!
# UTF-8

Text is a list of Unicode scalar values. `decode` is total: a byte that starts no character
gives one U+FFFD, and so does each cut-off or broken sequence up to its first bad byte.
-/

namespace Stomp.Utf8

abbrev Bytes := List UInt8

def encode (text : List Char) : Bytes := text.flatMap String.utf8EncodeChar

/-- The bytes of some text. -/
def Valid (bs : Bytes) : Prop := ∃ text, bs = encode text

def replacement : Char := '\uFFFD'

def isCont (b : UInt8) : Bool := 0x80 ≤ b.toNat && b.toNat < 0xC0

/-! ## One character -/

def decodeTwo (lead : Nat) : Bytes → Char × Nat
  | b2 :: _ =>
    if isCont b2 then (Char.ofNat ((lead - 0xC0) * 64 + (b2.toNat - 0x80)), 1) else (replacement, 0)
  | [] => (replacement, 0)

def decodeThree (lead : Nat) : Bytes → Char × Nat
  | b2 :: rest =>
    if !isCont b2 || (lead == 0xE0 && b2.toNat < 0xA0) then (replacement, 0)
    else match rest with
      | b3 :: _ =>
        if isCont b3 then
          let code := (lead - 0xE0) * 4096 + (b2.toNat - 0x80) * 64 + (b3.toNat - 0x80)
          if 0xD800 ≤ code ∧ code < 0xE000 then (replacement, 2) else (Char.ofNat code, 2)
        else (replacement, 1)
      | [] => (replacement, 1)
  | [] => (replacement, 0)

def decodeFour (lead : Nat) : Bytes → Char × Nat
  | b2 :: rest =>
    if !isCont b2 || (lead == 0xF0 && b2.toNat < 0x90) || (lead == 0xF4 && 0x90 ≤ b2.toNat) then
      (replacement, 0)
    else match rest with
      | b3 :: rest =>
        if isCont b3 then
          match rest with
          | b4 :: _ =>
            if isCont b4 then
              (Char.ofNat ((lead - 0xF0) * 262144 + (b2.toNat - 0x80) * 4096 +
                (b3.toNat - 0x80) * 64 + (b4.toNat - 0x80)), 3)
            else (replacement, 2)
          | [] => (replacement, 2)
        else (replacement, 1)
      | [] => (replacement, 1)
  | [] => (replacement, 0)

/-- The character that starts at a byte, and how many of the bytes after it belong to it. -/
def decodeOne (b : UInt8) (rest : Bytes) : Char × Nat :=
  let lead := b.toNat
  if lead < 0x80 then (Char.ofNat lead, 0)
  else if lead < 0xC2 then (replacement, 0)
  else if lead < 0xE0 then decodeTwo lead rest
  else if lead < 0xF0 then decodeThree lead rest
  else if lead < 0xF5 then decodeFour lead rest
  else (replacement, 0)

/-- Decoding with the next `skip` bytes already read. -/
def decodeSkip : Nat → Bytes → List Char
  | _, [] => []
  | skip + 1, _ :: rest => decodeSkip skip rest
  | 0, b :: rest => (decodeOne b rest).1 :: decodeSkip (decodeOne b rest).2 rest

def decode (bs : Bytes) : List Char := decodeSkip 0 bs

/-! ## Encoding -/

@[simp]
theorem encode_nil : encode [] = [] := rfl

@[simp]
theorem encode_cons (c : Char) (text : List Char) :
    encode (c :: text) = String.utf8EncodeChar c ++ encode text := rfl

@[simp]
theorem encode_append (s t : List Char) : encode (s ++ t) = encode s ++ encode t :=
  List.flatMap_append

theorem Valid.append {bs bs' : Bytes} (h : Valid bs) (h' : Valid bs') : Valid (bs ++ bs') := by
  obtain ⟨t, rfl⟩ := h
  obtain ⟨t', rfl⟩ := h'
  exact ⟨t ++ t', (encode_append t t').symm⟩

theorem Valid.flatMap {α : Type} {f : α → Bytes} {l : List α} (h : ∀ a ∈ l, Valid (f a)) :
    Valid (l.flatMap f) := by
  induction l with
  | nil => exact ⟨[], rfl⟩
  | cons a l ih =>
    rw [List.flatMap_cons]
    exact (h a List.mem_cons_self).append (ih fun x hx => h x (List.mem_cons_of_mem _ hx))

theorem toNat_ofNat (n : Nat) (h : n < 256) : (UInt8.ofNat n).toNat = n := by
  simp [Nat.mod_eq_of_lt h]

theorem scalar (c : Char) : c.toNat < 0xD800 ∨ (0xE000 ≤ c.toNat ∧ c.toNat < 0x110000) := by
  have h := c.valid
  rcases h with h | ⟨h1, h2⟩
  · exact .inl h
  · exact .inr ⟨h1, h2⟩

theorem encodeChar_one (c : Char) (h : c.toNat < 0x80) :
    String.utf8EncodeChar c = [UInt8.ofNat c.toNat] := by
  have h' : c.val.toNat ≤ 127 := Nat.le_of_lt_succ h
  unfold String.utf8EncodeChar
  simp only [if_pos h']
  rfl

theorem encodeChar_two (c : Char) (h1 : 0x80 ≤ c.toNat) (h2 : c.toNat < 0x800) :
    String.utf8EncodeChar c =
      [UInt8.ofNat (c.toNat / 64 + 192), UInt8.ofNat (c.toNat % 64 + 128)] := by
  have e1 : ¬ c.val.toNat ≤ 127 := Nat.not_le_of_lt h1
  have e2 : c.val.toNat ≤ 2047 := Nat.le_of_lt_succ h2
  have e3 : c.toNat / 64 % 32 = c.toNat / 64 := Nat.mod_eq_of_lt (by omega)
  unfold String.utf8EncodeChar
  simp only [if_neg e1, if_pos e2]
  rw [← e3]
  rfl

theorem encodeChar_three (c : Char) (h1 : 0x800 ≤ c.toNat) (h2 : c.toNat < 0x10000) :
    String.utf8EncodeChar c =
      [UInt8.ofNat (c.toNat / 4096 + 224), UInt8.ofNat (c.toNat / 64 % 64 + 128),
        UInt8.ofNat (c.toNat % 64 + 128)] := by
  have e1 : ¬ c.val.toNat ≤ 127 := Nat.not_le_of_lt (Nat.lt_of_lt_of_le (by decide) h1)
  have e2 : ¬ c.val.toNat ≤ 2047 := Nat.not_le_of_lt h1
  have e3 : c.val.toNat ≤ 65535 := Nat.le_of_lt_succ h2
  have e4 : c.toNat / 4096 % 16 = c.toNat / 4096 := Nat.mod_eq_of_lt (by omega)
  unfold String.utf8EncodeChar
  simp only [if_neg e1, if_neg e2, if_pos e3]
  rw [← e4]
  rfl

theorem encodeChar_four (c : Char) (h : 0x10000 ≤ c.toNat) :
    String.utf8EncodeChar c =
      [UInt8.ofNat (c.toNat / 262144 + 240), UInt8.ofNat (c.toNat / 4096 % 64 + 128),
        UInt8.ofNat (c.toNat / 64 % 64 + 128), UInt8.ofNat (c.toNat % 64 + 128)] := by
  have hs := scalar c
  have e1 : ¬ c.val.toNat ≤ 127 := Nat.not_le_of_lt (Nat.lt_of_lt_of_le (by decide) h)
  have e2 : ¬ c.val.toNat ≤ 2047 := Nat.not_le_of_lt (Nat.lt_of_lt_of_le (by decide) h)
  have e3 : ¬ c.val.toNat ≤ 65535 := Nat.not_le_of_lt h
  have e4 : c.toNat / 262144 % 8 = c.toNat / 262144 := Nat.mod_eq_of_lt (by omega)
  unfold String.utf8EncodeChar
  simp only [if_neg e1, if_neg e2, if_neg e3]
  rw [← e4]
  rfl

theorem ascii_of_mem_encodeChar (c : Char) (b : UInt8) (hb : b ∈ String.utf8EncodeChar c)
    (h : b.toNat < 0x80) : c.toNat = b.toNat := by
  have hs := scalar c
  by_cases h1 : c.toNat < 0x80
  · rw [encodeChar_one c h1, List.mem_singleton] at hb
    rw [hb, toNat_ofNat _ (by omega)]
  exfalso
  by_cases h2 : c.toNat < 0x800
  · rw [encodeChar_two c (by omega) h2] at hb
    simp only [List.mem_cons, List.not_mem_nil, or_false] at hb
    rcases hb with rfl | rfl <;> rw [toNat_ofNat _ (by omega)] at h <;> omega
  by_cases h3 : c.toNat < 0x10000
  · rw [encodeChar_three c (by omega) h3] at hb
    simp only [List.mem_cons, List.not_mem_nil, or_false] at hb
    rcases hb with rfl | rfl | rfl <;> rw [toNat_ofNat _ (by omega)] at h <;> omega
  · rw [encodeChar_four c (by omega)] at hb
    simp only [List.mem_cons, List.not_mem_nil, or_false] at hb
    rcases hb with rfl | rfl | rfl | rfl <;> rw [toNat_ofNat _ (by omega)] at h <;> omega

theorem mem_encode_ascii (text : List Char) (c : Char) (hc : c.toNat < 0x80) :
    UInt8.ofNat c.toNat ∈ encode text ↔ c ∈ text := by
  simp only [encode, List.mem_flatMap]
  constructor
  · rintro ⟨d, hd, hb⟩
    have := ascii_of_mem_encodeChar d _ hb (by rw [toNat_ofNat _ (by omega)]; exact hc)
    rw [toNat_ofNat _ (by omega)] at this
    rwa [show c = d from (Char.toNat_inj.mp this).symm]
  · intro h
    exact ⟨c, h, by simp [encodeChar_one c hc]⟩

/-! ## Decoding what was encoded -/

theorem isCont_low (n : Nat) : isCont (UInt8.ofNat (n % 64 + 128)) = true := by
  have : n % 64 < 64 := Nat.mod_lt _ (by decide)
  simp only [isCont, toNat_ofNat _ (show n % 64 + 128 < 256 by omega), Bool.and_eq_true,
    decide_eq_true_eq]
  omega

theorem decodeOne_encodeChar (c : Char) : ∃ b tail, String.utf8EncodeChar c = b :: tail ∧
    ∀ rest, decodeOne b (tail ++ rest) = (c, tail.length) := by
  have hs := scalar c
  by_cases h1 : c.toNat < 0x80
  · refine ⟨_, _, encodeChar_one c h1, fun rest => ?_⟩
    simp only [decodeOne, toNat_ofNat _ (show c.toNat < 256 by omega), if_pos h1, Char.ofNat_toNat]
    rfl
  by_cases h2 : c.toNat < 0x800
  · refine ⟨_, _, encodeChar_two c (by omega) h2, fun rest => ?_⟩
    have hl := toNat_ofNat (c.toNat / 64 + 192) (by omega)
    have hb := toNat_ofNat (c.toNat % 64 + 128) (by omega)
    simp only [decodeOne, decodeTwo, hl, hb, List.cons_append, isCont_low, if_true]
    rw [if_neg (by omega), if_neg (by omega), if_pos (by omega),
      show (c.toNat / 64 + 192 - 192) * 64 + (c.toNat % 64 + 128 - 128) = c.toNat by omega,
      Char.ofNat_toNat]
    rfl
  by_cases h3 : c.toNat < 0x10000
  · refine ⟨_, _, encodeChar_three c (by omega) h3, fun rest => ?_⟩
    have hl := toNat_ofNat (c.toNat / 4096 + 224) (by omega)
    have hb := toNat_ofNat (c.toNat / 64 % 64 + 128) (by omega)
    have hd := toNat_ofNat (c.toNat % 64 + 128) (by omega)
    simp only [decodeOne, decodeThree, hl, hb, hd, List.cons_append, isCont_low, if_true]
    rw [if_neg (by omega), if_neg (by omega), if_neg (by omega), if_pos (by omega), if_neg,
      show (c.toNat / 4096 + 224 - 224) * 4096 + (c.toNat / 64 % 64 + 128 - 128) * 64 +
        (c.toNat % 64 + 128 - 128) = c.toNat by omega, if_neg (by omega), Char.ofNat_toNat]
    · rfl
    · simp only [Bool.not_true, Bool.false_or, Bool.and_eq_true, beq_iff_eq, decide_eq_true_eq]
      omega
  · refine ⟨_, _, encodeChar_four c (by omega), fun rest => ?_⟩
    have hl := toNat_ofNat (c.toNat / 262144 + 240) (by omega)
    have hb := toNat_ofNat (c.toNat / 4096 % 64 + 128) (by omega)
    have hd := toNat_ofNat (c.toNat / 64 % 64 + 128) (by omega)
    have he := toNat_ofNat (c.toNat % 64 + 128) (by omega)
    simp only [decodeOne, decodeFour, hl, hb, hd, he, List.cons_append, isCont_low, if_true]
    rw [if_neg (by omega), if_neg (by omega), if_neg (by omega), if_neg (by omega),
      if_pos (by omega), if_neg,
      show (c.toNat / 262144 + 240 - 240) * 262144 + (c.toNat / 4096 % 64 + 128 - 128) * 4096 +
        (c.toNat / 64 % 64 + 128 - 128) * 64 + (c.toNat % 64 + 128 - 128) = c.toNat by omega,
      Char.ofNat_toNat]
    · rfl
    · simp only [Bool.not_true, Bool.false_or, Bool.or_eq_true, Bool.and_eq_true, beq_iff_eq,
        decide_eq_true_eq]
      omega

theorem decodeSkip_append (xs rest : Bytes) : decodeSkip xs.length (xs ++ rest) = decode rest := by
  induction xs with
  | nil => rfl
  | cons x xs ih => exact ih

/-- Text reads back, whatever bytes follow it. -/
theorem decode_encode_append (text : List Char) (rest : Bytes) :
    decode (encode text ++ rest) = text ++ decode rest := by
  induction text with
  | nil => rfl
  | cons c text ih =>
    obtain ⟨b, tail, he, hd⟩ := decodeOne_encodeChar c
    rw [encode_cons, he, List.append_assoc, List.cons_append, decode, decodeSkip, hd,
      decodeSkip_append, ih]
    rfl

@[simp]
theorem decode_encode (text : List Char) : decode (encode text) = text := by
  simpa [decode, decodeSkip] using decode_encode_append text []

theorem encode_injective {s t : List Char} (h : encode s = encode t) : s = t := by
  rw [← decode_encode s, h, decode_encode]

/-! ## ASCII bytes in any stream of bytes -/

theorem toNat_ofNat_scalar (n : Nat) (h : n < 0xD800 ∨ (0xE000 ≤ n ∧ n < 0x110000)) :
    (Char.ofNat n).toNat = n := by
  have hv : n.isValidChar := by
    rcases h with h | ⟨h1, h2⟩
    · exact .inl h
    · exact .inr ⟨h1, h2⟩
  rw [Char.ofNat, dif_pos hv]
  rfl

theorem isCont_iff (b : UInt8) : isCont b = true ↔ 0x80 ≤ b.toNat ∧ b.toNat < 0xC0 := by
  simp [isCont]

theorem replacement_high : 0x80 ≤ replacement.toNat := by decide

theorem decodeTwo_high (lead : Nat) (rest : Bytes) (h1 : 0xC2 ≤ lead) (h2 : lead < 0xE0) :
    0x80 ≤ (decodeTwo lead rest).1.toNat := by
  cases rest with
  | nil => exact replacement_high
  | cons b2 rest =>
    rw [decodeTwo]
    split_ifs with hb
    · rw [isCont_iff] at hb
      rw [toNat_ofNat_scalar _ (by omega)]
      omega
    · exact replacement_high

theorem decodeThree_high (lead : Nat) (rest : Bytes) (h1 : 0xE0 ≤ lead) (h2 : lead < 0xF0) :
    0x80 ≤ (decodeThree lead rest).1.toNat := by
  rcases rest with _ | ⟨b2, _ | ⟨b3, rest⟩⟩
  · exact replacement_high
  · simp only [decodeThree]
    split_ifs <;> exact replacement_high
  · simp only [decodeThree]
    split_ifs with hb hc hs
    · exact replacement_high
    · exact replacement_high
    · simp only [Bool.or_eq_true, Bool.not_eq_true', Bool.and_eq_true, beq_iff_eq,
        decide_eq_true_eq, not_or, not_and, Bool.not_eq_false, isCont_iff] at hb hc
      rw [toNat_ofNat_scalar _ (by omega)]
      omega
    · exact replacement_high

theorem decodeFour_high (lead : Nat) (rest : Bytes) (h1 : 0xF0 ≤ lead) (h2 : lead < 0xF5) :
    0x80 ≤ (decodeFour lead rest).1.toNat := by
  rcases rest with _ | ⟨b2, _ | ⟨b3, _ | ⟨b4, rest⟩⟩⟩
  · exact replacement_high
  · simp only [decodeFour]
    split_ifs <;> exact replacement_high
  · simp only [decodeFour]
    split_ifs <;> exact replacement_high
  · simp only [decodeFour]
    split_ifs with hb hc hd
    · exact replacement_high
    · simp only [Bool.or_eq_true, Bool.not_eq_true', Bool.and_eq_true, beq_iff_eq,
        decide_eq_true_eq, not_or, not_and, Bool.not_eq_false, isCont_iff] at hb hc hd
      rw [toNat_ofNat_scalar _ (by omega)]
      omega
    · exact replacement_high
    · exact replacement_high

theorem decodeOne_ascii (b : UInt8) (rest : Bytes) (h : (decodeOne b rest).1.toNat < 0x80) :
    b.toNat = (decodeOne b rest).1.toNat := by
  unfold decodeOne at h ⊢
  simp only at h ⊢
  split_ifs at h ⊢ with h1 h2 h3 h4 h5
  · rw [toNat_ofNat_scalar _ (by omega)]
  · exact absurd h (Nat.not_lt.mpr replacement_high)
  · exact absurd h (Nat.not_lt.mpr (decodeTwo_high _ _ (by omega) h3))
  · exact absurd h (Nat.not_lt.mpr (decodeThree_high _ _ (by omega) h4))
  · exact absurd h (Nat.not_lt.mpr (decodeFour_high _ _ (by omega) h5))
  · exact absurd h (Nat.not_lt.mpr replacement_high)

theorem mem_decodeSkip_ascii (c : Char) (hc : c.toNat < 0x80) (skip : Nat) (bs : Bytes)
    (h : c ∈ decodeSkip skip bs) : UInt8.ofNat c.toNat ∈ bs := by
  induction bs generalizing skip with
  | nil => cases skip <;> simp [decodeSkip] at h
  | cons b rest ih =>
    cases skip with
    | succ skip => exact List.mem_cons_of_mem _ (ih skip h)
    | zero =>
      rw [decodeSkip, List.mem_cons] at h
      rcases h with rfl | h
      · rw [← decodeOne_ascii b rest hc, UInt8.ofNat_toNat]
        exact List.mem_cons_self
      · exact List.mem_cons_of_mem _ (ih _ h)

theorem mem_decode_ascii (c : Char) (hc : c.toNat < 0x80) (bs : Bytes) (h : c ∈ decode bs) :
    UInt8.ofNat c.toNat ∈ bs :=
  mem_decodeSkip_ascii c hc 0 bs h

theorem decodeOne_append_ascii (b : UInt8) (xs rest : Bytes) (a : UInt8) (ha : a.toNat < 0x80) :
    decodeOne b (xs ++ a :: rest) = decodeOne b xs ∧ (decodeOne b xs).2 ≤ xs.length := by
  -- A character never reaches over an ASCII byte.
  have hcont : isCont a = false := by
    rw [← Bool.not_eq_true, isCont_iff]
    omega
  unfold decodeOne
  simp only
  split_ifs with h1 h2 h3 h4 h5
  · simp
  · simp
  · rcases xs with _ | ⟨b2, xs⟩
    · simp [decodeTwo, hcont]
    · simp only [List.cons_append, decodeTwo]
      split_ifs <;> simp
  · rcases xs with _ | ⟨b2, _ | ⟨b3, xs⟩⟩
    · simp [decodeThree, hcont]
    · simp only [List.cons_append, List.nil_append, decodeThree, hcont, Bool.false_eq_true,
        if_false]
      split_ifs <;> simp
    · simp only [List.cons_append, decodeThree]
      split_ifs <;> simp
  · rcases xs with _ | ⟨b2, _ | ⟨b3, _ | ⟨b4, xs⟩⟩⟩
    · simp [decodeFour, hcont]
    · simp only [List.cons_append, List.nil_append, decodeFour, hcont, Bool.false_eq_true,
        if_false]
      split_ifs <;> simp
    · simp only [List.cons_append, List.nil_append, decodeFour, hcont, Bool.false_eq_true,
        if_false]
      split_ifs <;> simp
    · simp only [List.cons_append, decodeFour]
      split_ifs <;> simp
  · simp

theorem decodeSkip_append_ascii (skip : Nat) (xs rest : Bytes) (a : UInt8) (ha : a.toNat < 0x80)
    (hs : skip ≤ xs.length) :
    decodeSkip skip (xs ++ a :: rest) = decodeSkip skip xs ++ Char.ofNat a.toNat :: decode rest := by
  induction xs generalizing skip with
  | nil =>
    obtain rfl : skip = 0 := Nat.le_zero.mp hs
    simp [decodeSkip, decodeOne, ha, decode]
  | cons x xs ih =>
    cases skip with
    | succ skip => exact ih skip (Nat.le_of_succ_le_succ hs)
    | zero =>
      obtain ⟨he, hl⟩ := decodeOne_append_ascii x xs rest a ha
      rw [List.cons_append, decodeSkip, he, ih _ hl]
      rfl

theorem decode_append_ascii (xs rest : Bytes) (a : UInt8) (ha : a.toNat < 0x80) :
    decode (xs ++ a :: rest) = decode xs ++ Char.ofNat a.toNat :: decode rest :=
  decodeSkip_append_ascii 0 xs rest a ha (Nat.zero_le _)

theorem encode_decode_append_ascii (xs rest : Bytes) {a : UInt8} (ha : a.toNat < 0x80) :
    encode (decode (xs ++ a :: rest)) = encode (decode xs) ++ a :: encode (decode rest) := by
  have hchar : (Char.ofNat a.toNat).toNat = a.toNat := toNat_ofNat_scalar _ (.inl (by omega))
  rw [decode_append_ascii xs rest a ha, encode_append, encode_cons, encodeChar_one _ (by omega), hchar,
    UInt8.ofNat_toNat]
  rfl

theorem decode_eq_nil_iff {bs : Bytes} : decode bs = [] ↔ bs = [] := by
  cases bs with
  | nil => exact iff_of_true rfl rfl
  | cons b bs => exact iff_of_false (List.cons_ne_nil _ _) (List.cons_ne_nil _ _)

theorem decode_eq_ascii_iff {bs : Bytes} {c : Char} (hc : c.toNat < 0x80) :
    decode bs = [c] ↔ bs = [UInt8.ofNat c.toNat] := by
  have hbyte := toNat_ofNat c.toNat (by omega)
  constructor
  · intro h
    have hmem : UInt8.ofNat c.toNat ∈ bs := mem_decode_ascii c hc bs (by simp [h])
    obtain ⟨xs, rest, rfl⟩ := List.append_of_mem hmem
    rw [decode_append_ascii xs rest _ (by rw [hbyte]; exact hc)] at h
    -- one character on the right leaves none before it and none after it
    rcases List.append_eq_cons_iff.mp h with ⟨hxs, hrest⟩ | ⟨ys, -, hrest⟩
    · rw [decode_eq_nil_iff.mp hxs, decode_eq_nil_iff.mp (List.cons.inj hrest).2]
      rfl
    · cases ys <;> cases hrest
  · rintro rfl
    have h := decode_append_ascii [] [] (UInt8.ofNat c.toNat) (by rw [hbyte]; exact hc)
    rw [hbyte, Char.ofNat_toNat] at h
    exact h

end Stomp.Utf8
