import Mathlib.Data.List.Basic
import Mathlib.Algebra.Group.Nat.Defs
import Mathlib.Algebra.Group.Int.Defs

/-!
# Decimal numbers of 32 bits

`parseInt` and `valueOf` follow Java's `Integer.parseInt` and `String.valueOf`. The parser
reads more than `valueOf` writes: a sign, leading zeros, and the digits of other scripts.
-/

namespace Stomp.Decimal

/-- The values of a 32-bit integer. -/
def InRange (n : Int) : Prop := -2 ^ 31 ≤ n ∧ n < 2 ^ 31

instance (n : Int) : Decidable (InRange n) := by unfold InRange; infer_instance

/-- What 32-bit arithmetic makes of an integer. -/
def wrap (n : Int) : Int := n.bmod (2 ^ 32)

/-- The digit zero of every script, as far as one `char` of Java holds it. -/
def zeros : List Nat :=
  [0x0030, 0x0660, 0x06F0, 0x07C0, 0x0966, 0x09E6, 0x0A66, 0x0AE6, 0x0B66, 0x0BE6, 0x0C66, 0x0CE6,
    0x0D66, 0x0DE6, 0x0E50, 0x0ED0, 0x0F20, 0x1040, 0x1090, 0x17E0, 0x1810, 0x1946, 0x19D0, 0x1A80,
    0x1A90, 0x1B50, 0x1BB0, 0x1C40, 0x1C50, 0xA620, 0xA8D0, 0xA900, 0xA9D0, 0xA9F0, 0xAA50, 0xABF0,
    0xFF10]

/-- `Character.digit(c, 10)`. -/
def digit (c : Char) : Option Nat :=
  (zeros.find? fun z => z ≤ c.toNat && c.toNat < z + 10).map (c.toNat - ·)

/-- The value of a string of digits that follows a number `n`. -/
def digitsVal (l : List Char) (n : Nat) : Option Nat :=
  l.foldlM (fun n c => (digit c).map (10 * n + ·)) n

def toInt32 (v : Int) : Option Int := if InRange v then some v else none

def withSign (negative : Bool) (n : Nat) : Int := if negative then -n else n

/-- The integer of a sign and its digits, if there is a digit and 32 bits hold it. -/
def signed (negative : Bool) (l : List Char) : Option Int :=
  if l = [] then none else (digitsVal l 0).bind fun n => toInt32 (withSign negative n)

def parseInt : List Char → Option Int
  | '-' :: l => signed true l
  | '+' :: l => signed false l
  | l => signed false l

def valueOf (n : Int) : List Char :=
  if n < 0 then '-' :: Nat.toDigits 10 n.natAbs else Nat.toDigits 10 n.natAbs

theorem wrap_of_inRange {n : Int} (h : InRange n) : wrap n = n := by
  obtain ⟨h1, h2⟩ := h
  rw [wrap, Int.bmod_eq_of_le] <;> omega

theorem wrap_nat {n : Nat} (h : n < 2 ^ 31) : wrap n = n := wrap_of_inRange ⟨by omega, by omega⟩

theorem wrap_wrap_succ (n : Nat) : wrap (wrap n + 1) = wrap ((n + 1 : Nat) : Int) := by
  simp only [wrap, Int.bmod_add_bmod]
  rfl

theorem inRange_wrap (n : Int) : InRange (wrap n) := by
  unfold InRange wrap
  have := @Int.le_bmod n (2 ^ 32) (by decide)
  have := @Int.bmod_lt n (2 ^ 32) (by decide)
  omega

theorem wrap_nat_inj (m n : Nat) : wrap m = wrap n ↔ m % 2 ^ 32 = n % 2 ^ 32 := by
  -- The counter comes round after 2^32 steps.
  unfold wrap
  constructor
  · intro h
    have h1 := Int.bmod_emod (x := (m : Int)) (m := 2 ^ 32)
    have h2 := Int.bmod_emod (x := (n : Int)) (m := 2 ^ 32)
    rw [h] at h1
    omega
  · intro h
    rw [← Int.emod_bmod (m : Int), ← Int.emod_bmod (n : Int)]
    congr 1
    omega

/-! ## What `valueOf` writes -/

theorem digit_of_isDigit (c : Char) (h : c.isDigit = true) : digit c = some (c.toNat - 48) := by
  simp only [Char.isDigit, Bool.and_eq_true, decide_eq_true_eq] at h
  have h1 : 48 ≤ c.toNat := h.1
  have h2 : c.toNat ≤ 57 := h.2
  simp [digit, zeros, h1, Nat.lt_succ_of_le h2]

theorem digitsVal_of_isDigit (l : List Char) (n : Nat) (h : ∀ c ∈ l, c.isDigit = true) :
    digitsVal l n = some (Nat.ofDigitChars 10 l n) := by
  induction l generalizing n with
  | nil => simp [digitsVal]
  | cons c l ih =>
    have hc := digit_of_isDigit c (h c List.mem_cons_self)
    have hl := ih (10 * n + (c.toNat - 48)) fun x hx => h x (List.mem_cons_of_mem _ hx)
    simpa [digitsVal, hc, Nat.ofDigitChars_cons] using hl

theorem isDigit_of_mem_toDigits (n : Nat) (c : Char) (h : c ∈ Nat.toDigits 10 n) :
    c.isDigit = true :=
  Nat.isDigit_of_mem_toDigits (by decide) (by decide) h

theorem signed_toDigits (negative : Bool) (n : Nat) (h : InRange (withSign negative n)) :
    signed negative (Nat.toDigits 10 n) = some (withSign negative n) := by
  rw [signed, if_neg Nat.toDigits_ne_nil, digitsVal_of_isDigit _ _ (isDigit_of_mem_toDigits n),
    Nat.ofDigitChars_ten_toDigits]
  exact if_pos h

theorem parseInt_toDigits (n : Nat) (h : InRange n) : parseInt (Nat.toDigits 10 n) = some (n : Int) := by
  have hs := signed_toDigits false n h
  have hd := isDigit_of_mem_toDigits n
  revert hs hd
  cases Nat.toDigits 10 n with
  | nil => exact fun hs _ => hs
  | cons c l =>
    intro hs hd
    have hc := hd c List.mem_cons_self
    unfold parseInt
    split
    · next heq => cases heq; exact absurd hc (by decide)
    · next heq => cases heq; exact absurd hc (by decide)
    · exact hs

theorem parseInt_valueOf (n : Int) (h : InRange n) : parseInt (valueOf n) = some n := by
  by_cases hn : n < 0
  · have hv : withSign true n.natAbs = n := by simp only [withSign, if_true]; omega
    rw [valueOf, if_pos hn, parseInt, signed_toDigits true _ (by rwa [hv]), hv]
  · have hv : (n.natAbs : Int) = n := by omega
    rw [valueOf, if_neg hn, parseInt_toDigits _ (by rwa [hv]), hv]

theorem inRange_of_signed {negative : Bool} {l : List Char} {n : Int}
    (h : signed negative l = some n) : InRange n := by
  unfold signed at h
  split at h
  · cases h
  · obtain ⟨v, -, hv⟩ := Option.bind_eq_some_iff.mp h
    unfold toInt32 at hv
    split at hv
    · next hr => exact Option.some.inj hv ▸ hr
    · cases hv

theorem inRange_of_parseInt {s : List Char} {n : Int} (h : parseInt s = some n) : InRange n := by
  unfold parseInt at h
  split at h <;> exact inRange_of_signed h

theorem mem_valueOf (n : Int) (c : Char) (h : c ∈ valueOf n) : c = '-' ∨ c.isDigit = true := by
  unfold valueOf at h
  split at h
  · rcases List.mem_cons.mp h with rfl | h
    · exact .inl rfl
    · exact .inr (isDigit_of_mem_toDigits _ c h)
  · exact .inr (isDigit_of_mem_toDigits _ c h)

theorem valueOf_injective {m n : Int} (hm : InRange m) (hn : InRange n)
    (h : valueOf m = valueOf n) : m = n := by
  have := parseInt_valueOf m hm
  rw [h, parseInt_valueOf n hn] at this
  exact (Option.some.inj this).symm

end Stomp.Decimal
