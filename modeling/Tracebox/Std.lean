import Tracebox.Lib.Text

/-!
# The C++ ground the program stands on

Integer conversions, `std::to_string`, `std::stoi`, `std::stoul` and the way a call ends.  The
sources use these at fixed widths (`int` is 32 bits, `size_t` and `unsigned long` are 64), and
several of their properties turn on exactly these widths.
-/

namespace Tracebox

open Bytes

/-! ## Integer conversions -/

/-- Conversion of an integer value to `int`. -/
def toInt (z : ℤ) : ℤ := z.bmod (2 ^ 32)

/-- Conversion of an integer value to `size_t`. -/
def toSize (z : ℤ) : ℕ := (z % 2 ^ 64).toNat

lemma toInt_of_lt {n : ℕ} (h : n < 2 ^ 31) : toInt n = n := by
  rw [toInt, Int.bmod_eq_of_le] <;> omega

lemma toSize_lt (z : ℤ) : toSize z < 2 ^ 64 := by
  unfold toSize
  omega

lemma toSize_natCast {n : ℕ} (h : n < 2 ^ 64) : toSize n = n := by
  have : ((n : ℤ) % 2 ^ 64) = n := Int.emod_eq_of_lt (by omega) (by omega)
  rw [toSize, this, Int.toNat_natCast]

/-- The greatest `uint32_t`. -/
def UINT32_MAX : ℕ := 4294967295

/-! ## The way a call ends -/

/-- An argument is invalid. -/
def EINVAL : ℤ := 22
/-- A call to a file has failed. -/
def EIO : ℤ := 5

/-- How a call that returns `int` ends: with a value, with an exception, or not at all. -/
inductive Outcome where
  | ret (value : ℤ)
  | thrown
  | hangs
  deriving DecidableEq, Repr

/-- The call returned a positive value, which is how the writers report acceptance. -/
def Outcome.positive : Outcome → Bool
  | .ret value => decide (0 < value)
  | _ => false

@[simp] lemma Outcome.positive_ret (v : ℤ) : (Outcome.ret v).positive = decide (0 < v) := rfl
@[simp] lemma Outcome.positive_thrown : Outcome.thrown.positive = false := rfl
@[simp] lemma Outcome.positive_hangs : Outcome.hangs.positive = false := rfl

lemma Outcome.positive_iff {o : Outcome} : o.positive = true ↔ ∃ v, o = .ret v ∧ 0 < v := by
  cases o <;> simp

/-! ## Numbers as text -/

/-- `std::to_string` of a signed integer. -/
def to_string (z : ℤ) : Bytes := if z < 0 then 45 :: toDec z.natAbs else toDec z.natAbs

/-- `isspace` in the C locale. -/
def isSpace (b : UInt8) : Bool := b.toNat = 32 || (9 ≤ b.toNat && b.toNat ≤ 13)

/-- The optional sign in front of a number: whether it is negative, and what follows. -/
def takeSign : Bytes → Bool × Bytes
  | 45 :: bs => (true, bs)
  | 43 :: bs => (false, bs)
  | bs => (false, bs)

/-- `std::stoi`: the longest numeric beginning after white space, or an exception when there is
none or it does not fit an `int`. -/
def stoi (bs : Bytes) : Option ℤ :=
  let signed := takeSign (bs.dropWhile isSpace)
  let digits := signed.2.takeWhile isDigit
  let value : ℤ := if signed.1 then -(decValue digits) else decValue digits
  if digits = [] then none
  else if -2 ^ 31 ≤ value ∧ value < 2 ^ 31 then some value else none

/-- `std::stoul`: as `stoi` for `unsigned long`; a minus sign negates modulo `2 ^ 64`. -/
def stoul (bs : Bytes) : Option ℕ :=
  let signed := takeSign (bs.dropWhile isSpace)
  let digits := signed.2.takeWhile isDigit
  if digits = [] then none
  else if decValue digits < 2 ^ 64 then
    some (if signed.1 then (2 ^ 64 - decValue digits) % 2 ^ 64 else decValue digits)
  else none

lemma to_string_natCast (n : ℕ) : to_string n = toDec n := by
  simp [to_string]

/-- A numeral has no leading white space and no sign, and is digits to its end. -/
lemma scan_toDec (n : ℕ) :
    takeSign ((toDec n).dropWhile isSpace) = (false, toDec n) ∧
      (toDec n).takeWhile isDigit = toDec n := by
  have hall : (toDec n).takeWhile isDigit = toDec n := by
    rw [List.takeWhile_eq_self_iff]
    exact fun b hb => isDigit_of_mem_toDec hb
  refine ⟨?_, hall⟩
  cases hd : toDec n with
  | nil => exact absurd hd (toDec_ne_nil n)
  | cons b bs =>
      have hb : 48 ≤ b.toNat ∧ b.toNat ≤ 57 := by
        have := isDigit_of_mem_toDec (n := n) (b := b) (by rw [hd]; simp)
        simpa [isDigit] using this
      have hsp : isSpace b = false := by
        simp only [isSpace, Bool.or_eq_false_iff, Bool.and_eq_false_iff, decide_eq_false_iff_not]
        omega
      have h45 : b ≠ 45 := by rintro rfl; simp at hb
      have h43 : b ≠ 43 := by rintro rfl; simp at hb
      rw [List.dropWhile_cons, hsp]
      unfold takeSign
      split
      · rename_i h; exact absurd (List.cons.inj h).1 h45
      · rename_i h; exact absurd (List.cons.inj h).1 h43
      · rfl

lemma stoi_toDec {n : ℕ} (h : n < 2 ^ 31) : stoi (toDec n) = some (n : ℤ) := by
  obtain ⟨h1, h2⟩ := scan_toDec n
  have hr : (-2 ^ 31 : ℤ) ≤ n ∧ (n : ℤ) < 2 ^ 31 := by omega
  simp only [stoi, h1, h2, decValue_toDec, toDec_ne_nil, if_false, Bool.false_eq_true, hr,
    and_self, if_true]

/-- What `std::to_string` writes, `std::stoi` reads. -/
lemma stoi_to_string {z : ℤ} (hlo : -2 ^ 31 ≤ z) (hhi : z < 2 ^ 31) :
    stoi (to_string z) = some z := by
  obtain ⟨n, rfl | rfl⟩ := z.eq_nat_or_neg
  · rw [to_string_natCast]
    exact stoi_toDec (by omega)
  · by_cases hn : n = 0
    · subst hn
      exact stoi_toDec (by norm_num)
    · have hneg : (-(n : ℤ)) < 0 := by omega
      have hspace : isSpace 45 = false := by decide
      obtain ⟨-, h2⟩ := scan_toDec n
      have hr : (-2 ^ 31 : ℤ) ≤ -(n : ℤ) ∧ (-(n : ℤ)) < 2 ^ 31 := ⟨hlo, hhi⟩
      rw [to_string, if_pos hneg, Int.natAbs_neg, Int.natAbs_natCast]
      simp only [stoi, List.dropWhile_cons, hspace, Bool.false_eq_true, if_false, takeSign, h2,
        decValue_toDec, toDec_ne_nil, if_true, hr, and_self]

lemma stoul_toDec {n : ℕ} (h : n < 2 ^ 64) : stoul (toDec n) = some n := by
  obtain ⟨h1, h2⟩ := scan_toDec n
  simp only [stoul, h1, h2, decValue_toDec, toDec_ne_nil, if_false, Bool.false_eq_true, h,
    if_true]

end Tracebox
