import Mathlib

/-!
# Byte strings

The raw material of a binary file format: little-endian words, windows into a byte string and
C strings.  Nothing here knows about a particular format.

* `toLE`, `ofLE` — fixed-width little-endian words, with the round trip `ofLE_toLE`.
* `slice` — the window of `len` bytes at `off`, which is what a positioned read returns.  The
  lemmas move a window through concatenation and truncation, and `slice_flatMap` finds the
  `i`-th entry of a table whose entries all have one width.
* `cString` — the bytes before the first NUL.
-/

/-- A string of bytes. -/
abbrev Bytes := List UInt8

namespace Bytes

/-- The bytes of an ASCII literal. -/
def ascii (s : String) : Bytes := s.toUTF8.toList

/-! ## Little-endian words -/

/-- The `w` low bytes of `n`, least significant first. -/
def toLE : ℕ → ℕ → Bytes
  | 0, _ => []
  | w + 1, n => UInt8.ofNat n :: toLE w (n / 256)

/-- The number a little-endian byte string denotes. -/
def ofLE : Bytes → ℕ
  | [] => 0
  | b :: bs => b.toNat + 256 * ofLE bs

@[simp] lemma length_toLE (w n : ℕ) : (toLE w n).length = w := by
  induction w generalizing n with
  | zero => rfl
  | succ w ih => simp [toLE, ih]

@[simp] lemma drop_toLE {w k : ℕ} (n : ℕ) (h : w ≤ k) : (toLE w n).drop k = [] :=
  List.drop_eq_nil_of_le (by simpa using h)

/-- Decoding an encoded word keeps exactly the bits that fit. -/
lemma ofLE_toLE_mod (w n : ℕ) : ofLE (toLE w n) = n % 256 ^ w := by
  induction w generalizing n with
  | zero => simp [toLE, ofLE, Nat.mod_one]
  | succ w ih =>
      have hb : (UInt8.ofNat n).toNat = n % 256 := by simp
      rw [toLE, ofLE, ih, hb, pow_succ', Nat.mod_mul]

lemma ofLE_toLE {w n : ℕ} (h : n < 256 ^ w) : ofLE (toLE w n) = n := by
  rw [ofLE_toLE_mod, Nat.mod_eq_of_lt h]

lemma ofLE_lt (bs : Bytes) : ofLE bs < 256 ^ bs.length := by
  induction bs with
  | nil => simp [ofLE]
  | cons b bs ih =>
      have := b.toNat_lt
      rw [ofLE, List.length_cons, pow_succ]
      omega

/-- Encoding the number a byte string denotes gives the byte string back. -/
lemma toLE_ofLE (bs : Bytes) : toLE bs.length (ofLE bs) = bs := by
  induction bs with
  | nil => rfl
  | cons b bs ih =>
      have hb := b.toNat_lt
      have hdiv : (b.toNat + 256 * ofLE bs) / 256 = ofLE bs := by omega
      have hmod : UInt8.ofNat (b.toNat + 256 * ofLE bs) = b := by
        refine UInt8.toNat_inj.mp ?_
        rw [UInt8.toNat_ofNat']
        omega
      rw [List.length_cons, toLE, ofLE, hdiv, ih, hmod]

@[simp] lemma ofLE_toLE_uint64 (t : UInt64) : ofLE (toLE 8 t.toNat) = t.toNat :=
  ofLE_toLE (lt_of_lt_of_eq t.toNat_lt (by norm_num))

@[simp] lemma ofLE_toLE_uint32 (t : UInt32) : ofLE (toLE 4 t.toNat) = t.toNat :=
  ofLE_toLE (lt_of_lt_of_eq t.toNat_lt (by norm_num))

@[simp] lemma ofLE_toLE_uint16 (t : UInt16) : ofLE (toLE 2 t.toNat) = t.toNat :=
  ofLE_toLE (lt_of_lt_of_eq t.toNat_lt (by norm_num))

/-! ## Windows -/

/-- The window of at most `len` bytes that starts at `off`. -/
def slice (bs : Bytes) (off len : ℕ) : Bytes := (bs.drop off).take len

lemma length_slice {bs : Bytes} {off len : ℕ} (h : off + len ≤ bs.length) :
    (slice bs off len).length = len := by
  simp only [slice, List.length_take, List.length_drop]
  omega

/-- A window inside the left part does not see the right part. -/
lemma slice_append_left {xs ys : Bytes} {off len : ℕ} (h : off + len ≤ xs.length) :
    slice (xs ++ ys) off len = slice xs off len := by
  simp only [slice]
  rw [List.drop_append_of_le_length (by omega), List.take_append_of_le_length]
  rw [List.length_drop]
  omega

/-- A window past the left part is a window of the right part. -/
lemma slice_append_right (xs ys : Bytes) (off len : ℕ) :
    slice (xs ++ ys) (xs.length + off) len = slice ys off len := by
  have hx : xs.drop (xs.length + off) = [] := List.drop_eq_nil_of_le (by omega)
  simp [slice, List.drop_append, hx]

lemma slice_prefix (xs ys : Bytes) : slice (xs ++ ys) 0 xs.length = xs := by
  simp [slice]

lemma slice_zero_length (xs : Bytes) : slice xs 0 xs.length = xs := by
  simp [slice]

/-- Two strings of which one begins the other agree on every window inside the shorter. -/
lemma slice_of_isPrefix {xs ys : Bytes} {off len : ℕ} (hp : xs <+: ys)
    (h : off + len ≤ xs.length) : slice xs off len = slice ys off len := by
  obtain ⟨zs, rfl⟩ := hp
  exact (slice_append_left h).symm

/-- The total width of a table whose entries all have width `w`. -/
lemma length_flatMap_uniform {α : Type*} {f : α → Bytes} {w : ℕ} {l : List α}
    (hw : ∀ a ∈ l, (f a).length = w) : (l.flatMap f).length = w * l.length := by
  induction l with
  | nil => simp
  | cons a l ih =>
      have ha := hw a (by simp)
      have hl := ih fun b hb => hw b (by simp [hb])
      simp only [List.flatMap_cons, List.length_append, List.length_cons, ha, hl]
      ring

/-- **Entry `i` of a table of uniform width** is the window at `w * i`. -/
lemma slice_flatMap {α : Type*} {f : α → Bytes} {w : ℕ} {l : List α}
    (hw : ∀ a ∈ l, (f a).length = w) {i : ℕ} (hi : i < l.length) :
    slice (l.flatMap f) (w * i) w = f l[i] := by
  induction l generalizing i with
  | nil => simp at hi
  | cons a l ih =>
      have ha := hw a (by simp)
      rw [List.flatMap_cons]
      cases i with
      | zero =>
          have := slice_prefix (f a) (l.flatMap f)
          rw [ha] at this
          simpa using this
      | succ i =>
          have hstep : w * (i + 1) = (f a).length + w * i := by rw [ha]; ring
          rw [hstep, slice_append_right]
          simpa using ih (fun b hb => hw b (by simp [hb])) (by simpa using hi)

/-! ## C strings -/

/-- What a C function sees of a byte string: everything before the first NUL. -/
def cString (bs : Bytes) : Bytes := bs.takeWhile (· ≠ 0)

lemma cString_of_notMem {bs : Bytes} (h : (0 : UInt8) ∉ bs) : cString bs = bs := by
  rw [cString, List.takeWhile_eq_self_iff]
  intro b hb
  have : b ≠ 0 := fun h0 => h (h0 ▸ hb)
  simpa using this

/-- A NUL-free string followed by a NUL reads back as itself, whatever comes after. -/
lemma cString_append_zero {bs : Bytes} (h : (0 : UInt8) ∉ bs) (rest : Bytes) :
    cString (bs ++ 0 :: rest) = bs := by
  rw [cString, List.takeWhile_append_of_pos]
  · simp
  · intro b hb
    have : b ≠ 0 := fun h0 => h (h0 ▸ hb)
    simpa using this

end Bytes
