import Tracebox.Lib.Bytes

/-!
# The tag-value wire format

A message on the wire is a sequence of fields.  A field is a tag, which holds the field's number and
the kind of its value, and the value: a number in base 128, or a string of bytes behind its length.
Nothing here knows which fields a message has.

* `varint`, `unvarint` — numbers of any size, seven bits to a byte, with the round trip
  `unvarint_varint`.
* `Field.encode`, `Field.decode` — one field.
* `decodeAll_flatMap` — **a sequence of fields comes out as it went in**.
* `ValidUtf8` — text is what the encoding of characters can produce.
-/

open Bytes

namespace Wire

/-! ## Numbers -/

/-- Seven bits to a byte, the lowest first; every byte but the last has its high bit set. -/
def varint (n : ℕ) : Bytes :=
  if n < 128 then [UInt8.ofNat n] else UInt8.ofNat (n % 128 + 128) :: varint (n / 128)

/-- The number in front, and what comes after it. -/
def unvarint : Bytes → Option (ℕ × Bytes)
  | [] => none
  | b :: bs =>
      if b.toNat < 128 then some (b.toNat, bs)
      else (unvarint bs).map fun r => (b.toNat - 128 + 128 * r.1, r.2)

lemma unvarint_varint (n : ℕ) (rest : Bytes) : unvarint (varint n ++ rest) = some (n, rest) := by
  induction n using Nat.strongRecOn with
  | ind n ih =>
      rw [varint]
      split_ifs with h
      · have hb : (UInt8.ofNat n).toNat = n := by
          rw [UInt8.toNat_ofNat']
          omega
        simp [unvarint, hb, h]
      · have hb : (UInt8.ofNat (n % 128 + 128)).toNat = n % 128 + 128 := by
          rw [UInt8.toNat_ofNat']
          omega
        have hhigh : ¬ n % 128 + 128 < 128 := by omega
        rw [List.cons_append, unvarint, hb, if_neg hhigh, ih (n / 128) (by omega)]
        simp only [Option.map_some, Option.some.injEq, Prod.mk.injEq, and_true]
        omega

/-! ## Fields -/

/-- What a field holds: a number, written as a varint, or bytes behind their length. -/
inductive Value where
  | number (n : ℕ)
  | string (bytes : Bytes)
  deriving DecidableEq

/-- A value under the number of its field. -/
structure Field where
  number : ℕ
  value : Value
  deriving DecidableEq

namespace Field

/-- A field on the wire: its number and the kind of its value, then the value. -/
def encode : Field → Bytes
  | ⟨k, .number n⟩ => varint (8 * k) ++ varint n
  | ⟨k, .string bytes⟩ => varint (8 * k + 2) ++ (varint bytes.length ++ bytes)

/-- The field in front, and what comes after it.  There are other kinds of values; here they are
refused. -/
def decode (bs : Bytes) : Option (Field × Bytes) :=
  (unvarint bs).bind fun tag =>
    (unvarint tag.2).bind fun head =>
      if tag.1 % 8 = 0 then some (⟨tag.1 / 8, .number head.1⟩, head.2)
      else if tag.1 % 8 = 2 ∧ head.1 ≤ head.2.length then
        some (⟨tag.1 / 8, .string (head.2.take head.1)⟩, head.2.drop head.1)
      else none

lemma decode_encode (f : Field) (rest : Bytes) : decode (f.encode ++ rest) = some (f, rest) := by
  obtain ⟨k, value⟩ := f
  cases value with
  | number n =>
      have hdiv : 8 * k / 8 = k := by omega
      simp [decode, encode, unvarint_varint, hdiv]
  | string bytes =>
      have hkind : (8 * k + 2) % 8 = 2 := by omega
      have hdiv : (8 * k + 2) / 8 = k := by omega
      simp [decode, encode, unvarint_varint, hkind, hdiv]

lemma encode_ne_nil (f : Field) : f.encode ≠ [] := by
  intro hnil
  have := f.decode_encode []
  simp [hnil, decode, unvarint] at this

end Field

/-- All fields, with fuel for as many. -/
def decodeAll : ℕ → Bytes → Option (List Field)
  | _, [] => some []
  | 0, _ => none
  | fuel + 1, bs => (Field.decode bs).bind fun r => (decodeAll fuel r.2).map (r.1 :: ·)

/-- **A sequence of fields comes out as it went in.** -/
lemma decodeAll_flatMap {fields : List Field} : ∀ {fuel : ℕ}, fields.length ≤ fuel →
    decodeAll fuel (fields.flatMap Field.encode) = some fields := by
  induction fields with
  | nil =>
      intro fuel _
      cases fuel <;> rfl
  | cons f fields ih =>
      intro fuel h
      cases fuel with
      | zero => simp at h
      | succ fuel =>
          have hlater := ih (Nat.le_of_succ_le_succ h)
          have hne : f.encode ++ fields.flatMap Field.encode ≠ [] := by
            simp [f.encode_ne_nil]
          rw [List.flatMap_cons, decodeAll, f.decode_encode]
          · simp [hlater]
          · exact hne

/-- A field takes at least one byte. -/
lemma length_le_flatMap (fields : List Field) :
    fields.length ≤ (fields.flatMap Field.encode).length := by
  induction fields with
  | nil => simp
  | cons f fields ih =>
      have hpos : 0 < f.encode.length := List.length_pos_iff.mpr f.encode_ne_nil
      rw [List.flatMap_cons, List.length_append, List.length_cons]
      omega

/-! ## Text -/

/-- The bytes are the UTF-8 encoding of some characters. -/
def ValidUtf8 (bs : Bytes) : Prop := (ByteArray.mk bs.toArray).IsValidUTF8

instance (bs : Bytes) : Decidable (ValidUtf8 bs) :=
  inferInstanceAs (Decidable (ByteArray.IsValidUTF8 _))

end Wire
