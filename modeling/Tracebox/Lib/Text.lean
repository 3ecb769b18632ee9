import Tracebox.Lib.Bytes

/-!
# Text in byte strings

Decimal numerals, substring search and splitting at a separator: what a program does that
builds file names out of numbers and takes them apart again.

* `toDec`, `decValue` — decimal numerals; `decValue_toDec` is the round trip and makes `toDec`
  injective.
* `find` — the position of the first occurrence of a substring, `find_append_self` when it
  occurs nowhere earlier, `find_append` across a seam.
* `splitOn` — the pieces between separators, with its behaviour at both ends of a string.
-/

namespace Bytes

/-! ## Decimal numerals -/

/-- An ASCII digit. -/
def isDigit (b : UInt8) : Bool := decide (48 ≤ b.toNat ∧ b.toNat ≤ 57)

/-- The decimal numeral of `n`. -/
def toDec (n : ℕ) : Bytes := (Nat.toDigits 10 n).map fun c => UInt8.ofNat c.toNat

/-- The value of a string of digits. -/
def decValue (bs : Bytes) : ℕ := bs.foldl (fun n b => 10 * n + (b.toNat - 48)) 0

/-- A digit character has a code that fits a byte. -/
lemma toNat_ofNat_digit {c : Char} (h : c.isDigit = true) :
    (UInt8.ofNat c.toNat).toNat = c.toNat ∧ 48 ≤ c.toNat ∧ c.toNat ≤ 57 := by
  have hc : 48 ≤ c.toNat ∧ c.toNat ≤ 57 := by rwa [Char.isDigit_iff_toNat] at h
  refine ⟨?_, hc⟩
  rw [UInt8.toNat_ofNat']
  omega

lemma isDigit_of_mem_toDec {n : ℕ} {b : UInt8} (h : b ∈ toDec n) : isDigit b = true := by
  obtain ⟨c, hc, rfl⟩ := List.mem_map.mp h
  obtain ⟨he, hlo, hhi⟩ :=
    toNat_ofNat_digit (Nat.isDigit_of_mem_toDigits (by norm_num) (by norm_num) hc)
  simp [isDigit, he, hlo, hhi]

lemma toDec_ne_nil (n : ℕ) : toDec n ≠ [] := by
  simp [toDec, Nat.toDigits_ne_nil]

/-- Reading a numeral back gives the number. -/
lemma decValue_toDec (n : ℕ) : decValue (toDec n) = n := by
  have hfold : ∀ (cs : List Char) (a : ℕ), (∀ c ∈ cs, c.isDigit = true) →
      (cs.map fun c => UInt8.ofNat c.toNat).foldl (fun n b => 10 * n + (b.toNat - 48)) a
        = Nat.ofDigitChars 10 cs a := by
    intro cs
    induction cs with
    | nil => intro a _; rfl
    | cons c cs ih =>
        intro a hcs
        rw [List.map_cons, List.foldl_cons, ih _ fun d hd => hcs d (by simp [hd]),
          (toNat_ofNat_digit (hcs c (by simp))).1, Nat.ofDigitChars_cons]
        rfl
  rw [decValue, toDec, hfold]
  · exact Nat.ofDigitChars_ten_toDigits
  · exact fun c hc => Nat.isDigit_of_mem_toDigits (by norm_num) (by norm_num) hc

lemma toDec_injective : Function.Injective toDec := fun a b h => by
  rw [← decValue_toDec a, ← decValue_toDec b, h]

/-- A byte that is no digit does not occur in a numeral. -/
lemma notMem_toDec {b : UInt8} (hb : isDigit b = false) (n : ℕ) : b ∉ toDec n := fun h => by
  rw [isDigit_of_mem_toDec h] at hb
  exact Bool.noConfusion hb

/-! ## Substring search -/

/-- The position of the first occurrence of `needle`. -/
def find (needle : Bytes) : Bytes → Option ℕ
  | [] => if needle = [] then some 0 else none
  | b :: bs => if needle <+: b :: bs then some 0 else (find needle bs).map (· + 1)

lemma find_nil {needle : Bytes} (hn : needle ≠ []) : find needle [] = none := by
  rw [find, if_neg hn]

/-- What is found is there. -/
lemma exists_of_find {needle : Bytes} : ∀ {xs : Bytes} {i : ℕ}, find needle xs = some i →
    ∃ ys zs, xs = ys ++ (needle ++ zs) ∧ ys.length = i
  | [], i, h => by
      rw [find] at h
      split_ifs at h with hn
      cases h
      exact ⟨[], [], by rw [hn]; rfl, rfl⟩
  | x :: xs, i, h => by
      rw [find] at h
      split_ifs at h with hx
      · obtain ⟨zs, hzs⟩ := hx
        cases h
        exact ⟨[], zs, hzs.symm, rfl⟩
      · obtain ⟨j, hj, rfl⟩ := Option.map_eq_some_iff.mp h
        obtain ⟨ys, zs, hxs, hlen⟩ := exists_of_find hj
        exact ⟨x :: ys, zs, by rw [hxs]; rfl, by rw [List.length_cons, hlen]⟩

/-- A substring is not found where one of its bytes does not occur. -/
lemma find_of_notMem {needle xs : Bytes} {b : UInt8} (hb : b ∈ needle) (hxs : b ∉ xs) :
    find needle xs = none := by
  cases h : find needle xs with
  | none => rfl
  | some i =>
      obtain ⟨ys, zs, rfl, -⟩ := exists_of_find h
      exact absurd (List.mem_append_right _ (List.mem_append_left _ hb)) hxs

/-- **No occurrence goes across a seam** behind which a byte stands that the substring does not
have. -/
lemma find_append {needle ys : Bytes} (hn : needle ≠ []) (h : ∀ b ∈ ys.head?, b ∉ needle) :
    ∀ xs : Bytes, find needle (xs ++ ys) =
      (find needle xs).or ((find needle ys).map (· + xs.length))
  | [] => by simp [find_nil hn]
  | x :: xs => by
      have hseam : needle <+: x :: (xs ++ ys) ↔ needle <+: x :: xs := by
        constructor
        · intro hp
          refine List.prefix_of_prefix_length_le hp ⟨ys, rfl⟩ ?_
          by_contra hlen
          have hshort : x :: xs <+: needle :=
            List.prefix_of_prefix_length_le ⟨ys, rfl⟩ hp (by omega)
          obtain ⟨t, ht⟩ := hshort
          obtain ⟨zs, hzs⟩ := hp
          rw [← ht, List.append_assoc, ← List.cons_append] at hzs
          have hys := List.append_cancel_left hzs
          cases t with
          | nil => exact hlen (by rw [← ht, List.append_nil])
          | cons b t =>
              refine h b (by rw [← hys]; rfl) ?_
              rw [← ht]
              exact List.mem_append_right _ List.mem_cons_self
        · exact fun hp => hp.trans ⟨ys, rfl⟩
      rw [List.cons_append, find, find, find_append hn h xs]
      simp only [hseam]
      split_ifs
      · rfl
      · cases find needle xs with
        | some i => rfl
        | none =>
            simp only [Option.map_none, Option.none_or, Option.map_map, List.length_cons]
            rfl

/-- What is found stays where it is when more comes behind it. -/
lemma find_append_of_some {needle ys : Bytes} : ∀ {xs : Bytes} {i : ℕ},
    find needle xs = some i → find needle (xs ++ ys) = some i
  | [], i, h => by
      rw [find] at h
      split_ifs at h with hn
      cases h
      cases ys <;> simp [find, hn]
  | x :: xs, i, h => by
      rw [find] at h
      rw [List.cons_append, find]
      split_ifs at h with hx
      · have hp : needle <+: x :: (xs ++ ys) := hx.trans ⟨ys, rfl⟩
        rw [if_pos hp, h]
      · obtain ⟨j, hj, rfl⟩ := Option.map_eq_some_iff.mp h
        -- the substring is short enough to end before the seam
        obtain ⟨bs, zs, hxs, -⟩ := exists_of_find hj
        have hlen := congrArg List.length hxs
        simp only [List.length_append] at hlen
        have hseam : ¬ needle <+: x :: (xs ++ ys) := fun hp =>
          hx (List.prefix_of_prefix_length_le hp ⟨ys, rfl⟩ (by rw [List.length_cons]; omega))
        rw [if_neg hseam, find_append_of_some hj]
        rfl

lemma find_append_eq_none_iff {needle ys : Bytes} (hn : needle ≠ [])
    (h : ∀ b ∈ ys.head?, b ∉ needle) (xs : Bytes) :
    find needle (xs ++ ys) = none ↔ find needle xs = none ∧ find needle ys = none := by
  rw [find_append hn h, Option.or_eq_none_iff, Option.map_eq_none_iff]

/-! ## Splitting at a separator -/

/-- The pieces of a string between occurrences of `sep`; there is always at least one. -/
def splitOn (sep : UInt8) : Bytes → List Bytes
  | [] => [[]]
  | b :: bs =>
      if b = sep then [] :: splitOn sep bs
      else match splitOn sep bs with
        | [] => [[b]]
        | p :: ps => (b :: p) :: ps

lemma splitOn_ne_nil (sep : UInt8) : ∀ bs : Bytes, splitOn sep bs ≠ []
  | [] => by simp [splitOn]
  | b :: bs => by
      rw [splitOn]
      split_ifs with h
      · simp
      · cases hs : splitOn sep bs <;> simp

/-- A string without the separator is one piece. -/
lemma splitOn_of_notMem {sep : UInt8} : ∀ {bs : Bytes}, sep ∉ bs → splitOn sep bs = [bs]
  | [], _ => rfl
  | b :: bs, h => by
      have hb : b ≠ sep := fun e => h (by simp [e])
      have hbs : sep ∉ bs := fun e => h (by simp [e])
      rw [splitOn, if_neg hb, splitOn_of_notMem hbs]

/-- The pieces have no separator in them. -/
lemma notMem_of_mem_splitOn {sep : UInt8} : ∀ {bs p : Bytes}, p ∈ splitOn sep bs → sep ∉ p
  | [], p, h => by
      rw [splitOn, List.mem_singleton] at h
      simp [h]
  | b :: bs, p, h => by
      rw [splitOn] at h
      split_ifs at h with hb
      · rcases List.mem_cons.mp h with rfl | h
        · simp
        · exact notMem_of_mem_splitOn h
      · cases hs : splitOn sep bs with
        | nil => exact absurd hs (splitOn_ne_nil sep bs)
        | cons q qs =>
            have ih : ∀ q' ∈ splitOn sep bs, sep ∉ q' := fun q' hq => notMem_of_mem_splitOn hq
            rw [hs] at h ih
            rcases List.mem_cons.mp h with rfl | h
            · simp [Ne.symm hb, ih q List.mem_cons_self]
            · exact ih p (List.mem_cons_of_mem _ h)

/-- The bytes of a piece are bytes of the string. -/
lemma mem_of_mem_splitOn {sep b : UInt8} : ∀ {bs p : Bytes}, p ∈ splitOn sep bs →
    b ∈ p → b ∈ bs
  | [], p, h, hb => by
      rw [splitOn, List.mem_singleton] at h
      rwa [h] at hb
  | x :: bs, p, h, hb => by
      rw [splitOn] at h
      split_ifs at h with hx
      · rcases List.mem_cons.mp h with rfl | h
        · exact absurd hb (List.not_mem_nil)
        · exact List.mem_cons_of_mem _ (mem_of_mem_splitOn h hb)
      · cases hs : splitOn sep bs with
        | nil => exact absurd hs (splitOn_ne_nil sep bs)
        | cons q qs =>
            have ih : ∀ q' ∈ splitOn sep bs, b ∈ q' → b ∈ bs := fun q' hq =>
              mem_of_mem_splitOn hq
            rw [hs] at h ih
            rcases List.mem_cons.mp h with rfl | h
            · rcases List.mem_cons.mp hb with rfl | hb
              · exact List.mem_cons_self
              · exact List.mem_cons_of_mem _ (ih q List.mem_cons_self hb)
            · exact List.mem_cons_of_mem _ (ih p (List.mem_cons_of_mem _ h) hb)

lemma mem_iff_exists_splitOn {sep b : UInt8} (hb : b ≠ sep) : ∀ {bs : Bytes},
    b ∈ bs ↔ ∃ p ∈ splitOn sep bs, b ∈ p
  | [] => by simp [splitOn]
  | x :: bs => by
      constructor
      swap
      · rintro ⟨p, hp, hmem⟩
        exact mem_of_mem_splitOn hp hmem
      intro h
      rw [splitOn]
      have ih : b ∈ bs → ∃ p ∈ splitOn sep bs, b ∈ p := (mem_iff_exists_splitOn hb).mp
      split_ifs with hx
      · obtain ⟨p, hp, hmem⟩ := ih (List.mem_of_ne_of_mem (hx ▸ hb) h)
        exact ⟨p, List.mem_cons_of_mem _ hp, hmem⟩
      · cases hs : splitOn sep bs with
        | nil => exact absurd hs (splitOn_ne_nil sep bs)
        | cons q qs =>
            rw [hs] at ih
            rcases List.mem_cons.mp h with rfl | h
            · exact ⟨_, List.mem_cons_self, List.mem_cons_self⟩
            · obtain ⟨p, hp, hmem⟩ := ih h
              rcases List.mem_cons.mp hp with rfl | hp
              · exact ⟨_, List.mem_cons_self, List.mem_cons_of_mem _ hmem⟩
              · exact ⟨p, List.mem_cons_of_mem _ hp, hmem⟩

/-- Putting the separators back. -/
lemma flatten_intersperse_splitOn (sep : UInt8) : ∀ bs : Bytes,
    ((splitOn sep bs).intersperse [sep]).flatten = bs
  | [] => rfl
  | b :: bs => by
      have ih := flatten_intersperse_splitOn sep bs
      rw [splitOn]
      cases hs : splitOn sep bs with
      | nil => exact absurd hs (splitOn_ne_nil sep bs)
      | cons p ps =>
          rw [hs] at ih
          split_ifs with h
          · simp [← ih, h]
          · cases ps <;> simp [← ih]

/-- Cutting at the first separator. -/
lemma splitOn_append_sep {sep : UInt8} : ∀ {xs : Bytes}, sep ∉ xs → ∀ ys : Bytes,
    splitOn sep (xs ++ sep :: ys) = xs :: splitOn sep ys
  | [], _, ys => by simp [splitOn]
  | x :: xs, h, ys => by
      have hx : x ≠ sep := fun e => h (by simp [e])
      have hxs : sep ∉ xs := fun e => h (by simp [e])
      rw [List.cons_append, splitOn, if_neg hx, splitOn_append_sep hxs ys]

/-- What is appended without a separator goes to the last piece. -/
lemma splitOn_append_notMem (sep : UInt8) : ∀ xs : Bytes, ∃ init last,
    ∀ ys : Bytes, sep ∉ ys → splitOn sep (xs ++ ys) = init ++ [last ++ ys]
  | [] => ⟨[], [], fun ys h => by simpa using splitOn_of_notMem h⟩
  | x :: xs => by
      obtain ⟨init, last, ih⟩ := splitOn_append_notMem sep xs
      by_cases hx : x = sep
      · refine ⟨[] :: init, last, fun ys h => ?_⟩
        rw [List.cons_append, splitOn, if_pos hx, ih ys h, List.cons_append]
      · cases init with
        | nil =>
            refine ⟨[], x :: last, fun ys h => ?_⟩
            rw [List.cons_append, splitOn, if_neg hx, ih ys h]
            rfl
        | cons p ps =>
            refine ⟨(x :: p) :: ps, last, fun ys h => ?_⟩
            rw [List.cons_append, splitOn, if_neg hx, ih ys h]
            rfl

end Bytes
