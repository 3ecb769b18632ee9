import Mathlib.Data.List.ReduceOption
import Mathlib.Tactic

/-!
# Paging by the number of items received

A server keeps a sequence of positions, some of which hold an item.  A page that begins at a
position is what the first `m` items from there on are.  A client that does not learn positions goes
on at the sum of the numbers of items it has received, until a page is empty.

Positions without an item are not counted, so the client goes back whenever it has passed one.  It
**never misses an item** (`Paged.sublist`), and it receives **every item once exactly when the items
are at the first positions** (`Paged.eq_iff`).
-/

namespace Paging

variable {α : Type*} {page : ℕ → List α} {L : List (Option α)} {i m : ℕ} {xs ys : List α}

/-- The items a client receives from position `i` on, `page` being what the server answers. -/
inductive Paged (page : ℕ → List α) : ℕ → List α → Prop
  | stop {i : ℕ} : page i = [] → Paged page i []
  | next {i : ℕ} {rest : List α} : page i ≠ [] → Paged page (i + (page i).length) rest →
      Paged page i (page i ++ rest)

/-- A client that pages receives one list. -/
lemma Paged.unique (h : Paged page i xs) (h' : Paged page i ys) : xs = ys := by
  induction h generalizing ys with
  | stop hnil =>
      cases h' with
      | stop => rfl
      | next hne => exact absurd hnil hne
  | next hne _ ih =>
      cases h' with
      | stop hnil => exact absurd hnil hne
      | next _ hrest => rw [ih hrest]

/-- Paging ends, since every page but the last one brings it on. -/
lemma exists_paged {n : ℕ} (hend : ∀ i, n ≤ i → page i = []) (i : ℕ) :
    ∃ xs, Paged page i xs := by
  induction hk : n - i using Nat.strong_induction_on generalizing i with
  | _ k ih =>
      by_cases hnil : page i = []
      · exact ⟨[], .stop hnil⟩
      · have hlt : i < n := by
          by_contra hge
          exact hnil (hend i (not_lt.mp hge))
        have hpos := List.length_pos_iff.mpr hnil
        obtain ⟨rest, hrest⟩ := ih (n - (i + (page i).length)) (by omega) _ rfl
        exact ⟨page i ++ rest, .next hnil hrest⟩

/-- The page behind the last item is empty. -/
lemma Paged.page_end (h : Paged page i xs) : page (i + xs.length) = [] := by
  induction h with
  | stop hnil => simpa using hnil
  | next _ _ ih => rwa [List.length_append, ← Nat.add_assoc]

/-- Servers with the same answers at the positions a client comes to. -/
lemma Paged.congr {page' : ℕ → List α} {P : ℕ → Prop}
    (hsame : ∀ i, P i → page i = page' i)
    (hnext : ∀ i, P i → page i ≠ [] → P (i + (page i).length)) (hi : P i)
    (h : Paged page i xs) : Paged page' i xs := by
  induction h with
  | @stop i hnil => exact .stop (hsame i hi ▸ hnil)
  | @next i rest hne _ ih =>
      have hrest := ih (hnext i hi hne)
      rw [hsame i hi] at hne hrest ⊢
      exact .next hne hrest

/-- The server's answer: the first `m` items from position `i` on. -/
def items (L : List (Option α)) (m i : ℕ) : List α := (L.drop i).reduceOption.take m

lemma exists_paged_items (L : List (Option α)) (m i : ℕ) : ∃ xs, Paged (items L m) i xs := by
  refine exists_paged (n := L.length) (fun i hi => ?_) i
  rw [items, List.drop_eq_nil_of_le hi, List.reduceOption_nil, List.take_nil]

/-- The items of the positions from `i` on, in two parts. -/
lemma reduceOption_split (L : List (Option α)) (i : ℕ) :
    L.reduceOption = (L.take i).reduceOption ++ (L.drop i).reduceOption := by
  rw [← List.reduceOption_append, List.take_append_drop]

/-- A page and what it leaves. -/
lemma items_append (L : List (Option α)) (m i : ℕ) :
    items L m i ++ (L.drop i).reduceOption.drop (items L m i).length = (L.drop i).reduceOption := by
  have hdrop : (L.drop i).reduceOption.drop (items L m i).length =
      (L.drop i).reduceOption.drop m := by
    rw [items, List.length_take]
    rcases le_total m (L.drop i).reduceOption.length with hle | hle
    · rw [min_eq_left hle]
    · rw [min_eq_right hle, List.drop_length, List.drop_eq_nil_of_le hle]
  rw [hdrop, items, List.take_append_drop]

lemma items_eq_nil_iff (hm : 0 < m) : items L m i = [] ↔ (L.drop i).reduceOption = [] := by
  rw [items, List.take_eq_nil_iff, or_iff_right hm.ne']

/-! ## No item is missed -/

/-- Dropping as many items as positions drops at least the items of these positions. -/
lemma drop_reduceOption_suffix (K : List (Option α)) (n : ℕ) :
    K.reduceOption.drop n <:+ (K.drop n).reduceOption := by
  have hlen : (K.take n).reduceOption.length ≤ n :=
    (List.reduceOption_length_le _).trans (List.length_take_le _ _)
  rw [reduceOption_split K n, List.drop_append, List.drop_eq_nil_of_le hlen, List.nil_append]
  exact List.drop_suffix _ _

/-- **No item is missed.** -/
lemma Paged.sublist (hm : 0 < m) (h : Paged (items L m) i xs) :
    (L.drop i).reduceOption.Sublist xs := by
  induction h with
  | @stop i hnil => rw [(items_eq_nil_iff hm).mp hnil]
  | @next i rest _ _ ih =>
      have hsuffix := drop_reduceOption_suffix (L.drop i) (items L m i).length
      rw [List.drop_drop] at hsuffix
      rw [← items_append L m i]
      exact List.Sublist.append_left (hsuffix.sublist.trans ih) _

/-! ## Every item once -/

/-- The items are at the first positions. -/
def Leading (L : List (Option α)) : Prop :=
  ∀ n, n < L.reduceOption.length → (L[n]?.join).isSome

/-- Up to the number of items, positions and items are the same. -/
lemma Leading.drop_reduceOption (h : Leading L) (hi : i ≤ L.reduceOption.length) :
    (L.drop i).reduceOption = L.reduceOption.drop i := by
  have hle : i ≤ L.length := hi.trans (List.reduceOption_length_le L)
  have hall : (L.take i).reduceOption.length = (L.take i).length := by
    refine List.reduceOption_length_eq_iff.mpr fun x hx => ?_
    obtain ⟨n, hn, rfl⟩ := List.mem_iff_getElem.mp hx
    rw [List.length_take] at hn
    have hsome := h n (by omega)
    simpa [List.getElem?_eq_getElem (show n < L.length by omega)] using hsome
  have hlen : (L.take i).reduceOption.length = i := by rw [hall, List.length_take, min_eq_left hle]
  rw [reduceOption_split L i, List.drop_append, List.drop_eq_nil_of_le hlen.le, hlen, Nat.sub_self,
    List.nil_append, List.drop_zero]

lemma Paged.eq_drop (hm : 0 < m) (hL : Leading L) (h : Paged (items L m) i xs)
    (hi : i ≤ L.reduceOption.length) : xs = L.reduceOption.drop i := by
  induction h with
  | @stop i hnil => rw [← hL.drop_reduceOption hi, (items_eq_nil_iff hm).mp hnil]
  | @next i rest _ _ ih =>
      have hpage : items L m i ++ L.reduceOption.drop (i + (items L m i).length) =
          L.reduceOption.drop i := by
        rw [← List.drop_drop, ← hL.drop_reduceOption hi, items_append]
      have hlen := congrArg List.length hpage
      rw [List.length_append, List.length_drop, List.length_drop] at hlen
      rw [← hpage, ih (by omega)]

/-- **Every item is received once exactly when the items are at the first positions.**  The number
of items received is where the client ends, and nothing is behind it. -/
theorem Paged.eq_iff (hm : 0 < m) (h : Paged (items L m) 0 xs) :
    xs = L.reduceOption ↔ Leading L := by
  constructor
  · rintro rfl n hn
    have hend : (L.drop L.reduceOption.length).reduceOption = [] := by
      simpa using (items_eq_nil_iff hm).mp h.page_end
    have hlen := congrArg List.length (reduceOption_split L L.reduceOption.length)
    rw [hend, List.append_nil] at hlen
    have hle := List.length_take_le L.reduceOption.length L
    have hle' := List.reduceOption_length_le (L.take L.reduceOption.length)
    have hall := List.reduceOption_length_eq_iff.mp (le_antisymm hle' (by omega))
    have hn' : n < (L.take L.reduceOption.length).length := by omega
    have hsome := hall _ (List.getElem_mem hn')
    rw [List.getElem_take] at hsome
    have hlt : n < L.length := hn.trans_le (List.reduceOption_length_le L)
    simpa [List.getElem?_eq_getElem hlt] using hsome
  · intro hL
    simpa using h.eq_drop hm hL (Nat.zero_le _)

end Paging
