import Mathlib.Data.List.Sort
import Mathlib.Data.List.Count
import Mathlib.Data.List.Flatten
import Mathlib.Order.Basic
import Mathlib.Tactic.Common

/-!
# Buckets in the order of their keys

An ordered map from keys to lists, to which lists are appended.  When every element is put into the
bucket of its own key, the concatenation of the buckets is a **stable sort** of everything that was
added: the keys are in order, and the elements of one key stand as they were added.

* `IsStableSort` — a list sorted by key, with each key's elements in their old order.
* `IsStableSort.perm`, `IsStableSort.pairwise_iff` — nothing is lost, and **an order finer than
  that of the keys holds exactly when it holds among the elements of each key**.
* `IsStableSort.add` — appending a list to its bucket.
-/

/-! ## Stable sorts -/

section

variable {α κ : Type*} [LinearOrder κ]

/-- `ys` is `xs` sorted by the key `f`, with the elements of one key in their old order. -/
structure IsStableSort (f : α → κ) (xs ys : List α) : Prop where
  ordered : ys.Pairwise fun a b => f a ≤ f b
  same : ∀ k, ys.filter (fun a => f a = k) = xs.filter fun a => f a = k

namespace IsStableSort

variable {f : α → κ} {xs ys : List α}

lemma nil : IsStableSort f [] [] := ⟨List.Pairwise.nil, fun _ => rfl⟩

/-- **Nothing is lost and nothing is new.** -/
lemma perm (h : IsStableSort f xs ys) : ys.Perm xs := by
  classical
  rw [List.perm_iff_count]
  intro a
  have hcount : ∀ zs : List α, zs.count a = (zs.filter fun b => f b = f a).count a := fun zs =>
    (List.count_filter (by simp)).symm
  rw [hcount ys, hcount xs, h.same]

/-- A relation between the elements of each key. -/
lemma pairwise_filter_iff {r : α → α → Prop} :
    (∀ k, (xs.filter fun a => f a = k).Pairwise r) ↔ xs.Pairwise fun a b =>
      f a = f b → r a b := by
  simp only [List.pairwise_filter, decide_eq_true_eq]
  simp only [List.pairwise_iff_forall_sublist]
  constructor
  · intro h a b hab hkey
    exact h (f b) hab hkey rfl
  · rintro h k a b hab rfl hb
    exact h hab hb.symm

/-- **An order that follows that of the keys** holds of the sorted list exactly when it holds among
the elements of each key. -/
lemma pairwise_iff (h : IsStableSort f xs ys) {r : α → α → Prop}
    (hr : ∀ a b, f a < f b → r a b) :
    ys.Pairwise r ↔ xs.Pairwise fun a b => f a = f b → r a b := by
  have hsame : (ys.Pairwise fun a b => f a = f b → r a b) ↔
      xs.Pairwise fun a b => f a = f b → r a b := by
    simp only [← pairwise_filter_iff, h.same]
  rw [← hsame]
  refine ⟨fun hys => hys.imp fun {a b} (hab : r a b) (_ : f a = f b) => hab, fun hys => ?_⟩
  refine (h.ordered.and hys).imp ?_
  rintro a b ⟨hle, hab⟩
  rcases hle.eq_or_lt with heq | hlt
  · exact hab heq
  · exact hr a b hlt

end IsStableSort

end

/-! ## Buckets -/

/-- An ordered map from keys to lists. -/
structure Buckets (κ α : Type*) [LinearOrder κ] where
  entries : List (κ × List α)
  ordered : entries.Pairwise fun e e' => e.1 < e'.1

namespace Buckets

variable {α κ : Type*} [LinearOrder κ]

/-- No key has items. -/
def empty : Buckets κ α := ⟨[], List.Pairwise.nil⟩

/-- Everything in the order of the keys. -/
def flatten (b : Buckets κ α) : List α := (b.entries.map Prod.snd).flatten

/-- Appends to the bucket of a key, which is made when it is not there. -/
def insert (k : κ) (xs : List α) : List (κ × List α) → List (κ × List α)
  | [] => [(k, xs)]
  | e :: es =>
      if k < e.1 then (k, xs) :: e :: es
      else if e.1 < k then e :: insert k xs es
      else (e.1, e.2 ++ xs) :: es

/-- The keys are those that were there and the new one. -/
lemma key_of_mem_insert {k : κ} {xs : List α} {es : List (κ × List α)} {e : κ × List α}
    (h : e ∈ insert k xs es) : e.1 = k ∨ ∃ e' ∈ es, e'.1 = e.1 := by
  induction es with
  | nil => exact .inl (congrArg Prod.fst (List.mem_singleton.mp h))
  | cons d es ih =>
      rw [insert] at h
      split_ifs at h with hlt hgt
      · rcases List.mem_cons.mp h with rfl | h
        · exact .inl rfl
        · exact .inr ⟨e, h, rfl⟩
      · rcases List.mem_cons.mp h with rfl | h
        · exact .inr ⟨e, List.mem_cons_self, rfl⟩
        · rcases ih h with heq | ⟨e', he', heq⟩
          · exact .inl heq
          · exact .inr ⟨e', List.mem_cons_of_mem _ he', heq⟩
      · rcases List.mem_cons.mp h with rfl | h
        · exact .inr ⟨d, List.mem_cons_self, rfl⟩
        · exact .inr ⟨e, List.mem_cons_of_mem _ h, rfl⟩

lemma ordered_insert (k : κ) (xs : List α) {es : List (κ × List α)}
    (h : es.Pairwise fun e e' => e.1 < e'.1) :
    (insert k xs es).Pairwise fun e e' => e.1 < e'.1 := by
  induction es with
  | nil => exact List.pairwise_singleton _ _
  | cons d es ih =>
      obtain ⟨hd, hes⟩ := List.pairwise_cons.mp h
      rw [insert]
      split_ifs with hlt hgt
      · refine List.pairwise_cons.mpr ⟨fun e he => ?_, h⟩
        rcases List.mem_cons.mp he with rfl | he
        · exact hlt
        · exact hlt.trans (hd e he)
      · refine List.pairwise_cons.mpr ⟨fun e he => ?_, ih hes⟩
        rcases key_of_mem_insert he with heq | ⟨e', he', heq⟩
        · exact heq ▸ hgt
        · exact heq ▸ hd e' he'
      · exact List.pairwise_cons.mpr ⟨hd, hes⟩

/-- Items are put behind those that their key has. -/
def add (b : Buckets κ α) (k : κ) (xs : List α) : Buckets κ α :=
  ⟨insert k xs b.entries, ordered_insert k xs b.ordered⟩

/-- Every element is in the bucket of its own key. -/
def Filed (f : α → κ) (b : Buckets κ α) :
    Prop := ∀ e ∈ b.entries, ∀ x ∈ e.2, f x = e.1

variable {f : α → κ} {b : Buckets κ α} {k : κ} {xs : List α}

lemma filed_empty : Filed f (empty : Buckets κ α) := fun _ he => absurd he List.not_mem_nil

lemma Filed.add (h : Filed f b) (hxs : ∀ x ∈ xs, f x = k) : Filed f (b.add k xs) := by
  obtain ⟨es, hes⟩ := b
  change ∀ e ∈ es, ∀ x ∈ e.2, f x = e.1 at h
  change ∀ e ∈ insert k xs es, ∀ x ∈ e.2, f x = e.1
  clear hes
  induction es with
  | nil =>
      intro e he
      rw [List.mem_singleton.mp he]
      exact hxs
  | cons d es ih =>
      have hd := h d List.mem_cons_self
      have hes := fun e he => h e (List.mem_cons_of_mem d he)
      rw [insert]
      split_ifs with hlt hgt
      · exact List.forall_mem_cons.mpr ⟨hxs, h⟩
      · exact List.forall_mem_cons.mpr ⟨hd, ih hes⟩
      · refine List.forall_mem_cons.mpr ⟨fun x hx => ?_, hes⟩
        rcases List.mem_append.mp hx with hx | hx
        · exact hd x hx
        · exact (hxs x hx).trans (le_antisymm (not_lt.mp hgt) (not_lt.mp hlt))

/-- The elements in order of their keys. -/
lemma Filed.ordered (h : Filed f b) : b.flatten.Pairwise fun x y => f x ≤ f y := by
  rw [flatten, List.pairwise_flatten]
  constructor
  · intro xs hxs
    obtain ⟨e, he, rfl⟩ := List.mem_map.mp hxs
    exact List.pairwise_of_forall_mem_list fun x hx y hy => (h e he x hx).trans_le (h e he y hy).ge
  · rw [List.pairwise_map]
    refine b.ordered.imp_of_mem ?_
    intro e e' he he' hlt x hx y hy
    rw [h e he x hx, h e' he' y hy]
    exact hlt.le

/-- **What was appended stands behind everything else of its key.** -/
lemma Filed.filter_add (h : Filed f b) (hxs : ∀ x ∈ xs, f x = k) (j : κ) :
    (b.add k xs).flatten.filter (fun x => f x = j) =
      (b.flatten ++ xs).filter fun x => f x = j := by
  obtain ⟨es, hes⟩ := b
  change ∀ e ∈ es, ∀ x ∈ e.2, f x = e.1 at h
  change ((insert k xs es).map Prod.snd).flatten.filter _ =
    ((es.map Prod.snd).flatten ++ xs).filter _
  -- behind a larger key there is nothing of this one
  have hbehind : ∀ {ds : List (κ × List α)}, (∀ e ∈ ds, ∀ x ∈ e.2, f x = e.1) →
      (∀ e ∈ ds, k < e.1) → (xs ++ (ds.map Prod.snd).flatten).filter (fun x => f x = j) =
        ((ds.map Prod.snd).flatten ++ xs).filter fun x => f x = j := by
    intro ds hds hlarger
    rw [List.filter_append, List.filter_append]
    by_cases hj : k = j
    · have hnil : (ds.map Prod.snd).flatten.filter (fun x => f x = j) = [] := by
        rw [List.filter_eq_nil_iff]
        intro x hx
        obtain ⟨ys, hys, hx⟩ := List.mem_flatten.mp hx
        obtain ⟨e, he, rfl⟩ := List.mem_map.mp hys
        have := hlarger e he
        rw [decide_eq_true_eq, hds e he x hx]
        exact fun heq => absurd (hj.trans heq.symm) this.ne
      rw [hnil, List.append_nil, List.nil_append]
    · have hnil : xs.filter (fun x => f x = j) = [] := by
        rw [List.filter_eq_nil_iff]
        intro x hx
        rw [decide_eq_true_eq, hxs x hx]
        exact hj
      rw [hnil, List.append_nil, List.nil_append]
  induction es with
  | nil => simp [insert]
  | cons d es ih =>
      obtain ⟨hd, hrest⟩ := List.pairwise_cons.mp hes
      have hfiled := fun e he => h e (List.mem_cons_of_mem d he)
      rw [insert]
      split_ifs with hlt hgt
      · refine hbehind h fun e he => ?_
        rcases List.mem_cons.mp he with rfl | he
        · exact hlt
        · exact hlt.trans (hd e he)
      · have := ih hrest hfiled
        simp only [List.map_cons, List.flatten_cons, List.append_assoc,
          List.filter_append] at this ⊢
        rw [this]
      · have heq : d.1 = k := le_antisymm (not_lt.mp hlt) (not_lt.mp hgt)
        have := hbehind hfiled fun e he => heq ▸ hd e he
        simp only [List.map_cons, List.flatten_cons, List.append_assoc,
          List.filter_append] at this ⊢
        rw [this]

end Buckets

namespace IsStableSort

variable {α κ : Type*} [LinearOrder κ] {f : α → κ} {b : Buckets κ α}

/-- **Appending a list to the bucket of its key** appends it to what is sorted. -/
lemma add {xs : List α} (h : IsStableSort f xs b.flatten) (hb : b.Filed f) {k : κ} {ys : List α}
    (hys : ∀ y ∈ ys, f y = k) : IsStableSort f (xs ++ ys) (b.add k ys).flatten where
  ordered := (hb.add hys).ordered
  same j := by
    rw [hb.filter_add hys, List.filter_append, List.filter_append, h.same]

end IsStableSort
