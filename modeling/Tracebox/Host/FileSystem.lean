import Tracebox.DataTypes

/-!
# The directory tree

A link-free directory tree as the writer and the retention code see it: canonical paths, each
naming a directory or a regular file.  Files are named by inode, so that a file can lose its name
and still be written to.

There are no symbolic links and no special files here, and nothing is refused for a permission.
What depends on them is stated for `Tracebox.Host.Disk`, which has all three.

* `Tree.add`, `Tree.remove_all`, `Tree.mkdirs` — the changes the program makes, each with its
  effect on `lookup`.
* `Tree.children` — directory iteration.
* `Tree.resolve` — how the system reads a path below a directory: up to the first NUL, one
  component at a time, with the errors of a POSIX walk.
-/

namespace Tracebox

open Bytes

/-- A canonical absolute path, as the list of its components. -/
abbrev Path := List Bytes

/-- The path as text. -/
def Path.string (p : Path) : Bytes := p.flatMap fun c => 47 :: c

/-- An entry of the tree: a directory, or a regular file with its inode. -/
inductive Node where
  | dir
  | file (inode : ℕ)
  deriving DecidableEq, Repr

/-- In a table without repeated keys, looking up finds what is there. -/
lemma lookup_eq_some_iff_mem {α β : Type*} [BEq α] [LawfulBEq α] {es : List (α × β)}
    (hnd : (es.map Prod.fst).Nodup) {a : α} {b : β} : es.lookup a = some b ↔ (a, b) ∈ es := by
  induction es with
  | nil => simp
  | cons e es ih =>
      obtain ⟨a', b'⟩ := e
      rw [List.map_cons, List.nodup_cons] at hnd
      obtain ⟨hnew, hnd⟩ := hnd
      rw [List.lookup_cons, List.mem_cons, ← ih hnd]
      by_cases hkey : a = a'
      · subst hkey
        have hnone : es.lookup a ≠ some b := fun h =>
          hnew (List.mem_map.mpr ⟨(a, b), (ih hnd).mp h, rfl⟩)
        simp [hnone, eq_comm]
      · have hb : (a == a') = false := by simpa using hkey
        simp [hb, hkey]

/-- A directory tree: every path names at most one thing. -/
structure Tree where
  entries : List (Path × Node)
  nodup : (entries.map Prod.fst).Nodup

namespace Tree

/-- What is at a path. -/
def lookup (t : Tree) (p : Path) : Option Node := t.entries.lookup p

lemma lookup_eq_some_iff {t : Tree} {p : Path} {n : Node} :
    t.lookup p = some n ↔ (p, n) ∈ t.entries := lookup_eq_some_iff_mem t.nodup

lemma notMem_of_lookup_none {t : Tree} {p : Path} (h : t.lookup p = none) :
    p ∉ t.entries.map Prod.fst := fun hp => by
  obtain ⟨⟨q, n⟩, hmem, rfl⟩ := List.mem_map.mp hp
  simp [lookup_eq_some_iff.mpr hmem] at h

/-! ## Changes -/

/-- Names something at a path that names nothing; otherwise no change. -/
def add (t : Tree) (p : Path) (n : Node) : Tree :=
  if h : t.lookup p = none then
    { entries := t.entries ++ [(p, n)]
      nodup := by
        rw [List.map_append, List.nodup_append]
        refine ⟨t.nodup, by simp, ?_⟩
        intro a ha b hb hab
        simp only [List.map_cons, List.map_nil, List.mem_singleton] at hb
        exact notMem_of_lookup_none h (hb ▸ hab ▸ ha) }
  else t

lemma lookup_add {t : Tree} {p : Path} (n : Node) (h : t.lookup p = none) (q : Path) :
    (t.add p n).lookup q = if q = p then some n else t.lookup q := by
  simp only [add, h, dite_true]
  ext m
  rw [lookup_eq_some_iff]
  simp only [List.mem_append, List.mem_singleton, Prod.mk.injEq]
  split_ifs with hq
  · subst hq
    constructor
    · rintro (hm | ⟨-, rfl⟩)
      · simp [← lookup_eq_some_iff, h] at hm
      · rfl
    · rintro ⟨⟩
      exact Or.inr ⟨rfl, rfl⟩
  · simp [hq, lookup_eq_some_iff]

lemma add_of_some {t : Tree} {p : Path} {m : Node} (n : Node) (h : t.lookup p = some m) :
    t.add p n = t := by
  simp [add, h]

/-- Naming something new leaves every other name as it was. -/
lemma lookup_add_of_some {t : Tree} {p q : Path} {m : Node} (n : Node)
    (hq : t.lookup q = some m) : (t.add p n).lookup q = some m := by
  cases hp : t.lookup p with
  | some k => rw [add_of_some n hp, hq]
  | none =>
      rw [lookup_add n hp, if_neg, hq]
      rintro rfl
      simp [hp] at hq

/-- `std::filesystem::remove_all`: the path and everything below it. -/
def remove_all (t : Tree) (p : Path) : Tree where
  entries := t.entries.filter fun e => ! p.isPrefixOf e.1
  nodup := t.nodup.sublist (List.Sublist.map _ List.filter_sublist)

lemma lookup_remove_all (t : Tree) (p q : Path) :
    (t.remove_all p).lookup q = if p <+: q then none else t.lookup q := by
  ext m
  rw [lookup_eq_some_iff]
  simp only [remove_all, List.mem_filter, Bool.not_eq_true', ← Bool.not_eq_true,
    List.isPrefixOf_iff_prefix]
  split_ifs with h
  · simp [h]
  · simp [h, lookup_eq_some_iff]

/-- The directories from the nearest existing ancestor down; the path is given innermost
component first. -/
def mkdirsRev (t : Tree) : List Bytes → Tree
  | [] => t
  | c :: cs =>
      if t.lookup (c :: cs).reverse = some .dir then t
      else (mkdirsRev t cs).add (c :: cs).reverse .dir

/-- The effect of a successful `create_directories`. -/
def mkdirs (t : Tree) (p : Path) : Tree := t.mkdirsRev p.reverse

lemma lookup_mkdirsRev_of_some {t : Tree} {q : Path} {m : Node} (hq : t.lookup q = some m) :
    ∀ cs, (t.mkdirsRev cs).lookup q = some m
  | [] => hq
  | c :: cs => by
      rw [mkdirsRev]
      split_ifs
      · exact hq
      · exact lookup_add_of_some _ (lookup_mkdirsRev_of_some hq cs)

/-- `create_directories` makes the directory and what is above it. -/
lemma dir_of_mkdirs {t : Tree} {p q : Path} (h : (t.mkdirs p).lookup q = some .dir) :
    t.lookup q = some .dir ∨ q <+: p := by
  have hrev : ∀ cs : List Bytes, (t.mkdirsRev cs).lookup q = some .dir →
      t.lookup q = some .dir ∨ q <+: cs.reverse := by
    intro cs
    induction cs with
    | nil => exact Or.inl
    | cons c cs ih =>
        intro hq
        rw [mkdirsRev] at hq
        split_ifs at hq
        · exact Or.inl hq
        · have hup : q <+: cs.reverse → q <+: (c :: cs).reverse := fun hp => by
            rw [List.reverse_cons]
            exact hp.trans (List.prefix_append _ _)
          cases hc : (t.mkdirsRev cs).lookup (c :: cs).reverse with
          | some n =>
              rw [add_of_some _ hc] at hq
              exact (ih hq).imp_right hup
          | none =>
              rw [lookup_add _ hc] at hq
              split_ifs at hq with heq
              · exact Or.inr (by rw [heq])
              · exact (ih hq).imp_right hup
  simpa using hrev p.reverse h

/-! ## Iteration -/

/-- The entries of a directory, as `directory_iterator` lists them. -/
def children (t : Tree) (dir : Path) : List (Bytes × Node) :=
  t.entries.filterMap fun e =>
    if e.1.dropLast = dir then e.1.getLast?.map fun name => (name, e.2) else none

lemma mem_children {t : Tree} {dir : Path} {name : Bytes} {n : Node} :
    (name, n) ∈ t.children dir ↔ t.lookup (dir ++ [name]) = some n := by
  rw [lookup_eq_some_iff, children, List.mem_filterMap]
  constructor
  · rintro ⟨⟨q, m⟩, hmem, heq⟩
    split_ifs at heq with hd
    rcases List.eq_nil_or_concat' q with rfl | ⟨qs, c, rfl⟩
    · simp at heq
    · simp only [List.dropLast_concat] at hd
      simp only [List.getLast?_concat, Option.map_some, Option.some.injEq, Prod.mk.injEq] at heq
      obtain ⟨rfl, rfl⟩ := heq
      rwa [hd] at hmem
  · intro hmem
    exact ⟨(dir ++ [name], n), hmem, by simp⟩

/-! ## Path resolution -/

/-- What can go wrong on the way to a file. -/
inductive Errno where
  | ENOENT
  | ENOTDIR
  | ENAMETOOLONG
  deriving DecidableEq, Repr

/-- The longest name a directory entry can have. -/
def NAME_MAX : ℕ := 255

/-- The size of the longest path the system takes, with the terminator. -/
def PATH_MAX : ℕ := 4096

/-- The components the system finds in a relative path: it reads up to the first NUL, and empty
and `.` components stand for nothing.  Only at the end do they say something: what is in front of
them has to be a directory. -/
def components (rel : Bytes) : List Bytes :=
  let pieces := splitOn 47 (cString rel)
  (pieces.dropLast.filter fun c => ! (c.isEmpty || c == [46])) ++
    [if pieces.getLastD [] = [] then [46] else pieces.getLastD []]

/-- A walk from the directory `cur`.  Everything but the last component has to be a directory;
the last may be missing. -/
def walk (t : Tree) : Path → List Bytes → Except Errno Path
  | cur, [] => .ok cur
  | cur, c :: cs =>
      if NAME_MAX < c.length then .error .ENAMETOOLONG
      else if c = [46] then walk t cur cs
      else if c = [46, 46] then walk t cur.dropLast cs
      else match t.lookup (cur ++ [c]) with
        | some .dir => walk t (cur ++ [c]) cs
        | some (.file _) => if cs = [] then .ok (cur ++ [c]) else .error .ENOTDIR
        | none => if cs = [] then .ok (cur ++ [c]) else .error .ENOENT

/-- The text `dir + "/" + rel` is longer than the system takes. -/
def pathTooLong (dir : Path) (rel : Bytes) : Bool :=
  decide (PATH_MAX ≤ dir.string.length + 1 + (cString rel).length)

/-- The place a path `dir + "/" + rel` denotes. -/
def resolve (t : Tree) (dir : Path) (rel : Bytes) : Except Errno Path :=
  if pathTooLong dir rel then .error .ENAMETOOLONG
  else if t.lookup dir = some .dir then t.walk dir (components rel) else .error .ENOENT

/-- One tree has every name of another. -/
def Within (t t' : Tree) : Prop := ∀ p n, t.lookup p = some n → t'.lookup p = some n

/-- A component that names something. -/
def Proper (c : Bytes) : Prop := c ≠ [46] ∧ c ≠ [46, 46]

lemma proper_append (last : Bytes) {ext : Bytes} (h : 3 ≤ ext.length) : Proper (last ++ ext) := by
  constructor
  · intro hx
    have := congrArg List.length hx
    simp only [List.length_append, List.length_cons, List.length_nil] at this
    omega
  · intro hx
    have := congrArg List.length hx
    simp only [List.length_append, List.length_cons, List.length_nil] at this
    omega

/-- **A walk to the last component depends on the directories before it only.**  With another last
component, and in a larger tree, it ends beside the first one or at a name that is too long. -/
lemma walk_last {t : Tree} {c : Bytes} (hc : Proper c) : ∀ (cs : List Bytes) (cur p : Path),
    t.walk cur (cs ++ [c]) = .ok p → ∃ q, p = q ++ [c] ∧ ∀ t', t.Within t' →
      ∀ c' : Bytes, Proper c' → t'.walk cur (cs ++ [c']) =
        if NAME_MAX < c'.length then .error .ENAMETOOLONG else .ok (q ++ [c'])
  | [], cur, p, h => by
      have hp : p = cur ++ [c] := by
        simp only [List.nil_append, walk, hc.1, hc.2, if_false] at h
        split_ifs at h
        split at h <;> simpa using h.symm
      refine ⟨cur, hp, fun t' _ c' hc' => ?_⟩
      simp only [List.nil_append, walk, hc'.1, hc'.2, if_false]
      split_ifs with hn
      · rfl
      · split <;> rfl
  | d :: cs, cur, p, h => by
      have hcons : ∀ e : Bytes, ¬ cs ++ [e] = [] := by simp
      rw [List.cons_append, walk] at h
      by_cases hl : NAME_MAX < d.length
      · simp [hl] at h
      · by_cases hdot : d = [46]
        · rw [if_neg hl, if_pos hdot] at h
          obtain ⟨q, hq, hw⟩ := walk_last hc cs _ p h
          refine ⟨q, hq, fun t' ht c' hc' => ?_⟩
          rw [List.cons_append, walk, if_neg hl, if_pos hdot]
          exact hw t' ht c' hc'
        · by_cases hd : d = [46, 46]
          · rw [if_neg hl, if_neg hdot, if_pos hd] at h
            obtain ⟨q, hq, hw⟩ := walk_last hc cs _ p h
            refine ⟨q, hq, fun t' ht c' hc' => ?_⟩
            rw [List.cons_append, walk, if_neg hl, if_neg hdot, if_pos hd]
            exact hw t' ht c' hc'
          · rw [if_neg hl, if_neg hdot, if_neg hd, if_neg (hcons c), if_neg (hcons c)] at h
            cases hlook : t.lookup (cur ++ [d]) with
            | none => simp [hlook] at h
            | some n =>
                cases n with
                | file i => simp [hlook] at h
                | dir =>
                    simp only [hlook] at h
                    obtain ⟨q, hq, hw⟩ := walk_last hc cs _ p h
                    refine ⟨q, hq, fun t' ht c' hc' => ?_⟩
                    rw [List.cons_append, walk, if_neg hl, if_neg hdot, if_neg hd, ht _ _ hlook]
                    exact hw t' ht c' hc'

/-- The components of a name with an extension. -/
lemma components_append {name : Bytes} (h0 : (0 : UInt8) ∉ name) : ∃ init last,
    ∀ ext : Bytes, (0 : UInt8) ∉ ext → (47 : UInt8) ∉ ext → ext ≠ [] →
      components (name ++ ext) = init ++ [last ++ ext] := by
  obtain ⟨init, last, h⟩ := splitOn_append_notMem 47 name
  refine ⟨init.filter fun c => ! (c.isEmpty || c == [46]), last, fun ext he hs hne => ?_⟩
  have hlast : ¬ last ++ ext = [] := fun hx => hne (List.append_eq_nil_iff.mp hx).2
  rw [components, cString_of_notMem (by simp [h0, he]), h ext hs]
  simp only [List.dropLast_concat, List.getLastD_concat, if_neg hlast]

/-- Two names that differ in the extension lie side by side. -/
lemma resolve_append {t : Tree} {dir p : Path} {name ext : Bytes} (h0 : (0 : UInt8) ∉ name)
    (he : (0 : UInt8) ∉ ext) (hs : (47 : UInt8) ∉ ext) (hl : 3 ≤ ext.length)
    (h : t.resolve dir (name ++ ext) = .ok p) : ∃ q leaf, p = q ++ [leaf ++ ext] ∧
      ∀ t', t.Within t' → ∀ ext' : Bytes, (0 : UInt8) ∉ ext' → (47 : UInt8) ∉ ext' →
        3 ≤ ext'.length → t'.resolve dir (name ++ ext') =
          if pathTooLong dir (name ++ ext') = true ∨ NAME_MAX < (leaf ++ ext').length then
            .error .ENAMETOOLONG
          else .ok (q ++ [leaf ++ ext']) := by
  obtain ⟨init, last, hcomp⟩ := components_append h0
  have hnil : ∀ e : Bytes, 3 ≤ e.length → e ≠ [] := by
    rintro e he rfl
    simp at he
  rw [resolve] at h
  split_ifs at h with hlong hdir
  rw [hcomp ext he hs (hnil ext hl)] at h
  obtain ⟨q, hq, hw⟩ := walk_last (proper_append last hl) init dir p h
  refine ⟨q, last, hq, fun t' ht ext' he' hs' hl' => ?_⟩
  rw [resolve, if_pos (ht _ _ hdir), hcomp ext' he' hs' (hnil ext' hl'),
    hw t' ht _ (proper_append last hl')]
  by_cases hlong' : pathTooLong dir (name ++ ext') = true
  · simp [hlong']
  · simp [hlong']

/-- `std::filesystem::exists`, which throws on every error but a missing file. -/
def exists_ (t : Tree) (dir : Path) (rel : Bytes) : Option Bool :=
  match t.resolve dir rel with
  | .ok p => some (t.lookup p).isSome
  | .error .ENAMETOOLONG => none
  | .error _ => some false

/-- A file stands where a directory would have to be. -/
def blocked (t : Tree) (p : Path) : Bool :=
  p.inits.any fun q => match t.lookup q with
    | some (.file _) => true
    | _ => false

end Tree

end Tracebox
