import Tracebox.Reader.FileReader

/-!
# File trees with symbolic links

The file tree a reader works on: directories, files and symbolic links that may lead anywhere, also
out of the storage root, into each other or nowhere.  A path is read one component at a time, and a
link is replaced by its target, at most forty times.

A path of the tree that leads through no link is **physical**: the tree itself has an entry there.

* `walk_physical` — what a path leads to is physical.
* `walk_self` — a physical path leads to itself.
* `walk_append`, `walk_error_append` — a path is read from left to right.
* `weakly_canonical_exists` — **when `weakly_canonical` names something, that path is physical**,
  also for paths whose leading components alone exist.
-/

namespace Tracebox

open Bytes

/-- An entry of the tree: a directory, a file with its content, or a symbolic link. -/
inductive LinkNode where
  | dir
  | file (content : Bytes)
  | link (target : Bytes)
  deriving DecidableEq

/-- A name that a directory entry can have. -/
structure IsName (c : Bytes) : Prop where
  ne_nil : c ≠ []
  length_le : c.length ≤ Tree.NAME_MAX
  slash : (47 : UInt8) ∉ c
  nul : (0 : UInt8) ∉ c
  proper : Tree.Proper c

instance (c : Bytes) : Decidable (IsName c) :=
  decidable_of_iff (c ≠ [] ∧ c.length ≤ Tree.NAME_MAX ∧ (47 : UInt8) ∉ c ∧
    (0 : UInt8) ∉ c ∧
      c ≠ [46] ∧ c ≠ [46, 46])
    ⟨fun ⟨h₁, h₂, h₃, h₄, h₅⟩ => ⟨h₁, h₂, h₃, h₄, h₅⟩,
      fun h => ⟨h.ne_nil, h.length_le, h.slash, h.nul, h.proper⟩⟩

/-- Everything but the root directory itself is an entry of a directory. -/
structure LinkTree where
  entries : List (Path × LinkNode)
  nodup : (entries.map Prod.fst).Nodup
  named : ∀ e ∈ entries, e.1 ≠ [] ∧ IsName (e.1.getLastD []) ∧
    (e.1.dropLast = [] ∨ (e.1.dropLast, LinkNode.dir) ∈ entries)

namespace LinkTree

/-- What is at a physical path. -/
def node (t : LinkTree) (p : Path) : Option LinkNode :=
  if p = [] then some .dir else t.entries.lookup p

variable {t : LinkTree}

lemma node_eq_some_iff {p : Path} {n : LinkNode} (hp : p ≠ []) :
    t.node p = some n ↔ (p, n) ∈ t.entries := by
  rw [node, if_neg hp, lookup_eq_some_iff_mem t.nodup]

/-- An entry has a proper name and stands in a directory. -/
lemma node_concat {dir : Path} {name : Bytes} {n : LinkNode}
    (h : t.node (dir ++ [name]) = some n) : t.node dir = some .dir ∧ IsName name := by
  rw [node_eq_some_iff (by simp)] at h
  obtain ⟨-, hname, hdir⟩ := t.named _ h
  rw [List.getLastD_concat] at hname
  rw [List.dropLast_concat] at hdir
  refine ⟨?_, hname⟩
  by_cases hnil : dir = []
  · rw [node, if_pos hnil]
  · exact (node_eq_some_iff hnil).mpr (hdir.resolve_left hnil)

/-- Everything in front of an entry is a directory. -/
lemma node_append {p : Path} {n : LinkNode} :
    ∀ {q : Path}, q ≠ [] → t.node (p ++ q) = some n → t.node p = some .dir := by
  intro q
  induction q using List.reverseRecOn generalizing n with
  | nil => exact fun h => absurd rfl h
  | append_singleton q c ih =>
      intro _ h
      rw [← List.append_assoc] at h
      obtain ⟨hdir, -⟩ := node_concat h
      by_cases hq : q = []
      · rwa [hq, List.append_nil] at hdir
      · exact ih hq hdir

lemma node_dropLast {p : Path} (h : t.node p = some .dir) : t.node p.dropLast = some .dir := by
  rcases List.eq_nil_or_concat' p with rfl | ⟨dir, name, rfl⟩
  · exact h
  · rw [List.dropLast_concat]
    exact (node_concat h).1

/-! ## Walks -/

/-- Why a path cannot be read.  `status` reports the first as a file that does not exist. -/
inductive WalkError where
  /-- `ENOENT`, `ENOTDIR` -/
  | notFound
  /-- any other error: a name or a path that is too long, too many links -/
  | failed
  deriving DecidableEq

/-- What a component means to a walk that has come to a directory. -/
inductive Component where
  | tooLong
  /-- the directory itself -/
  | dot
  | dots
  | dir
  | file
  | link (target : Bytes)
  | missing
  deriving DecidableEq

/-- What an entry means to a walk. -/
def Component.ofNode : LinkNode → Component
  | .dir => .dir
  | .file _ => .file
  | .link target => .link target

/-- What a component of a path means in a directory. -/
def component (t : LinkTree) (cur : Path) (c : Bytes) : Component :=
  if Tree.NAME_MAX < c.length then .tooLong
  else if c = [] ∨ c = [46] then .dot
  else if c = [46, 46] then .dots
  else match t.node (cur ++ [c]) with
    | some n => .ofNode n
    | none => .missing

/-- A walk from the directory `cur`, given what happens behind a link. -/
def walkWith (t : LinkTree) (follow : Path → List Bytes → Except WalkError Path) :
    Path → List Bytes → Except WalkError Path
  | cur, [] => .ok cur
  | cur, c :: cs =>
      match t.component cur c with
      | .tooLong => .error .failed
      | .dot => walkWith t follow cur cs
      | .dots => walkWith t follow cur.dropLast cs
      | .dir => walkWith t follow (cur ++ [c]) cs
      | .file => if cs = [] then .ok (cur ++ [c]) else .error .notFound
      | .link target =>
          follow (if target.head? = some 47 then [] else cur) (splitOn 47 target ++ cs)
      | .missing => .error .notFound

/-- A walk that may go through so many links. -/
def walk (t : LinkTree) : ℕ → Path → List Bytes → Except WalkError Path
  | 0 => t.walkWith fun _ _ => .error .failed
  | links + 1 => t.walkWith (walk t links)

/-- The number of links the system goes through. -/
def MAXSYMLINKS : ℕ := 40

/-! ### Components -/

lemma component_of_node {cur : Path} {c : Bytes} {n : LinkNode} (h : t.node (cur ++ [c]) = some n) :
    t.component cur c = .ofNode n := by
  obtain ⟨-, hname⟩ := node_concat h
  have hdot : ¬ (c = [] ∨ c = [46]) := by simp [hname.ne_nil, hname.proper.1]
  rw [component, if_neg (not_lt.mpr hname.length_le), if_neg hdot, if_neg hname.proper.2, h]

lemma node_of_component {cur : Path} {c : Bytes} :
    (t.component cur c = .dir → t.node (cur ++ [c]) = some .dir) ∧
      (t.component cur c = .file → ∃ content, t.node (cur ++ [c]) = some (.file content)) := by
  cases hnode : t.node (cur ++ [c]) with
  | some n =>
      rw [component_of_node hnode]
      cases n <;> simp [Component.ofNode]
  | none =>
      rw [component, hnode]
      split_ifs <;> simp

/-! ### What holds of every walk -/

/-- What holds of `walkWith` for all ways to go on behind a link holds of `walk`. -/
lemma walk_induction {P : (Path → List Bytes → Except WalkError Path) → Prop}
    (hzero : P fun _ _ => .error .failed) (hstep : ∀ follow, P follow → P (t.walkWith follow)) :
    ∀ links, P (t.walk links)
  | 0 => hstep _ hzero
  | links + 1 => hstep _ (walk_induction hzero hstep links)

/-- **A walk ends at a physical path**, and not at a link. -/
lemma walk_physical (links : ℕ) {cur q : Path} {cs : List Bytes} (hcur : t.node cur = some .dir)
    (h : t.walk links cur cs = .ok q) :
    t.node q = some .dir ∨ ∃ content, t.node q = some (.file content) := by
  refine walk_induction (P := fun walk => ∀ cur cs q, t.node cur = some .dir →
    walk cur cs = .ok q → t.node q = some .dir ∨ ∃ content, t.node q = some (.file content))
      ?_ ?_ links cur cs q hcur h
  · intro cur cs q _ h
    cases h
  · intro follow hfollow cur cs
    induction cs generalizing cur with
    | nil =>
        intro q hcur h
        cases h
        exact Or.inl hcur
    | cons c cs ih =>
        intro q hcur h
        rw [walkWith] at h
        cases hc : t.component cur c with
        | tooLong => simp [hc] at h
        | missing => simp [hc] at h
        | dot =>
            rw [hc] at h
            exact ih cur q hcur h
        | dots =>
            rw [hc] at h
            exact ih _ q (node_dropLast hcur) h
        | dir =>
            rw [hc] at h
            exact ih _ q (node_of_component.1 hc) h
        | file =>
            rw [hc] at h
            simp only at h
            split_ifs at h
            cases h
            exact Or.inr (node_of_component.2 hc)
        | link target =>
            rw [hc] at h
            refine hfollow _ _ q ?_ h
            split_ifs
            · rfl
            · exact hcur

/-- A walk that fails fails whatever comes behind. -/
lemma walk_error_append (links : ℕ) {cur : Path} {cs : List Bytes} {e : WalkError}
    (h : t.walk links cur cs = .error e) (ds : List Bytes) :
    ∃ e', t.walk links cur (cs ++ ds) = .error e' := by
  refine walk_induction (P := fun walk => ∀ cur cs e, walk cur cs = .error e → ∀ ds, ∃ e',
    walk cur (cs ++ ds) = .error e') ?_ ?_ links cur cs e h ds
  · exact fun _ _ _ _ _ => ⟨.failed, rfl⟩
  · intro follow hfollow cur cs
    induction cs generalizing cur with
    | nil =>
        intro e h
        cases h
    | cons c cs ih =>
        intro e h ds
        rw [walkWith] at h
        rw [List.cons_append, walkWith]
        cases hc : t.component cur c with
        | tooLong => exact ⟨_, rfl⟩
        | missing => exact ⟨_, rfl⟩
        | dot =>
            rw [hc] at h
            exact ih cur e h ds
        | dots =>
            rw [hc] at h
            exact ih _ e h ds
        | dir =>
            rw [hc] at h
            exact ih _ e h ds
        | file =>
            rw [hc] at h
            simp only at h
            split_ifs at h with hcs
            exact ⟨.notFound, by simp [hcs]⟩
        | link target =>
            rw [hc] at h
            simp only [← List.append_assoc]
            exact hfollow _ _ e h ds

lemma walkWith_mono {follow follow' : Path → List Bytes → Except WalkError Path}
    (hfollow : ∀ cur cs, follow cur cs ≠ .error .failed → follow' cur cs = follow cur cs)
    {cur : Path} {cs : List Bytes} (h : t.walkWith follow cur cs ≠ .error .failed) :
    t.walkWith follow' cur cs = t.walkWith follow cur cs := by
  induction cs generalizing cur with
  | nil => rfl
  | cons c cs ih =>
      rw [walkWith] at h
      rw [walkWith, walkWith]
      cases hc : t.component cur c with
      | tooLong => rfl
      | missing => rfl
      | file => rfl
      | dot =>
          rw [hc] at h
          exact ih h
      | dots =>
          rw [hc] at h
          exact ih h
      | dir =>
          rw [hc] at h
          exact ih h
      | link target =>
          rw [hc] at h
          exact hfollow _ _ h

/-- A walk that may go through more links comes to the same end, unless it ran out of them. -/
lemma walk_mono {links more : ℕ} (hle : links ≤ more) {cur : Path} {cs : List Bytes}
    (h : t.walk links cur cs ≠ .error .failed) :
    t.walk more cur cs = t.walk links cur cs := by
  have hstep : ∀ links cur cs, t.walk links cur cs ≠ .error .failed →
      t.walk (links + 1) cur cs = t.walk links cur cs := by
    intro links
    induction links with
    | zero => exact fun cur cs h => walkWith_mono (fun _ _ hf => absurd rfl hf) h
    | succ links ih => exact fun cur cs h => walkWith_mono ih h
  induction more, hle using Nat.le_induction with
  | base => rfl
  | succ more _ ih => rw [hstep more cur cs (by rwa [ih]), ih]

/-- **A path is read from left to right.** -/
lemma walk_append {links : ℕ} {cur q : Path} {cs : List Bytes} (h : t.walk links cur cs = .ok q)
    (hq : t.node q = some .dir) :
    ∃ left ≤ links, ∀ ds, t.walk links cur (cs ++ ds) = t.walk left q ds := by
  have hstep : ∀ links follow, t.walk links = t.walkWith follow →
      (∀ cur cs, follow cur cs = .ok q →
        ∃ left ≤ links, ∀ ds, follow cur (cs ++ ds) = t.walk left q ds) →
      ∀ cs cur, t.walk links cur cs = .ok q →
        ∃ left ≤ links, ∀ ds, t.walk links cur (cs ++ ds) = t.walk left q ds := by
    intro links follow hwalk hfollow cs
    induction cs with
    | nil =>
        intro cur h
        rw [hwalk, walkWith, Except.ok.injEq] at h
        exact ⟨links, le_rfl, fun ds => by rw [h, List.nil_append]⟩
    | cons c cs ih =>
        intro cur h
        rw [hwalk] at h ih ⊢
        rw [walkWith] at h
        simp only [List.cons_append, walkWith]
        cases hc : t.component cur c with
        | tooLong => simp [hc] at h
        | missing => simp [hc] at h
        | dot =>
            rw [hc] at h
            exact ih cur h
        | dots =>
            rw [hc] at h
            exact ih _ h
        | dir =>
            rw [hc] at h
            exact ih _ h
        | file =>
            rw [hc] at h
            simp only at h
            split_ifs at h
            cases h
            obtain ⟨content, hfile⟩ := node_of_component.2 hc
            rw [hfile] at hq
            cases hq
        | link target =>
            rw [hc] at h
            simp only [← List.append_assoc]
            exact hfollow _ _ h
  induction links generalizing cur cs with
  | zero => exact hstep 0 _ rfl (fun _ _ h => by cases h) cs cur h
  | succ links ih =>
      refine hstep (links + 1) _ rfl (fun cur cs h => ?_) cs cur h
      obtain ⟨left, hle, hleft⟩ := ih h
      exact ⟨left, Nat.le_succ_of_le hle, hleft⟩

/-- **A physical path leads to itself**, and what stands behind a directory is read there. -/
lemma walk_self (links : ℕ) {cs : List Bytes} (ds : List Bytes) : ∀ {cur : Path},
    t.node (cur ++ cs) = some .dir → t.walk links cur (cs ++ ds) =
      t.walk links (cur ++ cs) ds := by
  obtain ⟨follow, hwalk⟩ : ∃ follow, t.walk links = t.walkWith follow := by
    cases links <;> exact ⟨_, rfl⟩
  rw [hwalk]
  induction cs with
  | nil => intro cur _; rw [List.nil_append, List.append_nil]
  | cons c cs ih =>
      intro cur h
      have hsplit : cur ++ c :: cs = (cur ++ [c]) ++ cs := by simp
      rw [hsplit] at h ⊢
      have hdir : t.node (cur ++ [c]) = some .dir := by
        by_cases hcs : cs = []
        · rwa [hcs, List.append_nil] at h
        · exact node_append hcs h
      rw [List.cons_append, walkWith, component_of_node hdir]
      exact ih h

/-- The same, from the root of the tree. -/
lemma walk_dir (links : ℕ) {cs : List Bytes} (ds : List Bytes) (h : t.node cs = some .dir) :
    t.walk links [] (cs ++ ds) = t.walk links cs ds := by
  have hself : t.node ([] ++ cs) = some .dir := by rwa [List.nil_append]
  rw [walk_self links ds hself, List.nil_append]

lemma walk_file (links : ℕ) {dir : Path} {c : Bytes} {content : Bytes}
    (h : t.node (dir ++ [c]) = some (.file content)) (cs : List Bytes) :
    t.walk links [] (dir ++ c :: cs) = if cs = [] then .ok (dir ++ [c]) else .error .notFound := by
  rw [walk_dir links _ (node_concat h).1]
  cases links <;> rw [walk, walkWith, component_of_node h] <;> rfl

/-- What is at a physical path is found there. -/
lemma walk_node (links : ℕ) {p : Path}
    (h : t.node p = some .dir ∨ ∃ content, t.node p = some (.file content)) :
    t.walk links [] p = .ok p := by
  rcases h with hdir | ⟨content, hfile⟩
  · have hself := walk_dir links [] hdir
    rw [List.append_nil] at hself
    rw [hself]
    cases links <;> rfl
  · rcases List.eq_nil_or_concat' p with rfl | ⟨dir, c, rfl⟩
    · cases hfile
    · rw [walk_file links hfile [], if_pos rfl]

/-! ## Canonical paths -/

/-- The physical path an absolute path leads to. -/
def resolve (t : LinkTree) (p : Path) : Except WalkError Path :=
  if Tree.PATH_MAX ≤ p.string.length then .error .failed else t.walk MAXSYMLINKS [] p

/-- `std::filesystem::exists`; no result on an error. -/
def exists_ (t : LinkTree) (p : Path) : Option Bool :=
  match t.resolve p with
  | .ok _ => some true
  | .error .notFound => some false
  | .error .failed => none

/-- The loop of `weakly_canonical` over the leading components that exist, and what is left. -/
def leading (t : LinkTree) (done : Path) : List Bytes → Option (Path × List Bytes)
  | [] => some (done, [])
  | c :: cs =>
      match t.exists_ (done ++ [c]) with
      | some true => leading t (done ++ [c]) cs
      | some false => some (done, c :: cs)
      | none => none

/-- `path::lexically_normal`, which keeps a separator at the end. -/
def lexically_normal (p : Path) : Path :=
  normalize p ++ if p.getLastD [] = [] ∨ p.getLastD [] = [46] ∨
    p.getLastD [] = [46, 46] then [[]]
    else []

/-- `std::filesystem::weakly_canonical`: a path that exists is made canonical; of any other path
the components that exist are, and the rest follows as it is. -/
def weakly_canonical (t : LinkTree) (p : Path) : Option Path :=
  match t.resolve p with
  | .ok q => some q
  | .error .failed => none
  | .error .notFound =>
      match t.leading [] p with
      | none => none
      | some r => match t.resolve r.1 with
        | .ok q => some (lexically_normal (q ++ r.2))
        | .error _ => none

lemma walk_of_resolve {p : Path} {r : Except WalkError Path} (h : t.resolve p = r)
    (hr : r ≠ .error .failed) : t.walk MAXSYMLINKS [] p = r := by
  rw [resolve] at h
  split_ifs at h
  · exact absurd h.symm hr
  · exact h

/-- A resolved path leads to a directory or to a file. -/
lemma physical_of_resolve {p q : Path} (h : t.resolve p = .ok q) :
    t.node q = some .dir ∨ ∃ content, t.node q = some (.file content) :=
  walk_physical MAXSYMLINKS rfl (walk_of_resolve h (by simp))

lemma resolve_of_exists {p : Path} :
    (t.exists_ p = some true → ∃ q, t.resolve p = .ok q) ∧
      (t.exists_ p = some false → t.resolve p = .error .notFound) := by
  rw [exists_]
  cases hr : t.resolve p with
  | ok q => simp
  | error e => cases e <;> simp

lemma resolve_nil : t.resolve [] = .ok [] := rfl

/-- Where the loop stops. -/
lemma leading_spec {done head : Path} {cs rest : List Bytes} (hdone : ∃ q, t.resolve done = .ok q)
    (h : t.leading done cs = some (head, rest)) :
    done ++ cs = head ++ rest ∧ (∃ q, t.resolve head = .ok q) ∧
      ∀ c cs', rest = c :: cs' → t.resolve (head ++ [c]) = .error .notFound := by
  induction cs generalizing done with
  | nil =>
      cases h
      exact ⟨rfl, hdone, fun c cs' h => by cases h⟩
  | cons c cs ih =>
      rw [leading] at h
      cases hthere : t.exists_ (done ++ [c]) with
      | none => simp [hthere] at h
      | some there =>
          rw [hthere] at h
          cases there with
          | true =>
              obtain ⟨heq, hrest⟩ := ih (resolve_of_exists.1 hthere) h
              exact ⟨by rw [← heq, List.append_assoc]; rfl, hrest⟩
          | false =>
              cases h
              refine ⟨rfl, hdone, fun c' cs' h => ?_⟩
              cases h
              exact resolve_of_exists.2 hthere

/-- A component that says something. -/
def counts (c : Bytes) : Bool := ! (c.isEmpty || c == [46])

lemma counts_iff {c : Bytes} : counts c = true ↔ c ≠ [] ∧ c ≠ [46] := by
  simp [counts]

/-- What the kind of a component says about it. -/
lemma counts_of_component (t : LinkTree) (cur : Path) (c : Bytes) :
    (t.component cur c = .dot → counts c = false) ∧
    (t.component cur c = .dots → c = [46, 46]) ∧
      (t.component cur c = .dir ∨ t.component cur c = .file → counts c = true) ∧
      ∀ target, t.component cur c = .link target →
        t.node (cur ++ [c]) = some (.link target) := by
  cases hnode : t.node (cur ++ [c]) with
  | some n =>
      obtain ⟨-, hname⟩ := node_concat hnode
      have hcounts : counts c = true := counts_iff.mpr ⟨hname.ne_nil, hname.proper.1⟩
      rw [component_of_node hnode]
      cases n <;> simp [Component.ofNode, hcounts]
  | none =>
      rw [component, hnode]
      split_ifs with hlong hdot hdots
      · simp
      · have hstay : counts c = false := by
          rcases hdot with rfl | rfl <;> rfl
        simp [hstay]
      · simp [hdots]
      · simp

/-- Without `..`, a normal form drops the components that stand for nothing. -/
lemma normalize_eq_filter {p : Path} (h : [46, 46] ∉ p) :
    normalize p = p.filter counts := by
  have hfold : ∀ (p q : Path), [46, 46] ∉ p →
    p.foldl (fun q c => if c = [] ∨ c = [46] then q
      else if c = [46, 46] then q.dropLast else q ++ [c]) q =
        q ++ p.filter counts := by
    intro p
    induction p with
    | nil => intro q _; simp
    | cons c p ih =>
        intro q h
        obtain ⟨hc, hp⟩ : [46, 46] ≠ c ∧ [46, 46] ∉ p := by simpa using h
        rw [List.foldl_cons, List.filter_cons]
        by_cases hcounts : counts c = true
        · obtain ⟨hne, hdot⟩ := counts_iff.mp hcounts
          rw [if_neg (by simp [hne, hdot]), if_neg (Ne.symm hc), if_pos hcounts, ih _ hp,
            List.append_assoc]
          rfl
        · have hstay : c = [] ∨ c = [46] := by
            rw [counts_iff] at hcounts
            tauto
          rw [if_pos hstay, if_neg hcounts, ih q hp]
  rw [normalize, hfold p [] h, List.nil_append]

/-- The components of a physical path are names. -/
lemma isName_of_node {p : Path} {n : LinkNode} (h : t.node p = some n) : ∀ c ∈ p, IsName c := by
  induction p using List.reverseRecOn generalizing n with
  | nil => simp
  | append_singleton dir name ih =>
      obtain ⟨hdir, hname⟩ := node_concat h
      intro c hc
      rcases List.mem_append.mp hc with hc | hc
      · exact ih hdir c hc
      · rwa [List.mem_singleton.mp hc]

/-- What does not exist below a path does not exist below its canonical form either. -/
lemma walk_missing {head top r : Path} {e : Bytes} {more : List Bytes}
    (hhead : t.resolve head = .ok top) (hmiss : t.resolve (head ++ [e]) = .error .notFound)
    (hkept : (e :: more).filter counts ≠ []) :
    t.walk MAXSYMLINKS [] (top ++ (e :: more).filter counts) ≠ .ok r := by
  have hwalk := walk_of_resolve hhead (by simp)
  rcases physical_of_resolve hhead with hdir | ⟨content, hfile⟩
  · -- the missing component is looked for in the directory that the path before it leads to
    obtain ⟨left, hle, hleft⟩ := walk_append hwalk hdir
    have hlater := hleft [e]
    rw [walk_of_resolve hmiss (by simp)] at hlater
    have hcounts : counts e = true := by
      by_contra hstay
      have hcomp : t.component top e = .dot := by
        rw [counts_iff] at hstay
        rcases (by tauto : e = [] ∨ e = [46]) with rfl | rfl <;> rfl
      cases left <;> simp [walk, walkWith, hcomp] at hlater
    have hmore : t.walk MAXSYMLINKS top [e] = .error .notFound := by
      rw [walk_mono hle (by simp [← hlater]), ← hlater]
    obtain ⟨e', he'⟩ := walk_error_append MAXSYMLINKS hmore (more.filter counts)
    rw [walk_dir MAXSYMLINKS _ hdir, List.filter_cons_of_pos hcounts]
    intro hok
    rw [List.singleton_append, hok] at he'
    cases he'
  · rcases List.eq_nil_or_concat' top with rfl | ⟨dir, name, rfl⟩
    · cases hfile
    · rw [List.append_assoc, List.singleton_append, walk_file MAXSYMLINKS hfile, if_neg hkept]
      simp

/-- **A canonical path that exists is physical.**  The path it was made from ends with a proper
component and has no `..`. -/
lemma weakly_canonical_exists {dir p q r : Path} {c : Bytes} (hp : p = dir ++ [c])
    (hc : counts c = true) (hdots : [46, 46] ∉ p) (h : t.weakly_canonical p = some q)
    (hr : t.resolve q = .ok r) : r = q ∧ t.resolve p = .ok q := by
  have hwalk := walk_of_resolve hr (by simp)
  rw [weakly_canonical] at h
  cases hres : t.resolve p with
  | ok q' =>
      rw [hres] at h
      cases h
      rw [walk_node MAXSYMLINKS (physical_of_resolve hres), Except.ok.injEq] at hwalk
      exact ⟨hwalk.symm, rfl⟩
  | error e =>
      cases e with
      | failed => simp [hres] at h
      | notFound =>
          exfalso
          rw [hres] at h
          cases hlead : t.leading [] p with
          | none => simp [hlead] at h
          | some found =>
              obtain ⟨head, rest⟩ := found
              obtain ⟨heq, ⟨top, htop⟩, hstop⟩ := leading_spec ⟨[], resolve_nil⟩ hlead
              rw [List.nil_append] at heq
              simp only [hlead, htop, Option.some.injEq] at h
              cases rest with
              | nil =>
                  rw [List.append_nil] at heq
                  rw [heq, htop] at hres
                  cases hres
              | cons e more =>
                  obtain ⟨init, hinit⟩ : ∃ init, e :: more = init ++ [c] := by
                    rw [hp, ← List.dropLast_append_getLast (List.cons_ne_nil e more),
                      ← List.append_assoc] at heq
                    obtain ⟨-, hlast⟩ := List.append_inj' heq rfl
                    refine ⟨(e :: more).dropLast, ?_⟩
                    rw [hlast, List.dropLast_append_getLast]
                  have hnames : ∀ d ∈ top, IsName d := by
                    rcases physical_of_resolve htop with hdir | ⟨_, hfile'⟩
                    · exact isName_of_node hdir
                    · exact isName_of_node hfile'
                  have htext : [46, 46] ∉ top ++ e :: more := by
                    intro hmem
                    rcases List.mem_append.mp hmem with hmem | hmem
                    · exact (hnames _ hmem).proper.2 rfl
                    · exact hdots (heq ▸ List.mem_append_right _ hmem)
                  have htopcounts : top.filter counts = top := List.filter_eq_self.mpr fun d hd =>
                    counts_iff.mpr ⟨(hnames d hd).ne_nil, (hnames d hd).proper.1⟩
                  have hmem : c ∈ e :: more := by simp [hinit]
                  have hkept : (e :: more).filter counts ≠ [] :=
                    List.ne_nil_of_mem (List.mem_filter.mpr ⟨hmem, hc⟩)
                  have hcdots : c ≠ [46, 46] := by
                    rintro rfl
                    exact htext (List.mem_append_right _ hmem)
                  have hq : q = top ++ (e :: more).filter counts := by
                    have hlast : (top ++ e :: more).getLastD [] = c := by
                      rw [hinit, ← List.append_assoc, List.getLastD_concat]
                    obtain ⟨hne, hdot⟩ := counts_iff.mp hc
                    rw [← h, lexically_normal, hlast, if_neg (by simp [hne, hdot, hcdots]),
                      List.append_nil, normalize_eq_filter htext, List.filter_append, htopcounts]
                  rw [hq] at hwalk
                  exact walk_missing htop (hstop e more rfl) hkept hwalk

/-- A canonical path has no `..`. -/
lemma dots_notMem_weakly_canonical {p q : Path} (h : t.weakly_canonical p = some q) :
    [46, 46] ∉ q := by
  have hnormal : ∀ (p acc : Path), [46, 46] ∉ acc → [46, 46] ∉ p.foldl (fun q c =>
      if c = [] ∨ c = [46] then q else if c = [46, 46] then q.dropLast else q ++ [c]) acc := by
    intro p
    induction p with
    | nil => exact fun _ h => h
    | cons c p ih =>
        intro acc hacc
        rw [List.foldl_cons]
        refine ih _ ?_
        split_ifs with hstay hdots
        · exact hacc
        · exact fun hmem => hacc (List.mem_of_mem_dropLast hmem)
        · simp [hacc, Ne.symm hdots]
  have hlexical : ∀ p, [46, 46] ∉ lexically_normal p := by
    intro p hmem
    rcases List.mem_append.mp hmem with hmem | hmem
    · exact hnormal p [] (by simp) hmem
    · split_ifs at hmem
      · simp at hmem
      · simp at hmem
  rw [weakly_canonical] at h
  split at h
  · rename_i q' hres
    cases h
    rcases physical_of_resolve hres with hn | ⟨_, hn⟩
    · exact fun hmem => (isName_of_node hn _ hmem).proper.2 rfl
    · exact fun hmem => (isName_of_node hn _ hmem).proper.2 rfl
  · cases h
  · split at h
    · cases h
    · split at h
      · cases h
        exact hlexical _
      · cases h

/-- A beginning of a path that can be resolved is not too long either. -/
lemma resolve_node {p : Path}
    (h : t.node p = some .dir ∨ ∃ content, t.node p = some (.file content)) :
    t.resolve p = if Tree.PATH_MAX ≤ p.string.length then .error .failed else .ok p := by
  rw [resolve, walk_node MAXSYMLINKS h]

/-! ## What a reader sees -/

/-- The names in a directory. -/
def names (t : LinkTree) (dir : Path) : List Bytes :=
  t.entries.filterMap fun e => if e.1.dropLast = dir then e.1.getLast? else none

/-- What the end of a walk looks like. -/
def seen : LinkNode → Option Seen
  | .dir => some .dir
  | .file content => some (.file content)
  | .link _ => none

/-- Every path of a view goes through the links on its way. -/
def view (t : LinkTree) (overrun : Path → Bytes) : View where
  look p := match t.resolve p with
    | .ok q => (t.node q).bind seen
    | .error _ => none
  children p := match t.resolve p with
    | .ok q => t.names q
    | .error _ => []
  weakly_canonical := t.weakly_canonical
  overrun := overrun

lemma look_eq_file_iff {overrun : Path → Bytes} {p : Path} {content : Bytes} :
    (t.view overrun).look p = some (.file content) ↔
      ∃ q, t.resolve p = .ok q ∧ t.node q = some (.file content) := by
  cases hres : t.resolve p with
  | error e => simp [view, hres]
  | ok q =>
      cases hnode : t.node q with
      | none => simp [view, hres, hnode]
      | some n => cases n <;> simp [view, hres, hnode, seen]

/-- What a physical path looks like. -/
lemma look_node {overrun : Path → Bytes} {p : Path} {n : LinkNode} (h : t.node p = some n)
    (hn : n = .dir ∨ ∃ content, n = .file content) (hshort : p.string.length < Tree.PATH_MAX) :
    (t.view overrun).look p = seen n := by
  have hres : t.resolve p = .ok p := by
    rw [resolve_node, if_neg (not_le.mpr hshort)]
    rcases hn with rfl | ⟨content, rfl⟩
    · exact Or.inl h
    · exact Or.inr ⟨content, h⟩
  simp [view, hres, h]

end LinkTree

end Tracebox
