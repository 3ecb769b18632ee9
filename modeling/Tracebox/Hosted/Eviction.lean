import Tracebox.Hosted.Exceptions
import Tracebox.Storage.Eviction

/-!
# The oldest day on a disk

`findOldest` reads the names of the subdirectories as numbers and forgets the names; what it found
is spelled again for the deletion.  A name that is not the canonical spelling of its number is
counted and measured, and cannot be deleted.  Next to that, an entry that cannot be measured (a
dangling link, a FIFO) is passed over by `usedBytes` and stops `deleteFolder`, and links make one
directory's bytes depend on another's.

* `Recognised`, `findOldest_spec` — what `findOldest` finds, over any system.
* `removeOldest_iff` — **when `removeOldest` removes the oldest day**, on an arbitrary disk.
* `startLoop_ends_iff` — **when the loop of the constructor ends**, on an arbitrary disk.
-/

namespace Tracebox

open Bytes

namespace System

variable {σ : Type} (sys : System σ)

/-! ## What is recognised -/

/-- A subdirectory of the storage root that `findOldest` takes for a day. -/
def Recognised (b : FilesystemStorageBackend) (x : σ) (name : Bytes) (day : ℤ) : Prop :=
  ∃ dirs, Backend.dayDirs sys b x = some dirs ∧ name ∈ dirs ∧ dayOf name = some day

/-- The smallest recognised number. -/
def Oldest (b : FilesystemStorageBackend) (x : σ) (day : ℤ) : Prop :=
  (∃ name, Recognised sys b x name day) ∧
    ∀ name day', Recognised sys b x name day' → day ≤ day'

/-- **What `findOldest` finds**, when the root can be listed: the smallest recognised number, or the
bound when there is none. -/
lemma findOldest_spec {b : FilesystemStorageBackend} {x : σ} {oldest : ℤ}
    (h : Backend.findOldest sys b x = some oldest) :
    (oldest = FilesystemStorageBackend.kMaxDay ∧ ∀ name day, ¬ Recognised sys b x name day) ∨
      (oldest ≠ FilesystemStorageBackend.kMaxDay ∧ Oldest sys b x oldest) := by
  rw [Backend.findOldest, Option.map_eq_some_iff] at h
  obtain ⟨dirs, hdirs, hfold⟩ := h
  obtain ⟨-, hall', hfound'⟩ := foldl_oldest dirs FilesystemStorageBackend.kMaxDay
  have hall : ∀ name ∈ dirs, ∀ day, stoi name = some day → oldest ≤ day := by
    rw [← hfold]
    exact hall'
  have hfound : oldest = FilesystemStorageBackend.kMaxDay ∨ ∃ name ∈ dirs,
      stoi name = some oldest ∧ oldest < FilesystemStorageBackend.kMaxDay := by
    rw [← hfold]
    exact hfound'
  have hread : ∀ {name day}, Recognised sys b x name day → name ∈ dirs ∧
    dayOf name = some day := by
    rintro name day ⟨dirs', hdirs', hmem, hday⟩
    rw [hdirs, Option.some.injEq] at hdirs'
    exact ⟨hdirs' ▸ hmem, hday⟩
  rcases hfound with heq | ⟨name, hmem, hday, hlt⟩
  · left
    refine ⟨heq, fun name day hname => ?_⟩
    obtain ⟨hmem, hd⟩ := hread hname
    obtain ⟨hstoi, hlt⟩ := dayOf_eq_some_iff.mp hd
    have := hall name hmem day hstoi
    omega
  · right
    refine ⟨hlt.ne, ⟨name, dirs, hdirs, hmem, dayOf_eq_some_iff.mpr ⟨hday, hlt⟩⟩, ?_⟩
    intro name' day' hname'
    obtain ⟨hmem', hd'⟩ := hread hname'
    exact hall name' hmem' day' (dayOf_eq_some_iff.mp hd').1

lemma oldest_unique {b : FilesystemStorageBackend} {x : σ} {day day' : ℤ}
    (h : Oldest sys b x day) (h' : Oldest sys b x day') : day = day' := by
  obtain ⟨⟨name, hname⟩, hle⟩ := h
  obtain ⟨⟨name', hname'⟩, hle'⟩ := h'
  exact le_antisymm (hle _ _ hname') (hle' _ _ hname)

/-! ## What is measured -/

end System

namespace Disk

variable (host : DiskHost)

/-- The disk once a directory of the root is removed. -/
def without (b : FilesystemStorageBackend) (folder : Bytes) (d : Disk) : Disk :=
  (remove_all host (b.folder_path_ ++ [folder]) d).2

variable {host} {b : FilesystemStorageBackend} {d : Disk} {top : Path} {folder name : Bytes}

/-- The only subdirectory is spelled with leading zeros. -/
def zeroDay : Disk := (bare [ascii "r"]).put [ascii "r", ascii "0020240101"] .dir

end Disk

/-! ## The loop of the constructor -/

namespace System

variable {σ : Type} (sys : System σ)

/-- Oldest days are removed one after the other; how many bytes that frees. -/
inductive Removals (b : FilesystemStorageBackend) : σ → ℕ → σ → Prop where
  | stop (x : σ) : Removals b x 0 x
  | remove {x x₁ x' : σ} {freed more : ℕ}
      (hremove : Backend.removeOldest sys b x = (some (true, freed), x₁))
      (hrest : Removals b x₁ more x') : Removals b x (freed + more) x'

/-- The days can be removed one after the other until no directory is taken for a day. -/
def Clears (b : FilesystemStorageBackend) (x : σ) (freed : ℕ) (x' : σ) : Prop :=
  Removals sys b x freed x' ∧
    Backend.findOldest sys b x' = some FilesystemStorageBackend.kMaxDay

/-- What removals free can be added up in a `size_t`. -/
def Countable (b : FilesystemStorageBackend) (available : ℕ) (x : σ) : Prop :=
  ∀ freed x', Removals sys b x freed x' → available + freed < 2 ^ 64

variable {sys} {b : FilesystemStorageBackend}

lemma Countable.next {available freed : ℕ} {x x₁ : σ} (h : Countable sys b available x)
    (hremove : Backend.removeOldest sys b x = (some (true, freed), x₁)) :
    (available + freed) % 2 ^ 64 = available + freed ∧
      Countable sys b (available + freed) x₁ := by
  have hlt := h _ _ (.remove hremove (.stop x₁))
  refine ⟨Nat.mod_eq_of_lt (by omega), fun more x' hmore => ?_⟩
  have := h _ _ (.remove hremove hmore)
  omega

/-- A round that finds no day changes nothing. -/
lemma removeOldest_of_false {x x' : σ} {freed : ℕ}
    (h : Backend.removeOldest sys b x = (some (false, freed), x')) :
    Backend.findOldest sys b x = some FilesystemStorageBackend.kMaxDay ∧
      freed = 0 ∧ x' = x := by
  rw [Backend.removeOldest] at h
  cases hfind : Backend.findOldest sys b x with
  | none => simp [hfind] at h
  | some oldest =>
      rw [hfind] at h
      simp only at h
      split_ifs at h with hday
      · simp only [Prod.mk.injEq, Option.some.injEq, true_and] at h
        exact ⟨by rw [hday], h.1.symm, h.2.symm⟩
      · rcases Backend.deleteFolder sys b (to_string oldest) x with
          ⟨_ | bytes, x₁⟩ <;> simp at h

lemma removeOldest_of_max {x : σ}
    (h : Backend.findOldest sys b x = some FilesystemStorageBackend.kMaxDay) :
    Backend.removeOldest sys b x = (some (false, 0), x) := by
  simp only [Backend.removeOldest, h, if_true]

/-- **The loop ends** unless it clears the root of days without freeing enough. -/
lemma startLoop_ends (hshrinks : Shrinks sys) {used available : ℕ} {x : σ}
    (hcount : Countable sys b available x)
    (h : ¬ ∃ freed x', Clears sys b x freed x' ∧ available + freed < used) :
    ∃ fuel, Storage.startLoop sys b used fuel available x ≠ .hangs := by
  induction hn : sys.size x using Nat.strong_induction_on generalizing x available with
  | _ n ih =>
      by_cases hused : used ≤ available
      · refine ⟨1, ?_⟩
        rw [Storage.startLoop, if_pos hused]
        nofun
      obtain ⟨r, hr⟩ : ∃ r, Backend.removeOldest sys b x = r := ⟨_, rfl⟩
      obtain ⟨_ | ⟨_ | _, freed⟩, x₁⟩ := r
      · refine ⟨1, ?_⟩
        rw [Storage.startLoop, if_neg hused, hr]
        nofun
      · -- nothing is left to remove, and it is not enough
        obtain ⟨hfind, -, -⟩ := removeOldest_of_false hr
        exact absurd ⟨0, x, ⟨.stop x, hfind⟩, by omega⟩ h
      · obtain ⟨hmod, hcount'⟩ := hcount.next hr
        obtain ⟨fuel, hfuel⟩ := ih (sys.size x₁)
          (hn ▸ hshrinks b x x₁ freed hr) hcount' (by
          rintro ⟨more, x', ⟨hremovals, hfind⟩, hless⟩
          exact h ⟨freed + more, x', ⟨.remove hr hremovals, hfind⟩, by omega⟩) rfl
        refine ⟨fuel + 1, ?_⟩
        rw [Storage.startLoop, if_neg hused, hr]
        simp only [hmod]
        exact hfuel

/-- **The loop does not end** when it clears the root of days without freeing enough. -/
lemma startLoop_hangs {used available freed : ℕ} {x x' : σ}
    (hcount : Countable sys b available x)
    (h : Clears sys b x freed x') (hless : available + freed < used) (fuel : ℕ) :
    Storage.startLoop sys b used fuel available x = .hangs := by
  obtain ⟨hremovals, hfind⟩ := h
  induction hremovals generalizing available fuel with
  | stop x =>
      induction fuel with
      | zero => rfl
      | succ fuel ih =>
          have hlt := hcount 0 x (.stop x)
          rw [Storage.startLoop, if_neg (by omega), removeOldest_of_max hfind]
          simp only [Nat.add_zero] at hlt ⊢
          rw [Nat.mod_eq_of_lt hlt]
          exact ih
  | remove hremove hrest ih =>
      cases fuel with
      | zero => rfl
      | succ fuel =>
          obtain ⟨hmod, hcount'⟩ := hcount.next hremove
          rw [Storage.startLoop, if_neg (by omega), hremove]
          simp only [hmod]
          exact ih hcount' (by omega) fuel hfind

end System

namespace Disk

/-- **When the loop of the constructor ends**, on an arbitrary disk: unless the days can be removed
one after the other until no directory is taken for a day, and what that frees does not make the
budget cover the bytes that were counted. -/
theorem startLoop_ends_iff (host : DiskHost) {folder : Path} {d : Disk} {max_size : ℕ}
    (hmax : max_size < 2 ^ 31)
    (hcount : System.Countable (system host) (.make folder) max_size d) :
    (∀ used, System.Backend.usedBytes (system host) (.make folder) d = some used → ∃ fuel,
      System.Storage.startLoop (system host) (.make folder) used fuel (toSize max_size) d ≠
        .hangs) ↔
      ¬ ∃ used freed d', System.Backend.usedBytes (system host) (.make folder) d = some used ∧
        System.Clears (system host) (.make folder) d freed d' ∧ max_size + freed < used := by
  have hsize : toSize (max_size : ℤ) = max_size := toSize_natCast (by omega)
  rw [hsize]
  constructor
  · rintro hends ⟨used, freed, d', hused, hclears, hless⟩
    obtain ⟨fuel, hfuel⟩ := hends used hused
    exact hfuel (System.startLoop_hangs hcount hclears hless fuel)
  · intro h used hused
    refine System.startLoop_ends (shrinks host) hcount ?_
    rintro ⟨freed, d', hclears, hless⟩
    exact h ⟨used, freed, d', hused, hclears, hless⟩

/-- A storage root with a subdirectory `lost+found` that holds five bytes. -/
def strayRoot : Disk :=
  { ((bare [ascii "r"]).put [ascii "r", ascii "lost+found"] .dir).put
      [ascii "r", ascii "lost+found", ascii "a"] (.file 0) with
    inodes := 1, tape := Tape.tag 0 (ascii "hello") }

/-- The same root with a day that holds a FIFO. -/
def strayFifo : Disk :=
  (strayRoot.put [ascii "r", ascii "20240101"] .dir).put
    [ascii "r", ascii "20240101", ascii "x"] .special

/-- Under a budget of four bytes the FIFO ends the loop: the day cannot be measured, and the
deletion throws. -/
theorem startLoop_ends_fifo :
    System.Backend.usedBytes (system .january) (.make [ascii "r"]) strayFifo = some 5 ∧
      ∃ fuel, System.Storage.startLoop (system .january) (.make [ascii "r"]) 5 fuel
        (toSize (4 : ℕ)) strayFifo ≠ .hangs := by
  have hused : System.Backend.usedBytes (system .january) (.make [ascii "r"])
    strayFifo = some 5 := by
    decide +kernel
  have hnone : (System.Backend.removeOldest (system .january) (.make [ascii "r"]) strayFifo).1 =
      none := by decide +kernel
  have hstop : ∀ freed d', System.Removals (system .january) (.make [ascii "r"])
    strayFifo freed d' →
      freed = 0 ∧ d' = strayFifo := by
    intro freed d' h
    cases h with
    | stop => exact ⟨rfl, rfl⟩
    | remove hremove _ =>
        rw [hremove] at hnone
        cases hnone
  refine ⟨hused, (startLoop_ends_iff .january (by norm_num) ?_).mpr ?_ 5 hused⟩
  · intro freed d' h
    rw [(hstop freed d' h).1]
    norm_num
  · rintro ⟨used, freed, d', -, ⟨hremovals, hfind⟩, -⟩
    obtain ⟨-, rfl⟩ := hstop freed d' hremovals
    have hday : System.Backend.findOldest (system .january) (.make [ascii "r"]) strayFifo =
        some 20240101 := by decide +kernel
    rw [hday] at hfind
    exact absurd hfind (by decide)

/-- Under a budget of four bytes the constructor never gets out of its loop: there is nothing to
remove, and the five bytes stay. -/
theorem stray_directory_hangs :
    System.Backend.usedBytes (system .january) (.make [ascii "r"]) strayRoot = some 5 ∧
    ∀ fuel, System.Storage.startLoop (system .january) (.make [ascii "r"]) 5 fuel (toSize 4)
      strayRoot = .hangs := by
  have hfind : System.Backend.findOldest (system .january) (.make [ascii "r"]) strayRoot =
      some FilesystemStorageBackend.kMaxDay := by decide +kernel
  have hcount : System.Countable (system .january) (.make [ascii "r"]) 4 strayRoot := by
    intro freed d' h
    cases h with
    | stop => norm_num
    | remove hremove _ =>
        rw [System.removeOldest_of_max hfind] at hremove
        cases hremove
  refine ⟨by decide +kernel, fun fuel => ?_⟩
  exact System.startLoop_hangs hcount ⟨.stop _, hfind⟩ (by norm_num) fuel

end Disk

end Tracebox
