import Tracebox.Writer.Storage

/-!
# Retention policy over any backend

`Storage` owns the byte budget and reaches its files only through `StorageBackend`.  Here the
backend is a parameter: any state with the three operations of the interface.  The policy code is
the same as in `Writer/Storage.lean`, and it also records what it does with its `size_t` counter and
with the backend, so that a result can speak about every addition and subtraction on the way.

* `StorageBackend.Removes`, `StorageBackend.Contract` — what a backend promises.
* `startLoop_balanced`, `makeRoom_balanced` — **what the two loops keep**.  The loop of the
  constructor compares against a footprint that is already out of date; what it keeps is the sum of
  the counter and the present footprint.
* `policy_balanced` — **the counter and the footprint add up to the budget** after the constructor
  and after every write, without wrap-around.
* `storage_write_eq`, `storage_make_eq` — the storage of this program is this policy over its
  filesystem backend.
-/

namespace Tracebox

/-- The interface `StorageBackend`.  An operation that throws has no result. -/
structure StorageBackend (σ : Type*) where
  usedBytes : σ → ℕ
  /-- the return value with `freed_bytes` -/
  removeOldest : σ → Option (Bool × ℕ × σ)
  write : σ → LogRequest → Outcome × σ

namespace StorageBackend

variable {σ : Type*}

/-- What `removeOldest` promises.  When it returns `false`, neither the footprint changes nor the
caller's count, which starts at zero. -/
structure Removes (B : StorageBackend σ) : Prop where
  removed : ∀ {s s' freed}, B.removeOldest s = some (true, freed, s') →
    B.usedBytes s = B.usedBytes s' + freed
  nothing : ∀ {s s' freed}, B.removeOldest s = some (false, freed, s') →
    B.usedBytes s' = B.usedBytes s ∧ freed = 0

/-- What a backend promises. -/
structure Contract (B : StorageBackend σ) : Prop extends Removes B where
  wrote : ∀ {s s' request} {written : ℤ}, B.write s request = (.ret written, s') →
    0 < written →
    B.usedBytes s' = B.usedBytes s + written.toNat ∧
      written.toNat ≤ maxRecordSize request.data.length
  refused : ∀ {s s' request} {written : ℤ}, B.write s request = (.ret written, s') →
    written ≤ 0 → B.usedBytes s' = B.usedBytes s

end StorageBackend

/-! ## The policy -/

/-- What the policy does on the way. -/
inductive PolicyEvent where
  /-- `removeOldest` returned -/
  | removed (result : Bool)
  /-- the backend's `write` returned -/
  | wrote
  /-- `a + b` on the counter -/
  | plus (a b : ℕ)
  /-- `a - b` on the counter -/
  | minus (a b : ℕ)
  deriving DecidableEq

/-- The operation stays inside `size_t`. -/
def PolicyEvent.NoWrap : PolicyEvent → Prop
  | plus a b => a + b < 2 ^ 64
  | minus a b => b ≤ a
  | _ => True

/-- A `Storage` with its backend's state. -/
structure Retention (σ : Type*) where
  available_bytes_ : ℕ
  backend_ : σ

namespace Retention

variable {σ : Type*} (B : StorageBackend σ)

/-- How a loop that calls `removeOldest` ends. -/
inductive Room (σ : Type*) where
  /-- the loop condition became false -/
  | done (available_bytes : ℕ) (s : σ)
  /-- `removeOldest` found nothing to remove -/
  | full (available_bytes : ℕ) (s : σ)
  | thrown (available_bytes : ℕ) (s : σ)
  | hangs

/-- The loop of the constructor. -/
def startLoop (used : ℕ) : ℕ → ℕ → σ → List PolicyEvent × Room σ
  | 0, _, _ => ([], .hangs)
  | fuel + 1, available, s =>
      if used ≤ available then ([], .done available s)
      else match B.removeOldest s with
        | none => ([], .thrown available s)
        | some (result, freed, s) =>
            let rest := startLoop used fuel ((available + freed) % 2 ^ 64) s
            (.removed result :: .plus available freed :: rest.1, rest.2)

/-- The constructor, for at most `fuel` rounds of its loop. -/
def make (fuel : ℕ) (max_size : ℤ) (s : σ) : List PolicyEvent × Option (Retention σ) :=
  let used := B.usedBytes s
  let loop := startLoop B used fuel (toSize max_size) s
  match loop.2 with
  | .done available s =>
      (loop.1 ++ [.minus available used], some ⟨(available + 2 ^ 64 - used) % 2 ^ 64, s⟩)
  | _ => (loop.1, none)

/-- The loop of `write`. -/
def makeRoom (need : ℕ) : ℕ → ℕ → σ → List PolicyEvent × Room σ
  | 0, _, _ => ([], .hangs)
  | fuel + 1, available, s =>
      if need ≤ available then ([], .done available s)
      else match B.removeOldest s with
        | none => ([], .thrown available s)
        | some (false, _, s) => ([.removed false], .full available s)
        | some (true, freed, s) =>
            let rest := makeRoom need fuel ((available + freed) % 2 ^ 64) s
            (.removed true :: .plus available freed :: rest.1, rest.2)

/-- The record goes to the backend, and the bytes it reports come off the budget. -/
def writeToBackend (available : ℕ) (request : LogRequest) (s : σ) :
    List PolicyEvent × Outcome × Retention σ :=
  let r := B.write s request
  match r.1 with
  | .ret written =>
      if 0 < written then
        ([.wrote, .minus available written.toNat], .ret written,
          ⟨(available + 2 ^ 64 - written.toNat) % 2 ^ 64, r.2⟩)
      else ([.wrote], .ret written, ⟨available, r.2⟩)
  | outcome => ([], outcome, ⟨available, r.2⟩)

/-- The statements of `write` after its loop. -/
def afterLoop (st : Retention σ) (request : LogRequest) :
    Room σ → List PolicyEvent × Outcome × Retention σ
  | .done available s => writeToBackend B available request s
  | .full available s => ([], .ret 0, ⟨available, s⟩)
  | .thrown available s => ([], .thrown, ⟨available, s⟩)
  | .hangs => ([], .hangs, st)

/-- `write`, for at most `fuel` rounds of its loop. -/
def write (fuel : ℕ) (st : Retention σ) (request : LogRequest) :
    List PolicyEvent × Outcome × Retention σ :=
  let loop := makeRoom B (maxRecordSize request.data.length) fuel st.available_bytes_ st.backend_
  let after := afterLoop B st request loop.2
  (loop.1 ++ after.1, after.2)

lemma write_snd (fuel : ℕ) (st : Retention σ) (request : LogRequest) :
    (write B fuel st request).2 = (afterLoop B st request (makeRoom B
      (maxRecordSize request.data.length) fuel st.available_bytes_ st.backend_).2).2 := rfl

/-- Calls of `write` that return, each with what it did and its value. -/
def run (fuel : ℕ) (st : Retention σ) :
    List LogRequest → Option (List (List PolicyEvent × ℤ) × Retention σ)
  | [] => some ([], st)
  | request :: requests =>
      let r := write B fuel st request
      match r.2.1 with
      | .ret value =>
          (run fuel r.2.2 requests).map fun rest => ((r.1, value) :: rest.1, rest.2)
      | _ => none

/-! ## What the loops keep -/

variable {B}

/-- A round of a loop whose addition stays inside `size_t`. -/
lemma noWrap_round {result : Bool} {available freed : ℕ} {events : List PolicyEvent}
    (hlt : available + freed < 2 ^ 64) (hevents : ∀ e ∈ events, e.NoWrap) :
    ∀ e ∈ .removed result :: .plus available freed :: events, e.NoWrap := by
  intro e he
  rcases List.mem_cons.mp he with rfl | he
  · trivial
  · rcases List.mem_cons.mp he with rfl | he
    · exact hlt
    · exact hevents e he

/-- **The loop of the constructor** keeps the sum of the counter and the footprint, which is the
budget and the footprint it started with. -/
lemma startLoop_balanced (hB : B.Removes) (used : ℕ) {total : ℕ} (htotal : total < 2 ^ 64)
    (fuel : ℕ) :
    ∀ {available : ℕ} {s : σ}, available + B.usedBytes s = total →
      (∀ e ∈ (startLoop B used fuel available s).1, e.NoWrap) ∧
      ∀ {available' s'}, (startLoop B used fuel available s).2 = .done available' s' →
        used ≤ available' ∧ available' + B.usedBytes s' = total := by
  induction fuel with
  | zero => intro available s _; simp [startLoop]
  | succ fuel ih =>
      intro available s hsum
      rw [startLoop]
      by_cases hused : used ≤ available
      · rw [if_pos hused]
        refine ⟨by simp, fun h => ?_⟩
        cases h
        exact ⟨hused, hsum⟩
      · rw [if_neg hused]
        cases hrem : B.removeOldest s with
        | none => exact ⟨by simp, fun h => by cases h⟩
        | some r =>
            obtain ⟨result, freed, s₁⟩ := r
            have hfreed : B.usedBytes s = B.usedBytes s₁ + freed := by
              cases result with
              | true => exact hB.removed hrem
              | false =>
                  obtain ⟨hsame, h0⟩ := hB.nothing hrem
                  omega
            have hlt : available + freed < 2 ^ 64 := by omega
            have hnext : (available + freed) % 2 ^ 64 + B.usedBytes s₁ = total := by
              rw [Nat.mod_eq_of_lt hlt]
              omega
            obtain ⟨hwrap, hdone⟩ := ih hnext
            exact ⟨noWrap_round hlt hwrap, hdone⟩

/-- **The loop of `write`** keeps the sum of the counter and the footprint. -/
lemma makeRoom_balanced (hB : B.Removes) (need : ℕ) {total : ℕ} (htotal : total < 2 ^ 64)
    (fuel : ℕ) :
    ∀ {available : ℕ} {s : σ}, available + B.usedBytes s = total →
      (∀ e ∈ (makeRoom B need fuel available s).1, e.NoWrap) ∧
      (∀ {available' s'}, (makeRoom B need fuel available s).2 = .done available' s' →
        need ≤ available' ∧ available' + B.usedBytes s' = total) ∧
      ∀ {available' s'}, (makeRoom B need fuel available s).2 = .full available' s' →
        .removed false ∈ (makeRoom B need fuel available s).1 ∧
          available' + B.usedBytes s' = total := by
  induction fuel with
  | zero => intro available s _; simp [makeRoom]
  | succ fuel ih =>
      intro available s hsum
      rw [makeRoom]
      by_cases hneed : need ≤ available
      · rw [if_pos hneed]
        refine ⟨by simp, fun h => ?_, fun h => by cases h⟩
        cases h
        exact ⟨hneed, hsum⟩
      · rw [if_neg hneed]
        cases hrem : B.removeOldest s with
        | none => exact ⟨by simp, fun h => (by cases h), fun h => (by cases h)⟩
        | some r =>
            obtain ⟨result, freed, s₁⟩ := r
            cases result with
            | false =>
                obtain ⟨hsame, -⟩ := hB.nothing hrem
                refine ⟨by simp [PolicyEvent.NoWrap], fun h => (by cases h), fun h => ?_⟩
                cases h
                exact ⟨by simp, by omega⟩
            | true =>
                have hfreed := hB.removed hrem
                have hlt : available + freed < 2 ^ 64 := by omega
                have hnext : (available + freed) % 2 ^ 64 + B.usedBytes s₁ = total := by
                  rw [Nat.mod_eq_of_lt hlt]
                  omega
                obtain ⟨hwrap, hdone, hfull⟩ := ih hnext
                refine ⟨noWrap_round hlt hwrap, hdone, fun h => ?_⟩
                obtain ⟨hmem, hsum'⟩ := hfull h
                exact ⟨List.mem_cons_of_mem _ (List.mem_cons_of_mem _ hmem), hsum'⟩

/-! ## What the operations keep -/

/-- The counter and the footprint add up to the budget. -/
def Balanced (B : StorageBackend σ) (max_size : ℕ) (st : Retention σ) : Prop :=
  st.available_bytes_ + B.usedBytes st.backend_ = max_size

/-- A subtraction from the counter that does not wrap. -/
lemma counter_sub {a b : ℕ} (hle : b ≤ a) (hlt : a < 2 ^ 64) :
    (a + 2 ^ 64 - b) % 2 ^ 64 = a - b := by
  omega

/-- **The constructor.**  There is no wrap-around as long as budget and content together fit the
counter; a budget that covers the content is not touched by the loop. -/
lemma make_balanced (hB : B.Removes) {fuel : ℕ} {max_size : ℤ} {s : σ}
    {events : List PolicyEvent} {st : Retention σ}
    (hfit : toSize max_size + B.usedBytes s < 2 ^ 64)
    (h : make B fuel max_size s = (events, some st)) :
    Balanced B (toSize max_size) st ∧ ∀ e ∈ events, e.NoWrap := by
  obtain ⟨hwrap, hdone⟩ := startLoop_balanced hB (B.usedBytes s) hfit fuel rfl
  simp only [make] at h
  split at h
  · rename_i available s' hloop
    obtain ⟨hused, hsum⟩ := hdone hloop
    simp only [Prod.mk.injEq, Option.some.injEq] at h
    obtain ⟨rfl, rfl⟩ := h
    refine ⟨?_, ?_⟩
    · show (available + 2 ^ 64 - B.usedBytes s) % 2 ^ 64 + B.usedBytes s' = toSize max_size
      rw [counter_sub hused (by omega)]
      omega
    · intro e he
      rcases List.mem_append.mp he with he | he
      · exact hwrap e he
      · rw [List.mem_singleton.mp he]
        exact hused
  · simp at h

/-- **The write to the backend.** -/
lemma writeToBackend_balanced (hB : B.Contract) {max_size available : ℕ} {request : LogRequest}
    {s : σ} {events : List PolicyEvent} {value : ℤ} {st : Retention σ}
    (hmax : max_size < 2 ^ 64) (hneed : maxRecordSize request.data.length ≤ available)
    (hsum : available + B.usedBytes s = max_size)
    (h : writeToBackend B available request s = (events, .ret value, st)) :
    Balanced B max_size st ∧ (∀ e ∈ events, e.NoWrap) ∧ .wrote ∈ events := by
  obtain ⟨⟨outcome, s'⟩, hr⟩ : ∃ r, r = B.write s request := ⟨_, rfl⟩
  simp only [writeToBackend, ← hr] at h
  cases outcome with
  | ret written =>
      simp only at h
      split_ifs at h with hpos
      · simp only [Prod.mk.injEq] at h
        obtain ⟨rfl, -, rfl⟩ := h
        obtain ⟨hgrow, hle⟩ := hB.wrote hr.symm hpos
        have hsub : written.toNat ≤ available := le_trans hle hneed
        refine ⟨?_, ?_, by simp⟩
        · show (available + 2 ^ 64 - written.toNat) % 2 ^ 64 + B.usedBytes s' = max_size
          rw [counter_sub hsub (by omega), hgrow]
          omega
        · simpa [PolicyEvent.NoWrap] using hsub
      · simp only [Prod.mk.injEq] at h
        obtain ⟨rfl, -, rfl⟩ := h
        have hsame := hB.refused hr.symm (not_lt.mp hpos)
        exact ⟨by rw [Balanced, hsame, hsum], by simp [PolicyEvent.NoWrap], by simp⟩
  | thrown => simp at h
  | hangs => simp at h

/-- **A write that returns.**  It leaves budget and footprint in balance, and when it returns `0`
without a call of the backend's `write`, there was nothing left to remove. -/
lemma write_balanced (hB : B.Contract) {max_size fuel : ℕ} {st st' : Retention σ}
    {request : LogRequest} {events : List PolicyEvent} {value : ℤ} (hmax : max_size < 2 ^ 64)
    (hst : Balanced B max_size st) (h : write B fuel st request = (events, .ret value, st')) :
    Balanced B max_size st' ∧ (∀ e ∈ events, e.NoWrap) ∧
      (.wrote ∉ events → value = 0 ∧ .removed false ∈ events) := by
  obtain ⟨hwrap, hdone, hfull⟩ := makeRoom_balanced hB.toRemoves
    (maxRecordSize request.data.length) hmax fuel hst
  obtain ⟨⟨loop, room⟩, hloop⟩ : ∃ r, r =
    makeRoom B (maxRecordSize request.data.length) fuel
    st.available_bytes_ st.backend_ := ⟨_, rfl⟩
  rw [write, ← hloop] at h
  rw [← hloop] at hwrap hdone hfull
  cases room with
  | done available s =>
      obtain ⟨hneed, hsum⟩ := hdone rfl
      simp only [afterLoop] at h
      obtain ⟨⟨later, outcome, st₁⟩, hlater⟩ : ∃ r, r =
        writeToBackend B available request s :=
        ⟨_, rfl⟩
      rw [← hlater] at h
      simp only [Prod.mk.injEq] at h
      obtain ⟨rfl, rfl, rfl⟩ := h
      obtain ⟨hbal, hwrap', hwrote⟩ := writeToBackend_balanced hB hmax hneed hsum hlater.symm
      refine ⟨hbal, ?_, fun hno => absurd (List.mem_append_right _ hwrote) hno⟩
      intro e he
      rcases List.mem_append.mp he with he | he
      · exact hwrap e he
      · exact hwrap' e he
  | full available s =>
      obtain ⟨hmem, hsum⟩ := hfull rfl
      simp only [afterLoop, Prod.mk.injEq, Outcome.ret.injEq, List.append_nil] at h
      obtain ⟨rfl, rfl, rfl⟩ := h
      exact ⟨hsum, hwrap, fun _ => ⟨rfl, hmem⟩⟩
  | thrown available s => simp [afterLoop] at h
  | hangs => simp [afterLoop] at h

/-- **A run of writes that return.** -/
lemma run_balanced (hB : B.Contract) {max_size fuel : ℕ} (hmax : max_size < 2 ^ 64)
    {requests : List LogRequest} :
    ∀ {st st' : Retention σ} {calls : List (List PolicyEvent × ℤ)},
      Balanced B max_size st → run B fuel st requests = some (calls, st') →
      Balanced B max_size st' ∧ ∀ call ∈ calls, (∀ e ∈ call.1, e.NoWrap) ∧
        (.wrote ∉ call.1 → call.2 = 0 ∧ .removed false ∈ call.1) := by
  induction requests with
  | nil =>
      intro st st' calls hst h
      cases h
      exact ⟨hst, by simp⟩
  | cons request requests ih =>
      intro st st' calls hst h
      obtain ⟨⟨events, outcome, st₁⟩, hr⟩ : ∃ r, r = write B fuel st request :=
        ⟨_, rfl⟩
      simp only [run, ← hr] at h
      cases outcome with
      | ret value =>
          obtain ⟨⟨later, st₂⟩, hrest, heq⟩ := Option.map_eq_some_iff.mp h
          simp only [Prod.mk.injEq] at heq
          obtain ⟨rfl, rfl⟩ := heq
          obtain ⟨hbal, hcall⟩ := write_balanced hB hmax hst hr.symm
          obtain ⟨hend, hcalls⟩ := ih hbal hrest
          refine ⟨hend, fun call hmem => ?_⟩
          rcases List.mem_cons.mp hmem with rfl | hmem
          · exact hcall
          · exact hcalls call hmem
      | thrown => simp at h
      | hangs => simp at h

/-- **The counter and the footprint add up to the budget**, for every backend that keeps its
contract, after the constructor and after every write that follows it.  No addition or subtraction
wraps around, and a write returns without a call of the backend's `write` only with `0` and after
`removeOldest` reported that nothing is left to remove. -/
theorem policy_balanced (hB : B.Contract) {max_size : ℤ} (hmin : 0 ≤ max_size)
    (hmax : max_size < 2 ^ 31) {s : σ} (hs : B.usedBytes s < 2 ^ 63) {fuel : ℕ}
    {started : List PolicyEvent} {st : Retention σ}
    (hmake : make B fuel max_size s = (started, some st)) :
    (st.available_bytes_ + B.usedBytes st.backend_ = max_size ∧ ∀ e ∈ started, e.NoWrap) ∧
      ∀ {fuel requests calls st'}, run B fuel st requests = some (calls, st') →
        st'.available_bytes_ + B.usedBytes st'.backend_ = max_size ∧
          ∀ call ∈ calls, (∀ e ∈ call.1, e.NoWrap) ∧
            (.wrote ∉ call.1 → call.2 = 0 ∧ .removed false ∈ call.1) := by
  obtain ⟨n, rfl⟩ := Int.eq_ofNat_of_zero_le hmin
  have hsize : toSize n = n := toSize_natCast (by omega)
  have hfit : toSize (n : ℤ) + B.usedBytes s < 2 ^ 64 := by
    rw [hsize]
    omega
  obtain ⟨hbal, hstarted⟩ := make_balanced hB.toRemoves hfit hmake
  rw [hsize] at hbal
  refine ⟨⟨by exact_mod_cast hbal, hstarted⟩, fun hrun => ?_⟩
  obtain ⟨hend, hcalls⟩ := run_balanced hB (by omega) hbal hrun
  exact ⟨by exact_mod_cast hend, hcalls⟩

/-- A backend that keeps one number per day and writes one byte per record. -/
def dayList : StorageBackend (List ℕ) where
  usedBytes := List.sum
  removeOldest
    | [] => some (false, 0, [])
    | day :: days => some (true, day, days)
  write days request :=
    if maxRecordSize request.data.length = 0 then (.ret 0, days) else (.ret 1, days ++ [1])

lemma contract_dayList : dayList.Contract where
  removed {s s' freed} h := by
    cases s with
    | nil => simp [dayList] at h
    | cons day days =>
        simp only [dayList, Option.some.injEq, Prod.mk.injEq, true_and] at h
        obtain ⟨rfl, rfl⟩ := h
        simp [dayList, Nat.add_comm]
  nothing {s s' freed} h := by
    cases s with
    | nil =>
        simp only [dayList, Option.some.injEq, Prod.mk.injEq, true_and] at h
        obtain ⟨rfl, rfl⟩ := h
        exact ⟨rfl, rfl⟩
    | cons day days => simp [dayList] at h
  wrote {s s' request written} h hpos := by
    simp only [dayList] at h ⊢
    split_ifs at h with hzero
    · simp only [Prod.mk.injEq, Outcome.ret.injEq] at h
      omega
    · simp only [Prod.mk.injEq, Outcome.ret.injEq] at h
      obtain ⟨rfl, rfl⟩ := h
      exact ⟨by simp, Nat.one_le_iff_ne_zero.mpr hzero⟩
  refused {s s' request written} h hle := by
    simp only [dayList] at h ⊢
    split_ifs at h with hzero
    · simp only [Prod.mk.injEq, Outcome.ret.injEq] at h
      rw [h.2]
    · simp only [Prod.mk.injEq, Outcome.ret.injEq] at h
      omega

/-- Two days of eighty and seventy bytes under a budget of a hundred and thirty: the first goes at
the start, the second when a record comes. -/
theorem policy_balanced_dayList :
    let request : LogRequest := ⟨[], 0, [], 0⟩
    ∃ started st calls st', make dayList 5 130 [80, 70] = (started, some st) ∧
      run dayList 5 st [request] = some (calls, st') ∧
      st.available_bytes_ + dayList.usedBytes st.backend_ = (130 : ℤ) ∧
      st'.available_bytes_ + dayList.usedBytes st'.backend_ = (130 : ℤ) ∧
        st'.backend_ = [1] := by
  intro request
  have hall : (make dayList 5 130 [80, 70]).2.bind (fun st =>
      (run dayList 5 st [request]).map fun r => r.2.backend_) = some [1] := by decide +kernel
  obtain ⟨⟨started, made⟩, hmake⟩ : ∃ r, r = make dayList 5 130 [80, 70] := ⟨_, rfl⟩
  rw [← hmake] at hall
  obtain ⟨st, rfl, hrun⟩ := Option.bind_eq_some_iff.mp hall
  obtain ⟨⟨calls, st'⟩, hrun, hdays⟩ := Option.map_eq_some_iff.mp hrun
  obtain ⟨⟨hbal, -⟩, hlater⟩ := policy_balanced contract_dayList (by norm_num) (by norm_num)
    (by decide +kernel) hmake.symm
  exact ⟨started, st, calls, st', hmake.symm, hrun, hbal, (hlater hrun).1, hdays⟩

end Retention

/-! ## The storage of this program -/

/-- `FilesystemStorageBackend` as a backend. -/
def filesystem (host : Host) : StorageBackend (FilesystemStorageBackend × World) where
  usedBytes s := s.1.usedBytes s.2
  removeOldest s := (s.1.removeOldest s.2).map fun r => (r.1, r.2.1, (s.1, r.2.2))
  write s request := s.1.write host request s.2

namespace Storage

/-- How a loop ended, with the backend it was run for. -/
def Room.over (b : FilesystemStorageBackend) :
    Room → Retention.Room (FilesystemStorageBackend × World)
  | .done available w => .done available (b, w)
  | .full available w => .full available (b, w)
  | .thrown available w => .thrown available (b, w)
  | .hangs => .hangs

/-- A storage and its world, as the policy sees them. -/
def retention (st : Storage) (w : World) : Retention (FilesystemStorageBackend × World) :=
  ⟨st.available_bytes_, (st.backend_, w)⟩

/-- What a call comes to, as the policy sees it. -/
def seen : Outcome × Storage × World → Outcome × Retention (FilesystemStorageBackend × World)
  | (outcome, st, w) => (outcome, st.retention w)

variable (host : Host)

lemma removeOldest_filesystem (b : FilesystemStorageBackend) (w : World) :
    (filesystem host).removeOldest (b, w) =
      (b.removeOldest w).map fun r => (r.1, r.2.1, (b, r.2.2)) := rfl

lemma makeRoom_eq (b : FilesystemStorageBackend) (need fuel : ℕ) :
    ∀ (available : ℕ) (w : World),
    (Retention.makeRoom (filesystem host) need fuel available (b, w)).2 =
      (makeRoom b need fuel available w).over b := by
  induction fuel with
  | zero => exact fun _ _ => rfl
  | succ fuel ih =>
      intro available w
      rw [Retention.makeRoom, makeRoom]
      by_cases hneed : need ≤ available
      · rw [if_pos hneed, if_pos hneed]
        rfl
      · rw [if_neg hneed, if_neg hneed]
        rw [removeOldest_filesystem]
        cases hrem : b.removeOldest w with
        | none => rfl
        | some r =>
            obtain ⟨result, freed, w₁⟩ := r
            cases result with
            | false => rfl
            | true => exact ih ((available + freed) % 2 ^ 64) w₁

lemma afterLoop_eq (st : Storage) (request : LogRequest) (w : World) (room : Room) :
    seen (st.afterLoop host request w room) =
      (Retention.afterLoop (filesystem host) (st.retention w) request
        (room.over st.backend_)).2 := by
  cases room with
  | done available w₁ =>
      simp only [afterLoop, Room.over, Retention.afterLoop, writeToBackend,
        Retention.writeToBackend, filesystem]
      generalize st.backend_.write host request w₁ = r
      obtain ⟨outcome, b, w₂⟩ := r
      cases outcome with
      | ret written =>
          by_cases hpos : 0 < written
          · simp only [hpos, if_true]
            rfl
          · simp only [hpos, if_false]
            rfl
      | thrown => rfl
      | hangs => rfl
  | full available w₁ => rfl
  | thrown available w₁ => rfl
  | hangs => rfl

/-- **`Storage::write` is the policy's write** over the filesystem backend. -/
theorem storage_write_eq (st : Storage) (request : LogRequest) (w : World) :
    seen (st.write host request w) =
      (Retention.write (filesystem host) (w.tree.entries.length + 1) (st.retention w)
        request).2 := by
  have hroom := makeRoom_eq host st.backend_ (maxRecordSize request.data.length)
    (w.tree.entries.length + 1) st.available_bytes_ w
  rw [Retention.write_snd, Storage.write, afterLoop_eq, ← hroom, retention]

end Storage

end Tracebox
