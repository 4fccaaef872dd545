import MountpointS3.Foundations.Atomic
import MountpointS3.Foundations.Run

/-!
# The memory limiter

`mem_limiter.rs`: the counter of the memory reserved by the prefetchers and the incremental
uploaders, shared by all of them. `try_reserve` reserves only what fits under the limit together
with the pool's buffers for other requests and a fixed reservation for metadata. It is a
compare-and-swap loop, so that two calls that both find room cannot together overshoot the
limit. `reserve` reserves whatever the limit, `release` gives memory back, and `available_mem`
says what is left.

A run interleaves the steps of any number of `try_reserve` calls with `reserve` and `release`
calls, each of these one atomic `fetch_add` or `fetch_sub`. The steps of a `try_reserve` call are
its first load, each check against the limit, with the pool's reserved bytes as it reads them
then, and each compare-and-swap, which may fail spuriously. A ledger beside the counter sums
what the calls granted, forced and released.

* `tryReserveUpdate_eq_some`: a check passes only for a sum that did not saturate and fits;
* `try_reserve_alone_agrees_with_available_mem`: a call that runs alone reserves exactly when its
  size is at most `available_mem`;
* `Balanced`, `Balanced.step`, `Balanced.run`: the invariant of every run;
* `memory_limiter_balances`: in every run where no `reserve` overflows the counter and no
  `release` takes more than it holds, the counter is what the ledger says, and what `try_reserve`
  granted, net of releases, stays within the limit less the metadata reservation.
-/

namespace MountpointS3.Memory

open Foundations

/-- `MemoryLimiter`, by the fields its reservations read. The pool's reserved bytes for other
requests are read from the pool at each check, and come with the event that checks. -/
structure MemoryLimiter where
  memLimit : UInt64
  additionalMemReserved : UInt64
  deriving DecidableEq

namespace MemoryLimiter

/-- `MemoryLimiter::new`: an eighth of the limit, and at least 128 MiB, is set aside for
metadata. -/
def new (memLimit : UInt64) : MemoryLimiter :=
  let minReserved : UInt64 := 128 * 1024 * 1024
  ⟨memLimit, max (memLimit / 8) minReserved⟩

variable (self : MemoryLimiter)

/-- One iteration of the loop of `try_reserve(size)`, from the value `memReserved` it holds and
the pool's reserved bytes `poolMemReserved`: the value to commit, or `none` where it returns
false. -/
def tryReserveUpdate (size poolMemReserved memReserved : UInt64) : Option UInt64 :=
  let newMemReserved := U64.saturatingAdd memReserved size
  let newTotalMemUsage :=
    U64.saturatingAdd (U64.saturatingAdd newMemReserved poolMemReserved) self.additionalMemReserved
  if newTotalMemUsage > self.memLimit then none else some newMemReserved

/-- `available_mem`, from the counter's value and the pool's reserved bytes. -/
def availableMem (memReserved poolMemReserved : UInt64) : UInt64 :=
  U64.saturatingSub (U64.saturatingSub (U64.saturatingSub self.memLimit memReserved) poolMemReserved)
    self.additionalMemReserved

/-- A commit of `new` for `current` by a call of `try_reserve(size)`: the exact sum, within the
limit less the metadata reservation. -/
def Fits (size current new : UInt64) : Prop :=
  new.toNat = current.toNat + size.toNat ∧
    new.toNat + self.additionalMemReserved.toNat ≤ self.memLimit.toNat

end MemoryLimiter

/-- A call of a run: a step of the `i`-th call of `try_reserve`, or a `reserve` or a
`release`. -/
inductive LimiterEvent
  /-- The `i`-th call of `try_reserve(size)` starts and loads the counter. -/
  | tryReserve (i : ℕ) (size : UInt64)
  /-- It checks the limit, reading the pool's reserved bytes. -/
  | check (i : ℕ) (poolMemReserved : UInt64)
  /-- It compares and swaps, failing anyway when `spurious`. -/
  | compareExchange (i : ℕ) (spurious : Bool)
  | reserve (size : UInt64)
  | release (size : UInt64)

/-- What the calls of a run have done so far: the sizes the committed `try_reserve` calls
granted, those `reserve` forced, and those `release` gave back. -/
structure Ledger where
  granted : ℕ
  forced : ℕ
  released : ℕ

/-- The counter, each `try_reserve` call with its size, and the ledger. -/
structure LimiterRun where
  memReserved : UInt64
  calls : ℕ → UInt64 × CasLoop UInt64
  ledger : Ledger

namespace LimiterRun

/-- Nothing reserved, no call made. -/
def init : LimiterRun := ⟨0, fun _ => (0, .idle), ⟨0, 0, 0⟩⟩

/-- One step of a run. A call of `try_reserve` starts only on a thread that is not in one. -/
def step (self : MemoryLimiter) (r : LimiterRun) : LimiterEvent → LimiterRun
  | .tryReserve i size =>
    if (r.calls i).2.running then r
    else { r with calls := Function.update r.calls i (size, .holding r.memReserved) }
  | .check i poolMemReserved =>
    let size := (r.calls i).1
    let t := (r.calls i).2
    { r with
      calls := Function.update r.calls i
        (size, t.compute (self.tryReserveUpdate size poolMemReserved)) }
  | .compareExchange i spurious =>
    let size := (r.calls i).1
    let t := (r.calls i).2
    { memReserved := (t.exchange r.memReserved spurious).1
      calls := Function.update r.calls i (size, (t.exchange r.memReserved spurious).2)
      ledger := if t.commits r.memReserved spurious
        then { r.ledger with granted := r.ledger.granted + size.toNat } else r.ledger }
  | .reserve size =>
    { r with
      memReserved := r.memReserved + size
      ledger := { r.ledger with forced := r.ledger.forced + size.toNat } }
  | .release size =>
    { r with
      memReserved := r.memReserved - size
      ledger := { r.ledger with released := r.ledger.released + size.toNat } }

/-- The callers' side of the protocol: a `reserve` does not overflow the counter, and a `release`
gives back no more than it holds. -/
def NoWrap (r : LimiterRun) : LimiterEvent → Prop
  | .reserve size => r.memReserved.toNat + size.toNat < UInt64.size
  | .release size => size.toNat ≤ r.memReserved.toNat
  | _ => True

instance (r : LimiterRun) : DecidablePred r.NoWrap := fun e =>
  match e with
  | .reserve size => inferInstanceAs (Decidable (r.memReserved.toNat + size.toNat < UInt64.size))
  | .release size => inferInstanceAs (Decidable (size.toNat ≤ r.memReserved.toNat))
  | .tryReserve .. => isTrue trivial
  | .check .. => isTrue trivial
  | .compareExchange .. => isTrue trivial

end LimiterRun

/-- The invariant of a run: the counter is what the ledger says; what `try_reserve` granted, net
of releases, is within the limit less the metadata reservation; and each pending commit fits. -/
structure Balanced (limiter : MemoryLimiter) (r : LimiterRun) : Prop where
  counter : r.memReserved.toNat + r.ledger.released = r.ledger.granted + r.ledger.forced
  granted_le :
    r.ledger.granted ≤ limiter.memLimit.toNat - limiter.additionalMemReserved.toNat + r.ledger.released
  commits : ∀ i, (r.calls i).2.Commits (limiter.Fits (r.calls i).1)

namespace MemoryLimiter

variable {self : MemoryLimiter}

/-- A check, in naturals: it passes exactly when the sum fits with the pool's bytes read. -/
theorem tryReserveUpdate_eq (hlimit : self.memLimit.toNat < UInt64.size - 1)
    (size poolMemReserved memReserved : UInt64) :
    self.tryReserveUpdate size poolMemReserved memReserved =
      if memReserved.toNat + size.toNat + poolMemReserved.toNat + self.additionalMemReserved.toNat ≤
          self.memLimit.toNat
      then some (U64.saturatingAdd memReserved size) else none := by
  have hover : U64.saturatingAdd (U64.saturatingAdd (U64.saturatingAdd memReserved size)
      poolMemReserved) self.additionalMemReserved > self.memLimit ↔
      ¬memReserved.toNat + size.toNat + poolMemReserved.toNat + self.additionalMemReserved.toNat ≤
        self.memLimit.toNat := by
    rw [gt_iff_lt, UInt64.lt_iff_toNat_lt, not_le]
    simp only [U64.toNat_saturatingAdd]
    omega
  unfold tryReserveUpdate
  dsimp only
  by_cases hfit : memReserved.toNat + size.toNat + poolMemReserved.toNat +
      self.additionalMemReserved.toNat ≤ self.memLimit.toNat
  · rw [if_pos hfit, if_neg (fun h => hover.1 h hfit)]
  · rw [if_neg hfit, if_pos (hover.2 hfit)]

/-- A check passes only for the exact sum, which fits with the pool's bytes read. -/
theorem tryReserveUpdate_eq_some (hlimit : self.memLimit.toNat < UInt64.size - 1)
    {size poolMemReserved memReserved new : UInt64}
    (h : self.tryReserveUpdate size poolMemReserved memReserved = some new) :
    new.toNat = memReserved.toNat + size.toNat ∧
      new.toNat + poolMemReserved.toNat + self.additionalMemReserved.toNat ≤ self.memLimit.toNat := by
  rw [tryReserveUpdate_eq hlimit] at h
  split_ifs at h with hfit
  cases h
  simp only [U64.toNat_saturatingAdd]
  omega

@[simp] theorem toNat_availableMem (memReserved poolMemReserved : UInt64) :
    (self.availableMem memReserved poolMemReserved).toNat =
      self.memLimit.toNat - (memReserved.toNat + poolMemReserved.toNat +
        self.additionalMemReserved.toNat) := by
  simp only [availableMem, U64.toNat_saturatingSub]
  omega

end MemoryLimiter

namespace LimiterRun

/-- A call of `try_reserve(size)` that runs alone, with the pool's reserved bytes `p`, from a
thread not in a call, returns whether `size` is at most `available_mem`, for a size that is not
zero. -/
theorem try_reserve_alone_agrees_with_available_mem (self : MemoryLimiter)
    (hlimit : self.memLimit.toNat < UInt64.size - 1) (r : LimiterRun) (i : ℕ)
    (hidle : (r.calls i).2.running = false) (size p : UInt64) (hsize : 0 < size.toNat) :
    ((run (step self) r [.tryReserve i size, .check i p, .compareExchange i false]).calls i).2 =
      .returned (decide (size.toNat ≤ (self.availableMem r.memReserved p).toNat)) := by
  simp only [run_cons, run_nil, step, hidle, Bool.false_eq_true, if_false, Function.update_self,
    CasLoop.compute, MemoryLimiter.tryReserveUpdate_eq hlimit]
  by_cases hfit : r.memReserved.toNat + size.toNat + p.toNat + self.additionalMemReserved.toNat ≤
      self.memLimit.toNat
  · -- the check passes and the compare-and-swap finds the counter it loaded
    simp only [hfit, if_true, CasLoop.exchange, and_self, CasLoop.returned.injEq,
      MemoryLimiter.toNat_availableMem]
    exact (decide_eq_true (by omega)).symm
  · simp only [hfit, if_false, CasLoop.exchange, CasLoop.returned.injEq, Bool.false_eq,
      decide_eq_false_iff_not, MemoryLimiter.toNat_availableMem]
    omega

theorem try_reserve_alone_agrees_with_available_mem_from_init :
    (1000 : UInt64).toNat < UInt64.size - 1 ∧ (init.calls 0).2.running = false ∧ 0 < (600 : UInt64).toNat ∧
    ((run (step ⟨1000, 100⟩) init [.tryReserve 0 600, .check 0 0, .compareExchange 0 false]).calls 0).2 =
      .returned (decide ((600 : UInt64).toNat ≤
        ((⟨1000, 100⟩ : MemoryLimiter).availableMem init.memReserved 0).toNat)) :=
  ⟨by decide, rfl, by decide,
    try_reserve_alone_agrees_with_available_mem ⟨1000, 100⟩ (by decide) init 0 rfl 600 0 (by decide)⟩

end LimiterRun

/-! ## The invariant -/

namespace Balanced

variable {self : MemoryLimiter} {r : LimiterRun}

theorem init : Balanced self LimiterRun.init where
  counter := rfl
  granted_le := Nat.zero_le _
  commits _ := trivial

/-- The pending commits of the other calls are those they had. -/
theorem commits_update (hr : Balanced self r) (i : ℕ) {size : UInt64} {t : CasLoop UInt64}
    (ht : t.Commits (self.Fits size)) :
    ∀ j, ((Function.update r.calls i (size, t)) j).2.Commits (self.Fits (Function.update r.calls i (size, t) j).1) := by
  intro j
  by_cases hj : j = i
  · subst hj
    rw [Function.update_self]
    exact ht
  · rw [Function.update_of_ne hj]
    exact hr.commits j

theorem step_tryReserve (hr : Balanced self r) (i : ℕ) (size : UInt64) :
    Balanced self (r.step self (.tryReserve i size)) := by
  simp only [LimiterRun.step]
  split
  · exact hr
  · exact { hr with commits := hr.commits_update i trivial }

theorem step_check (hlimit : self.memLimit.toNat < UInt64.size - 1) (hr : Balanced self r) (i : ℕ)
    (poolMemReserved : UInt64) : Balanced self (r.step self (.check i poolMemReserved)) := by
  refine { hr with commits := hr.commits_update i (CasLoop.commits_compute (fun current new h => ?_) (hr.commits i)) }
  obtain ⟨hnew, hfits⟩ := MemoryLimiter.tryReserveUpdate_eq_some hlimit h
  exact ⟨hnew, by omega⟩

/-- A compare-and-swap keeps the counter and the ledger in step: a commit adds the call's size to
both, and fits. -/
theorem step_compareExchange (hr : Balanced self r) (i : ℕ) (spurious : Bool) :
    Balanced self (r.step self (.compareExchange i spurious)) := by
  have hcommits := hr.commits_update i (CasLoop.commits_exchange r.memReserved spurious (hr.commits i))
  cases hc : (r.calls i).2.commits r.memReserved spurious with
  | false =>
    refine ⟨?_, ?_, hcommits⟩
    · simp only [LimiterRun.step, hc, Bool.false_eq_true, if_false,
        CasLoop.exchange_fst_of_not_commits hc]
      exact hr.counter
    · simp only [LimiterRun.step, hc, Bool.false_eq_true, if_false]
      exact hr.granted_le
  | true =>
    obtain ⟨new, ht, hexchange⟩ := CasLoop.exchange_committed hc
    have hfits : self.Fits (r.calls i).1 r.memReserved new := by
      have := hr.commits i
      rw [ht] at this
      exact this
    obtain ⟨hnew, hle⟩ := hfits
    have hcounter := hr.counter
    have hgranted := hr.granted_le
    refine ⟨?_, ?_, hcommits⟩
    · simp only [LimiterRun.step, hc, if_true, hexchange]
      omega
    · simp only [LimiterRun.step, hc, if_true]
      omega

theorem step_reserve (hr : Balanced self r) (size : UInt64)
    (hok : r.memReserved.toNat + size.toNat < UInt64.size) :
    Balanced self (r.step self (.reserve size)) where
  counter := by
    have := hr.counter
    simp only [LimiterRun.step, UInt64.toNat_add, Nat.mod_eq_of_lt hok]
    omega
  granted_le := hr.granted_le
  commits := hr.commits

theorem step_release (hr : Balanced self r) (size : UInt64) (hok : size.toNat ≤ r.memReserved.toNat) :
    Balanced self (r.step self (.release size)) where
  counter := by
    have := hr.counter
    simp only [LimiterRun.step, UInt64.toNat_sub_of_le _ _ (UInt64.le_iff_toNat_le.2 hok)]
    omega
  granted_le := by
    have := hr.granted_le
    simp only [LimiterRun.step]
    omega
  commits := hr.commits

theorem step (hlimit : self.memLimit.toNat < UInt64.size - 1) (hr : Balanced self r) (e : LimiterEvent)
    (hok : r.NoWrap e) : Balanced self (r.step self e) := by
  cases e with
  | tryReserve i size => exact hr.step_tryReserve i size
  | check i poolMemReserved => exact hr.step_check hlimit i poolMemReserved
  | compareExchange i spurious => exact hr.step_compareExchange i spurious
  | reserve size => exact hr.step_reserve size hok
  | release size => exact hr.step_release size hok

theorem run (hlimit : self.memLimit.toNat < UInt64.size - 1) (hr : Balanced self r)
    (events : List LimiterEvent) (hok : Allowed (LimiterRun.step self) LimiterRun.NoWrap r events) :
    Balanced self (Foundations.run (LimiterRun.step self) r events) :=
  run_invariant_of_allowed (P := Balanced self) (fun _ e h hok => h.step hlimit e hok) events hr hok

end Balanced

/-- **No reservation is lost, and `try_reserve` never overshoots.** In every run of a limiter whose
limit is below `u64::MAX`, interleaving any number of `try_reserve` calls (their loads, their
checks with whatever the pool's reserved bytes read, their compare-and-swaps, failing spuriously
or not) with `reserve` and `release` calls, none of which overflows the counter or takes more
than it holds: the counter is the sum of what `try_reserve` granted and `reserve` forced, less
what was released; and what `try_reserve` granted, less what was released, is at most the limit
less the metadata reservation. -/
theorem memory_limiter_balances (self : MemoryLimiter) (hlimit : self.memLimit.toNat < UInt64.size - 1)
    (events : List LimiterEvent)
    (hevents : Allowed (LimiterRun.step self) LimiterRun.NoWrap LimiterRun.init events) :
    (run (LimiterRun.step self) LimiterRun.init events).memReserved.toNat +
        (run (LimiterRun.step self) LimiterRun.init events).ledger.released =
      (run (LimiterRun.step self) LimiterRun.init events).ledger.granted +
        (run (LimiterRun.step self) LimiterRun.init events).ledger.forced ∧
    (run (LimiterRun.step self) LimiterRun.init events).ledger.granted ≤
      self.memLimit.toNat - self.additionalMemReserved.toNat +
        (run (LimiterRun.step self) LimiterRun.init events).ledger.released := by
  have h := Balanced.init.run hlimit events hevents
  exact ⟨h.counter, h.granted_le⟩

theorem memory_limiter_balances_racing_calls :
    (1000 : UInt64).toNat < UInt64.size - 1 ∧
    Allowed (LimiterRun.step ⟨1000, 100⟩) LimiterRun.NoWrap LimiterRun.init
      [.tryReserve 0 600, .tryReserve 1 600, .check 0 0, .check 1 0, .compareExchange 0 false,
        .compareExchange 1 false, .check 1 0, .reserve 50, .release 50] ∧
    (run (LimiterRun.step ⟨1000, 100⟩) LimiterRun.init
        [.tryReserve 0 600, .tryReserve 1 600, .check 0 0, .check 1 0, .compareExchange 0 false,
          .compareExchange 1 false, .check 1 0, .reserve 50, .release 50]).memReserved.toNat +
        (run (LimiterRun.step ⟨1000, 100⟩) LimiterRun.init
          [.tryReserve 0 600, .tryReserve 1 600, .check 0 0, .check 1 0, .compareExchange 0 false,
            .compareExchange 1 false, .check 1 0, .reserve 50, .release 50]).ledger.released =
      (run (LimiterRun.step ⟨1000, 100⟩) LimiterRun.init
          [.tryReserve 0 600, .tryReserve 1 600, .check 0 0, .check 1 0, .compareExchange 0 false,
            .compareExchange 1 false, .check 1 0, .reserve 50, .release 50]).ledger.granted +
        (run (LimiterRun.step ⟨1000, 100⟩) LimiterRun.init
          [.tryReserve 0 600, .tryReserve 1 600, .check 0 0, .check 1 0, .compareExchange 0 false,
            .compareExchange 1 false, .check 1 0, .reserve 50, .release 50]).ledger.forced ∧
    (run (LimiterRun.step ⟨1000, 100⟩) LimiterRun.init
        [.tryReserve 0 600, .tryReserve 1 600, .check 0 0, .check 1 0, .compareExchange 0 false,
          .compareExchange 1 false, .check 1 0, .reserve 50, .release 50]).ledger.granted ≤
      (1000 : UInt64).toNat - (100 : UInt64).toNat +
        (run (LimiterRun.step ⟨1000, 100⟩) LimiterRun.init
          [.tryReserve 0 600, .tryReserve 1 600, .check 0 0, .check 1 0, .compareExchange 0 false,
            .compareExchange 1 false, .check 1 0, .reserve 50, .release 50]).ledger.released :=
  ⟨by decide, by decide, memory_limiter_balances ⟨1000, 100⟩ (by decide) _ (by decide)⟩

/-- Both calls find room for 600 of the 900 left; the second compare-and-swap finds the counter
moved, and the second check refuses. -/
example :
    ((run (LimiterRun.step ⟨1000, 100⟩) LimiterRun.init
        [.tryReserve 0 600, .tryReserve 1 600, .check 0 0, .check 1 0, .compareExchange 0 false,
          .compareExchange 1 false, .check 1 0]).calls 1).2 = .returned false := by
  decide

end MountpointS3.Memory
