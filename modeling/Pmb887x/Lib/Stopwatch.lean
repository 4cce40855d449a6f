import Pmb887x.Library.BitFields

set_option autoImplicit false

/-! # The stopwatch (`stopwatch.c`)

`stopwatch_get` reads the 56-bit counter of the system timer in two halves. Time is the number of ticks that
the counter would show if it did not wrap. -/

namespace Pmb887x.Lib

open Library

/-! ## The counter -/

/-- The counter after `t` ticks. -/
def stmCounter (t : Nat) : Nat := t % 2 ^ 56

/-- `STM_TIM0`: bits 0..31 of the counter -/
def stmTim0 (t : Nat) : Nat := stmCounter t % 2 ^ 32

/-- `STM_TIM6`: bits 32..55 of the counter -/
def stmTim6 (t : Nat) : Nat := stmCounter t >>> 32

/-- A call of `stopwatch_get`: its start, its two reads and its end. C leaves open which half is read
first. -/
structure GetCall where
  tim6First : Bool
  start : Nat
  first : Nat
  second : Nat
  finish : Nat
  start_le : start ≤ first
  first_le : first ≤ second
  second_le : second ≤ finish

namespace GetCall

variable (call : GetCall)

def tim6Time : Nat := if call.tim6First then call.first else call.second

def tim0Time : Nat := if call.tim6First then call.second else call.first

/-- `stopwatch_get` -/
def stopwatchGet : Nat := stmTim6 call.tim6Time <<< 32 ||| stmTim0 call.tim0Time

/-- The value lies between the counter at the start and at the end of the call. -/
def Between : Prop :=
  stmCounter call.start ≤ call.stopwatchGet ∧ call.stopwatchGet ≤ stmCounter call.finish

/-- How often the low half rolls over between the reads. -/
def rollovers : Nat := call.second / 2 ^ 32 - call.first / 2 ^ 32

/-- The ticks that can hide the rollovers: those up to the second read where `TIM6` is read first, and those
from the first read on where `TIM0` is. -/
def slack : Nat :=
  if call.tim6First then call.second - call.start else call.finish - call.first

/-- The counter does not wrap in the call, and the rollovers between the reads are hidden. -/
structure Whole : Prop where
  noWrap : call.start / 2 ^ 56 = call.finish / 2 ^ 56
  hidden : 2 ^ 32 * call.rollovers ≤ call.slack

end GetCall

variable {call : GetCall}

/-- The two halves, as numbers. -/
theorem stopwatchGet_eq (call : GetCall) :
    call.stopwatchGet = call.tim6Time / 2 ^ 32 % 2 ^ 24 * 2 ^ 32 + call.tim0Time % 2 ^ 32 := by
  have hlow : stmTim0 call.tim0Time < 2 ^ 32 := Nat.mod_lt _ (by decide)
  rw [GetCall.stopwatchGet, Nat.or_comm, or_shiftLeft hlow, stmTim0, stmTim6, stmCounter, stmCounter,
    Nat.shiftRight_eq_div_pow]
  omega

/-- **A whole call returns a value of its time.** -/
theorem GetCall.Whole.between (h : call.Whole) : call.Between := by
  obtain ⟨hwrap, hhidden⟩ := h
  have hstart := call.start_le
  have hfirst := call.first_le
  have hsecond := call.second_le
  rw [Between, stopwatchGet_eq, stmCounter, stmCounter]
  rw [rollovers, slack] at hhidden
  unfold tim6Time tim0Time
  cases horder : call.tim6First with
  | true =>
      rw [horder, if_pos rfl] at hhidden
      rw [if_pos rfl, if_pos rfl]
      omega
  | false =>
      rw [horder, if_neg (by decide)] at hhidden
      rw [if_neg (by decide), if_neg (by decide)]
      omega

/-- A call that is not whole does not, unless it takes the counter a full turn. -/
theorem GetCall.Between.whole (h : call.Between) (hshort : call.finish < call.start + 2 ^ 56) :
    call.Whole := by
  have hstart := call.start_le
  have hfirst := call.first_le
  have hsecond := call.second_le
  rw [Between, stopwatchGet_eq, stmCounter, stmCounter] at h
  unfold tim6Time tim0Time at h
  constructor
  case noWrap => omega
  case hidden =>
    rw [rollovers, slack]
    cases horder : call.tim6First with
    | true =>
        rw [horder, if_pos rfl, if_pos rfl] at h
        rw [if_pos rfl]
        omega
    | false =>
        rw [horder, if_neg (by decide), if_neg (by decide)] at h
        rw [if_neg (by decide)]
        omega

/-! ## Series of calls -/

/-- `stopwatch_get() - start` in `stopwatch_t` -/
def stopwatchElapsed (start : Nat) (call : GetCall) : Nat :=
  (call.stopwatchGet + 2 ^ 64 - start) % 2 ^ 64

/-- `while (stopwatch_get() <= end);`: the call that ends the loop. -/
def sleepLoop (deadline : Nat) : List GetCall → Option GetCall
  | [] => none
  | call :: calls => if call.stopwatchGet ≤ deadline then sleepLoop deadline calls else some call

/-- `stopwatch_usleep`: the call of `stopwatch_get` with which it returns. -/
def stopwatchUsleep (us ticksPerS : UInt32) (first : GetCall) (calls : List GetCall) : Option GetCall :=
  sleepLoop ((first.stopwatchGet + us.toNat * ticksPerS.toNat % 2 ^ 64 / 1000000) % 2 ^ 64) calls

/-- Calls one after the other, before the counter wraps. -/
structure Series (calls : List GetCall) : Prop where
  ordered : calls.Pairwise fun a b => a.finish ≤ b.start
  samePeriod : ∃ period, ∀ call ∈ calls, call.start / 2 ^ 56 = period ∧ call.finish / 2 ^ 56 = period

/-- A value is a number of 56 bits. -/
theorem stopwatchGet_lt (call : GetCall) : call.stopwatchGet < 2 ^ 56 := by
  rw [stopwatchGet_eq]
  omega

/-- Of two whole calls the later one returns no smaller value. -/
theorem stopwatchGet_mono {a b : GetCall} (ha : a.Between) (hb : b.Between) (hle : a.finish ≤ b.start)
    (hperiod : a.finish / 2 ^ 56 = b.start / 2 ^ 56) : a.stopwatchGet ≤ b.stopwatchGet := by
  have hcounter : stmCounter a.finish ≤ stmCounter b.start := by
    rw [stmCounter, stmCounter]
    omega
  exact ha.2.trans (hcounter.trans hb.1)

theorem Series.stopwatchGet_pairwise {calls : List GetCall} (h : Series calls)
    (hwhole : ∀ call ∈ calls, call.Whole) :
    calls.Pairwise fun a b => a.stopwatchGet ≤ b.stopwatchGet := by
  obtain ⟨period, hperiod⟩ := h.samePeriod
  refine h.ordered.imp_of_mem fun ha hb hle => ?_
  refine stopwatchGet_mono (hwhole _ ha).between (hwhole _ hb).between hle ?_
  rw [(hperiod _ ha).2, (hperiod _ hb).1]

/-- A difference of stopwatch values does not wrap if they do not decrease. -/
theorem stopwatchElapsed_eq {start : Nat} (h : start ≤ call.stopwatchGet) :
    stopwatchElapsed start call = call.stopwatchGet - start := by
  have hlt := stopwatchGet_lt call
  rw [stopwatchElapsed]
  omega

/-- The loop ends with a call that is past the deadline. -/
theorem sleepLoop_some {deadline : Nat} {calls : List GetCall} {last : GetCall}
    (h : sleepLoop deadline calls = some last) : last ∈ calls ∧ deadline < last.stopwatchGet := by
  induction calls with
  | nil => cases h
  | cons call calls ih =>
      rw [sleepLoop] at h
      split_ifs at h with hearly
      · exact ⟨List.mem_cons_of_mem _ (ih h).1, (ih h).2⟩
      · obtain rfl := Option.some.inj h
        exact ⟨List.mem_cons_self, Nat.lt_of_not_le hearly⟩

/-- The sleep takes its delay: `us` microseconds of `ticksPerS` ticks in a second. -/
theorem stopwatchUsleep_delay {us ticksPerS : UInt32} {first last : GetCall} {calls : List GetCall}
    (h : Series (first :: calls)) (hwhole : ∀ call ∈ first :: calls, call.Whole)
    (hsleep : stopwatchUsleep us ticksPerS first calls = some last) :
    us.toNat * ticksPerS.toNat ≤ (last.finish - first.start) * 1000000 := by
  obtain ⟨hlast, hdeadline⟩ := sleepLoop_some hsleep
  have hproduct : us.toNat * ticksPerS.toNat < 2 ^ 64 := by
    calc us.toNat * ticksPerS.toNat < 2 ^ 32 * 2 ^ 32 := Nat.mul_lt_mul'' us.toNat_lt ticksPerS.toNat_lt
      _ = 2 ^ 64 := by norm_num
  have hvalue := stopwatchGet_lt first
  rw [Nat.mod_eq_of_lt hproduct, Nat.mod_eq_of_lt (by omega)] at hdeadline
  have hfirst := (hwhole first List.mem_cons_self).between.1
  have hend := (hwhole last (List.mem_cons_of_mem _ hlast)).between.2
  obtain ⟨period, hperiod⟩ := h.samePeriod
  have hstart := (hperiod first List.mem_cons_self).1
  have hfinish := (hperiod last (List.mem_cons_of_mem _ hlast)).2
  -- in one period the counters differ by the time
  rw [stmCounter] at hfirst hend
  omega

/-- **What a torn read breaks, and when it does not.** A whole call returns a value between the counter at
its start and at its end; one that is not whole does not, if it takes less than a turn of the counter. In a
series of whole calls before the counter wraps the values do not decrease, elapsed times do not wrap, and
no sleep returns before its delay. -/
theorem stopwatch_between (call : GetCall) (calls : List GetCall) :
    (call.Whole → call.Between) ∧
    (call.finish < call.start + 2 ^ 56 → call.Between → call.Whole) ∧
    (Series calls → (∀ call ∈ calls, call.Whole) →
      calls.Pairwise (fun a b => a.stopwatchGet ≤ b.stopwatchGet) ∧
      calls.Pairwise (fun a b => stopwatchElapsed a.stopwatchGet b = b.stopwatchGet - a.stopwatchGet) ∧
      ∀ (us ticksPerS : UInt32) (first last : GetCall) (rest : List GetCall), calls = first :: rest →
        stopwatchUsleep us ticksPerS first rest = some last →
        us.toNat * ticksPerS.toNat ≤ (last.finish - first.start) * 1000000) := by
  refine ⟨fun h => h.between, fun hshort h => h.whole hshort, fun h hwhole => ?_⟩
  have hpairwise := h.stopwatchGet_pairwise hwhole
  refine ⟨hpairwise, hpairwise.imp fun hle => stopwatchElapsed_eq hle, ?_⟩
  rintro us ticksPerS first last rest rfl hsleep
  exact stopwatchUsleep_delay h hwhole hsleep

/-- A read of `TIM6` just before the low half rolls over. -/
def tornCall (tim6First : Bool) : GetCall where
  tim6First := tim6First
  start := 2 ^ 32 - 1
  first := 2 ^ 32 - 1
  second := 2 ^ 32
  finish := 2 ^ 32
  start_le := Nat.le_refl _
  first_le := Nat.le_succ _
  second_le := Nat.le_refl _

/-- The call behind it. -/
def nextCall : GetCall where
  tim6First := true
  start := 2 ^ 32
  first := 2 ^ 32
  second := 2 ^ 32
  finish := 2 ^ 32
  start_le := Nat.le_refl _
  first_le := Nat.le_refl _
  second_le := Nat.le_refl _

/-- With either order a rollover between the reads gives a value that the counter did not have, and a sleep
of a second at 26 MHz ends after one tick. -/
theorem stopwatchGet_torn :
    (tornCall true).stopwatchGet = 0 ∧ ¬ (tornCall true).Between ∧
    (tornCall false).stopwatchGet = 2 ^ 33 - 1 ∧ ¬ (tornCall false).Between ∧
    stopwatchUsleep 1000000 26000000 (tornCall true) [nextCall] = some nextCall := by
  have hlow : (tornCall true).stopwatchGet = 0 := by decide +kernel
  have hhigh : (tornCall false).stopwatchGet = 2 ^ 33 - 1 := by decide +kernel
  refine ⟨hlow, fun h => ?_, hhigh, fun h => ?_, rfl⟩
  · exact absurd (hlow ▸ h.1) (by decide +kernel)
  · exact absurd (hhigh ▸ h.2) (by decide +kernel)

end Pmb887x.Lib
