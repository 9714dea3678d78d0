/-
# The semaphore

`utils/semaphore.js`.  A permit that is released while calls are waiting is handed to the one that
has waited longest, and a call that waits can be timed out by its timer before that.

Section 2 is a semaphore among its callers: the calls are numbered as they arrive, a timer can fire
as long as it is not cleared, a caller releases a permit that it was granted, and the promises that
are settled are listed.  Section 3 is what always holds of it (`semaphore_laws`).
-/
import SmartDrop.Lib.Run
import Mathlib.Data.List.Nodup
import Mathlib.Data.List.Perm.Basic
import Mathlib.Data.List.Range
import Mathlib.Data.Int.Notation

namespace SmartDrop.Utils

open Conc

/-! ## 1. Semaphores -/

/-- A call that waits; `timer` says that it has one. -/
structure Waiter where
  call : ℕ
  timer : Bool
deriving DecidableEq

/-- `Semaphore`. -/
structure Semaphore where
  maxConcurrency : ℕ
  current : ℤ
  queue : List Waiter

/-- How a promise that `acquire` has returned is settled. -/
inductive Settled where
  | granted
  | refused
  | timedOut
deriving DecidableEq

namespace Semaphore

/-- `new Semaphore(maxConcurrency)`. -/
def new (maxConcurrency : ℕ) : Semaphore := ⟨maxConcurrency, 0, []⟩

variable (sem : Semaphore)

/-- `available`. -/
def available : ℤ := sem.maxConcurrency - sem.current

/-- `waiting`. -/
def waiting : ℕ := sem.queue.length

/-- `active`. -/
def active : ℤ := sem.current

/-- `acquire`: how the promise is settled, if it is at once. -/
def acquire (call : ℕ) (timeoutMs : ℤ) : Option Settled × Semaphore :=
  if sem.current < sem.maxConcurrency then (some .granted, { sem with current := sem.current + 1 })
  else if timeoutMs = 0 then (some .refused, sem)
  else (none, { sem with queue := sem.queue ++ [⟨call, 0 < timeoutMs⟩] })

/-- The callback of a timer: the entry of its call leaves the queue. -/
def timeout (call : ℕ) : Semaphore :=
  { sem with queue := sem.queue.filter fun w => w.call ≠ call }

/-- `_release`: the waiter that is granted the permit. -/
def release : Option Waiter × Semaphore :=
  match sem.queue with
  | [] => (none, { sem with current := sem.current - 1 })
  | next :: queue => (some next, { sem with current := sem.current - 1 + 1, queue })

end Semaphore

/-! ## 2. Callers -/

/-- A semaphore among its callers: how many calls were made, whose timers are running, who holds a
permit, who has released one, and how the promises were settled, in order. -/
structure Permits where
  sem : Semaphore
  calls : ℕ
  timers : List ℕ
  holders : List ℕ
  released : List ℕ
  settled : List (ℕ × Settled)

namespace Permits

/-- No call was made. -/
def start (maxConcurrency : ℕ) : Permits := ⟨.new maxConcurrency, 0, [], [], [], []⟩

/-- A call, the firing of a timer, or the release of a permit. -/
inductive Event where
  | acquire (timeoutMs : ℤ)
  | fire (call : ℕ)
  | release (call : ℕ)
deriving DecidableEq

variable (s : Permits)

/-- A promise is settled. -/
def settle (call : ℕ) (how : Settled) : Permits :=
  { s with
    settled := s.settled ++ [(call, how)]
    holders := if how = .granted then s.holders ++ [call] else s.holders }

/-- The calls that were granted a permit, in order. -/
def granted : List ℕ := (s.settled.filter fun p => p.2 = .granted).map Prod.fst

/-- A call. -/
def acquire (timeoutMs : ℤ) : Permits :=
  let r := s.sem.acquire s.calls timeoutMs
  match r.1 with
  | some how => { s with sem := r.2, calls := s.calls + 1 }.settle s.calls how
  | none => { s with
      sem := r.2
      calls := s.calls + 1
      timers := if 0 < timeoutMs then s.timers ++ [s.calls] else s.timers }

/-- A timer fires, if it is running. -/
def fire (call : ℕ) : Permits :=
  if call ∈ s.timers then
    { s with sem := s.sem.timeout call, timers := s.timers.erase call }.settle call .timedOut
  else s

/-- A caller that holds a permit releases it; the timer of the call that gets it is cleared. -/
def release (call : ℕ) : Permits :=
  if call ∈ s.holders then
    let r := s.sem.release
    let s' : Permits := { s with
      sem := r.2, holders := s.holders.erase call, released := s.released ++ [call] }
    match r.1 with
    | none => s'
    | some next =>
      { s' with timers := if next.timer then s.timers.erase next.call else s.timers }.settle
        next.call .granted
  else s

/-- One event. -/
def step (s : Permits) : Event → Permits
  | .acquire timeoutMs => s.acquire timeoutMs
  | .fire call => s.fire call
  | .release call => s.release call

/-! ## 3. What always holds -/

/-- The laws of a semaphore with `maxConcurrency` permits. -/
structure Lawful (maxConcurrency : ℕ) (s : Permits) : Prop where
  /-- Never more permits are out than there are. -/
  active_mem : 0 ≤ s.sem.active ∧ s.sem.active ≤ maxConcurrency
  /-- No call waits while a permit is free. -/
  no_idle : 0 < s.sem.available → s.sem.queue = []
  /-- Permits are granted in the order of arrival, and no call that waits has been overtaken. -/
  in_order : s.granted.Pairwise (· < ·) ∧ ∀ call ∈ s.granted, ∀ w ∈ s.sem.queue, call < w.call
  /-- Every call is settled once, or waits. -/
  settled_once : (s.settled.map Prod.fst ++ s.sem.queue.map Waiter.call).Perm (List.range s.calls)
  /-- Whoever waits with a timeout has a timer running. -/
  timed : ∀ call, call ∈ s.timers ↔ ∃ w ∈ s.sem.queue, w.call = call ∧ w.timer = true
  /-- Every permit that was granted is held or was released, and no other one is out. -/
  none_lost : (s.holders ++ s.released).Perm s.granted ∧ s.sem.active = s.holders.length

/-- The invariant. -/
structure Inv (maxConcurrency : ℕ) (s : Permits) : Prop where
  max_eq : s.sem.maxConcurrency = maxConcurrency
  current_eq : s.sem.current = s.holders.length
  le_max : s.sem.current ≤ s.sem.maxConcurrency
  full : s.sem.queue ≠ [] → s.sem.current = s.sem.maxConcurrency
  queue_sorted : s.sem.queue.Pairwise fun v w => v.call < w.call
  granted_sorted : s.granted.Pairwise (· < ·)
  granted_lt : ∀ call ∈ s.granted, ∀ w ∈ s.sem.queue, call < w.call
  accounted : (s.settled.map Prod.fst ++ s.sem.queue.map Waiter.call).Perm (List.range s.calls)
  timers_nodup : s.timers.Nodup
  mem_timers : ∀ call, call ∈ s.timers ↔ ∃ w ∈ s.sem.queue, w.call = call ∧ w.timer = true
  granted_perm : (s.holders ++ s.released).Perm s.granted

variable {s : Permits} {maxConcurrency : ℕ}

theorem start_inv : (start maxConcurrency).Inv maxConcurrency where
  max_eq := rfl
  current_eq := rfl
  le_max := Int.natCast_nonneg _
  full h := absurd rfl h
  queue_sorted := .nil
  granted_sorted := .nil
  granted_lt _ h := nomatch h
  accounted := .refl _
  timers_nodup := .nil
  mem_timers call := by simp [start, Semaphore.new]
  granted_perm := .refl _

theorem Inv.lawful (h : s.Inv maxConcurrency) : s.Lawful maxConcurrency where
  active_mem := by
    have hle := h.le_max
    have hcur := h.current_eq
    rw [h.max_eq] at hle
    exact ⟨by rw [Semaphore.active, hcur]; exact Int.natCast_nonneg _, hle⟩
  no_idle hfree := by
    by_contra hne
    have hfull := h.full hne
    rw [Semaphore.available] at hfree
    omega
  in_order := ⟨h.granted_sorted, h.granted_lt⟩
  settled_once := h.accounted
  timed := h.mem_timers
  none_lost := ⟨h.granted_perm, h.current_eq⟩

theorem granted_append {call : ℕ} {how : Settled} :
    (s.settle call how).granted = if how = .granted then s.granted ++ [call] else s.granted := by
  cases how <;> simp [granted, settle]

/-- Whoever was granted a permit has called before. -/
theorem Inv.granted_lt_calls (h : s.Inv maxConcurrency) {call : ℕ} (hc : call ∈ s.granted) :
    call < s.calls := by
  obtain ⟨p, hp, rfl⟩ := List.mem_map.mp hc
  have hmem : p.1 ∈ s.settled.map Prod.fst := List.mem_map_of_mem (List.mem_filter.mp hp).1
  exact List.mem_range.mp (h.accounted.mem_iff.mp (List.mem_append_left _ hmem))

theorem Inv.queue_lt_calls (h : s.Inv maxConcurrency) {w : Waiter} (hw : w ∈ s.sem.queue) :
    w.call < s.calls :=
  List.mem_range.mp (h.accounted.mem_iff.mp (List.mem_append_right _ (List.mem_map_of_mem hw)))

theorem Inv.queue_nodup (h : s.Inv maxConcurrency) : (s.sem.queue.map Waiter.call).Nodup :=
  List.pairwise_map.mpr (h.queue_sorted.imp fun hlt => Nat.ne_of_lt hlt)

/-- A new call is numbered after all others. -/
theorem Inv.accounted_succ (h : s.Inv maxConcurrency) :
    (s.settled.map Prod.fst ++ s.sem.queue.map Waiter.call ++ [s.calls]).Perm
      (List.range (s.calls + 1)) := by
  rw [List.range_succ]
  exact h.accounted.append_right [s.calls]

theorem acquire_free {timeoutMs : ℤ} (hfree : s.sem.current < s.sem.maxConcurrency) :
    s.acquire timeoutMs = { s with
      sem := { s.sem with current := s.sem.current + 1 }
      calls := s.calls + 1 }.settle s.calls .granted := by
  rw [acquire, Semaphore.acquire, if_pos hfree]

theorem acquire_refused (hbusy : ¬ s.sem.current < s.sem.maxConcurrency) :
    s.acquire 0 = { s with calls := s.calls + 1 }.settle s.calls .refused := by
  rw [acquire, Semaphore.acquire, if_neg hbusy, if_pos rfl]

theorem acquire_waits {timeoutMs : ℤ} (hbusy : ¬ s.sem.current < s.sem.maxConcurrency)
    (hwait : timeoutMs ≠ 0) :
    s.acquire timeoutMs = { s with
      sem := { s.sem with queue := s.sem.queue ++ [⟨s.calls, 0 < timeoutMs⟩] }
      calls := s.calls + 1
      timers := if 0 < timeoutMs then s.timers ++ [s.calls] else s.timers } := by
  rw [acquire, Semaphore.acquire, if_neg hbusy, if_neg hwait]

theorem acquire_inv (h : s.Inv maxConcurrency) (timeoutMs : ℤ) :
    (s.acquire timeoutMs).Inv maxConcurrency := by
  have hcurrent := h.current_eq
  by_cases hfree : s.sem.current < s.sem.maxConcurrency
  · -- a permit is free, so nobody waits
    rw [acquire_free hfree]
    have hqueue : s.sem.queue = [] := by
      by_contra hne
      have := h.full hne
      omega
    have haccounted := h.accounted_succ
    rw [hqueue, List.map_nil, List.append_nil] at haccounted
    refine ⟨h.max_eq, ?_, ?_, ?_, h.queue_sorted, ?_, ?_, ?_, h.timers_nodup, h.mem_timers, ?_⟩
    · simp [settle, hcurrent]
    · simp only [settle]
      omega
    · exact fun hne => absurd hqueue hne
    · rw [granted_append, if_pos rfl]
      refine List.pairwise_append.mpr ⟨h.granted_sorted, List.pairwise_singleton _ _, ?_⟩
      intro call hc call' hc'
      rw [List.mem_singleton.mp hc']
      exact h.granted_lt_calls hc
    · intro call _ w hw
      have hnil : w ∈ s.sem.queue := hw
      simp [hqueue] at hnil
    · simpa [settle, hqueue] using haccounted
    · rw [granted_append, if_pos rfl]
      have hperm : (s.holders ++ [s.calls] ++ s.released).Perm (s.holders ++ s.released ++ [s.calls]) := by
        rw [List.append_assoc, List.append_assoc]
        exact List.perm_append_comm.append_left s.holders
      exact hperm.trans (h.granted_perm.append_right [s.calls])
  by_cases hwait : timeoutMs = 0
  · subst hwait
    rw [acquire_refused hfree]
    refine ⟨h.max_eq, hcurrent, h.le_max, h.full, h.queue_sorted, ?_, ?_, ?_, h.timers_nodup,
      h.mem_timers, ?_⟩
    · rw [granted_append, if_neg (by simp)]
      exact h.granted_sorted
    · rw [granted_append, if_neg (by simp)]
      exact h.granted_lt
    · simp only [settle, List.map_append, List.map_cons, List.map_nil]
      refine List.Perm.trans ?_ h.accounted_succ
      rw [List.append_assoc, List.append_assoc]
      exact List.perm_append_comm.append_left _
    · rw [granted_append, if_neg (by simp)]
      exact h.granted_perm
  · rw [acquire_waits hfree hwait]
    have hnew : s.calls ∉ s.timers := fun hmem => by
      obtain ⟨w, hw, hcall, -⟩ := (h.mem_timers _).mp hmem
      have := h.queue_lt_calls hw
      omega
    refine ⟨h.max_eq, hcurrent, h.le_max, fun _ => ?_, ?_, h.granted_sorted, ?_, ?_, ?_, ?_,
      h.granted_perm⟩
    · have := h.le_max
      simp only
      omega
    · refine List.pairwise_append.mpr ⟨h.queue_sorted, List.pairwise_singleton _ _, ?_⟩
      intro v hv w hw
      rw [List.mem_singleton.mp hw]
      exact h.queue_lt_calls hv
    · intro call hc w hw
      rcases List.mem_append.mp hw with hw | hw
      · exact h.granted_lt call hc w hw
      · rw [List.mem_singleton.mp hw]
        exact h.granted_lt_calls hc
    · simpa [List.append_assoc] using h.accounted_succ
    · split
      · refine List.nodup_append.mpr ⟨h.timers_nodup, List.nodup_singleton _, ?_⟩
        intro a ha b hb
        rw [List.mem_singleton.mp hb]
        rintro rfl
        exact hnew ha
      · exact h.timers_nodup
    · intro call
      have hqueue : (∃ w ∈ s.sem.queue ++ [⟨s.calls, 0 < timeoutMs⟩], w.call = call ∧ w.timer = true) ↔
          call ∈ s.timers ∨ (s.calls = call ∧ 0 < timeoutMs) := by
        simp [h.mem_timers, or_and_right, exists_or]
      rw [hqueue]
      split
      · rename_i hpos
        rw [List.mem_append, List.mem_singleton, and_iff_left hpos, eq_comm (a := call)]
      · rename_i hpos
        simp [hpos]

theorem fire_inv (h : s.Inv maxConcurrency) (call : ℕ) : (s.fire call).Inv maxConcurrency := by
  rw [fire]
  split
  · rename_i hmem
    obtain ⟨w, hw, rfl, htimer⟩ := (h.mem_timers _).mp hmem
    refine ⟨h.max_eq, h.current_eq, h.le_max, fun hne => h.full ?_, h.queue_sorted.filter _, ?_, ?_,
      ?_, h.timers_nodup.erase _, ?_, ?_⟩
    · rintro hnil
      exact hne (by simp [settle, Semaphore.timeout, hnil])
    · rw [granted_append, if_neg (by simp)]
      exact h.granted_sorted
    · rw [granted_append, if_neg (by simp)]
      exact fun c hc v hv => h.granted_lt c hc v (List.mem_filter.mp hv).1
    · have herase : (s.sem.queue.filter fun v => v.call ≠ w.call).map Waiter.call =
          (s.sem.queue.map Waiter.call).erase w.call := by
        rw [h.queue_nodup.erase_eq_filter, List.filter_map]
        refine congrArg _ (List.filter_congr fun v _ => ?_)
        by_cases hv : v.call = w.call <;> simp [hv]
      refine List.Perm.trans ?_ h.accounted
      simp only [settle, Semaphore.timeout, List.map_append, List.map_cons, List.map_nil, herase]
      rw [List.append_assoc]
      exact (List.perm_cons_erase (List.mem_map_of_mem hw)).symm.append_left _
    · intro c
      simp only [settle, Semaphore.timeout, h.timers_nodup.mem_erase_iff, h.mem_timers, List.mem_filter,
        decide_eq_true_eq]
      constructor
      · rintro ⟨hne, v, hv, rfl, hvt⟩
        exact ⟨v, ⟨hv, hne⟩, rfl, hvt⟩
      · rintro ⟨v, ⟨hv, hne⟩, rfl, hvt⟩
        exact ⟨hne, v, hv, rfl, hvt⟩
    · rw [granted_append, if_neg (by simp)]
      exact h.granted_perm
  · exact h

theorem release_idle {call : ℕ} (hmem : call ∈ s.holders) (hqueue : s.sem.queue = []) :
    s.release call = { s with
      sem := ⟨s.sem.maxConcurrency, s.sem.current - 1, []⟩
      holders := s.holders.erase call
      released := s.released ++ [call] } := by
  rw [release, if_pos hmem, Semaphore.release, hqueue]

theorem release_handed {call : ℕ} {next : Waiter} {queue : List Waiter} (hmem : call ∈ s.holders)
    (hqueue : s.sem.queue = next :: queue) :
    s.release call = { s with
      sem := ⟨s.sem.maxConcurrency, s.sem.current - 1 + 1, queue⟩
      holders := s.holders.erase call
      released := s.released ++ [call]
      timers := if next.timer then s.timers.erase next.call else s.timers }.settle
        next.call .granted := by
  rw [release, if_pos hmem, Semaphore.release, hqueue]

theorem release_inv (h : s.Inv maxConcurrency) (call : ℕ) : (s.release call).Inv maxConcurrency := by
  by_cases hmem : call ∈ s.holders
  · have hcurrent := h.current_eq
    have hlen := List.length_erase_of_mem hmem
    have hpos := List.length_pos_of_mem hmem
    have hperm : (s.holders.erase call ++ (s.released ++ [call])).Perm s.granted := by
      refine List.Perm.trans ?_ h.granted_perm
      refine List.Perm.trans ?_ ((List.perm_cons_erase hmem).symm.append_right s.released)
      rw [← List.append_assoc]
      exact List.perm_append_comm
    cases hqueue : s.sem.queue with
    | nil =>
      rw [release_idle hmem hqueue]
      have haccounted := h.accounted
      have htimers := h.mem_timers
      rw [hqueue] at haccounted htimers
      refine ⟨h.max_eq, ?_, ?_, fun hne => absurd rfl hne, .nil, h.granted_sorted,
        fun _ _ _ hw => (nomatch hw), haccounted, h.timers_nodup, htimers, hperm⟩
      · simp only
        omega
      · have := h.le_max
        simp only
        omega
    | cons next queue =>
      -- the permit goes to the call that has waited longest
      rw [release_handed hmem hqueue]
      have hsorted := h.queue_sorted
      rw [hqueue] at hsorted
      obtain ⟨hnext, hrest⟩ := List.pairwise_cons.mp hsorted
      have hmemq : next ∈ s.sem.queue := by simp [hqueue]
      have hsub : ∀ w ∈ queue, w ∈ s.sem.queue := fun w hw => by simp [hqueue, hw]
      refine ⟨h.max_eq, ?_, ?_, fun _ => ?_, hrest, ?_, ?_, ?_, ?_, ?_, ?_⟩
      · simp [settle, hlen]
        omega
      · have := h.le_max
        simp only [settle]
        omega
      · have := h.full (List.ne_nil_of_mem hmemq)
        simp only [settle]
        omega
      · rw [granted_append, if_pos rfl]
        refine List.pairwise_append.mpr ⟨h.granted_sorted, List.pairwise_singleton _ _, ?_⟩
        intro c hc c' hc'
        rw [List.mem_singleton.mp hc']
        exact h.granted_lt c hc next hmemq
      · rw [granted_append, if_pos rfl]
        intro c hc w hw
        rcases List.mem_append.mp hc with hc | hc
        · exact h.granted_lt c hc w (hsub w hw)
        · rw [List.mem_singleton.mp hc]
          exact hnext w hw
      · have haccounted := h.accounted
        rw [hqueue] at haccounted
        simpa [settle, List.append_assoc] using haccounted
      · simp only [settle]
        split
        · exact h.timers_nodup.erase _
        · exact h.timers_nodup
      · intro c
        have hold := h.mem_timers c
        rw [hqueue, List.exists_mem_cons_iff] at hold
        simp only [settle]
        split
        · rename_i htimer
          rw [h.timers_nodup.mem_erase_iff, hold]
          constructor
          · rintro ⟨hne, ⟨rfl, -⟩ | hw⟩
            · exact absurd rfl hne
            · exact hw
          · rintro ⟨w, hw, rfl, hwt⟩
            exact ⟨(Nat.ne_of_lt (hnext w hw)).symm, .inr ⟨w, hw, rfl, hwt⟩⟩
        · rename_i htimer
          rw [hold]
          exact or_iff_right fun hn => htimer hn.2
      · rw [granted_append, if_pos rfl]
        refine List.Perm.trans ?_ (hperm.append_right [next.call])
        simp only [settle, if_true, List.append_assoc]
        refine List.Perm.append_left _ (List.perm_append_comm.trans ?_)
        rw [List.append_assoc]
  · rw [release, if_neg hmem]
    exact h

theorem step_inv (h : s.Inv maxConcurrency) (e : Event) : (s.step e).Inv maxConcurrency := by
  cases e with
  | acquire timeoutMs => exact acquire_inv h timeoutMs
  | fire call => exact fire_inv h call
  | release call => exact release_inv h call

/-- **The laws of the semaphore** hold in every state of every run of calls with any timeouts,
firings of timers and releases. -/
theorem semaphore_laws (maxConcurrency : ℕ) (es : List Event) :
    (run step (start maxConcurrency) es).Lawful maxConcurrency :=
  (run_inv_of_step (I := Inv maxConcurrency) (fun _ e hs => step_inv hs e) start_inv).lawful

end Permits

end SmartDrop.Utils
