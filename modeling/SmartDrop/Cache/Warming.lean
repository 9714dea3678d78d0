/-
# What a cache warming reports

`runWarmPool` and `warmCache` of `startup/cacheWarm.js`: some workers fetch the prices of the assets, each one the
next asset of the queue when its fetch has settled, while a timeout races with them.

The timeout is to "snapshot the successes achieved so far" from `results`, which "fill in as workers finish".
They do not: the pool collects its results in a list of its own, and `warmCache` gets them when the last worker is
done.  So a timeout reports that nothing succeeded (`summary_counts_iff`).
-/
import Mathlib.Algebra.Order.Ring.Unbundled.Rat
import Mathlib.Data.List.Basic

namespace SmartDrop.Warming

/-! ## 1. Assets -/

structure Asset where
  code : String
  issuer : Option String
deriving DecidableEq

/-- `assetKey`. -/
def assetKey (asset : Asset) : String :=
  match asset.issuer with
  | some issuer => if issuer = "" then asset.code else asset.code ++ ":" ++ issuer
  | none => asset.code

/-- `collectAssets`: the assets of the configuration and those that were asked for, if the oracle says which. -/
def collectAssets (assets : List Asset) (queried : Option (List Asset)) : List Asset :=
  (queried.getD []).foldl (fun all item =>
    if all.any fun asset => assetKey asset == assetKey item then all else all ++ [item]) assets

/-- The options that the reports depend on; `none` is a number of entries that is not finite. -/
structure Options where
  timeoutMs : ℕ := 30000
  maxEntries : Option ℤ := some 500
  concurrency : ℤ := 8

/-- The assets up to the greatest number. -/
def truncate (options : Options) (all : List Asset) : List Asset :=
  match options.maxEntries with
  | some n => if 0 < n ∧ n < all.length then all.take n.toNat else all
  | none => all

/-! ## 2. Fetches -/

/-- What a fetch gives; no price is `null`. -/
structure Price where
  price_usd : Option ℚ
  redis_unavailable : Bool
deriving DecidableEq

/-- How a fetch settles; a value can be missing. -/
inductive Settled where
  | fulfilled (value : Option Price)
  | rejected
deriving DecidableEq

/-- `isWarmSuccess`. -/
def isWarmSuccess : Settled → Bool
  | .fulfilled (some value) => value.price_usd.isSome && !value.redis_unavailable
  | .fulfilled none => false
  | .rejected => false

structure Summary where
  total : ℕ
  succeeded : ℕ
  failed : ℤ
  timedOut : Bool
  durationMs : ℕ
deriving DecidableEq

/-- The queue, the assets that the workers are fetching, the results of the pool and those of `warmCache`, and the
summary once there is one. -/
structure State where
  total : ℕ
  queue : List Asset
  active : List Asset
  settled : List Settled
  results : List Settled
  summary : Option Summary
deriving DecidableEq

/-- What happens: the fetch of a worker gives a value, fails or takes too long, or there is no more time. -/
inductive Event where
  | fulfilled (worker : ℕ) (value : Option Price)
  | rejected (worker : ℕ)
  | entryTimeout (worker : ℕ)
  | timeout
deriving DecidableEq

/-- A fetch succeeds. -/
def Event.succeeds : Event → Bool
  | .fulfilled _ value => isWarmSuccess (.fulfilled value)
  | _ => false

/-- The summary of some results. -/
def summarize (total : ℕ) (results : List Settled) (timedOut : Bool) (durationMs : ℕ) : Summary :=
  let succeeded := results.countP isWarmSuccess
  { total, succeeded, failed := (total : ℤ) - succeeded, timedOut, durationMs }

/-- `workerCount`. -/
def workerCount (concurrency : ℤ) (length : ℕ) : ℕ := (max 1 (min concurrency length)).toNat

/-- `warmCache` up to where it waits; without assets it does not. -/
def start (options : Options) (assets : List Asset) (queried : Option (List Asset)) : State :=
  let all := collectAssets assets queried
  if all = [] then
    { total := 0, queue := [], active := [], settled := [], results := [],
      summary := some { total := 0, succeeded := 0, failed := 0, timedOut := false, durationMs := 0 } }
  else
    let all := truncate options all
    let workers := workerCount options.concurrency all.length
    { total := all.length, queue := all.drop workers, active := all.take workers, settled := [], results := [],
      summary := none }

/-- The fetch of a worker settles: it takes the next asset, or is done, and the last one ends the pool. -/
def settle (s : State) (worker : ℕ) (result : Settled) : Option State :=
  if worker < s.active.length then
    let settled := s.settled ++ [result]
    match s.queue with
    | asset :: queue => some { s with queue, active := s.active.set worker asset, settled }
    | [] =>
      let active := s.active.eraseIdx worker
      if active = [] then
        let results := s.results ++ settled
        some { s with active, settled, results, summary := some (summarize s.total results false 0) }
      else some { s with active, settled }
  else none

/-- One event, before there is a summary. -/
def step (options : Options) (s : State) (event : Event) : Option State :=
  if s.summary.isSome then none
  else match event with
    | .fulfilled worker value => settle s worker (.fulfilled value)
    | .rejected worker => settle s worker .rejected
    | .entryTimeout worker => settle s worker .rejected
    | .timeout => some { s with summary := some (summarize s.total s.results true options.timeoutMs) }

/-- The states that events lead to. -/
inductive Reaches (options : Options) (assets : List Asset) (queried : Option (List Asset)) :
    List Event → State → Prop
  | start : Reaches options assets queried [] (start options assets queried)
  | step {es s e s'} (h : Reaches options assets queried es s) (hstep : step options s e = some s') :
    Reaches options assets queried (es ++ [e]) s'

/-- A summary reports how many fetches have succeeded, and that the rest have failed. -/
def Counts (total : ℕ) (es : List Event) (summary : Summary) : Prop :=
  summary.succeeded = es.countP Event.succeeds ∧ summary.failed = (total : ℤ) - es.countP Event.succeeds

/-! ## 3. One event -/

variable {options : Options} {assets : List Asset} {queried : Option (List Asset)} {s s' : State}
  {es : List Event} {e : Event}

/-- What a settled fetch does: the pool has one more result, and one asset less to go; if none is left, there is a
summary of all results. -/
theorem settle_cases {worker : ℕ} {result : Settled} (h : settle s worker result = some s') :
    s'.total = s.total ∧ s'.settled = s.settled ++ [result] ∧
      s'.active.length + s'.queue.length + 1 = s.active.length + s.queue.length ∧
      (s'.results = s.results ∧ s'.summary = s.summary ∨
        s'.active = [] ∧ s'.queue = [] ∧
          s'.summary = some (summarize s.total (s.results ++ s'.settled) false 0)) := by
  rw [settle] at h
  split at h
  · rename_i hworker
    split at h
    · rename_i asset queue hqueue
      cases h
      refine ⟨rfl, rfl, ?_, Or.inl ⟨rfl, rfl⟩⟩
      rw [hqueue, List.length_set, List.length_cons]
      rfl
    · rename_i hqueue
      have hlength := List.length_eraseIdx_of_lt hworker
      dsimp only at h
      split at h
      · rename_i hempty
        cases h
        refine ⟨rfl, rfl, ?_, Or.inr ⟨hempty, hqueue, rfl⟩⟩
        simp only [hqueue, List.length_nil]
        omega
      · cases h
        refine ⟨rfl, rfl, ?_, Or.inl ⟨rfl, rfl⟩⟩
        simp only [hqueue, List.length_nil]
        omega
  · cases h

/-- An event is the timeout, or a fetch settles by it. -/
theorem step_cases (h : step options s e = some s') : s.summary = none ∧
    (e = .timeout ∧ s' = { s with summary := some (summarize s.total s.results true options.timeoutMs) } ∨
      e ≠ .timeout ∧ ∃ worker result, isWarmSuccess result = e.succeeds ∧ settle s worker result = some s') := by
  unfold step at h
  split at h
  · cases h
  · rename_i hnone
    refine ⟨by simpa using hnone, ?_⟩
    cases e with
    | fulfilled worker value => exact Or.inr ⟨by simp, worker, .fulfilled value, rfl, h⟩
    | rejected worker => exact Or.inr ⟨by simp, worker, .rejected, rfl, h⟩
    | entryTimeout worker => exact Or.inr ⟨by simp, worker, .rejected, rfl, h⟩
    | timeout => exact Or.inl ⟨rfl, (Option.some.inj h).symm⟩

/-! ## 4. All events -/

/-- How far the warming has come.  Until the pool is done `warmCache` has no results, whatever has settled. -/
structure Progress (es : List Event) (s : State) : Prop where
  counted : s.settled.countP isWarmSuccess = es.countP Event.succeeds
  placed : s.settled.length + s.active.length + s.queue.length = s.total
  running : s.summary = none → s.results = [] ∧ Event.timeout ∉ es
  settled : Event.timeout ∉ es → es.length = s.settled.length
  reported : ∀ summary, s.summary = some summary → Event.timeout ∉ es →
    s.active = [] ∧ s.queue = [] ∧ Counts s.total es summary
  lost : ∀ summary, s.summary = some summary → Event.timeout ∈ es →
    summary.succeeded = 0 ∧ summary.failed = s.total

theorem progress_start : Progress [] (start options assets queried) := by
  rw [start]
  split
  · constructor
    · rfl
    · rfl
    · intro h
      cases h
    · exact fun _ => rfl
    · rintro _ ⟨⟩ _
      exact ⟨rfl, rfl, rfl, rfl⟩
    · rintro _ - ⟨⟩
  · constructor
    · rfl
    · simp only [List.length_nil, List.length_take, List.length_drop]
      omega
    · exact fun _ => ⟨rfl, List.not_mem_nil⟩
    · exact fun _ => rfl
    · rintro _ ⟨⟩
    · rintro _ ⟨⟩

theorem Progress.step (h : Progress es s) (hstep : step options s e = some s') : Progress (es ++ [e]) s' := by
  obtain ⟨hnone, hcases⟩ := step_cases hstep
  obtain ⟨hresults, hbefore⟩ := h.running hnone
  rcases hcases with ⟨rfl, rfl⟩ | ⟨hne, worker, result, hresult, hsettle⟩
  · have hmem : Event.timeout ∈ es ++ [Event.timeout] := List.mem_append_right _ List.mem_cons_self
    constructor
    · simpa [Event.succeeds] using h.counted
    · exact h.placed
    · intro hsummary
      cases hsummary
    · exact fun hnot => absurd hmem hnot
    · exact fun _ _ hnot => absurd hmem hnot
    · rintro _ ⟨⟩ _
      rw [summarize, hresults]
      exact ⟨rfl, Int.sub_zero _⟩
  · obtain ⟨htotal, hsettled, hlength, hend⟩ := settle_cases hsettle
    have hnot : Event.timeout ∉ es ++ [e] := by
      rw [List.mem_append, List.mem_singleton]
      exact not_or_intro hbefore (Ne.symm hne)
    have hcounted : s'.settled.countP isWarmSuccess = (es ++ [e]).countP Event.succeeds := by
      rw [hsettled, List.countP_append, List.countP_append, h.counted, List.countP_singleton,
        List.countP_singleton, hresult]
    constructor
    · exact hcounted
    · have := h.placed
      rw [hsettled, List.length_append, List.length_singleton, htotal]
      omega
    · intro hsummary
      rcases hend with ⟨hsame, -⟩ | ⟨-, -, hsome⟩
      · exact ⟨hsame.trans hresults, hnot⟩
      · rw [hsome] at hsummary
        cases hsummary
    · intro _
      rw [hsettled, List.length_append, List.length_append, h.settled hbefore]
      rfl
    · intro summary hsummary _
      rcases hend with ⟨-, hsame⟩ | ⟨hactive, hqueue, hsome⟩
      · rw [hsame, hnone] at hsummary
        cases hsummary
      · rw [hsome, hresults, List.nil_append] at hsummary
        cases hsummary
        refine ⟨hactive, hqueue, ?_⟩
        rw [Counts, htotal, ← hcounted]
        exact ⟨rfl, rfl⟩
    · exact fun _ _ hmem => absurd hmem hnot

theorem Reaches.progress (h : Reaches options assets queried es s) : Progress es s := by
  induction h with
  | start => exact progress_start
  | step _ hstep ih => exact ih.step hstep

/-- When the warming ends first, the fetch of every asset has settled. -/
theorem all_settled (h : Reaches options assets queried es s) {summary : Summary} (hsummary : s.summary = some summary)
    (hnot : Event.timeout ∉ es) : es.length = s.total := by
  have hprogress := h.progress
  obtain ⟨hactive, hqueue, -⟩ := hprogress.reported summary hsummary hnot
  have hplaced := hprogress.placed
  rw [hactive, hqueue] at hplaced
  rw [hprogress.settled hnot, ← hplaced]
  rfl

/-- **The summary counts the fetches** that have succeeded, exactly if none had when the time was over. -/
theorem summary_counts_iff (h : Reaches options assets queried es s) {summary : Summary}
    (hsummary : s.summary = some summary) :
    Counts s.total es summary ↔ (Event.timeout ∈ es → es.countP Event.succeeds = 0) := by
  have hprogress := h.progress
  by_cases htimeout : Event.timeout ∈ es
  · obtain ⟨hsucceeded, hfailed⟩ := hprogress.lost summary hsummary htimeout
    rw [Counts, hsucceeded, hfailed]
    constructor
    · exact fun hcounts _ => hcounts.1.symm
    · intro hzero
      rw [hzero htimeout]
      exact ⟨rfl, (Int.sub_zero _).symm⟩
  · exact ⟨fun _ hmem => absurd hmem htimeout,
      fun _ => (hprogress.reported summary hsummary htimeout).2.2⟩

/-- Two assets, both being fetched; one price comes before the time is over. -/
def slow : List Event := [.fulfilled 0 (some ⟨some 1, false⟩), .timeout]

/-- What is reported of them. -/
def slowSummary : Summary := { total := 2, succeeded := 0, failed := 2, timedOut := true, durationMs := 30000 }

theorem reaches_slow : ∃ s, Reaches {} [⟨"XLM", none⟩, ⟨"USDC", none⟩] none slow s ∧ s.total = 2 ∧
    s.summary = some slowSummary := by
  refine ⟨_, .step (.step .start rfl) rfl, rfl, ?_⟩
  decide

theorem summary_counts_iff_slow : ∃ s, Reaches {} [⟨"XLM", none⟩, ⟨"USDC", none⟩] none slow s ∧
    (Counts s.total slow slowSummary ↔ (Event.timeout ∈ slow → slow.countP Event.succeeds = 0)) := by
  obtain ⟨s, h, -, hsummary⟩ := reaches_slow
  exact ⟨s, h, summary_counts_iff h hsummary⟩

/-- The timeout reports no success after one. -/
theorem slow_not_counted : ∃ s summary, Reaches {} [⟨"XLM", none⟩, ⟨"USDC", none⟩] none slow s ∧
    s.summary = some summary ∧ ¬ Counts s.total slow summary := by
  obtain ⟨s, h, htotal, hsummary⟩ := reaches_slow
  refine ⟨s, slowSummary, h, hsummary, ?_⟩
  rw [htotal]
  exact fun hcounts => absurd hcounts.1 (by decide)

end SmartDrop.Warming
