/-
# Price readings

`doFetchFreshPrice` and `detectAnomaly` in `services/priceOracle.js`: the prices of the sources are
aggregated to their median, which is compared with the reading before it, and in reject mode a reading
that jumps is answered with the cached price.

The reading before it is the last one that was aggregated, whether or not it was rejected: `detectAnomaly`
stores each reading for an hour before anybody decides about it.  So a reading that is rejected leaves the
cached price alone and becomes the measure of the next one (`judged_run`), and a price that was rejected is
accepted when it comes again (`accepted_again`).

Redis does not fail here, and a reading takes no time.
-/
import SmartDrop.Lib.Binary64
import SmartDrop.Lib.RedisTypes
import SmartDrop.Lib.Run
import Mathlib.Data.List.Sort

namespace SmartDrop.Prices

open Binary64 Conc Redis

/-! ## 1. Data -/

/-- `config.price.anomalyAction`. -/
inductive AnomalyAction where
  | warn
  | reject
deriving DecidableEq

/-- The part of `config.price` that readings use. -/
structure PriceConfig where
  anomalyThresholdPercent : Double
  anomalyAction : AnomalyAction
  minSources : ℕ
  cacheTtl : ℕ

/-- What a source has answered: a price, or nothing where it has none, does not support the asset or
fails. -/
structure Answer where
  source : String
  price : Option Double

/-- What the sources answer at a time, in the order of `SOURCES`. -/
structure Reading where
  time : ℕ
  answers : List Answer

/-- The cached price of an asset. -/
structure CachedPrice where
  price : ℚ
  source : String
  fetchedAt : ℕ
  sourcesAttempted : List String
deriving DecidableEq

/-- The entry of the price history. -/
structure History where
  price : ℚ
  timestamp : ℕ
deriving DecidableEq

/-- The keys `price:<asset>` and `price:history:<asset>` of one asset. -/
structure Store where
  cached : Option (Timed CachedPrice)
  history : Option (Timed History)

/-- The response.  A date is the time that is written in it. -/
structure PriceResponse where
  price_usd : Option ℚ
  source : String
  fetched_at : ℕ
  is_stale : Bool
  stale_warning : Option String
  sources_attempted : List String
  redis_unavailable : Bool
  quorum_met : Bool
  anomalous : Bool
deriving DecidableEq

/-! ## 2. The source -/

/-- The numbers in order. -/
def sorted (values : List ℚ) : List ℚ := values.insertionSort (· ≤ ·)

/-- `median`. -/
def median (values : List ℚ) : Option ℚ :=
  let mid := values.length / 2
  if values.length % 2 = 0 then do
    let low ← (sorted values)[mid - 1]?
    let high ← (sorted values)[mid]?
    return nearest (nearest (low + high) / 2)
  else (sorted values)[mid]?

/-- `fetchFromAllSources`: the positive prices. -/
def fetchFromAllSources (r : Reading) : List (String × ℚ) :=
  r.answers.filterMap fun answer =>
    (answer.price.filter fun price => 0 < price.val).map fun price => (answer.source, price.val)

/-- The aggregated price of a reading. -/
def aggregatedPrice (r : Reading) : Option ℚ := median ((fetchFromAllSources r).map (·.2))

/-- The change in percent from the price before. -/
def changePercent (previous current : ℚ) : ℚ :=
  nearest (|nearest (nearest (current - previous) / previous)| * 100)

/-- The entry that `detectAnomaly` writes. -/
def historyEntry (currentPrice : ℚ) (now : ℕ) : Timed History :=
  ⟨⟨currentPrice, now⟩, some (now + 3600 * 1000)⟩

variable (config : PriceConfig)

/-- `detectAnomaly`: whether the reading is anomalous, and what it leaves. -/
def detectAnomaly (s : Store) (currentPrice : ℚ) (now : ℕ) : Bool × Store :=
  let anomalous :=
    match Timed.readAt now s.history with
    | none => false
    | some history =>
      if history.price ≤ 0 then false
      else config.anomalyThresholdPercent.val < changePercent history.price currentPrice
  (anomalous, { s with history := some (historyEntry currentPrice now) })

/-- `doFetchFreshPrice`. -/
def doFetchFreshPrice (s : Store) (r : Reading) : PriceResponse × Store :=
  let sourceResults := fetchFromAllSources r
  let sourcesAttempted := sourceResults.map (·.1)
  let quorumMet : Bool := config.minSources ≤ sourcesAttempted.length
  match aggregatedPrice r with
  | none =>
    ({ price_usd := none
       source := "unavailable"
       fetched_at := r.time
       is_stale := true
       stale_warning := some "No price data available from any source"
       sources_attempted := sourcesAttempted
       redis_unavailable := false
       quorum_met := false
       anomalous := false }, s)
  | some price =>
    let primarySource := (sourcesAttempted.head?).getD "aggregated"
    let (anomalous, s) := detectAnomaly config s price r.time
    let rejected : Option CachedPrice :=
      if anomalous ∧ config.anomalyAction = .reject then
        (Timed.readAt r.time s.cached).filter fun cached => cached.price ≠ 0
      else none
    match rejected with
    | some cached =>
      ({ price_usd := some cached.price
         source := if cached.source = "" then "cached" else cached.source
         fetched_at := cached.fetchedAt
         is_stale := true
         stale_warning := some "Anomalous price rejected — returning last known good price"
         sources_attempted := sourcesAttempted
         redis_unavailable := false
         quorum_met := quorumMet
         anomalous := true }, s)
    | none =>
      let entry : CachedPrice := ⟨price, primarySource, r.time, sourcesAttempted⟩
      ({ price_usd := some price
         source := primarySource
         fetched_at := r.time
         is_stale := false
         stale_warning := none
         sources_attempted := sourcesAttempted
         redis_unavailable := false
         quorum_met := quorumMet
         anomalous },
        { s with cached := some ⟨entry, some (r.time + config.cacheTtl * 1000)⟩ })

/-- What a reading leaves. -/
def fetch (s : Store) (r : Reading) : Store := (doFetchFreshPrice config s r).2

/-! ## 3. The reading before -/

/-- What a reading leaves in the price history, if it has a price. -/
def Reading.entry (r : Reading) : Option (Timed History) :=
  (aggregatedPrice r).map fun price => historyEntry price r.time

/-- The last of some readings that has a price, or what was there before them. -/
def lastReading (s : Store) (before : List Reading) : Option (Timed History) :=
  ((before.filterMap Reading.entry).getLast?).or s.history

/-- The price jumps from the last reading, if that was within the hour. -/
def Anomalous (last : Option (Timed History)) (now : ℕ) (price : ℚ) : Prop :=
  ∃ history, Timed.readAt now last = some history ∧ 0 < history.price ∧
    config.anomalyThresholdPercent.val < changePercent history.price price

/-- The cached price can be read. -/
def HasCached (s : Store) (now : ℕ) (cached : CachedPrice) : Prop :=
  Timed.readAt now s.cached = some cached ∧ cached.price ≠ 0

/-- A reading is judged against the last one: if it jumps it is rejected and the cached price stays, and
otherwise it is accepted.  It is then the measure itself, so that its price is no jump when it comes
again. -/
structure Judged (last : Option (Timed History)) (s : Store) (r : Reading) : Prop where
  measure : s.history = last
  rejected : ∀ price, aggregatedPrice r = some price → Anomalous config last r.time price →
    ∀ cached, HasCached s r.time cached → (fetch config s r).cached = s.cached ∧
      (doFetchFreshPrice config s r).1.price_usd = some cached.price
  accepted : ∀ price, aggregatedPrice r = some price → ¬ Anomalous config last r.time price →
    (doFetchFreshPrice config s r).1.price_usd = some price ∧
      ∃ e, (fetch config s r).cached = some e ∧ e.value.price = price
  again : 0 ≤ config.anomalyThresholdPercent.val → ∀ price, aggregatedPrice r = some price →
    ∀ t, ¬ Anomalous config (fetch config s r).history t price

section Readings

variable {config} {s : Store} {r : Reading} {price : ℚ}

theorem detectAnomaly_iff (now : ℕ) :
    (detectAnomaly config s price now).1 = true ↔ Anomalous config s.history now price := by
  unfold Anomalous detectAnomaly
  dsimp only
  cases hread : Timed.readAt now s.history with
  | none => simp
  | some history =>
    simp only [Option.some.injEq, exists_eq_left']
    split
    · rename_i hle
      exact iff_of_false (by decide) fun h => absurd hle (not_le_of_gt h.1)
    · rename_i hpos
      rw [decide_eq_true_iff]
      exact (and_iff_right (lt_of_not_ge hpos)).symm

theorem fetch_of_none (h : aggregatedPrice r = none) : fetch config s r = s := by
  simp only [fetch, doFetchFreshPrice, h]

/-- A reading is remembered, whatever becomes of it. -/
theorem history_fetch (config : PriceConfig) (s : Store) (r : Reading) :
    (fetch config s r).history = r.entry.or s.history := by
  cases h : aggregatedPrice r with
  | none =>
    rw [fetch_of_none h, Reading.entry, h]
    rfl
  | some price =>
    simp only [fetch, doFetchFreshPrice, Reading.entry, h, Option.map_some, Option.some_or]
    split <;> rfl

/-- What a reading is judged against is the last one. -/
theorem history_run (config : PriceConfig) (s : Store) (before : List Reading) :
    (run (fetch config) s before).history = lastReading s before := by
  induction before generalizing s with
  | nil => rfl
  | cons r before ih =>
    rw [run_cons, ih, lastReading, lastReading, history_fetch]
    cases hentry : r.entry with
    | none => rw [List.filterMap_cons_none hentry, Option.none_or]
    | some e =>
      rw [List.filterMap_cons_some hentry, List.getLast?_cons]
      cases (before.filterMap Reading.entry).getLast? <;> rfl

theorem changePercent_self (price : ℚ) : changePercent price price = 0 := by
  have hzero : nearest 0 = 0 := if_pos rfl
  simp only [changePercent, sub_self, hzero, zero_div, abs_zero, zero_mul]

/-- A price is no jump from itself. -/
theorem not_anomalous_self (h : 0 ≤ config.anomalyThresholdPercent.val) (now t : ℕ) :
    ¬ Anomalous config (some (historyEntry price now)) t price := by
  rintro ⟨history, hread, -, hjump⟩
  obtain ⟨e, he, -, rfl⟩ := Timed.readAt_eq_some.mp hread
  obtain rfl := Option.some.inj he
  rw [show (historyEntry price now).value.price = price from rfl, changePercent_self] at hjump
  exact absurd hjump (not_lt_of_ge h)

/-- What a reading that is rejected is answered. -/
theorem fetch_of_rejected (hreject : config.anomalyAction = .reject) (h : aggregatedPrice r = some price)
    (hjump : Anomalous config s.history r.time price) {cached : CachedPrice}
    (hcached : HasCached s r.time cached) :
    (fetch config s r).cached = s.cached ∧
      (doFetchFreshPrice config s r).1.price_usd = some cached.price := by
  have hanomalous := (detectAnomaly_iff r.time).mpr hjump
  have hread : (Timed.readAt r.time s.cached).filter (fun cached => cached.price ≠ 0) = some cached := by
    rw [hcached.1, Option.filter_some, if_pos (decide_eq_true hcached.2)]
  have hsame : (detectAnomaly config s price r.time).2.cached = s.cached := rfl
  simp only [fetch, doFetchFreshPrice, h, hanomalous, hreject, hsame, and_self, if_true, hread]

/-- What a reading that is accepted leaves. -/
theorem fetch_of_accepted (h : aggregatedPrice r = some price)
    (hsteady : ¬ Anomalous config s.history r.time price) :
    (doFetchFreshPrice config s r).1.price_usd = some price ∧
      ∃ e, (fetch config s r).cached = some e ∧ e.value.price = price := by
  have hanomalous : (detectAnomaly config s price r.time).1 = false :=
    Bool.eq_false_iff.mpr (mt (detectAnomaly_iff r.time).mp hsteady)
  simp only [fetch, doFetchFreshPrice, h, hanomalous, Bool.false_eq_true, false_and, if_false,
    Option.some.injEq, exists_eq_left', and_self]

end Readings

/-! ## 4. Sequences of readings -/

/-- **Readings in reject mode**: in any sequence, each one is judged against the last before it that had a
price, whether that was accepted or rejected; a rejected one leaves the cached price alone. -/
theorem judged_run (config : PriceConfig) (hreject : config.anomalyAction = .reject) (s : Store)
    (before : List Reading) (r : Reading) :
    Judged config (lastReading s before) (run (fetch config) s before) r := by
  have hmeasure := history_run config s before
  generalize run (fetch config) s before = s' at *
  refine ⟨hmeasure, ?_, ?_, ?_⟩
  · intro price hprice hjump cached hcached
    rw [← hmeasure] at hjump
    exact fetch_of_rejected hreject hprice hjump hcached
  · intro price hprice hsteady
    rw [← hmeasure] at hsteady
    exact fetch_of_accepted hprice hsteady
  · intro hthreshold price hprice t
    rw [history_fetch, Reading.entry, hprice]
    exact not_anomalous_self hthreshold r.time t

theorem nearest_hundred : nearest (100 : ℕ) = (100 : ℕ) := by decide +kernel

theorem nearest_two_hundred : nearest (200 : ℕ) = (200 : ℕ) := by decide +kernel

/-- Reject mode with the default threshold. -/
def rejecting : PriceConfig := ⟨Double.ofNat 20 Double.nearest_twenty, .reject, 1, 300⟩

/-- A price that one source reports. -/
def reported (time : ℕ) (price : Double) : Reading := ⟨time, [⟨"stellar_dex", some price⟩]⟩

def hundred : Double := Double.ofNat 100 nearest_hundred

def twoHundred : Double := Double.ofNat 200 nearest_two_hundred

theorem judged_run_sample :
    Judged rejecting (lastReading ⟨none, none⟩ [reported 0 hundred])
      (run (fetch rejecting) ⟨none, none⟩ [reported 0 hundred]) (reported 60000 twoHundred) :=
  judged_run rejecting rfl ⟨none, none⟩ [reported 0 hundred] (reported 60000 twoHundred)

/-- A price of 200 after one of 100 is rejected and becomes the measure, and is accepted a minute later. -/
theorem accepted_again :
    let s := run (fetch rejecting) ⟨none, none⟩ [reported 0 hundred]
    let rejected := doFetchFreshPrice rejecting s (reported 60000 twoHundred)
    let repeated := doFetchFreshPrice rejecting rejected.2 (reported 120000 twoHundred)
    rejected.1.anomalous = true ∧ rejected.1.price_usd = some 100 ∧
      rejected.2.history.map (·.value.price) ≠ s.history.map (·.value.price) ∧
      repeated.1.anomalous = false ∧ repeated.1.price_usd = some 200 := by
  decide +kernel

end SmartDrop.Prices
