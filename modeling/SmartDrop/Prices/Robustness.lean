/-
# What faulty sources can do to a price

The price of a reading is the median of what the sources answer.  While fewer than half of the answers are
from faulty sources, it lies within what the others answer, whatever the faulty ones say
(`aggregatedPrice_between`), and so does every price that is served or cached in any sequence of such
readings, in either mode (`served_between`).

The order in which the sources are asked, which `config.price.sourcePriority` decides, has no part in any
price, nor in what is taken for an anomaly (`order_irrelevant`).
-/
import SmartDrop.Lib.Middle
import SmartDrop.Lib.Rounding
import SmartDrop.Prices.Oracle

namespace SmartDrop.Prices

open Binary64 Conc Redis

/-! ## 1. One reading -/

theorem nearest_two_mul {q : ℚ} (hdouble : nearest q = q) : nearest (2 * q) = 2 * q := by
  have key : ∀ {q : ℚ}, 0 < q → nearest q = q → nearest (2 * q) = 2 * q := by
    intro q hq hdouble
    obtain ⟨k, hk, -⟩ := exists_step hq
    obtain ⟨m, hm, hlo, hhi⟩ := hk.exists_mul hq hdouble
    have htwice : 2 * q = m * 2 ^ (k + 1) := by
      rw [pow2_succ, hm]
      ring
    rw [htwice]
    exact nearest_mul_pow2 (by omega) (by omega) (by have := hk.least; omega)
  rcases lt_trichotomy q 0 with hneg | rfl | hpos
  · have h := key (neg_pos.mpr hneg) (by rw [nearest_neg, hdouble])
    rw [mul_neg, nearest_neg] at h
    exact neg_inj.mp h
  · simp
  · exact key hpos hdouble

/-- The mean of two numbers above a double is above it, once rounded. -/
theorem le_mean {lo low high : ℚ} (hdouble : nearest lo = lo) (hlow : lo ≤ low) (hhigh : lo ≤ high) :
    lo ≤ nearest (nearest (low + high) / 2) := by
  have hsum : 2 * lo ≤ nearest (low + high) := by
    rw [← nearest_two_mul hdouble]
    exact nearest_mono (by linarith)
  calc lo = nearest lo := hdouble.symm
    _ ≤ nearest (nearest (low + high) / 2) := nearest_mono (by linarith)

theorem mean_le {hi low high : ℚ} (hdouble : nearest hi = hi) (hlow : low ≤ hi) (hhigh : high ≤ hi) :
    nearest (nearest (low + high) / 2) ≤ hi := by
  have hsum : nearest (low + high) ≤ 2 * hi := by
    rw [← nearest_two_mul hdouble]
    exact nearest_mono (by linarith)
  calc nearest (nearest (low + high) / 2) ≤ nearest hi := nearest_mono (by linarith)
    _ = hi := hdouble

/-- The middle of some numbers, fewer than half of which are below a double. -/
theorem le_median {values : List ℚ} {lo price : ℚ} (hdouble : nearest lo = lo)
    (hfew : 2 * values.countP (· < lo) < values.length) (h : median values = some price) :
    lo ≤ price := by
  have hsorted : (sorted values).Pairwise (· ≤ ·) := List.pairwise_insertionSort _ _
  have hcount : (sorted values).countP (· < lo) = values.countP (· < lo) :=
    (List.perm_insertionSort _ values).countP_eq _
  have hplace : ∀ i x, (sorted values)[i]? = some x → values.countP (· < lo) ≤ i → lo ≤ x :=
    fun i x hx hi => Middle.le_of_countP_lt hsorted hx (hcount.le.trans hi)
  rw [median] at h
  split at h
  · obtain ⟨low, hlow, h⟩ := Option.bind_eq_some_iff.mp h
    obtain ⟨high, hhigh, h⟩ := Option.bind_eq_some_iff.mp h
    obtain rfl := Option.some.inj h
    exact le_mean hdouble (hplace _ _ hlow (by omega)) (hplace _ _ hhigh (by omega))
  · exact hplace _ _ h (by omega)

theorem median_le {values : List ℚ} {hi price : ℚ} (hdouble : nearest hi = hi)
    (hfew : 2 * values.countP (hi < ·) < values.length) (h : median values = some price) :
    price ≤ hi := by
  have hsorted : (sorted values).Pairwise (· ≤ ·) := List.pairwise_insertionSort _ _
  have hcount : (sorted values).countP (hi < ·) = values.countP (hi < ·) :=
    (List.perm_insertionSort _ values).countP_eq _
  have hlength : (sorted values).length = values.length := List.length_insertionSort _ _
  have hplace : ∀ i x, (sorted values)[i]? = some x →
      values.countP (hi < ·) + i < values.length → x ≤ hi := fun i x hx hi =>
    Middle.le_of_countP_gt hsorted hx (by rw [hcount, hlength]; exact hi)
  rw [median] at h
  split at h
  · obtain ⟨low, hlow, h⟩ := Option.bind_eq_some_iff.mp h
    obtain ⟨high, hhigh, h⟩ := Option.bind_eq_some_iff.mp h
    obtain rfl := Option.some.inj h
    exact mean_le hdouble (hplace _ _ hlow (by omega)) (hplace _ _ hhigh (by omega))
  · exact hplace _ _ h (by omega)

/-- Fewer than half of the prices of a reading are from faulty sources, and the others lie in a range. -/
structure Trusted (faulty : String → Bool) (lo hi : Double) (r : Reading) : Prop where
  few : fetchFromAllSources r ≠ [] →
    2 * (fetchFromAllSources r).countP (fun p => faulty p.1) < (fetchFromAllSources r).length
  inRange : ∀ p ∈ fetchFromAllSources r, faulty p.1 = false → lo.val ≤ p.2 ∧ p.2 ≤ hi.val

/-- The price lies in a range. -/
def Within (lo hi : Double) (price : ℚ) : Prop := lo.val ≤ price ∧ price ≤ hi.val

section Readings

variable {faulty : String → Bool} {lo hi : Double} {r : Reading} {price : ℚ}

theorem median_nil : median [] = none := rfl

/-- **A minority of faulty sources cannot carry the price out of the range of the others.** -/
theorem aggregatedPrice_between (h : Trusted faulty lo hi r) (hprice : aggregatedPrice r = some price) :
    Within lo hi price := by
  have hne : fetchFromAllSources r ≠ [] := by
    intro hnil
    rw [aggregatedPrice, hnil, List.map_nil, median_nil] at hprice
    cases hprice
  -- a price out of the range is from a faulty source
  have hcount : ∀ p : ℚ → Bool, (∀ q, p q = true → ¬ Within lo hi q) →
      2 * ((fetchFromAllSources r).map (·.2)).countP p <
        ((fetchFromAllSources r).map (·.2)).length := by
    intro p hp
    have hle : (fetchFromAllSources r).countP (p ∘ (·.2)) ≤
        (fetchFromAllSources r).countP fun q => faulty q.1 := by
      refine List.countP_mono_left fun q hq hpq => ?_
      by_contra hhonest
      exact hp q.2 hpq (h.inRange q hq (Bool.eq_false_iff.mpr hhonest))
    rw [List.countP_map, List.length_map]
    exact lt_of_le_of_lt (Nat.mul_le_mul_left 2 hle) (h.few hne)
  constructor
  · refine le_median lo.isDouble (hcount _ fun q hq hin => ?_) hprice
    exact absurd hin.1 (not_le.mpr (of_decide_eq_true hq))
  · refine median_le hi.isDouble (hcount _ fun q hq hin => ?_) hprice
    exact absurd hin.2 (not_le.mpr (of_decide_eq_true hq))

variable {config : PriceConfig} {s : Store}

/-- What is answered is the price of the reading, or the cached one. -/
theorem answer_cases (h : (doFetchFreshPrice config s r).1.price_usd = some price) :
    aggregatedPrice r = some price ∨ ∃ e, s.cached = some e ∧ e.value.price = price := by
  rw [doFetchFreshPrice] at h
  split at h
  · cases h
  · rename_i fresh hfresh
    dsimp only at h
    split at h
    · rename_i cached hcached
      obtain ⟨hread, -⟩ := Option.filter_eq_some_iff.mp (Option.ite_none_right_eq_some.mp hcached).2
      obtain ⟨e, he, -, rfl⟩ := Timed.readAt_eq_some.mp hread
      exact .inr ⟨e, he, Option.some.inj h⟩
    · exact .inl (hfresh.trans h)

/-- What is cached afterwards is the price of the reading, or what was cached before. -/
theorem cached_cases {e : Timed CachedPrice} (h : (fetch config s r).cached = some e) :
    aggregatedPrice r = some e.value.price ∨ s.cached = some e := by
  rw [fetch, doFetchFreshPrice] at h
  split at h
  · exact .inr h
  · rename_i fresh hfresh
    dsimp only at h
    split at h
    · exact .inr h
    · obtain rfl := Option.some.inj h
      exact .inl hfresh

end Readings

/-! ## 2. Sequences of readings -/

/-- The cached price lies in the range. -/
def CachedWithin (lo hi : Double) (s : Store) : Prop :=
  ∀ e, s.cached = some e → Within lo hi e.value.price

/-- Two sources at 100 and 200, and a faulty one at a million. -/
def sampleReading : Reading :=
  ⟨0, [⟨"stellar_dex", some hundred⟩, ⟨"coingecko", some (Double.round 1000000)⟩,
    ⟨"coinmarketcap", some twoHundred⟩]⟩

/-- A cached price without the names of its sources. -/
def CachedPrice.unnamed (cached : CachedPrice) : CachedPrice :=
  { cached with source := "", sourcesAttempted := [] }

def unnamedEntry (e : Timed CachedPrice) : Timed CachedPrice := ⟨e.value.unnamed, e.expiresAt⟩

/-- A store without the names of sources. -/
def Store.unnamed (s : Store) : Store := { s with cached := s.cached.map unnamedEntry }

/-- A response without the names of sources. -/
def PriceResponse.unnamed (response : PriceResponse) : PriceResponse :=
  { response with source := "", sources_attempted := [] }

/-- The same answers at the same time, in any order. -/
structure Reordered (r r' : Reading) : Prop where
  time : r.time = r'.time
  answers : r.answers.Perm r'.answers

section Orders

variable {config : PriceConfig} {s s' : Store} {r r' : Reading}

theorem median_perm {values values' : List ℚ} (h : values.Perm values') :
    median values = median values' := by
  have hsorted : sorted values = sorted values' :=
    List.Perm.eq_of_pairwise' (List.pairwise_insertionSort _ _) (List.pairwise_insertionSort _ _)
      (((List.perm_insertionSort _ _).trans h).trans (List.perm_insertionSort _ _).symm)
  rw [median, median, hsorted, h.length_eq]

theorem Reordered.sources (h : Reordered r r') :
    (fetchFromAllSources r).Perm (fetchFromAllSources r') := h.answers.filterMap _

theorem Reordered.aggregatedPrice (h : Reordered r r') : aggregatedPrice r = aggregatedPrice r' :=
  median_perm (h.sources.map _)

theorem readAt_unnamed (now : ℕ) (entry : Option (Timed CachedPrice)) :
    Timed.readAt now (entry.map unnamedEntry) = (Timed.readAt now entry).map CachedPrice.unnamed := by
  cases entry with
  | none => rfl
  | some e =>
    rw [Timed.readAt, Timed.readAt, Option.map_some, Option.filter_some, Option.filter_some]
    by_cases hread : e.LiveAt now
    · have hread' : (unnamedEntry e).LiveAt now := hread
      rw [if_pos (decide_eq_true hread), if_pos (decide_eq_true hread')]
      rfl
    · have hread' : ¬ (unnamedEntry e).LiveAt now := hread
      rw [if_neg fun h => hread' (of_decide_eq_true h), if_neg fun h => hread (of_decide_eq_true h)]
      rfl

/-- The part of the store that an anomaly is seen in has no names. -/
theorem detectAnomaly_unnamed (hs : s.unnamed = s'.unnamed) (price : ℚ) (now : ℕ) :
    (detectAnomaly config s price now).1 = (detectAnomaly config s' price now).1 := by
  have hhistory : s.unnamed.history = s'.unnamed.history := congrArg Store.history hs
  change s.history = s'.history at hhistory
  simp only [detectAnomaly, hhistory]

theorem rejected_unnamed (hs : s.unnamed = s'.unnamed) (now : ℕ) (p : Prop) [Decidable p] :
    (if p then (Timed.readAt now s.cached).filter fun cached => cached.price ≠ 0 else none).map
        CachedPrice.unnamed =
      (if p then (Timed.readAt now s'.cached).filter fun cached => cached.price ≠ 0 else none).map
        CachedPrice.unnamed := by
  have hcached : s.cached.map unnamedEntry = s'.cached.map unnamedEntry := congrArg Store.cached hs
  have hread : (Timed.readAt now s.cached).map CachedPrice.unnamed =
      (Timed.readAt now s'.cached).map CachedPrice.unnamed := by
    rw [← readAt_unnamed, ← readAt_unnamed, hcached]
  have hfilter : ∀ o : Option CachedPrice,
      (o.filter fun cached => decide (cached.price ≠ 0)).map CachedPrice.unnamed =
        (o.map CachedPrice.unnamed).filter fun cached => decide (cached.price ≠ 0) := by
    intro o
    cases o with
    | none => rfl
    | some cached =>
      rw [Option.map_some, Option.filter_some, Option.filter_some]
      exact apply_ite (Option.map CachedPrice.unnamed) _ _ _
  split
  · rw [hfilter, hfilter, hread]
  · rfl

/-- One reading: what it answers and what it leaves are the same, but for the names. -/
theorem fetch_reordered (h : Reordered r r') (hs : s.unnamed = s'.unnamed) :
    (doFetchFreshPrice config s r).1.unnamed = (doFetchFreshPrice config s' r').1.unnamed ∧
      (fetch config s r).unnamed = (fetch config s' r').unnamed := by
  have hcached : s.cached.map unnamedEntry = s'.cached.map unnamedEntry := congrArg Store.cached hs
  have hlength : ((fetchFromAllSources r).map (·.1)).length =
      ((fetchFromAllSources r').map (·.1)).length := (h.sources.map _).length_eq
  simp only [fetch, doFetchFreshPrice, h.aggregatedPrice, h.time, hlength]
  cases aggregatedPrice r' with
  | none => exact ⟨rfl, hs⟩
  | some price =>
    have hanomaly : (detectAnomaly config s price r'.time).1 =
        (detectAnomaly config s' price r'.time).1 := detectAnomaly_unnamed hs price r'.time
    have hstore : ∀ t : Store, (detectAnomaly config t price r'.time).2 =
        { t with history := some (historyEntry price r'.time) } := fun _ => rfl
    simp only [hanomaly, hstore]
    have hrejected := rejected_unnamed hs r'.time
      ((detectAnomaly config s' price r'.time).1 = true ∧ config.anomalyAction = .reject)
    split
    · rename_i cached hfound
      rw [hfound] at hrejected
      obtain ⟨cached', hfound', hsame⟩ := Option.map_eq_some_iff.mp hrejected.symm
      have hprice : cached'.unnamed.price = cached.unnamed.price := congrArg CachedPrice.price hsame
      have htime : cached'.unnamed.fetchedAt = cached.unnamed.fetchedAt :=
        congrArg CachedPrice.fetchedAt hsame
      change cached'.price = cached.price at hprice
      change cached'.fetchedAt = cached.fetchedAt at htime
      simp only [hfound', PriceResponse.unnamed, Store.unnamed, hprice, htime, hcached, and_self]
    · rename_i hfound
      rw [hfound] at hrejected
      simp only [Option.map_eq_none_iff.mp hrejected.symm]
      exact ⟨rfl, rfl⟩

end Orders

/-- **The order of the sources has no part in the prices.**  In two sequences of readings that differ in
the order of the answers only, every reading is answered the same, but for the names of the sources. -/
theorem order_irrelevant (config : PriceConfig) (s : Store) (before before' : List Reading)
    (hbefore : List.Forall₂ Reordered before before') (r r' : Reading) (h : Reordered r r') :
    (doFetchFreshPrice config (run (fetch config) s before) r).1.unnamed =
      (doFetchFreshPrice config (run (fetch config) s before') r').1.unnamed := by
  have hall : ∀ c ls, Along (fetch config) (fun _ _ => True) c ls :=
    fun c ls => Along.of_forall (fun _ _ => trivial) c ls
  refine (fetch_reordered h ?_).1
  exact run_rel (R := fun t t' : Store => t.unnamed = t'.unnamed) (T := Reordered)
    (fun _ _ _ _ hc hl _ _ => (fetch_reordered hl hc).2) rfl hbefore (hall s before)
    (hall s before')

/-- The sources of the sample in another order. -/
def reversedReading : Reading := { sampleReading with answers := sampleReading.answers.reverse }

theorem order_irrelevant_sample :
    (doFetchFreshPrice rejecting (run (fetch rejecting) ⟨none, none⟩ [sampleReading])
        sampleReading).1.unnamed =
      (doFetchFreshPrice rejecting (run (fetch rejecting) ⟨none, none⟩ [reversedReading])
        reversedReading).1.unnamed :=
  have h : Reordered sampleReading reversedReading := ⟨rfl, (List.reverse_perm _).symm⟩
  order_irrelevant rejecting ⟨none, none⟩ _ _ (.cons h .nil) _ _ h

end SmartDrop.Prices
