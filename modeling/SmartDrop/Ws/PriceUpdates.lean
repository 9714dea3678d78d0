/-
# Price updates

`notifyPriceUpdates` and `_broadcast` in `ws/PriceSubscriptionManager.js`.  After every refresh cycle the
manager gets the prices of the cycle and tells the subscribers of an asset of a change of more than a tenth
of a percent.

The price before is the last one of the asset in any cycle, whether or not anybody was told of it
(`previousPrices_run`).  So every single change is told or not as its size says (`told_exact`), and a price
that moves by small steps gets anywhere without a word (`drift_not_told`).

Which sockets are open and send what they are given is a choice of the environment; prices are finite, and
a cycle takes no time.
-/
import SmartDrop.Lib.NumberOrder
import SmartDrop.Ws.Consistency

namespace SmartDrop.Ws

open Binary64 Conc JsonText
open Redis (RSet)

/-! ## 1. The source -/

def PRICE_CHANGE_THRESHOLD_PCT : ℚ := nearest (1 / 10)

/-- A value of `freshPrices`. -/
structure FreshPrice where
  price : Double
  source : String

/-- The message `price_update`. -/
structure PriceUpdate where
  asset : String
  price_usd : ℚ
  previous_price_usd : ℚ
  change_pct : ℚ
  source : String
  timestamp : ℕ
deriving DecidableEq

/-- `((price - prev) / prev) * 100`. -/
def changePct (price prev : ℚ) : ℚ := nearest (nearest (nearest (price - prev) / prev) * 100)

/-- `parseFloat(x.toFixed(4))`, which is `x` itself from 10²¹ on. -/
def toFixed4 (x : ℚ) : ℚ :=
  if 10 ^ 21 ≤ |x| then x
  else if x < 0 then -nearest (fixed 4 (-x) / 10 ^ 4)
  else nearest (fixed 4 x / 10 ^ 4)

/-- The change is one to tell of. -/
def Changed (price prev : ℚ) : Prop := 0 < prev ∧ PRICE_CHANGE_THRESHOLD_PCT < |changePct price prev|

instance (price prev : ℚ) : Decidable (Changed price prev) := inferInstanceAs (Decidable (_ ∧ _))

/-- The message of a change. -/
def priceUpdate (asset : String) (fresh : FreshPrice) (prev : ℚ) (now : ℕ) : PriceUpdate where
  asset
  price_usd := fresh.price.val
  previous_price_usd := prev
  change_pct := toFixed4 (changePct fresh.price.val prev)
  source := fresh.source
  timestamp := now

/-- A manager with the prices of the cycles so far. -/
structure Board (ω : Type) where
  manager : Manager ω
  previousPrices : JsMap String Double

/-- A refresh cycle, and which sockets are open and send the message of an asset. -/
structure Cycle (ω : Type) where
  freshPrices : JsMap String FreshPrice
  delivers : ω → String → Bool
  now : ℕ

namespace Board

variable {ω : Type}

/-- `_broadcast`: who gets the message. -/
def broadcast (m : Manager ω) (c : Cycle ω) (payload : PriceUpdate) : List (ω × PriceUpdate) :=
  match m.assetSubscribers.get? payload.asset with
  | none => []
  | some subscribers =>
    (subscribers.members.filter fun ws => c.delivers ws payload.asset).map fun ws => (ws, payload)

/-- One asset of a cycle: who is told what, and the prices afterwards. -/
def notifyPrice (m : Manager ω) (c : Cycle ω) (previousPrices : JsMap String Double)
    (asset : String) (fresh : FreshPrice) : List (ω × PriceUpdate) × JsMap String Double :=
  (match previousPrices.get? asset with
    | none => []
    | some prev =>
      if Changed fresh.price.val prev.val then
        broadcast m c (priceUpdate asset fresh prev.val c.now)
      else [],
    previousPrices.set asset fresh.price)

/-- The loop of `notifyPriceUpdates` over the entries that are left. -/
def notifyPriceUpdates (m : Manager ω) (c : Cycle ω) (previousPrices : JsMap String Double) :
    List (String × FreshPrice) → List (ω × PriceUpdate) × JsMap String Double
  | [] => ([], previousPrices)
  | (asset, fresh) :: entries =>
    let first := notifyPrice m c previousPrices asset fresh
    let rest := notifyPriceUpdates m c first.2 entries
    (first.1 ++ rest.1, rest.2)

/-- What is told in a cycle, and to whom. -/
def told (b : Board ω) (c : Cycle ω) : List (ω × PriceUpdate) :=
  (notifyPriceUpdates b.manager c b.previousPrices c.freshPrices.entries).1

/-- A board of a new manager. -/
def new : Board ω := ⟨.new, .empty⟩

end Board

/-- What happens to a board. -/
inductive Tick (ω : Type) where
  | event (e : Manager.Event ω)
  | cycle (c : Cycle ω)

namespace Board

variable {ω : Type} [DecidableEq ω] (config : Config)

/-- The board after a tick. -/
def step (b : Board ω) : Tick ω → Board ω
  | .event e => { b with manager := b.manager.step config e }
  | .cycle c => { b with
      previousPrices := (notifyPriceUpdates b.manager c b.previousPrices c.freshPrices.entries).2 }

/-! ## 2. One cycle -/

section Cycles

omit [DecidableEq ω]

variable {m : Manager ω} {c : Cycle ω} {previous : JsMap String Double}

theorem mem_broadcast {payload u : PriceUpdate} {ws : ω} :
    (ws, u) ∈ broadcast m c payload ↔
      (∃ subs, m.assetSubscribers.get? payload.asset = some subs ∧ ws ∈ subs) ∧
        c.delivers ws payload.asset = true ∧ u = payload := by
  rw [broadcast]
  cases m.assetSubscribers.get? payload.asset with
  | none => simp
  | some subs =>
    simp only [List.mem_map, List.mem_filter, Prod.mk.injEq, Option.some.injEq, exists_eq_left',
      ← RSet.mem_members]
    constructor
    · rintro ⟨w, ⟨hw, hdelivers⟩, rfl, rfl⟩
      exact ⟨hw, hdelivers, rfl⟩
    · rintro ⟨hw, hdelivers, rfl⟩
      exact ⟨ws, ⟨hw, hdelivers⟩, rfl, rfl⟩

/-- What a socket is told of an asset with this price now and that price before. -/
def Tells (m : Manager ω) (c : Cycle ω) (ws : ω) (u : PriceUpdate) (fresh : FreshPrice)
    (prev : Double) : Prop :=
  Changed fresh.price.val prev.val ∧
    (∃ subs, m.assetSubscribers.get? u.asset = some subs ∧ ws ∈ subs) ∧
    c.delivers ws u.asset = true ∧ u = priceUpdate u.asset fresh prev.val c.now

theorem mem_notifyPrice {asset : String} {fresh : FreshPrice} {ws : ω} {u : PriceUpdate} :
    (ws, u) ∈ (notifyPrice m c previous asset fresh).1 ↔
      u.asset = asset ∧ ∃ prev, previous.get? asset = some prev ∧ Tells m c ws u fresh prev := by
  rw [notifyPrice]
  cases previous.get? asset with
  | none => simp
  | some prev =>
    simp only [Option.some.injEq, exists_eq_left']
    by_cases hchanged : Changed fresh.price.val prev.val
    · rw [if_pos hchanged, mem_broadcast]
      constructor
      · rintro ⟨hsubs, hdelivers, rfl⟩
        exact ⟨rfl, hchanged, hsubs, hdelivers, rfl⟩
      · rintro ⟨rfl, -, hsubs, hdelivers, hu⟩
        exact ⟨hsubs, hdelivers, hu⟩
    · rw [if_neg hchanged]
      exact iff_of_false List.not_mem_nil fun h => hchanged h.2.1

/-- The entries of a cycle are told independently of each other, their assets being different. -/
theorem mem_notifyPriceUpdates {entries : List (String × FreshPrice)}
    (hnodup : (entries.map Prod.fst).Nodup) {ws : ω} {u : PriceUpdate} :
    (ws, u) ∈ (notifyPriceUpdates m c previous entries).1 ↔
      ∃ fresh prev, (u.asset, fresh) ∈ entries ∧ previous.get? u.asset = some prev ∧
        Tells m c ws u fresh prev := by
  induction entries generalizing previous with
  | nil => simp [notifyPriceUpdates]
  | cons e entries ih =>
    obtain ⟨asset, fresh⟩ := e
    obtain ⟨hnew, hnodup⟩ := List.nodup_cons.mp hnodup
    rw [notifyPriceUpdates, List.mem_append, ih hnodup, mem_notifyPrice]
    have hsame : ∀ fresh', (u.asset, fresh') ∈ entries →
        (notifyPrice m c previous asset fresh).2.get? u.asset = previous.get? u.asset := by
      intro fresh' hmem
      refine JsMap.get?_set_of_ne fun he => hnew ?_
      exact he ▸ List.mem_map.mpr ⟨_, hmem, rfl⟩
    constructor
    · rintro (⟨rfl, prev, hprev, htells⟩ | ⟨fresh', prev, hmem, hprev, htells⟩)
      · exact ⟨fresh, prev, List.mem_cons_self, hprev, htells⟩
      · exact ⟨fresh', prev, List.mem_cons_of_mem _ hmem, hsame fresh' hmem ▸ hprev, htells⟩
    · rintro ⟨fresh', prev, hmem, hprev, htells⟩
      rcases List.mem_cons.mp hmem with he | hmem
      · obtain ⟨rfl, rfl⟩ := Prod.mk.inj he
        exact .inl ⟨rfl, prev, hprev, htells⟩
      · exact .inr ⟨fresh', prev, hmem, (hsame fresh' hmem).trans hprev, htells⟩

theorem nodup_notifyPrice {asset : String} {fresh : FreshPrice} :
    ((notifyPrice m c previous asset fresh).1.map fun p => (p.1, p.2.asset)).Nodup := by
  rw [notifyPrice]
  cases previous.get? asset with
  | none => exact List.nodup_nil
  | some prev =>
    dsimp only
    split
    · rw [broadcast]
      split
      · exact List.nodup_nil
      · rename_i subs _
        rw [List.map_map]
        exact (subs.nodup.filter _).map fun a b h => (Prod.mk.inj h).1
    · exact List.nodup_nil

/-- The price of an asset is the one of the cycle, where it has one. -/
theorem get?_notifyPriceUpdates {entries : List (String × FreshPrice)}
    (hnodup : (entries.map Prod.fst).Nodup) (asset : String) :
    (notifyPriceUpdates m c previous entries).2.get? asset =
      ((JsMap.find asset entries).map FreshPrice.price).or (previous.get? asset) := by
  induction entries generalizing previous with
  | nil => rfl
  | cons e entries ih =>
    obtain ⟨a, fresh⟩ := e
    obtain ⟨hnew, hnodup⟩ := List.nodup_cons.mp hnodup
    rw [notifyPriceUpdates, ih hnodup, JsMap.find]
    change _ = ((if a = asset then some fresh else JsMap.find asset entries).map _).or _
    by_cases ha : a = asset
    · subst ha
      have hnone : JsMap.find a entries = none := by
        rw [← Option.not_isSome_iff_eq_none, JsMap.find_isSome]
        exact hnew
      rw [hnone, if_pos rfl]
      exact JsMap.get?_set_self
    · rw [if_neg ha]
      exact congrArg _ (JsMap.get?_set_of_ne fun he => ha he.symm)

/-- Nobody is told twice of an asset in a cycle. -/
theorem nodup_notifyPriceUpdates {entries : List (String × FreshPrice)}
    (hnodup : (entries.map Prod.fst).Nodup) :
    ((notifyPriceUpdates m c previous entries).1.map fun p => (p.1, p.2.asset)).Nodup := by
  induction entries generalizing previous with
  | nil => exact List.nodup_nil
  | cons e entries ih =>
    obtain ⟨asset, fresh⟩ := e
    obtain ⟨hnew, hnodup⟩ := List.nodup_cons.mp hnodup
    rw [notifyPriceUpdates, List.map_append]
    refine List.nodup_append.mpr ⟨nodup_notifyPrice, ih hnodup, ?_⟩
    rintro p hp q hq rfl
    obtain ⟨⟨ws, u⟩, hu, rfl⟩ := List.mem_map.mp hp
    obtain ⟨⟨w, v⟩, hv, he⟩ := List.mem_map.mp hq
    obtain ⟨rfl, hasset⟩ := Prod.mk.inj he
    obtain ⟨fresh', -, hmem, -⟩ := (mem_notifyPriceUpdates hnodup).mp hv
    rw [show v.asset = asset from hasset.trans (mem_notifyPrice.mp hu).1] at hmem
    exact hnew (List.mem_map.mpr ⟨_, hmem, rfl⟩)

end Cycles

/-! ## 3. Runs -/

/-- The manager's part of a run. -/
def events (ts : List (Tick ω)) : List (Manager.Event ω) :=
  ts.filterMap fun t => match t with
    | .event e => some e
    | .cycle _ => none

/-- The price of an asset in a tick. -/
def priceIn (asset : String) : Tick ω → Option Double
  | .event _ => none
  | .cycle c => (c.freshPrices.get? asset).map FreshPrice.price

/-- The prices of an asset in the cycles of a run. -/
def prices (asset : String) (ts : List (Tick ω)) : List Double := ts.filterMap (priceIn asset)

theorem manager_run (b : Board ω) (ts : List (Tick ω)) :
    (run (step config) b ts).manager = run (Manager.step config) b.manager (events ts) := by
  induction ts generalizing b with
  | nil => rfl
  | cons t ts ih =>
    rw [run_cons, ih]
    cases t <;> rfl

/-- **What a price is compared with**: the last price of the asset in any cycle. -/
theorem previousPrices_run (b : Board ω) (ts : List (Tick ω)) (asset : String) :
    (run (step config) b ts).previousPrices.get? asset =
      ((prices asset ts).getLast?).or (b.previousPrices.get? asset) := by
  induction ts generalizing b with
  | nil => rfl
  | cons t ts ih =>
    rw [run_cons, ih, prices, prices]
    cases t with
    | event e => rfl
    | cycle c =>
      have hafter : (step config b (.cycle c)).previousPrices.get? asset =
          (priceIn asset (.cycle c)).or (b.previousPrices.get? asset) :=
        get?_notifyPriceUpdates c.freshPrices.nodup asset
      rw [hafter]
      cases hprice : priceIn asset (.cycle c) with
      | none => rw [List.filterMap_cons_none hprice, Option.none_or]
      | some price =>
        rw [List.filterMap_cons_some hprice, List.getLast?_cons]
        cases (ts.filterMap (priceIn asset)).getLast? <;> rfl

/-- A run that keeps everything in step, of sockets that are each added once. -/
structure KeepsStep (config : Config) (ts : List (Tick ω)) : Prop where
  once : (Manager.added (events ts)).Nodup
  inStep : Along (Manager.step config) Manager.InStep Manager.new (events ts)

variable {config}

theorem KeepsStep.consistent {ts : List (Tick ω)} (h : KeepsStep config ts) :
    (run (step config) new ts).manager.Consistent config := by
  rw [manager_run]
  have hfresh : Along (Manager.step config) Manager.Fresh Manager.new (events ts) :=
    Manager.fresh_of_nodup h.once fun ws hws => by simp [Manager.new] at hws
  have hinv := run_inv (I := fun m : Manager ω => m.Consistent config ∧ m.Registered)
    (fun m e hm he => ⟨(Manager.step_consistent_iff hm.1 hm.2 he.1).mpr he.2,
      Manager.step_registered hm.1 hm.2 he.1⟩)
    ⟨Manager.new_consistent, rfl⟩ (hfresh.and h.inStep)
  exact hinv.1

/-- **What is told in a cycle, after any run that keeps the indexes in step.**  A socket is told of an
asset exactly if it is subscribed to it, its message goes out, the asset has had a price before this one,
and the last such price was more than the threshold away; and it is told once. -/
theorem told_exact (ts : List (Tick ω)) (h : KeepsStep config ts) (c : Cycle ω) :
    (∀ ws u, (ws, u) ∈ (run (step config) new ts).told c ↔
      ∃ fresh prev, c.freshPrices.get? u.asset = some fresh ∧
        (prices u.asset ts).getLast? = some prev ∧ Changed fresh.price.val prev.val ∧
        (run (step config) new ts).manager.Subscribed ws u.asset ∧
        c.delivers ws u.asset = true ∧ u = priceUpdate u.asset fresh prev.val c.now) ∧
      (((run (step config) new ts).told c).map fun p => (p.1, p.2.asset)).Nodup := by
  have hindexes := h.consistent.indexes
  refine ⟨fun ws u => ?_, nodup_notifyPriceUpdates c.freshPrices.nodup⟩
  rw [told, mem_notifyPriceUpdates c.freshPrices.nodup]
  have hlast : (run (step config) new ts).previousPrices.get? u.asset =
      (prices u.asset ts).getLast? := by
    rw [previousPrices_run, new, JsMap.get?_empty, Option.or_none]
  simp only [Tells, hlast, hindexes.mem_iff]
  constructor
  · rintro ⟨fresh, prev, hmem, hprev, htells⟩
    exact ⟨fresh, prev, JsMap.find_of_mem c.freshPrices.nodup hmem, hprev, htells⟩
  · rintro ⟨fresh, prev, hget, hprev, htells⟩
    exact ⟨fresh, prev, JsMap.mem_of_find hget, hprev, htells⟩

/-- A price of whole units, as far as these are doubles. -/
def units (n : ℕ) : Double :=
  if h : n < 2 ^ 53 then .ofNat n (JsNumber.nearest_natCast h) else .ofNat 10 Double.nearest_ten

/-- A cycle with one asset, which every socket is told of. -/
def cycleOf (asset : String) (price now : ℕ) : Cycle ω :=
  ⟨JsMap.empty.set asset ⟨units price, "stellar_dex"⟩, fun _ _ => true, now⟩

/-- A socket subscribes to `XLM`, which has a price of 100 units. -/
def sampleTicks : List (Tick ℕ) :=
  [.event (.add 0 Manager.sampleRequest), .event (.message 0 (some (Manager.subscribeTo [.str "XLM"]))),
    .cycle (cycleOf "XLM" 100 0)]

theorem told_exact_sample :
    (∀ ws u, (ws, u) ∈ (run (step ⟨100, 5⟩) new sampleTicks).told (cycleOf "XLM" 200 60) ↔
      ∃ fresh prev, (cycleOf "XLM" 200 60 : Cycle ℕ).freshPrices.get? u.asset = some fresh ∧
        (prices u.asset sampleTicks).getLast? = some prev ∧ Changed fresh.price.val prev.val ∧
        (run (step ⟨100, 5⟩) new sampleTicks).manager.Subscribed ws u.asset ∧
        (cycleOf "XLM" 200 60 : Cycle ℕ).delivers ws u.asset = true ∧
        u = priceUpdate u.asset fresh prev.val 60) ∧
      (((run (step ⟨100, 5⟩) new sampleTicks).told (cycleOf "XLM" 200 60)).map
        fun p => (p.1, p.2.asset)).Nodup :=
  told_exact sampleTicks ⟨by decide, by decide⟩ (cycleOf "XLM" 200 60)

/-! ## 4. Small steps -/

/-- One unit is no change of 2000 units or more. -/
theorem not_changed_succ {n : ℕ} (hn : 2000 ≤ n) : ¬ Changed ((n + 1 : ℕ) : ℚ) (n : ℕ) := by
  rintro ⟨-, hjump⟩
  have hpos : (0 : ℚ) < n := by exact_mod_cast (by omega : 0 < n)
  have hone : nearest (((n + 1 : ℕ) : ℚ) - (n : ℕ)) = 1 := by
    rw [Nat.cast_succ, add_sub_cancel_left, JsNumber.nearest_one]
  rw [changePct, hone] at hjump
  have hratio : (1 : ℚ) / n ≤ 1 / 2000 :=
    one_div_le_one_div_of_le (by norm_num) (by exact_mod_cast hn)
  have hnonneg : 0 ≤ nearest (nearest (1 / (n : ℚ)) * 100) :=
    nearest_nonneg (mul_nonneg (nearest_nonneg (by positivity)) (by norm_num))
  have hsmall : nearest (nearest (1 / (n : ℚ)) * 100) ≤ nearest (nearest (1 / 2000) * 100) :=
    nearest_mono (mul_le_mul_of_nonneg_right (nearest_mono hratio) (by norm_num))
  have hthreshold : nearest (nearest (1 / 2000) * 100) ≤ PRICE_CHANGE_THRESHOLD_PCT := by
    decide +kernel
  rw [abs_of_nonneg hnonneg] at hjump
  exact absurd hjump (not_lt_of_ge (hsmall.trans hthreshold))

/-- A price of `n` units that rises by one unit, so many times. -/
def rising (n steps : ℕ) : List ℚ := (List.range steps).map fun i => ((n + i + 1 : ℕ) : ℚ)

theorem rising_split {n steps : ℕ} {before after : List ℚ} {price : ℚ}
    (h : before ++ price :: after = rising n steps) :
    before = rising n before.length ∧ price = ((n + before.length + 1 : ℕ) : ℚ) := by
  have hlength : before.length < steps := by
    have hlengths := congrArg List.length h
    simp only [rising, List.length_append, List.length_cons, List.length_map, List.length_range]
      at hlengths
    omega
  constructor
  · have htake := congrArg (List.take before.length) h
    rwa [List.take_left, rising, ← List.map_take, List.take_range, Nat.min_eq_left hlength.le]
      at htake
  · have hget := congrArg (fun l => l[before.length]?) h
    simpa [rising, hlength] using hget

/-- The price after it has risen. -/
theorem previous_rising (b : Board ω) {asset : String} {n steps : ℕ}
    (hstart : (b.previousPrices.get? asset).map Double.val = some (n : ℚ)) {ts : List (Tick ω)}
    (hts : (prices asset ts).map Double.val = rising n steps) :
    ((run (step config) b ts).previousPrices.get? asset).map Double.val =
      some ((n + steps : ℕ) : ℚ) := by
  rw [previousPrices_run, Option.map_or, ← List.getLast?_map, hts, hstart]
  cases steps with
  | zero => rfl
  | succ steps => simp [rising, List.range_succ, Nat.add_assoc]

/-- **A price that moves by small steps is never told of.**  It stands at 2000 units or more, and every
cycle that has the asset has it one unit higher: then no cycle tells anybody of it, whatever else happens in
between, and whoever is subscribed. -/
theorem drift_not_told (b : Board ω) (asset : String) (n steps : ℕ) (hn : 2000 ≤ n)
    (hstart : (b.previousPrices.get? asset).map Double.val = some (n : ℚ)) (ts : List (Tick ω))
    (hts : (prices asset ts).map Double.val = rising n steps) :
    (∀ l₁ c l₂, ts = l₁ ++ .cycle c :: l₂ →
      ∀ p ∈ (run (step config) b l₁).told c, p.2.asset ≠ asset) ∧
      ((run (step config) b ts).previousPrices.get? asset).map Double.val =
        some ((n + steps : ℕ) : ℚ) := by
  refine ⟨?_, previous_rising b hstart hts⟩
  rintro l₁ c l₂ rfl ⟨ws, u⟩ hp rfl
  obtain ⟨fresh, prev, hmem, hprev, hchanged, -⟩ :=
    (mem_notifyPriceUpdates c.freshPrices.nodup).mp hp
  have hprice : priceIn u.asset (.cycle c : Tick ω) = some fresh.price :=
    congrArg (Option.map FreshPrice.price) (JsMap.find_of_mem c.freshPrices.nodup hmem)
  rw [prices, List.filterMap_append, List.filterMap_cons_some hprice, List.map_append,
    List.map_cons] at hts
  obtain ⟨hbefore, hnow⟩ := rising_split hts
  have hlast := @previous_rising _ _ config b _ _ _ hstart _ hbefore
  rw [hprev] at hlast
  rw [hnow, Option.some.inj hlast] at hchanged
  exact not_changed_succ (Nat.le_add_right_of_le hn) hchanged

/-- The cycles of such a rise. -/
def risingTicks (asset : String) (n steps : ℕ) : List (Tick ω) :=
  (List.range steps).map fun i => .cycle (cycleOf asset (n + i + 1) i)

omit [DecidableEq ω] in
theorem prices_risingTicks (asset : String) {n steps : ℕ} (h : n + steps < 2 ^ 53) :
    (prices asset (risingTicks asset n steps : List (Tick ω))).map Double.val = rising n steps := by
  have hprice : ∀ i ∈ List.range steps,
      priceIn asset (.cycle (cycleOf asset (n + i + 1) i) : Tick ω) = some (units (n + i + 1)) := by
    intro i _
    simp [priceIn, cycleOf]
  have hprices : prices asset (risingTicks asset n steps : List (Tick ω)) =
      (List.range steps).map fun i => units (n + i + 1) := by
    rw [prices, risingTicks, List.filterMap_map, ← List.filterMap_eq_map]
    exact List.filterMap_congr hprice
  rw [hprices, rising, List.map_map]
  refine List.map_congr_left fun i hi => ?_
  have hlt : n + i + 1 < 2 ^ 53 := by
    have := List.mem_range.mp hi
    omega
  change (units (n + i + 1)).val = _
  rw [units, dif_pos hlt]
  rfl

/-- A price of 2000 units doubles. -/
theorem drift_not_told_sample :
    (∀ l₁ c l₂, (risingTicks "XLM" 2000 2000 : List (Tick ℕ)) = l₁ ++ .cycle c :: l₂ →
      ∀ p ∈ (run (step ⟨100, 5⟩) (run (step ⟨100, 5⟩) new
        (sampleTicks ++ [.cycle (cycleOf "XLM" 2000 60)])) l₁).told c, p.2.asset ≠ "XLM") ∧
      ((run (step ⟨100, 5⟩) (run (step ⟨100, 5⟩) new
        (sampleTicks ++ [.cycle (cycleOf "XLM" 2000 60)]))
        (risingTicks "XLM" 2000 2000)).previousPrices.get? "XLM").map Double.val =
          some ((2000 + 2000 : ℕ) : ℚ) :=
  drift_not_told _ "XLM" 2000 2000 (Nat.le_refl _) (by decide +kernel) _
    (prices_risingTicks "XLM" (by norm_num))

end Board

end SmartDrop.Ws
