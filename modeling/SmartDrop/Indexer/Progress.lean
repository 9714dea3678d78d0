/-
# Progress of the poller

A full batch takes the cursor to the last ledger of the events that were recognised in it.  A full
batch of which nothing is recognised leaves the cursor where it is, and the next poll asks for the
same batch again.  The window of such a batch can neither be passed nor jumped over: a poll that
starts before it sees less than the whole of it.  So polling brings the cursor to the tip exactly
when there is no such window (`poll_progress_iff`).
-/
import SmartDrop.Indexer.Poller

namespace SmartDrop.Indexer

open Conc

variable {C : Codec} {opts : Options} {c : System C} {chain : List (RawEvent C.ScVal)}
  {now tip s s' : ℕ}

/-! ## 1. What is asked for -/

section Sorting

variable {α : Type} {r : α → α → Prop} [DecidableRel r] {p : α → Bool}

theorem filter_orderedInsert (hp : ∀ a b, r a b → p a → p b) {a : α} (ha : p a) (l : List α) :
    (l.orderedInsert r a).filter p = (l.filter p).orderedInsert r a := by
  induction l with
  | nil => simp [ha]
  | cons b l ih =>
    by_cases hab : r a b
    · simp [hab, ha, hp a b hab ha]
    · by_cases hb : p b
      · simp [hab, hb, ih]
      · simp [hab, hb, ih]

theorem filter_orderedInsert_of_not {a : α} (ha : ¬ p a) (l : List α) :
    (l.orderedInsert r a).filter p = l.filter p := by
  induction l with
  | nil => simp [ha]
  | cons b l ih =>
    by_cases hab : r a b
    · simp [hab, ha]
    · simp [hab, List.filter_cons, ih]

/-- Sorting keeps the order of what is left when the first elements are dropped. -/
theorem filter_insertionSort (hp : ∀ a b, r a b → p a → p b) (l : List α) :
    (l.insertionSort r).filter p = (l.filter p).insertionSort r := by
  induction l with
  | nil => rfl
  | cons a l ih =>
    by_cases ha : p a
    · rw [List.insertionSort_cons, filter_orderedInsert hp ha, ih, List.filter_cons_of_pos ha,
        List.insertionSort_cons]
    · rw [List.insertionSort_cons, filter_orderedInsert_of_not ha, ih, List.filter_cons_of_neg ha]

end Sorting

/-- The events from a later ledger on are the later ones of those from an earlier ledger on. -/
theorem filter_pending (h : s ≤ s') :
    (pending chain s).filter (fun e => s' ≤ e.ledger) = pending chain s' := by
  have hup : ∀ a b : RawEvent C.ScVal, a.ledger ≤ b.ledger → decide (s' ≤ a.ledger) = true →
      decide (s' ≤ b.ledger) = true := by
    intro a b hab ha
    rw [decide_eq_true_eq] at ha ⊢
    omega
  rw [pending, filter_insertionSort hup, List.filter_filter, pending]
  congr 1
  refine List.filter_congr fun e _ => ?_
  rw [← Bool.decide_and]
  exact decide_eq_decide.mpr ⟨fun h => h.1, fun he => ⟨he, h.trans he⟩⟩

theorem length_pending_le (h : s ≤ s') :
    (pending chain s').length ≤ (pending chain s).length := by
  rw [← filter_pending h]
  exact List.length_filter_le _ _

/-- A batch from a full window, none of whose events is recognised. -/
def Blocked (opts : Options) (chain : List (RawEvent C.ScVal)) (s : ℕ) : Prop :=
  opts.pollLimit ≤ (pending chain s).length ∧
    ∀ e ∈ (pending chain s).take opts.pollLimit, ¬ Recognised C e

/-- What an earlier batch recognises lies before a blocked window. -/
theorem Blocked.ledger_lt (h : Blocked opts chain s') (hs : s ≤ s') {e : RawEvent C.ScVal}
    (he : e ∈ (pending chain s).take opts.pollLimit) (hrec : Recognised C e) : e.ledger < s' := by
  by_contra hge
  have hpre : ((pending chain s).take opts.pollLimit).filter (fun e => s' ≤ e.ledger) <+:
      (pending chain s').take opts.pollLimit := by
    rw [List.prefix_take_iff]
    constructor
    · rw [← filter_pending hs]
      exact (List.take_prefix _ _).filter _
    · exact (List.length_filter_le _ _).trans (List.length_take_le _ _)
  refine h.2 e (hpre.subset (List.mem_filter.mpr ⟨he, ?_⟩)) hrec
  exact decide_eq_true (not_lt.mp hge)

/-! ## 2. One poll -/

/-- The cursor has come to the ledger `tip`. -/
def Reached (tip : ℕ) (c : System C) : Prop := ∃ k, c.store.lastLedger = some k ∧ tip ≤ k

/-- The ledger that the next poll starts from. -/
def nextStart (opts : Options) (c : System C) : ℕ := startLedgerOf opts c.store.lastLedger

/-- The next poll gets a full batch. -/
def Full (opts : Options) (c : System C) : Prop :=
  opts.pollLimit ≤ ((pending c.chain (nextStart opts c)).take opts.pollLimit).length

theorem full_iff : Full opts c ↔ opts.pollLimit ≤ (pending c.chain (nextStart opts c)).length := by
  rw [Full, List.length_take]
  omega

variable (opts) in
theorem lt_nextStart {k : ℕ} (h : c.store.lastLedger = some k) : k < nextStart opts c := by
  rw [nextStart, h, startLedgerOf]
  omega

variable (now tip) in
/-- The cursor after a poll that got a full batch. -/
theorem cursor_of_full (hconf : opts.isConfigured = true) (hfull : Full opts c) :
    (step opts c (.poll now tip)).store.lastLedger = some (maxLedger (c.store.lastLedger.getD 0)
      ((parsedBatch C opts c now).map ParsedEvent.ledger)) :=
  (step_poll hconf).lastLedger_of_full hfull

/-- **A full batch takes the poller on** exactly when something in it is recognised, or when there
was no cursor and nothing to start from. -/
theorem nextStart_lt_iff (hconf : opts.isConfigured = true) (hfull : Full opts c) :
    nextStart opts c < nextStart opts (step opts c (.poll now tip)) ↔
      (∃ e ∈ (pending c.chain (nextStart opts c)).take opts.pollLimit, Recognised C e) ∨
        c.store.lastLedger = none ∧ opts.startLedger = 0 := by
  have hcursor := cursor_of_full now tip hconf hfull
  constructor
  · intro hlt
    by_contra hnot
    rw [not_or, not_exists] at hnot
    obtain ⟨hnone, hedge⟩ := hnot
    have hbatch : (parsedBatch C opts c now).map ParsedEvent.ledger = [] := by
      refine List.eq_nil_iff_forall_not_mem.mpr ?_
      exact forall_parsedBatch_ledgers.mpr fun b hb hrec => hnone b ⟨hb, hrec⟩
    rw [hbatch] at hcursor
    rw [nextStart, nextStart, hcursor] at hlt
    cases hk : c.store.lastLedger with
    | none =>
      rw [hk] at hlt
      simp only [startLedgerOf, maxLedger, List.foldl_nil, Option.getD_none] at hlt
      exact hedge ⟨hk, by omega⟩
    | some k =>
      rw [hk] at hlt
      exact lt_irrefl _ hlt
  · rintro (⟨e, he, hrec⟩ | ⟨hnone, hzero⟩)
    · have hstart := (mem_pending.mp (List.mem_of_mem_take he)).2
      have hle : e.ledger ≤ maxLedger (c.store.lastLedger.getD 0)
          ((parsedBatch C opts c now).map ParsedEvent.ledger) := by
        by_contra hgt
        have hall := (maxLedger_lt.mp (not_le.mp hgt)).2
        exact lt_irrefl _ (forall_parsedBatch_ledgers.mp hall e he hrec)
      have hnext := lt_nextStart opts hcursor
      omega
    · have hnext := lt_nextStart opts hcursor
      rw [nextStart, hnone, startLedgerOf, hzero]
      omega

/-- A poll that gets less than a full batch brings the cursor to the tip. -/
theorem reached_of_not_full (hconf : opts.isConfigured = true) (hfull : ¬ Full opts c) :
    Reached tip (step opts c (.poll now tip)) := by
  have htarget : tip ≤ pollTarget opts c now tip := by
    have hlatest : tip ≤ (answer opts c tip).latestLedger := le_maxLedger tip _
    have hshort : ¬ opts.pollLimit ≤ (answer opts c tip).events.length := hfull
    rw [pollTarget, decide_eq_false hshort, latestIndexedLedger, if_neg Bool.false_ne_true]
    refine le_trans ?_ (le_maxLedger _ _)
    split
    · exact hlatest
    · rename_i hzero
      have := not_not.mp hzero
      omega
  have hpolled : Polled opts c now tip (step opts c (.poll now tip)).store := step_poll hconf
  have hcursor := hpolled.lastLedger
  split at hcursor
  · exact ⟨_, hcursor, htarget⟩
  · rename_i hlater
    cases hk : c.store.lastLedger with
    | none => simp [hk] at hlater
    | some k =>
      rw [hk] at hcursor hlater
      simp only [Option.all_some, decide_eq_true_eq, not_le] at hlater
      exact ⟨k, hcursor, by omega⟩

/-- A poll does not pass a blocked window. -/
theorem nextStart_le_of_blocked (hconf : opts.isConfigured = true)
    (h : Blocked opts c.chain s) (hpos : 0 < s) (hs : nextStart opts c ≤ s) :
    nextStart opts (step opts c (.poll now tip)) ≤ s := by
  have hfull : Full opts c := full_iff.mpr (h.1.trans (length_pending_le hs))
  have hlt : maxLedger (c.store.lastLedger.getD 0)
      ((parsedBatch C opts c now).map ParsedEvent.ledger) < s := by
    refine maxLedger_lt.mpr ⟨?_, forall_parsedBatch_ledgers.mpr fun b hb hrec =>
      h.ledger_lt hs hb hrec⟩
    cases hk : c.store.lastLedger with
    | none => exact hpos
    | some k =>
      have := lt_nextStart opts hk
      rw [Option.getD_some]
      omega
  have hstart : opts.startLedger ≤ s := by
    refine le_trans ?_ hs
    unfold nextStart startLedgerOf
    split
    · exact le_rfl
    · exact le_max_right _ _
  rw [nextStart, cursor_of_full now tip hconf hfull, startLedgerOf]
  omega

/-! ## 3. Polling on -/

/-- The first `n` polls, at the times `now`, while the tip stays where it is. -/
def polls (now : ℕ → ℕ) (tip n : ℕ) : List (Label C) :=
  (List.range n).map fun i => .poll (now i) tip

theorem polls_succ (now : ℕ → ℕ) (tip n : ℕ) :
    (polls now tip (n + 1) : List (Label C)) =
      .poll (now 0) tip :: polls (fun i => now (i + 1)) tip n := by
  rw [polls, List.range_succ_eq_map, List.map_cons, List.map_map]
  rfl

/-- **Nothing blocked**: each poll of a full batch starts further on, and the chain is finite. -/
theorem exists_reached (hconf : opts.isConfigured = true) (hlimit : 0 < opts.pollLimit)
    (htip : ∀ e ∈ c.chain, e.ledger ≤ tip)
    (hfree : ∀ s, max 1 (nextStart opts c) ≤ s → ¬ Blocked opts c.chain s) (now : ℕ → ℕ) :
    ∃ n, Reached tip (run (step opts) c (polls now tip n)) := by
  induction hm : tip + 1 - nextStart opts c using Nat.strong_induction_on generalizing c now with
  | _ m ih =>
    by_cases hfull : Full opts c
    · -- the batch is not empty, so it starts at the tip or before
      have hpending := full_iff.mp hfull
      obtain ⟨e, he⟩ := List.exists_mem_of_length_pos (lt_of_lt_of_le hlimit hpending)
      obtain ⟨hmem, hle⟩ := mem_pending.mp he
      have hbefore : nextStart opts c ≤ tip := hle.trans (htip e hmem)
      have hlt : nextStart opts c < nextStart opts (step opts c (.poll (now 0) tip)) := by
        refine (nextStart_lt_iff hconf hfull).mpr ?_
        by_cases hzero : nextStart opts c = 0
        · refine .inr ?_
          cases hk : c.store.lastLedger with
          | none => exact ⟨rfl, by rwa [nextStart, hk] at hzero⟩
          | some k =>
            have := lt_nextStart opts hk
            omega
        · by_contra hnot
          rw [not_or, not_exists] at hnot
          refine hfree (nextStart opts c) (by omega) ⟨hpending, fun e he hrec => ?_⟩
          exact hnot.1 e ⟨he, hrec⟩
      obtain ⟨n, hn⟩ := ih _ (by omega) (c := step opts c (.poll (now 0) tip)) htip
        (fun s hs => hfree s (by omega)) (fun i => now (i + 1)) rfl
      exact ⟨n + 1, by rwa [polls_succ, run_cons]⟩
    · refine ⟨1, ?_⟩
      rw [polls_succ, run_cons]
      exact reached_of_not_full hconf hfull

/-- **A blocked window** is never passed. -/
theorem not_reached_of_blocked (hconf : opts.isConfigured = true) (hlimit : 0 < opts.pollLimit)
    (htip : ∀ e ∈ c.chain, e.ledger ≤ tip) (h : Blocked opts c.chain s)
    (hs : max 1 (nextStart opts c) ≤ s) (now : ℕ → ℕ) (n : ℕ) :
    ¬ Reached tip (run (step opts) c (polls now tip n)) := by
  have hkeep : ∀ (n : ℕ) (now : ℕ → ℕ) (c : System C), Blocked opts c.chain s →
      nextStart opts c ≤ s → nextStart opts (run (step opts) c (polls now tip n)) ≤ s := by
    intro n
    induction n with
    | zero => exact fun _ _ _ hs => hs
    | succ n ih =>
      intro now c h hs'
      rw [polls_succ, run_cons]
      exact ih _ _ h (nextStart_le_of_blocked hconf h (by omega) hs')
  rintro ⟨k, hk, hle⟩
  have hlt := lt_nextStart opts hk
  have hend := hkeep n now c h (by omega)
  -- the window is not empty, and lies at the tip or before
  obtain ⟨e, he⟩ := List.exists_mem_of_length_pos (lt_of_lt_of_le hlimit h.1)
  obtain ⟨hmem, hge⟩ := mem_pending.mp he
  have := htip e hmem
  omega

/-- **Poll progress.**  The tip of a finite chain stays where it is, and the limit exceeds the number
of events of each ledger.  Polling on, at whatever times, brings the cursor to the tip if and only
if from no ledger on, at or after the first one that is asked for, a full batch holds no recognised
event.  A poll of a full batch takes the poller on if and only if it holds a recognised event, or
there was neither a cursor nor a ledger to start from. -/
theorem poll_progress_iff (opts : Options) (c : System C) (tip : ℕ)
    (hconf : opts.isConfigured = true)
    (hlimit : ∀ ledger, (c.chain.countP fun e => e.ledger = ledger) < opts.pollLimit)
    (htip : ∀ e ∈ c.chain, e.ledger ≤ tip) (now : ℕ → ℕ) :
    ((∃ n, Reached tip (run (step opts) c (polls now tip n))) ↔
      ∀ s, max 1 (nextStart opts c) ≤ s → ¬ Blocked opts c.chain s) ∧
    ∀ t, Full opts c → (nextStart opts c < nextStart opts (step opts c (.poll t tip)) ↔
      (∃ e ∈ (pending c.chain (nextStart opts c)).take opts.pollLimit, Recognised C e) ∨
        c.store.lastLedger = none ∧ opts.startLedger = 0) := by
  have hpos : 0 < opts.pollLimit := (Nat.zero_le _).trans_lt (hlimit 0)
  refine ⟨⟨?_, fun hfree => exists_reached hconf hpos htip hfree now⟩, fun t hfull =>
    nextStart_lt_iff hconf hfull⟩
  rintro ⟨n, hn⟩ s hs hblocked
  exact not_reached_of_blocked hconf hpos htip hblocked hs now n hn

/-- Two events in a ledger each, of a name that is not known. -/
def unknownEvents : System textCodec :=
  ⟨[{ sampleEvent "a" with topic := ["pool_created"] },
    { sampleEvent "b" with topic := ["pool_created"], ledger := 6 }], .init⟩

/-- Progress, where everything is recognised. -/
theorem poll_progress_iff_sample :
    ((∃ n, Reached 5 (run (step ⟨true, "C", 3, 1⟩) sampleSystem (polls id 5 n))) ↔
      ∀ s, max 1 (nextStart ⟨true, "C", 3, 1⟩ sampleSystem) ≤ s →
        ¬ Blocked ⟨true, "C", 3, 1⟩ sampleSystem.chain s) ∧
    ∀ t, Full ⟨true, "C", 3, 1⟩ sampleSystem →
      (nextStart ⟨true, "C", 3, 1⟩ sampleSystem <
          nextStart ⟨true, "C", 3, 1⟩ (step ⟨true, "C", 3, 1⟩ sampleSystem (.poll t 5)) ↔
        (∃ e ∈ (pending sampleSystem.chain (nextStart ⟨true, "C", 3, 1⟩ sampleSystem)).take 3,
          Recognised textCodec e) ∨
        sampleSystem.store.lastLedger = none ∧ (1 : ℕ) = 0) := by
  refine poll_progress_iff ⟨true, "C", 3, 1⟩ sampleSystem 5 (by decide) (fun ledger => ?_) ?_ id
  · exact lt_of_le_of_lt List.countP_le_length (by decide)
  · decide

/-- Batches of two: the cursor never comes to ledger 6. -/
theorem unknown_events_stall : ¬ ∀ now : ℕ → ℕ,
    ∃ n, Reached 6 (run (step ⟨true, "C", 2, 1⟩) unknownEvents (polls now 6 n)) := by
  intro h
  obtain ⟨n, hn⟩ := h id
  refine not_reached_of_blocked (s := 1) (by decide) (by decide) (by decide) ⟨by decide, ?_⟩
    (by decide) id n hn
  intro e he hrec
  have hunknown : ∀ e ∈ unknownEvents.chain, eventName textCodec e = none := by decide
  exact hrec (hunknown e (mem_pending.mp (List.mem_of_mem_take he)).1)

end SmartDrop.Indexer
