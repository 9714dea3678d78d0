/-
# The poller and its cursor

`EventPoller.pollOnce` of `indexer/eventPoller.js`, and the chain it reads.  A poll asks for the
events from the ledger after the cursor, saves the ones it recognises and moves the cursor: to
the chain's tip after a batch that was not full, and else to the last ledger it has processed.

A full batch can end in the middle of a ledger.  The cursor then stands on that ledger, the
next poll starts after it, and what the batch left out of it is never read again.  So the
cursor stays behind what is saved exactly when no full batch cuts a ledger, and the chain grows
only beyond the cursor (`cursor_complete_iff`).
-/
import SmartDrop.Indexer.Saving
import SmartDrop.Lib.Run
import Mathlib.Data.List.Sort

namespace SmartDrop.Indexer

open Conc JsonText Redis

/-! ## 1. One poll -/

/-- The options of a poller that a poll reads. -/
structure Options where
  enabled : Bool
  contractId : String
  pollLimit : ℕ
  startLedger : ℕ

/-- `isConfigured`. -/
def Options.isConfigured (opts : Options) : Bool := opts.enabled && opts.contractId ≠ ""

/-- What the RPC answers. -/
structure Response (ScVal : Type) where
  latestLedger : ℕ
  events : List (RawEvent ScVal)

/-- What a poll returns. -/
inductive PollResult where
  | skipped (reason : String)
  | indexed (start_ledger latest_ledger indexed_events : ℕ) (truncated : Bool)
      (ledger_lag : Option ℕ)
deriving DecidableEq

/-- `RPC_MAX_RETRIES`. -/
def RPC_MAX_RETRIES : ℕ := 3

/-- `Math.max(start, ...ledgers)`. -/
def maxLedger (start : ℕ) (ledgers : List ℕ) : ℕ := ledgers.foldl max start

/-- The ledger a poll starts from. -/
def startLedgerOf (opts : Options) (previousLedger : Option ℕ) : ℕ :=
  match previousLedger with
  | none => opts.startLedger
  | some ledger => max (ledger + 1) opts.startLedger

section Poll

variable {ScVal : Type}

/-- The attempts to reach the RPC: the first response ends them, the last error is thrown.
`getEvents n` is how the `n`-th call ends; `none` is the `null` of an open breaker. -/
def fetch (stopped : Bool) (getEvents : ℕ → Except Err (Option (Response ScVal)))
    (lastError : Err) : (attempts attempt : ℕ) → Except Err (Response ScVal)
  | 0, _ => .error lastError
  | attempts + 1, attempt =>
    if stopped then .error "Poll stopped during RPC retry"
    else match getEvents attempt with
      | .ok (some response) => .ok response
      | .ok none => fetch stopped getEvents "RPC returned null (circuit breaker)" attempts (attempt + 1)
      | .error e => fetch stopped getEvents e attempts (attempt + 1)

end Poll

/-- The ledger a poll takes the cursor to. -/
def latestIndexedLedger (truncated : Bool) (previousLedger : Option ℕ) (latestLedger : ℕ)
    (parsedEvents : List ParsedEvent) : ℕ :=
  let eventLedgers := parsedEvents.map ParsedEvent.ledger
  if truncated then maxLedger (previousLedger.getD 0) eventLedgers
  else maxLedger (if latestLedger ≠ 0 then latestLedger else previousLedger.getD 0) eventLedgers

/-- `pollOnce` at time `now`: `getEvents startLedger limit n` is how the `n`-th RPC call of
this poll ends. -/
def pollOnce (C : Codec) (opts : Options) (now : ℕ) (breakerOpen stopped : Bool)
    (getEvents : ℕ → ℕ → ℕ → Except Err (Option (Response C.ScVal))) : Code PollResult := do
  if !opts.isConfigured then return .skipped "SMARTDROP_CONTRACT_ID not configured"
  if breakerOpen then return .skipped "circuit breaker open"
  let previousLedger ← getLastLedger
  let startLedger := startLedgerOf opts previousLedger
  match fetch stopped (getEvents startLedger opts.pollLimit)
      "Soroban RPC call failed after retries" RPC_MAX_RETRIES 1 with
  | .error e => throw e
  | .ok response =>
    let parsedEvents := response.events.filterMap (parseContractEvent C now)
    saveEvents parsedEvents
    let truncated : Bool := opts.pollLimit ≤ response.events.length
    let latest := latestIndexedLedger truncated previousLedger response.latestLedger parsedEvents
    let cursorAdvanced ← advanceLastLedger previousLedger latest
    if !cursorAdvanced then return .skipped "concurrent cursor advance"
    return .indexed startLedger response.latestLedger parsedEvents.length truncated
      (if response.latestLedger = 0 then none else some (response.latestLedger - latest))

/-! ## 2. The system -/

variable (C : Codec) (opts : Options)

/-- The events of the chain, and the database. -/
structure System where
  chain : List (RawEvent C.ScVal)
  store : Store

/-- A poll, at a time and with a tip that the RPC reports, or new events on the chain. -/
inductive Label where
  | poll (now latestLedger : ℕ)
  | grow (events : List (RawEvent C.ScVal))

variable {C}

/-- The events from a ledger on, in ledger order. -/
def pending (chain : List (RawEvent C.ScVal)) (startLedger : ℕ) : List (RawEvent C.ScVal) :=
  (chain.filter fun e => startLedger ≤ e.ledger).insertionSort fun a b => a.ledger ≤ b.ledger

/-- The RPC: the first `limit` of the events asked for, and a tip that is at least every
returned ledger. -/
def respond (chain : List (RawEvent C.ScVal)) (tip startLedger limit : ℕ) : Response C.ScVal where
  latestLedger := maxLedger tip (((pending chain startLedger).take limit).map RawEvent.ledger)
  events := (pending chain startLedger).take limit

/-- One label. -/
def step (c : System C) : Label C → System C
  | .poll now tip => { c with
      store := ((pollOnce C opts now false false
        fun startLedger limit _ => .ok (some (respond c.chain tip startLedger limit))).prog.runAt
          (machine Unit) () .none c.store).2 }
  | .grow events => { c with chain := c.chain ++ events }

/-- **Completeness from the ledger `first` on**: what is recognised up to the cursor is
saved. -/
def Complete (first : ℕ) (c : System C) : Prop :=
  ∀ e ∈ c.chain, Recognised C e → first ≤ e.ledger →
    ∀ k, c.store.lastLedger = some k → e.ledger ≤ k → SavedId c.store (eventId C e)

/-- A full batch does not cut a ledger: what it leaves out, unless it is saved or the batch has
an event of its id, lies beyond the ledgers of everything that the batch recognises (and beyond
ledger 0, on which a first cursor can stand). -/
def LeavesWholeLedgers (c : System C) : Prop :=
  let events := pending c.chain (startLedgerOf opts c.store.lastLedger)
  let batch := events.take opts.pollLimit
  opts.isConfigured → opts.pollLimit ≤ batch.length →
    ∀ e ∈ events.drop opts.pollLimit, Recognised C e → ¬ SavedId c.store (eventId C e) →
      (∀ b ∈ batch, Recognised C b → eventId C b ≠ eventId C e) →
      (c.store.lastLedger = none → 0 < e.ledger) ∧
      ∀ b ∈ batch, Recognised C b → b.ledger < e.ledger

/-- New events lie beyond the cursor. -/
def GrowsBeyond (first : ℕ) (c : System C) (events : List (RawEvent C.ScVal)) : Prop :=
  ∀ e ∈ events, Recognised C e → first ≤ e.ledger → ∀ k, c.store.lastLedger = some k →
    ¬ SavedId c.store (eventId C e) → k < e.ledger

/-- The condition on a step. -/
def StepCovers (first : ℕ) (c : System C) : Label C → Prop
  | .poll .. => LeavesWholeLedgers opts c
  | .grow events => GrowsBeyond first c events

/-! ## 3. One poll of the system -/

theorem maxLedger_lt {start x : ℕ} {ledgers : List ℕ} :
    maxLedger start ledgers < x ↔ start < x ∧ ∀ l ∈ ledgers, l < x := by
  unfold maxLedger
  induction ledgers generalizing start with
  | nil => simp
  | cons l ledgers ih =>
    rw [List.foldl_cons, ih, Nat.max_lt, List.forall_mem_cons, and_assoc]

theorem le_maxLedger (start : ℕ) (ledgers : List ℕ) : start ≤ maxLedger start ledgers := by
  by_contra h
  exact Nat.lt_irrefl _ (maxLedger_lt.mp (Nat.not_le.mp h)).1

theorem mem_pending {chain : List (RawEvent C.ScVal)} {startLedger : ℕ} {e : RawEvent C.ScVal} :
    e ∈ pending chain startLedger ↔ e ∈ chain ∧ startLedger ≤ e.ledger := by
  simp [pending]

variable {opts} {c : System C} {now tip first : ℕ}

/-- The events of a poll's batch that are recognised. -/
def parsedBatch (C : Codec) (opts : Options) (c : System C) (now : ℕ) : List ParsedEvent :=
  ((pending c.chain (startLedgerOf opts c.store.lastLedger)).take opts.pollLimit).filterMap
    (parseContractEvent C now)

theorem mem_parsedBatch_ids {id : String} : id ∈ (parsedBatch C opts c now).map ParsedEvent.id ↔
    ∃ b ∈ (pending c.chain (startLedgerOf opts c.store.lastLedger)).take opts.pollLimit,
      Recognised C b ∧ eventId C b = id := by
  simp only [parsedBatch, List.mem_map, List.mem_filterMap]
  constructor
  · rintro ⟨p, ⟨b, hb, hp⟩, rfl⟩
    exact ⟨b, hb, recognised_iff.mpr ⟨p, hp⟩, (parseContractEvent_spec hp).1.symm⟩
  · rintro ⟨b, hb, hrec, rfl⟩
    obtain ⟨p, hp⟩ := recognised_iff.mp hrec
    exact ⟨p, ⟨b, hb, hp⟩, (parseContractEvent_spec hp).1⟩

theorem forall_parsedBatch_ledgers {Q : ℕ → Prop} :
    (∀ l ∈ (parsedBatch C opts c now).map ParsedEvent.ledger, Q l) ↔
    ∀ b ∈ (pending c.chain (startLedgerOf opts c.store.lastLedger)).take opts.pollLimit,
      Recognised C b → Q b.ledger := by
  simp only [parsedBatch, List.mem_map, List.mem_filterMap]
  constructor
  · intro h b hb hrec
    obtain ⟨p, hp⟩ := recognised_iff.mp hrec
    exact (parseContractEvent_spec hp).2 ▸ h _ ⟨p, ⟨b, hb, hp⟩, rfl⟩
  · rintro h l ⟨p, ⟨b, hb, hp⟩, rfl⟩
    rw [(parseContractEvent_spec hp).2]
    exact h b hb (recognised_iff.mpr ⟨p, hp⟩)

/-- A poll of a poller that is not configured does nothing. -/
theorem step_poll_of_not_configured (h : opts.isConfigured = false) :
    step opts c (.poll now tip) = c := by
  simp [step, pollOnce, h]

/-- The RPC's answer to a poll. -/
def answer (opts : Options) (c : System C) (tip : ℕ) : Response C.ScVal :=
  respond c.chain tip (startLedgerOf opts c.store.lastLedger) opts.pollLimit

/-- The ledger that a poll tries to take the cursor to. -/
def pollTarget (opts : Options) (c : System C) (now tip : ℕ) : ℕ :=
  latestIndexedLedger (opts.pollLimit ≤ (answer opts c tip).events.length) c.store.lastLedger
    (answer opts c tip).latestLedger (parsedBatch C opts c now)

/-- `s'` has the batch saved and the cursor moved, if Redis took the write. -/
def Polled (opts : Options) (c : System C) (now tip : ℕ) (s' : Store) : Prop :=
  ∃ s₁, SavesAll c.store (parsedBatch C opts c now) s₁ ∧
    s' = (s₁.exec (.advanceLastLedger c.store.lastLedger (pollTarget opts c now tip))).2

/-- **A poll saves its batch, then tries to move the cursor.** -/
theorem step_poll (h : opts.isConfigured = true) :
    Polled opts c now tip (step opts c (.poll now tip)).store := by
  have hpoll : Leaves (pollOnce C opts now false false
      fun startLedger limit _ => .ok (some (respond c.chain tip startLedger limit))) c.store
      fun _ s' => Polled opts c now tip s' := by
    simp only [pollOnce, h, Bool.not_true, Bool.false_eq_true, if_false]
    refine leaves_redis_bind rfl ?_
    simp only [RPC_MAX_RETRIES, fetch, Bool.false_eq_true, if_false]
    refine Throws.Returns.bind (leaves_saveEvents _ _) fun _ s₁ hsaves => ?_
    obtain ⟨moved, hmoved⟩ : ∃ moved, (s₁.exec (.advanceLastLedger c.store.lastLedger
        (pollTarget opts c now tip))).1 = .ok moved := by
      simp only [Store.exec]
      split <;> exact ⟨_, rfl⟩
    refine leaves_redis_bind hmoved ?_
    split <;> exact Throws.Returns.pure ⟨s₁, hsaves, rfl⟩
  obtain ⟨_, s', hrun, hspec⟩ := hpoll
  simp only [step, hrun]
  exact hspec

/-- What is saved after a poll. -/
theorem Polled.saved {s' : Store} (h : Polled opts c now tip s') (id : String) :
    SavedId s' id ↔ SavedId c.store id ∨ id ∈ (parsedBatch C opts c now).map ParsedEvent.id := by
  obtain ⟨s₁, ⟨-, hsaved⟩, rfl⟩ := h
  rw [← hsaved id]
  simp only [Store.exec, SavedId]
  split <;> rfl

/-- Where the cursor is after a poll. -/
theorem Polled.lastLedger {s' : Store} (h : Polled opts c now tip s') :
    s'.lastLedger = if c.store.lastLedger.all fun k => k ≤ pollTarget opts c now tip then
      some (pollTarget opts c now tip) else c.store.lastLedger := by
  obtain ⟨s₁, ⟨hledger, -⟩, rfl⟩ := h
  simp only [Store.exec, advances, hledger, decide_true, Bool.true_and]
  split <;> simp [hledger]

/-- A full batch takes the cursor to the last ledger it recognises. -/
theorem pollTarget_of_full (h : opts.pollLimit ≤ (answer opts c tip).events.length) :
    pollTarget opts c now tip = maxLedger (c.store.lastLedger.getD 0)
      ((parsedBatch C opts c now).map ParsedEvent.ledger) := by
  rw [pollTarget, decide_eq_true h, latestIndexedLedger, if_pos rfl]

/-- A cursor never goes back, so a poll never starts earlier than one before. -/
theorem startLedgerOf_mono {a b : Option ℕ} (h : ∀ k, a = some k → ∃ k', b = some k' ∧ k ≤ k') :
    startLedgerOf opts a ≤ startLedgerOf opts b := by
  cases a with
  | none =>
    cases b with
    | none => exact Nat.le_refl _
    | some k => exact Nat.le_max_right _ _
  | some k =>
    obtain ⟨k', rfl, hk⟩ := h k rfl
    simp only [startLedgerOf]
    omega

/-! ## 4. Completeness -/

theorem step_start_le (l : Label C) (h : first ≤ startLedgerOf opts c.store.lastLedger) :
    first ≤ startLedgerOf opts (step opts c l).store.lastLedger := by
  cases l with
  | grow events => exact h
  | poll now tip =>
    cases hconf : opts.isConfigured with
    | false => rwa [step_poll_of_not_configured hconf]
    | true =>
      refine h.trans (startLedgerOf_mono fun k hk => ?_)
      rw [(step_poll hconf).lastLedger, hk]
      split
      · rename_i hle
        exact ⟨_, rfl, by simpa using hle⟩
      · exact ⟨k, rfl, Nat.le_refl k⟩

/-- What lies before a poll's start is saved already. -/
theorem Complete.saved_before (h : Complete first c) (hopts : opts.startLedger ≤ first)
    {e : RawEvent C.ScVal} (he : e ∈ c.chain) (hrec : Recognised C e) (hfirst : first ≤ e.ledger)
    (hlt : e.ledger < startLedgerOf opts c.store.lastLedger) :
    SavedId c.store (eventId C e) := by
  cases hk : c.store.lastLedger with
  | none =>
    rw [hk, startLedgerOf] at hlt
    omega
  | some k =>
    rw [hk, startLedgerOf] at hlt
    exact h e he hrec hfirst k hk (by omega)

/-- Where the cursor is after a full batch. -/
theorem Polled.lastLedger_of_full {s' : Store} (h : Polled opts c now tip s')
    (hfull : opts.pollLimit ≤ (answer opts c tip).events.length) :
    s'.lastLedger = some (maxLedger (c.store.lastLedger.getD 0)
      ((parsedBatch C opts c now).map ParsedEvent.ledger)) := by
  rw [h.lastLedger, pollTarget_of_full hfull, if_pos]
  cases c.store.lastLedger with
  | none => rfl
  | some k => simpa using le_maxLedger k _

/-- An event that the batch leaves out, and that is not saved after it, was not saved before
it, and shares no id with the batch. -/
theorem Polled.not_saved_iff {s' : Store} (h : Polled opts c now tip s') (e : RawEvent C.ScVal) :
    ¬ SavedId s' (eventId C e) ↔ ¬ SavedId c.store (eventId C e) ∧
      ∀ b ∈ (answer opts c tip).events, Recognised C b → eventId C b ≠ eventId C e := by
  rw [h.saved, mem_parsedBatch_ids, not_or]
  simp only [not_exists, not_and]
  rfl

theorem poll_complete_iff (hopts : opts.startLedger ≤ first) (hconf : opts.isConfigured = true)
    (hI : first ≤ startLedgerOf opts c.store.lastLedger) (h : Complete first c) :
    Complete first (step opts c (.poll now tip)) ↔ LeavesWholeLedgers opts c := by
  have hpolled : Polled opts c now tip (step opts c (.poll now tip)).store := step_poll hconf
  constructor
  · intro hcomplete _ hfull e he hrec hnot hids
    have hpending := mem_pending.mp (List.mem_of_mem_drop he)
    have hunsaved := (hpolled.not_saved_iff e).mpr ⟨hnot, hids⟩
    have hlt : maxLedger (c.store.lastLedger.getD 0)
        ((parsedBatch C opts c now).map ParsedEvent.ledger) < e.ledger := by
      by_contra hge
      exact hunsaved (hcomplete e hpending.1 hrec (hI.trans hpending.2) _
        (hpolled.lastLedger_of_full hfull) (Nat.not_lt.mp hge))
    obtain ⟨hstart, hbatch⟩ := maxLedger_lt.mp hlt
    refine ⟨fun hnone => ?_, forall_parsedBatch_ledgers.mp hbatch⟩
    rwa [hnone] at hstart
  · intro hcover e he hrec hfirst k hk hle
    by_cases hlt : e.ledger < startLedgerOf opts c.store.lastLedger
    · exact (hpolled.saved _).mpr (Or.inl (h.saved_before hopts he hrec hfirst hlt))
    have hmem : e ∈ pending c.chain (startLedgerOf opts c.store.lastLedger) :=
      mem_pending.mpr ⟨he, Nat.not_lt.mp hlt⟩
    rw [← List.take_append_drop opts.pollLimit (pending _ _), List.mem_append] at hmem
    rcases hmem with htake | hdrop
    · exact (hpolled.saved _).mpr (Or.inr (mem_parsedBatch_ids.mpr ⟨e, htake, hrec, rfl⟩))
    -- left out of the batch, which is therefore full
    by_contra hunsaved
    have hfull : opts.pollLimit ≤ (answer opts c tip).events.length := by
      have := List.length_pos_of_mem hdrop
      simp only [List.length_drop] at this
      simp only [answer, respond, List.length_take]
      omega
    obtain ⟨hnot, hids⟩ := (hpolled.not_saved_iff e).mp hunsaved
    obtain ⟨hnone, hbatch⟩ := hcover hconf hfull e hdrop hrec hnot hids
    have hk' := hpolled.lastLedger_of_full hfull
    rw [hk] at hk'
    refine absurd hle (Nat.not_le.mpr (Option.some.inj hk' ▸ maxLedger_lt.mpr ⟨?_, ?_⟩))
    · cases hp : c.store.lastLedger with
      | none => exact hnone hp
      | some p =>
        rw [hp, startLedgerOf] at hlt
        simp only [Option.getD_some]
        omega
    · exact forall_parsedBatch_ledgers.mpr hbatch

/-- **One step** keeps completeness exactly when it covers what it passes. -/
theorem step_complete_iff (hopts : opts.startLedger ≤ first) (l : Label C)
    (hI : first ≤ startLedgerOf opts c.store.lastLedger) (h : Complete first c) :
    Complete first (step opts c l) ↔ StepCovers opts first c l := by
  cases l with
  | poll now tip =>
    cases hconf : opts.isConfigured with
    | false =>
      rw [step_poll_of_not_configured hconf]
      exact iff_of_true h fun hc => absurd hc (by simp [hconf])
    | true => exact poll_complete_iff hopts hconf hI h
  | grow events =>
    constructor
    · intro hcomplete e he hrec hfirst k hk hnot
      by_contra hge
      exact hnot (hcomplete e (List.mem_append_right _ he) hrec hfirst k hk (Nat.not_lt.mp hge))
    · intro hbeyond e he hrec hfirst k hk hle
      rcases List.mem_append.mp he with hold | hnew
      · exact h e hold hrec hfirst k hk hle
      · by_contra hnot
        exact absurd hle (Nat.not_le.mpr (hbeyond e hnew hrec hfirst k hk hnot))

/-- **The cursor never passes an event that is not saved, in any state of a run, exactly when
no full batch cuts a ledger and the chain grows only beyond the cursor.** -/
theorem cursor_complete_iff (opts : Options) (c : System C) (ls : List (Label C)) :
    (∀ l₁ l₂, ls = l₁ ++ l₂ →
      Complete (startLedgerOf opts c.store.lastLedger) (run (step opts) c l₁)) ↔
    Along (step opts) (StepCovers opts (startLedgerOf opts c.store.lastLedger)) c ls := by
  have hopts : opts.startLedger ≤ startLedgerOf opts c.store.lastLedger := by
    unfold startLedgerOf
    split
    · exact Nat.le_refl _
    · exact Nat.le_max_right _ _
  refine forall_prefix_iff
    (I := fun c' : System C => startLedgerOf opts c.store.lastLedger ≤
      startLedgerOf opts c'.store.lastLedger)
    (fun c' l hI => step_start_le l hI) (fun c' l hI hG => step_complete_iff hopts l hI hG)
    (Nat.le_refl _) ?_
  -- at first the cursor, if there is one, lies before the first ledger polled
  intro e _ _ hfirst k hk hle
  rw [hk, startLedgerOf] at hfirst
  omega

/-- Values are texts, and stand for themselves. -/
def textCodec : Codec where
  ScVal := String
  decode := .str
  xdrBase64 v := v
  topicText vs := ",".intercalate vs
  sha256 text := text

/-- An event of ledger 5 that is recognised. -/
def sampleEvent (id : String) : RawEvent textCodec.ScVal where
  id := some id
  type := "contract"
  ledger := 5
  ledgerClosedAt := none
  pagingToken := none
  contractId := none
  inSuccessfulContractCall := none
  topic := ["airdrop_expired"]
  value := none

/-- A chain with two events of one ledger. -/
def sampleSystem : System textCodec := ⟨[sampleEvent "a", sampleEvent "b"], .init⟩

/-- Batches of one event: the cursor passes the second one. -/
theorem full_batch_cuts_ledger : ¬ ∀ l₁ l₂ : List (Label textCodec), [.poll 0 5] = l₁ ++ l₂ →
    Complete 1 (run (step ⟨true, "C", 1, 1⟩) sampleSystem l₁) := by
  intro h
  have hrec : Recognised textCodec (sampleEvent "b") := by
    unfold Recognised
    decide
  have hcursor : (run (step ⟨true, "C", 1, 1⟩) sampleSystem [.poll 0 5]).store.lastLedger =
    some 5 := by decide +kernel
  have hmem : sampleEvent "b" ∈ (run (step ⟨true, "C", 1, 1⟩) sampleSystem [.poll 0 5]).chain :=
    List.mem_cons_of_mem _ List.mem_cons_self
  have hsaved := h [.poll 0 5] [] rfl (sampleEvent "b") hmem hrec (by decide) 5 hcursor (by decide)
  exact absurd hsaved.2 (by decide +kernel)

end SmartDrop.Indexer
