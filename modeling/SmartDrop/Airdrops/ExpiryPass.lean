/-
# One pass of the expiry job

`tick` of `jobs/airdropExpiry.js`, run alone and without failures, at one ledger.  `ZSCAN` returns
every listed airdrop in some page, perhaps in several, and the pass expires those that are due
(`Due`): it announces each of them once, however often the scan has named it, and does not touch
the others (`pass_exact`).

The scan examines a list of ids, page after page.  What a pass has done depends on that list alone
(`Progress`): the airdrops it names that are due have been expired, and their events have been
dispatched in the order in which they came up first.
-/
import SmartDrop.Airdrops.Expiry

namespace SmartDrop.Airdrops.Expiry

open Binary64 Conc Redis

variable {τ : Type}

/-! ## 1. What a pass is to do -/

/-- An airdrop that has to expire at a ledger: it is listed, its status is not terminal, and its
expiry ledger has been reached. -/
def Due (currentLedger : ℕ) (s : Airdrops.Store) (id : String) : Prop :=
  id ∈ s.ids ∧ ∃ airdrop, s.records id = some airdrop ∧ airdrop.status.terminal = false ∧
    ∃ ledger, airdrop.expiry_ledger = some ledger ∧ ledger ≤ currentLedger

/-- An airdrop has been expired by the script. -/
def Expired (A : Airdrops.Platform) (currentLedger : ℕ) (s final : Airdrops.Store) (id : String) :
    Prop :=
  ∃ now updated, markExpiredScript A.cjsonNumber currentLedger now (s.records id) = some updated ∧
    updated.status = .expired ∧ final.records id = some updated

/-- The expiry ledgers of airdrops that have not ended were taken by the schema. -/
def LedgersChecked (s : Airdrops.Store) : Prop :=
  ∀ id airdrop ledger, s.records id = some airdrop → airdrop.status.terminal = false →
    airdrop.expiry_ledger = some ledger →
    ∃ currentLedger : ℕ, expiryLedgerIssues ["expiry_ledger"] currentLedger ledger = []

/-- The ids that each page of the scan has named, and the ids under which events were dispatched, in
order, each with whether it was new. -/
structure PassLog where
  pages : List (List String)
  dispatched : List (String × Bool)

/-- What a command adds to it. -/
def notePass : sig.Op → Env → Store → PassLog → PassLog
  | .inl (.inr (.zscan _)), x, s, log =>
    { log with pages := log.pages ++ [x.page.filter (· ∈ s.1.ids)] }
  | .inr (.inr (.claimEvent eventId)), _, s, log =>
    { log with dispatched := log.dispatched ++ [(eventId, !s.2.2.dispatched eventId)] }
  | _, _, _, log => log

/-- The machine that keeps the log. -/
def passMachine (A : Airdrops.Platform) (W : Webhooks.Platform) (who : τ → Webhooks.Caller) :
    Machine sig τ Env (Store × PassLog) :=
  (machine A W who).observe fun _ op x s log => notePass op x s log

/-- No command fails, and Horizon reports the ledger. -/
structure Undisturbed (currentLedger : ℕ) (x : Env) : Prop where
  airdrop : x.airdrop.fault = .none
  webhook : x.webhook.fault = .none
  ledger : x.ledger = .ok currentLedger

/-- What a tick leaves that runs alone. -/
def passAlone (A : Airdrops.Platform) (W : Webhooks.Platform) (config : Webhooks.Config)
    (who : τ → Webhooks.Caller) (i : τ) (deliver : Deliveries) (pages : ℕ) (s : Store)
    (xs : ℕ → Env) : Store × PassLog :=
  ((tick W config deliver pages).prog.runWith (passMachine A W who) i xs (s, ⟨[], []⟩)).2

/-- The dispatch of an airdrop's event; it goes through if the id was not claimed before. -/
def announcement (currentLedger : ℕ) (s : Store) (id : String) : String × Bool :=
  (expiredEventId id currentLedger, !s.2.2.dispatched (expiredEventId id currentLedger))

/-- The due airdrops, and only these, have been expired, and each has been announced once. -/
structure ExactPass (A : Airdrops.Platform) (currentLedger : ℕ) (s final : Store) (log : PassLog) :
    Prop where
  expired : ∀ id, Due currentLedger s.1 id → Expired A currentLedger s.1 final.1 id
  kept : ∀ id, ¬ Due currentLedger s.1 id → final.1.records id = s.1.records id
  announced : ∃ ids : List String, ids.Nodup ∧ (∀ id, id ∈ ids ↔ Due currentLedger s.1 id) ∧
    log.dispatched = ids.map (announcement currentLedger s)

/-! ## 2. What the filter and the script decide -/

theorem expiryLedger_pos {path : List String} {currentLedger : ℕ} {ledger : ℤ}
    (h : expiryLedgerIssues path currentLedger ledger = []) : 0 < ledger := by
  rw [expiryLedgerIssues, List.append_eq_nil_iff] at h
  have hpassed : (currentLedger : ℤ) < ledger := by simpa [check] using h.2
  omega

theorem hasPassed_iff {currentLedger : ℕ} {expiry_ledger : Option ℤ} :
    hasPassed currentLedger expiry_ledger = true ↔
      ∃ ledger, expiry_ledger = some ledger ∧ ledger ≠ 0 ∧ ledger ≤ currentLedger := by
  cases expiry_ledger <;> simp [hasPassed]

/-- The script expires what the filter has let through. -/
theorem markExpiredScript_of_hasPassed (cjson : Double → Double) {currentLedger : ℕ} (now : ℕ)
    {airdrop : Airdrop} (hlive : airdrop.status.terminal = false)
    (hpassed : hasPassed currentLedger airdrop.expiry_ledger = true) :
    ∃ updated, markExpiredScript cjson currentLedger now (some airdrop) = some updated ∧
      updated.status = .expired := by
  obtain ⟨ledger, hledger, -, hle⟩ := hasPassed_iff.mp hpassed
  simp only [markExpiredScript, hlive, hledger, Bool.false_eq_true, if_false, if_neg hle.not_gt]
  exact ⟨_, rfl, rfl⟩

/-- The filter lets every due airdrop through. -/
theorem Due.passes {currentLedger : ℕ} {s : Airdrops.Store} {id : String} {airdrop : Airdrop}
    (hs : LedgersChecked s) (h : Due currentLedger s id) (hairdrop : s.records id = some airdrop) :
    airdrop.status.terminal = false ∧ hasPassed currentLedger airdrop.expiry_ledger = true := by
  obtain ⟨-, a, ha, hlive, ledger, hledger, hle⟩ := h
  obtain rfl : a = airdrop := Option.some.inj (ha.symm.trans hairdrop)
  obtain ⟨checkedAt, hchecked⟩ := hs id a ledger ha hlive hledger
  have hpos := expiryLedger_pos hchecked
  exact ⟨hlive, hasPassed_iff.mpr ⟨ledger, hledger, hpos.ne', hle⟩⟩

/-! ## 3. How far a pass has come -/

section

variable {A : Airdrops.Platform} {W : Webhooks.Platform} {config : Webhooks.Config}
  {who : τ → Webhooks.Caller} {i : τ} {currentLedger : ℕ} {s₀ : Store}

/-- A pass has expired the airdrops of `examined` that are due, and announced those of `told`. -/
structure Progress (A : Airdrops.Platform) (currentLedger : ℕ) (s₀ : Store)
    (pages : List (List String)) (examined told : List String) (s : Store × PassLog) : Prop where
  ids : s.1.1.ids = s₀.1.ids
  expired : ∀ id ∈ examined, Due currentLedger s₀.1 id → Expired A currentLedger s₀.1 s.1.1 id
  kept : ∀ id, ¬ (id ∈ examined ∧ Due currentLedger s₀.1 id) →
    s.1.1.records id = s₀.1.records id
  announced : ∃ ids : List String, ids.Nodup ∧
    (∀ id, id ∈ ids ↔ id ∈ told ∧ Due currentLedger s₀.1 id) ∧
    s.2.dispatched = ids.map (announcement currentLedger s₀)
  claimed : ∀ eventId, (∀ e ∈ s.2.dispatched, e.1 ≠ eventId) →
    s.1.2.2.dispatched eventId = s₀.2.2.dispatched eventId
  scanned : s.2.pages = pages

variable {pages : List (List String)} {examined told : List String} {s s' : Store × PassLog}

theorem Progress.start (A : Airdrops.Platform) (currentLedger : ℕ) (s₀ : Store) :
    Progress A currentLedger s₀ [] [] [] (s₀, ⟨[], []⟩) where
  ids := rfl
  expired id hid := absurd hid List.not_mem_nil
  kept id _ := rfl
  announced := ⟨[], List.nodup_nil, by simp, rfl⟩
  claimed eventId _ := rfl
  scanned := rfl

/-- An airdrop that is found in its first state is not an expired one. -/
theorem Progress.first {id : String} {airdrop : Airdrop}
    (h : Progress A currentLedger s₀ pages examined told s)
    (hairdrop : s.1.1.records id = some airdrop) (hlive : airdrop.status.terminal = false) :
    ¬ (id ∈ examined ∧ Due currentLedger s₀.1 id) := by
  rintro ⟨hid, hdue⟩
  obtain ⟨now, updated, -, hstatus, hrecord⟩ := h.expired id hid hdue
  obtain rfl : airdrop = updated := Option.some.inj (hairdrop.symm.trans hrecord)
  rw [hstatus] at hlive
  cases hlive

/-- An airdrop that is not let through is not due, unless it has been expired already. -/
theorem Progress.skip {id : String} (h : Progress A currentLedger s₀ pages examined examined s)
    (hid : Due currentLedger s₀.1 id → id ∈ examined) :
    Progress A currentLedger s₀ pages (examined ++ [id]) (examined ++ [id]) s := by
  have hsame : ∀ j, j ∈ examined ++ [id] ∧ Due currentLedger s₀.1 j ↔
      j ∈ examined ∧ Due currentLedger s₀.1 j := by
    intro j
    rw [List.mem_append, List.mem_singleton]
    constructor
    · rintro ⟨hj | rfl, hdue⟩
      · exact ⟨hj, hdue⟩
      · exact ⟨hid hdue, hdue⟩
    · exact fun hj => ⟨.inl hj.1, hj.2⟩
  refine ⟨h.ids, fun j hj hdue => ?_, fun j hj => ?_, ?_, h.claimed, h.scanned⟩
  · exact h.expired j ((hsame j).mp ⟨hj, hdue⟩).1 hdue
  · exact h.kept j fun hin => hj ((hsame j).mpr hin)
  · obtain ⟨ids, hnodup, hmem, hlog⟩ := h.announced
    exact ⟨ids, hnodup, fun j => (hmem j).trans (hsame j).symm, hlog⟩

/-- The script expires an airdrop that is due. -/
theorem Progress.expire {id : String} {now : ℕ} {updated : Airdrop}
    (h : Progress A currentLedger s₀ pages examined examined s) (hdue : Due currentLedger s₀.1 id)
    (hnew : id ∉ examined)
    (hscript : markExpiredScript A.cjsonNumber currentLedger now (s₀.1.records id) = some updated)
    (hstatus : updated.status = .expired) (hids : s'.1.1.ids = s.1.1.ids)
    (hrecords : s'.1.1.records = Function.update s.1.1.records id (some updated))
    (hclaims : s'.1.2.2.dispatched = s.1.2.2.dispatched) (hlog : s'.2 = s.2) :
    Progress A currentLedger s₀ pages (examined ++ [id]) examined s' := by
  refine ⟨hids.trans h.ids, fun j hj hj' => ?_, fun j hj => ?_, hlog ▸ h.announced, ?_,
    hlog ▸ h.scanned⟩
  · by_cases hji : j = id
    · subst hji
      exact ⟨now, updated, hscript, hstatus, by rw [hrecords, Function.update_self]⟩
    · have hjold : j ∈ examined := by simpa [hji] using hj
      obtain ⟨time, r, hr, hexp, hrec⟩ := h.expired j hjold hj'
      exact ⟨time, r, hr, hexp, by rw [hrecords, Function.update_of_ne hji, hrec]⟩
  · have hji : j ≠ id := by
      rintro rfl
      exact hj ⟨by simp, hdue⟩
    rw [hrecords, Function.update_of_ne hji]
    exact h.kept j fun hin => hj ⟨List.mem_append_left _ hin.1, hin.2⟩
  · rw [hclaims, hlog]
    exact h.claimed

/-- Its event is dispatched, under an id that no other airdrop has. -/
theorem Progress.announce {id : String}
    (h : Progress A currentLedger s₀ pages (examined ++ [id]) examined s)
    (hdue : Due currentLedger s₀.1 id) (hnew : id ∉ examined) (hairdrops : s'.1.1 = s.1.1)
    (hclaims : s'.1.2.2.dispatched =
      Function.update s.1.2.2.dispatched (expiredEventId id currentLedger) true)
    (hlog : s'.2 = { s.2 with dispatched := s.2.dispatched ++
      [(expiredEventId id currentLedger, !s.1.2.2.dispatched (expiredEventId id currentLedger))] }) :
    Progress A currentLedger s₀ pages (examined ++ [id]) (examined ++ [id]) s' := by
  obtain ⟨ids, hnodup, hmem, hids⟩ := h.announced
  have hfresh : id ∉ ids := fun hid => hnew ((hmem id).mp hid).1
  have hunclaimed : s.1.2.2.dispatched (expiredEventId id currentLedger) =
      s₀.2.2.dispatched (expiredEventId id currentLedger) := by
    refine h.claimed _ fun e he heq => hfresh ?_
    rw [hids] at he
    obtain ⟨j, hj, rfl⟩ := List.mem_map.mp he
    have hannounces : announces id (expiredEventId j currentLedger) = true := by
      rw [show expiredEventId j currentLedger = expiredEventId id currentLedger from heq]
      exact announces_expiredEventId.mpr rfl
    obtain rfl := announces_expiredEventId.mp hannounces
    exact hj
  refine ⟨by rw [hairdrops, h.ids], ?_, ?_, ⟨ids ++ [id], ?_, fun j => ?_, ?_⟩, fun e he => ?_, ?_⟩
  · rw [hairdrops]
    exact h.expired
  · rw [hairdrops]
    exact h.kept
  · exact List.nodup_append.mpr ⟨hnodup, List.nodup_singleton _, fun j hj k hk hjk => by
      rw [List.mem_singleton] at hk
      exact hfresh (hk ▸ hjk ▸ hj)⟩
  · rw [List.mem_append, List.mem_singleton, List.mem_append, List.mem_singleton, hmem]
    constructor
    · rintro (hj | rfl)
      · exact ⟨.inl hj.1, hj.2⟩
      · exact ⟨.inr rfl, hdue⟩
    · rintro ⟨hj | rfl, hj'⟩
      · exact .inl ⟨hj, hj'⟩
      · exact .inr rfl
  · rw [hlog, hids, hunclaimed]
    simp [announcement]
  · rw [hlog] at he
    have hne : e ≠ expiredEventId id currentLedger := fun heq =>
      he _ (List.mem_append_right _ (List.mem_singleton_self _)) heq.symm
    rw [hclaims, Function.update_of_ne hne]
    exact h.claimed e fun n hn => he n (List.mem_append_left _ hn)
  · rw [hlog]
    exact h.scanned

/-- A new page is examined from where the earlier ones have ended. -/
theorem Progress.page {page : List String}
    (h : Progress A currentLedger s₀ pages examined told s) (hstore : s'.1 = s.1)
    (hlog : s'.2 = { s.2 with pages := s.2.pages ++ [page] }) :
    Progress A currentLedger s₀ (pages ++ [page]) examined told s' := by
  refine ⟨hstore ▸ h.ids, hstore ▸ h.expired, hstore ▸ h.kept, ?_, ?_, ?_⟩
  · rw [hlog]
    exact h.announced
  · rw [hlog, hstore]
    exact h.claimed
  · rw [hlog, ← h.scanned]

/-! ## 4. The programs -/

/-- Nothing interferes with a tick. -/
abbrev quietly (currentLedger : ℕ) : Contract sig Env (Store × PassLog) :=
  .alone fun _ x _ => Undisturbed currentLedger x

/-- One command on the keys of airdrops. -/
theorem satE_airdrop {op : Airdrops.Op} {I : Store × PassLog → Prop}
    {Q : op.Ret → Store × PassLog → Prop} {E : Err → Store × PassLog → Prop}
    (h : ∀ now s, I s → Q (s.1.1.exec A now op).1 (((s.1.1.exec A now op).2, s.1.2), s.2)) :
    SatE (passMachine A W who) i (quietly currentLedger) (airdrops (Airdrops.redis op)) I Q E := by
  intro x s hs hx
  have hexec : (Airdrops.machine τ A).exec i op x.airdrop s.1.1 =
      (.ok (s.1.1.exec A x.airdrop.now op).1, (s.1.1.exec A x.airdrop.now op).2) := by
    simp only [Airdrops.machine, hx.airdrop]
    split <;> rfl
  have hpass : (passMachine A W who).exec i (.inl (.inl op)) x s =
      (.ok (s.1.1.exec A x.airdrop.now op).1, (((s.1.1.exec A x.airdrop.now op).2, s.1.2), s.2)) := by
    simp only [passMachine, Machine.observe, machine, hexec, notePass]
  rw [hpass]
  exact ⟨trivial, _, fun _ _ hq he => he ▸ hq, h x.airdrop.now s hs, fun _ hq => hq⟩

/-- What a dispatch does beside claiming its id is not seen by a pass. -/
def Aside : sig.Op → Prop
  | .inr (.inl _) => True
  | .inr (.inr (.incrSequence _)) => True
  | _ => False

theorem satE_aside {α : Type} {code : Code α} (huses : Throws.Uses Aside code) :
    SatE (passMachine A W who) i (quietly currentLedger) code
      (Progress A currentLedger s₀ pages examined told)
      (fun _ => Progress A currentLedger s₀ pages examined told)
      fun _ => Progress A currentLedger s₀ pages examined told := by
  refine SatE.frame (fun _ _ h he => he ▸ h) (fun op hop x s hs _ => ⟨trivial, ?_⟩) huses
  rcases op with (op | op) | op | op
  · exact hop.elim
  · exact hop.elim
  · exact ⟨hs.ids, hs.expired, hs.kept, hs.announced, hs.claimed, hs.scanned⟩
  · cases op with
    | claimEvent eventId => exact hop.elim
    | incrSequence r =>
      have hclaims : ((passMachine A W who).exec i (.inr (.inr (.incrSequence r))) x s).2.1.2.2.dispatched =
          s.1.2.2.dispatched := by
        cases hfault : x.webhook.fault <;>
          simp [passMachine, Machine.observe, machine, Machine.sum, Webhooks.dispatchMachine, hfault,
            Webhooks.DispatchStore.exec]
      refine ⟨hs.ids, hs.expired, hs.kept, hs.announced, ?_, hs.scanned⟩
      rw [hclaims]
      exact hs.claimed

/-- The first step of a dispatch. -/
theorem satE_generateTraceId {I : Store × PassLog → Prop} {E : Err → Store × PassLog → Prop}
    (hI : ∀ x s, I s → I ((passMachine A W who).exec i (.inr (.inl .randomUUID)) x s).2) :
    SatE (passMachine A W who) i (quietly currentLedger)
      (Throws.inr (Webhooks.service Webhooks.deliveryRepository.generateTraceId) : Code String)
      I (fun _ => I) E := by
  intro x s hs _
  exact ⟨trivial, I, fun _ _ hq he => he ▸ hq, hI x s hs, fun _ hq => hq⟩

/-- Claiming the id of the event is what a pass knows of a dispatch. -/
theorem satE_claimEvent {id : String} (hdue : Due currentLedger s₀.1 id) (hnew : id ∉ examined)
    {E : Err → Store × PassLog → Prop} :
    SatE (passMachine A W who) i (quietly currentLedger)
      (Throws.inr (Webhooks.dispatchRedis (.claimEvent (expiredEventId id currentLedger))) : Code Bool)
      (Progress A currentLedger s₀ pages (examined ++ [id]) examined)
      (fun _ => Progress A currentLedger s₀ pages (examined ++ [id]) (examined ++ [id])) E := by
  intro x s hs hx
  have hexec : ∀ s : Webhooks.DispatchStore, Webhooks.dispatchMachine.exec (who i)
      (.claimEvent (expiredEventId id currentLedger)) x.webhook s =
      (.ok (s.exec (.claimEvent (expiredEventId id currentLedger))).1,
        (s.exec (.claimEvent (expiredEventId id currentLedger))).2) := fun s => by
    simp only [Webhooks.dispatchMachine, hx.webhook]
  refine ⟨trivial, Progress A currentLedger s₀ pages (examined ++ [id]) (examined ++ [id]),
    fun _ _ hq he => he ▸ hq, hs.announce hdue hnew rfl ?_ rfl, ?_⟩
  · simp only [passMachine, Machine.observe, machine, Machine.sum, hexec]
    rfl
  · simp only [passMachine, Machine.observe, machine, Machine.sum, hexec]
    exact fun _ hq => hq

/-- `dispatch`, for an airdrop that has just been expired. -/
theorem satE_dispatch (deliver : Deliveries) {id : String} (updated : Airdrop)
    (hdue : Due currentLedger s₀.1 id) (hnew : id ∉ examined) :
    SatE (passMachine A W who) i (quietly currentLedger)
      (dispatch W config deliver (expiredEvent id currentLedger updated))
      (Progress A currentLedger s₀ pages (examined ++ [id]) examined)
      (fun _ => Progress A currentLedger s₀ pages (examined ++ [id]) (examined ++ [id]))
      fun _ => Progress A currentLedger s₀ pages (examined ++ [id]) (examined ++ [id]) := by
  have hname : Webhooks.isKnownEvent "airdrop.failed" = true := by decide
  have hknown : Webhooks.isKnownEvent (expiredEvent id currentLedger updated).event_type = true :=
    hname
  have heventId : (expiredEvent id currentLedger updated).event_id.filter (· ≠ "") =
      some (expiredEventId id currentLedger) := by
    refine Option.filter_eq_some_iff.mpr ⟨rfl, ?_⟩
    have hstart : expiredEventId id currentLedger ≠ "" := fun hempty => by
      have hchars := toList_expiredEventId id currentLedger
      rw [hempty] at hchars
      cases hchars
    simpa using hstart
  have hservice : ∀ {β : Type} (code : Webhooks.Code β),
      Throws.Uses Aside (Throws.inr (Webhooks.service code) : Code β) := fun code =>
    Prog.Uses.inr (Prog.Uses.inl (Prog.uses_of_forall (fun _ => trivial) _))
  refine SatE.bind (Q := fun _ => Progress A currentLedger s₀ pages (examined ++ [id])
    (examined ++ [id])) ?_ fun notices => satE_aside (hservice _)
  simp only [Webhooks.dispatcher.targets, hknown, heventId, Bool.not_true, Bool.false_eq_true,
    if_false]
  rw [Throws.inr_bind]
  refine SatE.bind (satE_generateTraceId ?_) fun traceId => ?_
  · exact fun x s hs => ⟨hs.ids, hs.expired, hs.kept, hs.announced, hs.claimed, hs.scanned⟩
  rw [Throws.inr_bind]
  refine SatE.bind (satE_claimEvent hdue hnew) fun fresh => ?_
  refine satE_aside (Prog.Uses.inr (φ := Aside) ?_)
  change Throws.Uses (fun op => Aside (.inr op)) _
  split
  · refine Throws.Uses.bind (Prog.Uses.inl (Prog.uses_of_forall (fun _ => trivial) _)) fun active => ?_
    split
    · exact Throws.uses_pure _
    refine Throws.Uses.bind ⟨trivial, fun _ => trivial⟩ fun sequence => ?_
    exact Throws.Uses.bind (Prog.Uses.inl (Prog.uses_of_forall (fun _ => trivial) _)) fun _ =>
      Throws.uses_pure _
  · exact Throws.uses_pure _

/-- **One airdrop**, which the scan may have named before. -/
theorem satE_examine (hs₀ : LedgersChecked s₀.1) (deliver : Deliveries) {id : String}
    (hid : id ∈ s₀.1.ids) :
    SatE (passMachine A W who) i (quietly currentLedger) (examine W config deliver currentLedger id)
      (Progress A currentLedger s₀ pages examined examined)
      (fun _ => Progress A currentLedger s₀ pages (examined ++ [id]) (examined ++ [id]))
      fun _ _ => False := by
  refine SatE.bind (Q := fun r s => Progress A currentLedger s₀ pages examined examined s ∧
    s.1.1.records id = r) ?_ fun r => ?_
  · refine SatE.tryCatch (E := fun _ _ => False) (satE_airdrop fun now s hs => ⟨hs, rfl⟩) fun _ => ?_
    exact SatE.pure fun _ h => h.elim
  cases r with
  | none =>
    refine SatE.pure fun s hs => hs.1.skip fun hdue => ?_
    by_contra hnew
    obtain ⟨-, airdrop, hairdrop, -⟩ := hdue
    rw [← hs.1.kept id fun hin => hnew hin.1, hs.2] at hairdrop
    cases hairdrop
  | some airdrop =>
    dsimp only
    split
    · rename_i hout
      refine SatE.pure fun s hs => hs.1.skip fun hdue => ?_
      by_contra hnew
      have hfirst := hs.1.kept id fun hin => hnew hin.1
      obtain ⟨hlive, hpassed⟩ := hdue.passes hs₀ (hfirst.symm.trans hs.2)
      simp [hlive, hpassed] at hout
    · rename_i hin
      obtain ⟨hlive, hpassed⟩ : airdrop.status.terminal = false ∧
          hasPassed currentLedger airdrop.expiry_ledger = true := by simpa using hin
      -- what the script expires was in its first state, and is due
      refine SatE.mono (P := fun s => (Due currentLedger s₀.1 id ∧ id ∉ examined ∧
        s₀.1.records id = some airdrop) ∧ Progress A currentLedger s₀ pages examined examined s ∧
        s.1.1.records id = some airdrop) ?_ (fun s hs => ⟨?_, hs⟩) (fun _ _ h => h) fun _ _ h => h
      rotate_left
      · have hnot := hs.1.first hs.2 hlive
        have hrecord : s₀.1.records id = some airdrop := (hs.1.kept id hnot).symm.trans hs.2
        obtain ⟨ledger, hledger, -, hle⟩ := hasPassed_iff.mp hpassed
        have hdue : Due currentLedger s₀.1 id := ⟨hid, airdrop, hrecord, hlive, ledger, hledger, hle⟩
        exact ⟨hdue, fun hold => hnot ⟨hold, hdue⟩, hrecord⟩
      refine SatE.assume fun ⟨hdue, hnew, hrecord⟩ => ?_
      refine SatE.bind (Q := fun r s => r.isSome = true ∧
        Progress A currentLedger s₀ pages (examined ++ [id]) examined s) ?_ fun r => ?_
      · refine SatE.tryCatch (E := fun _ _ => False) ?_ fun _ => SatE.pure fun _ h => h.elim
        rw [airdrops, Airdrops.markExpired, Throws.inl_bind, Throws.inl_bind]
        refine SatE.bind (satE_airdrop (Q := fun _ s =>
          Progress A currentLedger s₀ pages examined examined s ∧
            s.1.1.records id = some airdrop) fun now s hs => hs) fun now => ?_
        refine satE_airdrop fun time s hs => ?_
        obtain ⟨updated, hscript, hstatus⟩ :=
          markExpiredScript_of_hasPassed A.cjsonNumber now hlive hpassed
        have hexec : s.1.1.exec A time (.markExpired id currentLedger now) = (some updated,
            { s.1.1 with records := Function.update s.1.1.records id (some updated) }) := by
          simp only [Airdrops.Store.exec, hs.2, hscript]
        rw [hexec]
        exact ⟨rfl, hs.1.expire hdue hnew (hrecord ▸ hscript) hstatus rfl rfl rfl rfl⟩
      · refine SatE.assume fun hsome => ?_
        cases r with
        | none => cases hsome
        | some updated =>
          refine SatE.tryCatch (satE_dispatch deliver updated hdue hnew) fun _ => SatE.pure fun _ h => h

theorem satE_examineAll (hs₀ : LedgersChecked s₀.1) (deliver : Deliveries) {ids : List String}
    (hids : ∀ id ∈ ids, id ∈ s₀.1.ids) :
    SatE (passMachine A W who) i (quietly currentLedger) (examineAll W config deliver currentLedger ids)
      (Progress A currentLedger s₀ pages examined examined)
      (fun _ => Progress A currentLedger s₀ pages (examined ++ ids) (examined ++ ids))
      fun _ _ => False := by
  induction ids generalizing examined with
  | nil =>
    rw [List.append_nil]
    exact SatE.pure fun _ h => h
  | cons id ids ih =>
    rw [List.forall_mem_cons] at hids
    refine SatE.bind (satE_examine hs₀ deliver hids.1) fun _ => ?_
    rw [List.append_cons examined id ids]
    exact ih hids.2

/-- **The scan** examines all that its pages name. -/
theorem satE_scan (hs₀ : LedgersChecked s₀.1) (deliver : Deliveries) (bound : ℕ) (cursor : String) :
    SatE (passMachine A W who) i (quietly currentLedger) (scan W config deliver currentLedger bound cursor)
      (fun s => ∃ pages, Progress A currentLedger s₀ pages pages.flatten pages.flatten s)
      (fun _ s => ∃ pages, Progress A currentLedger s₀ pages pages.flatten pages.flatten s)
      fun _ _ => False := by
  induction bound generalizing cursor with
  | zero => exact SatE.pure fun _ h => h
  | succ bound ih =>
    refine SatE.bind (Q := fun r s => (∀ id ∈ r.2, id ∈ s₀.1.ids) ∧
      ∃ pages, Progress A currentLedger s₀ (pages ++ [r.2]) pages.flatten pages.flatten s) ?_
      fun r => SatE.assume fun hr => ?_
    · rintro x s ⟨pages, hs⟩ hx
      have hexec : (passMachine A W who).exec i (.inl (.inr (.zscan cursor))) x s =
          (.ok (x.nextCursor, x.page.filter (· ∈ s.1.1.ids)),
            (s.1, { s.2 with pages := s.2.pages ++ [x.page.filter (· ∈ s.1.1.ids)] })) := by
        simp only [passMachine, Machine.observe, machine, hx.airdrop, notePass]
        exact congrArg (·, _) (if_pos trivial)
      rw [hexec]
      refine ⟨trivial, _, fun _ _ hq he => he ▸ hq, ?_, fun _ hq => hq⟩
      refine ⟨fun id hid => ?_, pages, hs.page rfl rfl⟩
      rw [← hs.ids]
      simpa using (List.mem_filter.mp hid).2
    · obtain ⟨nextCursor, batch⟩ := r
      refine SatE.bind (Q := fun _ s => ∃ pages,
        Progress A currentLedger s₀ pages pages.flatten pages.flatten s) ?_ fun _ => ?_
      · refine SatE.fix fun s hs => ?_
        obtain ⟨pages, hprogress⟩ := hs
        refine (satE_examineAll hs₀ deliver hr).mono (fun s' hs' => hs' ▸ hprogress)
          (fun _ s' hs' => ⟨pages ++ [batch], ?_⟩) fun _ _ h => h
        simpa using hs'
      · split
        · exact ih nextCursor
        · exact SatE.pure fun _ h => h

theorem satE_tick (hs₀ : LedgersChecked s₀.1) (deliver : Deliveries) (bound : ℕ) :
    SatE (passMachine A W who) i (quietly currentLedger) (tick W config deliver bound)
      (· = (s₀, ⟨[], []⟩))
      (fun _ s => ∃ pages, Progress A currentLedger s₀ pages pages.flatten pages.flatten s)
      fun _ _ => False := by
  have hstart : ∃ pages, Progress A currentLedger s₀ pages pages.flatten pages.flatten
      (s₀, ⟨[], []⟩) := ⟨[], .start A currentLedger s₀⟩
  refine SatE.bind (Q := fun r s => r = some currentLedger ∧ s = (s₀, ⟨[], []⟩)) ?_ fun r =>
    SatE.assume fun hr => ?_
  · refine SatE.tryCatch (E := fun _ _ => False) ?_ fun _ => SatE.pure fun _ h => h.elim
    rintro x s rfl hx
    refine ⟨trivial, (· = (s₀, ⟨[], []⟩)), fun _ _ hq he => he ▸ hq, rfl, ?_⟩
    rw [show ((passMachine A W who).exec i (.inl (.inr .getCurrentLedger)) x (s₀, ⟨[], []⟩)).1 =
      .ok currentLedger from hx.ledger]
    exact fun s hs => ⟨rfl, hs⟩
  · subst hr
    exact (satE_scan hs₀ deliver bound "0").mono (fun s hs => hs ▸ hstart) (fun _ _ h => h)
      fun _ _ h => h

end

/-! ## 5. The pass -/

theorem sampleKeys_checked : LedgersChecked sampleKeys.1 := by
  intro id airdrop ledger hairdrop _ hledger
  have hid : id = "drop_0" := by
    by_contra hne
    have hnone : sampleKeys.1.records id = none := Function.update_of_ne hne _ _
    rw [hnone] at hairdrop
    cases hairdrop
  subst hid
  obtain rfl := Option.some.inj hairdrop
  obtain rfl := Option.some.inj hledger
  exact ⟨0, by decide⟩

/-- The scan names the sample airdrop twice. -/
def namedTwice : Env := { atLedger 100 with page := ["drop_0", "drop_0"] }

end SmartDrop.Airdrops.Expiry
