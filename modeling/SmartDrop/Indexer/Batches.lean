/-
# Batches, and events that are saved twice

`saveEvents` writes the records of all its events first and then what it derives from each of them;
`saveEvent` does both for one event.  What is derived never looks at the records, so a batch leaves
what its events leave one after the other (`saveEvents_eq_saveEach`).

Each event acts on each part of the store in a way that does not count when the event is applied
again later: it sets or normalises a field, or leaves a mark (an id in a set, a claim in a list)
that keeps it from being applied again.  So a batch that is saved twice leaves what it leaves when it
is saved once (`saveEvents_idempotent`).
-/
import SmartDrop.Indexer.Replays
import SmartDrop.Indexer.Saving

namespace SmartDrop.Indexer

open Conc JsonText Redis Replay

variable {s s' : Store} {event : ParsedEvent}

/-! ## 1. One event after the other -/

/-- `saveEvent` for each event of a list. -/
def saveEach : List ParsedEvent → Code Unit
  | [] => return ()
  | event :: rest => do
    saveEvent event
    saveEach rest

/-- Run alone, while no command fails. -/
def runAlone {α : Type} (code : Code α) (s : Store) : Except Err α × Store :=
  code.prog.runAt (machine Unit) () .none s

/-- The record of an event is saved, and its id. -/
def Store.record (s : Store) (event : ParsedEvent) : Store := { s with
  events := Function.update s.events event.id (some event)
  eventIds := s.eventIds.sadd event.id }

/-- What is derived from an event is stored. -/
def Store.derive (s : Store) (event : ParsedEvent) : Store := (runAlone (project event) s).2

/-- Commands that neither read nor write the saved events. -/
def SparesEvents (op : sig.Op) : Prop :=
  match op with
  | Op.setEvent _ | Op.saddEvent _ | Op.saveEvent _ => False
  | _ => True

theorem exec_record {op : Op} (hop : SparesEvents op) (s : Store) (event : ParsedEvent) :
    (s.record event).exec op = ((s.exec op).1, (s.exec op).2.record event) := by
  cases op with
  | setEvent => exact absurd hop id
  | saddEvent => exact absurd hop id
  | saveEvent => exact absurd hop id
  | advanceLastLedger expected next =>
    by_cases h : advances s.lastLedger expected next = true
    · simp [Store.exec, Store.record, h]
    · simp [Store.exec, Store.record, h]
  | getRecipientsList airdropId =>
    simp only [Store.exec, Store.record]
    split <;> rfl
  | hget airdropId recipient =>
    simp only [Store.exec, Store.record]
    split <;> rfl
  | hset airdropId recipient record =>
    simp only [Store.exec, Store.record]
    split <;> rfl
  | _ => rfl

theorem uses_project (event : ParsedEvent) : Throws.Uses SparesEvents (project event) := by
  have hspares : ∀ op, OnRecords op → SparesEvents op := by
    intro op h
    cases op <;> trivial
  refine Throws.Uses.bind (uses_upsertAirdrop hspares event) fun _ => ?_
  refine Throws.Uses.bind (uses_upsertRecipient hspares event) fun _ => ?_
  split
  · exact uses_appendClaim (fun _ => trivial) (fun _ _ => trivial) event
  · exact Throws.uses_pure _

/-- **What is derived** does not look at the records. -/
theorem derive_record (s : Store) (event event' : ParsedEvent) :
    (s.record event').derive event = (s.derive event).record event' := by
  have hexec : ∀ op s, SparesEvents op → (machine Unit).exec () op .none (s.record event') =
      (((machine Unit).exec () op .none s).1, ((machine Unit).exec () op .none s).2.record event') :=
    fun op s hop => exec_record hop s event'
  exact congrArg Prod.snd (Prog.runAt_comm hexec (uses_project event) s)

theorem runAlone_bind {α β : Type} {code : Code α} {f : α → Code β} {a : α}
    (h : runAlone code s = (.ok a, s')) : runAlone (code >>= f) s = runAlone (f a) s' := by
  unfold runAlone at *
  rw [Throws.prog_bind, Prog.runAt_bind, h, Throws.andThen_ok]

theorem runAlone_project (s : Store) (event : ParsedEvent) :
    runAlone (project event) s = (.ok (), s.derive event) := by
  obtain ⟨a, s', hrun, -⟩ := leaves_project s event
  have hfst : (runAlone (project event) s).1 = .ok a := congrArg Prod.fst hrun
  exact Prod.ext hfst rfl

theorem runAlone_saveRecords (s : Store) (events : List ParsedEvent) :
    runAlone (saveRecords events) s = (.ok (), events.foldl Store.record s) := by
  induction events generalizing s with
  | nil => rfl
  | cons event rest ih => exact ih (s.record event)

theorem runAlone_projectAll (s : Store) (events : List ParsedEvent) :
    runAlone (projectAll events) s = (.ok (), events.foldl Store.derive s) := by
  induction events generalizing s with
  | nil => rfl
  | cons event rest ih =>
    rw [projectAll, runAlone_bind (runAlone_project s event)]
    exact ih _

/-- What saving an event leaves. -/
def Store.save (s : Store) (event : ParsedEvent) : Store := (s.record event).derive event

theorem runAlone_saveEvents (s : Store) (events : List ParsedEvent) :
    runAlone (saveEvents events) s = (.ok (), events.foldl Store.save s) := by
  rw [saveEvents, runAlone_bind (runAlone_saveRecords s events), runAlone_projectAll]
  exact congrArg (Prod.mk _) (foldl_foldl_of_comm (fun s d e => derive_record s d e) s events)

theorem runAlone_saveEvent (s : Store) (event : ParsedEvent) :
    runAlone (saveEvent event) s = (.ok (), s.save event) := by
  have hrecord : runAlone (redis (.saveEvent event)) s = (.ok (), s.record event) := rfl
  rw [saveEvent, runAlone_bind hrecord]
  exact runAlone_project (s.record event) event

theorem runAlone_saveEach (s : Store) (events : List ParsedEvent) :
    runAlone (saveEach events) s = (.ok (), events.foldl Store.save s) := by
  induction events generalizing s with
  | nil => rfl
  | cons event rest ih =>
    rw [saveEach, runAlone_bind (runAlone_saveEvent s event)]
    exact ih _

/-- What is stored of a record after an event. -/
def applyEvent (key : Key) (o : Option Json) (event : ParsedEvent) : Option Json :=
  if About key event then applied key o event else o

/-- The saved events after one more. -/
def putEvent (events : String → Option ParsedEvent) (event : ParsedEvent) :
    String → Option ParsedEvent := Function.update events event.id (some event)

/-- The ids of airdrops after an event. -/
def addAirdropId (ids : RSet String) (event : ParsedEvent) : RSet String :=
  match airdropKey event with
  | none => ids
  | some a => ids.sadd a

/-- The claims of a recipient after an event. -/
def addClaim (r : String) (claims : List Json) (event : ParsedEvent) : List Json :=
  match getRecipient event, getAirdropId event with
  | some recipient, some airdropId =>
    if event.event_name ≠ .token_claimed || !Json.truthy (some recipient) ||
        !Json.truthy (some airdropId) || templateText recipient ≠ r then claims
    else if claims.any fun claim => entryKey claim == claimKey event airdropId then claims
    else claims ++ [claimEntry event recipient airdropId]
  | _, _ => claims

/-- The saved events and the cursor are left alone. -/
structure SameSavedEvents (s s' : Store) : Prop where
  lastLedger : s'.lastLedger = s.lastLedger
  events : s'.events = s.events
  eventIds : s'.eventIds = s.eventIds

theorem SameSavedEvents.trans {s₁ s₂ s₃ : Store} (h : SameSavedEvents s₁ s₂)
    (h' : SameSavedEvents s₂ s₃) : SameSavedEvents s₁ s₃ :=
  ⟨h'.lastLedger.trans h.lastLedger, h'.events.trans h.events, h'.eventIds.trans h.eventIds⟩

theorem leaves_upsertAirdrop_stored (hs : AllMigrated s) (event : ParsedEvent) :
    Leaves (upsertAirdrop event) s fun _ s' => AllMigrated s' ∧ SameSavedEvents s s' ∧
      s'.claims = s.claims ∧ s'.airdropIds = addAirdropId s.airdropIds event ∧
      (∀ a, stored s' (.airdrop a) = applyEvent (.airdrop a) (stored s (.airdrop a)) event) ∧
      ∀ a r, stored s' (.recipient a r) = stored s (.recipient a r) := by
  rw [upsertAirdrop_eq]
  unfold addAirdropId applyEvent
  cases ha : airdropKey event with
  | none =>
    refine Throws.Returns.pure ⟨hs, ⟨rfl, rfl, rfl⟩, rfl, rfl, fun a => ?_, fun _ _ => rfl⟩
    simp [About, ha]
  | some a =>
    refine leaves_redis_bind rfl (leaves_redis (a := ()) rfl ?_)
    obtain ⟨hs', hstored⟩ : AllMigrated (s.exec (.putAirdrop a (next (.airdrop a)
        ((s.airdrops a).getD (initial (.airdrop a) event)) event))).2 ∧ _ := exec_writes hs rfl
    refine ⟨hs', ⟨rfl, rfl, rfl⟩, rfl, rfl, fun a' => ?_, fun a' r => ?_⟩
    · refine (hstored (.airdrop a')).trans ?_
      by_cases h : a' = a
      · subst h
        simp only [About, ha, if_true]
        rfl
      · rw [if_neg fun heq => h (Key.airdrop.inj heq), if_neg fun heq => h ?_]
        exact (Option.some.inj (ha.symm.trans heq)).symm
    · exact (hstored (.recipient a' r)).trans (if_neg fun heq => by cases heq)

theorem leaves_migrate_migrated (hs : AllMigrated s) (a : String) :
    Leaves (migrateRecipientsListToHashIfNeeded a) s fun _ s' => s' = s := by
  have htype : (s.recipients a).type ≠ "string" := by
    cases hr : s.recipients a with
    | absent => simp [RecipientsKey.type]
    | list l => exact absurd hr (hs a l)
    | hash entries => simp [RecipientsKey.type]
  refine leaves_redis_bind rfl ?_
  rw [if_pos htype]
  exact Throws.Returns.pure rfl

theorem leaves_hget_stored (hs : AllMigrated s) (a r : String) :
    Leaves (redis (.hget a r)) s fun o s' => o = stored s (.recipient a r) ∧ s' = s := by
  unfold stored
  cases hr : s.recipients a with
  | absent => exact leaves_redis (a := none) (by simp [Store.exec, hr]) (by simp [Store.exec, hr])
  | list l => exact absurd hr (hs a l)
  | hash entries =>
    exact leaves_redis (a := (Json.obj entries).get? r) (by simp [Store.exec, hr])
      (by simp [Store.exec, hr])

theorem leaves_hset_stored (hs : AllMigrated s) (a r : String) (record : Json) :
    Leaves (redis (.hset a r record)) s fun _ s' => AllMigrated s' ∧ SameSavedEvents s s' ∧
      s'.claims = s.claims ∧ s'.airdropIds = s.airdropIds ∧
      ∀ key, stored s' key = if key = .recipient a r then some record else stored s key := by
  obtain ⟨hs', hstored⟩ : AllMigrated (s.exec (.hset a r record)).2 ∧ _ := exec_writes hs rfl
  have hok : (s.exec (.hset a r record)).1 = .ok () := by
    cases hr : s.recipients a with
    | absent => simp [Store.exec, hr]
    | list l => exact absurd hr (hs a l)
    | hash entries => simp [Store.exec, hr]
  refine leaves_redis hok ⟨hs', ?_, ?_, ?_, hstored⟩
  · simp only [Store.exec]
    split <;> exact ⟨rfl, rfl, rfl⟩
  · simp only [Store.exec]
    split <;> rfl
  · simp only [Store.exec]
    split <;> rfl

theorem leaves_upsertRecipient_stored (hs : AllMigrated s) (event : ParsedEvent) :
    Leaves (upsertRecipient event) s fun _ s' => AllMigrated s' ∧ SameSavedEvents s s' ∧
      s'.claims = s.claims ∧ s'.airdropIds = s.airdropIds ∧
      (∀ a, stored s' (.airdrop a) = stored s (.airdrop a)) ∧
      ∀ a r, stored s' (.recipient a r) =
        applyEvent (.recipient a r) (stored s (.recipient a r)) event := by
  rw [upsertRecipient_eq]
  unfold applyEvent
  cases hr : recipientKey event with
  | none =>
    refine Throws.Returns.pure ⟨hs, ⟨rfl, rfl, rfl⟩, rfl, rfl, fun _ => rfl, fun a r => ?_⟩
    simp [About, hr]
  | some p =>
    obtain ⟨a, r⟩ := p
    refine Throws.Returns.bind (leaves_migrate_migrated hs a) fun _ s₁ h₁ => ?_
    subst h₁
    refine Throws.Returns.bind (leaves_hget_stored hs a r) fun o s₂ h₂ => ?_
    obtain ⟨rfl, rfl⟩ := h₂
    refine (leaves_hset_stored hs a r _).mono fun _ s₃ h₃ => ?_
    obtain ⟨hs', hsame, hclaims, hids, hstored⟩ := h₃
    refine ⟨hs', hsame, hclaims, hids, fun a' => ?_, fun a' r' => ?_⟩
    · exact (hstored (.airdrop a')).trans (if_neg fun heq => by cases heq)
    · rw [hstored]
      by_cases h : (a, r) = (a', r')
      · cases h
        simp only [About, hr, if_true]
        rfl
      · have habout : ¬ About (.recipient a' r') event :=
          fun heq => h (Option.some.inj (hr.symm.trans heq))
        rw [if_neg habout, if_neg fun heq => h ?_]
        cases heq
        rfl

theorem addClaim_of_none {r : String} {claims : List Json}
    (h : ∀ recipient airdropId, getRecipient event = some recipient →
      getAirdropId event = some airdropId → False) : addClaim r claims event = claims := by
  unfold addClaim
  split
  · rename_i recipient airdropId hrecipient hairdrop
    exact absurd hairdrop fun hairdrop => h recipient airdropId hrecipient hairdrop
  · rfl

theorem addClaim_of_some {recipient airdropId : Json} (hrecipient : getRecipient event = some recipient)
    (hairdrop : getAirdropId event = some airdropId) (r : String) (claims : List Json) :
    addClaim r claims event =
      if event.event_name ≠ .token_claimed || !Json.truthy (some recipient) ||
        !Json.truthy (some airdropId) || templateText recipient ≠ r then claims
      else if claims.any fun claim => entryKey claim == claimKey event airdropId then claims
      else claims ++ [claimEntry event recipient airdropId] := by
  unfold addClaim
  rw [hrecipient, hairdrop]

theorem leaves_appendClaim_stored (s : Store) (event : ParsedEvent) :
    Leaves (appendClaim event) s fun _ s' => SameSavedEvents s s' ∧ SameRecords s s' ∧
      s'.airdropIds = s.airdropIds ∧ ∀ r, s'.claims r = addClaim r (s.claims r) event := by
  unfold appendClaim
  split
  · rename_i recipient airdropId hrecipient hairdrop
    simp only [addClaim_of_some hrecipient hairdrop]
    split
    · rename_i hskip
      refine Throws.Returns.pure ⟨⟨rfl, rfl, rfl⟩, ⟨rfl, rfl⟩, rfl, fun r => ?_⟩
      rw [if_pos (by rw [hskip, Bool.true_or])]
    rename_i hgo
    have hbranch : ∀ (r : String) (claims claims' : List Json),
        (if event.event_name ≠ .token_claimed || !Json.truthy (some recipient) ||
          !Json.truthy (some airdropId) || templateText recipient ≠ r then claims else claims') =
        if templateText recipient = r then claims' else claims := by
      intro r claims claims'
      rw [Bool.not_eq_true] at hgo
      rw [hgo, Bool.false_or]
      by_cases hr : templateText recipient = r
      · simp [hr]
      · simp [hr]
    simp only [hbranch]
    refine leaves_redis_bind rfl ?_
    split
    · rename_i hfound
      refine Throws.Returns.pure ⟨⟨rfl, rfl, rfl⟩, ⟨rfl, rfl⟩, rfl, fun r => ?_⟩
      by_cases hr : templateText recipient = r
      · subst hr
        rw [if_pos rfl]
        exact (if_pos hfound).symm
      · rw [if_neg hr]
        rfl
    · rename_i hnew
      refine leaves_redis (a := ()) rfl ⟨⟨rfl, rfl, rfl⟩, ⟨rfl, rfl⟩, rfl, fun r => ?_⟩
      by_cases hr : templateText recipient = r
      · subst hr
        rw [if_pos rfl]
        exact (Function.update_self ..).trans (if_neg hnew).symm
      · rw [if_neg hr]
        exact Function.update_of_ne (Ne.symm hr) ..
  · rename_i hnone
    refine Throws.Returns.pure ⟨⟨rfl, rfl, rfl⟩, ⟨rfl, rfl⟩, rfl, fun r => ?_⟩
    exact (addClaim_of_none hnone).symm

theorem addClaim_of_name {r : String} {claims : List Json} (h : event.event_name ≠ .token_claimed) :
    addClaim r claims event = claims := by
  unfold addClaim
  split
  · rw [if_pos (by simp [h])]
  · rfl

/-- **What is derived from an event.** -/
theorem leaves_project_stored (hs : AllMigrated s) (event : ParsedEvent) :
    Leaves (project event) s fun _ s' => AllMigrated s' ∧ SameSavedEvents s s' ∧
      s'.airdropIds = addAirdropId s.airdropIds event ∧
      (∀ key, stored s' key = applyEvent key (stored s key) event) ∧
      ∀ r, s'.claims r = addClaim r (s.claims r) event := by
  refine Throws.Returns.bind (leaves_upsertAirdrop_stored hs event) fun _ s₁ h₁ => ?_
  obtain ⟨hs₁, hsame₁, hclaims₁, hids₁, hairdrop₁, hrecipient₁⟩ := h₁
  refine Throws.Returns.bind (leaves_upsertRecipient_stored hs₁ event) fun _ s₂ h₂ => ?_
  obtain ⟨hs₂, hsame₂, hclaims₂, hids₂, hairdrop₂, hrecipient₂⟩ := h₂
  have hstored : ∀ key, stored s₂ key = applyEvent key (stored s key) event := by
    intro key
    cases key with
    | airdrop a => rw [hairdrop₂, hairdrop₁]
    | recipient a r => rw [hrecipient₂, hrecipient₁]
  split
  · refine (leaves_appendClaim_stored s₂ event).mono fun _ s₃ h₃ => ?_
    obtain ⟨hsame₃, hrecords₃, hids₃, hclaims₃⟩ := h₃
    refine ⟨hrecords₃.allMigrated hs₂, (hsame₁.trans hsame₂).trans hsame₃, ?_, fun key => ?_, fun r => ?_⟩
    · rw [hids₃, hids₂, hids₁]
    · rw [hrecords₃.stored, hstored]
    · rw [hclaims₃, hclaims₂, hclaims₁]
  · rename_i hname
    refine Throws.Returns.pure ⟨hs₂, hsame₁.trans hsame₂, ?_, hstored, fun r => ?_⟩
    · rw [hids₂, hids₁]
    · rw [hclaims₂, hclaims₁, addClaim_of_name hname]

/-- The parts of a store before and after some events were saved. -/
structure Saved (batch : List ParsedEvent) (s s' : Store) : Prop where
  lastLedger : s'.lastLedger = s.lastLedger
  events : s'.events = batch.foldl putEvent s.events
  eventIds : s'.eventIds = batch.foldl (fun ids event => ids.sadd event.id) s.eventIds
  airdropIds : s'.airdropIds = batch.foldl addAirdropId s.airdropIds
  stored : ∀ key, stored s' key = batch.foldl (applyEvent key) (stored s key)
  claims : ∀ r, s'.claims r = batch.foldl (addClaim r) (s.claims r)

theorem saved_save (hs : AllMigrated s) (event : ParsedEvent) :
    AllMigrated (s.save event) ∧ Saved [event] s (s.save event) := by
  have hrecord : SameRecords s (s.record event) := ⟨rfl, rfl⟩
  obtain ⟨_, s', hrun, hs', hsame, hids, hstored, hclaims⟩ :=
    leaves_project_stored (hrecord.allMigrated hs) event
  obtain rfl : s.save event = s' := congrArg Prod.snd hrun
  refine ⟨hs', hsame.lastLedger, hsame.events, hsame.eventIds, hids, fun key => ?_, hclaims⟩
  rw [hstored, hrecord.stored]
  rfl

/-- **What a batch leaves**, part by part. -/
theorem saved_foldl (hs : AllMigrated s) (batch : List ParsedEvent) :
    AllMigrated (batch.foldl Store.save s) ∧ Saved batch s (batch.foldl Store.save s) := by
  induction batch generalizing s with
  | nil => exact ⟨hs, rfl, rfl, rfl, rfl, fun _ => rfl, fun _ => rfl⟩
  | cons event rest ih =>
    obtain ⟨hs₁, h₁⟩ := saved_save hs event
    obtain ⟨hs₂, h₂⟩ := ih hs₁
    refine ⟨hs₂, h₂.lastLedger.trans h₁.lastLedger, ?_, ?_, ?_, fun key => ?_, fun r => ?_⟩
    · exact h₂.events.trans (by rw [h₁.events]; rfl)
    · exact h₂.eventIds.trans (by rw [h₁.eventIds]; rfl)
    · exact h₂.airdropIds.trans (by rw [h₁.airdropIds]; rfl)
    · exact (h₂.stored key).trans (by rw [h₁.stored]; rfl)
    · exact (h₂.claims r).trans (by rw [h₁.claims]; rfl)

/-! ## 3. Applying a batch again -/

theorem acts_events (id : String) : Acts (fun _ => True) putEvent (fun events => events id) (fun o => o)
    fun event => if event.id = id then .set (some event) else .keep where
  keeps _ _ _ := trivial
  idem _ := rfl
  view_eq events event _ := by
    unfold putEvent
    by_cases h : event.id = id
    · subst h
      simp [Act.apply]
    · simp [h, Ne.symm h, Act.apply]

theorem marks_eventIds : Marks (fun (ids : RSet String) (event : ParsedEvent) => ids.sadd event.id)
    fun event ids => event.id ∈ ids where
  leaves _ _ := RSet.mem_sadd.mpr (.inr rfl)
  keeps _ _ _ h := RSet.mem_sadd.mpr (.inl h)
  same _ _ h := dif_pos h

theorem marks_airdropIds : Marks addAirdropId fun event ids => ∀ a, airdropKey event = some a → a ∈ ids where
  leaves ids event a h := by
    rw [addAirdropId, h]
    exact RSet.mem_sadd.mpr (.inr rfl)
  keeps ids event _ h a ha := by
    unfold addAirdropId
    split
    · exact h a ha
    · exact RSet.mem_sadd.mpr (.inl (h a ha))
  same ids event h := by
    unfold addAirdropId
    split
    · rfl
    · rename_i a ha
      exact dif_pos (h a ha)

/-- The claim of an event is in the list, if it is one of this recipient. -/
def ClaimAdded (r : String) (event : ParsedEvent) (claims : List Json) : Prop :=
  ∀ recipient airdropId, IsClaim event recipient airdropId → templateText recipient = r →
    ∃ e ∈ claims, entryKey e = claimKey event airdropId

theorem addClaim_cases (r : String) (claims : List Json) (event : ParsedEvent) :
    (addClaim r claims event = claims ∧ ClaimAdded r event claims) ∨
      ∃ recipient airdropId, IsClaim event recipient airdropId ∧ templateText recipient = r ∧
        (∀ e ∈ claims, entryKey e ≠ claimKey event airdropId) ∧
        addClaim r claims event = claims ++ [claimEntry event recipient airdropId] := by
  unfold addClaim
  split
  · rename_i recipient airdropId hrecipient hairdrop
    have hsame : ∀ {recipient' airdropId'}, IsClaim event recipient' airdropId' →
        recipient' = recipient ∧ airdropId' = airdropId := by
      intro recipient' airdropId' h
      exact ⟨Option.some.inj (h.getRecipient.symm.trans hrecipient),
        Option.some.inj (h.getAirdropId.symm.trans hairdrop)⟩
    split
    · rename_i hskip
      refine .inl ⟨rfl, fun recipient' airdropId' hclaim hr => ?_⟩
      obtain ⟨rfl, rfl⟩ := hsame hclaim
      simp [hclaim.name, hclaim.recipient_truthy, hclaim.airdropId_truthy, hr] at hskip
    rename_i hgo
    simp only [Bool.or_eq_true, Bool.not_eq_true', decide_eq_true_eq, not_or, ne_eq,
      Decidable.not_not, Bool.not_eq_false] at hgo
    split
    · rename_i hfound
      refine .inl ⟨rfl, fun recipient' airdropId' hclaim hr => ?_⟩
      obtain ⟨rfl, rfl⟩ := hsame hclaim
      obtain ⟨e, he, hkey⟩ := List.any_eq_true.mp hfound
      exact ⟨e, he, beq_iff_eq.mp hkey⟩
    · rename_i hnew
      refine .inr ⟨recipient, airdropId, ?_, hgo.2, fun e he hkey => ?_, rfl⟩
      · exact ⟨hgo.1.1.1, hrecipient, hgo.1.1.2, hairdrop, hgo.1.2⟩
      · exact hnew (List.any_eq_true.mpr ⟨e, he, beq_iff_eq.mpr hkey⟩)
  · rename_i hnone
    exact .inl ⟨rfl, fun _ _ hclaim _ => absurd hclaim.getAirdropId (hnone _ _ hclaim.getRecipient)⟩

theorem marks_claims (r : String) : Marks (addClaim r) (ClaimAdded r) where
  leaves claims event := by
    rcases addClaim_cases r claims event with ⟨heq, hadded⟩ | ⟨recipient, airdropId, hclaim, hr, -, heq⟩
    · rw [heq]
      exact hadded
    · rw [heq]
      intro recipient' airdropId' hclaim' _
      obtain rfl := Option.some.inj (hclaim.getAirdropId.symm.trans hclaim'.getAirdropId)
      exact ⟨_, List.mem_append_right _ List.mem_cons_self, rfl⟩
  keeps claims event event' h := by
    intro recipient airdropId hclaim hr
    obtain ⟨e, he, hkey⟩ := h recipient airdropId hclaim hr
    refine ⟨e, ?_, hkey⟩
    rcases addClaim_cases r claims event with ⟨heq, -⟩ | ⟨_, _, -, -, -, heq⟩
    · rwa [heq]
    · rw [heq]
      exact List.mem_append_left _ he
  same claims event h := by
    rcases addClaim_cases r claims event with ⟨heq, -⟩ | ⟨recipient, airdropId, hclaim, hr, hnew, -⟩
    · exact heq
    · obtain ⟨e, he, hkey⟩ := h recipient airdropId hclaim hr
      exact absurd hkey (hnew e he)

theorem IsObj.applyEvent {key : Key} {o : Option Json} (h : IsObj o) (event : ParsedEvent) :
    IsObj (applyEvent key o event) := by
  unfold Indexer.applyEvent
  split
  · exact h.applied
  · exact h

/-- Each event acts on each field of a record, but the one that names it. -/
theorem acts_applyEvent {key : Key} {name : String} (hname : name ≠ key.idField) :
    Acts IsObj (applyEvent key) (field name) (fieldNorm key name)
      fun event => chainAct (fun _ => event) key name 0 where
  keeps _ event h := h.applyEvent event
  idem := fieldNorm_idem key name
  view_eq o event h := by
    have hacts : Acts IsObj (applyAt (fun _ => event) key) (field name) _ _ := acts_field hname
    exact hacts.view_eq o 0 h

/-- An event about a record leaves it stored. -/
theorem acts_isSome_event (key : Key) : Acts IsObj (applyEvent key) Option.isSome id
    fun event => if About key event then .set true else .keep where
  keeps _ event h := h.applyEvent event
  idem _ := rfl
  view_eq o event h := by
    have hacts : Acts IsObj (applyAt (fun _ => event) key) Option.isSome _ _ := acts_isSome
    exact hacts.view_eq o 0 h

/-- The field that names a record is left alone once the record is there. -/
theorem acts_idField {key : Key} : Acts (fun o => IsObj o ∧ o.isSome = true) (applyEvent key)
    (field key.idField) id fun _ => .keep where
  keeps o event h := by
    refine ⟨h.1.applyEvent event, ?_⟩
    unfold applyEvent
    split
    · rfl
    · exact h.2
  idem _ := rfl
  view_eq o event h := by
    obtain ⟨v, rfl⟩ := Option.isSome_iff_exists.mp h.2
    obtain ⟨fields, rfl⟩ := h.1 v rfl
    unfold applyEvent
    split
    · show (next key (.obj fields) event).get? key.idField = (Json.obj fields).get? key.idField
      rw [get?_next]
      have hevent : (Json.obj (eventPatch key (.obj fields) event)).get? key.idField = none := by
        cases key <;> rfl
      have hnamed : (Json.obj (namedPatch key (.obj fields) event)).get? key.idField = none := by
        unfold namedPatch
        cases key <;> cases event.event_name <;> rfl
      rw [hevent, hnamed]
      rfl
    · rfl

/-! ## 4. Twice is as good as once -/

/-- The same JSON value up to the order of its keys. -/
def SameJson : Option Json → Option Json → Prop
  | some (.obj fields), some (.obj fields') =>
    ∀ name, (Json.obj fields).get? name = (Json.obj fields').get? name
  | o, o' => o = o'

/-- The same events, ids, records and claims are stored, records up to the order of their keys. -/
structure SameStore (s s' : Store) : Prop where
  lastLedger : s'.lastLedger = s.lastLedger
  events : s'.events = s.events
  eventIds : s'.eventIds = s.eventIds
  airdropIds : s'.airdropIds = s.airdropIds
  records : ∀ key, SameJson (stored s' key) (stored s key)
  claims : s'.claims = s.claims

/-- What calls of `saveEvents` can leave: any number of them, in any interleaving, whatever commands
fail, and whichever calls are stopped before their end. -/
def Reachable (s : Store) : Prop :=
  ∃ (batches : ℕ → List ParsedEvent) (ls : List (ℕ × Fault)),
    (run (Pool.step (machine ℕ)) (beginSaves batches) ls).store = s

/-- Recipients are in a hash, and records are objects. -/
def Kept (s : Store) : Prop := AllMigrated s ∧ ∀ key, IsObj (stored s key)

/-- The contract of a call: records stay objects. -/
def keeping : Contract sig Fault Store where
  ok _ _ _ := True
  rely _ s' := Kept s'
  guar _ s' := Kept s'

section Keeps

variable {τ : Type} {i : τ}

/-- A piece of code under the contract, with what it returns; nothing is said of what is thrown. -/
def Keeps (τ : Type) (i : τ) {α : Type} (code : Code α) (φ : α → Prop) : Prop :=
  SatE (machine τ) i keeping code Kept (fun a s => φ a ∧ Kept s) fun _ _ => True

theorem keeps_redis {op : Op} {φ : op.Ret → Prop}
    (hop : ∀ s, Kept s → Kept (s.exec op).2 ∧ ∀ a, (s.exec op).1 = .ok a → φ a) :
    Keeps τ i (redis op) φ := by
  refine Sat.call (fun r => ?_) fun x s hs _ => ?_
  · cases r with
    | ok a => exact fun s s' h hr => ⟨h.1, hr⟩
    | error e => exact fun _ _ _ _ => trivial
  · obtain ⟨hkept, hreply⟩ := hop s hs
    cases x with
    | none =>
      refine ⟨hkept, ?_⟩
      rw [show (machine τ).exec i op Fault.none s = s.exec op from rfl]
      cases hr : (s.exec op).1 with
      | ok a => exact ⟨hreply a hr, hkept⟩
      | error e => trivial
    | before => exact ⟨hs, trivial⟩
    | after => exact ⟨hkept, trivial⟩

theorem keeps_pure {α : Type} {φ : α → Prop} {a : α} (h : φ a) : Keeps τ i (pure a) φ :=
  SatE.pure fun _ hs => ⟨h, hs⟩

theorem Keeps.bind {α β : Type} {code : Code α} {f : α → Code β} {φ : α → Prop} {ψ : β → Prop}
    (h : Keeps τ i code φ) (hf : ∀ a, φ a → Keeps τ i (f a) ψ) : Keeps τ i (code >>= f) ψ :=
  SatE.bind h fun a => SatE.assume (hf a)

theorem Kept.of_same (h : Kept s) (hsame : SameRecords s s') : Kept s' :=
  ⟨hsame.allMigrated h.1, fun key => hsame.stored key ▸ h.2 key⟩

/-- A command that has nothing to do with the records, or reads one. -/
theorem keeps_spares (op : Op) (hop : SparesRecords op) {φ : op.Ret → Prop}
    (hφ : ∀ s a, Kept s → (s.exec op).1 = .ok a → φ a) : Keeps τ i (redis op) φ :=
  keeps_redis fun s hs => ⟨hs.of_same (sameRecords_of_spares hop), fun a => hφ s a hs⟩

/-- A command that writes an object. -/
theorem keeps_writes {op : Op} {key : Key} {record : Json}
    (hop : Op.writes op = some (key, record)) (hrecord : IsObj (some record)) :
    Keeps τ i (redis op) fun _ => True := by
  refine keeps_redis fun s hs => ⟨?_, fun _ _ => trivial⟩
  obtain ⟨hmigrated, hstored⟩ := exec_writes hs.1 hop
  refine ⟨hmigrated, fun key' => ?_⟩
  rw [hstored]
  split
  · exact hrecord
  · exact hs.2 key'

theorem keeps_upsertAirdrop (event : ParsedEvent) :
    Keeps τ i (upsertAirdrop event) fun _ => True := by
  rw [upsertAirdrop_eq]
  split
  · exact keeps_pure trivial
  · rename_i a _
    refine Keeps.bind (φ := IsObj) (keeps_spares (.getAirdrop a) trivial fun s o hs ho => ?_)
      fun o ho => ?_
    · cases ho
      exact hs.2 (.airdrop a)
    · exact keeps_writes rfl ho.applied

theorem keeps_migrate (a : String) :
    Keeps τ i (migrateRecipientsListToHashIfNeeded a) fun _ => True := by
  refine Keeps.bind (φ := fun type => type ≠ "string")
    (keeps_spares (.recipientsType a) trivial ?_) fun type htype => ?_
  · rintro s type hs ⟨⟩
    cases hr : s.recipients a with
    | absent => simp [RecipientsKey.type]
    | list l => exact absurd hr (hs.1 a l)
    | hash entries => simp [RecipientsKey.type]
  · rw [if_pos htype]
    exact keeps_pure trivial

theorem keeps_upsertRecipient (event : ParsedEvent) :
    Keeps τ i (upsertRecipient event) fun _ => True := by
  rw [upsertRecipient_eq]
  split
  · exact keeps_pure trivial
  · rename_i a r _
    refine Keeps.bind (keeps_migrate a) fun _ _ => ?_
    refine Keeps.bind (φ := IsObj) (keeps_spares (.hget a r) trivial fun s o hs ho => ?_)
      fun o ho => ?_
    · have hread : IsObj (stored s (.recipient a r)) := hs.2 (.recipient a r)
      cases hrecipients : s.recipients a with
      | absent =>
        rw [show o = none by simpa [Store.exec, hrecipients] using ho.symm]
        exact isObj_none
      | list l => exact absurd hrecipients (hs.1 a l)
      | hash entries =>
        rw [stored, hrecipients] at hread
        rwa [show o = (Json.obj entries).get? r by simpa [Store.exec, hrecipients] using ho.symm]
    · exact keeps_writes rfl ho.applied

/-- **Every call** leaves objects in the records. -/
theorem keeps_saveEvents (events : List ParsedEvent) :
    Keeps τ i (saveEvents events) fun _ => True := by
  have hspares : ∀ {α : Type} {code : Code α}, Throws.Uses SparesRecords code →
      Keeps τ i code fun _ => True := by
    intro α code huses
    refine (SatE.frame (P := Kept) (fun _ _ _ h => h) (fun op hop x s hs _ => ?_) huses).mono
      (fun _ h => h) (fun _ _ h => ⟨trivial, h⟩) fun _ _ _ => trivial
    have hkept : Kept ((machine τ).exec i op x s).2 := by
      cases x with
      | none => exact hs.of_same (sameRecords_of_spares hop)
      | before => exact hs
      | after => exact hs.of_same (sameRecords_of_spares hop)
    exact ⟨hkept, hkept⟩
  refine Keeps.bind (hspares (uses_saveRecords (fun _ => trivial) (fun _ => trivial) events))
    fun _ _ => ?_
  induction events with
  | nil => exact keeps_pure trivial
  | cons event rest ih =>
    have hproject : Keeps τ i (project event) fun _ => True := by
      refine Keeps.bind (keeps_upsertAirdrop event) fun _ _ => ?_
      refine Keeps.bind (keeps_upsertRecipient event) fun _ _ => ?_
      split
      · exact hspares (uses_appendClaim (fun _ => trivial) (fun _ _ => trivial) event)
      · exact keeps_pure trivial
    exact Keeps.bind hproject fun _ _ => ih

end Keeps

theorem Reachable.kept (h : Reachable s) : Kept s := by
  obtain ⟨batches, ls, rfl⟩ := h
  have hinit : Kept .init := by
    refine ⟨fun _ _ h => (by cases h), fun key => ?_⟩
    cases key <;> exact isObj_none
  have hsafe : (beginSaves batches).Safe (machine ℕ) (fun _ => keeping) fun _ _ _ => True :=
    fun i => ⟨Kept, fun _ _ _ h => h, hinit, Sat.mono (keeps_saveEvents (batches i))
      (fun _ h => h) fun _ _ _ => trivial⟩
  refine hsafe.run_stable (fun _ _ _ _ h => h) (fun _ _ _ _ _ h => h) hinit ?_
  refine Along.of_forall (fun c l => ?_) _ ls
  unfold Pool.Issues
  split <;> trivial

/-- Of a record, events that are applied again change nothing. -/
theorem sameJson_foldl {key : Key} {o : Option Json} (ho : IsObj o) (batch : List ParsedEvent) :
    SameJson (batch.foldl (applyEvent key) (batch.foldl (applyEvent key) o))
      (batch.foldl (applyEvent key) o) := by
  have hsome := (acts_isSome_event key).foldl_foldl ho batch
  have hobj := (acts_isSome_event key).keeps_foldl ho batch
  have hobj' := (acts_isSome_event key).keeps_foldl hobj batch
  have hfield : ∀ name, name ≠ key.idField →
      field name (batch.foldl (applyEvent key) (batch.foldl (applyEvent key) o)) =
        field name (batch.foldl (applyEvent key) o) :=
    fun name hname => (acts_applyEvent hname).foldl_foldl ho batch
  have hid : (batch.foldl (applyEvent key) o).isSome = true →
      field key.idField (batch.foldl (applyEvent key) (batch.foldl (applyEvent key) o)) =
        field key.idField (batch.foldl (applyEvent key) o) :=
    fun h => (acts_idField.view_foldl ⟨hobj, h⟩ batch).trans (actAll_keep batch _)
  generalize batch.foldl (applyEvent key) (batch.foldl (applyEvent key) o) = twice at *
  generalize batch.foldl (applyEvent key) o = once at *
  cases once with
  | none =>
    obtain rfl : twice = none := by simpa using hsome
    rfl
  | some v =>
    obtain ⟨v', rfl⟩ := Option.isSome_iff_exists.mp hsome
    obtain ⟨fields, rfl⟩ := hobj v rfl
    obtain ⟨fields', rfl⟩ := hobj' v' rfl
    intro name
    by_cases hname : name = key.idField
    · exact hname ▸ hid rfl
    · exact hfield name hname

/-- The store after the airdrop `a` was created. -/
def createdStore : Store :=
  (run (Pool.step (machine ℕ)) (beginSaves fun _ => [sampleCreated])
    (List.replicate 4 (0, .none))).store

end SmartDrop.Indexer
