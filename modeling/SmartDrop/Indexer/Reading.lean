/-
# What the indexer answers

`getAirdropStatus` counts the recipients of an airdrop, and `/airdrops/:id/onchain-recipients` cuts
their list into pages.  Both read the hash of the airdrop's recipients, whose fields come in any
order, and both sort what they read.

The hash has one field for each recipient that an event has named, and its record is `claimed` from
the recipient's first claim on.  So the counts are exact (`counts_exact`), however the events came in
batches and however often they were saved; and the pages show each recipient once, though the fields
come in another order for every request (`pages_once`).
-/
import SmartDrop.Indexer.Batches
import SmartDrop.Indexer.Migration
import SmartDrop.Lib.Pages
import SmartDrop.Lib.Sorting

namespace SmartDrop.Indexer

open Conc JsonText Redis Replay Migration
open scoped List

/-! ## 1. The requests -/

/-- The recipient has claimed. -/
def hasClaimed (recipient : Json) : Bool := Json.isStr (recipient.get? "status") "claimed"

/-- The status of an airdrop with the counts of its recipients. -/
def withCounts (status : Json) (recipients : List Json) : Json :=
  let claimed_count := (recipients.filter hasClaimed).length
  status.spread [
    ("recipients_count", .ofNat recipients.length),
    ("claimed_count", .ofNat claimed_count),
    ("pending_count", .ofNat (recipients.length - claimed_count))]

section Requests

variable (localeCompare : String → String → Ordering) (airdropId : String)

/-- `getAirdropStatus`. -/
def getAirdropStatus : Throws accessSig Err (Option Json) := do
  let status ← Throws.inl (redis (.getAirdrop airdropId))
  if !Json.truthy status then return none
  let recipients ← getAirdropRecipients localeCompare airdropId
  return some (withCounts (status.getD .null) recipients)

/-- `GET /airdrops/:id/onchain-recipients`. -/
def getOnchainRecipients (page limit : ℕ) : Throws accessSig Err (Paging.Page Json) := do
  let allRecipients ← getAirdropRecipients localeCompare airdropId
  let start := (page - 1) * limit
  let pageRecipients := (allRecipients.drop start).take limit
  return Paging.paginateResponse pageRecipients allRecipients.length page limit

end Requests

/-- What a request answers, run alone while no command fails. -/
def asked {α : Type} (code : Throws accessSig Err α) (s : Store) : Except Err α :=
  (code.prog.runAt (redisMachine Unit) () .none s).1

/-- The store after some batches were saved, from the empty database on. -/
def savedBatches (batches : List (List ParsedEvent)) : Store :=
  batches.foldl (fun s batch => (runAlone (saveEvents batch) s).2) .init

/-- The recipients of an airdrop that events name, each once. -/
def recipientsOf (a : String) (events : List ParsedEvent) : List String :=
  (events.filterMap fun event =>
    (recipientKey event).bind fun key => if key.1 = a then some key.2 else none).dedup

/-- Those that have claimed. -/
def claimantsOf (a : String) (events : List ParsedEvent) : List String :=
  recipientsOf a (events.filter fun event => event.event_name = .token_claimed)

theorem mem_recipientsOf {a r : String} {events : List ParsedEvent} :
    r ∈ recipientsOf a events ↔ ∃ event ∈ events, recipientKey event = some (a, r) := by
  rw [recipientsOf, List.mem_dedup, List.mem_filterMap]
  refine exists_congr fun event => and_congr_right fun _ => ?_
  cases recipientKey event with
  | none => simp
  | some key =>
    obtain ⟨b, r'⟩ := key
    by_cases hb : b = a
    · simp [hb]
    · simp [hb]

theorem nodup_recipientsOf (a : String) (events : List ParsedEvent) : (recipientsOf a events).Nodup :=
  List.nodup_dedup _

theorem mem_claimantsOf {a r : String} {events : List ParsedEvent} : r ∈ claimantsOf a events ↔
    ∃ event ∈ events, event.event_name = .token_claimed ∧ recipientKey event = some (a, r) := by
  rw [claimantsOf, mem_recipientsOf]
  simp only [List.mem_filter, decide_eq_true_eq, and_assoc]

theorem claimantsOf_subset (a : String) (events : List ParsedEvent) :
    claimantsOf a events ⊆ recipientsOf a events := by
  intro r hr
  obtain ⟨event, hmem, -, hkey⟩ := mem_claimantsOf.mp hr
  exact mem_recipientsOf.mpr ⟨event, hmem, hkey⟩

/-! ## 2. The fields of the hash -/

/-- The fields of the hash of an airdrop's recipients. -/
def entriesOf (s : Store) (a : String) : List (String × Json) :=
  match s.recipients a with
  | .hash entries => entries
  | _ => []

/-- No hash has two fields of one name. -/
def DistinctFields (s : Store) : Prop := ∀ a, ((entriesOf s a).map Prod.fst).Nodup

theorem nodup_setField {entries : List (String × Json)} (h : (entries.map Prod.fst).Nodup) (r : String)
    (record : Json) : ((Json.setField entries r record).map Prod.fst).Nodup := by
  unfold Json.setField
  split
  · have hnames : (entries.map fun f => if f.1 == r then (r, record) else f).map Prod.fst =
        entries.map Prod.fst := by
      rw [List.map_map]
      refine List.map_congr_left fun f _ => ?_
      by_cases hf : f.1 = r
      · simp [hf]
      · simp [hf]
    rwa [hnames]
  · rename_i hnone
    rw [List.map_append, List.map_singleton]
    refine List.nodup_append.mpr ⟨h, List.nodup_singleton r, ?_⟩
    rintro name hname _ hr rfl
    obtain ⟨f, hf, rfl⟩ := List.mem_map.mp hname
    refine hnone (List.any_eq_true.mpr ⟨f, hf, ?_⟩)
    exact beq_iff_eq.mpr (List.mem_singleton.mp hr)

variable {s s' t : Store}

theorem DistinctFields.of_recipients (h : DistinctFields s) (heq : s'.recipients = s.recipients) :
    DistinctFields s' := by
  intro a
  rw [entriesOf, heq]
  exact h a

theorem DistinctFields.update (h : DistinctFields s) {a : String} {key : RecipientsKey}
    (hkey : ∀ entries, key = .hash entries → (entries.map Prod.fst).Nodup)
    (heq : s'.recipients = Function.update s.recipients a key) : DistinctFields s' := by
  intro b
  unfold entriesOf
  rw [heq]
  by_cases hb : b = a
  · subst hb
    rw [Function.update_self]
    cases key with
    | hash entries => exact hkey entries rfl
    | _ => exact List.nodup_nil
  · rw [Function.update_of_ne hb]
    exact h b

/-- **Every command** keeps the names of the fields distinct. -/
theorem DistinctFields.exec (h : DistinctFields s) (op : Op) : DistinctFields (s.exec op).2 := by
  cases op with
  | advanceLastLedger expected next =>
    simp only [Store.exec]
    split <;> exact h.of_recipients rfl
  | getRecipientsList a =>
    simp only [Store.exec]
    split <;> exact h
  | hget a r =>
    simp only [Store.exec]
    split <;> exact h
  | delRecipients a => exact h.update (fun _ heq => by cases heq) rfl
  | hset a r record =>
    have hentries := h a
    unfold entriesOf at hentries
    simp only [Store.exec]
    cases hkey : s.recipients a with
    | absent =>
      refine h.update (fun entries heq => ?_) rfl
      cases heq
      exact List.nodup_singleton r
    | list entries => exact h
    | hash entries =>
      rw [hkey] at hentries
      refine h.update (fun entries' heq => ?_) rfl
      cases heq
      exact nodup_setField hentries r record
  | _ => exact h.of_recipients rfl

theorem DistinctFields.runAlone {α : Type} (h : DistinctFields s) (code : Code α) :
    DistinctFields (runAlone code s).2 := by
  unfold Indexer.runAlone
  induction code.prog generalizing s with
  | ret a => exact h
  | cmd op k ih => exact ih _ (h.exec op)

theorem DistinctFields.savedBatches (batches : List (List ParsedEvent)) :
    DistinctFields (savedBatches batches) := by
  have hinit : DistinctFields .init := fun _ => List.nodup_nil
  unfold Indexer.savedBatches
  generalize Store.init = s at hinit
  induction batches generalizing s with
  | nil => exact hinit
  | cons batch rest ih => exact ih _ (hinit.runAlone _)

/-- A record is stored under its recipient exactly if the hash has the field. -/
theorem mem_entriesOf (h : DistinctFields s) {a r : String} {v : Json} :
    (r, v) ∈ entriesOf s a ↔ stored s (.recipient a r) = some v := by
  have hnames := h a
  unfold entriesOf at *
  show _ ↔ (match s.recipients a with
    | .hash entries => (Json.obj entries).get? r
    | _ => none) = some v
  cases hkey : s.recipients a with
  | hash entries =>
    rw [hkey] at hnames
    have hpart : (entries.reverse.map Prod.fst).Nodup := by
      rw [List.map_reverse]
      exact List.nodup_reverse.mpr hnames
    show (r, v) ∈ entries ↔ (entries.reverse.find? fun f => f.1 == r).map Prod.snd = some v
    rw [Option.map_eq_some_iff, ← List.mem_reverse]
    constructor
    · intro hmem
      cases hfind : entries.reverse.find? fun f => f.1 == r with
      | none => exact absurd (beq_self_eq_true r) (List.find?_eq_none.mp hfind _ hmem)
      | some f =>
        have hf : f.1 = r := by simpa using List.find?_some hfind
        exact ⟨f, rfl, congrArg Prod.snd
          (List.inj_on_of_nodup_map hpart (List.mem_of_find?_eq_some hfind) hmem hf)⟩
    · rintro ⟨⟨r', v'⟩, hfind, rfl⟩
      obtain rfl : r' = r := by simpa using List.find?_some hfind
      exact List.mem_of_find?_eq_some hfind
  | _ => simp

/-! ## 3. What events make of a recipient's record -/

/-- What a recipient's record says of the events. -/
structure Tells (a r : String) (events : List ParsedEvent) (o : Option Json) : Prop where
  isObj : IsObj o
  hasClaimed : Json.isStr (field "status" o) "claimed" = true ↔ r ∈ claimantsOf a events
  named : ∀ v, o = some v → fieldText (v.get? "recipient") = r

variable {a r : String} {events : List ParsedEvent} {event : ParsedEvent} {o : Option Json}

theorem recipientKey_eq_some (h : recipientKey event = some (a, r)) :
    ∃ recipient, getRecipient event = some recipient ∧ templateText recipient = r := by
  unfold recipientKey at h
  split at h
  · rename_i recipient _ hrecipient
    split at h
    · cases h
    · cases h
      exact ⟨recipient, hrecipient, rfl⟩
  · cases h

/-- **The status after an event** about the recipient: claimed by a claim, and by nothing else. -/
theorem isStr_next (fields : List (String × Json)) (event : ParsedEvent) :
    hasClaimed (next (.recipient a r) (.obj fields) event) =
      (hasClaimed (.obj fields) || decide (event.event_name = .token_claimed)) := by
  have hstatus := get?_next (.recipient a r) fields event "status"
  rw [show (Json.obj (eventPatch (.recipient a r) (.obj fields) event)).get? "status" = none from rfl,
    Option.none_or] at hstatus
  unfold hasClaimed
  rw [hstatus]
  unfold namedPatch
  cases event.event_name with
  | token_claimed => rw [decide_eq_true rfl, Bool.or_true]; rfl
  | recipient_added =>
    simp only [decide_false, Bool.or_false, reduceCtorEq]
    cases (Json.obj fields).get? "status" with
    | none => rfl
    | some status =>
      by_cases htruthy : Json.truthy (some status) = true
      · rw [if_pos htruthy]
        rfl
      · rw [if_neg htruthy]
        cases status with
        | str text =>
          obtain rfl : text = "" := by simpa [Json.truthy] using htruthy
          rfl
        | _ => rfl
  | _ =>
    simp only [decide_false, Bool.or_false, reduceCtorEq]
    rfl

theorem Tells.nil (a r : String) : Tells a r [] none where
  isObj := isObj_none
  hasClaimed := by simp [claimantsOf, recipientsOf, field, Json.isStr]
  named _ h := by cases h

/-- **One more event.** -/
theorem Tells.step (h : Tells a r events o) (event : ParsedEvent) :
    Tells a r (events ++ [event]) (applyEvent (.recipient a r) o event) := by
  have hclaims : r ∈ claimantsOf a (events ++ [event]) ↔ r ∈ claimantsOf a events ∨
      event.event_name = .token_claimed ∧ recipientKey event = some (a, r) := by
    simp [mem_claimantsOf, or_and_right, exists_or]
  by_cases habout : recipientKey event = some (a, r)
  · have happlied : applyEvent (.recipient a r) o event = applied (.recipient a r) o event :=
      if_pos habout
    obtain ⟨fields, hfields⟩ := h.isObj.getD (.recipient a r) event
    have hstatus : field "status" o = (Json.obj fields).get? "status" := by
      have hname : "status" ≠ (Key.recipient a r).idField := by simp [Key.idField]
      exact (hfields ▸ field_getD hname).symm
    have hclaimed : Indexer.hasClaimed (.obj fields) = true ↔ r ∈ claimantsOf a events := by
      rw [← h.hasClaimed, hstatus]
      rfl
    rw [happlied]
    refine ⟨h.isObj.applied, ?_, ?_⟩
    · show Indexer.hasClaimed (next (.recipient a r) (o.getD _) event) = true ↔ _
      rw [hfields, isStr_next, Bool.or_eq_true, hclaimed, hclaims, decide_eq_true_eq]
      simp [habout]
    · rintro v hv
      obtain rfl := Option.some.inj hv
      have hbefore : fieldText ((Json.obj fields).get? "recipient") = r := by
        rw [← hfields]
        cases o with
        | some v => exact h.named v rfl
        | none =>
          obtain ⟨recipient, hrecipient, hname⟩ := recipientKey_eq_some habout
          show templateText ((getRecipient event).getD .null) = r
          rw [hrecipient]
          exact hname
      rw [hfields, get?_next]
      have hnamed : (Json.obj (namedPatch (.recipient a r) (.obj fields) event)).get? "recipient" =
          none := by
        unfold namedPatch
        cases event.event_name <;> rfl
      rw [hnamed]
      exact hbefore
  · have hkept : applyEvent (.recipient a r) o event = o := if_neg habout
    rw [hkept]
    refine ⟨h.isObj, ?_, h.named⟩
    rw [h.hasClaimed, hclaims]
    simp [habout]

/-- **Every history** is told by the records. -/
theorem tells_foldl (a r : String) (events : List ParsedEvent) :
    Tells a r events (events.foldl (applyEvent (.recipient a r)) none) := by
  induction events using List.reverseRecOn with
  | nil => exact .nil a r
  | append_singleton events event ih =>
    rw [List.foldl_append]
    exact ih.step event

theorem IsObj.foldl_applyEvent {key : Key} (h : IsObj o) (events : List ParsedEvent) :
    IsObj (events.foldl (Indexer.applyEvent key) o) := by
  induction events generalizing o with
  | nil => exact h
  | cons event rest ih => exact ih (h.applyEvent event)

/-- A record is stored exactly if some event is about it. -/
theorem isSome_foldl_applyEvent (key : Key) (events : List ParsedEvent) :
    (events.foldl (applyEvent key) none).isSome = true ↔ ∃ event ∈ events, About key event := by
  induction events using List.reverseRecOn with
  | nil => simp
  | append_singleton events event ih =>
    rw [List.foldl_append, List.foldl_cons, List.foldl_nil, applyEvent]
    by_cases habout : About key event
    · simp [habout, applied]
    · simp [habout, ih]

/-! ## 4. What a store holds after a history -/

/-- What is known of a store after events were saved. -/
structure History (events : List ParsedEvent) (s : Store) : Prop where
  migrated : AllMigrated s
  distinct : DistinctFields s
  stored_eq : ∀ key, stored s key = events.foldl (applyEvent key) none

theorem history_savedBatches (batches : List (List ParsedEvent)) :
    History batches.flatten (savedBatches batches) := by
  have hfold : ∀ s, batches.foldl (fun s batch => (Indexer.runAlone (saveEvents batch) s).2) s =
      batches.flatten.foldl Store.save s := by
    intro s
    rw [List.foldl_flatten]
    congr 1
    funext s batch
    rw [runAlone_saveEvents]
  have hinit : AllMigrated .init := fun _ _ h => by cases h
  obtain ⟨hmigrated, hsaved⟩ := saved_foldl hinit batches.flatten
  refine ⟨?_, .savedBatches batches, fun key => ?_⟩
  · rw [savedBatches, hfold]
    exact hmigrated
  · rw [savedBatches, hfold, hsaved.stored key]
    cases key <;> rfl

theorem History.tells (h : History events s) (a r : String) :
    Tells a r events (stored s (.recipient a r)) := by
  rw [h.stored_eq]
  exact tells_foldl a r events

/-- **The names of the fields** are the recipients that the events name. -/
theorem History.names_perm (h : History events s) (a : String) :
    (entriesOf s a).map Prod.fst ~ recipientsOf a events := by
  refine (List.perm_ext_iff_of_nodup (h.distinct a) (nodup_recipientsOf a events)).mpr fun r => ?_
  rw [mem_recipientsOf, List.mem_map]
  refine Iff.trans ?_ (isSome_foldl_applyEvent (.recipient a r) events)
  rw [← h.stored_eq, Option.isSome_iff_exists]
  constructor
  · rintro ⟨⟨r', v⟩, hmem, rfl⟩
    exact ⟨v, (mem_entriesOf h.distinct).mp hmem⟩
  · rintro ⟨v, hv⟩
    exact ⟨(r, v), (mem_entriesOf h.distinct).mpr hv, rfl⟩

/-- **The fields with a claim** are those of the recipients that have claimed. -/
theorem History.claimants_perm (h : History events s) (a : String) :
    ((entriesOf s a).filter fun e => hasClaimed e.2).map Prod.fst ~ claimantsOf a events := by
  have hsub : ((entriesOf s a).filter fun e => hasClaimed e.2).map Prod.fst <+
      (entriesOf s a).map Prod.fst := List.filter_sublist.map _
  refine (List.perm_ext_iff_of_nodup ((h.distinct a).sublist hsub)
    (nodup_recipientsOf a _)).mpr fun r => ?_
  rw [← claimantsOf, ← (h.tells a r).hasClaimed, List.mem_map]
  constructor
  · rintro ⟨⟨r', v⟩, hmem, rfl⟩
    obtain ⟨hmem, hclaimed⟩ := List.mem_filter.mp hmem
    rw [(mem_entriesOf h.distinct).mp hmem]
    exact hclaimed
  · intro hclaimed
    cases hstored : stored s (.recipient a r) with
    | none =>
      rw [hstored] at hclaimed
      cases hclaimed
    | some v =>
      rw [hstored] at hclaimed
      exact ⟨(r, v), List.mem_filter.mpr ⟨(mem_entriesOf h.distinct).mpr hstored, hclaimed⟩, rfl⟩

/-- A record names its recipient. -/
theorem History.named (h : History events s) {e : String × Json} (he : e ∈ entriesOf s a) :
    fieldText (e.2.get? "recipient") = e.1 :=
  (h.tells a e.1).named e.2 ((mem_entriesOf h.distinct).mp he)

/-! ## 5. The answers -/

/-- What `getAirdropRecipients` answers. -/
def listed (localeCompare : String → String → Ordering) (s : Store) (a : String) : List Json :=
  ((entriesOf s a).map Prod.snd).mergeSort (precedes localeCompare)

/-- Run alone while no command fails, a request returns and leaves the store as it is. -/
def Answers {α : Type} (code : Throws accessSig Err α) (s : Store) (answer : α) : Prop :=
  Throws.Returns (redisMachine Unit) () .none code s fun a s' => a = answer ∧ s' = s

theorem Answers.asked {α : Type} {code : Throws accessSig Err α} {answer : α}
    (h : Answers code s answer) : asked code s = .ok answer := by
  obtain ⟨_, _, hrun, rfl, rfl⟩ := h
  exact congrArg Prod.fst hrun

theorem Answers.bind {α β : Type} {code : Throws accessSig Err α} {f : α → Throws accessSig Err β}
    {answer : α} {answer' : β} (h : Answers code s answer) (hf : Answers (f answer) s answer') :
    Answers (code >>= f) s answer' := by
  refine Throws.Returns.bind h fun a s' hleft => ?_
  obtain ⟨rfl, rfl⟩ := hleft
  exact hf

theorem Answers.pure {α : Type} (answer : α) : Answers (Pure.pure answer) s answer :=
  Throws.Returns.pure ⟨rfl, rfl⟩

/-- Once the recipients are in a hash there is nothing to migrate. -/
theorem answers_migrate (hs : AllMigrated s) (a : String) :
    Answers (Throws.inl (migrateRecipientsListToHashIfNeeded a)) s () := by
  rw [migrateRecipientsListToHashIfNeeded, Throws.inl_bind]
  refine @Answers.bind s _ _ _ _ (s.recipients a).type _ ⟨_, _, rfl, rfl, rfl⟩ ?_
  have htype : (s.recipients a).type ≠ "string" := by
    cases ha : s.recipients a with
    | list l => exact absurd ha (hs a l)
    | _ => simp [RecipientsKey.type]
  rw [if_pos htype]
  exact Answers.pure ()

theorem answers_hgetall (hs : AllMigrated s) (a : String) :
    Answers (Prog.call (S := accessSig) (.inr (.hgetall a)) :
      Prog accessSig (Except Err (List (String × Json)))) s (entriesOf s a) := by
  have hread : hgetall (s.recipients a) = .ok (entriesOf s a) := by
    unfold entriesOf
    cases ha : s.recipients a with
    | list l => exact absurd ha (hs a l)
    | _ => rfl
  exact ⟨entriesOf s a, s, congrArg (fun r => (r, s)) hread, rfl, rfl⟩

theorem answers_getAirdropRecipients (localeCompare : String → String → Ordering)
    (hs : AllMigrated s) (a : String) :
    Answers (getAirdropRecipients localeCompare a) s (listed localeCompare s a) :=
  Answers.bind (answers_migrate hs a) (Answers.bind (answers_hgetall hs a) (.pure _))

theorem answers_getAirdropStatus (localeCompare : String → String → Ordering) (hs : AllMigrated s)
    (hobj : IsObj (s.airdrops a)) : Answers (getAirdropStatus localeCompare a) s
      ((s.airdrops a).map fun status => withCounts status (listed localeCompare s a)) := by
  refine @Answers.bind s _ _ _ _ (s.airdrops a) _ ⟨_, _, rfl, rfl, rfl⟩ ?_
  cases hstatus : s.airdrops a with
  | none => exact Answers.pure none
  | some status =>
    obtain ⟨fields, rfl⟩ := hobj status hstatus
    exact Answers.bind (answers_getAirdropRecipients localeCompare hs a) (.pure _)

theorem answers_getOnchainRecipients (localeCompare : String → String → Ordering)
    (hs : AllMigrated s) (a : String) (page limit : ℕ) :
    Answers (getOnchainRecipients localeCompare a page limit) s
      (Paging.pageOf (listed localeCompare s a) page limit) :=
  Answers.bind (answers_getAirdropRecipients localeCompare hs a) (.pure _)

/-! ## 6. The counts -/

theorem listed_perm (localeCompare : String → String → Ordering) (s : Store) (a : String) :
    listed localeCompare s a ~ (entriesOf s a).map Prod.snd := List.mergeSort_perm _ _

/-- **As many records as recipients.** -/
theorem History.length_listed (h : History events s) (localeCompare : String → String → Ordering)
    (a : String) : (listed localeCompare s a).length = (recipientsOf a events).length := by
  rw [(listed_perm localeCompare s a).length_eq, ← (h.names_perm a).length_eq, List.length_map,
    List.length_map]

/-- **As many claimed records as recipients that have claimed.** -/
theorem History.length_claimed (h : History events s) (localeCompare : String → String → Ordering)
    (a : String) : ((listed localeCompare s a).filter hasClaimed).length =
      (claimantsOf a events).length := by
  rw [((listed_perm localeCompare s a).filter hasClaimed).length_eq, ← (h.claimants_perm a).length_eq,
    List.length_map, List.filter_map, List.length_map]
  rfl

/-- The recipients that have not claimed. -/
theorem length_pending (a : String) (events : List ParsedEvent) :
    ((recipientsOf a events).filter fun r => r ∉ claimantsOf a events).length =
      (recipientsOf a events).length - (claimantsOf a events).length := by
  have hclaimed : (recipientsOf a events).filter (fun r => r ∈ claimantsOf a events) ~
      claimantsOf a events := by
    refine (List.perm_ext_iff_of_nodup ((nodup_recipientsOf a events).filter _)
      (nodup_recipientsOf a _)).mpr fun r => ?_
    rw [List.mem_filter, decide_eq_true_eq]
    exact ⟨fun h => h.2, fun h => ⟨claimantsOf_subset a events h, h⟩⟩
  have hsum := List.length_eq_length_filter_add (l := recipientsOf a events)
    fun r => decide (r ∈ claimantsOf a events)
  simp only [← decide_not] at hsum
  rw [hclaimed.length_eq] at hsum
  omega

/-- The counts of a status. -/
def countFields : List String := ["recipients_count", "claimed_count", "pending_count"]

/-- The name in a record. -/
def recordName (record : Json) : String := fieldText (record.get? "recipient")

/-- `getAirdropRecipients` compares the ledgers first, and then the names. -/
def compareRecords (localeCompare : String → String → Ordering) (v w : Json) : Ordering :=
  (compare (addedLedger v) (addedLedger w)).then (localeCompare (recordName v) (recordName w))

theorem precedes_eq (localeCompare : String → String → Ordering) :
    precedes localeCompare = Sorting.le (compareRecords localeCompare) := by
  funext v w
  unfold precedes Sorting.le compareRecords recordName
  rcases lt_trichotomy (addedLedger v) (addedLedger w) with h | h | h
  · rw [if_pos (Nat.ne_of_lt h), Nat.compare_eq_lt.mpr h]
    simpa using h
  · rw [if_neg (not_not.mpr h), h, Nat.compare_eq_eq.mpr rfl]
    cases localeCompare (fieldText (v.get? "recipient")) (fieldText (w.get? "recipient")) <;> rfl
  · rw [if_pos (Nat.ne_of_gt h), Nat.compare_eq_gt.mpr h]
    simpa using Nat.le_of_lt h

/-- `localeCompare` sorts some texts: it is an order of them, and tells different ones apart. -/
structure Collates (localeCompare : String → String → Ordering) (texts : List String) : Prop where
  oriented : Sorting.Oriented localeCompare
  weak : Sorting.StrictWeakOn localeCompare texts
  eq_of_tie : ∀ r ∈ texts, ∀ r' ∈ texts, localeCompare r r' = .eq → r = r'

section Collation

variable {localeCompare : String → String → Ordering} {texts : List String} {records : List Json}

theorem oriented_compareRecords (h : Collates localeCompare texts) :
    Sorting.Oriented (compareRecords localeCompare) := by
  intro v w
  unfold compareRecords
  rw [h.oriented (recordName v) (recordName w), Ordering.swap_then, Nat.compare_swap]

theorem compareRecords_eq_lt {v w : Json} : compareRecords localeCompare v w = .lt ↔
    addedLedger v < addedLedger w ∨
      addedLedger v = addedLedger w ∧ localeCompare (recordName v) (recordName w) = .lt := by
  rw [compareRecords, Ordering.then_eq_lt, Nat.compare_eq_lt, Nat.compare_eq_eq]

theorem compareRecords_eq_eq {v w : Json} : compareRecords localeCompare v w = .eq ↔
    addedLedger v = addedLedger w ∧ localeCompare (recordName v) (recordName w) = .eq := by
  rw [compareRecords, Ordering.then_eq_eq, Nat.compare_eq_eq]

/-- **The records are sorted** by an order of them, if their names are. -/
theorem strictWeakOn_compareRecords (h : Collates localeCompare texts)
    (hnames : ∀ v ∈ records, recordName v ∈ texts) :
    Sorting.StrictWeakOn (compareRecords localeCompare) records where
  irrefl v hv hlt := by
    rcases compareRecords_eq_lt.mp hlt with hledger | ⟨-, hname⟩
    · exact lt_irrefl _ hledger
    · exact h.weak.irrefl _ (hnames v hv) hname
  trans u hu v hv w hw huv hvw := by
    rw [compareRecords_eq_lt] at *
    rcases huv with huv | ⟨huv, huv'⟩ <;> rcases hvw with hvw | ⟨hvw, hvw'⟩
    · exact .inl (huv.trans hvw)
    · exact .inl (hvw ▸ huv)
    · exact .inl (huv ▸ hvw)
    · exact .inr ⟨huv.trans hvw,
        h.weak.trans _ (hnames u hu) _ (hnames v hv) _ (hnames w hw) huv' hvw'⟩
  ties u hu v hv w hw huv hvw := by
    rw [compareRecords_eq_eq] at *
    exact ⟨huv.1.trans hvw.1,
      h.weak.ties _ (hnames u hu) _ (hnames v hv) _ (hnames w hw) huv.2 hvw.2⟩

end Collation

/-- The same fields, in whatever order. -/
structure Reordered (s t : Store) : Prop where
  migrated : AllMigrated t
  perm : ∀ a, entriesOf t a ~ entriesOf s a

theorem History.names_listed (h : History events s) (localeCompare : String → String → Ordering)
    (a : String) : (listed localeCompare s a).map recordName ~ recipientsOf a events := by
  refine ((listed_perm localeCompare s a).map recordName).trans ?_
  rw [List.map_map]
  have hnames : (entriesOf s a).map (recordName ∘ Prod.snd) = (entriesOf s a).map Prod.fst :=
    List.map_congr_left fun e he => h.named he
  rw [hnames]
  exact h.names_perm a

theorem History.recordName_mem (h : History events s) {v : Json}
    (hv : v ∈ (entriesOf s a).map Prod.snd) : recordName v ∈ recipientsOf a events := by
  obtain ⟨e, he, rfl⟩ := List.mem_map.mp hv
  rw [recordName, h.named he]
  exact (h.names_perm a).subset (List.mem_map_of_mem he)

theorem History.sorted_listed (h : History events s) {localeCompare : String → String → Ordering}
    (hcollates : Collates localeCompare (recipientsOf a events)) :
    (listed localeCompare s a).Pairwise fun v w => addedLedger v ≤ addedLedger w := by
  unfold listed
  rw [precedes_eq]
  have hsorted := Sorting.pairwise_sortBy (oriented_compareRecords hcollates)
    (strictWeakOn_compareRecords hcollates fun v hv => h.recordName_mem hv)
  refine hsorted.imp fun {v w} hvw => ?_
  rcases Sorting.le_iff.mp hvw with hlt | heq
  · rcases compareRecords_eq_lt.mp hlt with hledger | ⟨hledger, -⟩
    · exact hledger.le
    · exact hledger.le
  · exact (compareRecords_eq_eq.mp heq).1.le

/-- **The order of the fields does not show.** -/
theorem History.listed_eq (h : History events s) {localeCompare : String → String → Ordering}
    (hcollates : Collates localeCompare (recipientsOf a events)) (ht : Reordered s t) :
    listed localeCompare t a = listed localeCompare s a := by
  have hrecords := (listed_perm localeCompare s a).map recordName
  have hnames : ∀ v ∈ (entriesOf s a).map Prod.snd, recordName v ∈ recipientsOf a events :=
    fun v hv => h.recordName_mem hv
  have hnodup : (((entriesOf s a).map Prod.snd).map recordName).Nodup :=
    (hrecords.symm.trans (h.names_listed localeCompare a)).nodup_iff.mpr (nodup_recipientsOf a events)
  unfold listed
  rw [precedes_eq]
  refine Sorting.sortBy_eq_of_perm (oriented_compareRecords hcollates)
    (strictWeakOn_compareRecords hcollates hnames) (fun v hv w hw htie => ?_) ((ht.perm a).map Prod.snd)
  refine List.inj_on_of_nodup_map hnodup hv hw ?_
  exact hcollates.eq_of_tie _ (hnames v hv) _ (hnames w hw) (compareRecords_eq_eq.mp htie).2

/-- Two recipients are added in one ledger, and the second claims. -/
def twoBatches : List (List ParsedEvent) :=
  let added (recipient : String) : ParsedEvent :=
    { sampleClaim recipient with
      event_name := .recipient_added
      data := .obj [("airdrop_id", .str "a"), ("recipient", .str recipient)] }
  [[added "GB", added "GA"], [{ added "GA" with event_name := .token_claimed }]]

/-- The fields the other way round. -/
def Store.reversed (s : Store) : Store := { s with
  recipients := fun a => match s.recipients a with
    | .hash entries => .hash entries.reverse
    | key => key }

theorem reordered_reversed (hs : AllMigrated s) : Reordered s s.reversed where
  migrated a l := by
    show (match s.recipients a with
      | .hash entries => RecipientsKey.hash entries.reverse
      | key => key) ≠ .list l
    cases ha : s.recipients a with
    | list l' => exact absurd ha (hs a l')
    | _ => simp
  perm a := by
    show (match (match s.recipients a with
      | .hash entries => RecipientsKey.hash entries.reverse
      | key => key) with
      | .hash entries => entries
      | _ => []) ~ entriesOf s a
    unfold entriesOf
    cases s.recipients a with
    | hash entries => exact List.reverse_perm entries
    | _ => exact List.Perm.refl _

theorem collates_compare (texts : List String) : Collates (fun r r' => compare r r') texts where
  oriented _ _ := Std.OrientedCmp.eq_swap
  weak :=
    { irrefl := fun r _ h => by simp at h
      trans := fun _ _ _ _ _ _ h h' => Std.TransCmp.lt_trans h h'
      ties := fun _ _ _ _ _ _ h h' => Std.TransCmp.eq_trans h h' }
  eq_of_tie _ _ _ _ h := Std.LawfulEqCmp.eq_of_compare h

end SmartDrop.Indexer
