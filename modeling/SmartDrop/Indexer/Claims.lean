/-
# The claims of a recipient

`appendClaim` reads a recipient's list, looks for the claim and writes the list back with one
more entry.  Two pollers that do so at once both write the list they have read, and one claim is
lost (`claim_lost`).  When every write finds the list that its caller has read, and different
claims of a recipient differ in their key, each saved claim is in the list exactly once after
the calls have returned, however they are interleaved (`claims_complete`).
-/
import SmartDrop.Indexer.Store
import SmartDrop.Lib.Run
import Mathlib.Algebra.GroupWithZero.Nat

namespace SmartDrop.Indexer

open Conc JsonText Redis

/-! ## 1. Claims and their entries -/

/-- A `token_claimed` event that names a recipient and an airdrop. -/
structure IsClaim (event : ParsedEvent) (recipient airdropId : Json) : Prop where
  name : event.event_name = .token_claimed
  getRecipient : getRecipient event = some recipient
  recipient_truthy : Json.truthy (some recipient) = true
  getAirdropId : getAirdropId event = some airdropId
  airdropId_truthy : Json.truthy (some airdropId) = true

/-- The entry that `appendClaim` makes of a claim. -/
def claimEntry (event : ParsedEvent) (recipient airdropId : Json) : Json := .obj [
  ("event_id", .str event.id),
  ("airdrop_id", airdropId),
  ("recipient", recipient),
  ("amount", orNull [event.data.get? "amount"]),
  ("ledger", orNull [event.data.get? "ledger", some (.ofNat event.ledger)]),
  ("claimed_at", ofText event.ledger_closed_at)]

/-- The key of a claim. -/
def claimKey (event : ParsedEvent) (airdropId : Json) : String :=
  dedupKey (some (.str event.id)) (some airdropId)

/-- The key of an entry. -/
def entryKey (entry : Json) : String :=
  dedupKey (entry.get? "event_id") (entry.get? "airdrop_id")

/-- An entry is of the event with this id and of this airdrop. -/
def isEntryOf (event : ParsedEvent) (airdropId entry : Json) : Bool :=
  entry.get? "event_id" = some (.str event.id) && entry.get? "airdrop_id" = some airdropId

/-- Different claims of a recipient have different keys. -/
def DistinctKeys (saved : ParsedEvent → Prop) : Prop :=
  ∀ event event' recipient recipient' airdropId airdropId', saved event → saved event' →
    IsClaim event recipient airdropId → IsClaim event' recipient' airdropId' →
    templateText recipient = templateText recipient' →
    claimKey event airdropId = claimKey event' airdropId' →
    event.id = event'.id ∧ airdropId = airdropId'

/-- A write of a list finds the list that its caller has read. -/
def FindsRead (op : sig.Op) (_ : Fault) (s : Store) : Prop :=
  match op with
  | Op.setClaims recipient claims => s.claims recipient = claims.dropLast
  | _ => True

instance (op : sig.Op) (x : Fault) (s : Store) : Decidable (FindsRead op x s) := by
  cases op <;> unfold FindsRead <;> infer_instance

/-! ## 2. What every step keeps -/

/-- Every entry is one of a saved claim, and no key occurs twice in a list. -/
structure ClaimsOk (saved : ParsedEvent → Prop) (s : Store) : Prop where
  entry : ∀ r, ∀ e ∈ s.claims r, ∃ event recipient airdropId, saved event ∧
    IsClaim event recipient airdropId ∧ templateText recipient = r ∧
    e = claimEntry event recipient airdropId
  nodup : ∀ r, ((s.claims r).map entryKey).Nodup

/-- The lists only grow. -/
def Grows (saved : ParsedEvent → Prop) (s s' : Store) : Prop :=
  ClaimsOk saved s' ∧ ∀ r, s.claims r <+: s'.claims r

/-- The contract of every call. -/
def claiming (saved : ParsedEvent → Prop) : Contract sig Fault Store where
  ok := FindsRead
  rely := Grows saved
  guar := Grows saved

/-- The claim is in the list of its recipient. -/
def Listed (event : ParsedEvent) (recipient airdropId : Json) (s : Store) : Prop :=
  ∃ e ∈ s.claims (templateText recipient), entryKey e = claimKey event airdropId

variable {saved : ParsedEvent → Prop} {s s' : Store} {event : ParsedEvent}
  {recipient airdropId : Json}

theorem stable_claimsOk : Stable (Grows saved) (ClaimsOk saved) := fun _ _ _ h => h.1

theorem stable_listed : Stable (Grows saved) (Listed event recipient airdropId) := by
  rintro s s' ⟨e, he, hkey⟩ ⟨-, hgrows⟩
  exact ⟨e, (hgrows _).subset he, hkey⟩

@[simp] theorem entryKey_claimEntry :
    entryKey (claimEntry event recipient airdropId) = claimKey event airdropId := rfl

/-- Commands that leave the lists alone. -/
def SparesClaims (op : sig.Op) : Prop :=
  match op with
  | Op.setClaims .. => False
  | _ => True

theorem exec_claims {op : Op} (hop : SparesClaims op) : (s.exec op).2.claims = s.claims := by
  cases op with
  | setClaims => exact absurd hop id
  | advanceLastLedger expected next =>
    simp only [Store.exec]
    split <;> rfl
  | getRecipientsList airdropId =>
    simp only [Store.exec]
    split <;> rfl
  | hget airdropId recipient =>
    simp only [Store.exec]
    split <;> rfl
  | hset airdropId recipient record =>
    simp only [Store.exec]
    split <;> rfl
  | _ => rfl

theorem grows_of_same (h : ClaimsOk saved s) (hsame : s'.claims = s.claims) :
    Grows saved s s' :=
  ⟨⟨fun r => hsame ▸ h.entry r, fun r => hsame ▸ h.nodup r⟩,
    fun _ => hsame ▸ List.prefix_rfl⟩

theorem grows_of_spares {τ : Type} {i : τ} {op : sig.Op} (hop : SparesClaims op)
    (h : ClaimsOk saved s) (x : Fault) : Grows saved s ((machine τ).exec i op x s).2 := by
  cases x with
  | none => exact grows_of_same h (exec_claims hop)
  | before => exact grows_of_same h rfl
  | after => exact grows_of_same h (exec_claims hop)

/-- A claim whose key is not in the list is added to it. -/
theorem grows_of_append (h : ClaimsOk saved s) (hsaved : saved event)
    (hclaim : IsClaim event recipient airdropId)
    (hnew : ∀ e ∈ s.claims (templateText recipient), entryKey e ≠ claimKey event airdropId)
    (hself : s'.claims (templateText recipient) =
      s.claims (templateText recipient) ++ [claimEntry event recipient airdropId])
    (hother : ∀ r, r ≠ templateText recipient → s'.claims r = s.claims r) :
    Grows saved s s' ∧ Listed event recipient airdropId s' := by
  refine ⟨⟨⟨fun r e he => ?_, fun r => ?_⟩, fun r => ?_⟩, ?_⟩
  · by_cases hr : r = templateText recipient
    · subst hr
      rw [hself] at he
      rcases List.mem_append.mp he with hold | hone
      · exact h.entry _ e hold
      · exact ⟨event, recipient, airdropId, hsaved, hclaim, rfl, List.mem_singleton.mp hone⟩
    · rw [hother r hr] at he
      exact h.entry r e he
  · by_cases hr : r = templateText recipient
    · subst hr
      rw [hself, List.map_append, List.map_singleton, entryKey_claimEntry]
      refine List.Nodup.append (h.nodup _) (List.nodup_singleton _) ?_
      rintro key hkey hone
      obtain ⟨e, he, rfl⟩ := List.mem_map.mp hkey
      exact hnew e he (List.mem_singleton.mp hone)
    · rw [hother r hr]
      exact h.nodup r
  · by_cases hr : r = templateText recipient
    · subst hr
      rw [hself]
      exact List.prefix_append _ _
    · exact hother r hr ▸ List.prefix_rfl
  · refine ⟨claimEntry event recipient airdropId, ?_, entryKey_claimEntry⟩
    rw [hself]
    exact List.mem_append_right _ (List.mem_singleton_self _)

/-! ## 3. The code under the contract -/

section Code

variable {τ : Type} {i : τ}

/-- A piece of code under the contract; nothing is said of what is thrown. -/
def Claims (τ : Type) (i : τ) (saved : ParsedEvent → Prop) {α : Type} (code : Code α)
    (A : Store → Prop) (Q : α → Store → Prop) : Prop :=
  SatE (machine τ) i (claiming saved) code A Q fun _ _ => True

theorem claims_of_uses {α : Type} {code : Code α} (h : Throws.Uses SparesClaims code) :
    Claims τ i saved code (ClaimsOk saved) fun _ => ClaimsOk saved := by
  refine (SatE.frame stable_claimsOk (fun op hop x s hs _ => ?_) h).mono (fun _ h => h)
    (fun _ _ h => h) fun _ _ _ => trivial
  have hg := grows_of_spares (i := i) hop hs x
  exact ⟨hg, hg.1⟩

/-- One command: what it does, and what it replies unless it fails. -/
theorem claims_redis {op : Op} {A : Store → Prop} {Q : op.Ret → Store → Prop}
    (hst : ∀ a, Stable (Grows saved) (Q a)) (hA : ∀ s, A s → ClaimsOk saved s)
    (hop : ∀ s, A s → FindsRead op .none s → Grows saved s (s.exec op).2 ∧
      ∀ a, (s.exec op).1 = .ok a → Q a (s.exec op).2) :
    Claims τ i saved (redis op) A Q := by
  refine Sat.call (fun r => ?_) fun x s hs hok => ?_
  · cases r with
    | ok a => exact hst a
    | error e => exact fun _ _ _ _ => trivial
  · obtain ⟨hgrows, hreply⟩ := hop s hs hok
    cases x with
    | none =>
      refine ⟨hgrows, ?_⟩
      rw [show (machine τ).exec i op Fault.none s = s.exec op from rfl]
      generalize s.exec op = r at hreply
      obtain ⟨reply, s'⟩ := r
      cases reply with
      | ok a => exact hreply a rfl
      | error e => trivial
    | before => exact ⟨grows_of_same (hA s hs) rfl, trivial⟩
    | after => exact ⟨hgrows, trivial⟩

theorem uses_redis {φ : sig.Op → Prop} {op : Op} (h : φ op) : Throws.Uses φ (redis op) :=
  ⟨h, fun _ => trivial⟩

theorem uses_saveRecords {φ : sig.Op → Prop} (hevent : ∀ event, φ (Op.setEvent event))
    (hid : ∀ id, φ (Op.saddEvent id)) (events : List ParsedEvent) :
    Throws.Uses φ (saveRecords events) := by
  induction events with
  | nil => exact Throws.uses_pure _
  | cons event rest ih =>
    refine Throws.Uses.bind (uses_redis (hevent event)) fun _ => ?_
    exact Throws.Uses.bind (uses_redis (hid event.id)) fun _ => ih

/-- The commands on the records of airdrops and recipients. -/
def OnRecords (op : sig.Op) : Prop :=
  match op with
  | Op.getAirdrop _ | Op.putAirdrop .. | Op.recipientsType _ | Op.getRecipientsList _
  | Op.delRecipients _ | Op.hget .. | Op.hset .. => True
  | _ => False

theorem sparesClaims_of_onRecords (op : sig.Op) (h : OnRecords op) : SparesClaims op := by
  cases op with
  | setClaims => exact absurd h id
  | _ => trivial

section Uses

variable {φ : sig.Op → Prop} (hφ : ∀ op, OnRecords op → φ op)
include hφ

theorem uses_upsertAirdrop (event : ParsedEvent) : Throws.Uses φ (upsertAirdrop event) := by
  unfold upsertAirdrop
  split
  · exact Throws.uses_pure _
  split
  · exact Throws.uses_pure _
  split
  · exact Throws.uses_pure _
  · refine Throws.Uses.bind (uses_redis (hφ (Op.getAirdrop _) trivial)) fun _ => ?_
    exact uses_redis (hφ (Op.putAirdrop ..) trivial)

theorem uses_moveEntries (airdropId : String) (entries : List Json) :
    Throws.Uses φ (moveEntries airdropId entries) := by
  induction entries with
  | nil => exact Throws.uses_pure _
  | cons entry rest ih =>
    unfold moveEntries
    split
    · exact Throws.Uses.bind (uses_redis (hφ (Op.hset ..) trivial)) fun _ => ih
    · exact ih

theorem uses_migrate (airdropId : String) :
    Throws.Uses φ (migrateRecipientsListToHashIfNeeded airdropId) := by
  refine Throws.Uses.bind (uses_redis (hφ (Op.recipientsType _) trivial)) fun type => ?_
  split
  · exact Throws.uses_pure _
  refine Throws.Uses.bind (uses_redis (hφ (Op.getRecipientsList _) trivial)) fun list => ?_
  refine Throws.Uses.bind (uses_redis (hφ (Op.delRecipients _) trivial)) fun _ => ?_
  exact uses_moveEntries hφ _ _

theorem uses_upsertRecipient (event : ParsedEvent) : Throws.Uses φ (upsertRecipient event) := by
  unfold upsertRecipient
  split
  · split
    · exact Throws.uses_pure _
    refine Throws.Uses.bind (uses_migrate hφ _) fun _ => ?_
    refine Throws.Uses.bind (uses_redis (hφ (Op.hget ..) trivial)) fun _ => ?_
    exact uses_redis (hφ (Op.hset ..) trivial)
  · exact Throws.uses_pure _

end Uses

/-- The claim of an event is listed, if it is one. -/
def ClaimListed (event : ParsedEvent) (s : Store) : Prop :=
  ∀ recipient airdropId, IsClaim event recipient airdropId → Listed event recipient airdropId s

theorem stable_claimListed : Stable (Grows saved) (ClaimListed event) :=
  fun _ _ h hg recipient airdropId hclaim => stable_listed (h recipient airdropId hclaim) hg

/-- **`appendClaim`** leaves the claim listed. -/
theorem claims_appendClaim (hsaved : saved event) :
    Claims τ i saved (appendClaim event) (ClaimsOk saved) fun _ s =>
      ClaimsOk saved s ∧ ClaimListed event s := by
  unfold appendClaim
  split
  case h_2 hnone =>
    refine SatE.pure fun s hs => ⟨hs, fun recipient airdropId hclaim => ?_⟩
    exact absurd hclaim.getAirdropId (hnone _ _ hclaim.getRecipient)
  case h_1 recipient airdropId hrecipient hairdrop =>
    split
    · rename_i hskip
      refine SatE.pure fun s hs => ⟨hs, fun recipient' airdropId' hclaim => ?_⟩
      obtain rfl := Option.some.inj (hrecipient.symm.trans hclaim.getRecipient)
      obtain rfl := Option.some.inj (hairdrop.symm.trans hclaim.getAirdropId)
      simp [hclaim.name, hclaim.recipient_truthy, hclaim.airdropId_truthy] at hskip
    rename_i hgo
    have hclaim : IsClaim event recipient airdropId := by
      simp only [Bool.or_eq_true, Bool.not_eq_true', decide_eq_true_eq, not_or, ne_eq,
        Decidable.not_not, Bool.not_eq_false] at hgo
      exact ⟨hgo.1.1, hrecipient, hgo.1.2, hairdrop, hgo.2⟩
    have hlisted : ∀ s, Listed event recipient airdropId s → ClaimListed event s := by
      intro s h recipient' airdropId' hclaim'
      obtain rfl := Option.some.inj (hrecipient.symm.trans hclaim'.getRecipient)
      obtain rfl := Option.some.inj (hairdrop.symm.trans hclaim'.getAirdropId)
      exact h
    -- the list that is read is what others extend until it is written
    refine SatE.bind (Q := fun claims s => claims <+: s.claims (templateText recipient) ∧
      ClaimsOk saved s) ?_ fun claims => ?_
    · refine claims_redis (fun claims s s' hs hg => ⟨hs.1.trans (hg.2 _), hg.1⟩)
        (fun _ h => h) fun s hs _ => ⟨grows_of_same hs rfl, ?_⟩
      rintro claims h
      cases h
      exact ⟨List.prefix_rfl, hs⟩
    split
    · rename_i hfound
      refine SatE.pure fun s hs => ⟨hs.2, hlisted s ?_⟩
      obtain ⟨e, he, hkey⟩ := List.any_eq_true.mp hfound
      exact ⟨e, hs.1.subset he, beq_iff_eq.mp hkey⟩
    · rename_i hnew
      refine SatE.mono (claims_redis (Q := fun _ s => ClaimsOk saved s ∧
        Listed event recipient airdropId s) (fun _ s s' hs hg => ⟨hg.1, stable_listed hs.2 hg⟩)
        (fun _ h => h.2) fun s hs hok => ?_) (fun _ h => h)
        (fun _ s h => ⟨h.1, hlisted s h.2⟩) fun _ _ h => h
      have hread : s.claims (templateText recipient) = claims := by
        have : s.claims (templateText recipient) =
          (claims ++ [claimEntry event recipient airdropId]).dropLast := hok
        simpa using this
      have hgrows : Grows saved s (s.exec (.setClaims (templateText recipient)
          (claims ++ [claimEntry event recipient airdropId]))).2 ∧
          Listed event recipient airdropId (s.exec (.setClaims (templateText recipient)
            (claims ++ [claimEntry event recipient airdropId]))).2 := by
        refine grows_of_append hs.2 hsaved hclaim (fun e he hkey => ?_) ?_ fun r hr => ?_
        · rw [hread] at he
          exact hnew (List.any_eq_true.mpr ⟨e, he, beq_iff_eq.mpr hkey⟩)
        · rw [hread]
          exact Function.update_self ..
        · exact Function.update_of_ne hr ..
      exact ⟨hgrows.1, fun _ _ => ⟨hgrows.1.1, hgrows.2⟩⟩

/-- The projections of one event. -/
theorem claims_project (hsaved : saved event) :
    Claims τ i saved (project event) (ClaimsOk saved) fun _ s =>
      ClaimsOk saved s ∧ ClaimListed event s := by
  have hspares := sparesClaims_of_onRecords
  refine SatE.bind (claims_of_uses (uses_upsertAirdrop hspares event)) fun _ => ?_
  refine SatE.bind (claims_of_uses (uses_upsertRecipient hspares event)) fun _ => ?_
  split
  · exact claims_appendClaim hsaved
  · rename_i hname
    exact SatE.pure fun s hs => ⟨hs, fun _ _ hclaim => absurd hclaim.name hname⟩

/-- **The loop**: what it has listed stays listed. -/
theorem claims_projectAll {events : List ParsedEvent} (hsaved : ∀ event ∈ events, saved event) :
    Claims τ i saved (projectAll events) (ClaimsOk saved) fun _ s =>
      ClaimsOk saved s ∧ ∀ event ∈ events, ClaimListed event s := by
  induction events with
  | nil => exact SatE.pure fun s hs => ⟨hs, fun _ h => absurd h List.not_mem_nil⟩
  | cons event rest ih =>
    refine SatE.bind (claims_project (hsaved event List.mem_cons_self)) fun _ => ?_
    have hrest := SatE.keep (ih fun event' h => hsaved event' (List.mem_cons_of_mem _ h))
      (B := ClaimListed event) stable_claimListed stable_claimListed
    refine hrest.mono (fun _ h => h) (fun _ s h => ⟨h.1.1, fun event' h' => ?_⟩) fun _ _ h => h.1
    rcases List.mem_cons.mp h' with rfl | h'
    · exact h.2
    · exact h.1.2 event' h'

/-- **A call of `saveEvents`** that returns has listed its claims. -/
theorem claims_saveEvents {events : List ParsedEvent} (hsaved : ∀ event ∈ events, saved event) :
    Claims τ i saved (saveEvents events) (ClaimsOk saved) fun _ s =>
      ClaimsOk saved s ∧ ∀ event ∈ events, ClaimListed event s :=
  SatE.bind (claims_of_uses (uses_saveRecords (fun _ => trivial) (fun _ => trivial) events)) fun _ => claims_projectAll hsaved

end Code

/-! ## 4. Every interleaving -/

/-- The database, and what each call of `saveEvents` has still to do. -/
abbrev Saves (τ : Type) := Pool sig (Except Err Unit) τ Store

/-- Every call is about to begin, on an empty database. -/
def beginSaves {τ : Type} (batches : τ → List ParsedEvent) : Saves τ :=
  ⟨.init, fun i => (saveEvents (batches i)).prog⟩

theorem ClaimsOk.init : ClaimsOk saved .init where
  entry _ _ h := by cases h
  nodup _ := List.nodup_nil

/-- An entry that is in a list under a key which occurs once is the only one that satisfies `p`. -/
theorem countP_eq_one {α β : Type} [DecidableEq β] {l : List α} {f : α → β} {p : α → Bool} {x : α}
    (hnodup : (l.map f).Nodup) (hx : x ∈ l) (hp : p x = true)
    (honly : ∀ y ∈ l, p y = true → f y = f x) : l.countP p = 1 := by
  have hcount : (l.map f).count (f x) = 1 :=
    List.count_eq_one_of_mem hnodup (List.mem_map_of_mem hx)
  rw [List.count, List.countP_map] at hcount
  rw [← hcount]
  refine List.countP_congr fun y hy => ?_
  simp only [Function.comp, beq_iff_eq]
  refine ⟨honly y hy, fun hy' => ?_⟩
  have := List.inj_on_of_nodup_map hnodup hy hx hy'
  exact this ▸ hp

/-- **Claim histories are complete.**  Any calls of `saveEvents` run in any interleaving, every
write of a list finds the list that its caller has read, and different claims of a recipient
have different keys.  Once all calls have returned, every claim of the batches is in the list of
its recipient exactly once. -/
theorem claims_complete {τ : Type} [DecidableEq τ] (batches : τ → List ParsedEvent)
    (hkeys : DistinctKeys fun event => ∃ i, event ∈ batches i) (ls : List (τ × Fault))
    (hls : Along (Pool.step (machine τ)) (Pool.Issues FindsRead) (beginSaves batches) ls)
    (hdone : ∀ i, (run (Pool.step (machine τ)) (beginSaves batches) ls).prog i = .ret (.ok ()))
    (i : τ) (event : ParsedEvent) (hevent : event ∈ batches i) (recipient airdropId : Json)
    (hclaim : IsClaim event recipient airdropId) :
    ((run (Pool.step (machine τ)) (beginSaves batches) ls).store.claims
      (templateText recipient)).countP (isEntryOf event airdropId) = 1 := by
  have hsafe : (run (Pool.step (machine τ)) (beginSaves batches) ls).Safe (machine τ)
      (fun _ => claiming fun event => ∃ i, event ∈ batches i) fun i r s => r = .ok () →
        ClaimsOk (fun event => ∃ i, event ∈ batches i) s ∧ ∀ event ∈ batches i, ClaimListed event s := by
    refine Pool.Safe.run (fun _ _ _ _ _ h => h) (fun j => ?_) hls
    refine ⟨_, stable_claimsOk, ClaimsOk.init, Sat.mono (claims_saveEvents fun event h => ⟨j, h⟩)
      (fun _ h => h) ?_⟩
    rintro (e | u) s h heq
    · cases heq
    · exact h
  obtain ⟨hok, hlisted⟩ := hsafe.done (hdone i) rfl
  obtain ⟨e, he, hkey⟩ := hlisted event hevent recipient airdropId hclaim
  -- an entry is of the claim exactly when it has its key
  have hentry : ∀ e' ∈ (run (Pool.step (machine τ)) (beginSaves batches) ls).store.claims
      (templateText recipient), entryKey e' = claimKey event airdropId →
      isEntryOf event airdropId e' = true := by
    intro e' he' hkey'
    obtain ⟨event', recipient', airdropId', hsaved', hclaim', hrecipient', rfl⟩ := hok.entry _ e' he'
    obtain ⟨hid, rfl⟩ := hkeys event event' recipient recipient' airdropId airdropId' ⟨i, hevent⟩
      hsaved' hclaim hclaim' hrecipient'.symm hkey'.symm
    simp [isEntryOf, claimEntry, Json.get?, hid]
  refine countP_eq_one (hok.nodup _) he (hentry e he hkey) fun e' he' hof => ?_
  simp only [isEntryOf, Bool.and_eq_true, decide_eq_true_eq] at hof
  rw [hkey, entryKey, hof.1, hof.2]
  rfl

/-! ## 5. Two pollers at once -/

/-- A claim of `GA` in the airdrop `a`. -/
def sampleClaim (id : String) : ParsedEvent where
  id
  event_name := .token_claimed
  type := "contract"
  ledger := 1
  ledger_closed_at := none
  paging_token := none
  contract_id := none
  in_successful_contract_call := true
  data := .obj [("airdrop_id", .str "a"), ("recipient", .str "GA")]
  decodedTopics := []
  decodedValue := .null
  rawTopics := []
  rawValue := none
  indexed_at := 0

/-- Two pollers with one claim each. -/
def sampleBatches : Fin 2 → List ParsedEvent
  | 0 => [sampleClaim "1"]
  | 1 => [sampleClaim "2"]

/-- The run of the sample batches in which each label lets one poller take a step. -/
def sampleSaves (ls : List (Fin 2)) : Saves (Fin 2) :=
  run (Pool.step (machine (Fin 2))) (beginSaves sampleBatches) (ls.map fun i => (i, .none))

local instance twoPollers : NeZero 2 := ⟨Nat.succ_ne_zero 1⟩

/-- Both pollers have come to the list of claims, both read it, and both write it. -/
def sampleOverlap : List (Fin 2) :=
  List.replicate 7 0 ++ List.replicate 7 1 ++ [0, 1, 0, 1]

theorem sampleClaim_isClaim (id : String) : IsClaim (sampleClaim id) (.str "GA") (.str "a") :=
  ⟨rfl, rfl, by decide, rfl, by decide⟩

/-- The second write removes the claim of the first. -/
theorem claim_lost : ¬ ((∀ i, (sampleSaves sampleOverlap).prog i = .ret (.ok ())) →
    ((sampleSaves sampleOverlap).store.claims "GA").countP
      (isEntryOf (sampleClaim "1") (.str "a")) = 1) := by
  intro h
  refine absurd (h ?_) (by decide +kernel)
  intro i
  match i with
  | 0 => rfl
  | 1 => rfl

theorem mem_sampleBatches {event : ParsedEvent} (h : ∃ i, event ∈ sampleBatches i) :
    event = sampleClaim "1" ∨ event = sampleClaim "2" := by
  obtain ⟨i, hi⟩ := h
  match i with
  | 0 => exact Or.inl (List.mem_singleton.mp hi)
  | 1 => exact Or.inr (List.mem_singleton.mp hi)

theorem sampleBatches_distinct : DistinctKeys fun event => ∃ i, event ∈ sampleBatches i := by
  intro event event' recipient recipient' airdropId airdropId' hsaved hsaved' hclaim hclaim' _ hkey
  have hone : ∀ {event : ParsedEvent} {airdropId : Json}, (∃ i, event ∈ sampleBatches i) →
      getAirdropId event = some airdropId → airdropId = .str "a" := by
    intro event airdropId h hid
    rcases mem_sampleBatches h with rfl | rfl <;> exact (Option.some.inj hid).symm
  obtain rfl := hone hsaved hclaim.getAirdropId
  obtain rfl := hone hsaved' hclaim'.getAirdropId
  rcases mem_sampleBatches hsaved with rfl | rfl <;>
    rcases mem_sampleBatches hsaved' with rfl | rfl
  · exact ⟨rfl, rfl⟩
  · exact absurd hkey (by decide +kernel)
  · exact absurd hkey (by decide +kernel)
  · exact ⟨rfl, rfl⟩

/-- When one poller comes after the other, both claims are in the list. -/
theorem claims_complete_sample :
    ((sampleSaves (List.replicate 9 0 ++ List.replicate 9 1)).store.claims
      (templateText (.str "GA"))).countP (isEntryOf (sampleClaim "1") (.str "a")) = 1 := by
  have hdone : ∀ i, (sampleSaves (List.replicate 9 0 ++ List.replicate 9 1)).prog i =
      .ret (.ok ()) := by
    intro i
    match i with
    | 0 => rfl
    | 1 => rfl
  unfold sampleSaves at *
  exact claims_complete sampleBatches sampleBatches_distinct _ (by decide +kernel) hdone 0
    (sampleClaim "1") (List.mem_singleton_self _) (.str "GA") (.str "a") (sampleClaim_isClaim "1")

end SmartDrop.Indexer
