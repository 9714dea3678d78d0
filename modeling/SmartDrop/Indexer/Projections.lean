/-
# Projections of a chain

What `upsertAirdrop` and `upsertRecipient` make of the events of a chain: each projection (an
airdrop's record, or a recipient's) is folded over the events about it.  Every field but the one
that names the record is left alone, set or normalised by an event (`acts_field`), so applying an
event early and again later is as good as applying it later only.
-/
import SmartDrop.Indexer.Store
import SmartDrop.Lib.Replay

namespace SmartDrop.Indexer

open Conc JsonText Redis Replay

/-! ## 1. What an event is about -/

/-- The records that are derived from events. -/
inductive Key where
  | airdrop (airdropId : String)
  | recipient (airdropId recipient : String)
deriving DecidableEq

/-- The airdrop that `upsertAirdrop` writes, if it writes one. -/
def airdropKey (event : ParsedEvent) : Option String :=
  match getAirdropId event with
  | none => none
  | some airdropId =>
    if !Json.truthy (some airdropId) then none
    else if event.event_name = .airdrop_created && !hasCreatedData event then none
    else some (templateText airdropId)

/-- The recipient that `upsertRecipient` writes, if it writes one. -/
def recipientKey (event : ParsedEvent) : Option (String × String) :=
  match getAirdropId event, getRecipient event with
  | some airdropId, some recipient =>
    if !Json.truthy (some airdropId) || !Json.truthy (some recipient) then none
    else some (templateText airdropId, templateText recipient)
  | _, _ => none

/-- The event is about this record. -/
def About (key : Key) (event : ParsedEvent) : Prop :=
  match key with
  | .airdrop a => airdropKey event = some a
  | .recipient a r => recipientKey event = some (a, r)

instance (key : Key) (event : ParsedEvent) : Decidable (About key event) := by
  cases key <;> unfold About <;> infer_instance

/-- The field that names the record. -/
def Key.idField : Key → String
  | .airdrop _ => "airdrop_id"
  | .recipient .. => "recipient"

/-- The record before its first event. -/
def initial (key : Key) (event : ParsedEvent) : Json :=
  match key with
  | .airdrop _ => .obj [("airdrop_id", (getAirdropId event).getD .null)]
  | .recipient .. => .obj [("recipient", (getRecipient event).getD .null)]

/-- The record after an event. -/
def next (key : Key) (existing : Json) (event : ParsedEvent) : Json :=
  match key with
  | .airdrop _ => nextAirdrop existing event
  | .recipient .. => nextRecipient existing ((getAirdropId event).getD .null) event

/-- What is stored of a record after an event that is about it. -/
def applied (key : Key) (o : Option Json) (event : ParsedEvent) : Option Json :=
  some (next key (o.getD (initial key event)) event)

/-- The events of a chain, by their positions. -/
abbrev Chain := ℕ → ParsedEvent

/-- What is stored of a record after the event at a position. -/
def applyAt (chain : Chain) (key : Key) (o : Option Json) (k : ℕ) : Option Json :=
  if About key (chain k) then applied key o (chain k) else o

/-- **The projection** of the events at some positions, each applied once in their order. -/
def projection (chain : Chain) (ks : List ℕ) (key : Key) : Option Json :=
  ks.foldl (applyAt chain key) none

/-- A field of what is stored. -/
def field (name : String) (o : Option Json) : Option Json := o.bind fun v => v.get? name

/-! ## 2. Records are objects -/

/-- What is stored is an object. -/
def IsObj (o : Option Json) : Prop := ∀ v, o = some v → ∃ fields, v = .obj fields

theorem isObj_none : IsObj none := fun _ h => by cases h

variable {chain : Chain} {key : Key} {event : ParsedEvent} {o : Option Json} {name : String}

theorem isObj_initial (key : Key) (event : ParsedEvent) :
    ∃ fields, initial key event = .obj fields := by
  cases key <;> exact ⟨_, rfl⟩

theorem isObj_next (fields : List (String × Json)) :
    ∃ fields', next key (.obj fields) event = .obj fields' := by
  cases key with
  | airdrop a =>
    unfold next nextAirdrop
    dsimp only
    split <;> exact ⟨_, rfl⟩
  | recipient a r =>
    unfold next nextRecipient
    dsimp only
    split <;> exact ⟨_, rfl⟩

/-- What an event is applied to. -/
theorem IsObj.getD (h : IsObj o) (key : Key) (event : ParsedEvent) :
    ∃ fields, o.getD (initial key event) = .obj fields := by
  cases o with
  | none => exact isObj_initial key event
  | some v => exact h v rfl

theorem IsObj.applied (h : IsObj o) : IsObj (applied key o event) := by
  obtain ⟨fields, hfields⟩ := h.getD key event
  rintro v hv
  obtain rfl := Option.some.inj hv
  rw [hfields]
  exact isObj_next fields

theorem IsObj.applyAt (h : IsObj o) (k : ℕ) : IsObj (applyAt chain key o k) := by
  unfold Indexer.applyAt
  split
  · exact h.applied
  · exact h

/-- The field of what an event is applied to. -/
theorem field_getD (hname : name ≠ key.idField) :
    (o.getD (initial key event)).get? name = field name o := by
  cases o with
  | some v => rfl
  | none =>
    cases key with
    | airdrop a =>
      have hne : name ≠ "airdrop_id" := hname
      simp [initial, Json.get?, field, Ne.symm hne]
    | recipient a r =>
      have hne : name ≠ "recipient" := hname
      simp [initial, Json.get?, field, Ne.symm hne]

/-! ## 3. How an event acts on a field -/

/-- A status after a claim. -/
def claimedStatus (status : Option Json) : Option Json :=
  some (.str (if Json.isStr status "expired" then "expired" else "active"))

/-- A status after a recipient was added. -/
def addedStatus (status : Option Json) : Option Json :=
  some (if Json.truthy status then status.getD .null else .str "pending")

/-- An amount that an event does not change. -/
def sameAmount (amount : Option Json) : Option Json := some (orNull [amount])

theorem claimedStatus_idem (b : Option Json) :
    claimedStatus (claimedStatus b) = claimedStatus b := by
  unfold claimedStatus
  split <;> rfl

theorem addedStatus_idem (b : Option Json) : addedStatus (addedStatus b) = addedStatus b := by
  unfold addedStatus
  cases b with
  | none => rfl
  | some v =>
    by_cases hv : Json.truthy (some v) = true
    · simp [hv]
    · simp only [hv]
      rfl

theorem sameAmount_idem (b : Option Json) : sameAmount (sameAmount b) = sameAmount b := by
  unfold sameAmount orNull
  cases b with
  | none => rfl
  | some v => cases v <;> rfl

/-- The way to normalise a field. -/
def fieldNorm (key : Key) (name : String) : Option Json → Option Json :=
  match key with
  | .airdrop _ => if name = "status" then claimedStatus else id
  | .recipient .. =>
    if name = "status" then addedStatus else if name = "amount" then sameAmount else id

/-- What an event does to a field whose new value does not depend on the old one. -/
def overwrite (key : Key) (name : String) (event : ParsedEvent) : Act (Option Json) :=
  match (next key (.obj []) event).get? name with
  | some v => .set (some v)
  | none => .keep

/-- What an event does to a field. -/
def eventAct (key : Key) (name : String) (event : ParsedEvent) : Act (Option Json) :=
  match key with
  | .airdrop _ =>
    if name = "status" ∧ event.event_name = .token_claimed then .norm
    else overwrite key name event
  | .recipient .. =>
    if name = "status" ∧ event.event_name = .recipient_added then .norm
    else if name = "amount" ∧ ¬ isPresent (event.data.get? "amount") then .norm
    else overwrite key name event

theorem fieldNorm_idem (key : Key) (name : String) (b : Option Json) :
    fieldNorm key name (fieldNorm key name b) = fieldNorm key name b := by
  unfold fieldNorm
  cases key with
  | airdrop a =>
    dsimp only
    split
    · exact claimedStatus_idem b
    · rfl
  | recipient a r =>
    dsimp only
    split
    · exact addedStatus_idem b
    split
    · exact sameAmount_idem b
    · rfl

/-- The fields that every event about a record writes. -/
def eventPatch (key : Key) (existing : Json) (event : ParsedEvent) : List (String × Json) :=
  match key with
  | .airdrop _ =>
    [("updated_ledger", .ofNat event.ledger),
      ("updated_at", ofText event.ledger_closed_at)]
  | .recipient .. =>
    [("airdrop_id", (getAirdropId event).getD .null),
      ("amount", orNull [event.data.get? "amount", existing.get? "amount"]),
      ("updated_ledger", .ofNat event.ledger),
      ("updated_at", ofText event.ledger_closed_at)]

/-- The fields that an event writes after these, by its name. -/
def namedPatch (key : Key) (existing : Json) (event : ParsedEvent) : List (String × Json) :=
  match key, event.event_name with
  | .airdrop _, .airdrop_created =>
    [("status", .str "created"),
      ("creator", orNull [event.data.get? "creator", existing.get? "creator"]),
      ("token", orNull [event.data.get? "token", existing.get? "token"]),
      ("total_amount", orNull [event.data.get? "total_amount", existing.get? "total_amount"]),
      ("expiry_ledger", orNull [event.data.get? "expiry_ledger", existing.get? "expiry_ledger"]),
      ("created_ledger", .ofNat event.ledger),
      ("created_at", ofText event.ledger_closed_at)]
  | .airdrop _, .token_claimed =>
    [("status", .str (if Json.isStr (existing.get? "status") "expired" then "expired"
      else "active"))]
  | .airdrop _, .airdrop_expired =>
    [("status", .str "expired"),
      ("unclaimed_amount", orNull [event.data.get? "unclaimed_amount"]),
      ("expired_ledger", .ofNat event.ledger),
      ("expired_at", ofText event.ledger_closed_at)]
  | .recipient .., .recipient_added =>
    [("status", if Json.truthy (existing.get? "status") then (existing.get? "status").getD .null
        else .str "pending"),
      ("added_ledger", .ofNat event.ledger)]
  | .recipient .., .token_claimed =>
    [("status", .str "claimed"),
      ("claimed_ledger", orNull [event.data.get? "ledger", some (.ofNat event.ledger)]),
      ("claimed_at", ofText event.ledger_closed_at)]
  | _, _ => []

theorem next_eq (key : Key) (fields : List (String × Json)) (event : ParsedEvent) :
    next key (.obj fields) event = ((Json.obj fields).spread
      (eventPatch key (.obj fields) event)).spread (namedPatch key (.obj fields) event) := by
  cases key with
  | airdrop a =>
    unfold next nextAirdrop namedPatch
    dsimp only
    cases event.event_name <;> rfl
  | recipient a r =>
    unfold next nextRecipient namedPatch
    dsimp only
    cases event.event_name <;> rfl

/-- A field after an event: what the later patch says, else the earlier, else what it was. -/
theorem get?_next (key : Key) (fields : List (String × Json)) (event : ParsedEvent)
    (name : String) : (next key (.obj fields) event).get? name =
      ((Json.obj (namedPatch key (.obj fields) event)).get? name).or
        (((Json.obj (eventPatch key (.obj fields) event)).get? name).or
          ((Json.obj fields).get? name)) := by
  rw [next_eq, ← Json.get?_spread_eq]
  exact Json.get?_spread_eq _ _ _

/-- A field of which the patches say the same whatever the record was. -/
theorem overwrite_of_patches {N : Option Json → Option Json} {fields : List (String × Json)}
    (hevent : (Json.obj (eventPatch key (.obj fields) event)).get? name =
      (Json.obj (eventPatch key (.obj []) event)).get? name)
    (hnamed : (Json.obj (namedPatch key (.obj fields) event)).get? name =
      (Json.obj (namedPatch key (.obj []) event)).get? name) :
    (next key (.obj fields) event).get? name =
      (overwrite key name event).apply N ((Json.obj fields).get? name) := by
  unfold overwrite
  rw [get?_next, get?_next, hevent, hnamed, show (Json.obj []).get? name = none from rfl]
  cases (Json.obj (namedPatch key (.obj []) event)).get? name with
  | some v => rfl
  | none =>
    cases (Json.obj (eventPatch key (.obj []) event)).get? name with
    | some v => rfl
    | none => rfl

theorem orNull_present {v : Option Json} (h : isPresent v = true) (rest : List (Option Json)) :
    orNull (v :: rest) = v.getD .null := by
  cases v with
  | none => cases h
  | some v => simp [orNull, h]

theorem isPresent_of_truthy {v : Option Json} (h : Json.truthy v = true) : isPresent v = true := by
  cases v with
  | none => cases h
  | some v => cases v with
    | null => cases h
    | _ => rfl

/-- An `airdrop_created` event that `upsertAirdrop` takes has its data. -/
theorem hasCreatedData_of_about {a : String} (h : About (.airdrop a) event)
    (hname : event.event_name = .airdrop_created) : hasCreatedData event = true := by
  have h' : airdropKey event = some a := h
  unfold airdropKey at h'
  split at h'
  · cases h'
  split at h'
  · cases h'
  split at h'
  · cases h'
  · rename_i hdata
    simpa [hname] using hdata

/-- **What an event does to a field of an airdrop.** -/
theorem get?_nextAirdrop {a : String} (h : About (.airdrop a) event)
    (fields : List (String × Json)) :
    (next (.airdrop a) (.obj fields) event).get? name = (eventAct (.airdrop a) name event).apply
      (fieldNorm (.airdrop a) name) ((Json.obj fields).get? name) := by
  unfold eventAct
  dsimp only
  by_cases hclaim : name = "status" ∧ event.event_name = .token_claimed
  · obtain ⟨rfl, hname⟩ := hclaim
    rw [if_pos ⟨rfl, hname⟩, get?_next]
    simp only [namedPatch, hname, Act.apply, fieldNorm, if_true]
    rfl
  rw [if_neg hclaim]
  refine overwrite_of_patches rfl ?_
  unfold namedPatch
  cases hname : event.event_name with
  | airdrop_created =>
    have hdata := hasCreatedData_of_about h hname
    simp only [hasCreatedData, Bool.and_eq_true] at hdata
    simp only [orNull_present (isPresent_of_truthy hdata.1.1.1),
      orNull_present (isPresent_of_truthy hdata.1.1.2), orNull_present hdata.1.2,
      orNull_present hdata.2]
  | token_claimed =>
    have hne : name ≠ "status" := fun hstatus => hclaim ⟨hstatus, hname⟩
    exact Json.get?_congr (.cons ⟨rfl, fun heq => absurd heq.symm hne⟩ .nil)
  | recipient_added => rfl
  | airdrop_expired => rfl

/-- **What an event does to a field of a recipient.** -/
theorem get?_nextRecipient {a r : String} (fields : List (String × Json)) :
    (next (.recipient a r) (.obj fields) event).get? name =
      (eventAct (.recipient a r) name event).apply
        (fieldNorm (.recipient a r) name) ((Json.obj fields).get? name) := by
  unfold eventAct
  dsimp only
  by_cases hadded : name = "status" ∧ event.event_name = .recipient_added
  · obtain ⟨rfl, hname⟩ := hadded
    rw [if_pos ⟨rfl, hname⟩, get?_next]
    simp only [namedPatch, hname, Act.apply, fieldNorm, if_true]
    rfl
  rw [if_neg hadded]
  by_cases hamount : name = "amount" ∧ ¬ isPresent (event.data.get? "amount")
  · obtain ⟨rfl, habsent⟩ := hamount
    rw [if_pos ⟨rfl, habsent⟩, get?_next]
    have hnamed : (Json.obj (namedPatch (.recipient a r) (.obj fields) event)).get? "amount" =
        none := by
      unfold namedPatch
      cases event.event_name <;> rfl
    have horNull : orNull [event.data.get? "amount", (Json.obj fields).get? "amount"] =
        orNull [(Json.obj fields).get? "amount"] := by
      unfold orNull
      cases hdata : event.data.get? "amount" with
      | none => rfl
      | some v =>
        rw [hdata] at habsent
        simp [habsent]
    rw [hnamed]
    simp only [eventPatch, horNull]
    rfl
  rw [if_neg hamount]
  refine overwrite_of_patches ?_ ?_
  · by_cases hname : name = "amount"
    · have hpresent : isPresent (event.data.get? "amount") = true := by
        by_contra habsent
        exact hamount ⟨hname, habsent⟩
      simp only [eventPatch, orNull_present hpresent]
    · exact Json.get?_congr (.cons ⟨rfl, fun _ => rfl⟩
        (.cons ⟨rfl, fun heq => absurd heq.symm hname⟩
          (.cons ⟨rfl, fun _ => rfl⟩ (.cons ⟨rfl, fun _ => rfl⟩ .nil))))
  · unfold namedPatch
    cases hname : event.event_name with
    | recipient_added =>
      have hne : name ≠ "status" := fun hstatus => hadded ⟨hstatus, hname⟩
      exact Json.get?_congr (.cons ⟨rfl, fun heq => absurd heq.symm hne⟩
        (.cons ⟨rfl, fun _ => rfl⟩ .nil))
    | airdrop_created => rfl
    | token_claimed => rfl
    | airdrop_expired => rfl

/-! ## 4. How the events of a chain act -/

/-- What the event at a position of a chain does to a field of a record. -/
def chainAct (chain : Chain) (key : Key) (name : String) (k : ℕ) : Act (Option Json) :=
  if About key (chain k) then eventAct key name (chain k) else .keep

/-- **Each event acts on each field**: it leaves it, sets it or normalises it. -/
theorem acts_field (hname : name ≠ key.idField) :
    Acts IsObj (applyAt chain key) (field name) (fieldNorm key name) (chainAct chain key name) where
  keeps _ k h := h.applyAt k
  idem := fieldNorm_idem key name
  view_eq o k h := by
    unfold Indexer.applyAt chainAct
    by_cases habout : About key (chain k)
    · obtain ⟨fields, hfields⟩ := h.getD key (chain k)
      have hbefore : field name o = (Json.obj fields).get? name := by
        rw [← hfields, field_getD hname]
      rw [if_pos habout, if_pos habout, hbefore]
      unfold applied
      rw [hfields]
      cases key with
      | airdrop a => exact get?_nextAirdrop habout fields
      | recipient a r => exact get?_nextRecipient fields
    · rw [if_neg habout, if_neg habout]
      rfl

/-- **Each event that is about a record** leaves it stored. -/
theorem acts_isSome : Acts IsObj (applyAt chain key) Option.isSome id
    fun k => if About key (chain k) then .set true else .keep where
  keeps _ k h := h.applyAt k
  idem _ := rfl
  view_eq o k _ := by
    unfold Indexer.applyAt
    by_cases habout : About key (chain k)
    · rw [if_pos habout, if_pos habout]
      rfl
    · rw [if_neg habout, if_neg habout]
      rfl

end SmartDrop.Indexer
