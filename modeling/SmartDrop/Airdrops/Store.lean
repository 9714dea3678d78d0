/-
# The airdrop service

`services/airdrops.js`: the functions that read and write airdrops, each as the program of
Redis commands it issues.  An airdrop is a record, an entry of the sorted set `airdrops:ids`,
a list of recipients and a set of their addresses; `create`, `remove` and the duplicate check
of `addRecipients` are transactions, `markExpired` is a script, and `update` and `cancel`
write back a record they have read before.

A command can fail, before or after it took effect; every function lets the failure through.
-/
import SmartDrop.Airdrops.Schema
import SmartDrop.Lib.Prog
import SmartDrop.Lib.RedisTypes
import SmartDrop.Lib.Rounding

namespace SmartDrop.Airdrops

open Binary64 Conc Redis

/-! ## 1. Records -/

/-- The statuses of an airdrop. -/
inductive Status where
  | draft
  | executing
  | completed
  | failed
  | cancelled
  | expired
deriving DecidableEq

/-- `TERMINAL_STATUSES`: statuses an airdrop cannot leave once reached. -/
def TERMINAL_STATUSES : List Status := [.completed, .failed, .cancelled, .expired]

/-- A status of `TERMINAL_STATUSES`. -/
def Status.terminal (s : Status) : Bool := TERMINAL_STATUSES.contains s

/-- A stored airdrop.  Times are milliseconds. -/
structure Airdrop where
  id : String
  name : String
  description : Option String
  asset : String
  asset_issuer : String
  total_amount : Double
  expiry_ledger : Option ℤ
  contract_airdrop_id : Option String
  status : Status
  created_at : ℕ
  updated_at : ℕ
deriving DecidableEq

/-- The body of an update; a field that is not sent is `none`. -/
structure Patch where
  name : Option String := none
  description : Option String := none
  expiry_ledger : Option ℤ := none
  contract_airdrop_id : Option (Option String) := none

/-- What the service is given: the first sixteen digits of the `n`-th UUID, never the same
twice; `StrKey.isValidEd25519PublicKey`; and the number that a record's number reads back as
after the script's `cjson` has written it. -/
structure Platform where
  randomUUID : ℕ → String
  isValidEd25519PublicKey : String → Bool
  cjsonNumber : Double → Double
  uuid_inj : Function.Injective randomUUID

/-- A platform that numbers its draws and takes every address. -/
def samplePlatform : Platform where
  randomUUID n := String.ofList (List.replicate n '0')
  isValidEd25519PublicKey _ := true
  cjsonNumber x := x
  uuid_inj m n h := by simpa using congrArg String.length h

/-! ## 2. Redis -/

/-- The keys of the service: `airdrop:<id>`, `airdrops:ids`, `airdrop:<id>:recipients` and
`airdrop:<id>:addresses`, and how many UUIDs have been drawn. -/
structure Store where
  records : String → Option Airdrop
  ids : ZSet ℕ String
  recipients : String → List Recipient
  addresses : String → RSet String
  uuidsDrawn : ℕ

/-- The empty database. -/
def Store.init : Store := ⟨fun _ => none, .empty, fun _ => [], fun _ => .empty, 0⟩

/-- A whole number as it reads back. -/
def cjsonInteger (cjson : Double → Double) (n : ℤ) : ℤ := ⌊(cjson (.round n)).val⌋

/-- `MARK_EXPIRED_SCRIPT` on the record at its key: the new record, if the airdrop expires.  Both its
numbers are written anew. -/
def markExpiredScript (cjson : Double → Double) (currentLedger : ℤ) (now : ℕ) :
    Option Airdrop → Option Airdrop
  | none => none
  | some airdrop =>
    if airdrop.status.terminal then none
    else match airdrop.expiry_ledger with
      | none => none
      | some ledger =>
        if currentLedger < ledger then none
        else some { airdrop with
          total_amount := cjson airdrop.total_amount
          expiry_ledger := some (cjsonInteger cjson ledger)
          status := .expired
          updated_at := now }

/-- `SADD` of one address after the other: the set, and for each whether it was new. -/
def saddEach (s : RSet String) : List String → RSet String × List Bool
  | [] => (s, [])
  | a :: as => ((saddEach (s.sadd a) as).1, (a ∉ s : Bool) :: (saddEach (s.sadd a) as).2)

/-- The atomic steps of the service. -/
inductive Op where
  | now
  | randomUUID
  | get (id : String)
  | set (id : String) (airdrop : Airdrop)
  | insert (airdrop : Airdrop) (score : ℕ) (recipients : List Recipient)
  | markExpired (id : String) (currentLedger : ℤ) (now : ℕ)
  | delete (id : String)
  | saddAll (id : String) (addresses : List String)
  | rpush (id : String) (recipients : List Recipient)
  | zcard
  | zrevrange (start stop : ℕ)
  | mget (ids : List String)
  | llen (id : String)
  | lrange (id : String) (start stop : ℕ)

/-- What a step answers. -/
@[reducible] def Op.Ret : Op → Type
  | .now => ℕ
  | .randomUUID => String
  | .get _ => Option Airdrop
  | .set .. => Unit
  | .insert .. => Unit
  | .markExpired .. => Option Airdrop
  | .delete _ => Unit
  | .saddAll .. => List Bool
  | .rpush .. => Unit
  | .zcard => ℕ
  | .zrevrange .. => List String
  | .mget _ => List (Option Airdrop)
  | .llen _ => ℕ
  | .lrange .. => List Recipient

/-- A message that a failed command or a check throws. -/
abbrev Err := String

/-- The signature: a step may fail. -/
def sig : Sig where
  Op := Op
  Rep op := Except Err op.Ret

/-- How a command can fail: before Redis executed it, or after, its reply being lost. -/
inductive Fault where
  | none
  | before
  | after
deriving DecidableEq

/-- The clock and the fault at a step. -/
structure Env where
  now : ℕ
  fault : Fault := .none

/-- What a step answers and does when Redis executes it. -/
def Store.exec (P : Platform) (now : ℕ) (s : Store) : (op : Op) → op.Ret × Store
  | .now => (now, s)
  | .randomUUID => (P.randomUUID s.uuidsDrawn, { s with uuidsDrawn := s.uuidsDrawn + 1 })
  | .get id => (s.records id, s)
  | .set id airdrop => ((), { s with records := Function.update s.records id (some airdrop) })
  | .insert airdrop score recipients => ((), { s with
      records := Function.update s.records airdrop.id (some airdrop)
      ids := s.ids.zadd score airdrop.id
      recipients := Function.update s.recipients airdrop.id (s.recipients airdrop.id ++ recipients)
      addresses := Function.update s.addresses airdrop.id
        (saddEach (s.addresses airdrop.id) (recipients.map Recipient.address)).1 })
  | .markExpired id currentLedger time =>
    match markExpiredScript P.cjsonNumber currentLedger time (s.records id) with
    | none => (none, s)
    | some airdrop =>
      (some airdrop, { s with records := Function.update s.records id (some airdrop) })
  | .delete id => ((), { s with
      records := Function.update s.records id none
      ids := s.ids.zrem id
      recipients := Function.update s.recipients id []
      addresses := Function.update s.addresses id .empty })
  | .saddAll id addresses =>
    ((saddEach (s.addresses id) addresses).2, { s with
      addresses := Function.update s.addresses id (saddEach (s.addresses id) addresses).1 })
  | .rpush id recipients => ((), { s with
      recipients := Function.update s.recipients id (s.recipients id ++ recipients) })
  | .zcard => (s.ids.zcard, s)
  | .zrevrange start stop => (s.ids.zrevrange start stop, s)
  | .mget ids => (ids.map s.records, s)
  | .llen id => ((s.recipients id).length, s)
  | .lrange id start stop => (((s.recipients id).drop start).take (stop + 1 - start), s)

/-- The steps that are not Redis commands, and cannot fail. -/
def Op.isLocal : Op → Bool
  | .now => true
  | .randomUUID => true
  | _ => false

/-- Redis, with its failures.  Any number of threads may call it. -/
def machine (τ : Type) (P : Platform) : Machine sig τ Env Store where
  exec _ op x s :=
    if op.isLocal then (.ok (s.exec P x.now op).1, (s.exec P x.now op).2)
    else match x.fault with
      | .none => (.ok (s.exec P x.now op).1, (s.exec P x.now op).2)
      | .before => (.error "Redis command failed", s)
      | .after => (.error "Redis command failed", (s.exec P x.now op).2)

/-- A piece of the service. -/
abbrev Code := Throws sig Err

/-- One step. -/
def redis (op : Op) : Code op.Ret := (Prog.call (S := sig) op : Prog sig (Except Err op.Ret))

/-! ## 3. The service -/

/-- `generateId`. -/
def generateId : Code String := return "drop_" ++ (← redis .randomUUID)

/-- The sum of a list's amounts, as `create` computes it: one rounded addition after the
other. -/
def recipientSum (recipients : List Recipient) : ℚ :=
  recipients.foldl (fun sum r => nearest (sum + r.amount.val)) 0

/-- The check of `create`: the sum is as far from the total as `1e-7` at most. -/
def sumMatches (total_amount : Double) (recipients : List Recipient) : Bool :=
  |nearest (total_amount.val - recipientSum recipients)| ≤ nearest (1 / 10 ^ 7)

/-- The record that `create` writes. -/
def CreateBody.draft (data : CreateBody) (contract_airdrop_id : Option String) (id : String)
    (created_at updated_at : ℕ) : Airdrop where
  id
  name := data.name
  description := data.description
  asset := data.asset
  asset_issuer := data.asset_issuer
  total_amount := data.total_amount
  expiry_ledger := some data.expiry_ledger
  contract_airdrop_id := contract_airdrop_id.filter (· ≠ "")
  status := .draft
  created_at
  updated_at

/-- `create`. -/
def create (data : CreateBody) (contract_airdrop_id : Option String) : Code Airdrop := do
  if !data.recipients.isEmpty && !sumMatches data.total_amount data.recipients then
    throw ("total_amount (" ++ String.ofList (text data.total_amount.val) ++
      ") does not match the sum of recipient amounts (" ++
      String.ofList (text (recipientSum data.recipients)) ++ ")")
  let id ← generateId
  let created_at ← redis .now
  let updated_at ← redis .now
  let airdrop := data.draft contract_airdrop_id id created_at updated_at
  let score ← redis .now
  redis (.insert airdrop score data.recipients)
  return airdrop

/-- `markExpired`. -/
def markExpired (id : String) (currentLedger : ℤ) : Code (Option Airdrop) := do
  let now ← redis .now
  redis (.markExpired id currentLedger now)

/-- `list`, for a page counted from one. -/
def list (page limit : ℕ) : Code (List Airdrop × ℕ) := do
  let total ← redis .zcard
  let start := (page - 1) * limit
  let paginatedIds ← redis (.zrevrange start (start + limit - 1))
  if paginatedIds.isEmpty then return ([], total)
  let airdrops ← redis (.mget paginatedIds)
  return (airdrops.filterMap id, total)

/-- `get`. -/
def get (id : String) : Code (Option Airdrop) := redis (.get id)

/-- The record that `update` writes. -/
def Airdrop.patched (airdrop : Airdrop) (data : Patch) (now : ℕ) : Airdrop :=
  { airdrop with
    name := data.name.getD airdrop.name
    description := data.description <|> airdrop.description
    expiry_ledger := data.expiry_ledger <|> airdrop.expiry_ledger
    contract_airdrop_id := data.contract_airdrop_id.getD airdrop.contract_airdrop_id
    updated_at := now }

/-- `update`. -/
def update (id : String) (data : Patch) : Code (Option Airdrop) := do
  match ← get id with
  | none => return none
  | some airdrop =>
    if airdrop.status.terminal then return some airdrop
    let now ← redis .now
    redis (.set id (airdrop.patched data now))
    return some (airdrop.patched data now)

/-- `remove`. -/
def remove (id : String) : Code (Option Airdrop) := do
  match ← get id with
  | none => return none
  | some existing =>
    redis (.delete id)
    return some existing

/-- The record that `cancel` writes. -/
def Airdrop.asCancelled (airdrop : Airdrop) (now : ℕ) : Airdrop :=
  { airdrop with status := .cancelled, updated_at := now }

/-- `cancel`. -/
def cancel (id : String) : Code (Option Airdrop) := do
  match ← get id with
  | none => return none
  | some airdrop =>
    if airdrop.status.terminal then return some airdrop
    let now ← redis .now
    redis (.set id (airdrop.asCancelled now))
    return some (airdrop.asCancelled now)

/-- The recipients that were new to the address set, and the addresses that were not. -/
def splitDuplicates : List Recipient → List Bool → List Recipient × List String
  | r :: rs, added :: more =>
    let rest := splitDuplicates rs more
    if added then (r :: rest.1, rest.2) else (rest.1, r.address :: rest.2)
  | _, _ => ([], [])

/-- `addRecipients`: the addresses that were already present. -/
def addRecipients (airdropId : String) (recipients : List Recipient) : Code (List String) := do
  let addedCounts ← redis (.saddAll airdropId (recipients.map Recipient.address))
  let (newAddresses, duplicates) := splitDuplicates recipients addedCounts
  if !newAddresses.isEmpty then redis (.rpush airdropId newAddresses)
  return duplicates

/-- `listRecipients`, for a page counted from one. -/
def listRecipients (airdropId : String) (page limit : ℕ) : Code (List Recipient × ℕ) := do
  let total ← redis (.llen airdropId)
  let start := (page - 1) * limit
  let recipients ← redis (.lrange airdropId start (start + limit - 1))
  return (recipients, total)

/-! ## 4. The recipients route -/

/-- `POST /airdrops/:id/recipients` once the upload is read: how many were added, or the
error it answers with. -/
def postRecipients (P : Platform) (maxRecipients : ℕ) (id : String)
    (recipients : List Recipient) : Code (Except AppError ℕ) := do
  match ← get id with
  | none => return .error ⟨"AIRDROP_NOT_FOUND", "Airdrop not found", 404, []⟩
  | some _ =>
    match acceptRecipients P.isValidEd25519PublicKey maxRecipients recipients with
    | .error e => return .error e
    | .ok () =>
      let duplicates ← addRecipients id recipients
      if !duplicates.isEmpty then
        return .error ⟨"CONFLICT", "One or more recipient addresses are already registered for " ++
          "this airdrop", 409, duplicates⟩
      return .ok recipients.length

end SmartDrop.Airdrops
