/-
# The expiry job

`jobs/airdropExpiry.js`: a tick asks for the current ledger, scans the airdrops, expires each whose
ledger has passed, and dispatches `airdrop.failed` for it.  Ticks run on any number of replicas,
with calls of `update` and `cancel` between any two of their commands.

An airdrop is announced under an id that names the ledger of the tick, so the dispatcher tells
two announcements by different ticks apart.  What keeps them from being two is the script alone: its
reply is a ticket for the announcement (`tickets`), and it hands out one for each airdrop as long as
no write brings back what it has expired (`NotRevived`, `announced_at_most_once`).  `update` can do
just that, and the next tick announces the airdrop again (`announced_twice`).
-/
import SmartDrop.Airdrops.Lifecycle
import SmartDrop.Lib.Tickets
import SmartDrop.Webhooks.Dispatch
import Mathlib.Data.Fintype.Card

namespace SmartDrop.Airdrops.Expiry

open Binary64 Conc JsonText

/-! ## 1. What a tick may ask for -/

/-- The ledger that Horizon reports, and a page of the scan of the airdrop ids. -/
inductive JobOp where
  | getCurrentLedger
  | zscan (cursor : String)

/-- What they answer. -/
@[reducible] def JobOp.Ret : JobOp → Type
  | .getCurrentLedger => ℕ
  | .zscan _ => String × List String

def jobSig : Sig where
  Op := JobOp
  Rep op := Except Err op.Ret

/-- The commands of the airdrop service and of the dispatcher beside these. -/
abbrev sig : Sig := (Airdrops.sig.sum jobSig).sum (Webhooks.sig.sum Webhooks.dispatchSig)

/-- The environment at a step: of either service, what Horizon answers, and which page Redis picks. -/
structure Env where
  airdrop : Airdrops.Env
  webhook : Webhooks.Env
  ledger : Except Err ℕ
  nextCursor : String
  page : List String

/-- The keys of the two services. -/
abbrev Store := Airdrops.Store × Webhooks.Store × Webhooks.DispatchStore

variable {τ : Type}

/-- Redis and Horizon, with their failures.  A page lists ids that are in the set. -/
def machine (A : Airdrops.Platform) (W : Webhooks.Platform) (who : τ → Webhooks.Caller) :
    Machine sig τ Env Store where
  exec
    | i, .inl (.inl op), x, s =>
      (((Airdrops.machine τ A).exec i op x.airdrop s.1).1,
        ((Airdrops.machine τ A).exec i op x.airdrop s.1).2, s.2)
    | _, .inl (.inr .getCurrentLedger), x, s => (x.ledger, s)
    | _, .inl (.inr (.zscan _)), x, s =>
      (if x.airdrop.fault = .none then .ok (x.nextCursor, x.page.filter (· ∈ s.1.ids))
        else .error "Redis command failed", s)
    | i, .inr op, x, s =>
      ((((Webhooks.machine W).sum Webhooks.dispatchMachine).exec (who i) op x.webhook s.2).1, s.1,
        (((Webhooks.machine W).sum Webhooks.dispatchMachine).exec (who i) op x.webhook s.2).2)

/-- A piece of the job. -/
abbrev Code := Throws sig Err

/-- A piece of the airdrop service. -/
def airdrops {α : Type} (code : Airdrops.Code α) : Code α := Throws.inl (Throws.inl code)

/-- One step of the job's own. -/
def job (op : JobOp) : Code op.Ret :=
  (Prog.call (S := sig) (.inl (.inr op)) : Prog sig (Except Err op.Ret))

/-! ## 2. The job -/

/-- The deliveries of one dispatch, their commands in some order. -/
abbrev Deliveries := List Webhooks.dispatcher.Notice → Webhooks.Code Unit

variable (W : Webhooks.Platform) (config : Webhooks.Config)

/-- One delivery after the other. -/
def inTurn : Deliveries
  | [] => return ()
  | n :: ns => do
    tryCatch (do let _ ← Webhooks.dispatcher.deliverToWebhook W config n) fun _ => return ()
    inTurn ns

/-- `dispatch`, outside of any request. -/
def dispatch (deliver : Deliveries) (event : Webhooks.Event) : Code Unit := do
  let notices ← Throws.inr (Webhooks.dispatcher.targets W config none event)
  Throws.inr (Throws.inl (deliver notices))

def HORIZON_MAX_RETRIES : ℕ := 3

/-- The loop of `fetchCurrentLedgerWithRetry`, with the tries that are left. -/
def fetchLoop (lastError : Err) : ℕ → Code ℕ
  | 0 => throw lastError
  | tries + 1 => tryCatch (job .getCurrentLedger) fun err => fetchLoop err tries

/-- `fetchCurrentLedgerWithRetry`. -/
def fetchCurrentLedgerWithRetry : Code ℕ := fetchLoop "" HORIZON_MAX_RETRIES

def EVENT_ID_START : String := "evt_airdrop_expired_"

/-- The id of the event that announces an airdrop. -/
def expiredEventId (id : String) (currentLedger : ℕ) : String :=
  EVENT_ID_START ++ id ++ "_" ++ String.ofList (Nat.toDigits 10 currentLedger)

/-- The event that announces an airdrop. -/
def expiredEvent (id : String) (currentLedger : ℕ) (updated : Airdrop) : Webhooks.Event where
  event_type := "airdrop.failed"
  event_id := some (expiredEventId id currentLedger)
  data := some (.obj [("airdrop_id", .str id), ("reason", .str "expired"),
    ("expiry_ledger", (updated.expiry_ledger.map Json.ofInt).getD .null),
    ("current_ledger", Json.ofNat currentLedger)])

/-- The filter of `tick`: a ledger, other than zero, which the current one has reached. -/
def hasPassed (currentLedger : ℕ) : Option ℤ → Bool
  | none => false
  | some ledger => ledger ≠ 0 && ledger ≤ currentLedger

/-- `tick`, for one airdrop.  A read or a transition that fails is taken for one that found
nothing, and a dispatch that fails is only logged. -/
def examine (deliver : Deliveries) (currentLedger : ℕ) (id : String) : Code Unit := do
  match ← tryCatch (airdrops (Airdrops.get id)) fun _ => return none with
  | none => return ()
  | some airdrop =>
    if airdrop.status.terminal || !hasPassed currentLedger airdrop.expiry_ledger then return ()
    match ← tryCatch (airdrops (Airdrops.markExpired id currentLedger)) fun _ => return none with
    | none => return ()
    | some updated =>
      tryCatch (dispatch W config deliver (expiredEvent id currentLedger updated)) fun _ =>
        return ()

/-- `tick`, for one page. -/
def examineAll (deliver : Deliveries) (currentLedger : ℕ) : List String → Code Unit
  | [] => return ()
  | id :: ids => do
    examine W config deliver currentLedger id
    examineAll deliver currentLedger ids

/-- `tick`, for the pages of `scanIds` from a cursor on; there is no bound on how many there are. -/
def scan (deliver : Deliveries) (currentLedger : ℕ) : ℕ → String → Code Unit
  | 0, _ => return ()
  | pages + 1, cursor => do
    let (nextCursor, batch) ← job (.zscan cursor)
    examineAll W config deliver currentLedger batch
    if nextCursor ≠ "0" then scan deliver currentLedger pages nextCursor

/-- `tick`, whose scan has `pages` pages at most. -/
def tick (deliver : Deliveries) (pages : ℕ) : Code Unit := do
  match ← tryCatch (do return some (← fetchCurrentLedgerWithRetry)) fun _ => return none with
  | none => return ()
  | some currentLedger => scan W config deliver currentLedger pages "0"

/-! ## 3. Replicas at work -/

/-- The calls that run side by side. -/
inductive Call where
  | tick (deliver : Deliveries) (pages : ℕ)
  | update (id : String) (data : Patch)
  | cancel (id : String)

/-- The program of a call, without its result. -/
def Call.code : Call → Code Unit
  | .tick deliver pages => Expiry.tick W config deliver pages
  | .update id data => do let _ ← airdrops (Airdrops.update id data)
  | .cancel id => do let _ ← airdrops (Airdrops.cancel id)

/-- What a run has done so far: which airdrops the script has expired, and the ids of the events that
were dispatched, in order.  No command reads it. -/
structure Journal where
  expired : String → Bool
  dispatched : List String

/-- What a command adds to it. -/
def note (A : Airdrops.Platform) : sig.Op → Env → Store → Journal → Journal
  | .inl (.inl (.markExpired id currentLedger now)), x, s, j =>
    if x.airdrop.fault ≠ .before ∧
        (markExpiredScript A.cjsonNumber currentLedger now (s.1.records id)).isSome then
      { j with expired := Function.update j.expired id true }
    else j
  | .inr (.inr (.claimEvent eventId)), x, s, j =>
    if x.webhook.fault ≠ .before ∧ s.2.2.dispatched eventId = false then
      { j with dispatched := j.dispatched ++ [eventId] }
    else j
  | _, _, _, j => j

/-- The machine that keeps the journal. -/
def journalMachine (A : Airdrops.Platform) (who : τ → Webhooks.Caller) :
    Machine sig τ Env (Store × Journal) :=
  (machine A W who).observe fun _ op x s j => note A op x s j

/-- The replicas, from any store. -/
def start (s : Store) (calls : τ → Call) : Pool sig (Except Err Unit) τ (Store × Journal) where
  store := (s, ⟨fun _ => false, []⟩)
  prog i := ((calls i).code W config).prog

/-- The ids under which the airdrop `id` is announced. -/
def announces (id eventId : String) : Bool :=
  let start := (EVENT_ID_START ++ id ++ "_").toList
  start.isPrefixOf eventId.toList && (eventId.toList.drop start.length).all isDigit

/-- The record that a command writes whole, and its key. -/
def written : sig.Op → Option (String × Airdrop)
  | .inl (.inl (.set id airdrop)) => some (id, airdrop)
  | .inl (.inl (.insert airdrop _ _)) => some (airdrop.id, airdrop)
  | _ => none

/-- A write of the airdrop, once it has been expired, leaves it in a terminal status. -/
def NotRevived (id : String) (op : sig.Op) (x : Env) (s : Store × Journal) : Prop :=
  match written op with
  | none => True
  | some (i, airdrop) =>
    i = id → x.airdrop.fault ≠ .before → s.2.expired id = true → airdrop.status.terminal = true

instance (id : String) (op : sig.Op) (x : Env) (s : Store × Journal) :
    Decidable (NotRevived id op x s) := by
  unfold NotRevived
  split <;> infer_instance

/-! ## 4. Announcements -/

theorem underscore_not_mem {cs : List Char} (h : ∀ c ∈ cs, isDigit c = true) : '_' ∉ cs :=
  fun hmem => absurd (h _ hmem) (by decide)

/-- `<start><id>_`, as characters. -/
theorem toList_start (start id : String) :
    (start ++ id ++ "_").toList = start.toList ++ (id.toList ++ ['_']) := by
  rw [String.toList_append, String.toList_append, List.append_assoc]
  rfl

theorem toList_expiredEventId (id : String) (currentLedger : ℕ) :
    (expiredEventId id currentLedger).toList =
      EVENT_ID_START.toList ++ (id.toList ++ '_' :: Nat.toDigits 10 currentLedger) := by
  rw [expiredEventId, String.toList_append, toList_start, String.toList_ofList, List.append_assoc,
    List.append_assoc, List.singleton_append]

theorem announces_iff {id eventId : String} :
    announces id eventId = true ↔ ∃ digits : List Char, (∀ c ∈ digits, isDigit c = true) ∧
      eventId.toList = EVENT_ID_START.toList ++ (id.toList ++ '_' :: digits) := by
  have hcons : ∀ digits, EVENT_ID_START.toList ++ (id.toList ++ '_' :: digits) =
      (EVENT_ID_START.toList ++ (id.toList ++ ['_'])) ++ digits := fun digits => by
    rw [List.append_assoc, List.append_assoc, List.singleton_append]
  simp only [announces, toList_start, Bool.and_eq_true, List.isPrefixOf_iff_prefix,
    List.all_eq_true]
  constructor
  · rintro ⟨⟨digits, heq⟩, hall⟩
    refine ⟨digits, ?_, heq.symm.trans (hcons digits).symm⟩
    rwa [← heq, List.drop_left] at hall
  · rintro ⟨digits, hall, heq⟩
    rw [heq, hcons digits, List.drop_left]
    exact ⟨List.prefix_append _ _, hall⟩

/-- The event of an airdrop announces that airdrop and no other one. -/
theorem announces_expiredEventId {id id' : String} {currentLedger : ℕ} :
    announces id (expiredEventId id' currentLedger) = true ↔ id' = id := by
  have hdigits : ∀ c ∈ Nat.toDigits 10 currentLedger, isDigit c = true := fun c hc =>
    isDigit_of_mem_toDigits hc
  rw [announces_iff, toList_expiredEventId]
  constructor
  · rintro ⟨digits, hall, heq⟩
    rcases JsText.append_cons_cases_last (underscore_not_mem hdigits) (List.append_cancel_left heq) with
      ⟨hids, -⟩ | ⟨more, -, hmore⟩
    · exact String.toList_inj.mp hids
    · have hmem : '_' ∈ digits := hmore ▸ List.mem_append_right more List.mem_cons_self
      exact absurd hmem (underscore_not_mem hall)
  · rintro rfl
    exact ⟨_, hdigits, rfl⟩

/-- The script hands out the ticket for an airdrop, and dispatching its event takes it. -/
def tickets (id : String) : Tickets sig Unit where
  gain
    | .inl (.inl (.markExpired i _ _)), .ok (some _) => if i = id then some () else none
    | _, _ => none
  spend
    | .inr (.inr (.claimEvent eventId)) => if announces id eventId then some () else none
    | _ => none
  spend_of_gain op r a h := by
    rcases op with (op | op) | op
    · rfl
    · rfl
    · cases h

section Programs

variable {W config} {id : String} {α : Type}

/-- A tick announces an airdrop with the ticket for it. -/
theorem affine_targets {K : Tickets (Webhooks.sig.sum Webhooks.dispatchSig) Unit}
    (hservice : ∀ op, K.Free (.inl op)) (hsequence : ∀ r, K.spend (.inr (.incrSequence r)) = none)
    {t : Option Unit} {event : Webhooks.Event}
    (hevent : ∀ e a, event.event_id = some e → K.spend (.inr (.claimEvent e)) = some a →
      t = some a) :
    K.Affine t (Webhooks.dispatcher.targets W config none event).prog := by
  have hspendless : ∀ {β : Type} (code : Webhooks.Code β),
      Throws.Uses (fun op => K.spend op = none) (Webhooks.service code) := fun code =>
    Prog.Uses.inl (Prog.uses_of_forall (fun op => (hservice op).1) _)
  rw [Webhooks.dispatcher.targets]
  split
  · trivial
  split
  · trivial
  rename_i eventId heq
  obtain ⟨hid, -⟩ := Option.filter_eq_some_iff.mp heq
  refine Tickets.affine_andThen (Prog.Uses.inl (Prog.uses_of_forall hservice _)) fun traceId => ?_
  refine Tickets.Affine.andThen ⟨fun a ha => hevent eventId a hid ha, fun r => trivial⟩
    fun claimed => ?_
  split
  · refine Throws.Uses.bind (hspendless _) fun active => ?_
    dsimp only
    split
    · exact Throws.uses_pure _
    refine Throws.Uses.bind ⟨hsequence _, fun _ => trivial⟩ fun sequence => ?_
    exact Throws.Uses.bind (hspendless _) fun _ => Throws.uses_pure _
  · exact Throws.uses_pure _

/-- The commands of a service other than the script have no tickets. -/
theorem free_airdrops {op : Airdrops.Op} (h : ∀ i currentLedger now, op ≠ .markExpired i currentLedger now) :
    (tickets id).Free (.inl (.inl op)) := by
  refine ⟨rfl, fun r => ?_⟩
  cases op with
  | markExpired i currentLedger now => exact absurd rfl (h i currentLedger now)
  | _ => rfl

theorem affine_dispatch {deliver : Deliveries} {event : Webhooks.Event} {t : Option Unit}
    (h : ∀ e, event.event_id = some e → announces id e = true → t = some ()) :
    (tickets id).Affine t (dispatch W config deliver event).prog := by
  refine Tickets.Affine.andSeq (Tickets.Affine.inr (affine_targets
    (fun op => ⟨rfl, fun _ => rfl⟩) (fun _ => rfl) ?_)) fun notices => ?_
  · intro e a he hspend
    have hann : announces id e = true := by
      by_contra hne
      simp [Tickets.right, tickets, hne] at hspend
    exact h e he hann
  · have huses : Prog.Uses (fun op => (tickets id).spend op = none)
        (Throws.inr (Throws.inl (deliver notices)) : Code Unit).prog :=
      Prog.Uses.inr (Prog.Uses.inl (Prog.uses_of_forall (fun _ => rfl) _))
    exact Tickets.affine_of_uses huses none

/-- **One airdrop**: it is announced only after the script has answered that it has expired it. -/
theorem affine_examine (deliver : Deliveries) (currentLedger : ℕ) (i : String) :
    (tickets id).Affine none (examine W config deliver currentLedger i).prog := by
  have hget : Throws.Uses (tickets id).Free (airdrops (Airdrops.get i)) :=
    Prog.Uses.inl (Prog.Uses.inl ⟨free_airdrops (by simp), fun _ => trivial⟩)
  refine Tickets.affine_andThen (Throws.Uses.tryCatch hget fun _ => Throws.uses_pure _) ?_
  rintro (_ | airdrop)
  · trivial
  dsimp only
  split
  · trivial
  -- the script reads the clock first
  refine ⟨fun a ha => (nomatch ha), fun now => ?_⟩
  rcases now with e | now
  · trivial
  refine ⟨fun a ha => (nomatch ha), fun r => ?_⟩
  rcases r with e | (_ | updated)
  · trivial
  · trivial
  refine Tickets.Affine.tryCatch (affine_dispatch fun e he hann => ?_) fun _ => trivial
  obtain rfl : expiredEventId i currentLedger = e := Option.some.inj he
  have hi : i = id := announces_expiredEventId.mp hann
  simp [Tickets.after, tickets, hi]

theorem affine_examineAll (deliver : Deliveries) (currentLedger : ℕ) (ids : List String) :
    (tickets id).Affine none (examineAll W config deliver currentLedger ids).prog := by
  induction ids with
  | nil => trivial
  | cons i ids ih => exact (affine_examine deliver currentLedger i).andSeq fun _ => ih

theorem affine_scan (deliver : Deliveries) (currentLedger pages : ℕ) (cursor : String) :
    (tickets id).Affine none (scan W config deliver currentLedger pages cursor).prog := by
  induction pages generalizing cursor with
  | zero => trivial
  | succ pages ih =>
    refine Tickets.affine_andThen ⟨⟨rfl, fun _ => rfl⟩, fun _ => trivial⟩ fun page => ?_
    refine (affine_examineAll deliver currentLedger page.2).andSeq fun _ => ?_
    split
    · exact ih _
    · trivial

theorem free_fetchLoop (lastError : Err) (tries : ℕ) :
    Throws.Uses (tickets id).Free (fetchLoop lastError tries) := by
  induction tries generalizing lastError with
  | zero => exact Throws.uses_throw _
  | succ tries ih => exact Throws.Uses.tryCatch ⟨⟨rfl, fun _ => rfl⟩, fun _ => trivial⟩ ih

theorem affine_tick (deliver : Deliveries) (pages : ℕ) :
    (tickets id).Affine none (tick W config deliver pages).prog := by
  have hfetch : Throws.Uses (tickets id).Free
      (tryCatch (do return some (← fetchCurrentLedgerWithRetry)) fun _ => return none) :=
    Throws.Uses.tryCatch (Throws.Uses.bind (free_fetchLoop _ _) fun _ => Throws.uses_pure _)
      fun _ => Throws.uses_pure _
  refine Tickets.affine_andThen hfetch ?_
  rintro (_ | currentLedger)
  · trivial
  · exact affine_scan deliver currentLedger pages "0"

/-- `update` and `cancel` announce nothing. -/
theorem affine_call (call : Call) : (tickets id).Affine none (call.code W config).prog := by
  have hairdrops : ∀ code : Airdrops.Code (Option Airdrop),
      (tickets id).Affine none (do let _ ← airdrops code : Code Unit).prog := fun code => by
    refine Tickets.affine_of_uses (Throws.Uses.bind ?_ fun _ => Throws.uses_pure _) none
    exact Prog.Uses.inl (Prog.Uses.inl (Prog.uses_of_forall (fun _ => rfl) _))
  cases call with
  | tick deliver pages => exact affine_tick deliver pages
  | update i data => exact hairdrops _
  | cancel i => exact hairdrops _

end Programs

/-! ## 5. The journal -/

variable {W config} {A : Airdrops.Platform} {who : τ → Webhooks.Caller} {id : String}

/-- An airdrop that the script has expired is in a terminal status, as long as it is there. -/
def Ended (id : String) (s : Store × Journal) : Prop :=
  s.2.expired id = true → ∀ airdrop, s.1.1.records id = some airdrop → airdrop.status.terminal = true

/-- The announcements of the airdrop so far. -/
def announcements (id : String) (s : Store × Journal) : List Unit :=
  (s.2.dispatched.filter (announces id)).map fun _ => ()

theorem markExpiredScript_terminal {cjson : Double → Double} {currentLedger : ℤ} {now : ℕ}
    {r : Option Airdrop} {updated : Airdrop}
    (h : markExpiredScript cjson currentLedger now r = some updated) :
    updated.status.terminal = true := by
  cases r with
  | none => cases h
  | some airdrop =>
    simp only [markExpiredScript] at h
    split at h
    · cases h
    split at h
    · cases h
    split at h
    · cases h
    · obtain rfl := Option.some.inj h
      rfl

/-- A command that is executed, whether or not its reply is lost. -/
theorem machine_store {i : τ} {op : Airdrops.Op} {x : Airdrops.Env} {s : Airdrops.Store}
    (hx : x.fault ≠ .before) :
    ((Airdrops.machine τ A).exec i op x s).2 = (s.exec A x.now op).2 := by
  simp only [Airdrops.machine]
  split
  · rfl
  · cases hfault : x.fault with
    | before => exact absurd hfault hx
    | none => rfl
    | after => rfl

variable (A) in
theorem machine_store_before (i : τ) (op : Airdrops.Op) {x : Airdrops.Env} (s : Airdrops.Store)
    (hx : x.fault = .before) : ((Airdrops.machine τ A).exec i op x s).2.records = s.records := by
  cases op <;> simp [Airdrops.machine, Airdrops.Op.isLocal, hx, Store.exec]

/-- The record of an airdrop after a command other than the script. -/
theorem exec_records {op : Airdrops.Op} {now : ℕ} {s : Airdrops.Store} {airdrop : Airdrop}
    (hop : ∀ i currentLedger time, op ≠ .markExpired i currentLedger time)
    (h : (s.exec A now op).2.records id = some airdrop) :
    s.records id = some airdrop ∨ written (.inl (.inl op)) = some (id, airdrop) := by
  cases op with
  | markExpired i currentLedger time => exact absurd rfl (hop i currentLedger time)
  | set i a =>
    by_cases hi : id = i
    · subst hi
      exact .inr (by simpa [Store.exec, written] using h)
    · exact .inl (by simpa [Store.exec, hi] using h)
  | insert a score recipients =>
    by_cases hi : id = a.id
    · subst hi
      refine .inr ?_
      obtain rfl : a = airdrop := by simpa [Store.exec] using h
      rfl
    · exact .inl (by simpa [Store.exec, hi] using h)
  | delete i =>
    by_cases hi : id = i
    · simp [Store.exec, hi] at h
    · exact .inl (by simpa [Store.exec, hi] using h)
  | _ => exact .inl h

/-- **The script ends an airdrop for good**, unless a write revives it. -/
theorem ended_step {i : τ} {op : sig.Op} {x : Env} {s : Store × Journal} (h : Ended id s)
    (hok : NotRevived id op x s) : Ended id ((journalMachine W A who).exec i op x s).2 := by
  rcases op with (op | op) | op
  · by_cases hx : x.airdrop.fault = .before
    · -- nothing was executed
      intro hexpired airdrop hairdrop
      refine h ?_ airdrop ?_
      · cases op <;> simpa [journalMachine, Machine.observe, note, hx] using hexpired
      · have hsame := machine_store_before A i op s.1.1 hx
        rwa [← hsame]
    have hstore : ((journalMachine W A who).exec i (.inl (.inl op)) x s).2.1.1 =
        (s.1.1.exec A x.airdrop.now op).2 := machine_store hx
    by_cases hop : ∃ j currentLedger time, op = .markExpired j currentLedger time
    · obtain ⟨j, currentLedger, time, rfl⟩ := hop
      intro hexpired airdrop hairdrop
      rw [hstore] at hairdrop
      cases hscript : markExpiredScript A.cjsonNumber currentLedger time (s.1.1.records j) with
      | none =>
        refine h ?_ airdrop ?_
        · simpa [journalMachine, Machine.observe, note, hscript] using hexpired
        · simpa [Store.exec, hscript] using hairdrop
      | some updated =>
        by_cases hj : id = j
        · subst hj
          obtain rfl : updated = airdrop := by simpa [Store.exec, hscript] using hairdrop
          exact markExpiredScript_terminal hscript
        · refine h ?_ airdrop ?_
          · simpa [journalMachine, Machine.observe, note, hscript, hx, hj] using hexpired
          · simpa [Store.exec, hscript, hj] using hairdrop
    · intro hexpired airdrop hairdrop
      have hsame : ((journalMachine W A who).exec i (.inl (.inl op)) x s).2.2 = s.2 := by
        cases op <;> first | rfl | exact absurd ⟨_, _, _, rfl⟩ hop
      rw [hstore] at hairdrop
      rw [hsame] at hexpired
      rcases exec_records (fun j l t hj => hop ⟨j, l, t, hj⟩) hairdrop with hold | hnew
      · exact h hexpired airdrop hold
      · simp only [NotRevived, hnew] at hok
        exact hok trivial hx hexpired
  · cases op <;> exact h
  · rcases op with op | op
    · exact h
    · cases op with
      | incrSequence r => exact h
      | claimEvent eventId =>
        intro hexpired
        refine h ?_
        revert hexpired
        simp only [journalMachine, Machine.observe, note]
        split <;> exact fun hexpired => hexpired

theorem gain_markExpired {j : String} {currentLedger : ℤ} {time : ℕ} {a : Unit}
    {r : Except Err (Option Airdrop)}
    (h : (tickets id).gain (.inl (.inl (.markExpired j currentLedger time))) r = some a) :
    j = id ∧ ∃ updated, r = .ok (some updated) := by
  rcases r with e | (_ | updated)
  · cases h
  · cases h
  · exact ⟨by simpa [tickets] using h, updated, rfl⟩

/-- The script answers with a record when it has expired it. -/
theorem script_of_reply {i : τ} {x : Env} {s : Store × Journal} {j : String} {currentLedger : ℤ}
    {time : ℕ} {updated : Airdrop}
    (h : ((journalMachine W A who).exec i (.inl (.inl (.markExpired j currentLedger time))) x s).1 =
      .ok (some updated)) :
    x.airdrop.fault = .none ∧
      markExpiredScript A.cjsonNumber currentLedger time (s.1.1.records j) = some updated := by
  replace h : ((Airdrops.machine τ A).exec i (.markExpired j currentLedger time) x.airdrop s.1.1).1 =
    .ok (some updated) := h
  cases hfault : x.airdrop.fault with
  | before => simp [Airdrops.machine, Airdrops.Op.isLocal, hfault] at h
  | after => simp [Airdrops.machine, Airdrops.Op.isLocal, hfault] at h
  | none =>
    refine ⟨rfl, ?_⟩
    simp only [Airdrops.machine, Airdrops.Op.isLocal, hfault, Bool.false_eq_true, if_false,
      Store.exec] at h
    split at h
    · cases h
    · rename_i hscript
      rw [hscript]
      exact Except.ok.inj h

/-- **The script hands out one ticket for each airdrop, and each announcement is listed once.** -/
theorem ledgerStep {i : τ} {op : sig.Op} {x : Env} {s : Store × Journal} (h : Ended id s) :
    LedgerStep (journalMachine W A who) (tickets id) (fun s _ => s.2.expired id = true)
      (announcements id) i op x s := by
  rcases op with (op | op) | op | op
  · cases op with
    | markExpired j currentLedger time =>
      refine ⟨fun _ hexpired => ?_, fun _ hgain => ?_, .inl ?_⟩
      · simp only [journalMachine, Machine.observe, note]
        split
        · by_cases hj : id = j <;> simp [hj, ← hexpired]
        · exact hexpired
      · -- the reply says that the script has found the airdrop alive
        obtain ⟨hj, updated, hreply⟩ := gain_markExpired hgain
        obtain ⟨hfault, hscript⟩ := script_of_reply hreply
        subst hj
        obtain ⟨airdrop, hairdrop, hlive⟩ := markExpiredScript_keeps hscript
        refine ⟨fun hexpired => ?_, ?_⟩
        · rw [h hexpired airdrop hairdrop] at hlive
          cases hlive
        · simp [journalMachine, Machine.observe, note, hfault, hscript]
      · simp only [journalMachine, Machine.observe, note, announcements]
        split <;> rfl
    | _ => exact ⟨fun _ hexpired => hexpired, fun _ hgain => (by cases hgain), .inl rfl⟩
  · cases op <;> exact ⟨fun _ hexpired => hexpired, fun _ hgain => (by cases hgain), .inl rfl⟩
  · exact ⟨fun _ hexpired => hexpired, fun _ hgain => (by cases hgain), .inl rfl⟩
  · cases op with
    | incrSequence r => exact ⟨fun _ hexpired => hexpired, fun _ hgain => (by cases hgain), .inl rfl⟩
    | claimEvent eventId =>
      refine ⟨fun _ hexpired => ?_, fun _ hgain => (by cases hgain), ?_⟩
      · simp only [journalMachine, Machine.observe, note]
        split <;> exact hexpired
      · simp only [journalMachine, Machine.observe, note, announcements]
        split
        · by_cases hann : announces id eventId = true
          · exact .inr ⟨(), by simp [tickets, hann], by simp [hann]⟩
          · exact .inl (by simp [hann])
        · exact .inl rfl

/-! ## 6. Every interleaving -/

/-- **An airdrop is announced at most once**, by any ticks on any number of replicas, with any calls
of `update` and `cancel` between their commands, whatever ledgers Horizon reports and whatever fails:
unless a write revives it after the script has expired it. -/
theorem announced_at_most_once [DecidableEq τ] (A : Airdrops.Platform) (W : Webhooks.Platform)
    (config : Webhooks.Config) (who : τ → Webhooks.Caller) (calls : τ → Call) (s : Store)
    (ls : List (τ × Env)) (id : String)
    (h : Along (Pool.step (journalMachine W A who)) (Pool.Issues (NotRevived id))
      (start W config s calls) ls) :
    ((run (Pool.step (journalMachine W A who)) (start W config s calls) ls).store.2.dispatched.filter
      (announces id)).length ≤ 1 := by
  have hstart : ∃ ticket, (start W config s calls).Ticketed (tickets id)
      (fun s _ => s.2.expired id = true) (announcements id) ticket := by
    refine ⟨fun _ => none, Apart.empty fun p => ?_, fun i => affine_call (calls i)⟩
    cases p <;> rfl
  have hended : Ended id (start W config s calls).store := fun hexpired => nomatch hexpired
  have hnodup := Pool.spent_nodup hstart (Along.of_inv
    (I := fun c : Pool sig (Except Err Unit) τ (Store × Journal) => Ended id c.store) ?_ hended h)
  · simpa [announcements] using hnodup.length_le_card
  · intro c l hc hok
    cases hp : c.prog l.1 with
    | ret r => exact ⟨by rwa [Pool.step_of_ret hp], by simp [Pool.Issues, hp]⟩
    | cmd op k =>
      have hop : NotRevived id op l.2 c.store := by simpa only [Pool.Issues, hp] using hok
      refine ⟨?_, by simpa only [Pool.Issues, hp] using ledgerStep hc⟩
      have hstore : (c.step (journalMachine W A who) l).store =
          ((journalMachine W A who).exec l.1 op l.2 c.store).2 := by
        simp [Pool.step, hp, Prog.act]
      rw [hstore]
      exact ended_step hc hop

/-! ## 7. One airdrop, three calls -/

/-- The sample airdrop, listed. -/
def sampleKeys : Store :=
  ({ Airdrops.sampleStore with ids := Redis.ZSet.empty.zadd 0 "drop_0" }, Webhooks.Store.init,
    ⟨fun _ => false, fun _ => 0⟩)

/-- One call renames the airdrop; the others are ticks. -/
def sampleTicks : Option Bool → Call
  | none => .update "drop_0" { name := some "renamed" }
  | some _ => .tick (inTurn Webhooks.samplePlatform Webhooks.sampleConfig) 1

theorem ledgerTime_le : 1 ≤ 8640000000000000 := by decide

/-- The environment while Horizon reports a ledger. -/
def atLedger (ledger : ℕ) : Env where
  airdrop := ⟨1, .none⟩
  webhook := { now := 1, now_le := ledgerTime_le }
  ledger := .ok ledger
  nextCursor := "0"
  page := ["drop_0"]

/-- The events that are dispatched in a run of the three calls. -/
def sampleDispatched (ls : List (Option Bool × Env)) : List String :=
  (run (Pool.step (journalMachine Webhooks.samplePlatform samplePlatform fun _ => ⟨0, none⟩))
    (start Webhooks.samplePlatform Webhooks.sampleConfig sampleKeys sampleTicks) ls).store.2.dispatched

/-- The rename ends before the first tick, at ledger 100, and the second one is at ledger 101. -/
def renamedFirst : List (Option Bool × Env) :=
  List.replicate 3 (none, atLedger 100) ++ List.replicate 8 (some false, atLedger 100) ++
    List.replicate 8 (some true, atLedger 101)

theorem announced_once_sample : ((sampleDispatched renamedFirst).filter (announces "drop_0")).length ≤ 1 :=
  announced_at_most_once samplePlatform Webhooks.samplePlatform Webhooks.sampleConfig
    (fun _ => ⟨0, none⟩) sampleTicks sampleKeys renamedFirst "drop_0" (by decide)

/-- The rename has read the draft when the first tick expires the airdrop, and writes it back. -/
def renamedLater : List (Option Bool × Env) :=
  (none, atLedger 100) :: List.replicate 8 (some false, atLedger 100) ++
    List.replicate 2 (none, atLedger 100) ++ List.replicate 8 (some true, atLedger 101)

theorem announced_twice :
    ¬ ((sampleDispatched renamedLater).filter (announces "drop_0")).length ≤ 1 := by
  decide

end SmartDrop.Airdrops.Expiry
