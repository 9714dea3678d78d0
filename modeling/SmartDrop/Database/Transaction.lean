/-
# Transactions that are retried

`withTransaction` of `database/transaction.js`, at top level: an attempt begins a transaction, runs
the callback and commits, and rolls back if either throws; an attempt that ends in a deadlock or a
serialisation failure is followed by another one, up to `maxRetries` times.

The database client and the callback are the environment: it says at each command whether that
succeeds or what it throws.  The callback does not finish the transaction itself.  A `commit` that
throws has not committed, and may have ended the transaction or not; a `rollback` may throw too.
-/
import SmartDrop.Lib.JsText
import SmartDrop.Lib.Prog
import Mathlib.Data.List.Infix
import Mathlib.Algebra.Order.Ring.Unbundled.Rat

namespace SmartDrop.Database

open Conc

/-! ## 1. Errors -/

/-- What is thrown: `null` or `undefined`, or a value with a `code` and a `message`, each as its text
and `none` where it is missing. -/
inductive Thrown where
  | nullish
  | error (code message : Option String)
deriving DecidableEq

/-- `DEADLOCK_ERROR_CODES`. -/
def DEADLOCK_ERROR_CODES : List String := ["40P01", "40001", "DEADLOCK_DETECTED"]

/-- `toLowerCase()` of a character, as far as what comes out has letters of ASCII; a character of
which that is not so is left as it is. -/
def lowerLetters (c : Char) : List Char :=
  if c.toNat = 0x212A then ['k']
  else if c.toNat = 0x130 then ['i', Char.ofNat 0x307]
  else if JsText.isUpper c then [Char.ofNat (c.toNat + 32)]
  else [c]

/-- `text.includes(part)`. -/
def includes (text : List Char) (part : String) : Bool := text.tails.any part.toList.isPrefixOf

/-- `isDeadlockOrSerializationError`. -/
def isDeadlockOrSerializationError : Thrown → Bool
  | .nullish => false
  | .error code message =>
    if code.any fun c => DEADLOCK_ERROR_CODES.contains (String.ofList (c.toList.map JsText.upper)) then
      true
    else
      let msg := (message.getD "").toList.flatMap lowerLetters
      includes msg "deadlock detected" || includes msg "could not serialize access" ||
        includes msg "serialization failure" || includes msg "deadlock"

/-- What reading the message of `null` throws. -/
def TYPE_ERROR : Thrown := .error none (some "Cannot read properties of null (reading 'message')")

/-! ## 2. The database -/

/-- Where a transaction is. -/
inductive Status where
  | notBegun
  | active
  | committed
  | rolledBack
deriving DecidableEq

/-- A transaction, with what its callback has returned and what has failed in it. -/
structure Trx (α : Type) where
  status : Status
  result : Option α
  failure : Option Thrown
deriving DecidableEq

/-- `trx.isCompleted()`. -/
def Trx.isCompleted {α : Type} (t : Trx α) : Bool := t.status ≠ .active

/-- What `withTransaction` asks for; all but the first are about the transaction begun last. -/
inductive Op where
  | transaction (isolationLevel : Option String)
  | callback
  | isCompleted
  | commit
  | rollback
  | random
  | sleep (ms : ℚ)

/-- What is answered. -/
@[reducible] def Op.Ret (α : Type) : Op → Type
  | .transaction _ => Except Thrown Unit
  | .callback => Except Thrown α
  | .isCompleted => Bool
  | .commit => Except Thrown Unit
  | .rollback => Except Thrown Unit
  | .random => ℚ
  | .sleep _ => Unit

/-- The signature, for a callback that returns an `α`. -/
def sig (α : Type) : Sig where
  Op := Op
  Rep op := op.Ret α

/-- How the commands turn out.  A commit that throws says whether it has ended the transaction. -/
structure Env (α : Type) where
  transaction : Except Thrown Unit
  callback : Except Thrown α
  commit : Except (Thrown × Bool) Unit
  rollback : Except Thrown Unit
  random : ℚ

/-- The transactions so far, the last one first. -/
abbrev Store (α : Type) := List (Trx α)

variable {α : Type}

/-- The transaction begun last is changed. -/
def change (f : Trx α → Trx α) : Store α → Store α
  | [] => []
  | t :: ts => f t :: ts

/-- The database client. -/
def machine (α : Type) : Machine (sig α) Unit (Env α) (Store α) where
  exec
    | _, .transaction _, x, s =>
      match x.transaction with
      | .ok () => (.ok (), ⟨.active, none, none⟩ :: s)
      | .error e => (.error e, ⟨.notBegun, none, some e⟩ :: s)
    | _, .callback, x, s =>
      match x.callback with
      | .ok a => (.ok a, change (fun t => { t with result := some a }) s)
      | .error e => (.error e, change (fun t => { t with failure := some e }) s)
    | _, .isCompleted, _, s => (s.head?.elim true Trx.isCompleted, s)
    | _, .commit, x, s =>
      match x.commit with
      | .ok () => (.ok (), change (fun t => { t with status := .committed }) s)
      | .error (e, ended) => (.error e, change (fun t => { t with
          status := if ended then .rolledBack else t.status
          failure := some e }) s)
    | _, .rollback, x, s =>
      match x.rollback with
      | .ok () => (.ok (), change (fun t => { t with status := .rolledBack }) s)
      | .error e => (.error e, s)
    | _, .random, x, s => (x.random, s)
    | _, .sleep _, _, s => ((), s)

/-! ## 3. The source -/

/-- A piece of the source. -/
abbrev Code (α β : Type) := Throws (sig α) Thrown β

/-- A command that may throw. -/
def attempted {β : Type} (op : Op) (h : op.Ret α = Except Thrown β) : Code α β :=
  (Prog.cmd (S := sig α) op fun r => .ret (cast h r) : Prog (sig α) (Except Thrown β))

/-- A command that does not throw. -/
def ask (op : Op) : Code α (op.Ret α) := Throws.call (S := sig α) op

/-- `try { body } finally { last }`. -/
def andFinally {β : Type} (body : Code α β) (last : Code α Unit) : Code α β :=
  (body.prog.bind fun r => last.prog.bind fun
    | .ok () => .ret r
    | .error e => .ret (.error e) : Prog (sig α) (Except Thrown β))

/-- The rollback of the `catch`; a rollback that throws is logged, with both messages. -/
def rollbackAfter (err : Thrown) : Code α Unit := do
  if !(← ask .isCompleted) then
    tryCatch (attempted .rollback rfl) fun rollbackErr =>
      if err = .nullish ∨ rollbackErr = .nullish then throw TYPE_ERROR else return ()

/-- The rollback of the `finally`. -/
def rollbackFinally : Code α Unit := do
  if !(← ask .isCompleted) then tryCatch (attempted .rollback rfl) fun _ => return ()

/-- What is tried: the callback, and the commit unless the transaction is finished. -/
def commitAfter : Code α α := do
  let result ← attempted .callback rfl
  if !(← ask .isCompleted) then attempted .commit rfl
  return result

/-- `executeSingleTransaction`. -/
def executeSingleTransaction (isolationLevel : Option String) : Code α α := do
  attempted (.transaction isolationLevel) rfl
  andFinally (tryCatch commitAfter fun err => do
    rollbackAfter err
    throw err) rollbackFinally

/-- `options`. -/
structure Options where
  isolationLevel : Option String := none
  maxRetries : Option ℕ := none
  baseDelayMs : Option ℚ := none
  maxDelayMs : Option ℚ := none

/-- The wait before the next attempt. -/
def backoff (options : Options) (attempt : ℕ) (random : ℚ) : ℚ :=
  let baseDelayMs := options.baseDelayMs.getD 25
  let jitter := random * (baseDelayMs * (1 / 2))
  min (options.maxDelayMs.getD 500) (baseDelayMs * 2 ^ (attempt - 1) + jitter)

/-- The loop of `withTransaction`, after `attempt` retries and with so many left. -/
def retryLoop (options : Options) (attempt : ℕ) : ℕ → Code α α
  | 0 => executeSingleTransaction options.isolationLevel
  | left + 1 => tryCatch (executeSingleTransaction options.isolationLevel) fun err =>
      if isDeadlockOrSerializationError err then do
        let random ← ask .random
        ask (.sleep (backoff options (attempt + 1) random))
        retryLoop options (attempt + 1) left
      else throw err

/-- `withTransaction`. -/
def withTransaction (options : Options) : Code α α :=
  retryLoop options 0 (options.maxRetries.getD 3)

/-! ## 4. One attempt

The judgements below are about a call that nothing interferes with.  `begins` and `works` say
whether transactions are known to begin and rollbacks to work. -/

section Attempt

variable {begins works : Prop}

/-- The answers that are considered. -/
def fine (begins works : Prop) : (sig α).Op → Env α → Store α → Prop := fun _ x _ =>
  (begins → x.transaction = .ok ()) ∧ (works → x.rollback = .ok ())

theorem stable_eq (P : Store α → Prop) : Stable (Eq : Store α → Store α → Prop) P := by
  intro s s' hs h
  exact h ▸ hs

theorem satE_attempted {β : Type} {op : Op} {h : op.Ret α = Except Thrown β} {P : Store α → Prop}
    {Q : β → Store α → Prop} {E : Thrown → Store α → Prop}
    (hop : ∀ x s, P s → fine begins works op x s →
      match cast h ((machine α).exec () op x s).1 with
      | .ok b => Q b ((machine α).exec () op x s).2
      | .error e => E e ((machine α).exec () op x s).2) :
    SatE (machine α) () (.alone (fine begins works)) (attempted op h) P Q E := by
  intro x s hs hok
  refine ⟨trivial, (· = ((machine α).exec () op x s).2), stable_eq _, rfl, ?_⟩
  rintro s' rfl
  have hq := hop x s hs hok
  revert hq
  cases cast h ((machine α).exec () op x s).1 <;> exact id

theorem satE_ask {op : Op} {P : Store α → Prop} {Q : op.Ret α → Store α → Prop}
    {E : Thrown → Store α → Prop}
    (hop : ∀ x s, P s → Q ((machine α).exec () op x s).1 ((machine α).exec () op x s).2) :
    SatE (machine α) () (.alone (fine begins works)) (ask op) P Q E :=
  SatE.call (fun _ => stable_eq _) fun x s hs _ => ⟨trivial, hop x s hs⟩

theorem satE_andFinally {β : Type} {body : Code α β} {last : Code α Unit} {P : Store α → Prop}
    {Q Q' : β → Store α → Prop} {E E' : Thrown → Store α → Prop}
    (hbody : SatE (machine α) () (.alone (fine begins works)) body P Q E)
    (hreturn : ∀ b, SatE (machine α) () (.alone (fine begins works)) last (Q b)
      (fun _ => Q' b) E')
    (hthrow : ∀ e, SatE (machine α) () (.alone (fine begins works)) last (E e)
      (fun _ => E' e) E') :
    SatE (machine α) () (.alone (fine begins works)) (andFinally body last) P Q' E' := by
  refine Sat.bind hbody ?_
  rintro (e | b)
  · refine Sat.bind (hthrow e) ?_
    rintro (e' | u) s hs <;> exact hs
  · refine Sat.bind (hreturn b) ?_
    rintro (e' | u) s hs <;> exact hs

/-- A transaction that has failed and is not committed. -/
structure Trx.Failed (t : Trx α) (e : Thrown) : Prop where
  status : t.status = .active ∨ t.status = .rolledBack
  failure : t.failure = some e

/-- What the transaction begun last has come to, with the ones before it as they were. -/
def Last (ts : Store α) (P : Trx α → Prop) (s : Store α) : Prop := ∃ t, s = t :: ts ∧ P t

theorem commitAfter_spec (ts : Store α) :
    SatE (machine α) () (.alone (fine begins works)) commitAfter
      (· = ⟨.active, none, none⟩ :: ts)
      (fun a s => s = ⟨.committed, some a, none⟩ :: ts)
      (fun e => Last ts fun t => t.Failed e) := by
  unfold commitAfter
  refine SatE.bind (Q := fun a s => s = ⟨.active, some a, none⟩ :: ts) (satE_attempted ?_) ?_
  · rintro x s rfl -
    simp only [machine]
    cases x.callback with
    | ok a => rfl
    | error e => exact ⟨_, rfl, Or.inl rfl, rfl⟩
  intro result
  refine SatE.bind (Q := fun completed s => completed = false ∧ s = ⟨.active, some result, none⟩ :: ts)
    (satE_ask ?_) ?_
  · rintro x s rfl
    exact ⟨rfl, rfl⟩
  intro completed
  refine SatE.assume ?_
  rintro rfl
  refine SatE.bind (Q := fun _ s => s = ⟨.committed, some result, none⟩ :: ts)
    (satE_attempted ?_) fun _ => SatE.pure fun s hs => hs
  rintro x s rfl -
  simp only [machine]
  cases x.commit with
  | ok u => rfl
  | error e =>
    obtain ⟨e, ended⟩ := e
    cases ended
    · exact ⟨_, rfl, Or.inl rfl, rfl⟩
    · exact ⟨_, rfl, Or.inr rfl, rfl⟩

/-- How an attempt that has thrown stands.  What it throws is what has failed in it, and nothing of
it remains, unless its rollback has not worked. -/
structure Trx.Undone (begins works : Prop) (e : Thrown) (t : Trx α) : Prop where
  status : t.status ≠ .committed
  failure : t.failure = some e ∨ e = TYPE_ERROR
  settled : works → t.failure = some e ∧ t.status ≠ .active
  begun : begins → t.status ≠ .notBegun

theorem Trx.Undone.rollback {e : Thrown} {t : Trx α} (ht : t.Undone begins works e) :
    ({ t with status := .rolledBack } : Trx α).Undone begins works e :=
  ⟨nofun, ht.failure, fun h => ⟨(ht.settled h).1, nofun⟩, fun _ => nofun⟩

theorem Trx.Failed.undone {e e' : Thrown} {t : Trx α} (ht : t.Failed e)
    (he : e' = e ∨ e' = TYPE_ERROR ∧ ¬works) (hrolled : works → t.status = .rolledBack) :
    t.Undone begins works e' where
  status := by rcases ht.status with h | h <;> simp [h]
  failure := he.imp (fun h => by rw [h, ht.failure]) And.left
  settled h := by
    have heq : e' = e := he.resolve_right fun hne => hne.2 h
    exact ⟨by rw [heq, ht.failure], by simp [hrolled h]⟩
  begun _ := by rcases ht.status with h | h <;> simp [h]

theorem rollbackAfter_spec (ts : Store α) (err : Thrown) :
    SatE (machine α) () (.alone (fine begins works)) (rollbackAfter err)
      (Last ts fun t => t.Failed err)
      (fun _ => Last ts fun t => t.Failed err ∧ (works → t.status = .rolledBack))
      (fun e => Last ts fun t => t.Failed err ∧ e = TYPE_ERROR ∧ ¬works) := by
  unfold rollbackAfter
  refine SatE.bind (Q := fun completed => Last ts fun t => t.Failed err ∧
    completed = decide (t.status ≠ .active)) (satE_ask ?_) ?_
  · rintro x s ⟨t, rfl, ht⟩
    exact ⟨t, rfl, ht, rfl⟩
  intro completed
  cases completed with
  | true =>
    refine SatE.pure ?_
    rintro s ⟨t, rfl, ht, hc⟩
    have hactive : t.status ≠ .active := of_decide_eq_true hc.symm
    exact ⟨t, rfl, ht, fun _ => ht.status.resolve_left hactive⟩
  | false =>
    refine SatE.tryCatch (E := fun _ => Last ts fun t => t.Failed err ∧ ¬works)
      (satE_attempted ?_) ?_
    · rintro x s ⟨t, rfl, ht, -⟩ hok
      simp only [machine]
      cases hx : x.rollback with
      | ok u => exact ⟨_, rfl, ⟨Or.inr rfl, ht.failure⟩, fun _ => rfl⟩
      | error e =>
        refine ⟨t, rfl, ht, fun hworks => ?_⟩
        have := hok.2 hworks
        simp [hx] at this
    · intro rollbackErr
      split
      · refine SatE.throw ?_
        rintro s ⟨t, rfl, ht, hworks⟩
        exact ⟨t, rfl, ht, rfl, hworks⟩
      · refine SatE.pure ?_
        rintro s ⟨t, rfl, ht, hworks⟩
        exact ⟨t, rfl, ht, fun h => absurd h hworks⟩

/-- The `finally` leaves a transaction that is finished alone, and may roll another one back. -/
theorem rollbackFinally_spec (ts : Store α) (P : Trx α → Prop)
    (hP : ∀ t, P t → t.status = .active → P { t with status := .rolledBack }) :
    SatE (machine α) () (.alone (fine begins works)) rollbackFinally (Last ts P)
      (fun _ => Last ts P) (fun _ _ => False) := by
  unfold rollbackFinally
  refine SatE.bind (Q := fun completed => Last ts fun t => P t ∧
    completed = decide (t.status ≠ .active)) (satE_ask ?_) ?_
  · rintro x s ⟨t, rfl, ht⟩
    exact ⟨t, rfl, ht, rfl⟩
  intro completed
  cases completed with
  | true =>
    refine SatE.pure ?_
    rintro s ⟨t, rfl, ht, -⟩
    exact ⟨t, rfl, ht⟩
  | false =>
    refine SatE.tryCatch (E := fun _ => Last ts P) (satE_attempted ?_)
      fun _ => SatE.pure fun s hs => hs
    rintro x s ⟨t, rfl, ht, hc⟩ -
    have hactive : t.status = .active := by simpa using hc.symm
    simp only [machine]
    cases x.rollback with
    | ok u => exact ⟨_, rfl, hP t ht hactive⟩
    | error e => exact ⟨t, rfl, ht⟩

/-- **One attempt**: it returns what its callback has returned and is committed, or it throws and is
undone. -/
theorem executeSingleTransaction_spec (ts : Store α) (isolationLevel : Option String) :
    SatE (machine α) () (.alone (fine begins works)) (executeSingleTransaction isolationLevel)
      (· = ts)
      (fun a s => s = ⟨.committed, some a, none⟩ :: ts)
      (fun e => Last ts (Trx.Undone begins works e)) := by
  unfold executeSingleTransaction
  refine SatE.bind (Q := fun _ s => s = ⟨.active, none, none⟩ :: ts) (satE_attempted ?_) fun _ => ?_
  · rintro x s rfl hok
    simp only [machine]
    cases hx : x.transaction with
    | ok u => rfl
    | error e =>
      refine ⟨_, rfl, nofun, Or.inl rfl, fun _ => ⟨rfl, nofun⟩, fun hbegins => ?_⟩
      have := hok.1 hbegins
      simp [hx] at this
  refine satE_andFinally (Q := fun a => Last ts (· = ⟨.committed, some a, none⟩))
    (E := fun e => Last ts (Trx.Undone begins works e))
    (SatE.tryCatch ((commitAfter_spec ts).mono (fun _ h => h) ?_ fun _ _ h => h) fun err => ?_)
    (fun a => ?_) fun e => ?_
  · rintro a s rfl
    exact ⟨_, rfl, rfl⟩
  · refine SatE.bind ((rollbackAfter_spec ts err).mono (fun _ h => h) (fun _ _ h => h) ?_)
      fun _ => SatE.throw ?_
    · rintro e s ⟨t, rfl, ht, he⟩
      exact ⟨t, rfl, ht.undone (Or.inr he) fun hworks => absurd hworks he.2⟩
    · rintro s ⟨t, rfl, ht, hrolled⟩
      exact ⟨t, rfl, ht.undone (Or.inl rfl) hrolled⟩
  · refine (rollbackFinally_spec ts _ ?_).mono (fun _ h => h) ?_ fun _ _ h => h.elim
    · rintro t rfl h
      simp at h
    · rintro - s ⟨t, rfl, rfl⟩
      rfl
  · exact (rollbackFinally_spec ts _ fun t ht _ => ht.rollback).mono (fun _ h => h) (fun _ _ h => h)
      fun _ _ h => h.elim

/-! ## 5. The retries -/

/-- An attempt that another one has followed. -/
def Trx.Retried (begins works : Prop) (t : Trx α) : Prop :=
  ∃ e, t.Undone begins works e ∧ t.failure = some e ∧ isDeadlockOrSerializationError e = true

/-- The transactions of a call that has begun `attempts` of them, each before the last retried. -/
structure Attempts (begins works : Prop) (ts : Store α) (limit : ℕ) : Prop where
  retried : ∀ t ∈ ts, t.Retried begins works
  length : ts.length ≤ limit

/-- How the transactions of a call that has thrown stand: the last one is not retried because it may
not be, or because there have been as many attempts as there may be. -/
structure GivenUp (begins works : Prop) (e : Thrown) (t : Trx α) (ts : Store α) (limit : ℕ) : Prop where
  undone : t.Undone begins works e
  earlier : Attempts begins works ts limit
  last : isDeadlockOrSerializationError e = true → ts.length = limit

theorem not_isDeadlock_TYPE_ERROR : isDeadlockOrSerializationError TYPE_ERROR = false := by
  rw [TYPE_ERROR, isDeadlockOrSerializationError, if_neg (by simp)]
  simp only [Option.getD_some, includes]
  iterate 5 rw [String.toList_ofList]
  decide +kernel

/-- The loop, by induction on the attempts that are left. -/
theorem retryLoop_spec (options : Options) (left attempt : ℕ) :
    SatE (machine α) () (.alone (fine begins works)) (retryLoop options attempt left)
      (fun s => s.length = attempt ∧ ∀ t ∈ s, t.Retried begins works)
      (fun a s => ∃ ts, s = ⟨.committed, some a, none⟩ :: ts ∧
        Attempts begins works ts (attempt + left))
      (fun e s => ∃ t ts, s = t :: ts ∧ GivenUp begins works e t ts (attempt + left)) := by
  induction left generalizing attempt with
  | zero =>
    refine SatE.fix ?_
    rintro ts ⟨hlength, hts⟩
    have hattempts : Attempts begins works ts (attempt + 0) := ⟨hts, by omega⟩
    refine (executeSingleTransaction_spec ts options.isolationLevel).mono (fun _ h => h) ?_ ?_
    · rintro a s rfl
      exact ⟨ts, rfl, hattempts⟩
    · rintro e s ⟨t, rfl, ht⟩
      exact ⟨t, ts, rfl, ht, hattempts, fun _ => by omega⟩
  | succ left ih =>
    refine SatE.fix ?_
    rintro ts ⟨hlength, hts⟩
    have hattempts : Attempts begins works ts (attempt + (left + 1)) := ⟨hts, by omega⟩
    refine SatE.tryCatch ((executeSingleTransaction_spec ts options.isolationLevel).mono
      (fun _ h => h) ?_ fun _ _ h => h) ?_
    · rintro a s rfl
      exact ⟨ts, rfl, hattempts⟩
    intro err
    split
    · rename_i herr
      -- the attempt is retried, and what has failed in it is what was thrown
      have hretried : ∀ s, Last ts (Trx.Undone begins works err) s →
          s.length = attempt + 1 ∧ ∀ t ∈ s, t.Retried begins works := by
        rintro s ⟨t, rfl, ht⟩
        refine ⟨by simp [hlength], ?_⟩
        have hfailure : t.failure = some err := by
          refine ht.failure.resolve_right ?_
          rintro rfl
          rw [not_isDeadlock_TYPE_ERROR] at herr
          cases herr
        intro u hu
        rcases List.mem_cons.mp hu with rfl | hu
        · exact ⟨err, ht, hfailure, herr⟩
        · exact hts u hu
      refine SatE.bind (Q := fun _ s => s.length = attempt + 1 ∧ ∀ t ∈ s, t.Retried begins works)
        (satE_ask fun x s hs => hretried s hs) fun random => ?_
      refine SatE.bind (Q := fun _ s => s.length = attempt + 1 ∧ ∀ t ∈ s, t.Retried begins works)
        (satE_ask fun x s hs => hs) fun _ => ?_
      have heq : attempt + 1 + left = attempt + (left + 1) := by omega
      exact heq ▸ ih (attempt + 1)
    · rename_i herr
      refine SatE.throw ?_
      rintro s ⟨t, rfl, ht⟩
      exact ⟨t, ts, rfl, ht, hattempts, fun h => absurd h herr⟩

end Attempt

/-- Run alone, the environment answering from a stream. -/
def call (options : Options) (xs : ℕ → Env α) : Except Thrown α × Store α :=
  (withTransaction options).prog.runWith (machine α) () xs []

/-- What a call with so many retries has come to, `t` being its last attempt and `ts` the earlier
ones. -/
structure AllOrNothing (maxRetries : ℕ) (r : Except Thrown α) (t : Trx α) (ts : Store α) :
    Prop where
  attempts : ts.length ≤ maxRetries
  retryable : ∀ u ∈ ts, ∃ e, u.failure = some e ∧ isDeadlockOrSerializationError e = true
  earlier : ∀ u ∈ ts, u.status ≠ .committed
  returned : ∀ a, r = .ok a → t.status = .committed ∧ t.result = some a
  threw : ∀ e, r = .error e → t.status ≠ .committed ∧
    (isDeadlockOrSerializationError e = true → ts.length = maxRetries)

/-- The transactions but a committed one are rolled back, and what is thrown is what has failed in
the last one.  One that could not be begun has nothing to roll back. -/
structure CleanedUp (r : Except Thrown α) (t : Trx α) (ts : Store α) : Prop where
  earlier : ∀ u ∈ ts, u.status = .rolledBack ∨ u.status = .notBegun
  last : ∀ e, r = .error e → t.failure = some e ∧ (t.status = .rolledBack ∨ t.status = .notBegun)

theorem Trx.Undone.cleanedUp {begins works : Prop} {e : Thrown} {t : Trx α}
    (ht : t.Undone begins works e) (h : works) : t.status = .rolledBack ∨ t.status = .notBegun := by
  have hactive := (ht.settled h).2
  have hcommitted := ht.status
  cases hst : t.status with
  | notBegun => exact Or.inr rfl
  | active => exact absurd hst hactive
  | committed => exact absurd hst hcommitted
  | rolledBack => exact Or.inl rfl

namespace Attempts

variable {begins works : Prop} {ts : Store α} {limit : ℕ}

theorem retryable (h : Attempts begins works ts limit) :
    ∀ u ∈ ts, ∃ e, u.failure = some e ∧ isDeadlockOrSerializationError e = true := by
  intro u hu
  obtain ⟨e, -, he⟩ := h.retried u hu
  exact ⟨e, he⟩

theorem uncommitted (h : Attempts begins works ts limit) : ∀ u ∈ ts, u.status ≠ .committed := by
  intro u hu
  obtain ⟨e, hundone, -⟩ := h.retried u hu
  exact hundone.status

theorem cleanedUp (h : Attempts begins works ts limit) (hworks : works) :
    ∀ u ∈ ts, u.status = .rolledBack ∨ u.status = .notBegun := by
  intro u hu
  obtain ⟨e, hundone, -⟩ := h.retried u hu
  exact hundone.cleanedUp hworks

theorem begun (h : Attempts begins works ts limit) (hbegins : begins) :
    ∀ u ∈ ts, u.status ≠ .notBegun := by
  intro u hu
  obtain ⟨e, hundone, -⟩ := h.retried u hu
  exact hundone.begun hbegins

end Attempts

/-- What the judgement of the loop says about a call. -/
theorem call_spec (options : Options) (xs : ℕ → Env α) :
    match (call options xs).1 with
    | .ok a => ∃ ts, (call options xs).2 = ⟨.committed, some a, none⟩ :: ts ∧
        Attempts (∀ n, (xs n).transaction = .ok ()) (∀ n, (xs n).rollback = .ok ()) ts
          (options.maxRetries.getD 3)
    | .error e => ∃ t ts, (call options xs).2 = t :: ts ∧
        GivenUp (∀ n, (xs n).transaction = .ok ()) (∀ n, (xs n).rollback = .ok ()) e t ts
          (options.maxRetries.getD 3) := by
  have hspec : SatE (machine α) () (.alone (fine (∀ n, (xs n).transaction = .ok ())
      (∀ n, (xs n).rollback = .ok ()))) (withTransaction options) _ _ _ :=
    retryLoop_spec options (options.maxRetries.getD 3) 0
  have hrun := Sat.runWith hspec xs (fun n _ _ => ⟨fun h => h n, fun h => h n⟩)
    (s := []) ⟨rfl, nofun⟩
  simp only [Nat.zero_add] at hrun
  revert hrun
  unfold call
  cases ((withTransaction options).prog.runWith (machine α) () xs []).1 <;> exact id

/-- **A call is all or nothing.**  However the commands turn out, there are at most `maxRetries + 1`
attempts, and one is followed by another only if it has failed in a way that may be retried.  A normal
return means that the last attempt is committed and no other is, a throw that none is.  If rollbacks
work, the attempts that are not committed are rolled back and the last one's error is thrown. -/
theorem withTransaction_allOrNothing (options : Options) (xs : ℕ → Env α) :
    ∃ t ts, (call options xs).2 = t :: ts ∧
      AllOrNothing (options.maxRetries.getD 3) (call options xs).1 t ts ∧
      ((∀ n, (xs n).rollback = .ok ()) → CleanedUp (call options xs).1 t ts) ∧
      ((∀ n, (xs n).transaction = .ok ()) → ∀ u ∈ t :: ts, u.status ≠ .notBegun) := by
  have hspec := call_spec options xs
  cases hr : (call options xs).1 with
  | ok a =>
    rw [hr] at hspec
    obtain ⟨ts, hs, hts⟩ := hspec
    refine ⟨_, ts, hs, ?_, fun hworks => ⟨hts.cleanedUp hworks, nofun⟩, fun hbegins u hu => ?_⟩
    · refine ⟨hts.length, hts.retryable, hts.uncommitted, ?_, nofun⟩
      rintro _ ⟨⟩
      exact ⟨rfl, rfl⟩
    · rcases List.mem_cons.mp hu with rfl | hu
      · exact nofun
      · exact hts.begun hbegins u hu
  | error e =>
    rw [hr] at hspec
    obtain ⟨t, ts, hs, hundone, hts, hlast⟩ := hspec
    refine ⟨t, ts, hs, ?_, fun hworks => ⟨hts.cleanedUp hworks, ?_⟩, fun hbegins u hu => ?_⟩
    · refine ⟨hts.length, hts.retryable, hts.uncommitted, nofun, ?_⟩
      rintro _ ⟨⟩
      exact ⟨hundone.status, hlast⟩
    · rintro _ ⟨⟩
      exact ⟨(hundone.settled hworks).1, hundone.cleanedUp hworks⟩
    · rcases List.mem_cons.mp hu with rfl | hu
      · exact hundone.begun hbegins
      · exact hts.begun hbegins u hu

/-- A deadlock, then a commit. -/
theorem withTransaction_allOrNothing_sample :
    let xs : ℕ → Env ℕ := fun n => ⟨.ok (), if n < 2 then .error (.error (some "40p01") none) else
      .ok 7, .ok (), .ok (), 0⟩
    ∃ t ts, (call {} xs).2 = t :: ts ∧ AllOrNothing 3 (call {} xs).1 t ts ∧
      CleanedUp (call {} xs).1 t ts ∧ ∀ u ∈ t :: ts, u.status ≠ .notBegun := by
  intro xs
  obtain ⟨t, ts, hs, hall, hclean, hbegun⟩ := withTransaction_allOrNothing {} xs
  exact ⟨t, ts, hs, hall, hclean fun _ => rfl, hbegun fun _ => rfl⟩

end SmartDrop.Database
