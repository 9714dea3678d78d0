/-
# Account lockout

`auth/accountLockout.js`, and the awaited steps of `loginUser` in `auth/authService.js`.

A login asks whether the account is locked before it looks the user up and compares the password,
and it records a failure only after that.  Logins that wait between the two count for nothing
(`burst_passes`), so the lockout holds as long as each login that passes the check finds room for
one failure more than those that are recorded or can still be recorded: `lockout_run`.

Section 3 says what a lockout is, over the history of an account; section 4 keeps the record in step
with that history.
-/
import SmartDrop.Lib.Run
import Mathlib.Data.List.Perm.Basic

namespace SmartDrop.Lockout

open Conc

/-! ## 1. Lockout -/

/-- The options of an `AccountLockout`, with its `DEFAULTS`. -/
structure Options where
  maxFailedAttempts : ℕ := 5
  lockoutDurationMs : ℕ := 15 * 60 * 1000
  windowMs : ℕ := 60 * 60 * 1000

/-- What the map holds for an identifier. -/
structure Failures where
  failedAttempts : ℕ
  lockedUntil : Option ℕ
  firstFailedAt : ℕ
deriving DecidableEq

namespace Failures

variable (o : Options) (now : ℕ)

/-- `isLocked`: the answer, and the record it leaves.  A `lockedUntil` of 0 is falsy. -/
def isLocked (record : Option Failures) : Bool × Option Failures :=
  match record with
  | none => (false, none)
  | some r =>
    match r.lockedUntil with
    | none => (false, some r)
    | some lockedUntil =>
      if lockedUntil ≠ 0 ∧ now < lockedUntil then (true, some r)
      else if lockedUntil ≠ 0 ∧ lockedUntil ≤ now then (false, none)
      else (false, some r)

/-- The record that `recordFailure` counts in: a new one, or the old one unless it is past the
window. -/
def pruned (record : Option Failures) : Failures :=
  match record with
  | none => ⟨0, none, now⟩
  | some r => if o.windowMs < now - r.firstFailedAt then ⟨0, none, now⟩ else r

/-- `recordFailure`. -/
def recordFailure (record : Option Failures) : Failures :=
  let r := pruned o now record
  { r with
    failedAttempts := r.failedAttempts + 1
    lockedUntil :=
      if o.maxFailedAttempts ≤ r.failedAttempts + 1 then some (now + o.lockoutDurationMs)
      else r.lockedUntil }

/-- `getFailedAttempts`. -/
def count (record : Option Failures) : ℕ := (record.map failedAttempts).getD 0

end Failures

/-! ## 2. Logins -/

/-- What a login waits for: the lookup of its user, or the comparison of its password with that of
the user it found, if it found one. -/
inductive Phase where
  | lookup
  | verify (found : Bool)
deriving DecidableEq

/-- A login on its way. -/
structure Login where
  identifier : String
  password : String
  phase : Phase
deriving DecidableEq

/-- What happens to an account: a login passes the lock check, a password turns out wrong (for the
stored hash, or for lack of a user), or right. -/
inductive Event where
  | admitted
  | failed (stored : Bool)
  | right
deriving DecidableEq

/-- The process: its clock, the map, the logins on their way, and the history of every account,
newest first. -/
structure Accounts where
  now : ℕ
  attempts : String → Option Failures
  logins : List Login
  history : String → List (ℕ × Event)

namespace Accounts

/-- No attempt was made. -/
def start (now : ℕ) : Accounts := ⟨now, fun _ => none, [], fun _ => []⟩

/-- A call of `loginUser`, an answer that one of the logins waits for (`none` when the store or the
comparison throws), or time that passes. -/
inductive Label where
  | tick (ms : ℕ)
  | login (identifier password : String)
  | lookup (n : ℕ) (found : Option Bool)
  | verify (n : ℕ) (valid : Option Bool)
deriving DecidableEq

/-- The record of an account and its history move on. -/
def record (s : Accounts) (identifier : String) (r : Option Failures) (e : Event) : Accounts :=
  { s with
    attempts := Function.update s.attempts identifier r
    history := Function.update s.history identifier ((s.now, e) :: s.history identifier) }

/-- The first step of `loginUser`: up to the lookup. -/
def login (s : Accounts) (identifier password : String) : Accounts :=
  if identifier = "" ∨ password = "" then s
  else
    let r := Failures.isLocked s.now (s.attempts identifier)
    if r.1 then s
    else { s.record identifier r.2 .admitted with
      logins := s.logins ++ [⟨identifier, password, .lookup⟩] }

/-- The end of a login. -/
def drop (s : Accounts) (n : ℕ) : Accounts := { s with logins := s.logins.eraseIdx n }

/-- A wrong password. -/
def fail (o : Options) (s : Accounts) (identifier : String) (stored : Bool) : Accounts :=
  s.record identifier (some (Failures.recordFailure o s.now (s.attempts identifier)))
    (.failed stored)

/-- The step of `loginUser` after the lookup: up to the comparison. -/
def lookup (s : Accounts) (n : ℕ) (found : Option Bool) : Accounts :=
  match s.logins[n]?, found with
  | some ⟨identifier, password, .lookup⟩, some found =>
    { s with logins := s.logins.set n ⟨identifier, password, .verify found⟩ }
  | some ⟨_, _, .lookup⟩, none => s.drop n
  | _, _ => s

/-- The step of `loginUser` after the comparison.  `dummyVerify` never throws, and whatever it
compares, the login fails. -/
def verify (o : Options) (s : Accounts) (n : ℕ) (valid : Option Bool) : Accounts :=
  match s.logins[n]?, valid with
  | some ⟨identifier, _, .verify false⟩, _ => (s.drop n).fail o identifier false
  | some ⟨identifier, _, .verify true⟩, some true => (s.drop n).record identifier none .right
  | some ⟨identifier, _, .verify true⟩, some false => (s.drop n).fail o identifier true
  | some ⟨_, _, .verify true⟩, none => s.drop n
  | _, _ => s

/-- One step. -/
def step (o : Options) (s : Accounts) : Label → Accounts
  | .tick ms => { s with now := s.now + ms }
  | .login identifier password => s.login identifier password
  | .lookup n found => s.lookup n found
  | .verify n valid => s.verify o n valid

/-- The logins of an account that are on their way. -/
def onTheWay (s : Accounts) (identifier : String) : ℕ :=
  s.logins.countP fun l => l.identifier = identifier

/-! ## 3. What a lockout is -/

section History

variable (o : Options)

/-- When the passwords of the current round were found wrong, newest first.  A right password ends a
round, and a login that is admitted when the round is full begins the next one. -/
def round : List (ℕ × Event) → List ℕ
  | [] => []
  | (t, .failed _) :: h => t :: round h
  | (_, .right) :: _ => []
  | (_, .admitted) :: h => if o.maxFailedAttempts ≤ (round h).length then [] else round h

/-- No round takes more than `maxFailedAttempts` passwords, and when it has, none is admitted
before the lockout is over. -/
def Guarded : List (ℕ × Event) → Prop
  | [] => True
  | (t, e) :: h => Guarded h ∧
    match e with
    | .admitted => o.maxFailedAttempts ≤ (round o h).length →
        ∀ last ∈ (round o h).head?, last + o.lockoutDurationMs ≤ t
    | _ => (round o h).length < o.maxFailedAttempts

instance Guarded.decidable : (h : List (ℕ × Event)) → Decidable (Guarded o h)
  | [] => isTrue trivial
  | (_, e) :: h =>
    have := Guarded.decidable h
    match e with
    | .admitted => inferInstanceAs (Decidable (_ ∧ (_ → _)))
    | .failed _ => inferInstanceAs (Decidable (_ ∧ _ < _))
    | .right => inferInstanceAs (Decidable (_ ∧ _ < _))

end History

/-- A login that passes the lock check finds room: fewer than `maxFailedAttempts` failures are
recorded or can still be recorded by the logins on their way. -/
def HasRoom (o : Options) (s : Accounts) : Label → Prop
  | .login identifier password =>
    identifier ≠ "" → password ≠ "" →
      (Failures.isLocked s.now (s.attempts identifier)).1 = false →
      Failures.count (Failures.isLocked s.now (s.attempts identifier)).2 + s.onTheWay identifier <
        o.maxFailedAttempts
  | _ => True

/-- A password is compared within `windowMs` of the first failure that is recorded. -/
def InWindow (o : Options) (s : Accounts) : Label → Prop
  | .verify n _ => ∀ l ∈ s.logins[n]?, ∀ r ∈ s.attempts l.identifier,
      s.now ≤ r.firstFailedAt + o.windowMs
  | _ => True

/-! ## 4. The record and the history -/

/-- The record of an account says what its history says, and there is room for the logins on their
way. -/
structure Tracks (o : Options) (r : Option Failures) (h : List (ℕ × Event)) (n : ℕ) : Prop where
  count_eq : Failures.count r = (round o h).length
  locked : ∀ f ∈ r, f.lockedUntil = if (round o h).length < o.maxFailedAttempts then none
    else (round o h).head?.map (· + o.lockoutDurationMs)
  room : (round o h).length + n ≤ o.maxFailedAttempts
  guarded : Guarded o h

section Tracks

variable {o : Options} {r : Option Failures} {h : List (ℕ × Event)} {n now : ℕ}

theorem Tracks.start : Tracks o none [] 0 where
  count_eq := rfl
  locked _ hf := nomatch hf
  room := Nat.zero_le _
  guarded := trivial

/-- A login ends and leaves no trace. -/
theorem Tracks.drop (ht : Tracks o r h (n + 1)) : Tracks o r h n where
  count_eq := ht.count_eq
  locked := ht.locked
  room := by
    have := ht.room
    omega
  guarded := ht.guarded

/-- While the round is not full, the check passes and changes nothing. -/
theorem Tracks.isLocked_of_lt (ht : Tracks o r h n)
    (hlt : (round o h).length < o.maxFailedAttempts) :
    Failures.isLocked now r = (false, r) := by
  cases r with
  | none => rfl
  | some f =>
    have hf : f.lockedUntil = none := by rw [ht.locked f rfl, if_pos hlt]
    simp only [Failures.isLocked, hf]

/-- Once the round is full, a login that finds room comes after the lockout. -/
theorem Tracks.isLocked_of_full (ht : Tracks o r h n)
    (hfull : o.maxFailedAttempts ≤ (round o h).length)
    (hpass : (Failures.isLocked now r).1 = false)
    (hroom : Failures.count (Failures.isLocked now r).2 + n < o.maxFailedAttempts) :
    (Failures.isLocked now r).2 = none ∧
      ∀ last ∈ (round o h).head?, last + o.lockoutDurationMs ≤ now := by
  cases r with
  | none =>
    have hnil : (round o h).length = 0 := ht.count_eq.symm
    have hroom : 0 + n < o.maxFailedAttempts := hroom
    omega
  | some f =>
    have hcount : f.failedAttempts = (round o h).length := ht.count_eq
    have hlocked := ht.locked f rfl
    rw [if_neg (by omega)] at hlocked
    cases hl : f.lockedUntil with
    | none =>
      simp only [Failures.isLocked, hl, Failures.count, Option.map_some, Option.getD_some] at hroom
      omega
    | some lockedUntil =>
      simp only [Failures.isLocked, hl] at hpass hroom ⊢
      rw [hl] at hlocked
      split at hpass
      · cases hpass
      · rename_i hopen
        rw [if_neg hopen] at hroom ⊢
        split at hroom
        · rename_i hover
          refine ⟨by rw [if_pos hover], fun last hlast => ?_⟩
          rw [Option.mem_def.mp hlast, Option.map_some, Option.some_inj] at hlocked
          omega
        · simp only [Failures.count, Option.map_some, Option.getD_some] at hroom
          omega

/-- A login passes the check and finds room. -/
theorem Tracks.letIn (ht : Tracks o r h n) (hpass : (Failures.isLocked now r).1 = false)
    (hroom : Failures.count (Failures.isLocked now r).2 + n < o.maxFailedAttempts) :
    Tracks o (Failures.isLocked now r).2 ((now, .admitted) :: h) (n + 1) := by
  by_cases hlt : (round o h).length < o.maxFailedAttempts
  · have hround : round o ((now, .admitted) :: h) = round o h := if_neg (by omega)
    rw [ht.isLocked_of_lt hlt] at hroom ⊢
    refine ⟨?_, ?_, ?_, ht.guarded, fun hfull => absurd hlt (by omega)⟩
    · rw [hround]
      exact ht.count_eq
    · rw [hround]
      exact ht.locked
    · have hroom : Failures.count r + n < o.maxFailedAttempts := hroom
      rw [ht.count_eq] at hroom
      rw [hround]
      omega
  · have hfull : o.maxFailedAttempts ≤ (round o h).length := by omega
    have hround : round o ((now, .admitted) :: h) = [] := if_pos hfull
    obtain ⟨hnone, hover⟩ := ht.isLocked_of_full hfull hpass hroom
    rw [hnone] at hroom ⊢
    refine ⟨?_, fun f hf => (nomatch hf), ?_, ht.guarded, fun _ => hover⟩
    · rw [hround]
      rfl
    · have hroom : 0 + n < o.maxFailedAttempts := hroom
      rw [hround, List.length_nil]
      omega

/-- A wrong password. -/
theorem Tracks.fail (ht : Tracks o r h (n + 1)) (stored : Bool)
    (hwindow : ∀ f ∈ r, now ≤ f.firstFailedAt + o.windowMs) :
    Tracks o (some (Failures.recordFailure o now r)) ((now, .failed stored) :: h) n := by
  have hroom := ht.room
  have hlt : (round o h).length < o.maxFailedAttempts := by omega
  have hround : round o ((now, .failed stored) :: h) = now :: round o h := rfl
  -- the record that is counted in is the old one, or a new one
  have hcount : (Failures.pruned o now r).failedAttempts = (round o h).length := by
    cases r with
    | none => exact ht.count_eq
    | some f =>
      have := hwindow f rfl
      rw [Failures.pruned, if_neg (by omega)]
      exact ht.count_eq
  have hopen : (Failures.pruned o now r).lockedUntil = none := by
    cases r with
    | none => rfl
    | some f =>
      have := hwindow f rfl
      rw [Failures.pruned, if_neg (by omega), ht.locked f rfl, if_pos hlt]
  refine ⟨?_, ?_, ?_, ht.guarded, hlt⟩
  · rw [hround, List.length_cons]
    exact congrArg (· + 1) hcount
  · intro f hf
    rw [← Option.some_inj.mp hf, hround, List.length_cons, Failures.recordFailure, hcount]
    by_cases hmore : (round o h).length + 1 < o.maxFailedAttempts
    · rw [if_pos hmore, if_neg (by omega), hopen]
    · rw [if_neg hmore, if_pos (by omega), List.head?_cons, Option.map_some]
  · rw [hround, List.length_cons]
    omega

/-- A right password. -/
theorem Tracks.right (ht : Tracks o r h (n + 1)) : Tracks o none ((now, .right) :: h) n := by
  have hroom := ht.room
  refine ⟨rfl, fun f hf => (nomatch hf), ?_, ht.guarded, ?_⟩
  · rw [show round o ((now, .right) :: h) = [] from rfl, List.length_nil]
    omega
  · have hlt : (round o h).length < o.maxFailedAttempts := by omega
    exact hlt

end Tracks

/-! ## 5. Runs -/

/-- The invariant: every account is tracked. -/
def Inv (o : Options) (s : Accounts) : Prop :=
  ∀ identifier, Tracks o (s.attempts identifier) (s.history identifier) (s.onTheWay identifier)

variable {o : Options} {s : Accounts} {n : ℕ} {l : Login}

theorem start_inv (now : ℕ) : (start now).Inv o := fun _ => .start

/-- The logins on their way are the one that ends and those that remain. -/
theorem onTheWay_drop (hl : s.logins[n]? = some l) (identifier : String) :
    s.onTheWay identifier =
      (s.drop n).onTheWay identifier + if l.identifier = identifier then 1 else 0 := by
  obtain ⟨hn, hget⟩ := List.getElem?_eq_some_iff.mp hl
  have hperm : (l :: s.logins.eraseIdx n).Perm s.logins := hget ▸ List.getElem_cons_eraseIdx_perm hn
  rw [onTheWay, ← hperm.countP_eq, List.countP_cons]
  simp [onTheWay, drop]

theorem onTheWay_drop_self (hl : s.logins[n]? = some l) :
    s.onTheWay l.identifier = (s.drop n).onTheWay l.identifier + 1 := by
  rw [onTheWay_drop hl, if_pos rfl]

theorem onTheWay_drop_of_ne (hl : s.logins[n]? = some l) {identifier : String}
    (hne : l.identifier ≠ identifier) :
    s.onTheWay identifier = (s.drop n).onTheWay identifier := by
  rw [onTheWay_drop hl, if_neg hne, Nat.add_zero]

theorem Inv.drop (hs : s.Inv o) (hl : s.logins[n]? = some l) : (s.drop n).Inv o := by
  intro identifier
  have hi := hs identifier
  by_cases heq : l.identifier = identifier
  · subst heq
    rw [onTheWay_drop_self hl] at hi
    exact hi.drop
  · rw [onTheWay_drop_of_ne hl heq] at hi
    exact hi

/-- A login ends with an event of its account. -/
theorem Inv.drop_record (hs : s.Inv o) (hl : s.logins[n]? = some l) {r : Option Failures} {e : Event}
    (hself : Tracks o (s.attempts l.identifier) (s.history l.identifier)
        ((s.drop n).onTheWay l.identifier + 1) →
      Tracks o r ((s.now, e) :: s.history l.identifier) ((s.drop n).onTheWay l.identifier)) :
    ((s.drop n).record l.identifier r e).Inv o := by
  intro identifier
  by_cases heq : identifier = l.identifier
  · subst heq
    have hi := hs l.identifier
    rw [onTheWay_drop_self hl] at hi
    simpa [Accounts.record, Accounts.drop, onTheWay] using hself hi
  · have hi := hs.drop hl identifier
    simpa [Accounts.record, Function.update_of_ne heq, Accounts.drop, onTheWay] using hi

theorem Inv.login (hs : s.Inv o) {identifier password : String}
    (hroom : HasRoom o s (.login identifier password)) : (s.login identifier password).Inv o := by
  simp only [Accounts.login]
  split
  · exact hs
  rename_i hne
  rw [not_or] at hne
  have hroom := hroom hne.1 hne.2
  split
  · exact hs
  · rename_i hpass
    rw [Bool.not_eq_true] at hpass
    intro other
    by_cases heq : other = identifier
    · subst heq
      have hi := (hs other).letIn hpass (hroom hpass)
      simpa [Accounts.record, onTheWay] using hi
    · have hi := hs other
      simpa [Accounts.record, onTheWay, Function.update_of_ne heq, Ne.symm heq] using hi

theorem Inv.lookup (hs : s.Inv o) (found : Option Bool) : (s.lookup n found).Inv o := by
  unfold Accounts.lookup
  split
  · rename_i identifier password found hl
    -- the login stays on its way
    intro other
    have hn := (List.getElem?_eq_some_iff.mp hl).1
    have hget := (List.getElem?_eq_some_iff.mp hl).2
    have hcount : (s.logins.set n ⟨identifier, password, .verify found⟩).countP
        (fun l => l.identifier = other) = s.onTheWay other := by
      have hperm : (s.logins[n] :: s.logins.eraseIdx n).Perm s.logins :=
        List.getElem_cons_eraseIdx_perm hn
      rw [(List.set_perm_cons_eraseIdx hn _).countP_eq, onTheWay, ← hperm.countP_eq, hget,
        List.countP_cons, List.countP_cons]
    have hi := hs other
    rw [← hcount] at hi
    exact hi
  · rename_i hl
    exact hs.drop hl
  · exact hs

theorem Inv.verify (hs : s.Inv o) {valid : Option Bool} (hwindow : InWindow o s (.verify n valid)) :
    (s.verify o n valid).Inv o := by
  unfold Accounts.verify
  split
  · rename_i hl
    exact hs.drop_record hl fun hi => hi.fail false (hwindow _ hl)
  · rename_i hl
    exact hs.drop_record hl fun hi => hi.right
  · rename_i hl
    exact hs.drop_record hl fun hi => hi.fail true (hwindow _ hl)
  · rename_i hl
    exact hs.drop hl
  · exact hs

theorem Inv.step (hs : s.Inv o) (l : Label) (hok : HasRoom o s l ∧ InWindow o s l) :
    (s.step o l).Inv o := by
  cases l with
  | tick ms => exact hs
  | login identifier password => exact hs.login hok.1
  | lookup n found => exact hs.lookup found
  | verify n valid => exact hs.verify hok.2

/-- **The lockout holds** of every account in every run whose logins find room, as long as no
failure is past the window. -/
theorem lockout_run (o : Options) (now : ℕ) (ls : List Label)
    (hok : Along (step o) (fun s l => HasRoom o s l ∧ InWindow o s l) (start now) ls)
    (identifier : String) :
    Guarded o ((run (step o) (start now) ls).history identifier) :=
  (run_inv (I := Inv o) (fun _ l hs hl => Inv.step hs l hl) (start_inv now) hok identifier).guarded

instance (o : Options) (s : Accounts) : (l : Label) → Decidable (HasRoom o s l ∧ InWindow o s l)
  | .tick _ => inferInstanceAs (Decidable (True ∧ True))
  | .login identifier password => inferInstanceAs (Decidable ((identifier ≠ "" → password ≠ "" →
      (Failures.isLocked s.now (s.attempts identifier)).1 = false →
      Failures.count (Failures.isLocked s.now (s.attempts identifier)).2 + s.onTheWay identifier <
        o.maxFailedAttempts) ∧ True))
  | .lookup _ _ => inferInstanceAs (Decidable (True ∧ True))
  | .verify n _ => inferInstanceAs (Decidable (True ∧ ∀ l ∈ s.logins[n]?,
      ∀ r ∈ s.attempts l.identifier, s.now ≤ r.firstFailedAt + o.windowMs))

/-- Two wrong passwords, one after the other. -/
theorem lockout_run_sample :
    Guarded {} ((run (step {}) (start 1)
      [.login "a" "x", .lookup 0 (some true), .verify 0 (some false), .tick 10,
        .login "a" "y", .lookup 0 (some true), .verify 0 (some false)]).history "a") :=
  lockout_run {} 1 _ (by decide +kernel) "a"

/-- Six logins with wrong passwords that pass the check together: none is refused, and the sixth
password is compared as well. -/
def burst : List Label :=
  .replicate 6 (.login "a" "x") ++ (List.range 6).map (.lookup · (some true)) ++
    .replicate 6 (.verify 0 (some false))

theorem burst_passes :
    ((run (step {}) (start 1) burst).history "a").countP
        (fun e => e.2 = .failed true) = ({} : Options).maxFailedAttempts + 1 ∧
      ¬ Guarded {} ((run (step {}) (start 1) burst).history "a") := by
  decide +kernel

/-! ## 6. Within the window -/

/-- No failure is recorded that is older than the run. -/
def Since (start : ℕ) (s : Accounts) : Prop :=
  start ≤ s.now ∧ ∀ identifier, ∀ r ∈ s.attempts identifier, start ≤ r.firstFailedAt

theorem Since.record {start : ℕ} (hs : s.Since start) {identifier : String} {r : Option Failures}
    {e : Event} (hr : ∀ f ∈ r, start ≤ f.firstFailedAt) : (s.record identifier r e).Since start := by
  refine ⟨hs.1, fun other f hf => ?_⟩
  by_cases heq : other = identifier
  · simp only [heq, Accounts.record, Function.update_self] at hf
    exact hr f hf
  · simp only [Accounts.record, Function.update_of_ne heq] at hf
    exact hs.2 other f hf

theorem Since.fail {start : ℕ} (hs : s.Since start) (identifier : String) (stored : Bool) :
    (s.fail o identifier stored).Since start := by
  refine hs.record fun f hf => ?_
  rw [← Option.some_inj.mp hf]
  change start ≤ (Failures.pruned o s.now (s.attempts identifier)).firstFailedAt
  unfold Failures.pruned
  split
  · exact hs.1
  · rename_i r hr
    split
    · exact hs.1
    · exact hs.2 identifier r hr

theorem Since.login {start : ℕ} (hs : s.Since start) (identifier password : String) :
    (s.login identifier password).Since start := by
  unfold Accounts.login
  split
  · exact hs
  dsimp only
  split
  · exact hs
  have hrecord : (s.record identifier (Failures.isLocked s.now (s.attempts identifier)).2
      .admitted).Since start := by
    refine hs.record fun f hf => hs.2 identifier f ?_
    cases hr : s.attempts identifier with
    | none => simp [hr, Failures.isLocked] at hf
    | some r =>
      rw [hr] at hf
      unfold Failures.isLocked at hf
      dsimp only at hf
      split at hf
      · exact hf
      · split at hf
        · exact hf
        · split at hf
          · exact absurd hf (by simp)
          · exact hf
  exact ⟨hrecord.1, hrecord.2⟩

theorem Since.step {start : ℕ} (hs : s.Since start) (l : Label) : (s.step o l).Since start := by
  cases l with
  | tick ms => exact ⟨Nat.le_trans hs.1 (Nat.le_add_right _ _), hs.2⟩
  | login identifier password => exact hs.login identifier password
  | lookup n found =>
    change (s.lookup n found).Since start
    unfold Accounts.lookup
    split <;> exact hs
  | verify n valid =>
    have hdrop : (s.drop n).Since start := hs
    change (s.verify o n valid).Since start
    unfold Accounts.verify
    split
    · exact hdrop.fail _ _
    · exact hdrop.record fun _ hf => (nomatch hf)
    · exact hdrop.fail _ _
    · exact hdrop
    · exact hs

/-- In a run of at most `windowMs` no failure is past the window, so that the lockout only needs
room. -/
theorem lockout_within (now : ℕ) (ls : List Label)
    (hroom : Along (step o) (HasRoom o) (start now) ls)
    (hclock : Along (step o) (fun s _ => s.now ≤ now + o.windowMs) (start now) ls)
    (identifier : String) :
    Guarded o ((run (step o) (start now) ls).history identifier) := by
  have hsince : (start now).Since now := ⟨Nat.le_refl now, fun _ _ hr => (nomatch hr)⟩
  have hok : Along (step o) (fun s l => HasRoom o s l ∧ InWindow o s l) (start now) ls := by
    refine Along.of_inv (I := Since now) ?_ hsince (hroom.and hclock)
    rintro s l hs ⟨hr, ht⟩
    refine ⟨hs.step l, hr, ?_⟩
    cases l with
    | verify n valid =>
      intro l _ r hmem
      have := hs.2 _ r hmem
      omega
    | _ => trivial
  exact (run_inv (I := Inv o) (fun _ l hs hl => Inv.step hs l hl) (start_inv now) hok
    identifier).guarded

end Accounts

end SmartDrop.Lockout
