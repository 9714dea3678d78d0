/-
# The window of failures

`recordFailure` counts failures in windows that follow each other: the first failure starts one, and
the first failure that comes more than `windowMs` after the start of a window starts the next.  So
`maxFailedAttempts` failures within `windowMs` lock the account only if they fall into one of these
windows: none of the last `maxFailedAttempts - 1` may start one (`Unbroken`).  `straddle` is the
sequence in which one does.

Windows are a matter of the times of the failures alone (`anchor`); `Counts` says that the record of an
account that was never locked counts in them.
-/
import SmartDrop.Auth.Lockout

namespace SmartDrop.Lockout.Window

open Conc Accounts

/-! ## 1. Windows -/

/-- The start of the window that the newest failure is in.  Times are listed newest first. -/
def anchor (windowMs : ℕ) : List ℕ → Option ℕ
  | [] => none
  | t :: earlier =>
    match anchor windowMs earlier with
    | none => some t
    | some start => if windowMs < t - start then some t else some start

/-- A failure at `t` starts a window. -/
def Starts (windowMs t : ℕ) (earlier : List ℕ) : Prop :=
  ∀ start ∈ anchor windowMs earlier, windowMs < t - start

instance (windowMs t : ℕ) (earlier : List ℕ) : Decidable (Starts windowMs t earlier) :=
  inferInstanceAs (Decidable (∀ start ∈ anchor windowMs earlier, windowMs < t - start))

/-- How many failures there are in the window of the newest one. -/
def inWindow (windowMs : ℕ) : List ℕ → ℕ
  | [] => 0
  | t :: earlier => if Starts windowMs t earlier then 1 else inWindow windowMs earlier + 1

/-- None of the newest `n` failures starts a window. -/
def Unbroken (windowMs : ℕ) : ℕ → List ℕ → Prop
  | 0, _ => True
  | _ + 1, [] => True
  | n + 1, t :: earlier => ¬ Starts windowMs t earlier ∧ Unbroken windowMs n earlier

instance Unbroken.decidable (windowMs : ℕ) : ∀ n ts, Decidable (Unbroken windowMs n ts)
  | 0, _ => isTrue trivial
  | _ + 1, [] => isTrue trivial
  | n + 1, t :: earlier =>
    have := Unbroken.decidable windowMs n earlier
    inferInstanceAs (Decidable (¬ Starts windowMs t earlier ∧ Unbroken windowMs n earlier))

/-- The newest `n` failures are there, and fall within a span of `windowMs`. -/
def Within (windowMs n : ℕ) (ts : List ℕ) : Prop :=
  n ≤ ts.length ∧ ∀ t ∈ ts.take n, ∀ t' ∈ ts.take n, t ≤ t' + windowMs

instance (windowMs n : ℕ) (ts : List ℕ) : Decidable (Within windowMs n ts) :=
  inferInstanceAs (Decidable (n ≤ ts.length ∧ ∀ t ∈ ts.take n, ∀ t' ∈ ts.take n, t ≤ t' + windowMs))

section Windows

variable {windowMs : ℕ}

theorem inWindow_pos (t : ℕ) (earlier : List ℕ) : 0 < inWindow windowMs (t :: earlier) := by
  rw [inWindow]
  split <;> omega

/-- The window has the newest `n + 1` failures exactly when none but the oldest of them starts one. -/
theorem lt_inWindow_iff {n : ℕ} {ts : List ℕ} (hlen : n < ts.length) :
    n < inWindow windowMs ts ↔ Unbroken windowMs n ts := by
  induction ts generalizing n with
  | nil => exact absurd hlen (Nat.not_lt_zero n)
  | cons t earlier ih =>
    cases n with
    | zero => exact iff_of_true (inWindow_pos t earlier) trivial
    | succ n =>
      rw [inWindow, Unbroken, ← ih (Nat.lt_of_succ_lt_succ hlen)]
      split
      · rename_i hstarts
        exact iff_of_false (by omega) fun h => h.1 hstarts
      · rename_i hstarts
        rw [Nat.add_lt_add_iff_right]
        exact (and_iff_right hstarts).symm

end Windows

/-! ## 2. The record of an account that was never locked -/

/-- The times of the failures in a history. -/
def failures (h : List (ℕ × Event)) : List ℕ :=
  h.filterMap fun entry =>
    match entry.2 with
    | .failed _ => some entry.1
    | _ => none

/-- No password was right. -/
def NoSuccess (h : List (ℕ × Event)) : Prop := ∀ entry ∈ h, entry.2 ≠ .right

instance (h : List (ℕ × Event)) : Decidable (NoSuccess h) :=
  inferInstanceAs (Decidable (∀ entry ∈ h, entry.2 ≠ .right))

/-- The account is locked. -/
def Locked (s : Accounts) (identifier : String) : Prop :=
  (Failures.isLocked s.now (s.attempts identifier)).1 = true

instance (s : Accounts) (identifier : String) : Decidable (Locked s identifier) :=
  inferInstanceAs (Decidable (_ = true))

/-- The record counts the failures of the current window, and there is no lock in it. -/
structure Counts (o : Options) (r : Option Failures) (ts : List ℕ) : Prop where
  count : Failures.count r = inWindow o.windowMs ts
  anchor : r.map (·.firstFailedAt) = anchor o.windowMs ts
  unlocked : ∀ f ∈ r, f.lockedUntil = none

/-- A record locks its account until `lockedUntil`. -/
theorem isLocked_fst (now : ℕ) (r : Option Failures) : (Failures.isLocked now r).1 =
    r.any fun f => f.lockedUntil.any fun lockedUntil =>
      decide (lockedUntil ≠ 0 ∧ now < lockedUntil) := by
  cases r with
  | none => rfl
  | some f =>
    simp only [Failures.isLocked, Option.any_some]
    cases f.lockedUntil with
    | none => rfl
    | some lockedUntil =>
      simp only [Option.any_some]
      split
      · rename_i h
        exact (decide_eq_true h).symm
      · rename_i h
        rw [decide_eq_false h]
        split <;> rfl

section Counts

variable {o : Options} {r : Option Failures} {ts : List ℕ} {now : ℕ}

theorem counts_nil : Counts o none [] := ⟨rfl, rfl, fun _ hf => by cases hf⟩

theorem Counts.isLocked (h : Counts o r ts) : Failures.isLocked now r = (false, r) := by
  cases r with
  | none => rfl
  | some f => simp only [Failures.isLocked, h.unlocked f rfl]

/-- The record that the next failure is counted in. -/
theorem Counts.pruned (h : Counts o r ts) (now : ℕ) :
    (Failures.pruned o now r).failedAttempts + 1 = inWindow o.windowMs (now :: ts) ∧
      some (Failures.pruned o now r).firstFailedAt = Window.anchor o.windowMs (now :: ts) ∧
      (Failures.pruned o now r).lockedUntil = none := by
  have hanchor := h.anchor
  have hcount := h.count
  cases r with
  | none =>
    have hstarts : Starts o.windowMs now ts := by
      intro start hstart
      rw [← hanchor] at hstart
      cases hstart
    rw [inWindow, if_pos hstarts, Window.anchor, ← hanchor]
    exact ⟨rfl, rfl, rfl⟩
  | some f =>
    rw [Option.map_some] at hanchor
    have hstarts : Starts o.windowMs now ts ↔ o.windowMs < now - f.firstFailedAt := by
      unfold Starts
      rw [← hanchor]
      exact ⟨fun hall => hall _ rfl, fun hlt start hstart => Option.some.inj hstart ▸ hlt⟩
    rw [inWindow, Window.anchor, ← hanchor]
    unfold Failures.pruned
    by_cases hlt : o.windowMs < now - f.firstFailedAt
    · simp only [hlt, if_true, if_pos (hstarts.mpr hlt)]
      exact ⟨trivial, trivial, trivial⟩
    · simp only [hlt, if_false, if_neg (mt hstarts.mp hlt)]
      exact ⟨congrArg (· + 1) hcount, trivial, h.unlocked f rfl⟩

/-- A failure that does not lock the account is counted. -/
theorem Counts.fail (h : Counts o r ts)
    (hopen : ¬ o.maxFailedAttempts ≤ inWindow o.windowMs (now :: ts)) :
    Counts o (some (Failures.recordFailure o now r)) (now :: ts) := by
  obtain ⟨hcount, hanchor, hunlocked⟩ := h.pruned now
  refine ⟨hcount, hanchor, fun f hf => ?_⟩
  rw [← Option.some.inj hf]
  simp only [Failures.recordFailure, hcount, if_neg hopen, hunlocked]

/-- A failure locks the account exactly when it fills the window. -/
theorem Counts.locks (h : Counts o r ts) :
    (Failures.isLocked now (some (Failures.recordFailure o now r))).1 = true ↔
      0 < o.lockoutDurationMs ∧ o.maxFailedAttempts ≤ inWindow o.windowMs (now :: ts) := by
  obtain ⟨hcount, -, hunlocked⟩ := h.pruned now
  rw [isLocked_fst]
  simp only [Failures.recordFailure, hcount, hunlocked, Option.any_some]
  split
  · rename_i hfull
    simp only [Option.any_some, decide_eq_true_eq, hfull, and_true]
    omega
  · rename_i hfull
    exact iff_of_false (by simp) fun h => hfull h.2

end Counts

/-- Without a duration, a failure does not lock the account. -/
theorem not_locked_of_zero {o : Options} (ho : o.lockoutDurationMs = 0) {r : Option Failures} {now : ℕ}
    (h : (Failures.isLocked now r).1 = false) :
    (Failures.isLocked now (some (Failures.recordFailure o now r))).1 = false := by
  rw [isLocked_fst] at h ⊢
  simp only [Failures.recordFailure, ho, Option.any_some]
  split
  · simp
  · unfold Failures.pruned
    split
    · rfl
    · split
      · rfl
      · exact h

/-! ## 3. One step of a login -/

section Steps

variable {o : Options} {s : Accounts} {identifier : String}

/-- What a step does to an account: nothing, or it admits a login, counts a failure, or ends the round
with a success. -/
theorem step_cases (o : Options) (s : Accounts) (l : Label) (identifier : String) :
    ((s.step o l).attempts identifier = s.attempts identifier ∧
        (s.step o l).history identifier = s.history identifier) ∨
      ((s.step o l).attempts identifier = (Failures.isLocked s.now (s.attempts identifier)).2 ∧
        (s.step o l).history identifier = (s.now, .admitted) :: s.history identifier) ∨
      ((s.step o l).attempts identifier =
          some (Failures.recordFailure o s.now (s.attempts identifier)) ∧ (s.step o l).now = s.now ∧
        ∃ stored, (s.step o l).history identifier = (s.now, .failed stored) :: s.history identifier) ∨
      (s.step o l).history identifier = (s.now, .right) :: s.history identifier := by
  have hrecord : ∀ (s' : Accounts) (other : String) (r : Option Failures) (e : Event),
      s'.attempts = s.attempts → s'.history = s.history → s'.now = s.now →
      (((s'.record other r e).attempts identifier = s.attempts identifier ∧
        (s'.record other r e).history identifier = s.history identifier)) ∨
      (other = identifier ∧ (s'.record other r e).attempts identifier = r ∧
        (s'.record other r e).history identifier = (s.now, e) :: s.history identifier) := by
    intro s' other r e hattempts hhistory hnow
    by_cases heq : identifier = other
    · subst heq
      refine Or.inr ⟨rfl, ?_, ?_⟩ <;>
        simp only [Accounts.record, Function.update_self, hhistory, hnow]
    · refine Or.inl ⟨?_, ?_⟩ <;>
        simp only [Accounts.record, Function.update_of_ne heq, hattempts, hhistory]
  have hfail : ∀ n other stored, (((s.drop n).fail o other stored).attempts identifier =
        s.attempts identifier ∧
      ((s.drop n).fail o other stored).history identifier = s.history identifier) ∨
      ((((s.drop n).fail o other stored).attempts identifier =
        some (Failures.recordFailure o s.now (s.attempts identifier)) ∧
        ((s.drop n).fail o other stored).now = s.now) ∧
      ((s.drop n).fail o other stored).history identifier =
        (s.now, .failed stored) :: s.history identifier) := by
    intro n other stored
    rcases hrecord (s.drop n) other _ _ rfl rfl rfl with h | ⟨rfl, h, h'⟩
    · exact Or.inl h
    · exact Or.inr ⟨⟨h, rfl⟩, h'⟩
  cases l with
  | tick ms => exact Or.inl ⟨rfl, rfl⟩
  | login other password =>
    simp only [Accounts.step, Accounts.login]
    split
    · exact Or.inl ⟨rfl, rfl⟩
    · split
      · exact Or.inl ⟨rfl, rfl⟩
      · rcases hrecord s other _ .admitted rfl rfl rfl with h | ⟨rfl, h, h'⟩
        · exact Or.inl h
        · exact Or.inr (Or.inl ⟨h, h'⟩)
  | lookup n found =>
    refine Or.inl ?_
    simp only [Accounts.step, Accounts.lookup]
    split <;> exact ⟨rfl, rfl⟩
  | verify n valid =>
    simp only [Accounts.step, Accounts.verify]
    split
    · rename_i other _ _
      rcases hfail n other false with h | ⟨⟨h, hnow⟩, h'⟩
      · exact Or.inl h
      · exact Or.inr (Or.inr (Or.inl ⟨h, hnow, _, h'⟩))
    · rename_i other _ _
      rcases hrecord (s.drop n) other _ .right rfl rfl rfl with h | ⟨-, -, h'⟩
      · exact Or.inl h
      · exact Or.inr (Or.inr (Or.inr h'))
    · rename_i other _ _
      rcases hfail n other true with h | ⟨⟨h, hnow⟩, h'⟩
      · exact Or.inl h
      · exact Or.inr (Or.inr (Or.inl ⟨h, hnow, _, h'⟩))
    · exact Or.inl ⟨rfl, rfl⟩
    · exact Or.inl ⟨rfl, rfl⟩

/-- An account on which no password was right counts its failures, as long as it can be locked. -/
def Tallied (o : Options) (identifier : String) (s : Accounts) : Prop :=
  NoSuccess (s.history identifier) → 0 < o.lockoutDurationMs →
    Counts o (s.attempts identifier) (failures (s.history identifier))

theorem tallied_step (h : Tallied o identifier s) (l : Label)
    (hopen : ¬ Locked (s.step o l) identifier) : Tallied o identifier (s.step o l) := by
  intro hsuccess hduration
  rcases step_cases o s l identifier with ⟨hattempts, hhistory⟩ | ⟨hattempts, hhistory⟩ |
    ⟨hattempts, hnow, stored, hhistory⟩ | hhistory
  · rw [hhistory] at hsuccess
    rw [hattempts, hhistory]
    exact h hsuccess hduration
  · rw [hhistory] at hsuccess
    have hcounts := h (fun entry hentry => hsuccess entry (List.mem_cons_of_mem _ hentry)) hduration
    rw [hattempts, hhistory, hcounts.isLocked]
    exact hcounts
  · rw [hhistory] at hsuccess
    have hcounts := h (fun entry hentry => hsuccess entry (List.mem_cons_of_mem _ hentry)) hduration
    rw [Locked, hattempts, hnow, hcounts.locks] at hopen
    rw [hattempts, hhistory]
    exact hcounts.fail fun hfull => hopen ⟨hduration, hfull⟩
  · rw [hhistory] at hsuccess
    exact absurd rfl (hsuccess _ List.mem_cons_self)

/-- **A run** in which the account is never locked counts its failures, up to its last step. -/
theorem tallied_run (h : Tallied o identifier s) {ls : List Label} {l : Label}
    (hopen : Along (step o) (fun s _ => ¬ Locked s identifier) s (ls ++ [l])) :
    Tallied o identifier (run (step o) s ls) := by
  induction ls generalizing s with
  | nil => exact h
  | cons l' ls ih =>
    have hnext : ¬ Locked (s.step o l') identifier := by
      have hrest := hopen.2
      cases ls with
      | nil => exact hrest.1
      | cons l'' ls => exact hrest.1
    exact ih (tallied_step h l' hnext) hopen.2

end Steps

/-! ## 4. Sequences of failures -/

/-- The newest `maxFailedAttempts` failures lock the account if they fall within a span of `windowMs`. -/
def LocksOut (o : Options) (identifier : String) (s : Accounts) : Prop :=
  Within o.windowMs o.maxFailedAttempts (failures (s.history identifier)) → Locked s identifier

instance (o : Options) (identifier : String) (s : Accounts) : Decidable (LocksOut o identifier s) :=
  inferInstanceAs (Decidable (_ → _))

/-- A lockout lasts, and the newest `maxFailedAttempts` failures are in one window. -/
def OneWindow (o : Options) (ts : List ℕ) : Prop :=
  0 < o.lockoutDurationMs ∧ Unbroken o.windowMs (o.maxFailedAttempts - 1) ts

instance (o : Options) (ts : List ℕ) : Decidable (OneWindow o ts) :=
  inferInstanceAs (Decidable (_ ∧ _))

/-- The last step of a run counts a failure. -/
def Fails (o : Options) (identifier : String) (s : Accounts) (l : Label) : Prop :=
  ∃ stored, (s.step o l).history identifier = (s.now, .failed stored) :: s.history identifier

/-- **The lockout window**: in every run of logins, interleaved as they may be, in which no password of
an account was right and the account was not locked before, the failure that comes last locks it if it has
to, exactly when the failures that count do so in one window. -/
theorem locksOut_iff (o : Options) (now : ℕ) (identifier : String) {ls : List Label} {l : Label}
    (hsuccess : NoSuccess ((run (step o) (start now) (ls ++ [l])).history identifier))
    (hopen : Along (step o) (fun s _ => ¬ Locked s identifier) (start now) (ls ++ [l]))
    (hfails : Fails o identifier (run (step o) (start now) ls) l) :
    LocksOut o identifier (run (step o) (start now) (ls ++ [l])) ↔
      (Within o.windowMs o.maxFailedAttempts
          (failures ((run (step o) (start now) (ls ++ [l])).history identifier)) →
        OneWindow o (failures ((run (step o) (start now) (ls ++ [l])).history identifier))) := by
  have htallied : Tallied o identifier (run (step o) (start now) ls) :=
    tallied_run (fun _ _ => counts_nil) hopen
  rw [along_append] at hopen
  rw [run_append, run_cons, run_nil] at hsuccess ⊢
  generalize run (step o) (start now) ls = s at *
  obtain ⟨stored, hfails⟩ := hfails
  refine imp_congr_right fun hwithin => ?_
  rw [hfails] at hsuccess
  have hbefore : NoSuccess (s.history identifier) := fun entry hentry =>
    hsuccess entry (List.mem_cons_of_mem _ hentry)
  rcases step_cases o s l identifier with ⟨-, hhistory⟩ | ⟨-, hhistory⟩ |
    ⟨hattempts, hnow, -, -⟩ | hhistory
  · rw [hfails] at hhistory
    exact absurd hhistory (List.cons_ne_self _ _)
  · rw [hfails] at hhistory
    cases hhistory
  · rw [Locked, hattempts, hnow]
    have hfailures : failures ((s.step o l).history identifier) =
        s.now :: failures (s.history identifier) := by
      rw [hfails]
      rfl
    rw [hfailures] at hwithin ⊢
    rcases Nat.eq_zero_or_pos o.lockoutDurationMs with hzero | hduration
    · have hfree := not_locked_of_zero hzero (Bool.eq_false_iff.mpr hopen.2.1)
      rw [hfree, OneWindow, hzero]
      exact iff_of_false (fun h => by cases h) fun h => absurd h.1 (Nat.lt_irrefl 0)
    · rw [(htallied hbefore hduration).locks, OneWindow]
      refine and_congr_right fun _ => ?_
      cases hmax : o.maxFailedAttempts with
      | zero => exact iff_of_true (Nat.zero_le _) trivial
      | succ n =>
        rw [hmax] at hwithin
        exact lt_inWindow_iff hwithin.1
  · rw [hfails] at hhistory
    cases hhistory

/-- A login with a wrong password, some minutes after what came before. -/
def wrong (minutes : ℕ) : List Label :=
  [.tick (minutes * 60000), .login "a" "x", .lookup 0 (some true), .verify 0 (some false)]

/-- Failures at 0, 50, 51, 52, 61 and 62 minutes, but for the end of the last. -/
def straddle : List Label :=
  wrong 0 ++ wrong 50 ++ wrong 1 ++ wrong 1 ++ wrong 9 ++ (wrong 1).take 3

/-- The last five of the failures come within twelve minutes, and do not lock the account. -/
theorem straddle_passes :
    let s := run (step {}) (start 1) (straddle ++ [.verify 0 (some false)])
    NoSuccess (s.history "a") ∧
      Along (step {}) (fun s _ => ¬ Locked s "a") (start 1) (straddle ++ [.verify 0 (some false)]) ∧
      Within (12 * 60000) 5 (failures (s.history "a")) ∧ ¬ LocksOut {} "a" s := by
  decide +kernel

/-- Five failures in four minutes. -/
def together : List Label := wrong 0 ++ wrong 1 ++ wrong 1 ++ wrong 1 ++ (wrong 1).take 3

theorem locksOut_iff_sample :
    LocksOut {} "a" (run (step {}) (start 1) (together ++ [.verify 0 (some false)])) := by
  refine (locksOut_iff {} 1 "a" (by decide +kernel) (by decide +kernel) ⟨true, by decide +kernel⟩).mpr ?_
  intro _
  decide +kernel

end SmartDrop.Lockout.Window
