/-
# Terminal statuses under concurrency

`update`, `cancel`, `markExpired` and `remove` run in any number of threads, one Redis command
at a time.  `markExpired` checks and writes in one script and `remove` only deletes, so neither
can disturb a terminal status (`exec_keeps_iff`).  `update` and `cancel` write a whole record
that they read before: a write that comes after another call has ended or removed the airdrop
brings it back.  A run keeps every terminal status, and recreates nothing, exactly when each
such write still finds what its caller has checked (`terminal_absorbing_iff`).
-/
import SmartDrop.Airdrops.Store
import SmartDrop.Lib.Run

namespace SmartDrop.Airdrops

open Binary64 Conc Redis

/-! ## 1. The concurrent system -/

/-- The calls that change an airdrop which exists. -/
inductive Call where
  | update (id : String) (data : Patch)
  | cancel (id : String)
  | markExpired (id : String) (currentLedger : ℤ)
  | remove (id : String)

/-- The program of a call. -/
def Call.code : Call → Code (Option Airdrop)
  | .update id data => Airdrops.update id data
  | .cancel id => Airdrops.cancel id
  | .markExpired id currentLedger => Airdrops.markExpired id currentLedger
  | .remove id => Airdrops.remove id

/-- A database and what each thread has still to do. -/
abbrev System (τ : Type) := Pool sig (Except Err (Option Airdrop)) τ Store

/-- Every thread is about to make its call. -/
def start {τ : Type} (s : Store) (calls : τ → Call) : System τ := ⟨s, fun i => (calls i).code.prog⟩

/-- From `s` to `s'`, the airdrop `id` has not left a terminal status, nor come back. -/
def Keeps (id : String) (s s' : Store) : Prop :=
  (s.records id = none → s'.records id = none) ∧
  ∀ a, s.records id = some a → a.status.terminal → ∀ b, s'.records id = some b →
    b.status = a.status

theorem Keeps.refl (id : String) (s : Store) : Keeps id s s :=
  ⟨fun h => h, fun a ha _ b hb => by rw [ha] at hb; rw [Option.some.inj hb]⟩

theorem Keeps.trans {id : String} {s₁ s₂ s₃ : Store} (h₁ : Keeps id s₁ s₂)
    (h₂ : Keeps id s₂ s₃) : Keeps id s₁ s₃ := by
  refine ⟨fun h => h₂.1 (h₁.1 h), fun a ha hta c hc => ?_⟩
  cases hb : s₂.records id with
  | none =>
    rw [h₂.1 hb] at hc
    cases hc
  | some b =>
    have hba := h₁.2 a ha hta b hb
    exact (h₂.2 b hb (hba ▸ hta) c hc).trans hba

/-! ## 2. What the calls can issue -/

/-- No call inserts a record, and the only terminal status that is written whole is
`cancelled`. -/
def Legal : Op → Prop
  | .insert .. => False
  | .set _ a => a.status.terminal → a.status = .cancelled
  | _ => True

theorem uses_redis {φ : Op → Prop} {op : Op} (h : φ op) : Throws.Uses φ (redis op) :=
  (Prog.uses_call (S := sig) φ op).mpr h

theorem uses_update (id : String) (data : Patch) : Throws.Uses Legal (Airdrops.update id data) := by
  refine Throws.Uses.bind (uses_redis trivial) ?_
  rintro (_ | airdrop)
  · exact Throws.uses_pure _
  · dsimp only
    split
    · exact Throws.uses_pure _
    · rename_i hlive
      refine Throws.Uses.bind (uses_redis trivial) fun now => ?_
      refine Throws.Uses.bind (uses_redis fun ht => absurd ht hlive) fun _ => ?_
      exact Throws.uses_pure _

theorem uses_cancel (id : String) : Throws.Uses Legal (Airdrops.cancel id) := by
  refine Throws.Uses.bind (uses_redis trivial) ?_
  rintro (_ | airdrop)
  · exact Throws.uses_pure _
  · dsimp only
    split
    · exact Throws.uses_pure _
    · refine Throws.Uses.bind (uses_redis trivial) fun now => ?_
      refine Throws.Uses.bind (uses_redis fun _ => rfl) fun _ => ?_
      exact Throws.uses_pure _

theorem uses_markExpired (id : String) (currentLedger : ℤ) :
    Throws.Uses Legal (Airdrops.markExpired id currentLedger) :=
  Throws.Uses.bind (uses_redis trivial) fun _ => uses_redis trivial

theorem uses_remove (id : String) : Throws.Uses Legal (Airdrops.remove id) := by
  refine Throws.Uses.bind (uses_redis trivial) ?_
  rintro (_ | existing)
  · exact Throws.uses_pure _
  · exact Throws.Uses.bind (uses_redis trivial) fun _ => Throws.uses_pure _

theorem Call.uses (call : Call) : Throws.Uses Legal call.code := by
  cases call with
  | update id data => exact uses_update id data
  | cancel id => exact uses_cancel id
  | markExpired id currentLedger => exact uses_markExpired id currentLedger
  | remove id => exact uses_remove id

/-! ## 3. One command -/

/-- A whole-record write of `id` that finds the record still there, and in no terminal status
unless a cancellation writes over a cancelled record. -/
def WriteFinds (id : String) (op : Op) (x : Env) (s : Store) : Prop :=
  match op with
  | .set i a => i = id → x.fault ≠ .before → ∃ b, s.records id = some b ∧
      (b.status.terminal → b.status = .cancelled ∧ a.status = .cancelled)
  | _ => True

variable {P : Platform} {s : Store} {id : String}

/-- The script changes a record only away from a status that is not terminal. -/
theorem markExpiredScript_keeps {cjson : Double → Double} {currentLedger : ℤ} {now : ℕ}
    {r : Option Airdrop} {b : Airdrop} (h : markExpiredScript cjson currentLedger now r = some b) :
    ∃ a, r = some a ∧ a.status.terminal = false := by
  cases r with
  | none => cases h
  | some a =>
    refine ⟨a, rfl, ?_⟩
    by_contra hne
    rw [markExpiredScript, if_pos (by simpa using hne)] at h
    cases h

/-- **One command keeps terminal statuses exactly when its write finds what it should.** -/
theorem exec_keeps_iff {op : Op} (hlegal : Legal op) (now : ℕ) :
    Keeps id s (s.exec P now op).2 ↔ WriteFinds id op ⟨now, .none⟩ s := by
  cases op with
  | insert => exact hlegal.elim
  | set i a =>
    by_cases hi : i = id
    · subst hi
      simp only [Keeps, Store.exec, Function.update_self, WriteFinds]
      constructor
      · rintro ⟨hgone, hkeep⟩ - -
        cases hb : s.records i with
        | none => exact absurd (hgone hb) (by simp)
        | some b =>
          refine ⟨b, rfl, fun hterm => ?_⟩
          have hab := hkeep b hb hterm a rfl
          have ha := hlegal (hab ▸ hterm)
          exact ⟨hab ▸ ha, ha⟩
      · intro h
        obtain ⟨b, hb, hterm⟩ := h trivial (by simp)
        refine ⟨fun hnone => ?_, fun b' hb' ht c hc => ?_⟩
        · rw [hb] at hnone
          cases hnone
        · rw [hb] at hb'
          obtain rfl := Option.some.inj hb'
          obtain rfl := Option.some.inj hc
          rw [(hterm ht).1, (hterm ht).2]
    · have hsame : (s.exec P now (.set i a)).2.records id = s.records id := by
        simp [Store.exec, Ne.symm hi]
      simp only [WriteFinds, hi, false_imp_iff, iff_true]
      exact ⟨fun h => hsame.trans h, fun b hb _ c hc => by
        rw [hsame, hb] at hc
        rw [Option.some.inj hc]⟩
  | markExpired i currentLedger time =>
    simp only [WriteFinds, iff_true, Store.exec]
    split
    · exact Keeps.refl id s
    · rename_i b hb
      obtain ⟨a, ha, hlive⟩ := markExpiredScript_keeps hb
      by_cases hi : id = i
      · subst hi
        refine ⟨fun hnone => ?_, fun a' ha' ht => ?_⟩
        · rw [ha] at hnone
          cases hnone
        · rw [ha] at ha'
          obtain rfl := Option.some.inj ha'
          rw [hlive] at ht
          cases ht
      · refine ⟨fun h => ?_, fun a' ha' _ c hc => ?_⟩
        · simpa [hi] using h
        · simp only [Function.update_of_ne hi, ha'] at hc
          rw [Option.some.inj hc]
  | delete i =>
    simp only [WriteFinds, iff_true, Keeps, Store.exec, Function.update_apply]
    refine ⟨fun h => by simp [h], fun a ha _ b hb => ?_⟩
    split at hb
    · cases hb
    · rw [ha] at hb
      rw [Option.some.inj hb]
  | _ => exact iff_of_true (Keeps.refl id s) trivial

/-- The same, for a command that may fail. -/
theorem machine_keeps_iff {τ : Type} (i : τ) {op : Op} (hlegal : Legal op) (x : Env) :
    Keeps id s ((machine τ P).exec i op x s).2 ↔ WriteFinds id op x s := by
  have hexec : Keeps id s (s.exec P x.now op).2 ↔ WriteFinds id op ⟨x.now, .none⟩ s :=
    exec_keeps_iff hlegal x.now
  cases op with
  | set j a =>
    cases hx : x.fault with
    | before =>
      simp only [machine, Op.isLocal, hx, WriteFinds, Bool.false_eq_true, if_false]
      simp [Keeps.refl]
    | none => simpa [machine, Op.isLocal, hx, WriteFinds] using hexec
    | after => simpa [machine, Op.isLocal, hx, WriteFinds] using hexec
  | insert => exact hlegal.elim
  | _ =>
    simp only [WriteFinds, iff_true] at hexec ⊢
    simp only [machine]
    split
    · exact hexec
    · split
      · exact hexec
      · exact Keeps.refl id s
      · exact hexec

/-! ## 4. Every interleaving -/

/-- **Terminal statuses are absorbing exactly when no stale write is made.**  In a run of any
calls in any threads, with any failures: no state has the airdrop in another status than a
terminal one it had before, or present after it was gone, if and only if every whole-record
write of it finds it there, and not ended (a cancellation may write over a cancelled one). -/
theorem terminal_absorbing_iff {τ : Type} [DecidableEq τ] (P : Platform) (s : Store)
    (calls : τ → Call) (ls : List (τ × Env)) (id : String) :
    (∀ l₁ l₂ l₃, ls = l₁ ++ l₂ ++ l₃ →
      Keeps id (run (Pool.step (machine τ P)) (start s calls) l₁).store
        (run (Pool.step (machine τ P)) (start s calls) (l₁ ++ l₂)).store) ↔
    Along (Pool.step (machine τ P)) (Pool.Issues (WriteFinds id)) (start s calls) ls := by
  rw [forall_later_iff (R := fun c c' : System τ => Keeps id c.store c'.store)
    (fun c => Keeps.refl id c.store) (fun _ _ _ => Keeps.trans)]
  have huses : Pool.Uses (S := sig) (fun _ => Legal) (start s calls) := fun i => (calls i).uses
  refine Along.iff_of_inv (I := fun c : System τ => Pool.Uses (S := sig) (fun _ => Legal) c)
    (fun c l h => Pool.Uses.step h l) ?_ huses
  intro c l h
  cases hp : c.prog l.1 with
  | ret r => simp [Pool.Issues, hp, Pool.step_of_ret hp, Keeps.refl]
  | cmd op k =>
    have hlegal : Legal op := by
      have := h l.1
      rw [hp] at this
      exact this.1
    simp only [Pool.Issues, hp, Pool.step, Prog.act]
    exact machine_keeps_iff l.1 hlegal l.2

/-- An airdrop that ends with ledger 100. -/
def sampleAirdrop : Airdrop where
  id := "drop_0"
  name := "sample"
  description := none
  asset := "XLM"
  asset_issuer := "G"
  total_amount := Double.ofNat 10 Double.nearest_ten
  expiry_ledger := some 100
  contract_airdrop_id := none
  status := .draft
  created_at := 0
  updated_at := 0

/-- A database with that airdrop only. -/
def sampleStore : Store :=
  { Store.init with records := Function.update Store.init.records "drop_0" (some sampleAirdrop) }

/-- One thread renames the airdrop, the other one marks it expired. -/
def sampleCalls : Bool → Call
  | false => .update "drop_0" { name := some "renamed" }
  | true => .markExpired "drop_0" 100

/-- The rename reads the draft, the script expires it, and the rename writes the draft back. -/
theorem update_reopens_expired : ¬ ∀ l₁ l₂ l₃ : List (Bool × Env),
    [(false, ⟨1, .none⟩), (true, ⟨2, .none⟩), (true, ⟨3, .none⟩), (false, ⟨4, .none⟩),
      (false, ⟨5, .none⟩)] = l₁ ++ l₂ ++ l₃ →
    Keeps "drop_0"
      (run (Pool.step (machine Bool samplePlatform)) (start sampleStore sampleCalls) l₁).store
      (run (Pool.step (machine Bool samplePlatform)) (start sampleStore sampleCalls)
        (l₁ ++ l₂)).store := by
  intro h
  have hkeeps := h [(false, ⟨1, .none⟩), (true, ⟨2, .none⟩), (true, ⟨3, .none⟩)]
    [(false, ⟨4, .none⟩), (false, ⟨5, .none⟩)] [] rfl
  have hstatus := hkeeps.2 { sampleAirdrop with status := .expired, updated_at := 2 }
    (by decide +kernel) rfl
    { sampleAirdrop with name := "renamed", updated_at := 4 } rfl
  exact absurd hstatus (by decide)

end SmartDrop.Airdrops
