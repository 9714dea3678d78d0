/-
# The cached ledger

`getCurrentLedger` of `services/airdrops.js` reads and assigns `cachedLedger` and `cachedLedgerAt`.
The module is no strict one and declares neither: reading a name that is not bound throws, assigning
to it binds it in the global object.  A call is two pieces of code, before and after the Horizon
request that it awaits, and other calls may run in between.

What a caller may expect of the cache (`Meets`) is about the history of the calls: the requests that
they make, how these end, and what the calls return or throw.  Section 4 has what a module with the
two names bound would do, and what the module does as it is loaded.
-/
import SmartDrop.Utils.CircuitBreaker
import Mathlib.Order.Nat

namespace SmartDrop.Airdrops.Ledger

open Conc SmartDrop.Utils

/-! ## 1. The module -/

/-- The two names, each with its value where it is bound. -/
structure Scope where
  cachedLedger : Option (Option ℕ)
  cachedLedgerAt : Option ℕ
deriving DecidableEq

/-- After the module has been loaded: nothing declares the names. -/
def Scope.loaded : Scope := ⟨none, none⟩

/-- What a call throws. -/
inductive Err (ε : Type) where
  | referenceError (message : String)
  | typeError (message : String)
  | refused (e : CircuitBreakerOpenError)
  | failed (err : ε)
deriving DecidableEq

/-- A call that awaits Horizon: `now` is when it was made, `probing` how the breaker admitted it. -/
structure Waiting where
  call : ℕ
  now : ℕ
  probing : Bool
deriving DecidableEq

/-- What has happened in the `call`-th call. -/
inductive Event (ε : Type) where
  | requested (call : ℕ)
  | refused (call : ℕ)
  | failed (call : ℕ)
  | replied (call : ℕ) (records : List ℕ)
  | returned (call : ℕ) (ledger : ℕ)
  | threw (call : ℕ) (err : Err ε)
deriving DecidableEq

/-- The module, the clock, and a record of what has happened and when, the latest first. -/
structure Module (ε : Type) where
  now : ℕ
  scope : Scope
  breaker : Breaker
  waiting : List Waiting
  calls : ℕ
  history : List (ℕ × Event ε)

variable {ε : Type}

/-- A module with these bindings that has not been called. -/
def Module.new (scope : Scope) : Module ε where
  now := 0
  scope
  breaker := .new
  waiting := []
  calls := 0
  history := []

/-- Something happens. -/
def Module.note (m : Module ε) (e : Event ε) : Module ε :=
  { m with history := (m.now, e) :: m.history }

/-! ## 2. The source -/

section Source

variable (c : CircuitBreaker ε) (ledgerCacheTtlMs : ℤ)

/-- What reading a name that is not bound throws. -/
def unbound (name : String) : Err ε := .referenceError (name ++ " is not defined")

/-- The cached value that is still good, unless a name cannot be read. -/
def cached (scope : Scope) (now : ℕ) : Except (Err ε) (Option ℕ) :=
  match scope.cachedLedger with
  | none => .error (unbound "cachedLedger")
  | some none => .ok none
  | some (some ledger) =>
    match scope.cachedLedgerAt with
    | none => .error (unbound "cachedLedgerAt")
    | some cachedLedgerAt =>
      .ok (if (now : ℤ) - cachedLedgerAt < ledgerCacheTtlMs then some ledger else none)

/-- `horizonBreaker.execute`, until the request is made. -/
def execute (call : ℕ) (m : Module ε) : Module ε :=
  match enter c (some true) m.now m.breaker with
  | (.refused e, b) =>
    let m := { m with breaker := b }.note (.refused call)
    m.note (.threw call (.refused e))
  | (.invoked probing, b) =>
    let waiting := m.waiting ++ [(⟨call, m.now, probing⟩ : Waiting)]
    { m with breaker := b, waiting }.note (.requested call)
  | (.skipped, b) =>
    -- `throwOnOpen` is set, so that no call is skipped
    { m with breaker := b }

/-- `getCurrentLedger`, until it awaits. -/
def getCurrentLedger (m : Module ε) : Module ε :=
  let call := m.calls
  let m := { m with calls := m.calls + 1 }
  match cached ledgerCacheTtlMs m.scope m.now with
  | .error e => m.note (.threw call e)
  | .ok (some ledger) => m.note (.returned call ledger)
  | .ok none => execute c call m

/-- What a reply without a record throws. -/
def noRecord : Err ε := .typeError "Cannot read properties of undefined (reading 'sequence')"

/-- `getCurrentLedger`, from where the request of `w` ends. -/
def resume (w : Waiting) (reply : Except ε (List ℕ)) (m : Module ε) : Module ε :=
  match reply with
  | .error err =>
    let m := { m with breaker := settle c w.probing m.now (.rejected err) m.breaker }.note
      (.failed w.call)
    m.note (.threw w.call (.failed err))
  | .ok records =>
    let m := { m with breaker := settle c w.probing m.now .resolved m.breaker }.note
      (.replied w.call records)
    match records with
    | [] => m.note (.threw w.call noRecord)
    | ledger :: _ =>
      { m with scope := ⟨some (some ledger), some w.now⟩ }.note (.returned w.call ledger)

/-- What can happen: time passes, somebody calls, the request of the `n`-th waiting call ends. -/
inductive Label (ε : Type) where
  | tick (ms : ℕ)
  | call
  | reply (n : ℕ) (reply : Except ε (List ℕ))

/-- One step. -/
def step (m : Module ε) : Label ε → Module ε
  | .tick ms => { m with now := m.now + ms }
  | .call => getCurrentLedger c ledgerCacheTtlMs m
  | .reply n reply =>
    match m.waiting[n]? with
    | none => m
    | some w => resume c w reply { m with waiting := m.waiting.eraseIdx n }

end Source

/-! ## 3. What a caller may expect -/

/-- A call throws only if its request fails, has no ledger in its reply or is refused. -/
def ThrowsOnlyOnFailure (history : List (ℕ × Event ε)) : Prop :=
  ∀ t call err, (t, .threw call err) ∈ history → ∃ t', (t', .failed call) ∈ history ∨
    (t', .refused call) ∈ history ∨ (t', .replied call []) ∈ history

/-- What a call returns is in a reply that is no older than the time to live. -/
def ReturnsRecent (ledgerCacheTtlMs : ℤ) (history : List (ℕ × Event ε)) : Prop :=
  ∀ t call ledger, (t, .returned call ledger) ∈ history → ∃ t' call' records,
    (t', .replied call' (ledger :: records)) ∈ history ∧ t' ≤ t ∧
    (t : ℤ) - t' ≤ max 0 ledgerCacheTtlMs

/-- A call is over. -/
def Over (history : List (ℕ × Event ε)) (call : ℕ) : Prop :=
  ∃ t, (∃ ledger, (t, .returned call ledger) ∈ history) ∨ ∃ err, (t, .threw call err) ∈ history

/-- A call that overlaps with none before it makes no request while the last reply is recent. -/
def RequestsRarely (ledgerCacheTtlMs : ℤ) (history : List (ℕ × Event ε)) : Prop :=
  ∀ later t call earlier, history = later ++ (t, .requested call) :: earlier →
    (∀ call' < call, Over earlier call') →
    ∀ t' call' ledger records, (t', .replied call' (ledger :: records)) ∈ earlier →
      ledgerCacheTtlMs ≤ (t : ℤ) - t'

/-- What a caller may expect of a module with this history. -/
structure Meets (ledgerCacheTtlMs : ℤ) (history : List (ℕ × Event ε)) : Prop where
  throws : ThrowsOnlyOnFailure history
  recent : ReturnsRecent ledgerCacheTtlMs history
  rarely : RequestsRarely ledgerCacheTtlMs history

/-! ## 4. The module as it is loaded -/

section Loaded

variable {c : CircuitBreaker ε} {ledgerCacheTtlMs : ℤ}

/-- A module that is as it was loaded, but for the calls that have thrown. -/
structure Untouched (m : Module ε) : Prop where
  scope : m.scope = .loaded
  waiting : m.waiting = []
  threw : ∀ e ∈ m.history, ∃ t call, e = (t, .threw call (unbound "cachedLedger"))

/-- Nothing but a call is recorded. -/
theorem history_step_of_untouched {m : Module ε} (h : Untouched m) (l : Label ε) :
    (step c ledgerCacheTtlMs m l).history = [] ↔ m.history = [] ∧ l ≠ .call := by
  cases l with
  | tick ms => simp [step]
  | call => simp [step, getCurrentLedger, h.scope, cached, Scope.loaded, Module.note]
  | reply n reply => simp [step, h.waiting]

theorem Untouched.step {m : Module ε} (h : Untouched m) (l : Label ε) :
    Untouched (step c ledgerCacheTtlMs m l) := by
  cases l with
  | tick ms => exact ⟨h.scope, h.waiting, h.threw⟩
  | call =>
    simp only [Ledger.step, getCurrentLedger, h.scope, cached, Scope.loaded]
    refine ⟨rfl, h.waiting, ?_⟩
    intro e he
    rcases List.mem_cons.mp he with rfl | he
    · exact ⟨_, _, rfl⟩
    · exact h.threw e he
  | reply n reply =>
    simp only [Ledger.step, h.waiting, List.getElem?_nil]
    exact h

theorem untouched_new : Untouched (Module.new .loaded : Module ε) := ⟨rfl, rfl, nofun⟩

variable (c ledgerCacheTtlMs) in
theorem history_run_of_untouched {m : Module ε} (h : Untouched m) (ls : List (Label ε)) :
    (run (step c ledgerCacheTtlMs) m ls).history = [] ↔ m.history = [] ∧ ∀ l ∈ ls, l ≠ .call := by
  induction ls generalizing m with
  | nil => simp
  | cons l ls ih =>
    rw [run_cons, ih (h.step l), history_step_of_untouched h, List.forall_mem_cons, and_assoc]

theorem meets_nil : Meets ledgerCacheTtlMs ([] : List (ℕ × Event ε)) where
  throws := nofun
  recent := nofun
  rarely later t call earlier h := by simp at h

/-- **The loaded module meets nobody's expectations**: whatever the time to live, the breaker and
Horizon's replies, its history is as expected only while it has not been called. -/
theorem meets_iff (c : CircuitBreaker ε) (ledgerCacheTtlMs : ℤ) (ls : List (Label ε)) :
    Meets ledgerCacheTtlMs (run (step c ledgerCacheTtlMs) (.new .loaded) ls).history ↔
      ∀ l ∈ ls, l ≠ .call := by
  have hrun : Untouched (run (step c ledgerCacheTtlMs) (.new .loaded) ls) :=
    run_inv_of_step (fun m l h => Untouched.step h l) untouched_new
  have hiff := history_run_of_untouched c ledgerCacheTtlMs untouched_new ls
  simp only [Module.new, true_and] at hiff hrun ⊢
  rw [← hiff]
  constructor
  · intro hmeets
    rw [List.eq_nil_iff_forall_not_mem]
    intro e he
    -- the call has thrown, but its history has no request
    obtain ⟨t, call, rfl⟩ := hrun.threw e he
    obtain ⟨t', h⟩ := hmeets.throws t call _ he
    rcases h with h | h | h <;>
    · obtain ⟨_, _, h⟩ := hrun.threw _ h
      simp at h
  · intro h
    rw [h]
    exact meets_nil

end Loaded

/-- The breaker around Horizon. -/
def horizonBreaker (isFailure : ε → Bool) : CircuitBreaker ε :=
  .new "stellar-horizon" ⟨some 3, none, some 30000, some 60000, none, false, isFailure⟩

/-- The first call throws, Horizon not being asked. -/
theorem first_call_throws :
    ¬ Meets 5000 (run (step (horizonBreaker fun _ : String => true) 5000)
      (.new .loaded) [.call]).history := by
  intro h
  obtain ⟨t', h⟩ := h.throws 0 0 (unbound "cachedLedger") (by decide)
  rcases h with h | h | h <;> simp [step, getCurrentLedger, cached, Scope.loaded, Module.new,
    Module.note, run] at h

/-! ## 5. With the name bound -/

section Bound

variable {c : CircuitBreaker ε} {ledgerCacheTtlMs : ℤ} {history : List (ℕ × Event ε)} {e : ℕ × Event ε}

/-- Why a call may throw, or a ledger be returned. -/
def Event.Justified (ledgerCacheTtlMs : ℤ) (history : List (ℕ × Event ε)) (t : ℕ) : Event ε → Prop
  | .threw call _ => ∃ t', (t', .failed call) ∈ history ∨ (t', .refused call) ∈ history ∨
      (t', .replied call []) ∈ history
  | .returned _ ledger => ∃ t' call' records, (t', .replied call' (ledger :: records)) ∈ history ∧
      t' ≤ t ∧ (t : ℤ) - t' ≤ max 0 ledgerCacheTtlMs
  | _ => True

theorem Event.Justified.mono {history' : List (ℕ × Event ε)} {t : ℕ} {e : Event ε}
    (h : e.Justified ledgerCacheTtlMs history t) (hsub : history ⊆ history') :
    e.Justified ledgerCacheTtlMs history' t := by
  cases e with
  | threw call err =>
    obtain ⟨t', h⟩ := h
    exact ⟨t', h.imp (fun h => hsub h) (Or.imp (fun h => hsub h) fun h => hsub h)⟩
  | returned call ledger =>
    obtain ⟨t', call', records, hmem, h⟩ := h
    exact ⟨t', call', records, hsub hmem, h⟩
  | requested | refused | failed | replied => trivial

/-- The name can be read, and a cached ledger is from a reply that came after the time kept
with it. -/
structure Bound (ledgerCacheTtlMs : ℤ) (m : Module ε) : Prop where
  clock : ∀ w ∈ m.waiting, w.now ≤ m.now
  bound : m.scope.cachedLedger ≠ none
  cached : ∀ ledger, m.scope.cachedLedger = some (some ledger) → ∃ cachedLedgerAt t call records,
    m.scope.cachedLedgerAt = some cachedLedgerAt ∧
    (t, .replied call (ledger :: records)) ∈ m.history ∧ cachedLedgerAt ≤ t ∧ t ≤ m.now
  justified : ∀ e ∈ m.history, e.2.Justified ledgerCacheTtlMs m.history e.1

theorem Bound.note {m : Module ε} (h : Bound ledgerCacheTtlMs m) {e : Event ε}
    (he : e.Justified ledgerCacheTtlMs m.history m.now) : Bound ledgerCacheTtlMs (m.note e) where
  clock := h.clock
  bound := h.bound
  cached ledger hledger := by
    obtain ⟨at', t, call, records, hat, hmem, h⟩ := h.cached ledger hledger
    exact ⟨at', t, call, records, hat, List.mem_cons_of_mem _ hmem, h⟩
  justified := by
    intro e' he'
    rcases List.mem_cons.mp he' with rfl | he'
    · exact he.mono (List.subset_cons_self _ _)
    · exact (h.justified e' he').mono (List.subset_cons_self _ _)

/-- Only the clock, the scope and the history matter. -/
theorem Bound.congr {m m' : Module ε} (h : Bound ledgerCacheTtlMs m) (hnow : m.now ≤ m'.now)
    (hscope : m'.scope = m.scope) (hhistory : m'.history = m.history)
    (hwaiting : ∀ w ∈ m'.waiting, w ∈ m.waiting ∨ w.now ≤ m'.now) : Bound ledgerCacheTtlMs m' where
  clock w hw := (hwaiting w hw).elim (fun hw => (h.clock w hw).trans hnow) id
  bound := hscope ▸ h.bound
  cached ledger hledger := by
    obtain ⟨at', t, call, records, hat, hmem, hle, hle'⟩ := h.cached ledger (hscope ▸ hledger)
    exact ⟨at', t, call, records, hscope ▸ hat, hhistory ▸ hmem, hle, hle'.trans hnow⟩
  justified := by
    rw [hhistory]
    exact h.justified

theorem Bound.execute {m : Module ε} (h : Bound ledgerCacheTtlMs m) (call : ℕ) :
    Bound ledgerCacheTtlMs (execute c call m) := by
  unfold Ledger.execute
  split
  · rename_i e b _
    have hb : Bound ledgerCacheTtlMs { m with breaker := b } :=
      h.congr le_rfl rfl rfl fun w hw => Or.inl hw
    have hrefused := hb.note (e := .refused call) trivial
    exact hrefused.note ⟨m.now, Or.inr (Or.inl List.mem_cons_self)⟩
  · rename_i probing b _
    have hb : Bound ledgerCacheTtlMs
        { m with breaker := b, waiting := m.waiting ++ [⟨call, m.now, probing⟩] } := by
      refine h.congr le_rfl rfl rfl fun w hw => ?_
      rcases List.mem_append.mp hw with hw | hw
      · exact Or.inl hw
      · rw [List.mem_singleton.mp hw]
        exact Or.inr le_rfl
    exact hb.note (e := .requested call) trivial
  · exact h.congr le_rfl rfl rfl fun w hw => Or.inl hw

theorem Bound.getCurrentLedger {m : Module ε} (h : Bound ledgerCacheTtlMs m) :
    Bound ledgerCacheTtlMs (getCurrentLedger c ledgerCacheTtlMs m) := by
  have hm : Bound ledgerCacheTtlMs { m with calls := m.calls + 1 } :=
    h.congr le_rfl rfl rfl fun w hw => Or.inl hw
  unfold Ledger.getCurrentLedger
  dsimp only
  cases hl : m.scope.cachedLedger with
  | none => exact absurd hl h.bound
  | some cachedLedger =>
    cases cachedLedger with
    | none =>
      simp only [Ledger.cached, hl]
      exact hm.execute _
    | some ledger =>
      obtain ⟨cachedLedgerAt, t, call, records, hat, hmem, hle, hle'⟩ := h.cached ledger hl
      simp only [Ledger.cached, hl, hat]
      by_cases hfresh : (m.now : ℤ) - cachedLedgerAt < ledgerCacheTtlMs
      · rw [if_pos hfresh]
        refine hm.note ⟨t, call, records, hmem, hle', ?_⟩
        dsimp only
        omega
      · rw [if_neg hfresh]
        exact hm.execute _

theorem Bound.resume {m : Module ε} (h : Bound ledgerCacheTtlMs m) {w : Waiting}
    (hw : w.now ≤ m.now) (reply : Except ε (List ℕ)) :
    Bound ledgerCacheTtlMs (resume c w reply m) := by
  unfold Ledger.resume
  cases reply with
  | error err =>
    have hb : Bound ledgerCacheTtlMs
        { m with breaker := settle c w.probing m.now (.rejected err) m.breaker } :=
      h.congr le_rfl rfl rfl fun w hw => Or.inl hw
    have hfailed := hb.note (e := .failed w.call) trivial
    exact hfailed.note ⟨m.now, Or.inl List.mem_cons_self⟩
  | ok records =>
    have hb : Bound ledgerCacheTtlMs
        { m with breaker := settle c w.probing m.now .resolved m.breaker } :=
      h.congr le_rfl rfl rfl fun w hw => Or.inl hw
    have hreplied := hb.note (e := .replied w.call records) trivial
    cases records with
    | nil => exact hreplied.note ⟨m.now, Or.inr (Or.inr List.mem_cons_self)⟩
    | cons ledger records =>
      have hm : Bound ledgerCacheTtlMs
          { ({ m with breaker := settle c w.probing m.now .resolved m.breaker }.note
            (.replied w.call (ledger :: records))) with
            scope := ⟨some (some ledger), some w.now⟩ } := by
        refine ⟨hreplied.clock, Option.some_ne_none _, ?_, hreplied.justified⟩
        rintro _ ⟨⟩
        exact ⟨w.now, m.now, w.call, records, rfl, List.mem_cons_self, hw, le_rfl⟩
      refine hm.note ⟨m.now, w.call, records, List.mem_cons_self, le_rfl, ?_⟩
      dsimp only [Module.note]
      omega

theorem Bound.step {m : Module ε} (h : Bound ledgerCacheTtlMs m) (l : Label ε) :
    Bound ledgerCacheTtlMs (step c ledgerCacheTtlMs m l) := by
  cases l with
  | tick ms => exact h.congr (Nat.le_add_right _ _) rfl rfl fun w hw => Or.inl hw
  | call => exact h.getCurrentLedger
  | reply n reply =>
    unfold Ledger.step
    cases hw : m.waiting[n]? with
    | none =>
      simp only [hw]
      exact h
    | some w =>
      simp only [hw]
      have hm : Bound ledgerCacheTtlMs { m with waiting := m.waiting.eraseIdx n } :=
        h.congr le_rfl rfl rfl fun w hw => Or.inl (List.mem_of_mem_eraseIdx hw)
      exact hm.resume (h.clock w (List.mem_of_getElem? hw)) reply

/-- **The declaration is all that is missing** for the errors and the age of the answers: a module
with `cachedLedger` bound to `null` throws and returns only what its caller may expect. -/
theorem answers_of_bound (c : CircuitBreaker ε) (ledgerCacheTtlMs : ℤ)
    (cachedLedgerAt : Option ℕ) (ls : List (Label ε)) :
    let m := run (Ledger.step c ledgerCacheTtlMs) (.new ⟨some none, cachedLedgerAt⟩) ls
    ThrowsOnlyOnFailure m.history ∧ ReturnsRecent ledgerCacheTtlMs m.history := by
  intro m
  have hm : Bound ledgerCacheTtlMs m :=
    run_inv_of_step (fun m l h => Bound.step h l) ⟨nofun, nofun, nofun, nofun⟩
  exact ⟨fun t call err h => hm.justified _ h, fun t call ledger h => hm.justified _ h⟩

end Bound

end SmartDrop.Airdrops.Ledger
