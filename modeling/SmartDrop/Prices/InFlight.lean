/-
# One fetch for each asset

`fetchFreshPrice` in `services/priceOracle.js`: concurrent callers for one asset and issuer join the
fetch that is in flight.  The map `inFlight` is keyed by a text of the pair, and the callers share a
wrapper promise.  When `doFetchFreshPrice` settles, a first callback settles the wrapper with its
outcome and a second one deletes the entry; anything may happen between them.

`doFetchFreshPrice` is an `async` function whose sources do not call `fetchFreshPrice`, so that it
returns its promise before anybody else runs.
-/
import SmartDrop.Airdrops.Schema
import SmartDrop.Lib.Flights
import SmartDrop.Lib.Run

namespace SmartDrop.Prices.InFlight

open Conc

/-! ## 1. Requests -/

/-- An asset and its issuer, `issuer || null`. -/
structure Pair where
  assetCode : String
  issuer : Option String
deriving DecidableEq

/-- The key of `inFlight`. -/
def Pair.key (pair : Pair) : String := pair.assetCode ++ ":" ++ pair.issuer.getD "null"

/-- A request that `priceParamsSchema` and `priceQuerySchema` admit. -/
structure Request where
  asset_code : String
  issuer : Option String
  code_ok : Airdrops.assetCodeIssues ["asset_code"] asset_code = []
  issuer_ok : ∀ issuer' ∈ issuer, issuer' ≠ "" → Airdrops.isStellarPublicKey issuer' = true

/-- What `assetCodeSchema` makes of the text: `trim`, and then `toUpperCase`. -/
def normalizedCode (asset_code : String) : String :=
  String.ofList ((JsText.trim asset_code).toList.map JsText.upper)

/-- What the route calls `fetchFreshPrice` with. -/
def Request.pair (r : Request) : Pair where
  assetCode := normalizedCode r.asset_code
  issuer := r.issuer.filter (· ≠ "")

/-- The route passes the pair on. -/
def Admitted (pair : Pair) : Prop := ∃ r : Request, r.pair = pair

theorem upper_ne_colon {c : Char}
    (h : (JsText.isUpper c || JsText.isLower c || JsText.isDigit c) = true) :
    JsText.upper c ≠ ':' := by
  unfold JsText.upper
  split
  · rename_i hlower
    simp only [JsText.isLower, Bool.and_eq_true, decide_eq_true_eq, Char.le_def] at hlower
    have hlow : 97 ≤ c.toNat := hlower.1
    have hhigh : c.toNat ≤ 122 := hlower.2
    have hletters : ∀ n < 91, 65 ≤ n → Char.ofNat n ≠ ':' := by decide
    exact hletters _ (by omega) (by omega)
  · rintro rfl
    revert h
    decide

/-- A code has no colon. -/
theorem Admitted.colon {pair : Pair} (h : Admitted pair) : ':' ∉ pair.assetCode.toList := by
  obtain ⟨r, rfl⟩ := h
  have hcode := r.code_ok
  simp only [Airdrops.assetCodeIssues, List.append_eq_nil_iff, Airdrops.check_eq_nil_iff,
    Bool.and_eq_true, List.all_eq_true] at hcode
  intro hmem
  simp only [Request.pair, normalizedCode, String.toList_ofList, List.mem_map] at hmem
  obtain ⟨c, hc, hupper⟩ := hmem
  exact upper_ne_colon (hcode.2.2 c hc) hupper

/-- No issuer reads `null`. -/
theorem Admitted.issuer_ne {pair : Pair} (h : Admitted pair) : pair.issuer ≠ some "null" := by
  obtain ⟨r, rfl⟩ := h
  intro hnull
  obtain ⟨hissuer, -⟩ := Option.filter_eq_some_iff.mp hnull
  have := r.issuer_ok "null" hissuer (by decide)
  revert this
  decide

/-- **Distinct pairs have distinct keys.** -/
theorem key_injective {p q : Pair} (hp : Admitted p) (hq : Admitted q) (h : p.key = q.key) :
    p = q := by
  have hlist := congrArg String.toList h
  simp only [Pair.key, String.toList_append, List.append_assoc] at hlist
  have hsplit : p.assetCode.toList = q.assetCode.toList ∧
      (p.issuer.getD "null").toList = (q.issuer.getD "null").toList := by
    rcases JsText.append_cons_cases hq.colon hlist with hsame | ⟨more, hmore, -⟩
    · exact hsame
    · exact absurd (hmore ▸ List.mem_append_right _ List.mem_cons_self) hp.colon
  have hcode : p.assetCode = q.assetCode := String.toList_inj.mp hsplit.1
  have hissuer : p.issuer.getD "null" = q.issuer.getD "null" := String.toList_inj.mp hsplit.2
  obtain ⟨code, issuer⟩ := p
  obtain ⟨code', issuer'⟩ := q
  obtain rfl : code = code' := hcode
  cases issuer with
  | none =>
    cases issuer' with
    | none => rfl
    | some b => exact absurd (congrArg some hissuer.symm) hq.issuer_ne
  | some a =>
    cases issuer' with
    | none => exact absurd (congrArg some hissuer) hp.issuer_ne
    | some b => exact congrArg (Pair.mk code) (congrArg some hissuer)

/-! ## 2. The source -/

/-- A fetch: the pair, how `doFetchFreshPrice` has settled, how the wrapper has, and whether the entry
was deleted. -/
structure Fetch (α ε : Type) where
  pair : Pair
  actual : Option (Except ε α)
  wrapper : Option (Except ε α)
  removed : Bool

/-- `inFlight` with all fetches so far, and the calls: the pair of each and the fetch whose wrapper it was
given. -/
structure Process (α ε : Type) where
  inFlight : Flights String (Fetch α ε)
  calls : List (Pair × ℕ)

/-- What can happen: `fetchFreshPrice` is called, the `n`-th `doFetchFreshPrice` settles, or one of its
two callbacks runs. -/
inductive Label (α ε : Type) where
  | call (r : Request)
  | settles (n : ℕ) (o : Except ε α)
  | forwards (n : ℕ)
  | removes (n : ℕ)

variable {α ε : Type}

namespace Process

/-- Nothing has been fetched. -/
def init : Process α ε := ⟨.empty, []⟩

variable (s : Process α ε)

/-- `fetchFreshPrice`. -/
def fetchFreshPrice (pair : Pair) : Process α ε :=
  match s.inFlight.entry pair.key with
  | some n => { s with calls := s.calls ++ [(pair, n)] }
  | none =>
    let n := s.inFlight.flights.length
    { inFlight := (s.inFlight.begin pair.key ⟨pair, none, none, false⟩).enter pair.key n
      calls := s.calls ++ [(pair, n)] }

/-- One step. -/
def step : Label α ε → Process α ε
  | .call r => s.fetchFreshPrice r.pair
  | .settles n o =>
    match s.inFlight.flights[n]? with
    | some (_, ⟨pair, none, wrapper, removed⟩) =>
      { s with inFlight := s.inFlight.move n ⟨pair, some o, wrapper, removed⟩ }
    | _ => s
  | .forwards n =>
    match s.inFlight.flights[n]? with
    | some (_, ⟨pair, some o, none, removed⟩) =>
      { s with inFlight := s.inFlight.move n ⟨pair, some o, some o, removed⟩ }
    | _ => s
  | .removes n =>
    match s.inFlight.flights[n]? with
    | some (key, ⟨pair, actual, some o, false⟩) =>
      { s with inFlight := (s.inFlight.move n ⟨pair, actual, some o, true⟩).leave key }
    | _ => s

/-! ## 3. What single flight means -/

/-- The `n`-th fetch is for the pair, and its entry has not been deleted. -/
def Entered (pair : Pair) (n : ℕ) : Prop :=
  ∃ f, s.inFlight.At n pair.key f ∧ f.pair = pair ∧ f.removed = false

/-- At most one fetch of a pair is entered; one that has not settled is; the map has the entered
fetches; every call was given the wrapper of a fetch of its own pair, and that settles as the fetch
has. -/
structure Coalesced : Prop where
  one : ∀ pair m n, s.Entered pair m → s.Entered pair n → m = n
  running : ∀ key n f, s.inFlight.At n key f → f.actual = none → s.Entered f.pair n
  entry : ∀ pair n, Admitted pair → (s.inFlight.entry pair.key = some n ↔ s.Entered pair n)
  own : ∀ pair n, (pair, n) ∈ s.calls → ∃ f, s.inFlight.At n pair.key f ∧ f.pair = pair
  forwarded : ∀ key n f o, s.inFlight.At n key f → f.wrapper = some o → f.actual = some o

/-- What a step does: a call joins the fetch that is entered for its pair, and if there is none it
starts one; only the second callback of a fetch deletes an entry, and that is its own. -/
def Law : Label α ε → Prop
  | .call r =>
    (∀ n, s.Entered r.pair n →
      s.step (.call r) = { s with calls := s.calls ++ [(r.pair, n)] }) ∧
    ((∀ n, ¬ s.Entered r.pair n) →
      (s.step (.call r)).inFlight.flights =
        s.inFlight.flights ++ [(r.pair.key, ⟨r.pair, none, none, false⟩)])
  | .settles n o => (s.step (.settles n o)).inFlight.entry = s.inFlight.entry
  | .forwards n => (s.step (.forwards n)).inFlight.entry = s.inFlight.entry
  | .removes n =>
    s.step (.removes n) = s ∨ ∃ pair, s.Entered pair n ∧
      s.inFlight.entry pair.key = some n ∧ ¬ (s.step (.removes n)).Entered pair n ∧
      (s.step (.removes n)).inFlight.entry = Function.update s.inFlight.entry pair.key none

/-! ## 4. The invariant -/

/-- The fetches that have to be in the map. -/
def Held (f : Fetch α ε) : Prop := f.removed = false

/-- The map is sound, a fetch is under the key of its pair, and its callbacks run in their order. -/
structure Inv : Prop where
  sound : s.inFlight.Sound Held
  key : ∀ key n f, s.inFlight.At n key f → key = f.pair.key ∧ Admitted f.pair
  order : ∀ key n f, s.inFlight.At n key f → f.actual = none → f.wrapper = none
  last : ∀ key n f, s.inFlight.At n key f → f.wrapper = none → f.removed = false
  own : ∀ pair n, (pair, n) ∈ s.calls → ∃ f, s.inFlight.At n pair.key f ∧ f.pair = pair
  forwarded : ∀ key n f o, s.inFlight.At n key f → f.wrapper = some o → f.actual = some o

section Inv

variable {s : Process α ε} {n : ℕ} {key : String} {f g : Fetch α ε}

theorem inv_init : (init : Process α ε).Inv where
  sound := Flights.sound_empty
  key key n f h := by simp [init, Flights.empty, Flights.At] at h
  order key n f h := by simp [init, Flights.empty, Flights.At] at h
  last key n f h := by simp [init, Flights.empty, Flights.At] at h
  own pair n h := by cases h
  forwarded key n f o h := by simp [init, Flights.empty, Flights.At] at h

/-- An entry is of a fetch of the pair. -/
theorem Inv.entry_iff (hs : s.Inv) {pair : Pair} (hpair : Admitted pair) :
    s.inFlight.entry pair.key = some n ↔ s.Entered pair n := by
  rw [hs.sound.entry_iff]
  constructor
  · rintro ⟨f, hat, hheld⟩
    obtain ⟨hkey, hadmitted⟩ := hs.key _ n f hat
    exact ⟨f, hat, (key_injective hpair hadmitted hkey).symm, hheld⟩
  · rintro ⟨f, hat, -, hheld⟩
    exact ⟨f, hat, hheld⟩

theorem Inv.coalesced (hs : s.Inv) : s.Coalesced where
  one pair m n hm hn := by
    obtain ⟨f, hf, -, hfheld⟩ := hm
    obtain ⟨g, hg, -, hgheld⟩ := hn
    exact hs.sound.one hf hfheld hg hgheld
  running key n f hat hactual := by
    obtain ⟨rfl, -⟩ := hs.key key n f hat
    exact ⟨f, hat, rfl, hs.last _ n f hat (hs.order _ n f hat hactual)⟩
  entry pair n hpair := hs.entry_iff hpair
  own := hs.own
  forwarded := hs.forwarded

/-- One fetch goes on. -/
theorem Inv.move (hs : s.Inv) {entry : String → Option ℕ} (hat : s.inFlight.At n key f)
    (hsound : (⟨entry, (s.inFlight.move n g).flights⟩ : Flights String (Fetch α ε)).Sound Held)
    (hpair : g.pair = f.pair) (horder : g.actual = none → g.wrapper = none)
    (hlast : g.wrapper = none → g.removed = false)
    (hforwarded : ∀ o, g.wrapper = some o → g.actual = some o) :
    Inv { s with inFlight := ⟨entry, (s.inFlight.move n g).flights⟩ } := by
  -- what holds of the fetch that goes on, and of every other, holds of all
  have hall : ∀ φ : String → Fetch α ε → Prop, φ key g →
      (∀ key' n' f', s.inFlight.At n' key' f' → φ key' f') →
      ∀ key' n' f', (s.inFlight.move n g).At n' key' f' → φ key' f' := by
    intro φ hg hother key' n' f' h
    by_cases hn : n = n'
    · subst hn
      have hmoved := Flights.at_move.mp h
      rw [if_pos rfl] at hmoved
      obtain ⟨rfl, f'', hat''⟩ := hmoved
      rwa [← (hat.phase_unique hat'').1]
    · exact hother key' n' f' ((Flights.at_move_of_ne hn).mp h)
  refine ⟨hsound, ?_, ?_, ?_, ?_, ?_⟩
  · exact hall (fun key f => key = f.pair.key ∧ Admitted f.pair)
      (by rw [hpair]; exact hs.key key n f hat) hs.key
  · exact hall (fun _ f => f.actual = none → f.wrapper = none) horder hs.order
  · exact hall (fun _ f => f.wrapper = none → f.removed = false) hlast hs.last
  · intro pair n' h
    obtain ⟨f', hat', rfl⟩ := hs.own pair n' h
    by_cases hn : n = n'
    · subst hn
      obtain ⟨-, rfl⟩ := hat.phase_unique hat'
      exact ⟨g, Flights.at_move_self hat', hpair⟩
    · exact ⟨f', (Flights.at_move_of_ne hn).mpr hat', rfl⟩
  · exact fun key' n' f' o h => hall (fun _ f => ∀ o, f.wrapper = some o → f.actual = some o)
      hforwarded (fun key n f h o => hs.forwarded key n f o h) key' n' f' h o

theorem Inv.call (hs : s.Inv) {pair : Pair} (hpair : Admitted pair) :
    (s.fetchFreshPrice pair).Inv := by
  unfold fetchFreshPrice
  split
  · rename_i n hn
    refine ⟨hs.sound, hs.key, hs.order, hs.last, fun pair' n' h => ?_, hs.forwarded⟩
    rcases List.mem_append.mp h with h | h
    · exact hs.own pair' n' h
    · obtain ⟨rfl, rfl⟩ : pair' = pair ∧ n' = n := by simpa using h
      obtain ⟨f, hat, hown, -⟩ := (hs.entry_iff hpair).mp hn
      exact ⟨f, hat, hown⟩
  · rename_i hnone
    refine ⟨hs.sound.launch rfl hnone, ?_, ?_, ?_, ?_, ?_⟩
    · intro key' n' f' h
      rcases Flights.at_begin.mp h with h | ⟨-, rfl, rfl⟩
      · exact hs.key key' n' f' h
      · exact ⟨rfl, hpair⟩
    · intro key' n' f' h
      rcases Flights.at_begin.mp h with h | ⟨-, -, rfl⟩
      · exact hs.order key' n' f' h
      · exact fun _ => rfl
    · intro key' n' f' h
      rcases Flights.at_begin.mp h with h | ⟨-, -, rfl⟩
      · exact hs.last key' n' f' h
      · exact fun _ => rfl
    · intro pair' n' h
      rcases List.mem_append.mp h with h | h
      · obtain ⟨f, hat, hown⟩ := hs.own pair' n' h
        exact ⟨f, Flights.at_begin.mpr (.inl hat), hown⟩
      · obtain ⟨rfl, rfl⟩ : pair' = pair ∧ n' = s.inFlight.flights.length := by simpa using h
        exact ⟨_, Flights.at_begin.mpr (.inr ⟨rfl, rfl, rfl⟩), rfl⟩
    · intro key' n' f' o h
      rcases Flights.at_begin.mp h with h | ⟨-, -, rfl⟩
      · exact hs.forwarded key' n' f' o h
      · intro hwrapper
        cases hwrapper

/-- **One step** keeps the invariant. -/
theorem Inv.step (hs : s.Inv) (l : Label α ε) : (s.step l).Inv := by
  cases l with
  | call r => exact hs.call ⟨r, rfl⟩
  | settles n o =>
    simp only [Process.step]
    split
    · rename_i key pair wrapper removed h
      have hat : s.inFlight.At n key ⟨pair, none, wrapper, removed⟩ := h
      obtain rfl := hs.order key n _ hat rfl
      have hlast := hs.last key n _ hat rfl
      refine hs.move hat (hs.sound.move hat Iff.rfl) rfl (fun hnone => ?_) (fun _ => hlast)
        fun o' h' => ?_
      · cases hnone
      · cases h'
    · exact hs
  | forwards n =>
    simp only [Process.step]
    split
    · rename_i key pair o removed h
      have hat : s.inFlight.At n key ⟨pair, some o, none, removed⟩ := h
      refine hs.move hat (hs.sound.move hat Iff.rfl) rfl (fun hnone => ?_) (fun hnone => ?_) fun _ => id
      · cases hnone
      · cases hnone
    · exact hs
  | removes n =>
    simp only [Process.step]
    split
    · rename_i key pair actual o h
      have hat : s.inFlight.At n key ⟨pair, actual, some o, false⟩ := h
      have horder := hs.order key n _ hat
      have hforwarded := fun o' => hs.forwarded key n _ o' hat
      refine hs.move hat (hs.sound.leave hat rfl (fun hheld => ?_)) rfl horder (fun hnone => ?_)
        hforwarded
      · cases hheld
      · cases hnone
    · exact hs

/-- What a step does under the invariant. -/
theorem Inv.law (hs : s.Inv) (l : Label α ε) : s.Law l := by
  cases l with
  | call r =>
    have hpair : Admitted r.pair := ⟨r, rfl⟩
    constructor
    · intro n hn
      have hentry := (hs.entry_iff hpair).mpr hn
      simp [Process.step, fetchFreshPrice, hentry]
    · intro hnone
      have hentry : s.inFlight.entry r.pair.key = none := by
        refine Option.eq_none_iff_forall_ne_some.mpr fun n hn => ?_
        exact hnone n ((hs.entry_iff hpair).mp hn)
      simp [Process.step, fetchFreshPrice, hentry, Flights.begin, Flights.enter]
  | settles n o =>
    simp only [Law, Process.step]
    split <;> rfl
  | forwards n =>
    simp only [Law, Process.step]
    split <;> rfl
  | removes n =>
    simp only [Law, Process.step]
    split
    · rename_i key pair actual o h
      have hat : s.inFlight.At n key ⟨pair, actual, some o, false⟩ := h
      obtain ⟨rfl, hadmitted⟩ := hs.key key n _ hat
      have hentered : s.Entered pair n := ⟨_, hat, rfl, rfl⟩
      refine .inr ⟨pair, hentered, (hs.entry_iff hadmitted).mpr hentered, ?_, rfl⟩
      rintro ⟨f, hmoved, -, hheld⟩
      have hmoved : (s.inFlight.move n ⟨pair, actual, some o, true⟩).At n pair.key f := hmoved
      rw [Flights.at_move, if_pos rfl] at hmoved
      rw [hmoved.1] at hheld
      cases hheld
    · exact .inl rfl

end Inv

/-! ## 5. Every interleaving -/

/-- A fetch that has not settled, once it settles and its callbacks have run: its wrapper has its outcome,
and its entry is gone. -/
def Completes (n : ℕ) : Prop :=
  ∀ key f o, s.inFlight.At n key f → f.actual = none →
    let s' := run step s [.settles n o, .forwards n, .removes n]
    s'.inFlight.At n key { f with actual := some o, wrapper := some o, removed := true } ∧
      s'.inFlight.entry key = none

variable {s} in
theorem Inv.completes (hs : s.Inv) (n : ℕ) : s.Completes n := by
  intro key f o hat hactual
  obtain ⟨pair, actual, wrapper, removed⟩ := f
  obtain rfl : actual = none := hactual
  obtain rfl : wrapper = none := hs.order key n _ hat rfl
  obtain rfl : removed = false := hs.last key n _ hat rfl
  have hget : s.inFlight.flights[n]? = some (key, ⟨pair, none, none, false⟩) := hat
  simp [run, Process.step, hget, Flights.move, Flights.leave, Flights.At]

/-- **Single flight** of price fetches, in every run: in every state at most one fetch of a pair is in
flight, every call joins it or starts one and is given its outcome, and the entry of a fetch is deleted
by its own second callback and by nothing else. -/
theorem single_fetch (ls : List (Label α ε)) :
    (∀ l₁ l₂, ls = l₁ ++ l₂ → (run step (init : Process α ε) l₁).Coalesced ∧
      ∀ n, (run step (init : Process α ε) l₁).Completes n) ∧
      Along step Law (init : Process α ε) ls := by
  constructor
  · intro l₁ l₂ _
    have hinv : (run step (init : Process α ε) l₁).Inv :=
      run_inv_of_step (fun _ l hs => hs.step l) inv_init
    exact ⟨hinv.coalesced, hinv.completes⟩
  · exact Along.of_inv (I := Inv) (φ := fun _ _ => True)
      (fun _ l hs _ => ⟨hs.step l, hs.law l⟩) inv_init (Along.of_forall (fun _ _ => trivial) _ _)

end Process

end SmartDrop.Prices.InFlight
