/-
# One key, one success

Between the lookup of a key and the write of its record a request runs the handler, and nothing
tells another request of it.  A second lookup in that time finds nothing either, and the handler
succeeds twice (`handled_twice`).  It succeeds at most once, and every client that gets a success
gets the same one, in every run in which no lookup falls into such a time (`handled_once`).
-/
import SmartDrop.Idempotency.Middleware
import Mathlib.Data.Fintype.Basic

namespace SmartDrop.Idempotency

open Conc JsonText Redis

variable {τ : Type} [DecidableEq τ]

/-! ## 1. Requests in flight -/

/-- Request `i` has found nothing, its handler has not failed, and its record is not written. -/
def InFlight (s : Store τ) (i : τ) : Prop :=
  s.missed i = true ∧ s.stored i = false ∧ (s.made i).all Reply.isSuccess = true

instance (s : Store τ) (i : τ) : Decidable (InFlight s i) :=
  inferInstanceAs (Decidable (_ ∧ _ ∧ _))

/-- The handler of request `i` has succeeded with the reply `r`. -/
def Succeeded (s : Store τ) (i : τ) (r : Reply) : Prop := s.made i = some r ∧ r.isSuccess = true

/-- Redis is available, and a record that is looked up has not run out. -/
def Available (op : Op) (x : Input) (s : Store τ) : Prop :=
  x.fails = false ∧ match op with
    | .get key => ∀ e ∈ s.records key, e.LiveAt x.time
    | _ => True

/-- A lookup that finds nothing comes when no request is in flight. -/
def Alone (op : Op) (_ : Input) (s : Store τ) : Prop :=
  match op with
  | .get key => s.records key = none → ∀ j, ¬ InFlight s j
  | _ => True

instance (op : Op) (x : Input) (s : Store τ) : Decidable (Available op x s) := by
  cases op <;> unfold Available <;> infer_instance

instance [Fintype τ] (op : Op) (x : Input) (s : Store τ) : Decidable (Alone op x s) := by
  cases op <;> unfold Alone <;> infer_instance

/-- What holds between any two steps, for requests with one key. -/
structure Inv (path : String) (s : Store τ) : Prop where
  one : ∀ i j, InFlight s i → InFlight s j → i = j
  busy : ∀ i, InFlight s i → s.records path = none
  unstored : s.records path = none → ∀ i r, Succeeded s i r → InFlight s i
  author : ∀ e, s.records path = some e → Succeeded s e.value.author e.value.record.reply
  only : ∀ e, s.records path = some e → ∀ i r, Succeeded s i r → i = e.value.author
  sent : ∀ i r, s.sent i = some r → r.isSuccess = true → ∃ j, Succeeded s j r

/-- Nothing has become of request `i`. -/
def Own (i : τ) (s s' : Store τ) : Prop :=
  s'.missed i = s.missed i ∧ s'.stored i = s.stored i ∧ s'.made i = s.made i

/-- What has succeeded stays. -/
def Keeps (s s' : Store τ) : Prop := ∀ i r, Succeeded s i r → Succeeded s' i r

/-- The contract of request `i`. -/
def once (path : String) (i : τ) : Contract sig Input (Store τ) where
  ok op x s := Available op x s ∧ Alone op x s
  rely s s' := Inv path s' ∧ Own i s s' ∧ Keeps s s'
  guar s s' := Inv path s' ∧ (∀ j ≠ i, Own j s s') ∧ Keeps s s'

variable {path : String} {i : τ} {s s' : Store τ}

omit [DecidableEq τ] in
theorem Inv.init : Inv path (Store.init : Store τ) where
  one _ _ h := by cases h.1
  busy _ h := by cases h.1
  unstored _ _ _ h := by cases h.1
  author _ h := by cases h
  only _ h := by cases h
  sent _ _ h := by cases h

omit [DecidableEq τ] in
/-- At most one handler has succeeded. -/
theorem Inv.unique (h : Inv path s) {i j : τ} {r r' : Reply} (hi : Succeeded s i r)
    (hj : Succeeded s j r') : i = j := by
  cases hr : s.records path with
  | none => exact h.one i j (h.unstored hr i r hi) (h.unstored hr j r' hj)
  | some e => exact (h.only e hr i r hi).trans (h.only e hr j r' hj).symm

/-! ## 2. The steps of a request -/

/-- Request `i` has looked its key up and found nothing, and its handler has answered `made`. -/
structure Going (path : String) (i : τ) (made : Option Reply) (s : Store τ) : Prop where
  inv : Inv path s
  missed : s.missed i = true
  stored : s.stored i = false
  made : s.made i = made

omit [DecidableEq τ] in
theorem Going.rely {made : Option Reply} (h : Going path i made s)
    (hr : Inv path s' ∧ Own i s s' ∧ Keeps s s') : Going path i made s' where
  inv := hr.1
  missed := hr.2.1.1.trans h.missed
  stored := hr.2.1.2.1.trans h.stored
  made := hr.2.1.2.2.trans h.made

omit [DecidableEq τ] in
theorem Going.inFlight {made : Option Reply} (h : Going path i made s)
    (hm : made.all Reply.isSuccess = true) : InFlight s i :=
  ⟨h.missed, h.stored, by rw [h.made]; exact hm⟩

omit [DecidableEq τ] in
theorem keeps_refl (s : Store τ) : Keeps s s := fun _ _ h => h

/-- The lookup finds nothing. -/
theorem going_of_miss (h : Inv path s) (hmade : s.made i = none) (hstored : s.stored i = false)
    (hrec : s.records path = none) (hfree : ∀ j, ¬ InFlight s j) :
    Going path i none { s with missed := Function.update s.missed i true } := by
  have hother : ∀ j, j ≠ i →
      (InFlight { s with missed := Function.update s.missed i true } j ↔ InFlight s j) := by
    intro j hj
    simp [InFlight, hj]
  have honly : ∀ j, InFlight { s with missed := Function.update s.missed i true } j → j = i := by
    intro j hj
    by_contra hne
    exact hfree j ((hother j hne).mp hj)
  refine ⟨⟨?_, ?_, ?_, ?_, ?_, ?_⟩, ?_, hstored, hmade⟩
  · intro j k hj hk
    exact (honly j hj).trans (honly k hk).symm
  · intro j _
    exact hrec
  · intro _ j r hj
    exact absurd (h.unstored hrec j r hj) (hfree j)
  · intro e he
    exact absurd (he.symm.trans hrec) (by simp)
  · intro e he
    exact absurd (he.symm.trans hrec) (by simp)
  · exact h.sent
  · simp

/-- The handler answers. -/
theorem going_of_next (h : Going path i none s) (r : Reply) :
    Going path i (some r) { s with made := Function.update s.made i (some r) } ∧
      Keeps s { s with made := Function.update s.made i (some r) } := by
  have hfly : InFlight s i := h.inFlight rfl
  have hrec : s.records path = none := h.inv.busy i hfly
  have hother : ∀ j, j ≠ i → ∀ r',
      (Succeeded { s with made := Function.update s.made i (some r) } j r' ↔ Succeeded s j r') := by
    intro j hj r'
    simp [Succeeded, hj]
  have hback : ∀ j, InFlight { s with made := Function.update s.made i (some r) } j →
      InFlight s j := by
    intro j hj
    by_cases heq : j = i
    · subst heq
      exact hfly
    · simpa [InFlight, heq] using hj
  have hkeeps : Keeps s { s with made := Function.update s.made i (some r) } := by
    intro j r' hj
    by_cases heq : j = i
    · subst heq
      exact absurd (hj.1.symm.trans h.made) (by simp)
    · exact (hother j heq r').mpr hj
  refine ⟨⟨⟨?_, ?_, ?_, ?_, ?_, ?_⟩, h.missed, h.stored, by simp⟩, hkeeps⟩
  · intro j k hj hk
    exact h.inv.one j k (hback j hj) (hback k hk)
  · intro j _
    exact hrec
  · intro _ j r' hj
    by_cases heq : j = i
    · subst heq
      obtain ⟨hmade, hsuccess⟩ := hj
      exact ⟨h.missed, h.stored, by rw [hmade]; exact hsuccess⟩
    · have hfly' := h.inv.unstored hrec j r' ((hother j heq r').mp hj)
      simpa [InFlight, heq] using hfly'
  · intro e he
    exact absurd (he.symm.trans hrec) (by simp)
  · intro e he
    exact absurd (he.symm.trans hrec) (by simp)
  · intro j r' hsent hsuccess
    obtain ⟨k, hk⟩ := h.inv.sent j r' hsent hsuccess
    exact ⟨k, hkeeps k r' hk⟩

/-- A reply that some handler has made is sent. -/
theorem inv_of_json (h : Inv path s) {r : Reply}
    (hr : r.isSuccess = true → ∃ j, Succeeded s j r) :
    Inv path { s with sent := Function.update s.sent i (some r) } := by
  refine ⟨h.one, h.busy, h.unstored, h.author, h.only, fun j r' hsent hsuccess => ?_⟩
  by_cases heq : j = i
  · subst heq
    obtain rfl : r = r' := by simpa using hsent
    exact hr hsuccess
  · exact h.sent j r' (by simpa [heq] using hsent) hsuccess

/-- The record is written. -/
theorem inv_of_setex {r : Reply} (h : Going path i (some r) s) (hr : r.isSuccess = true)
    (timestamp : String) (expiresAt : Option ℕ) :
    Inv path { s with
      records := Function.update s.records path
        (some ⟨⟨i, ⟨r.statusCode, r.body, timestamp⟩⟩, expiresAt⟩)
      stored := Function.update s.stored i true } := by
  have hfly : InFlight s i := h.inFlight hr
  have hrec : s.records path = none := h.inv.busy i hfly
  have hsucc : Succeeded s i r := ⟨h.made, hr⟩
  have hnone : ∀ j, ¬ InFlight { s with
      records := Function.update s.records path
        (some ⟨⟨i, ⟨r.statusCode, r.body, timestamp⟩⟩, expiresAt⟩)
      stored := Function.update s.stored i true } j := by
    intro j hj
    by_cases heq : j = i
    · subst heq
      simp [InFlight] at hj
    · exact heq (h.inv.one j i (by simpa [InFlight, heq] using hj) hfly)
  refine ⟨fun j _ hj => absurd hj (hnone j), fun j hj => absurd hj (hnone j), ?_, ?_, ?_,
    h.inv.sent⟩
  · intro hempty
    simp at hempty
  · intro e he
    obtain rfl : _ = e := by simpa using he
    exact hsucc
  · intro e he j r' hj
    obtain rfl : _ = e := by simpa using he
    exact h.inv.unique hj hsucc

/-! ## 3. The code of a request -/

/-- A piece of the code of request `i` under its contract. -/
def Holds (path : String) (i : τ) {α : Type} (code : Code α) (A : Store τ → Prop)
    (Q : α → Store τ → Prop) : Prop :=
  Sat (machine τ) i (once path i) code A Q

variable {toISOString : ℕ → String} {key : String}

/-- What a request knows after its lookup. -/
def Looked (path : String) (i : τ) : Except Err (Option Record) → Store τ → Prop
  | .ok (some record), s => Inv path s ∧
      (record.reply.isSuccess = true → ∃ j, Succeeded s j record.reply)
  | _, s => Going path i none s

theorem holds_get (key : String) :
    Holds (IDEMPOTENCY_KEY_PREFIX ++ key) i (step (.get (IDEMPOTENCY_KEY_PREFIX ++ key)))
      (fun s => Inv (IDEMPOTENCY_KEY_PREFIX ++ key) s ∧ s.made i = none ∧ s.stored i = false)
      (Looked (IDEMPOTENCY_KEY_PREFIX ++ key) i) := by
  generalize IDEMPOTENCY_KEY_PREFIX ++ key = path
  refine Sat.call ?_ ?_
  · rintro (e | _ | record) s s' hs hr
    · exact Going.rely hs hr
    · exact Going.rely hs hr
    · refine ⟨hr.1, fun hsuccess => ?_⟩
      obtain ⟨j, hj⟩ := hs.2 hsuccess
      exact ⟨j, hr.2.2 j _ hj⟩
  · rintro x s ⟨hinv, hmade, hstored⟩ ⟨⟨hup, hlive⟩, halone⟩
    cases hrec : s.records path with
    | none =>
      have hexec : (machine τ).exec i (.get path) x s = (.ok none, { s with
          missed := Function.update s.missed i true }) := by
        simp [machine, Store.exec, hup, hrec, Timed.readAt]
      rw [hexec]
      have hgoing := going_of_miss hinv hmade hstored hrec (halone hrec)
      refine ⟨⟨hgoing.inv, fun j hj => ⟨?_, rfl, rfl⟩, fun _ _ h => h⟩, hgoing⟩
      simp [hj]
    | some e =>
      have hread : Timed.readAt x.time (some e) = some e.value :=
        Timed.readAt_eq_some.mpr ⟨e, rfl, hlive e hrec, rfl⟩
      have hexec : (machine τ).exec i (.get path) x s = (.ok (some e.value.record), s) := by
        simp only [machine, Store.exec, hup, hrec, hread]
        rfl
      rw [hexec]
      refine ⟨⟨hinv, fun j _ => ⟨rfl, rfl, rfl⟩, keeps_refl s⟩, hinv, fun _ => ?_⟩
      exact ⟨e.value.author, hinv.author e hrec⟩

/-- The reply is sent. -/
theorem holds_json {A : Store τ → Prop} (hst : Stable (once path i).rely A)
    (hframe : ∀ s f, A s → Inv path { s with sent := f } → A { s with sent := f }) (r : Reply)
    (hA : ∀ s, A s → Inv path s ∧ (r.isSuccess = true → ∃ j, Succeeded s j r)) :
    Holds path i (step (.json r)) A fun _ => A := by
  refine Sat.call (fun _ => hst) fun x s hs _ => ?_
  obtain ⟨hinv, hr⟩ := hA s hs
  have hinv' := inv_of_json (i := i) hinv hr
  exact ⟨⟨hinv', fun _ _ => ⟨rfl, rfl, rfl⟩, fun _ _ h => h⟩, hframe s _ hs hinv'⟩

omit [DecidableEq τ] in
theorem stable_going (made : Option Reply) :
    Stable (once path i).rely (Going path i made) := fun _ _ h hr => h.rely hr

omit [DecidableEq τ] in
theorem stable_inv : Stable (once path i).rely (Inv path) := fun _ _ _ hr => hr.1

omit [DecidableEq τ] in
theorem inv_of_guar : Stable (once path i).guar (Inv path) := fun _ _ _ hg => hg.1

omit [DecidableEq τ] in
theorem Going.withSent {made : Option Reply} (h : Going path i made s) {f : τ → Option Reply}
    (hinv : Inv path { s with sent := f }) : Going path i made { s with sent := f } :=
  ⟨hinv, h.missed, h.stored, h.made⟩

omit [DecidableEq τ] in
theorem Going.succeeded {r : Reply} (h : Going path i (some r) s) (hr : r.isSuccess = true) :
    ∃ j, Succeeded s j r := ⟨i, h.made, hr⟩

/-- The clock is read. -/
theorem holds_now {A : Store τ → Prop} (hst : Stable (once path i).rely A)
    (hA : ∀ s, A s → Inv path s) : Holds path i (step .now) A fun _ => A :=
  Sat.call (fun _ => hst) fun _ s hs _ =>
    ⟨⟨hA s hs, fun _ _ => ⟨rfl, rfl, rfl⟩, keeps_refl s⟩, hs⟩

/-- The handler answers. -/
theorem holds_next (resourceType : ResourceType) :
    Holds path i (step (.next resourceType)) (Going path i none) fun r =>
      Going path i (some r) := by
  refine Sat.call (fun r => stable_going (some r)) fun x s hs _ => ?_
  obtain ⟨hgoing, hkeeps⟩ := going_of_next hs x.reply
  refine ⟨⟨hgoing.inv, fun j hj => ⟨rfl, rfl, ?_⟩, hkeeps⟩, hgoing⟩
  simp [machine, Store.exec, hj]

/-- The record is written. -/
theorem holds_setex {r : Reply} (hr : r.isSuccess = true) (timestamp : String) :
    Holds path i
      (step (.setex path IDEMPOTENCY_TTL_SECONDS ⟨r.statusCode, r.body, timestamp⟩))
      (Going path i (some r)) fun _ => Inv path := by
  refine Sat.call (fun _ => stable_inv) fun x s hs hok => ?_
  have hexec : (machine τ).exec i (.setex path IDEMPOTENCY_TTL_SECONDS
      ⟨r.statusCode, r.body, timestamp⟩) x s = (.ok (), { s with
        records := Function.update s.records path (some ⟨⟨i, ⟨r.statusCode, r.body, timestamp⟩⟩,
          some (x.time + IDEMPOTENCY_TTL_SECONDS * 1000)⟩)
        stored := Function.update s.stored i true }) := by
    simp [machine, Store.exec, hok.1.1]
  rw [hexec]
  have hinv := inv_of_setex hs hr timestamp (some (x.time + IDEMPOTENCY_TTL_SECONDS * 1000))
  refine ⟨⟨hinv, fun j hj => ⟨rfl, ?_, rfl⟩, fun _ _ h => h⟩, hinv⟩
  simp [hj]

/-- The reply of a handler is sent. -/
theorem holds_json_made (r : Reply) : Holds path i (step (.json r)) (Going path i (some r))
    fun _ => Going path i (some r) :=
  holds_json (stable_going _) (fun _ _ h hinv => h.withSent hinv) r
    fun _ h => ⟨h.inv, h.succeeded⟩

/-- **The handler** answers, the reply is sent, and a success is stored. -/
theorem holds_handle (resourceType : ResourceType) (hkey : key ≠ "") :
    Holds (IDEMPOTENCY_KEY_PREFIX ++ key) i (handle toISOString resourceType key)
      (Going (IDEMPOTENCY_KEY_PREFIX ++ key) i none)
      fun _ => Inv (IDEMPOTENCY_KEY_PREFIX ++ key) := by
  refine Sat.bind (holds_next resourceType) fun r => ?_
  have hrest : ∀ pending : Code Unit, Holds (IDEMPOTENCY_KEY_PREFIX ++ key) i pending
      (Going (IDEMPOTENCY_KEY_PREFIX ++ key) i (some r))
      (fun _ => Inv (IDEMPOTENCY_KEY_PREFIX ++ key)) →
      Holds (IDEMPOTENCY_KEY_PREFIX ++ key) i (do step (.json r); pending)
        (Going (IDEMPOTENCY_KEY_PREFIX ++ key) i (some r))
        (fun _ => Inv (IDEMPOTENCY_KEY_PREFIX ++ key)) :=
    fun _ h => Sat.bind (holds_json_made r) fun _ => h
  unfold resJson
  dsimp only
  split
  · rename_i hsuccess
    have hr : r.isSuccess = true := by
      simp only [Bool.and_eq_true] at hsuccess
      exact hsuccess.2
    unfold storeIdempotencyResponse
    rw [if_neg hkey]
    refine Sat.bind (Q := fun pending s => Holds (IDEMPOTENCY_KEY_PREFIX ++ key) i pending
      (Going (IDEMPOTENCY_KEY_PREFIX ++ key) i (some r))
      (fun _ => Inv (IDEMPOTENCY_KEY_PREFIX ++ key)) ∧
      Going (IDEMPOTENCY_KEY_PREFIX ++ key) i (some r) s) ?_ fun pending => Sat.assume (hrest _)
    refine Sat.bind (holds_now (stable_going _) fun _ h => h.inv) fun timestamp => ?_
    exact fun s hs => ⟨Sat.bind (holds_setex hr _) fun _ => fun _ h => h, hs⟩
  · exact hrest _ fun _ h => h.inv

/-- **A request** under its contract. -/
theorem holds_idempotencyMiddleware {req : Request} (hreq : req.idempotencyKey = some key)
    (hkey : key ≠ "") :
    Holds (IDEMPOTENCY_KEY_PREFIX ++ key) i (idempotencyMiddleware toISOString req)
      (fun s => Inv (IDEMPOTENCY_KEY_PREFIX ++ key) s ∧ s.made i = none ∧ s.stored i = false)
      fun _ => Inv (IDEMPOTENCY_KEY_PREFIX ++ key) := by
  unfold idempotencyMiddleware
  rw [hreq]
  simp only [Option.getD_some]
  rw [if_neg hkey]
  refine Sat.bind (Q := fun cached => Looked (IDEMPOTENCY_KEY_PREFIX ++ key) i (.ok cached)) ?_ ?_
  · unfold getIdempotencyResponse
    rw [if_neg hkey]
    refine Sat.bind (holds_get key) ?_
    rintro (e | _ | record) s hs <;> exact hs
  · rintro (_ | record)
    · exact holds_handle _ hkey
    · refine (holds_json ?_ ?_ record.reply fun _ h => h).mono (fun _ h => h) fun _ _ h => h.1
      · rintro s s' ⟨_, hr⟩ ⟨hinv, -, hkeeps⟩
        refine ⟨hinv, fun hsuccess => ?_⟩
        obtain ⟨j, hj⟩ := hr hsuccess
        exact ⟨j, hkeeps j _ hj⟩
      · exact fun _ _ h hinv => ⟨hinv, h.2⟩

/-! ## 4. Every interleaving -/

/-- **At most one success.**  Any requests with one key run in any interleaving while Redis is
available and within the life of a record, and no lookup that finds nothing comes while another
request is in flight.  Then at most one handler succeeds, and all clients that get a success get
the same one. -/
theorem handled_once (toISOString : ℕ → String) (requests : τ → Request) (key : String)
    (hkey : key ≠ "") (hreq : ∀ i, (requests i).idempotencyKey = some key)
    (ls : List (τ × Input))
    (hls : Along (Pool.step (machine τ)) (Pool.Issues fun op x s => Available op x s ∧ Alone op x s)
      (begin toISOString requests) ls) :
    (∀ i j r r', Succeeded (run (Pool.step (machine τ)) (begin toISOString requests) ls).store i r →
      Succeeded (run (Pool.step (machine τ)) (begin toISOString requests) ls).store j r' → i = j) ∧
    (∀ i j r r',
      (run (Pool.step (machine τ)) (begin toISOString requests) ls).store.sent i = some r →
      (run (Pool.step (machine τ)) (begin toISOString requests) ls).store.sent j = some r' →
      r.isSuccess = true → r'.isSuccess = true → r = r') := by
  have hsafe : (begin toISOString requests).Safe (machine τ) (once (IDEMPOTENCY_KEY_PREFIX ++ key))
      fun _ _ => Inv (IDEMPOTENCY_KEY_PREFIX ++ key) := by
    refine fun i => ⟨_, ?_, ⟨Inv.init, rfl, rfl⟩, holds_idempotencyMiddleware (hreq i) hkey⟩
    exact fun s s' h hr => ⟨hr.1, hr.2.1.2.2.trans h.2.1, hr.2.1.2.1.trans h.2.2⟩
  have hcompatible : Pool.Compatible (once (τ := τ) (IDEMPOTENCY_KEY_PREFIX ++ key)) :=
    fun i j hj s s' h => ⟨h.1, h.2.1 j hj, h.2.2⟩
  have hinv : Inv (IDEMPOTENCY_KEY_PREFIX ++ key)
      (run (Pool.step (machine τ)) (begin toISOString requests) ls).store :=
    hsafe.run_stable (fun _ => inv_of_guar) hcompatible Inv.init hls
  refine ⟨fun i j r r' hi hj => hinv.unique hi hj, fun i j r r' hi hj hr hr' => ?_⟩
  obtain ⟨k, hk⟩ := hinv.sent i r hi hr
  obtain ⟨k', hk'⟩ := hinv.sent j r' hj hr'
  obtain rfl := hinv.unique hk hk'
  exact Option.some.inj (hk.1.symm.trans hk'.1)

/-! ## 5. Two clients at once -/

/-- A client and its retry. -/
def sampleRequests : Fin 2 → Request := fun _ => ⟨"key_1", .airdrop, some "k"⟩

/-- A step at the time `1`; the handler creates the airdrop `id`. -/
def creates (id : String) : Input := ⟨1, false, ⟨201, .str id⟩⟩

/-- The run of the sample requests. -/
def sampleRun (ls : List (Fin 2 × Input)) : Requests (Fin 2) :=
  run (Pool.step (machine (Fin 2))) (begin (fun _ => "1") sampleRequests) ls

/-- Both look the key up before either handler runs. -/
theorem handled_twice :
    ¬ (∀ i j r r', Succeeded (sampleRun [(0, creates "a"), (1, creates "a"), (0, creates "a"),
        (1, creates "b")]).store i r →
      Succeeded (sampleRun [(0, creates "a"), (1, creates "a"), (0, creates "a"),
        (1, creates "b")]).store j r' → i = j) := by
  intro h
  exact absurd (h 0 1 _ _ ⟨rfl, rfl⟩ ⟨rfl, rfl⟩) (by decide)

/-- A retry that comes after the write gets the first reply. -/
theorem handled_once_sample :
    (sampleRun (List.replicate 5 (0, creates "a") ++ List.replicate 2 (1, creates "b"))).store.sent
      1 = some ⟨201, .str "a"⟩ := by
  have h := handled_once (fun _ => "1") sampleRequests "k" (by decide) (fun _ => rfl)
    (List.replicate 5 (0, creates "a") ++ List.replicate 2 (1, creates "b")) (by decide)
  exact congrArg some (h.2 1 0 _ _ rfl rfl rfl rfl)

end SmartDrop.Idempotency
