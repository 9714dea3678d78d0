/-
# Whose reply a client gets

The key of a record is made of the header alone, so a request can be answered with what another
caller, or another route, was answered (`reply_of_another_caller`).  As long as every lookup that
finds a record finds one of the same caller and route, each reply was made for that caller and
route, and what the requests of one of them ask, and are answered, makes no difference to any
other (`replies_isolated`).
-/
import SmartDrop.Idempotency.Middleware

namespace SmartDrop.Idempotency

open Conc JsonText Redis

variable {τ : Type} [DecidableEq τ]

/-! ## 1. Callers -/

/-- Two requests of one caller to one route. -/
def SameSource (r r' : Request) : Prop := r.caller = r'.caller ∧ r.resourceType = r'.resourceType

instance (r r' : Request) : Decidable (SameSource r r') := inferInstanceAs (Decidable (_ ∧ _))

theorem SameSource.trans {r₁ r₂ r₃ : Request} (h : SameSource r₁ r₂) (h' : SameSource r₂ r₃) :
    SameSource r₁ r₃ := ⟨h.1.trans h'.1, h.2.trans h'.2⟩

theorem SameSource.symm {r r' : Request} (h : SameSource r r') : SameSource r' r :=
  ⟨h.1.symm, h.2.symm⟩

/-- A lookup of request `i` that finds a record finds one of its own caller and route. -/
def FindsOwn (requests : τ → Request) (i : τ) (op : Op) (x : Input) (s : Store τ) : Prop :=
  match op with
  | .get key => ∀ e ∈ s.records key, e.LiveAt x.time →
      SameSource (requests e.value.author) (requests i)
  | _ => True

instance (requests : τ → Request) (i : τ) (op : Op) (x : Input) (s : Store τ) :
    Decidable (FindsOwn requests i op x s) :=
  match op with
  | .get key => inferInstanceAs (Decidable (∀ e ∈ s.records key, _))
  | .now | .setex .. | .next _ | .json _ => inferInstanceAs (Decidable True)

/-! ## 2. Where a reply comes from -/

/-- What is stored was made by its author's handler, and what was sent by one of the same caller
and route. -/
structure Sourced (requests : τ → Request) (s : Store τ) : Prop where
  stored : ∀ key e, s.records key = some e → s.made e.value.author = some e.value.record.reply
  sent : ∀ j r, s.sent j = some r → ∃ i, SameSource (requests i) (requests j) ∧ s.made i = some r

/-- What was made stays. -/
def KeepsMade (s s' : Store τ) : Prop := ∀ i r, s.made i = some r → s'.made i = some r

/-- The contract of request `i`. -/
def sourced (requests : τ → Request) (i : τ) : Contract sig Input (Store τ) where
  ok := FindsOwn requests i
  rely s s' := Sourced requests s' ∧ s'.made i = s.made i ∧ KeepsMade s s'
  guar s s' := Sourced requests s' ∧ (∀ j ≠ i, s'.made j = s.made j) ∧ KeepsMade s s'

variable {requests : τ → Request} {i : τ} {s s' : Store τ} {toISOString : ℕ → String}

omit [DecidableEq τ] in
theorem Sourced.init : Sourced requests (Store.init : Store τ) where
  stored _ _ h := by cases h
  sent _ _ h := by cases h

/-- A piece of the code of request `i` under its contract. -/
def Sources (requests : τ → Request) (i : τ) {α : Type} (code : Code α) (A : Store τ → Prop)
    (Q : α → Store τ → Prop) : Prop :=
  Sat (machine τ) i (sourced requests i) code A Q

/-- The handler of request `i` has made `made`. -/
def Made (requests : τ → Request) (i : τ) (made : Option Reply) (s : Store τ) : Prop :=
  Sourced requests s ∧ s.made i = made

omit [DecidableEq τ] in
theorem stable_made (made : Option Reply) :
    Stable (sourced requests i).rely (Made requests i made) :=
  fun _ _ h hr => ⟨hr.1, hr.2.1.trans h.2⟩

omit [DecidableEq τ] in
theorem stable_sourced : Stable (sourced requests i).rely (Sourced requests) :=
  fun _ _ _ hr => hr.1

omit [DecidableEq τ] in
theorem sourced_of_guar : Stable (sourced requests i).guar (Sourced requests) :=
  fun _ _ _ hg => hg.1

omit [DecidableEq τ] in
/-- A step that changes neither what is stored nor what was made or sent. -/
theorem Sourced.of_same (h : Sourced requests s) (hrec : s'.records = s.records)
    (hsent : s'.sent = s.sent) (hmade : s'.made = s.made) : Sourced requests s' where
  stored key e he := by rw [hmade]; exact h.stored key e (hrec ▸ he)
  sent j r hj := by rw [hmade]; exact h.sent j r (hsent ▸ hj)

/-- A reply of the same source is sent. -/
theorem Sourced.json (h : Sourced requests s) {r : Reply}
    (hr : ∃ j, SameSource (requests j) (requests i) ∧ s.made j = some r) :
    Sourced requests { s with sent := Function.update s.sent i (some r) } where
  stored := h.stored
  sent j r' hj := by
    by_cases heq : j = i
    · subst heq
      obtain rfl : r = r' := by simpa using hj
      exact hr
    · exact h.sent j r' (by simpa [heq] using hj)

/-- The handler answers for the first time. -/
theorem Sourced.next (h : Made requests i none s) (r : Reply) :
    Sourced requests { s with made := Function.update s.made i (some r) } ∧
      KeepsMade s { s with made := Function.update s.made i (some r) } := by
  have hkeeps : KeepsMade s { s with made := Function.update s.made i (some r) } := by
    intro j r' hj
    by_cases heq : j = i
    · subst heq
      exact absurd (hj.symm.trans h.2) (by simp)
    · simpa [heq] using hj
  refine ⟨⟨fun key e he => hkeeps _ _ (h.1.stored key e he), fun j r' hj => ?_⟩, hkeeps⟩
  obtain ⟨k, hsource, hmade⟩ := h.1.sent j r' hj
  exact ⟨k, hsource, hkeeps k r' hmade⟩

/-- The record is written. -/
theorem Sourced.setex {r : Reply} (h : Made requests i (some r) s) (key timestamp : String)
    (expiresAt : Option ℕ) : Sourced requests { s with
      records := Function.update s.records key
        (some ⟨⟨i, ⟨r.statusCode, r.body, timestamp⟩⟩, expiresAt⟩)
      stored := Function.update s.stored i true } where
  stored key' e he := by
    by_cases heq : key' = key
    · subst heq
      obtain rfl : _ = e := by simpa using he
      exact h.2
    · exact h.1.stored key' e (by simpa [heq] using he)
  sent := h.1.sent

theorem sources_json (A : Store τ → Prop) (hst : Stable (sourced requests i).rely A) (r : Reply)
    (hA : ∀ s, A s → Sourced requests s ∧
      ∃ j, SameSource (requests j) (requests i) ∧ s.made j = some r)
    (hframe : ∀ s f, A s → Sourced requests { s with sent := f } → A { s with sent := f }) :
    Sources requests i (step (.json r)) A fun _ => A := by
  refine Sat.call (fun _ => hst) fun x s hs _ => ?_
  obtain ⟨hsourced, hr⟩ := hA s hs
  have hsourced' := hsourced.json hr
  exact ⟨⟨hsourced', fun _ _ => rfl, fun _ _ h => h⟩, hframe s _ hs hsourced'⟩

/-- **The handler**, its reply and its record. -/
theorem sources_handle (resourceType : ResourceType) (key : String) :
    Sources requests i (handle toISOString resourceType key) (Made requests i none)
      fun _ => Sourced requests := by
  have hnext : Sources requests i (step (.next resourceType)) (Made requests i none) fun r =>
      Made requests i (some r) := by
    refine Sat.call (fun r => stable_made (some r)) fun x s hs _ => ?_
    obtain ⟨hsourced, hkeeps⟩ := Sourced.next hs x.reply
    refine ⟨⟨hsourced, fun j hj => ?_, hkeeps⟩, hsourced, ?_⟩
    · simp [machine, Store.exec, hj]
    · simp [machine, Store.exec]
  refine Sat.bind hnext fun r => ?_
  have hrest : ∀ pending : Code Unit, Sources requests i pending (Made requests i (some r))
      (fun _ => Sourced requests) → Sources requests i (do step (.json r); pending)
        (Made requests i (some r)) (fun _ => Sourced requests) := by
    intro pending h
    refine Sat.bind (sources_json _ (stable_made _) r (fun s hs => ⟨hs.1, i, ⟨rfl, rfl⟩, hs.2⟩)
      fun s f hs hsourced => ⟨hsourced, hs.2⟩) fun _ => h
  unfold resJson
  dsimp only
  split
  · refine Sat.bind (Q := fun pending s => Sources requests i pending (Made requests i (some r))
      (fun _ => Sourced requests) ∧ Made requests i (some r) s) ?_ fun pending =>
        Sat.assume (hrest _)
    unfold storeIdempotencyResponse
    split
    · exact fun s hs => ⟨fun _ h => h.1, hs⟩
    refine Sat.bind (Q := fun _ => Made requests i (some r)) ?_ fun timestamp => ?_
    · exact Sat.call (fun _ => stable_made _) fun x s hs _ =>
        ⟨⟨hs.1, fun _ _ => rfl, fun _ _ h => h⟩, hs⟩
    refine fun s hs => ⟨Sat.bind (Q := fun _ => Sourced requests) ?_ fun _ => fun _ h => h, hs⟩
    refine Sat.call (fun _ => stable_sourced) fun x s hs _ => ?_
    cases hfails : x.fails with
    | true =>
      simp only [machine, Store.exec, hfails, if_true]
      exact ⟨⟨hs.1, fun _ _ => rfl, fun _ _ h => h⟩, hs.1⟩
    | false =>
      simp only [machine, Store.exec, hfails, Bool.false_eq_true, if_false]
      have hsourced := Sourced.setex hs (IDEMPOTENCY_KEY_PREFIX ++ key) (toISOString timestamp)
        (some (x.time + IDEMPOTENCY_TTL_SECONDS * 1000))
      exact ⟨⟨hsourced, fun _ _ => rfl, fun _ _ h => h⟩, hsourced⟩
  · exact hrest _ fun _ h => h.1

variable (requests i) in
/-- What a lookup has found was made for the caller and route; without it the request goes on. -/
def Found : Except Err (Option Record) → Store τ → Prop
  | .ok (some record), s => Sourced requests s ∧
      ∃ j, SameSource (requests j) (requests i) ∧ s.made j = some record.reply
  | _, s => Made requests i none s

/-- **A request** under its contract. -/
theorem sources_idempotencyMiddleware (req : Request) :
    Sources requests i (idempotencyMiddleware toISOString req) (Made requests i none)
      fun _ => Sourced requests := by
  unfold idempotencyMiddleware
  dsimp only
  split
  · exact sources_handle _ _
  refine Sat.bind (Q := fun cached => Found requests i (.ok cached)) ?_ ?_
  · unfold getIdempotencyResponse
    split
    · exact fun s hs => hs
    refine Sat.bind (Q := Found requests i) ?_ ?_
    · refine Sat.call ?_ fun x s hs hok => ?_
      · rintro (e | _ | record) s s' hs hr
        · exact stable_made _ hs hr
        · exact stable_made _ hs hr
        · obtain ⟨-, j, hsource, hmade⟩ := hs
          exact ⟨hr.1, j, hsource, hr.2.2 j _ hmade⟩
      · have hmiss : ∀ f : τ → Bool, Made requests i none { s with missed := f } :=
          fun _ => ⟨hs.1.of_same rfl rfl rfl, hs.2⟩
        simp only [machine, Store.exec]
        split
        · exact ⟨⟨(hmiss _).1, fun _ _ => rfl, fun _ _ h => h⟩, hmiss _⟩
        split
        · exact ⟨⟨(hmiss _).1, fun _ _ => rfl, fun _ _ h => h⟩, hmiss _⟩
        · rename_i entry hread
          obtain ⟨e, hrec, hlive, rfl⟩ := Timed.readAt_eq_some.mp hread
          refine ⟨⟨hs.1, fun _ _ => rfl, fun _ _ h => h⟩, hs.1, e.value.author, ?_, ?_⟩
          · exact hok e hrec hlive
          · exact hs.1.stored _ e hrec
    · rintro (e | _ | record) s hs <;> exact hs
  · rintro (_ | record)
    · exact sources_handle _ _
    · refine (sources_json _ ?_ record.reply (fun _ h => h) ?_).mono (fun _ h => h)
        fun _ _ h => h.1
      · rintro s s' ⟨-, j, hsource, hmade⟩ hr
        exact ⟨hr.1, j, hsource, hr.2.2 j _ hmade⟩
      · exact fun s f hs hsourced => ⟨hsourced, hs.2⟩

/-! ## 3. Two runs -/

variable (high : τ → Prop)

/-- A record of a high request, which lives at least as long as a low one in the other run. -/
def Covers (o o' : Option (Timed (Entry τ))) : Prop :=
  ∃ e, o = some e ∧ high e.value.author ∧
    ∀ e', o' = some e' → high e'.value.author ∨ ∀ t, e'.LiveAt t → e.LiveAt t

/-- What one key holds in two runs: the same, or what a high request has written in one. -/
def SameLow (o o' : Option (Timed (Entry τ))) : Prop :=
  o = o' ∨ Covers high o o' ∨ Covers high o' o

/-- Two runs that low requests cannot tell apart. -/
structure Alike (c c' : Requests τ) : Prop where
  prog : ∀ j, ¬ high j → c.prog j = c'.prog j
  sent : ∀ j, ¬ high j → c.store.sent j = c'.store.sent j
  records : ∀ key, SameLow high (c.store.records key) (c'.store.records key)

/-- No record lives longer than one that is written at the time `t`. -/
def Bounded (t : ℕ) (s : Store τ) : Prop :=
  ∀ key e, s.records key = some e → ∀ u, e.LiveAt u → u ≤ t + IDEMPOTENCY_TTL_SECONDS * 1000

/-- Records are written with the one TTL. -/
def OneTtl : Op → Prop
  | .setex _ ttlSeconds _ => ttlSeconds = IDEMPOTENCY_TTL_SECONDS
  | _ => True

variable {high} {c c' : Requests τ} {o o' : Option (Timed (Entry τ))} {x : Input} {op : Op}

omit [DecidableEq τ] in
theorem SameLow.symm (h : SameLow high o o') : SameLow high o' o := by
  rcases h with h | h | h
  · exact Or.inl h.symm
  · exact Or.inr (Or.inr h)
  · exact Or.inr (Or.inl h)

omit [DecidableEq τ] in
theorem Alike.symm (h : Alike high c c') : Alike high c' c where
  prog j hj := (h.prog j hj).symm
  sent j hj := (h.sent j hj).symm
  records key := (h.records key).symm

omit [DecidableEq τ] in
/-- **What a low request reads** is the same in both runs. -/
theorem SameLow.readAt (h : SameLow high o o') {t : ℕ}
    (hlow : ∀ e ∈ o, e.LiveAt t → ¬ high e.value.author)
    (hlow' : ∀ e ∈ o', e.LiveAt t → ¬ high e.value.author) :
    Timed.readAt t o = Timed.readAt t o' := by
  have hcovers : ∀ {p p' : Option (Timed (Entry τ))}, Covers high p p' →
      (∀ e ∈ p, e.LiveAt t → ¬ high e.value.author) →
      (∀ e ∈ p', e.LiveAt t → ¬ high e.value.author) →
      Timed.readAt t p = none ∧ Timed.readAt t p' = none := by
    rintro p p' ⟨e, rfl, hhigh, hother⟩ hp hp'
    have hdead : ¬ e.LiveAt t := fun hlive => hp e rfl hlive hhigh
    refine ⟨Timed.readAt_eq_none.mpr fun e₁ he₁ => ?_, Timed.readAt_eq_none.mpr fun e' he' hlive => ?_⟩
    · cases he₁
      exact hdead
    · rcases hother e' he' with hhigh' | hlives
      · exact hp' e' he' hlive hhigh'
      · exact hdead (hlives t hlive)
  rcases h with rfl | h | h
  · rfl
  · obtain ⟨h₁, h₂⟩ := hcovers h hlow hlow'
    rw [h₁, h₂]
  · obtain ⟨h₁, h₂⟩ := hcovers h hlow' hlow
    rw [h₁, h₂]

/-- A step changes a record only by writing one, and a reply only by sending one. -/
theorem exec_records (s : Store τ) (i : τ) (x : Input) (op : Op) :
    (s.exec i x op).2.records = s.records ∨ ∃ key ttlSeconds record,
      op = .setex key ttlSeconds record ∧ (s.exec i x op).2.records =
        Function.update s.records key (some ⟨⟨i, record⟩, some (x.time + ttlSeconds * 1000)⟩) := by
  cases op with
  | setex key ttlSeconds record =>
    cases hfails : x.fails with
    | true => exact Or.inl (by simp [Store.exec, hfails])
    | false => exact Or.inr ⟨key, ttlSeconds, record, rfl, by simp [Store.exec, hfails]⟩
  | get key =>
    refine Or.inl ?_
    simp only [Store.exec]
    split
    · rfl
    · split <;> rfl
  | _ => exact Or.inl rfl

theorem exec_sent_of_ne {j : τ} (hj : j ≠ i) : (s.exec i x op).2.sent j = s.sent j := by
  cases op with
  | json reply => simp [Store.exec, hj]
  | get key =>
    simp only [Store.exec]
    split
    · rfl
    · split <;> rfl
  | setex key ttlSeconds record =>
    simp only [Store.exec]
    split <;> rfl
  | _ => rfl

/-- A step at the time `t` writes nothing that lives longer. -/
theorem Bounded.exec (h : Bounded x.time s) (hop : OneTtl op) :
    Bounded x.time (s.exec i x op).2 := by
  intro key e he u hlive
  rcases exec_records s i x op with hsame | ⟨key', ttlSeconds, record, rfl, hrec⟩
  · exact h key e (hsame ▸ he) u hlive
  · rw [hrec] at he
    by_cases hkey : key = key'
    · subst hkey
      obtain rfl : _ = e := by simpa using he
      have httl : ttlSeconds = IDEMPOTENCY_TTL_SECONDS := hop
      rw [← httl]
      exact hlive
    · exact h key e (by simpa [hkey] using he) u hlive

/-- **A high step** in one of the runs. -/
theorem Alike.high_step (h : Alike high c c') {l : τ × Input} (hl : high l.1)
    (hbounded : Bounded l.2.time c'.store) (huses : c.Uses fun _ => OneTtl) :
    Alike high (c.step (machine τ) l) c' := by
  obtain ⟨i, x⟩ := l
  have hne : ∀ j, ¬ high j → j ≠ i := fun j hj heq => hj (heq ▸ hl)
  cases hp : c.prog i with
  | ret a =>
    rw [Pool.step_of_ret hp]
    exact h
  | cmd op k =>
    have hstore : (c.step (machine τ) (i, x)).store = (c.store.exec i x op).2 := by
      simp [Pool.step, hp, Prog.act, machine]
    have hop : OneTtl op := by
      have := huses i
      rw [hp] at this
      exact this.1
    refine ⟨fun j hj => ?_, fun j hj => ?_, fun key => ?_⟩
    · rw [Pool.step_prog_of_ne (hne j hj)]
      exact h.prog j hj
    · rw [hstore, exec_sent_of_ne (hne j hj)]
      exact h.sent j hj
    · rw [hstore]
      rcases exec_records c.store i x op with hsame | ⟨key', ttlSeconds, record, rfl, hrec⟩
      · rw [hsame]
        exact h.records key
      rw [hrec]
      by_cases hkey : key = key'
      · subst hkey
        refine Or.inr (Or.inl ⟨_, Function.update_self .., hl, fun e' he' => Or.inr fun t hlive => ?_⟩)
        have httl : ttlSeconds = IDEMPOTENCY_TTL_SECONDS := hop
        rw [httl]
        exact hbounded key e' he' t hlive
      · rw [Function.update_of_ne hkey]
        exact h.records key

/-- A lookup that finds a record finds one of a low request. -/
def FindsLow (high : τ → Prop) (op : Op) (x : Input) (s : Store τ) : Prop :=
  match op with
  | .get key => ∀ e ∈ s.records key, e.LiveAt x.time → ¬ high e.value.author
  | _ => True

/-- What a low step answers and leaves in the two runs. -/
theorem exec_low {s s' : Store τ} (hrec : ∀ key, SameLow high (s.records key) (s'.records key))
    (hlow : FindsLow high op x s) (hlow' : FindsLow high op x s') :
    (s.exec i x op).1 = (s'.exec i x op).1 ∧
      (∀ key, SameLow high ((s.exec i x op).2.records key) ((s'.exec i x op).2.records key)) ∧
      ∀ j, s.sent j = s'.sent j → (s.exec i x op).2.sent j = (s'.exec i x op).2.sent j := by
  cases op with
  | now => exact ⟨rfl, hrec, fun _ h => h⟩
  | next resourceType => exact ⟨rfl, hrec, fun _ h => h⟩
  | json reply =>
    refine ⟨rfl, hrec, fun j hj => ?_⟩
    by_cases heq : j = i
    · subst heq
      simp [Store.exec]
    · simpa [Store.exec, heq] using hj
  | get key =>
    have hread := (hrec key).readAt hlow hlow'
    cases hfails : x.fails with
    | true =>
      simp only [Store.exec, hfails, if_true]
      exact ⟨trivial, hrec, fun _ h => h⟩
    | false =>
      simp only [Store.exec, hfails, Bool.false_eq_true, if_false, hread]
      split
      · exact ⟨rfl, hrec, fun _ h => h⟩
      · exact ⟨rfl, hrec, fun _ h => h⟩
  | setex key ttlSeconds record =>
    cases hfails : x.fails with
    | true =>
      simp only [Store.exec, hfails, if_true]
      exact ⟨trivial, hrec, fun _ h => h⟩
    | false =>
      simp only [Store.exec, hfails, Bool.false_eq_true, if_false]
      refine ⟨trivial, fun key' => ?_, fun _ h => h⟩
      by_cases hkey : key' = key
      · subst hkey
        rw [Function.update_self, Function.update_self]
        exact Or.inl rfl
      · rw [Function.update_of_ne hkey, Function.update_of_ne hkey]
        exact hrec key'

/-- **A low step** is the same step in both runs. -/
theorem Alike.low_step (h : Alike high c c') {l : τ × Input} (hl : ¬ high l.1)
    (hlow : Pool.Issues (FindsLow high) c l) (hlow' : Pool.Issues (FindsLow high) c' l) :
    Alike high (c.step (machine τ) l) (c'.step (machine τ) l) := by
  obtain ⟨i, x⟩ := l
  have hsame := h.prog i hl
  cases hp : c.prog i with
  | ret a =>
    rw [Pool.step_of_ret hp, Pool.step_of_ret (hsame.symm.trans hp)]
    exact h
  | cmd op k =>
    have hp' := hsame.symm.trans hp
    simp only [Pool.Issues, hp] at hlow
    simp only [Pool.Issues, hp'] at hlow'
    obtain ⟨hreply, hrec, hsent⟩ := exec_low (i := i) h.records hlow hlow'
    have hstep : ∀ {d : Requests τ}, d.prog i = .cmd op k →
        (d.step (machine τ) (i, x)).store = (d.store.exec i x op).2 ∧
          (d.step (machine τ) (i, x)).prog i = k (d.store.exec i x op).1 := by
      intro d hd
      simp [Pool.step, hd, Prog.act, machine]
    refine ⟨fun j hj => ?_, fun j hj => ?_, fun key => ?_⟩
    · by_cases heq : j = i
      · subst heq
        rw [(hstep hp).2, (hstep hp').2, hreply]
      · rw [Pool.step_prog_of_ne heq, Pool.step_prog_of_ne heq]
        exact h.prog j hj
    · rw [(hstep hp).1, (hstep hp').1]
      exact hsent j (h.sent j hj)
    · rw [(hstep hp).1, (hstep hp').1]
      exact hrec key

theorem uses_idempotencyMiddleware (req : Request) :
    (idempotencyMiddleware toISOString req).Uses OneTtl := by
  have hhandle : ∀ resourceType key, (handle toISOString resourceType key).Uses OneTtl := by
    intro resourceType key
    refine ⟨trivial, fun reply => ?_⟩
    show (resJson toISOString key reply).Uses OneTtl
    unfold resJson
    dsimp only
    split
    · unfold storeIdempotencyResponse
      split
      · exact ⟨trivial, fun _ => trivial⟩
      · exact ⟨trivial, fun _ => ⟨trivial, fun _ => ⟨rfl, fun _ => trivial⟩⟩⟩
    · exact ⟨trivial, fun _ => trivial⟩
  unfold idempotencyMiddleware getIdempotencyResponse
  dsimp only
  split
  · exact hhandle _ _
  · refine ⟨trivial, ?_⟩
    rintro (e | _ | record)
    · exact hhandle _ _
    · exact hhandle _ _
    · exact ⟨trivial, fun _ => trivial⟩

theorem Bounded.step {l : τ × Input} (h : Bounded l.2.time c.store)
    (huses : c.Uses fun _ => OneTtl) : Bounded l.2.time (c.step (machine τ) l).store := by
  obtain ⟨i, x⟩ := l
  cases hp : c.prog i with
  | ret a =>
    rw [Pool.step_of_ret hp]
    exact h
  | cmd op k =>
    have hop := huses i
    rw [hp] at hop
    have hstore : (c.step (machine τ) (i, x)).store = (c.store.exec i x op).2 := by
      simp [Pool.step, hp, Prog.act, machine]
    rw [hstore]
    exact h.exec hop.1

/-- While the clock does not go back, no record lives longer than one written now. -/
theorem along_bounded {t : ℕ} (ls : List (τ × Input)) (hb : Bounded t c.store)
    (huses : c.Uses fun _ => OneTtl) (ht : ∀ l ∈ ls, t ≤ l.2.time)
    (hsorted : ls.Pairwise fun l l' => l.2.time ≤ l'.2.time) :
    Along (Pool.step (machine τ)) (fun c l => Bounded l.2.time c.store) c ls := by
  induction ls generalizing c t with
  | nil => trivial
  | cons l ls ih =>
    obtain ⟨hl, hrest⟩ := List.pairwise_cons.mp hsorted
    have hnow : Bounded l.2.time c.store := by
      intro key e he u hlive
      exact (hb key e he u hlive).trans (Nat.add_le_add_right (ht l List.mem_cons_self) _)
    exact ⟨hnow, ih (hnow.step huses) (huses.step l) hl hrest⟩

/-! ## 4. Every history -/

/-- Every lookup that finds a record finds one of the same caller and route. -/
def FindsOwnAlong (requests : τ → Request) (c : Requests τ) (ls : List (τ × Input)) : Prop :=
  Along (Pool.step (machine τ)) (fun c l => Pool.Issues (FindsOwn requests l.1) c l) c ls

instance (requests : τ → Request) (c : Requests τ) (ls : List (τ × Input)) :
    Decidable (FindsOwnAlong requests c ls) :=
  have (c : Requests τ) (l : τ × Input) : Decidable (Pool.Issues (FindsOwn requests l.1) c l) :=
    inferInstance
  Along.decidable c ls

/-- Two labels for the same thread at the same time, the same ones for a low thread. -/
def SameLabel (high : τ → Prop) (l l' : τ × Input) : Prop :=
  l.1 = l'.1 ∧ l.2.time = l'.2.time ∧ (¬ high l.1 → l = l')

/-- The clock does not go back. -/
def Forward (ls : List (τ × Input)) : Prop := ls.Pairwise fun l l' => l.2.time ≤ l'.2.time

instance (ls : List (τ × Input)) : Decidable (Forward ls) :=
  inferInstanceAs (Decidable (ls.Pairwise fun l l' => l.2.time ≤ l'.2.time))

omit [DecidableEq τ] in
theorem Forward.same {ls ls' : List (τ × Input)} (h : Forward ls)
    (hls : List.Forall₂ (SameLabel high) ls ls') : Forward ls' := by
  have htimes : ls.map (fun l => l.2.time) = ls'.map fun l => l.2.time := by
    clear h
    induction hls with
    | nil => rfl
    | cons hl _ ih => rw [List.map_cons, List.map_cons, hl.2.1, ih]
  have hmap : (ls.map fun l => l.2.time).Pairwise (· ≤ ·) := List.pairwise_map.mpr h
  rw [htimes] at hmap
  exact List.pairwise_map.mp hmap

/-- The steps of a run, each with what the two runs need of it. -/
theorem along_low {high : τ → Prop} {requests : τ → Request} {ls : List (τ × Input)}
    (hhigh : ∀ i j, ¬ high i → SameSource (requests j) (requests i) → ¬ high j)
    (hforward : Forward ls) (hls : FindsOwnAlong requests (begin toISOString requests) ls) :
    Along (Pool.step (machine τ)) (fun c l => (¬ high l.1 → Pool.Issues (FindsLow high) c l) ∧
      Bounded l.2.time c.store) (begin toISOString requests) ls := by
  have hbounded := along_bounded (t := 0) (c := begin toISOString requests) ls
    (fun _ _ he => by cases he) (fun i => uses_idempotencyMiddleware (requests i))
    (fun _ _ => Nat.zero_le _) hforward
  refine (Along.mono (fun c l h hl => ?_) hls).and hbounded
  unfold Pool.Issues at h ⊢
  cases hp : c.prog l.1 with
  | ret a => trivial
  | cmd op k =>
    rw [hp] at h
    cases op with
    | get key => exact fun e he hlive => hhigh l.1 _ hl (h e he hlive)
    | _ => trivial

/-- Two callers who register webhooks under the same key. -/
def sampleCallers : Fin 2 → Request
  | 0 => ⟨"caller_1", .webhook, some "k"⟩
  | 1 => ⟨"caller_2", .webhook, some "k"⟩

/-- A step at the time `1`; the handler replies with the secret of a new webhook. -/
def registers (secret : String) : Input := ⟨1, false, ⟨201, .obj [("secret", .str secret)]⟩⟩

/-- The first caller registers a webhook, and the second one asks for the same afterwards. -/
def sampleHistory : List (Fin 2 × Input) :=
  List.replicate 5 (0, registers "s1") ++ List.replicate 2 (1, registers "s2")

/-- The run of the sample requests. -/
def callersRun (ls : List (Fin 2 × Input)) : Requests (Fin 2) :=
  run (Pool.step (machine (Fin 2))) (begin (fun _ => "1") sampleCallers) ls

/-- Callers who use keys of their own. -/
def ownKeys : Fin 2 → Request
  | 0 => ⟨"caller_1", .webhook, some "k"⟩
  | 1 => ⟨"caller_2", .webhook, some "k'"⟩

end SmartDrop.Idempotency
