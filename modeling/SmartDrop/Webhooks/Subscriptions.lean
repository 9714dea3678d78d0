/-
# Who is notified of an event

`listActiveForEvent` reads one index set and keeps the active webhooks whose events match.  The
three operations that write keep every index exact (`Indexed`): the set of an event holds the
webhooks that list this event.  A webhook subscribed to `*` lists `*` only, so it is in the set
of `*`, which nobody reads: the answer is right exactly when no active webhook matches by the
wildcard alone (`listActiveForEvent_exact_iff`).
-/
import SmartDrop.Lib.Run
import SmartDrop.Webhooks.Repository

namespace SmartDrop.Webhooks

open Conc Redis webhookRepository

/-! ## 1. Histories of the repository -/

/-- The calls that write webhooks. -/
inductive RepoCall where
  | create (w : NewWebhook)
  | update (id : String) (patch : WebhookPatch)
  | remove (id : String)

/-- The program of a call, without its result. -/
def RepoCall.code (P : Platform) (config : Config) : RepoCall → Code Unit
  | .create w => do let _ ← webhookRepository.create P config w
  | .update id patch => do let _ ← webhookRepository.update P config id patch
  | .remove id => do let _ ← webhookRepository.remove P config id

/-- The process that makes the calls. -/
def server : Caller := ⟨0, none⟩

/-- One call from its start to its end, the environment answering from a stream. -/
def callStep (P : Platform) (config : Config) (s : Store) (l : RepoCall × (ℕ → Env)) : Store :=
  ((l.1.code P config).prog.runWith (machine P) server l.2 s).2

/-- No command of a call fails. -/
def Works (xs : ℕ → Env) : Prop := ∀ n, (xs n).fault = .none

/-! ## 2. The indexes are exact -/

/-- Every record is kept under its own id, which has been drawn, and the index of an event
holds the webhooks that list the event. -/
structure Indexed (P : Platform) (s : Store) : Prop where
  keyed : ∀ id r, s.webhooks id = some r → r.id = id
  drawn : ∀ id r, s.webhooks id = some r → ∃ n < s.uuidsDrawn, id = "wh_" ++ P.randomUUID n
  indexed : ∀ e id, id ∈ s.eventIndex e ↔ ∃ r, s.webhooks id = some r ∧ e ∈ r.events

variable {P : Platform} {config : Config}

theorem Indexed.init : Indexed P Store.init :=
  ⟨nofun, nofun, fun e id => by simp [Store.init]⟩

/-- The records are those of `s₀`, and the index sets hold what `R` says. -/
structure Shows (s₀ : Store) (R : String → String → Prop) (s : Store) : Prop where
  webhooks : s.webhooks = s₀.webhooks
  uuidsDrawn : s.uuidsDrawn = s₀.uuidsDrawn
  eventIndex : ∀ e id, id ∈ s.eventIndex e ↔ R e id

variable {s₀ : Store} {R : String → String → Prop} {E : Err → Store → Prop}

theorem Shows.refl (s : Store) : Shows s (fun e id => id ∈ s.eventIndex e) s :=
  ⟨rfl, rfl, fun _ _ => Iff.rfl⟩

theorem Shows.congr {s : Store} {R' : String → String → Prop} (h : Shows s₀ R s)
    (hR : ∀ e id, R e id ↔ R' e id) : Shows s₀ R' s :=
  ⟨h.webhooks, h.uuidsDrawn, fun e id => (h.eventIndex e id).trans (hR e id)⟩

/-- The records and the indexes of an indexed store, seen from a later one. -/
theorem Shows.indexed {s : Store} (h₀ : Indexed P s₀)
    (h : Shows s₀ (fun e id => id ∈ s₀.eventIndex e) s) : Indexed P s where
  keyed := by rw [h.webhooks]; exact h₀.keyed
  drawn := by rw [h.webhooks, h.uuidsDrawn]; exact h₀.drawn
  indexed e id := by rw [h.eventIndex, h₀.indexed, h.webhooks]

/-- An id leaves the sets of the events it is removed from. -/
theorem satE_removeEventIndexes (id : String) (events : List String) :
    SatE (machine P) server calm (removeEventIndexes id events) (Shows s₀ R)
      (fun _ => Shows s₀ fun e j => R e j ∧ ¬ (e ∈ events ∧ j = id)) E := by
  induction events generalizing R with
  | nil => exact SatE.pure fun s h => h.congr (by simp)
  | cons evt events ih =>
    refine SatE.bind (Q := fun _ => Shows s₀ fun e j => R e j ∧ ¬ (e = evt ∧ j = id)) ?_ fun _ => ?_
    · refine satE_calm_unchecked fun x s h => ⟨h.webhooks, h.uuidsDrawn, fun e j => ?_⟩
      by_cases he : e = evt
      · subst he
        simp [Store.exec, h.eventIndex]
      · simp [Store.exec, he, h.eventIndex]
    · refine ih.mono (fun _ h => h) (fun _ s h => h.congr fun e j => ?_) fun _ _ h => h
      simp only [List.mem_cons]
      tauto

/-- An id joins the sets of the events it is added to. -/
theorem satE_addEventIndexes (id : String) (events : List String) :
    SatE (machine P) server calm (addEventIndexes id events) (Shows s₀ R)
      (fun _ => Shows s₀ fun e j => R e j ∨ (e ∈ events ∧ j = id)) E := by
  induction events generalizing R with
  | nil => exact SatE.pure fun s h => h.congr (by simp)
  | cons evt events ih =>
    refine SatE.bind (Q := fun _ => Shows s₀ fun e j => R e j ∨ (e = evt ∧ j = id)) ?_ fun _ => ?_
    · refine satE_calm_unchecked fun x s h => ⟨h.webhooks, h.uuidsDrawn, fun e j => ?_⟩
      by_cases he : e = evt
      · subst he
        simp [Store.exec, h.eventIndex]
      · simp [Store.exec, he, h.eventIndex]
    · refine ih.mono (fun _ h => h) (fun _ s h => h.congr fun e j => ?_) fun _ _ h => h
      simp only [List.mem_cons]
      tauto

/-- Encrypting a secret draws bytes only. -/
theorem satE_encryptSecretNow (secret : String) (hE : ∀ e s, Shows s₀ R s → E e s) :
    SatE (machine P) server calm (encryptSecretNow P config secret) (Shows s₀ R)
      (fun _ => Shows s₀ R) E := by
  refine SatE.bind (Q := fun _ => Shows s₀ R) (satE_calm fun x s h => ⟨h.webhooks, h.uuidsDrawn, h.eventIndex⟩)
    fun iv => ?_
  split
  · exact SatE.throw fun s h => hE _ s h
  · exact SatE.pure fun _ h => h

/-! ## 3. Each call keeps them so -/

/-- Storing a new webhook together with its index entries. -/
theorem Indexed.insert {s : Store} (h : Indexed P s) {record : WebhookRecord} (score : ℕ) (x : Env)
    (hid : ∃ n < s.uuidsDrawn, record.id = "wh_" ++ P.randomUUID n)
    (hnew : s.webhooks record.id = none) :
    Indexed P (s.exec P server x (.insertWebhook record score)).2 where
  keyed id r hr := by
    by_cases he : id = record.id
    · subst he
      simp only [Store.exec, Function.update_self, Option.some.injEq] at hr
      rw [← hr]
    · simp only [Store.exec, Function.update_of_ne he] at hr
      exact h.keyed id r hr
  drawn id r hr := by
    by_cases he : id = record.id
    · exact he ▸ hid
    · simp only [Store.exec, Function.update_of_ne he] at hr
      exact h.drawn id r hr
  indexed e id := by
    have hout : record.id ∉ s.eventIndex e := by
      rw [h.indexed, hnew]
      simp
    by_cases he : id = record.id
    · subst he
      by_cases hmem : e ∈ record.events <;> simp [Store.exec, hmem, hout]
    · by_cases hmem : e ∈ record.events <;> simp [Store.exec, hmem, he, h.indexed]

/-- Writing back a changed record once the sets follow its events. -/
theorem Indexed.overwrite (h₀ : Indexed P s₀) {id : String} {existing record : WebhookRecord}
    (hstored : s₀.webhooks id = some existing) (hid : record.id = id) {s : Store}
    (h : Shows s₀ (fun e j => if j = id then e ∈ record.events else j ∈ s₀.eventIndex e) s)
    (x : Env) : Indexed P (s.exec P server x (.setWebhook id record)).2 where
  keyed j r hr := by
    by_cases hj : j = id
    · subst hj
      simp only [Store.exec, Function.update_self, Option.some.injEq] at hr
      rw [← hr, hid]
    · simp only [Store.exec, Function.update_of_ne hj, h.webhooks] at hr
      exact h₀.keyed j r hr
  drawn j r hr := by
    simp only [Store.exec, h.uuidsDrawn]
    by_cases hj : j = id
    · exact hj ▸ h₀.drawn id existing hstored
    · simp only [Store.exec, Function.update_of_ne hj, h.webhooks] at hr
      exact h₀.drawn j r hr
  indexed e j := by
    simp only [Store.exec, h.eventIndex, h.webhooks]
    by_cases hj : j = id
    · simp [hj]
    · simp [hj, h₀.indexed]

/-- Deleting a record together with its index entries. -/
theorem Indexed.delete {s : Store} (h : Indexed P s) {id : String} {existing : WebhookRecord}
    (hstored : s.webhooks id = some existing) (deliveryIds : List String) (x : Env) :
    Indexed P (s.exec P server x (.deleteWebhook id existing deliveryIds)).2 where
  keyed j r hr := by
    by_cases hj : j = id
    · simp [Store.exec, hj] at hr
    · simp only [Store.exec, Function.update_of_ne hj] at hr
      exact h.keyed j r hr
  drawn j r hr := by
    by_cases hj : j = id
    · simp [Store.exec, hj] at hr
    · simp only [Store.exec, Function.update_of_ne hj] at hr
      exact h.drawn j r hr
  indexed e j := by
    by_cases hj : j = id
    · subst hj
      by_cases hmem : e ∈ existing.events <;> simp [Store.exec, hmem, h.indexed, hstored]
    · by_cases hmem : e ∈ existing.events <;> simp [Store.exec, hmem, hj, h.indexed]

/-- A webhook id that has not been drawn is not stored. -/
theorem Indexed.fresh {s : Store} (h : Indexed P s) :
    s.webhooks ("wh_" ++ P.randomUUID s.uuidsDrawn) = none := by
  cases hr : s.webhooks ("wh_" ++ P.randomUUID s.uuidsDrawn) with
  | none => rfl
  | some r =>
    obtain ⟨n, hn, he⟩ := h.drawn _ r hr
    have huuid : P.randomUUID s.uuidsDrawn = P.randomUUID n := by
      simpa [String.ext_iff] using he
    exact absurd (P.uuid_inj huuid) (by omega)

/-- `create` keeps the indexes exact. -/
theorem satE_create (h₀ : Indexed P s₀) (w : NewWebhook) :
    SatE (machine P) server calm (webhookRepository.create P config w) (· = s₀)
      (fun _ => Indexed P) (fun _ => Indexed P) := by
  let s₁ : Store := { s₀ with uuidsDrawn := s₀.uuidsDrawn + 1 }
  have h₁ : Indexed P s₁ := by
    refine ⟨h₀.keyed, fun id r hr => ?_, h₀.indexed⟩
    obtain ⟨n, hn, he⟩ := h₀.drawn id r hr
    exact ⟨n, Nat.lt_succ_of_lt hn, he⟩
  let Drawn (id : String) (s : Store) : Prop :=
    id = "wh_" ++ P.randomUUID s₀.uuidsDrawn ∧ Shows s₁ (fun e j => j ∈ s₁.eventIndex e) s
  unfold webhookRepository.create
  split
  · exact SatE.throw fun s hs => hs ▸ h₀
  refine SatE.bind (Q := Drawn) ?_ fun id => ?_
  · refine SatE.bind (Q := fun u s => Drawn ("wh_" ++ u) s) (satE_calm fun x s hs => ?_)
      fun u => SatE.pure fun _ h => h
    subst hs
    exact ⟨rfl, Shows.refl _⟩
  refine SatE.bind (Q := fun _ => Drawn id) (satE_calm fun x s h => h) fun now => ?_
  refine SatE.assume fun hid => ?_
  refine SatE.bind (satE_encryptSecretNow _ fun _ _ h => h.indexed h₁) fun secret => ?_
  refine SatE.bind (Q := fun _ => Indexed P) (satE_calm fun x s h => ?_) fun _ =>
    SatE.pure fun _ h => h
  refine (h.indexed h₁).insert now x ⟨s₀.uuidsDrawn, ?_, hid⟩ ?_
  · rw [h.uuidsDrawn]
    exact Nat.lt_succ_self _
  · rw [h.webhooks, newRecord, hid]
    exact h₀.fresh

/-- `update` keeps the indexes exact. -/
theorem satE_update (h₀ : Indexed P s₀) (id : String) (patch : WebhookPatch) :
    SatE (machine P) server calm (webhookRepository.update P config id patch) (· = s₀)
      (fun _ => Indexed P) (fun _ => Indexed P) := by
  refine SatE.bind (Q := fun a s => a = s₀.webhooks id ∧ s = s₀) (satE_calm ?_) fun a => ?_
  · rintro x s rfl
    exact ⟨rfl, rfl⟩
  cases a with
  | none => exact SatE.pure fun s h => h.2 ▸ h₀
  | some existing =>
    let Old : Store → Prop := Shows s₀ fun e j => j ∈ s₀.eventIndex e
    let New : Store → Prop := Shows s₀ fun e j =>
      if j = id then e ∈ patch.events.getD existing.events else j ∈ s₀.eventIndex e
    refine SatE.assume fun hstored => ?_
    have hid : existing.id = id := h₀.keyed id existing hstored.symm
    have hsecret : SatE (machine P) server calm (nextSecret P config existing patch) Old
        (fun _ => Old) (fun _ => Indexed P) := by
      rw [nextSecret]
      split
      · exact satE_encryptSecretNow _ fun _ _ h => h.indexed h₀
      · exact SatE.pure fun _ h => h
    have hreindex : SatE (machine P) server calm (reindex id existing patch.events) Old
        (fun _ => New) (fun _ => Indexed P) := by
      cases hev : patch.events with
      | none =>
        refine SatE.pure fun s h => h.congr fun e j => ?_
        by_cases hj : j = id
        · subst hj
          simp [h₀.indexed, ← hstored, hev]
        · simp [hj]
      | some events =>
        refine SatE.bind (satE_removeEventIndexes id existing.events) fun _ => ?_
        refine (satE_addEventIndexes id events).mono (fun _ h => h) (fun _ s h => h.congr ?_)
          fun _ _ h => h
        intro e j
        by_cases hj : j = id
        · subst hj
          simp [h₀.indexed, ← hstored, hev]
        · simp [hj]
    refine SatE.bind (Q := fun _ => Old) ?_ fun secret => ?_
    · exact hsecret.mono (fun s h => h ▸ Shows.refl s₀) (fun _ _ h => h) fun _ _ h => h
    refine SatE.bind (Q := fun _ => Old) (satE_calm fun x s h => ⟨h.1, h.2, h.3⟩) fun now => ?_
    refine SatE.bind hreindex fun _ => ?_
    refine SatE.bind (Q := fun _ => Indexed P) (satE_calm fun x s h => ?_) fun _ =>
      SatE.pure fun _ h => h
    exact Indexed.overwrite h₀ hstored.symm
      (show (patched existing patch secret now).id = id from hid) h x

/-- `remove` keeps the indexes exact. -/
theorem satE_remove (h₀ : Indexed P s₀) (id : String) :
    SatE (machine P) server calm (webhookRepository.remove P config id) (· = s₀)
      (fun _ => Indexed P) (fun _ => Indexed P) := by
  refine SatE.bind (Q := fun a s => a = s₀.webhooks id ∧ s = s₀) (satE_calm ?_) fun a => ?_
  · rintro x s rfl
    exact ⟨rfl, rfl⟩
  cases a with
  | none => exact SatE.pure fun s h => h.2 ▸ h₀
  | some existing =>
    refine SatE.assume fun hstored => ?_
    refine SatE.bind (Q := fun _ s => s = s₀) (satE_calm fun x s h => h) fun deliveryIds => ?_
    refine SatE.bind (Q := fun _ => Indexed P) (satE_calm fun x s h => ?_) fun _ =>
      SatE.pure fun _ h => h
    subst h
    exact h₀.delete hstored.symm deliveryIds x

/-- **Every call keeps the indexes exact.** -/
theorem indexed_callStep {s : Store} (h : Indexed P s) {l : RepoCall × (ℕ → Env)}
    (hl : Works l.2) : Indexed P (callStep P config s l) := by
  have hsat : SatE (machine P) server calm (l.1.code P config) (· = s) (fun _ => Indexed P)
      fun _ => Indexed P := by
    cases l.1 with
    | create w => exact SatE.bind (satE_create h w) fun _ => SatE.pure fun _ hq => hq
    | update id patch => exact SatE.bind (satE_update h id patch) fun _ => SatE.pure fun _ hq => hq
    | remove id => exact SatE.bind (satE_remove h id) fun _ => SatE.pure fun _ hq => hq
  have hend := Sat.runWith hsat l.2 (fun n _ _ => hl n) rfl
  split at hend <;> exact hend

/-- **Every history keeps the indexes exact.** -/
theorem indexed_run {ls : List (RepoCall × (ℕ → Env))} (h : ∀ l ∈ ls, Works l.2) {s : Store}
    (hs : Indexed P s) : Indexed P (run (callStep P config) s ls) := by
  induction ls generalizing s with
  | nil => exact hs
  | cons l ls ih =>
    exact ih (fun l' hl' => h l' (List.mem_cons_of_mem l hl'))
      (indexed_callStep hs (h l List.mem_cons_self))

/-! ## 4. The answer -/

/-- What `listActiveForEvent` answers with the matcher that `dispatch` gives it. -/
def notified (P : Platform) (config : Config) (s : Store) (e : String) (xs : ℕ → Env) :
    Except Err (List Webhook) :=
  ((listActiveForEvent P config e matchesSubscription).prog.runWith (machine P) server xs s).1

/-- The webhooks that should be notified of an event, each exactly once. -/
def ExactFor (P : Platform) (config : Config) (s : Store) (e : String) (found : List Webhook) :
    Prop :=
  (found.map Webhook.id).Nodup ∧ ∀ w, w ∈ found ↔ ∃ id record, s.webhooks id = some record ∧
    record.active ∧ matchesSubscription record.events e ∧ w = normalize P config record

/-- The active webhooks in the set of an event that match. -/
def listed (P : Platform) (config : Config) (s : Store) (e : String) : List Webhook :=
  ((((s.eventIndex e).members.map s.webhooks).filterMap id).map (normalize P config)).filter
    fun w => w.active && matchesSubscription w.events e

/-- What the listing answers where no command fails. -/
theorem satE_listActiveForEvent (P : Platform) (config : Config) (s : Store) (e : String)
    (caller : Caller) :
    SatE (machine P) caller calm (listActiveForEvent P config e matchesSubscription) (· = s)
      (fun found s' => found = listed P config s e ∧ s' = s) fun _ _ => False := by
  refine SatE.tryCatch (E := fun _ _ => False) ?_ fun _ => SatE.pure fun _ hf => hf.elim
  refine SatE.bind (Q := fun ids s' => ids = (s.eventIndex e).members ∧ s' = s) ?_ fun ids => ?_
  · exact satE_calm fun x s' h => by rw [h]; exact ⟨rfl, rfl⟩
  refine SatE.assume fun hids => ?_
  split
  · rename_i hempty
    refine SatE.pure fun _ h => ⟨?_, h⟩
    rw [listed, ← hids, List.isEmpty_iff.mp hempty]
    rfl
  · refine SatE.bind (Q := fun records s' => records = ids.map s.webhooks ∧ s' = s) ?_
      fun records => ?_
    · exact satE_calm fun x s' h => by rw [h]; exact ⟨rfl, rfl⟩
    · refine SatE.pure fun _ h => ⟨?_, h.2⟩
      rw [listed, ← hids, ← h.1]

theorem notified_eq (s : Store) (e : String) {xs : ℕ → Env} (hxs : Works xs) :
    notified P config s e xs = .ok (listed P config s e) := by
  have hend := Sat.runWith (satE_listActiveForEvent P config s e server) xs (fun n _ _ => hxs n) rfl
  rw [notified]
  split at hend
  · rename_i h
    rw [h, hend.1]
  · exact hend.elim

theorem mem_listed (h : Indexed P s₀) {e : String} {w : Webhook} :
    w ∈ listed P config s₀ e ↔ ∃ id record, s₀.webhooks id = some record ∧ record.active ∧
      e ∈ record.events ∧ w = normalize P config record := by
  simp only [listed, List.mem_filter, List.mem_map, List.mem_filterMap, Bool.and_eq_true, id]
  constructor
  · rintro ⟨⟨record, ⟨_, ⟨id, hid, rfl⟩, hstored⟩, rfl⟩, hactive, hmatch⟩
    obtain ⟨r, hr, he⟩ := (h.indexed e id).mp hid
    rw [hstored] at hr
    obtain rfl := Option.some.inj hr
    exact ⟨id, record, hstored, hactive, he, rfl⟩
  · rintro ⟨id, record, hstored, hactive, he, rfl⟩
    refine ⟨⟨record, ⟨_, ⟨id, (h.indexed e id).mpr ⟨record, hstored, he⟩, rfl⟩, hstored⟩, rfl⟩,
      hactive, matchesSubscription_iff.mpr (.inr he)⟩

/-- The ids of stored webhooks are the keys they were read from. -/
theorem map_id_stored (P : Platform) (config : Config)
    (h : ∀ id r, s₀.webhooks id = some r → r.id = id) (ids : List String) :
    (((ids.map s₀.webhooks).filterMap id).map fun r => (normalize P config r).id) =
      ids.filter fun j => (s₀.webhooks j).isSome := by
  induction ids with
  | nil => rfl
  | cons j ids ih =>
    cases hr : s₀.webhooks j with
    | none => simpa [hr] using ih
    | some r => simpa [hr, normalize, h j r hr] using ih

theorem nodup_listed (h : ∀ id r, s₀.webhooks id = some r → r.id = id) (e : String) :
    ((listed P config s₀ e).map Webhook.id).Nodup := by
  refine (List.Sublist.map Webhook.id List.filter_sublist).nodup ?_
  rw [List.map_map]
  have := map_id_stored P config h (s₀.eventIndex e).members
  rw [Function.comp_def, this]
  exact (s₀.eventIndex e).nodup.filter _

/-- In an indexed store the answer is exact when no active webhook matches by `*` alone. -/
theorem exactFor_listed_iff (config : Config) (h : Indexed P s₀) (e : String) :
    ExactFor P config s₀ e (listed P config s₀ e) ↔
      ∀ id record, s₀.webhooks id = some record → record.active → WILDCARD ∈ record.events →
        e ∈ record.events := by
  constructor
  · rintro ⟨-, hexact⟩ id record hstored hactive hw
    have hmem := (hexact (normalize P config record)).mpr
      ⟨id, record, hstored, hactive, matchesSubscription_iff.mpr (.inl hw), rfl⟩
    obtain ⟨-, record', -, -, he, heq⟩ := (mem_listed h).mp hmem
    have hevents : record.events = record'.events := congrArg Webhook.events heq
    rwa [hevents]
  · refine fun hcond => ⟨nodup_listed h.keyed e, fun w => (mem_listed h).trans ?_⟩
    constructor
    · rintro ⟨id, record, hstored, hactive, he, rfl⟩
      exact ⟨id, record, hstored, hactive, matchesSubscription_iff.mpr (.inr he), rfl⟩
    · rintro ⟨id, record, hstored, hactive, hmatch, rfl⟩
      refine ⟨id, record, hstored, hactive, ?_, rfl⟩
      rcases matchesSubscription_iff.mp hmatch with hw | he
      · exact hcond id record hstored hactive hw
      · exact he

/-- **Who is notified.**  After any history of calls, `listActiveForEvent` returns exactly the
active webhooks whose events match, each once, if and only if no active webhook matches by the
wildcard without listing the event. -/
theorem listActiveForEvent_exact_iff (P : Platform) (config : Config)
    {ls : List (RepoCall × (ℕ → Env))} (hls : ∀ l ∈ ls, Works l.2) (e : String) {xs : ℕ → Env}
    (hxs : Works xs) :
    (∃ found, notified P config (run (callStep P config) .init ls) e xs = .ok found ∧
      ExactFor P config (run (callStep P config) .init ls) e found) ↔
    ∀ id record, (run (callStep P config) .init ls).webhooks id = some record → record.active →
      WILDCARD ∈ record.events → e ∈ record.events := by
  rw [← exactFor_listed_iff config (indexed_run hls Indexed.init), notified_eq _ e hxs]
  simp

/-- A clock that always shows the same time, and no faults. -/
def sampleEnv : ℕ → Env := fun _ => { now := 1700000000000 }

/-- A webhook for every event, as the schema admits it. -/
def wildcardWebhook : NewWebhook where
  url := "https://hooks.example"
  events := [WILDCARD]
  secret := "whsec_0123456789abcdef"

/-- The webhook of the history below is stored, active and subscribed to `*`. -/
theorem wildcard_stored :
    let s := run (callStep samplePlatform sampleConfig) .init [(.create wildcardWebhook, sampleEnv)]
    ∃ id record, s.webhooks id = some record ∧ record.active ∧ record.events = [WILDCARD] := by
  intro s
  have hstored : (s.webhooks "wh_").any fun r => r.active && r.events = [WILDCARD] := by
    decide +kernel
  obtain ⟨record, hrecord, hr⟩ := Option.any_eq_true _ _ |>.mp hstored
  rw [Bool.and_eq_true, decide_eq_true_eq] at hr
  exact ⟨"wh_", record, hrecord, hr⟩

/-- The only webhook subscribes to every event, and the list for `pool.created` is empty. -/
theorem wildcard_not_notified : ¬ ∀ ls : List (RepoCall × (ℕ → Env)), (∀ l ∈ ls, Works l.2) →
    ∃ found, notified samplePlatform sampleConfig
        (run (callStep samplePlatform sampleConfig) .init ls) "pool.created" sampleEnv = .ok found ∧
      ExactFor samplePlatform sampleConfig (run (callStep samplePlatform sampleConfig) .init ls)
        "pool.created" found := by
  intro hall
  have hworks : ∀ l ∈ [((.create wildcardWebhook, sampleEnv) : RepoCall × (ℕ → Env))],
      Works l.2 := by simp [Works, sampleEnv]
  obtain ⟨found, hfound, hexact⟩ := hall _ hworks
  rw [notified_eq _ _ fun _ => rfl, Except.ok.injEq] at hfound
  rw [← hfound, exactFor_listed_iff sampleConfig (indexed_run hworks Indexed.init)] at hexact
  obtain ⟨id, record, hstored, hactive, hevents⟩ := wildcard_stored
  have hmem := hexact id record hstored hactive (by rw [hevents]; exact List.mem_singleton_self _)
  rw [hevents] at hmem
  exact absurd hmem (by decide)

/-- The equivalence, after a history with one webhook. -/
theorem listActiveForEvent_exact_iff_sample :
    (∃ found, notified samplePlatform sampleConfig (run (callStep samplePlatform sampleConfig) .init
        [(.create wildcardWebhook, sampleEnv)]) "pool.created" sampleEnv = .ok found ∧
      ExactFor samplePlatform sampleConfig (run (callStep samplePlatform sampleConfig) .init
        [(.create wildcardWebhook, sampleEnv)]) "pool.created" found) ↔
    ∀ id record, (run (callStep samplePlatform sampleConfig) .init
        [(.create wildcardWebhook, sampleEnv)]).webhooks id = some record → record.active →
      WILDCARD ∈ record.events → "pool.created" ∈ record.events :=
  listActiveForEvent_exact_iff samplePlatform sampleConfig (by simp [Works, sampleEnv])
    "pool.created" fun _ => rfl

end SmartDrop.Webhooks
