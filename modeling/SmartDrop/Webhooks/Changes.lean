/-
# Changes of a webhook, and the attempts after them

An attempt takes the webhook from the cache of its process if there is an entry of the last
minute, and nothing tells the cache that the webhook has changed.  An update stores the whole
record, with what it is not asked to change as it has read it.

Beside the store a journal is kept, which no command reads: who has changed which webhook, what
the journal said when a call took its first step, what each call has read, and who has made which
request.  A record reflects the journal when its URL, secret and activity are those that the
latest change asked for that asked for any (`Reflects`).  As long as no update stores what has
been changed since it read it, and no attempt uses a cache entry that differs from the record
(`UpToDate`), every record reflects the journal, and every request is made with what reflects the
journal at some moment since the attempt began (`changes_take_effect`).
-/
import SmartDrop.Lib.Once
import SmartDrop.Webhooks.Attempt

namespace SmartDrop.Webhooks

open Conc

variable {τ : Type}

/-! ## 1. Calls -/

/-- A change of a webhook through the repository, or an attempt at a delivery. -/
inductive Task where
  | update (id : String) (patch : WebhookPatch)
  | remove (id : String)
  | attempt (deliveryId : String) (sequence : Option ℕ)

namespace Task

/-- The code of a call. -/
def code (P : Platform) (config : Config) : Task → Code Unit
  | .update id patch => do let _ ← webhookRepository.update P config id patch
  | .remove id => do let _ ← webhookRepository.remove P config id
  | .attempt deliveryId sequence => do let _ ← dispatcher.attempt P config deliveryId sequence

/-- The webhook that a call changes. -/
def target : Task → Option String
  | .update id _ | .remove id => some id
  | .attempt .. => none

/-- What a call asks for of the webhook `w`. -/
def patch (w : String) : Task → WebhookPatch
  | .update id patch => if id = w then patch else {}
  | _ => {}

/-- The call is to remove the webhook `w`. -/
def removes (w : String) : Task → Bool
  | .remove id => id = w
  | _ => false

/-- The webhook that an attempt is for, where `owner` says whose every delivery is. -/
def recipient (owner : String → String) : Task → String
  | .attempt deliveryId _ => owner deliveryId
  | .update id _ | .remove id => id

end Task

/-! ## 2. The journal -/

/-- Beside a run: who has changed a webhook or found it gone, the latest first; the record that a
call has read; what `changes` was when a call took its first step; and the requests. -/
structure Journal (τ : Type) where
  changes : String → List τ
  read : τ → Option WebhookRecord
  start : τ → Option (String → List τ)
  posted : List (τ × Request)

namespace Journal

/-- Nothing has happened. -/
def init : Journal τ := ⟨fun _ => [], fun _ => none, fun _ => none, []⟩

variable [DecidableEq τ]

/-- The call `i` takes a step. -/
def begin (i : τ) (h : Journal τ) : Journal τ :=
  { h with start := Function.update h.start i (some ((h.start i).getD h.changes)) }

/-- The call `i` has changed the webhook `id`, or found it gone. -/
def change (i : τ) (id : String) (h : Journal τ) : Journal τ :=
  { h with changes := Function.update h.changes id (i :: h.changes id) }

/-- What a step adds. -/
def entry (i : τ) (op : Op) (x : Env) (s : Store) (h : Journal τ) : Journal τ :=
  match op with
  | .getWebhook id =>
    if x.fault ≠ .none then h
    else match s.webhooks id with
      | none => h.change i id
      | some record => { h with read := Function.update h.read i (some record) }
  | .setWebhook id _ | .deleteWebhook id .. => if x.fault = .before then h else h.change i id
  | .post request => { h with posted := (i, request) :: h.posted }
  | _ => h

/-- The journal after a step of the call `i`. -/
def note (i : τ) (op : Op) (x : Env) (s : Store) (h : Journal τ) : Journal τ :=
  (h.begin i).entry i op x s

end Journal

section

variable [DecidableEq τ] (P : Platform) (config : Config) (who : τ → Caller) (call : τ → Task)

/-- The calls, with the journal beside the store. -/
def journalMachine : Machine sig τ Env (Store × Journal τ) :=
  ((machine P).comap who).observe fun i op x s h => h.note i op x s

/-- Every call at its start, with an empty journal. -/
def startTasks (s : Store) : Pool sig (Except Err Unit) τ (Store × Journal τ) where
  store := (s, .init)
  prog i := ((call i).code P config).prog

/-- What the patch does not mention is in the stored record as it was read. -/
structure WebhookPatch.Finds (patch : WebhookPatch) (read stored : WebhookRecord) : Prop where
  url : patch.url = none → read.url = stored.url
  secret : patch.secret = none → read.secret = stored.secret
  active : patch.active = none → read.active = stored.active

/-- The webhook is the stored one, as far as a request depends on it. -/
structure Webhook.Shows (webhook : Webhook) (stored : WebhookRecord) : Prop where
  url : webhook.url = stored.url
  secret : webhook.secret = decryptRecordSecret P config stored.secret
  active : webhook.active = stored.active

/-- An update stores a record only where the webhook still exists, and what it is not asked to
change is as it has read it; a cache entry of an active webhook that has not expired is used only
where it shows the stored record. -/
def UpToDate (i : τ) (op : sig.Op) (x : Env) (s : Store × Journal τ) : Prop :=
  match (op : Op) with
  | .setWebhook id _ => x.fault ≠ .before →
      ∃ read ∈ s.2.read i, ∃ stored ∈ s.1.webhooks id, ((call i).patch id).Finds read stored
  | .cachedWebhook id => ∀ entry ∈ (s.1.processes (who i).proc).webhookCache id,
      x.now < entry.expiresAt → entry.value.active = true →
        ∃ stored ∈ s.1.webhooks id, entry.value.Shows P config stored
  | _ => True

instance (patch : WebhookPatch) (read stored : WebhookRecord) : Decidable (patch.Finds read stored) :=
  decidable_of_iff ((patch.url = none → read.url = stored.url) ∧
      (patch.secret = none → read.secret = stored.secret) ∧
      (patch.active = none → read.active = stored.active))
    ⟨fun h => ⟨h.1, h.2.1, h.2.2⟩, fun h => ⟨h.url, h.secret, h.active⟩⟩

instance (webhook : Webhook) (stored : WebhookRecord) : Decidable (webhook.Shows P config stored) :=
  decidable_of_iff (webhook.url = stored.url ∧
      webhook.secret = decryptRecordSecret P config stored.secret ∧ webhook.active = stored.active)
    ⟨fun h => ⟨h.1, h.2.1, h.2.2⟩, fun h => ⟨h.url, h.secret, h.active⟩⟩

instance (i : τ) (op : sig.Op) (x : Env) (s : Store × Journal τ) :
    Decidable (UpToDate P config who call i op x s) := by
  cases op <;> unfold UpToDate <;> infer_instance

end

/-! ## 3. What reflects the journal -/

/-- `a` is what the latest call asked for that asked for anything. -/
def Asked {α : Type} (f : τ → Option α) : List τ → α → Prop
  | [], _ => True
  | u :: us, a => f u = some a ∨ f u = none ∧ Asked f us a

/-- What a call asks for is superseded only by a later one. -/
theorem Asked.later {α : Type} {f : τ → Option α} {l us : List τ} {u : τ} {a b : α}
    (h : Asked f (l ++ u :: us) a) (hu : f u = some b) : ∃ v ∈ l ++ [u], f v = some a := by
  induction l with
  | nil =>
    rcases h with h | ⟨h, -⟩
    · exact ⟨u, List.mem_singleton_self u, h⟩
    · rw [hu] at h
      cases h
  | cons v l ih =>
    rcases h with h | ⟨-, h⟩
    · exact ⟨v, List.mem_cons_self, h⟩
    · obtain ⟨v', hv', ha⟩ := ih h
      exact ⟨v', List.mem_cons_of_mem _ hv', ha⟩

/-- A URL, a secret and an activity are what the calls `us` have asked for of the webhook `w`. -/
structure Reflects (call : τ → Task) (w : String) (us : List τ) (url : String)
    (secret : Option String) (active : Bool) : Prop where
  url : Asked (fun u => ((call u).patch w).url) us url
  secret : Asked (fun u => ((call u).patch w).secret.map some) us secret
  active : Asked (fun u => ((call u).patch w).active) us active
  kept : ∀ u ∈ us, (call u).removes w = false

/-- Something is signed with the secret and sent with the signature. -/
def SignedWith (P : Platform) (secret : String) (request : Request) : Prop :=
  ∃ t nonce body, request.headers.lookup "X-SmartDrop-Signature" =
    some (signatureHeader P t nonce secret body)

/-- A later journal. -/
structure Journal.Extends (h h' : Journal τ) : Prop where
  changes : ∀ w, h.changes w <:+ h'.changes w
  start : ∀ i first, h.start i = some first → h'.start i = some first

/-- The journal of the webhook `w` was `us` at some moment since the call `i` began. -/
def Journal.Since (i : τ) (w : String) (us : List τ) (h : Journal τ) : Prop :=
  ∃ first, h.start i = some first ∧ first w <:+ us ∧ us <:+ h.changes w

theorem Journal.Extends.refl (h : Journal τ) : h.Extends h := ⟨fun _ => List.suffix_rfl, fun _ _ h => h⟩

theorem Journal.Extends.trans {h₁ h₂ h₃ : Journal τ} (h : h₁.Extends h₂) (h' : h₂.Extends h₃) :
    h₁.Extends h₃ :=
  ⟨fun w => (h.changes w).trans (h'.changes w), fun i first hf => h'.start i first (h.start i first hf)⟩

theorem Journal.Since.extend {i : τ} {w : String} {us : List τ} {h h' : Journal τ}
    (hs : Journal.Since i w us h) (he : h.Extends h') : Journal.Since i w us h' := by
  obtain ⟨first, hfirst, hus, hsuffix⟩ := hs
  exact ⟨first, he.start i first hfirst, hus, hsuffix.trans (he.changes w)⟩

section

variable (P : Platform) (config : Config) (call : τ → Task) (owner : String → String)

/-- The request of the call `i` is made with what reflects the journal at some moment since it
began. -/
def Justified (h : Journal τ) (i : τ) (request : Request) : Prop :=
  ∃ us secret, Journal.Since i ((call i).recipient owner) us h ∧
    Reflects call ((call i).recipient owner) us request.url (some secret) true ∧
    SignedWith P secret request

/-- What holds between any two steps. -/
structure Sound (s : Store × Journal τ) : Prop where
  reflects : ∀ w r, s.1.webhooks w = some r →
    Reflects call w (s.2.changes w) r.url (decryptRecordSecret P config r.secret) r.active
  owned : ∀ d delivery, s.1.deliveries d = some delivery → delivery.webhook_id = owner d
  start : ∀ i first, s.2.start i = some first → ∀ w, first w <:+ s.2.changes w
  posted : ∀ p ∈ s.2.posted, Justified P call owner s.2 p.1 p.2

/-- What a step of the call `i` does. -/
structure Follows (i : τ) (s s' : Store × Journal τ) : Prop where
  sound : Sound P config call owner s'
  extend : s.2.Extends s'.2
  read : ∀ k, k ≠ i → s'.2.read k = s.2.read k

/-- The contract of the call `i`. -/
def taskContract (who : τ → Caller) (i : τ) : Contract sig Env (Store × Journal τ) where
  ok := UpToDate P config who call i
  rely s s' := ∃ j, j ≠ i ∧ (Sound P config call owner s → Follows P config call owner j s s')
  guar s s' := Sound P config call owner s → Follows P config call owner i s s'

/-- An assertion about the journal, where the store is sound. -/
def Knows (K : Journal τ → Prop) (s : Store × Journal τ) : Prop :=
  Sound P config call owner s ∧ K s.2

end

/-! ## 4. Steps -/

section

variable [DecidableEq τ] {P : Platform} {config : Config} {who : τ → Caller} {call : τ → Task}
  {owner : String → String} {i : τ} {s s' : Store × Journal τ}

/-- An assertion that only the steps of the call `i` can make false. -/
def Lasting (i : τ) (K : Journal τ → Prop) : Prop :=
  ∀ h h', h.Extends h' → h'.read i = h.read i → K h → K h'

omit [DecidableEq τ] in
theorem stable_knows {K : Journal τ → Prop} (hK : Lasting i K) :
    Stable (taskContract P config call owner who i).rely (Knows P config call owner K) := by
  rintro s s' ⟨hsound, hk⟩ ⟨j, hj, hfollows⟩
  have h := hfollows hsound
  exact ⟨h.sound, hK _ _ h.extend (h.read i hj.symm) hk⟩

omit [DecidableEq τ] in
theorem Justified.extend {h h' : Journal τ} {request : Request}
    (hj : Justified P call owner h i request) (he : h.Extends h') :
    Justified P call owner h' i request := by
  obtain ⟨us, secret, hsince, hreflects, hsigned⟩ := hj
  exact ⟨us, secret, hsince.extend he, hreflects, hsigned⟩

/-- The first step of a call sets its start, and a later one does not move it. -/
theorem begin_extends (h : Journal τ) : h.Extends (h.begin i) := by
  refine ⟨fun w => List.suffix_rfl, fun k first hf => ?_⟩
  by_cases hk : k = i
  · rw [hk] at hf ⊢
    simp [Journal.begin, hf]
  · simpa [Journal.begin, hk] using hf

theorem Sound.begin {s : Store} {h : Journal τ} (hs : Sound P config call owner (s, h)) :
    Sound P config call owner (s, h.begin i) := by
  refine ⟨hs.reflects, hs.owned, fun k first hf w => ?_, fun p hp =>
    (hs.posted p hp).extend (begin_extends h)⟩
  by_cases hk : k = i
  · rw [hk] at hf
    cases hstart : h.start i with
    | none =>
      have hfirst : h.changes = first := by simpa [Journal.begin, hstart] using hf
      rw [← hfirst]
      exact List.suffix_rfl
    | some first' =>
      have hfirst : first' = first := by simpa [Journal.begin, hstart] using hf
      rw [← hfirst]
      exact hs.start i first' hstart w
  · exact hs.start k first (by simpa [Journal.begin, hk] using hf) w

theorem begun (h : Journal τ) : ∃ first, (h.begin i).start i = some first :=
  ⟨(h.start i).getD h.changes, by simp [Journal.begin]⟩

/-- A command that fails before it is executed leaves no entry. -/
theorem entry_of_before {op : Op} {x : Env} (s : Store) (h : Journal τ) (hx : x.fault = .before)
    (hop : op.isLocal = false) : h.entry i op x s = h := by
  cases op with
  | getWebhook | setWebhook | deleteWebhook => simp [Journal.entry, hx]
  | post => cases hop
  | _ => rfl

/-- A command that fails is not known to have been read. -/
theorem entry_read_of_fault {op : Op} {x : Env} (s : Store) (h : Journal τ)
    (hx : x.fault ≠ .none) : (h.entry i op x s).read = h.read := by
  cases op with
  | getWebhook => simp [Journal.entry, hx]
  | setWebhook | deleteWebhook =>
    simp only [Journal.entry]
    split <;> rfl
  | _ => rfl

/-- **The rule for one command**: what it does where it is executed. -/
theorem satE_entry {op : Op} {K : Journal τ → Prop} {Q : op.Ret → Journal τ → Prop}
    {E : Err → Store × Journal τ → Prop} (hK : Lasting i K) (hQ : ∀ r, Lasting i (Q r))
    (hE : ∀ e s, Knows P config call owner K s → E e s)
    (h : ∀ x s, Knows P config call owner K s → (∃ first, s.2.start i = some first) →
      UpToDate P config who call i op x s → (x.fault = .before → op.isLocal = true) →
      let s' := ((s.1.exec P (who i) x op).2, s.2.entry i op x s.1)
      Follows P config call owner i s s' ∧
        (x.fault = .none ∨ op.isLocal = true → Q (s.1.exec P (who i) x op).1 s'.2)) :
    SatE (journalMachine P who) i (taskContract P config call owner who i) (redis op)
      (Knows P config call owner K) (fun r => Knows P config call owner (Q r)) E := by
  rintro x ⟨s, j⟩ ⟨hsound, hk⟩ hok
  have hbegin : Knows P config call owner K (s, j.begin i) :=
    ⟨hsound.begin, hK _ _ (begin_extends j) rfl hk⟩
  have hfirst : Follows P config call owner i (s, j) (s, j.begin i) :=
    ⟨hsound.begin, begin_extends j, fun _ _ => rfl⟩
  by_cases hfail : x.fault = .before ∧ op.isLocal = false
  · -- nothing is executed
    have hexec : (journalMachine P who).exec i op x (s, j) =
        (.error "Redis command failed", s, j.begin i) := by
      simp only [journalMachine, Machine.observe, Machine.comap, machine, Journal.note,
        entry_of_before s _ hfail.1 hfail.2, hfail.1, hfail.2]
      rfl
    rw [hexec]
    exact ⟨fun _ => hfirst, _, stable_knows hK, hbegin, fun _ hs => hE _ _ hs⟩
  have hlocal : x.fault = .before → op.isLocal = true := by
    intro hx
    simpa using fun hop => hfail ⟨hx, hop⟩
  obtain ⟨hfollows, hq⟩ := h x (s, j.begin i) hbegin (begun j) hok hlocal
  have hguar : Follows P config call owner i (s, j) ((s.exec P (who i) x op).2,
      (j.begin i).entry i op x s) :=
    ⟨hfollows.sound, hfirst.extend.trans hfollows.extend, hfollows.read⟩
  by_cases hdone : x.fault = .none ∨ op.isLocal = true
  · have hexec : (journalMachine P who).exec i op x (s, j) =
        (.ok (s.exec P (who i) x op).1, (s.exec P (who i) x op).2,
          (j.begin i).entry i op x s) := by
      rcases hdone with hnone | hop
      · simp only [journalMachine, Machine.observe, Machine.comap, machine_exec_ok P s hnone,
          Journal.note]
      · simp [journalMachine, Machine.observe, Machine.comap, machine, Journal.note, hop]
    rw [hexec]
    exact ⟨fun _ => hguar, _, stable_knows (hQ _), ⟨hfollows.sound, hq hdone⟩, fun _ hs => hs⟩
  · -- the reply is lost
    have hop : op.isLocal = false := by
      simpa using fun hop => hdone (.inr hop)
    have hafter : x.fault = .after := by
      cases hx : x.fault with
      | none => exact absurd (.inl hx) hdone
      | before =>
        rw [hlocal hx] at hop
        cases hop
      | after => rfl
    have hexec : (journalMachine P who).exec i op x (s, j) =
        (.error "Redis command failed", (s.exec P (who i) x op).2,
          (j.begin i).entry i op x s) := by
      simp only [journalMachine, Machine.observe, Machine.comap, machine, Journal.note, hop, hafter]
      rfl
    have hread : ((j.begin i).entry i op x s).read i = (j.begin i).read i := by
      rw [entry_read_of_fault s _ (by simp [hafter])]
    rw [hexec]
    exact ⟨fun _ => hguar, _, stable_knows hK,
      ⟨hfollows.sound, hK _ _ hfollows.extend hread hbegin.2⟩, fun _ hs => hE _ _ hs⟩

/-! ## 5. Commands apart from the journal -/

/-- Commands that are not entered in the journal, and change no webhook. -/
def Op.Apart (owner : String → String) : Op → Prop
  | .getWebhook _ | .insertWebhook .. | .setWebhook .. | .deleteWebhook .. | .insertDelivery ..
  | .post _ => False
  | .updateDelivery id existing .. => existing.webhook_id = owner id
  | _ => True

/-- A delivery is read as the one of its owner. -/
def Owned (owner : String → String) : (op : Op) → Except Err op.Ret → Prop
  | .getDelivery id, reply => ∀ delivery, reply = .ok (some delivery) → delivery.webhook_id = owner id
  | _, _ => True

theorem Op.Apart.entry {op : Op} (hop : op.Apart owner) (x : Env) (s : Store) (h : Journal τ) :
    h.entry i op x s = h := by
  cases op with
  | getWebhook | setWebhook | deleteWebhook | post => exact hop.elim
  | _ => rfl

omit [DecidableEq τ] in
theorem Op.Apart.webhooks {op : Op} (hop : op.Apart owner) (caller : Caller) (x : Env) (s : Store) :
    (s.exec P caller x op).2.webhooks = s.webhooks := by
  cases op with
  | insertWebhook | setWebhook | deleteWebhook | post => exact hop.elim
  | cachedWebhook id =>
    simp only [Store.exec]
    split
    · rfl
    · split <;> rfl
  | assertPublicTarget url =>
    simp only [Store.exec]
    split <;> rfl
  | _ => rfl

omit [DecidableEq τ] in
theorem Op.Apart.owned {op : Op} (hop : op.Apart owner) (caller : Caller) (x : Env) {s : Store}
    (hs : ∀ d delivery, s.deliveries d = some delivery → delivery.webhook_id = owner d) :
    ∀ d delivery, (s.exec P caller x op).2.deliveries d = some delivery →
      delivery.webhook_id = owner d := by
  cases op with
  | insertWebhook | setWebhook | deleteWebhook | insertDelivery | post => exact hop.elim
  | updateDelivery id existing patch score =>
    intro d delivery hd
    by_cases he : d = id
    · have hpatched : existing.patched patch = delivery := by simpa [Store.exec, he] using hd
      rw [← hpatched, he]
      exact hop
    · exact hs d delivery (by simpa [Store.exec, he] using hd)
  | cachedWebhook id =>
    simp only [Store.exec]
    split
    · exact hs
    · split <;> exact hs
  | assertPublicTarget url =>
    simp only [Store.exec]
    split <;> exact hs
  | _ => exact hs

omit [DecidableEq τ] in
/-- Where no webhook is changed and the journal is extended by nothing that matters. -/
theorem Sound.of_webhooks {s t : Store} {h : Journal τ} (hs : Sound P config call owner (s, h))
    (hwebhooks : t.webhooks = s.webhooks)
    (howned : ∀ d delivery, t.deliveries d = some delivery → delivery.webhook_id = owner d) :
    Sound P config call owner (t, h) :=
  ⟨by rw [hwebhooks]; exact hs.reflects, howned, hs.start, hs.posted⟩

theorem Op.Apart.follows {op : Op} (hop : op.Apart owner) (x : Env)
    (hs : Sound P config call owner s) :
    Follows P config call owner i s ((s.1.exec P (who i) x op).2, s.2.entry i op x s.1) := by
  rw [hop.entry]
  exact ⟨hs.of_webhooks (hop.webhooks (who i) x s.1) (hop.owned (who i) x hs.owned),
    Journal.Extends.refl _, fun _ _ => rfl⟩

variable (who) in
/-- What such a command leaves, whether it fails or not. -/
theorem Op.Apart.knows {op : Op} (hop : op.Apart owner) {K : Journal τ → Prop} (hK : Lasting i K)
    (x : Env) (hs : Knows P config call owner K s) :
    Follows P config call owner i s ((journalMachine P who).exec i op x s).2 ∧
      Knows P config call owner K ((journalMachine P who).exec i op x s).2 := by
  obtain ⟨s, h⟩ := s
  have hsound : Sound P config call owner
      (((machine P).exec (who i) op x s).2, h.begin i) := by
    refine machine_store_of (Q := fun t => Sound P config call owner (t, h.begin i)) hs.1.begin ?_
    exact hs.1.begin.of_webhooks (hop.webhooks (who i) x s) (hop.owned (who i) x hs.1.owned)
  have hjournal : ((journalMachine P who).exec i op x (s, h)).2 =
      (((machine P).exec (who i) op x s).2, h.begin i) := by
    simp only [journalMachine, Machine.observe, Machine.comap, Journal.note, hop.entry]
  rw [hjournal]
  exact ⟨⟨hsound, begin_extends h, fun _ _ => rfl⟩, hsound, hK _ _ (begin_extends h) rfl hs.2⟩

/-- What is read of a delivery. -/
theorem owned_exec (op : Op) (x : Env) (hs : Sound P config call owner s) :
    Owned owner op ((journalMachine P who).exec i op x s).1 := by
  cases op with
  | getDelivery id =>
    intro delivery hd
    refine hs.owned id delivery ?_
    simp only [journalMachine, Machine.observe, Machine.comap, machine] at hd
    split at hd
    · exact Except.ok.inj hd
    · split at hd
      · exact Except.ok.inj hd
      · cases hd
      · cases hd
  | _ => trivial

/-- A piece of code with such commands only, which returns with `Q`. -/
def Tame (owner : String → String) {α : Type} (Q : α → Prop) (t : Code α) : Prop :=
  Throws.Assuming (S := sig) (Owned owner) (Op.Apart owner) Q t

/-- **The rule for such a piece of code.** -/
theorem satE_tame {α : Type} {t : Code α} {Q : α → Prop} (ht : Tame owner Q t)
    {K : Journal τ → Prop} (hK : Lasting i K) {E : Err → Store × Journal τ → Prop}
    (hE : ∀ e s, Knows P config call owner K s → E e s) :
    SatE (journalMachine P who) i (taskContract P config call owner who i) t
      (Knows P config call owner K) (fun a s => Q a ∧ Knows P config call owner K s) E := by
  refine SatE.mono (SatE.assuming (stable_knows hK) (fun op hop x s hs _ => ?_) ht)
    (fun _ h => h) (fun _ _ h => h) hE
  obtain ⟨hfollows, hknows⟩ := hop.knows who hK x hs
  exact ⟨fun _ => hfollows, hknows, owned_exec op x hs.1⟩

end

/-! ## 6. Tame pieces of an attempt -/

section

variable {owner : String → String} {d : String}

theorem tame_redis {op : Op} (hop : op.Apart owner) :
    Tame owner (fun r => Owned owner op (.ok r)) (redis op) := by
  refine ⟨hop, fun r hr a ha => ?_⟩
  have hok : r = .ok a := ha
  rwa [hok] at hr

theorem tame_step {op : Op} (hop : op.Apart owner) : Tame owner (fun _ => True) (redis op) :=
  (tame_redis hop).mono fun _ _ => trivial

theorem tame_unchecked {op : Op} (hop : op.Apart owner) :
    Tame owner (fun _ => True) (unchecked op) :=
  Throws.Assuming.tryCatch (Throws.Assuming.bind (tame_step hop) fun _ _ =>
    Throws.Assuming.pure trivial) fun _ => Throws.Assuming.pure trivial

theorem tame_findById :
    Tame owner (fun o => ∀ delivery, o = some delivery → delivery.webhook_id = owner d)
      (deliveryRepository.findById d) := by
  refine Throws.Assuming.tryCatch ((tame_redis (by exact trivial)).mono fun o ho => ?_) fun _ =>
    Throws.Assuming.pure fun _ hnone => by cases hnone
  rintro delivery rfl
  exact ho delivery rfl

theorem tame_update (patch : DeliveryPatch) :
    Tame owner (fun _ => True) (deliveryRepository.update d patch) := by
  refine Throws.Assuming.bind (tame_redis trivial) ?_
  rintro (_ | existing) hexisting
  · exact Throws.Assuming.pure trivial
  · have hscore : Tame owner (fun _ => True) (deliveryRepository.indexScore existing) := by
      rw [deliveryRepository.indexScore]
      split
      · exact Throws.Assuming.pure trivial
      · exact tame_step trivial
    refine Throws.Assuming.bind hscore fun score _ => ?_
    refine Throws.Assuming.bind (tame_step (hexisting existing rfl)) fun _ _ => ?_
    exact Throws.Assuming.bind (tame_unchecked trivial) fun _ _ => Throws.Assuming.pure trivial

theorem tame_ensureTrace (delivery : Delivery) :
    Tame owner (fun _ => True) (dispatcher.ensureTrace d delivery) := by
  rw [dispatcher.ensureTrace]
  split
  · exact Throws.Assuming.pure trivial
  · refine Throws.Assuming.bind (R := fun _ => True) ?_ fun traceId _ => ?_
    · exact Throws.Assuming.bind (tame_step trivial) fun _ _ => Throws.Assuming.pure trivial
    · exact Throws.Assuming.bind (tame_update _) fun _ _ => Throws.Assuming.pure trivial

theorem tame_markInactive : Tame owner (fun _ => True) (dispatcher.markInactive d) :=
  Throws.Assuming.bind (tame_step trivial) fun _ _ => tame_update _

theorem tame_encryptBody (P : Platform) (body : String) (secret : Option String) :
    Tame owner (fun _ => True) (dispatcher.encryptBody P body secret) :=
  Throws.Assuming.bind (tame_step trivial) fun _ _ => Throws.Assuming.pure trivial

/-- The headers are signed with the secret. -/
theorem tame_buildHeaders (P : Platform) (secret : Option String)
    (body eventType deliveryId : String) (requestId : Option String) (sequence : Option ℕ) :
    Tame owner (fun headers => ∃ k t nonce, secret = some k ∧
        headers.lookup "X-SmartDrop-Signature" = some (signatureHeader P t nonce k body))
      (dispatcher.buildHeaders P secret body eventType deliveryId requestId sequence) := by
  refine Throws.Assuming.bind (tame_step trivial) fun now _ => ?_
  refine Throws.Assuming.bind (tame_step trivial) fun nonce _ => ?_
  cases hsign : sign P now nonce secret body with
  | error e => exact Throws.Assuming.throw _
  | ok signature =>
    refine Throws.Assuming.pure ?_
    rw [sign] at hsign
    split at hsign
    · cases hsign
    · rename_i k hk
      obtain rfl := Except.ok.inj hsign
      exact ⟨k, now / 1000, nonce, (Option.filter_eq_some_iff.mp hk).1, by simp [List.lookup_cons]⟩

theorem tame_recordDeliveryEnd (webhookId : String) (success : Bool) (attempts latencyMs : ℕ) :
    Tame owner (fun _ => True)
      (dispatcher.recordDeliveryEnd d webhookId success attempts latencyMs) :=
  Throws.Assuming.bind (tame_step trivial) fun _ _ => tame_unchecked trivial

theorem tame_recordOutcome (config : Config) (delivery : Delivery) (webhook : Webhook)
    (traceId : String) (latencyMs now : ℕ) (o : dispatcher.Outcome) :
    Tame owner (fun _ => True)
      (dispatcher.recordOutcome config d delivery webhook traceId latencyMs now o) := by
  rw [dispatcher.recordOutcome]
  split
  · exact Throws.Assuming.bind (tame_recordDeliveryEnd _ _ _ _) fun _ _ => tame_update _
  · split
    · refine Throws.Assuming.bind (tame_recordDeliveryEnd _ _ _ _) fun _ _ => ?_
      refine Throws.Assuming.bind (tame_step trivial) fun random _ => ?_
      refine Throws.Assuming.bind (tame_step trivial) fun nextRetryAt _ => ?_
      refine Throws.Assuming.bind (tame_step trivial) fun scheduledAt _ => ?_
      exact Throws.Assuming.bind (tame_step trivial) fun _ _ => tame_update _
    · refine Throws.Assuming.bind (tame_recordDeliveryEnd _ _ _ _) fun _ _ => ?_
      refine Throws.Assuming.bind (R := fun _ => True) ?_ fun _ _ => tame_update _
      refine Throws.Assuming.tryCatch ?_ fun _ => Throws.Assuming.pure trivial
      exact Throws.Assuming.bind (tame_step trivial) fun _ _ => tame_step trivial

end

/-! ## 7. Updates and removals -/

section

variable [DecidableEq τ] {P : Platform} {config : Config} {who : τ → Caller} {call : τ → Task}
  {owner : String → String} {i : τ} {s : Store × Journal τ} {id : String}

omit [DecidableEq τ] in
theorem Follows.refl (hs : Sound P config call owner s) : Follows P config call owner i s s :=
  ⟨hs, Journal.Extends.refl _, fun _ _ => rfl⟩

variable (i id) in
omit [DecidableEq τ] in
theorem change_extends (h : Journal τ) : h.Extends (h.change i id) := by
  refine ⟨fun w => ?_, fun _ _ hf => hf⟩
  by_cases hw : w = id
  · rw [hw]
    simp [Journal.change]
  · simp [Journal.change, hw]

omit [DecidableEq τ] in
/-- The webhook `id` is changed, and what is stored of it then reflects that. -/
theorem Sound.change {t : Store} (hs : Sound P config call owner s)
    (hothers : ∀ w, w ≠ id → t.webhooks w = s.1.webhooks w)
    (howned : ∀ d delivery, t.deliveries d = some delivery → delivery.webhook_id = owner d)
    (hself : ∀ r, t.webhooks id = some r → Reflects call id (i :: s.2.changes id) r.url
      (decryptRecordSecret P config r.secret) r.active) :
    Follows P config call owner i s (t, s.2.change i id) := by
  have hextends := change_extends i id s.2
  refine ⟨⟨fun w r hr => ?_, howned, fun k first hf w => ?_, fun p hp => ?_⟩, hextends,
    fun _ _ => rfl⟩
  · by_cases hw : w = id
    · rw [hw] at hr ⊢
      simpa [Journal.change] using hself r hr
    · have hr : s.1.webhooks w = some r := by rw [← hothers w hw]; exact hr
      simpa [Journal.change, hw] using hs.reflects w r hr
  · exact (hs.start k first hf w).trans (hextends.changes w)
  · exact (hs.posted p hp).extend hextends

/-- A record is read. -/
theorem follows_getWebhook (x : Env) (hs : Sound P config call owner s) :
    Follows P config call owner i s (s.1, s.2.entry i (.getWebhook id) x s.1) := by
  simp only [Journal.entry]
  split
  · exact Follows.refl hs
  · split
    · rename_i hnone
      refine hs.change (fun _ _ => rfl) hs.owned fun r hr => ?_
      rw [hnone] at hr
      cases hr
    · refine ⟨⟨hs.reflects, hs.owned, hs.start, fun p hp => (hs.posted p hp).extend ?_⟩, ?_,
        fun k hk => by simp [hk]⟩
      · exact ⟨fun _ => List.suffix_rfl, fun _ _ hf => hf⟩
      · exact ⟨fun _ => List.suffix_rfl, fun _ _ hf => hf⟩

omit [DecidableEq τ] in
theorem lasting_true : Lasting i fun _ : Journal τ => True := fun _ _ _ _ _ => trivial

omit [DecidableEq τ] in
theorem lasting_read (record : WebhookRecord) :
    Lasting i fun h : Journal τ => h.read i = some record := by
  intro h h' _ hread hk
  rw [hread]
  exact hk

omit [DecidableEq τ] in
theorem lasting_changes : Lasting i fun h : Journal τ => i ∈ h.changes id :=
  fun _ _ he _ hk => (he.changes id).subset hk

/-- What a change knows after it has read the record: it is gone, or this is what it has read. -/
def HasRead (i : τ) (id : String) : Option WebhookRecord → Journal τ → Prop
  | none, h => i ∈ h.changes id
  | some record, h => h.read i = some record

theorem satE_readRecord :
    SatE (journalMachine P who) i (taskContract P config call owner who i) (redis (.getWebhook id))
      (Knows P config call owner fun _ => True)
      (fun o => Knows P config call owner (HasRead i id o))
      fun _ => Sound P config call owner := by
  refine satE_entry lasting_true (fun o => ?_) (fun _ _ hs => hs.1) fun x s hs _ _ _ =>
    ⟨follows_getWebhook x hs.1, fun hdone => ?_⟩
  · cases o with
    | none => exact lasting_changes
    | some record => exact lasting_read record
  · have hnone : x.fault = .none := hdone.resolve_right (by simp [Op.isLocal])
    cases hr : s.1.webhooks id with
    | none => simp [Store.exec, HasRead, Journal.entry, Journal.change, hnone, hr]
    | some record => simp [Store.exec, HasRead, Journal.entry, hnone, hr]

/-- The secret that is stored is the one that is asked for, or the one that was read. -/
theorem tame_nextSecret (hopens : Opens P) (existing : WebhookRecord) (patch : WebhookPatch) :
    Tame owner (fun secret => (patch.secret = none → secret = existing.secret) ∧
        ∀ k, patch.secret = some k → decryptRecordSecret P config secret = some k)
      (webhookRepository.nextSecret P config existing patch) := by
  rw [webhookRepository.nextSecret]
  split
  · rename_i secret hsecret
    have hpatch : patch.secret = some secret := (Option.filter_eq_some_iff.mp hsecret).1
    refine Throws.Assuming.bind (tame_step trivial) fun iv _ => ?_
    cases hpacked : encryptSecret P config iv secret with
    | error e => exact Throws.Assuming.throw _
    | ok packed =>
      refine Throws.Assuming.pure ⟨fun hnone => ?_, fun k hk => ?_⟩
      · rw [hpatch] at hnone
        cases hnone
      · rw [hpatch] at hk
        rw [← Option.some.inj hk]
        exact decrypt_encryptSecret config hopens hpacked
  · rename_i hsecret
    refine Throws.Assuming.pure ⟨fun hnone => by rw [hnone]; rfl, fun k hk => ?_⟩
    -- an empty secret is stored as it is
    have hempty : k = "" := by
      by_contra hne
      simp [hk, Option.filter, hne] at hsecret
    rw [hk, hempty]
    simp [decryptRecordSecret, show isEncrypted "" = false by decide]

theorem tame_reindex (existing : WebhookRecord) (events : Option (List String)) :
    Tame owner (fun _ => True) (webhookRepository.reindex id existing events) := by
  have hremove : ∀ evts, Tame owner (fun _ => True)
      (webhookRepository.removeEventIndexes id evts) := by
    intro evts
    induction evts with
    | nil => exact Throws.Assuming.pure trivial
    | cons evt evts ih => exact Throws.Assuming.bind (tame_unchecked trivial) fun _ _ => ih
  have hadd : ∀ evts, Tame owner (fun _ => True) (webhookRepository.addEventIndexes id evts) := by
    intro evts
    induction evts with
    | nil => exact Throws.Assuming.pure trivial
    | cons evt evts ih => exact Throws.Assuming.bind (tame_unchecked trivial) fun _ _ => ih
  cases events with
  | none => exact Throws.Assuming.pure trivial
  | some events => exact Throws.Assuming.bind (hremove _) fun _ _ => hadd _

/-- What `update` stores reflects its change. -/
theorem satE_storeRecord {existing record : WebhookRecord} {patch : WebhookPatch}
    (hcall : call i = .update id patch) (hurl : record.url = patch.url.getD existing.url)
    (hactive : record.active = patch.active.getD existing.active)
    (hkeep : patch.secret = none → record.secret = existing.secret)
    (hsecret : ∀ k, patch.secret = some k → decryptRecordSecret P config record.secret = some k) :
    SatE (journalMachine P who) i (taskContract P config call owner who i)
      (redis (.setWebhook id record)) (Knows P config call owner fun h => h.read i = some existing)
      (fun _ => Knows P config call owner fun h => i ∈ h.changes id)
      fun _ => Sound P config call owner := by
  refine satE_entry (lasting_read existing) (fun _ => lasting_changes) (fun _ _ hs => hs.1) ?_
  rintro x s ⟨hsound, hread⟩ - hok hexec
  have hbefore : x.fault ≠ .before := fun hx => by simpa [Op.isLocal] using hexec hx
  have hpatch : (call i).patch id = patch := by simp [hcall, Task.patch]
  obtain ⟨read, hr, stored, hstored, hfinds⟩ := hok hbefore
  obtain rfl : existing = read := Option.some.inj (hread.symm.trans hr)
  rw [hpatch] at hfinds
  have hold := hsound.reflects id stored hstored
  have hreflects : Reflects call id (i :: s.2.changes id) record.url
      (decryptRecordSecret P config record.secret) record.active := by
    refine ⟨?_, ?_, ?_, fun u hu => ?_⟩
    · cases hp : patch.url with
      | none =>
        refine .inr ⟨by simp [hpatch, hp], ?_⟩
        rw [hurl, hp, Option.getD_none, hfinds.url hp]
        exact hold.url
      | some url => exact .inl (by simp [hpatch, hp, hurl])
    · cases hp : patch.secret with
      | none =>
        refine .inr ⟨by simp [hpatch, hp], ?_⟩
        rw [hkeep hp, hfinds.secret hp]
        exact hold.secret
      | some k => exact .inl (by simp [hpatch, hp, hsecret k hp])
    · cases hp : patch.active with
      | none =>
        refine .inr ⟨by simp [hpatch, hp], ?_⟩
        rw [hactive, hp, Option.getD_none, hfinds.active hp]
        exact hold.active
      | some active => exact .inl (by simp [hpatch, hp, hactive])
    · rcases List.mem_cons.mp hu with rfl | hu
      · rw [hcall]
        rfl
      · exact hold.kept u hu
  have hentry : s.2.entry i (.setWebhook id record) x s.1 = s.2.change i id := by
    simp [Journal.entry, hbefore]
  rw [hentry]
  refine ⟨hsound.change (fun w hw => by simp [Store.exec, hw]) hsound.owned fun r hr => ?_,
    fun _ => by simp [Journal.change]⟩
  have hrecord : record = r := by simpa [Store.exec] using hr
  rw [← hrecord]
  exact hreflects

/-- `remove` leaves nothing that would have to reflect it. -/
theorem satE_dropRecord {existing : WebhookRecord} (deliveryIds : List String) :
    SatE (journalMachine P who) i (taskContract P config call owner who i)
      (redis (.deleteWebhook id existing deliveryIds))
      (Knows P config call owner fun h => h.read i = some existing)
      (fun _ => Knows P config call owner fun h => i ∈ h.changes id)
      fun _ => Sound P config call owner := by
  refine satE_entry (lasting_read existing) (fun _ => lasting_changes) (fun _ _ hs => hs.1) ?_
  rintro x s ⟨hsound, hread⟩ - - hexec
  have hbefore : x.fault ≠ .before := fun hx => by simpa [Op.isLocal] using hexec hx
  have hentry : s.2.entry i (.deleteWebhook id existing deliveryIds) x s.1 = s.2.change i id := by
    simp [Journal.entry, hbefore]
  rw [hentry]
  refine ⟨hsound.change (fun w hw => by simp [Store.exec, hw]) (fun d delivery hd => ?_)
    (fun r hr => ?_), fun _ => by simp [Journal.change]⟩
  · simp only [Store.exec] at hd
    split at hd
    · cases hd
    · exact hsound.owned d delivery hd
  · simp [Store.exec] at hr

/-- **`update`.** -/
theorem update_changes (hopens : Opens P) {patch : WebhookPatch}
    (hcall : call i = .update id patch) :
    SatE (journalMachine P who) i (taskContract P config call owner who i)
      (webhookRepository.update P config id patch) (Knows P config call owner fun _ => True)
      (fun _ => Knows P config call owner fun h => i ∈ h.changes id)
      fun _ => Sound P config call owner := by
  refine SatE.bind satE_readRecord ?_
  rintro (_ | existing)
  · exact SatE.pure fun _ hs => hs
  have hlast := lasting_read (i := i) existing
  refine SatE.bind (satE_tame (tame_nextSecret hopens existing patch) hlast fun _ _ hs => hs.1)
    fun secret => SatE.assume fun ⟨hkeep, hsecret⟩ => ?_
  refine SatE.bind (satE_tame (tame_step (by exact trivial)) hlast fun _ _ hs => hs.1)
    fun now => SatE.assume fun _ => ?_
  refine SatE.bind (satE_tame (tame_reindex existing patch.events) hlast fun _ _ hs => hs.1)
    fun _ => SatE.assume fun _ => ?_
  exact SatE.bind (satE_storeRecord hcall rfl rfl hkeep hsecret) fun _ => SatE.pure fun _ hs => hs

/-- **`remove`.** -/
theorem remove_changes :
    SatE (journalMachine P who) i (taskContract P config call owner who i)
      (webhookRepository.remove P config id) (Knows P config call owner fun _ => True)
      (fun _ => Knows P config call owner fun h => i ∈ h.changes id)
      fun _ => Sound P config call owner := by
  refine SatE.bind satE_readRecord ?_
  rintro (_ | existing)
  · exact SatE.pure fun _ hs => hs
  refine SatE.bind (satE_tame (tame_step (by exact trivial)) (lasting_read existing)
    fun _ _ hs => hs.1) fun deliveryIds => SatE.assume fun _ => ?_
  exact SatE.bind (satE_dropRecord deliveryIds) fun _ => SatE.pure fun _ hs => hs

end

/-! ## 8. Attempts -/

section

variable [DecidableEq τ] {P : Platform} {config : Config} {who : τ → Caller} {call : τ → Task}
  {owner : String → String} {i : τ} {w : String}

/-- The URL and the secret of the webhook reflect the journal of `w` at some moment since the call
`i` began, and the webhook was active. -/
def Chosen (call : τ → Task) (i : τ) (w : String) (webhook : Webhook) (h : Journal τ) : Prop :=
  ∃ us, Journal.Since i w us h ∧ Reflects call w us webhook.url webhook.secret true

variable (call i w) in
omit [DecidableEq τ] in
theorem lasting_chosen (webhook : Webhook) : Lasting i (Chosen call i w webhook) := by
  rintro h h' he - ⟨us, hsince, hreflects⟩
  exact ⟨us, hsince.extend he, hreflects⟩

/-- What an attempt has found, if it is active. -/
def Found (call : τ → Task) (i : τ) (w : String) (o : Option Webhook) (h : Journal τ) : Prop :=
  ∀ webhook, o = some webhook → webhook.active = true → Chosen call i w webhook h

omit [DecidableEq τ] in
theorem lasting_found (o : Option Webhook) : Lasting i (Found call i w o) :=
  fun h h' he hread hfound webhook ho hactive =>
    lasting_chosen call i w webhook h h' he hread (hfound webhook ho hactive)

omit [DecidableEq τ] in
/-- What shows an active stored record is chosen. -/
theorem chosen_of_shows {s : Store × Journal τ} (hs : Sound P config call owner s)
    (hstart : ∃ first, s.2.start i = some first) {webhook : Webhook} {stored : WebhookRecord}
    (hstored : s.1.webhooks w = some stored) (hshows : webhook.Shows P config stored)
    (hactive : webhook.active = true) : Chosen call i w webhook s.2 := by
  obtain ⟨first, hfirst⟩ := hstart
  refine ⟨s.2.changes w, ⟨first, hfirst, hs.start i first hfirst w, List.suffix_rfl⟩, ?_⟩
  have hreflects := hs.reflects w stored hstored
  rwa [← hshows.url, ← hshows.secret, ← hshows.active, hactive] at hreflects

/-- The cache answers with what may be used, or not at all. -/
theorem satE_lookup :
    SatE (journalMachine P who) i (taskContract P config call owner who i)
      (redis (.cachedWebhook w)) (Knows P config call owner fun _ => True)
      (fun o => Knows P config call owner (Found call i w o)) fun _ => Sound P config call owner := by
  refine satE_entry lasting_true lasting_found (fun _ _ hs => hs.1) fun x s hs hstart hok _ =>
    ⟨Op.Apart.follows (by exact trivial) x hs.1, fun _ webhook ho hactive => ?_⟩
  simp only [Store.exec] at ho
  split at ho
  · cases ho
  · rename_i entry hentry
    split at ho
    · rename_i hfresh
      obtain rfl := Option.some.inj ho
      obtain ⟨stored, hstored, hshows⟩ := hok entry hentry hfresh hactive
      exact chosen_of_shows hs.1 hstart hstored hshows hactive
    · cases ho

/-- So does the store. -/
theorem satE_load :
    SatE (journalMachine P who) i (taskContract P config call owner who i)
      (webhookRepository.findById P config w) (Knows P config call owner fun _ => True)
      (fun o => Knows P config call owner (Found call i w o)) fun _ => Sound P config call owner := by
  refine SatE.tryCatch (E := fun _ => Sound P config call owner) ?_ fun _ =>
    SatE.pure fun s hs => ⟨hs, fun _ hnone => by cases hnone⟩
  refine SatE.bind (Q := fun record => Knows P config call owner
    (Found call i w (record.map (normalize P config)))) ?_ fun record => SatE.pure fun _ hs => hs
  refine satE_entry lasting_true (fun _ => lasting_found _) (fun _ _ hs => hs.1)
    fun x s hs hstart _ _ => ⟨follows_getWebhook x hs.1, fun _ webhook ho hactive => ?_⟩
  obtain ⟨stored, hstored, rfl⟩ := Option.map_eq_some_iff.mp ho
  have hchosen := chosen_of_shows hs.1 hstart (show s.1.webhooks w = some stored from hstored)
    ⟨rfl, rfl, rfl⟩ hactive
  obtain ⟨us, hsince, hreflects⟩ := hchosen
  exact ⟨us, hsince.extend (follows_getWebhook x hs.1).extend, hreflects⟩

theorem satE_choose :
    SatE (journalMachine P who) i (taskContract P config call owner who i)
      (dispatcher.getWebhookForAttempt P config w) (Knows P config call owner fun _ => True)
      (fun o => Knows P config call owner (Found call i w o)) fun _ => Sound P config call owner := by
  refine SatE.bind satE_lookup ?_
  rintro (_ | webhook)
  · refine SatE.bind (satE_load.mono (fun s hs => ⟨hs.1, trivial⟩) (fun _ _ h => h)
      fun _ _ h => h) ?_
    rintro (_ | webhook)
    · exact SatE.pure fun _ hs => hs
    · refine SatE.bind (satE_tame (tame_step (by exact trivial)) (lasting_found _)
        fun _ _ hs => hs.1) fun _ => SatE.assume fun _ => ?_
      exact SatE.pure fun _ hs => hs
  · exact SatE.pure fun _ hs => hs

/-- A justified request is made. -/
theorem satE_post (request : Request) :
    SatE (journalMachine P who) i (taskContract P config call owner who i) (redis (.post request))
      (Knows P config call owner fun h => Justified P call owner h i request)
      (fun _ => Knows P config call owner fun _ => True) fun _ => Sound P config call owner := by
  refine satE_entry (fun _ _ he _ hj => hj.extend he) (fun _ => lasting_true) (fun _ _ hs => hs.1)
    fun x s hs _ _ _ => ⟨?_, fun _ => trivial⟩
  obtain ⟨hsound, hjustified⟩ := hs
  have hextends : s.2.Extends (s.2.entry i (.post request) x s.1) :=
    ⟨fun _ => List.suffix_rfl, fun _ _ hf => hf⟩
  have hstore : (s.1.exec P (who i) x (.post request)).2.webhooks = s.1.webhooks ∧
      (s.1.exec P (who i) x (.post request)).2.deliveries = s.1.deliveries := by
    simp only [Store.exec]
    split <;> exact ⟨rfl, rfl⟩
  refine ⟨⟨?_, ?_, hsound.start, fun p hp => ?_⟩, hextends, fun _ _ => rfl⟩
  · rw [hstore.1]
    exact hsound.reflects
  · rw [hstore.2]
    exact hsound.owned
  · rcases List.mem_cons.mp hp with rfl | hp
    · exact hjustified.extend hextends
    · exact (hsound.posted p hp).extend hextends

/-- The attempt once the webhook is known to be active. -/
theorem satE_attemptChosen (d : String) (delivery : Delivery) (webhook : Webhook) (traceId : String)
    (sequence : Option ℕ) (hw : (call i).recipient owner = w) :
    SatE (journalMachine P who) i (taskContract P config call owner who i)
      (dispatcher.attemptActive P config d delivery webhook traceId sequence)
      (Knows P config call owner (Chosen call i w webhook))
      (fun _ => Knows P config call owner fun _ => True) fun _ => Sound P config call owner := by
  have hlast := lasting_chosen call i w webhook
  refine SatE.bind (satE_tame (tame_encryptBody P _ _) hlast fun _ _ hs => hs.1)
    fun encryptedPayload => SatE.assume fun _ => ?_
  refine SatE.bind (satE_tame (tame_buildHeaders P _ _ _ _ _ _) hlast fun _ _ hs => hs.1)
    fun headers => SatE.assume fun ⟨k, t, nonce, hsecret, hheader⟩ => ?_
  refine SatE.bind (satE_tame (tame_step (by exact trivial)) hlast fun _ _ hs => hs.1)
    fun started => SatE.assume fun _ => ?_
  refine SatE.bind (satE_tame (tame_step (by exact trivial)) hlast fun _ _ hs => hs.1)
    fun _ => SatE.assume fun _ => ?_
  have hround : SatE (journalMachine P who) i (taskContract P config call owner who i)
      (dispatcher.makeRound config webhook (dispatcher.sentHeaders headers encryptedPayload)
        (encryptedPayload.getD (JsonText.stringify (dispatcher.payloadOf P delivery))))
      (Knows P config call owner (Chosen call i w webhook))
      (fun _ => Knows P config call owner fun _ => True) fun _ => Sound P config call owner := by
    refine SatE.bind (satE_tame (tame_step (by exact trivial)) hlast fun _ _ hs => hs.1) ?_
    rintro (err | target)
    · exact SatE.pure fun _ hs => ⟨hs.2.1, trivial⟩
    · refine SatE.assume fun _ => ?_
      refine SatE.bind ((satE_post _).mono (fun s hs => ⟨hs.1, ?_⟩) (fun _ _ h => h)
        fun _ _ h => h) ?_
      · obtain ⟨us, hsince, hreflects⟩ := hs.2
        refine ⟨us, k, by rwa [hw], by rwa [hw, ← hsecret], t, nonce,
          JsonText.stringify (dispatcher.payloadOf P delivery), ?_⟩
        cases encryptedPayload with
        | none => exact hheader
        | some text =>
          rw [dispatcher.sentHeaders, List.lookup_append, hheader]
          rfl
      · rintro (err | status) <;> exact SatE.pure fun _ hs => hs
  refine SatE.bind hround fun outcome => ?_
  refine SatE.bind (satE_tame (tame_step (by exact trivial)) lasting_true fun _ _ hs => hs.1)
    fun now => SatE.assume fun _ => ?_
  refine SatE.bind (satE_tame (tame_step (by exact trivial)) lasting_true fun _ _ hs => hs.1)
    fun ended => SatE.assume fun _ => ?_
  exact (satE_tame (tame_recordOutcome _ _ _ _ _ _ _) lasting_true fun _ _ hs => hs.1).mono
    (fun _ h => h) (fun _ _ h => h.2) fun _ _ h => h

/-- **`attempt`.** -/
theorem attempt_posts {d : String} {sequence : Option ℕ} (hcall : call i = .attempt d sequence) :
    SatE (journalMachine P who) i (taskContract P config call owner who i)
      (dispatcher.attempt P config d sequence) (Knows P config call owner fun _ => True)
      (fun _ => Knows P config call owner fun _ => True) fun _ => Sound P config call owner := by
  have hrecipient : (call i).recipient owner = owner d := by rw [hcall]; rfl
  have hinactive : SatE (journalMachine P who) i (taskContract P config call owner who i)
      (dispatcher.markInactive d) (Knows P config call owner fun _ => True)
      (fun _ => Knows P config call owner fun _ => True) fun _ => Sound P config call owner :=
    (satE_tame tame_markInactive lasting_true fun _ _ hs => hs.1).mono (fun _ h => h)
      (fun _ _ h => h.2) fun _ _ h => h
  refine SatE.bind (satE_tame tame_findById lasting_true fun _ _ hs => hs.1) ?_
  rintro (_ | delivery)
  · exact SatE.pure fun _ hs => hs.2
  refine SatE.assume fun howned => ?_
  dsimp only
  split
  · exact SatE.pure fun _ hs => hs
  rw [dispatcher.attemptLoaded, howned delivery rfl]
  refine SatE.bind (satE_tame (tame_ensureTrace delivery) lasting_true fun _ _ hs => hs.1)
    fun traceId => SatE.assume fun _ => ?_
  refine SatE.bind satE_choose ?_
  rintro (_ | webhook)
  · exact hinactive.mono (fun _ hs => ⟨hs.1, trivial⟩) (fun _ _ h => h) fun _ _ h => h
  dsimp only
  split
  · rename_i hactive
    exact (satE_attemptChosen d delivery webhook traceId sequence hrecipient).mono
      (fun _ hs => ⟨hs.1, hs.2 webhook rfl hactive⟩) (fun _ _ h => h) fun _ _ h => h
  · exact hinactive.mono (fun _ hs => ⟨hs.1, trivial⟩) (fun _ _ h => h) fun _ _ h => h

end

/-! ## 9. Every run -/

section

variable [DecidableEq τ] {P : Platform} {config : Config} {who : τ → Caller} {call : τ → Task}
  {α : Type} {c : Pool sig α τ (Store × Journal τ)} {i j u v : τ} {w : String}
  {ls : List (τ × Env)}

/-- The call `i` had returned, with a result that `p` admits, when the call `j` took its first
step. -/
def ReturnedBefore (P : Platform) (who : τ → Caller) (c : Pool sig α τ (Store × Journal τ))
    (ls : List (τ × Env)) (i j : τ) (p : α → Bool) : Prop :=
  ∃ a b, ls = a ++ b ∧ (∀ l ∈ a, l.1 ≠ j) ∧
    (run (Pool.step (journalMachine P who)) c a).Returned i p

variable (P who c w) in
/-- A step enters at most its own call, which has not returned. -/
theorem changes_step (l : τ × Env) :
    (c.step (journalMachine P who) l).store.2.changes w = c.store.2.changes w ∨
      (c.step (journalMachine P who) l).store.2.changes w = l.1 :: c.store.2.changes w ∧
        ∀ r, c.prog l.1 ≠ .ret r := by
  cases hp : c.prog l.1 with
  | ret r => exact .inl (by rw [Pool.step_of_ret hp])
  | cmd op k =>
    have hchange : ∀ (h : Journal τ) (id : String), (h.change l.1 id).changes w = h.changes w ∨
        (h.change l.1 id).changes w = l.1 :: h.changes w := by
      intro h id
      by_cases hw : w = id
      · rw [hw]
        exact .inr (by simp [Journal.change])
      · exact .inl (by simp [Journal.change, hw])
    have hentry : ∀ h : Journal τ, (h.entry l.1 op l.2 c.store.1).changes w = h.changes w ∨
        (h.entry l.1 op l.2 c.store.1).changes w = l.1 :: h.changes w := by
      intro h
      cases op with
      | getWebhook id =>
        simp only [Journal.entry]
        split
        · exact .inl rfl
        · split
          · exact hchange h id
          · exact .inl rfl
      | setWebhook id | deleteWebhook id =>
        simp only [Journal.entry]
        split
        · exact .inl rfl
        · exact hchange h id
      | _ => exact .inl rfl
    have hstep : (c.step (journalMachine P who) l).store.2 =
        (c.store.2.begin l.1).entry l.1 op l.2 c.store.1 := by
      simp only [Pool.step, hp, Prog.act, journalMachine, Machine.observe, Journal.note]
    rw [hstep]
    rcases hentry (c.store.2.begin l.1) with h | h
    · exact .inl h
    · exact .inr ⟨h, fun _ hr => (by cases hr)⟩

variable (P who) in
/-- A run enters only calls that take steps in it and had not returned before it. -/
theorem changes_run (c : Pool sig α τ (Store × Journal τ)) (ls : List (τ × Env)) (w : String) :
    ∃ us, (run (Pool.step (journalMachine P who)) c ls).store.2.changes w =
        us ++ c.store.2.changes w ∧
      ∀ v ∈ us, (∃ l ∈ ls, l.1 = v) ∧ ∀ r, c.prog v ≠ .ret r := by
  induction ls generalizing c with
  | nil => exact ⟨[], rfl, nofun⟩
  | cons l ls ih =>
    obtain ⟨us, hus, hall⟩ := ih (c.step (journalMachine P who) l)
    have hlive : ∀ v ∈ us, (∃ l' ∈ l :: ls, l'.1 = v) ∧ ∀ r, c.prog v ≠ .ret r := by
      intro v hv
      obtain ⟨⟨l', hl', he⟩, hret⟩ := hall v hv
      refine ⟨⟨l', List.mem_cons_of_mem _ hl', he⟩, fun r hr => ?_⟩
      by_cases hvl : v = l.1
      · rw [hvl] at hr hret
        rw [Pool.step_of_ret hr] at hret
        exact hret r hr
      · exact hret r ((Pool.step_prog_of_ne hvl).trans hr)
    rw [run_cons]
    rcases changes_step P who c w l with h | ⟨h, hret⟩
    · exact ⟨us, by rw [hus, h], hlive⟩
    · refine ⟨us ++ [l.1], by rw [hus, h, List.append_assoc, List.singleton_append], fun v hv => ?_⟩
      rcases List.mem_append.mp hv with hv | hv
      · exact hlive v hv
      · rw [List.mem_singleton.mp hv]
        exact ⟨⟨l, List.mem_cons_self, rfl⟩, hret⟩

theorem start_step (l : τ × Env) (first : String → List τ)
    (h : (c.step (journalMachine P who) l).store.2.start i = some first) :
    c.store.2.start i = some first ∨ first = c.store.2.changes ∧ l.1 = i := by
  cases hp : c.prog l.1 with
  | ret r =>
    rw [Pool.step_of_ret hp] at h
    exact .inl h
  | cmd op k =>
    have hentry : ∀ h : Journal τ, (h.entry l.1 op l.2 c.store.1).start = h.start := by
      intro h
      cases op with
      | getWebhook id =>
        simp only [Journal.entry]
        split
        · rfl
        · split <;> rfl
      | setWebhook | deleteWebhook =>
        simp only [Journal.entry]
        split <;> rfl
      | _ => rfl
    have hstep : (c.step (journalMachine P who) l).store.2.start =
        (c.store.2.begin l.1).start := by
      simp only [Pool.step, hp, Prog.act, journalMachine, Machine.observe, Journal.note, hentry]
    rw [hstep] at h
    by_cases hi : i = l.1
    · cases hstart : c.store.2.start l.1 with
      | none =>
        have hfirst : c.store.2.changes = first := by
          simpa [Journal.begin, hi, hstart] using h
        exact .inr ⟨hfirst.symm, hi.symm⟩
      | some first' =>
        rw [hi, hstart]
        exact .inl (by simpa [Journal.begin, hi, hstart] using h)
    · exact .inl (by simpa [Journal.begin, hi] using h)

/-- A call that has not begun begins with what is in the journal by then. -/
theorem start_run (hc : c.store.2.start i = none) (ls : List (τ × Env)) (w : String)
    (first : String → List τ)
    (h : (run (Pool.step (journalMachine P who)) c ls).store.2.start i = some first) :
    c.store.2.changes w <:+ first w := by
  let I (c' : Pool sig α τ (Store × Journal τ)) : Prop :=
    c.store.2.changes w <:+ c'.store.2.changes w ∧
      ∀ first, c'.store.2.start i = some first → c.store.2.changes w <:+ first w
  have hinv : I (run (Pool.step (journalMachine P who)) c ls) := run_inv_of_step
    (fun c' l hI => ⟨?_, fun first hf => ?_⟩) ⟨List.suffix_rfl, fun first hf => ?_⟩
  · exact hinv.2 first h
  · refine hI.1.trans ?_
    rcases changes_step P who c' w l with h | ⟨h, -⟩
    · exact h ▸ List.suffix_rfl
    · exact h ▸ List.suffix_cons _ _
  · rcases start_step l first hf with h | ⟨h, -⟩
    · exact hI.2 first h
    · rw [h]
      exact hI.1
  · rw [hc] at hf
    cases hf

theorem start_of_not_mem (hc : c.store.2.start i = none) (hi : ∀ l ∈ ls, l.1 ≠ i) :
    (run (Pool.step (journalMachine P who)) c ls).store.2.start i = none := by
  induction ls generalizing c with
  | nil => exact hc
  | cons l ls ih =>
    refine ih ?_ fun l' hl' => hi l' (List.mem_cons_of_mem _ hl')
    cases hstart : (c.step (journalMachine P who) l).store.2.start i with
    | none => rfl
    | some first =>
      rcases start_step l first hstart with h | ⟨-, h⟩
      · rw [hc] at h
        cases h
      · exact absurd h (hi l List.mem_cons_self)

omit [DecidableEq τ] in
/-- What comes before a member of the first part is in the first part. -/
theorem mem_of_append_eq {l e xs ys : List τ} (h : l ++ u :: e = xs ++ ys) (hu : u ∉ ys)
    (hv : v ∈ l ++ [u]) : v ∈ xs := by
  rcases List.append_eq_append_iff.mp h with ⟨a, ha, hb⟩ | ⟨a, -, hb⟩
  · cases a with
    | nil =>
      rw [List.nil_append] at hb
      exact absurd (hb ▸ List.mem_cons_self : u ∈ ys) hu
    | cons b a =>
      obtain ⟨rfl, -⟩ := List.cons.inj hb
      rw [ha]
      rcases List.mem_append.mp hv with hv | hv
      · exact List.mem_append_left _ hv
      · rw [List.mem_singleton.mp hv]
        exact List.mem_append_right _ List.mem_cons_self
  · exact absurd (hb ▸ List.mem_append_right _ List.mem_cons_self : u ∈ ys) hu

/-- A call that had returned before another one began is not entered after it. -/
theorem not_returned_before {s : Store} {l e : List τ} (p : Except Err Unit → Bool)
    (hv : v ∈ l ++ [u])
    (hsuffix : l ++ u :: e <:+ (run (Pool.step (journalMachine P who))
      (startTasks P config call s) ls).store.2.changes w) :
    ¬ ReturnedBefore P who (startTasks P config call s) ls v u p := by
  rintro ⟨a, b, rfl, hu, r, hr, -⟩
  rw [run_append] at hsuffix
  obtain ⟨us, hus, hafter⟩ := changes_run P who
    (run (Pool.step (journalMachine P who)) (startTasks P config call s) a) b w
  obtain ⟨us', hus', hbefore⟩ := changes_run P who (startTasks P config call s) a w
  have hnot : u ∉ (run (Pool.step (journalMachine P who)) (startTasks P config call s)
      a).store.2.changes w := by
    intro hmem
    have hinit : (startTasks P config call s).store.2.changes w = [] := rfl
    rw [hus', hinit, List.append_nil] at hmem
    obtain ⟨⟨l', hl', he⟩, -⟩ := hbefore u hmem
    exact hu l' hl' he
  obtain ⟨z, hz⟩ := hsuffix
  rw [hus, ← List.append_assoc] at hz
  have hmem := mem_of_append_eq hz hnot (v := v) (by
    rw [List.append_assoc]
    exact List.mem_append_right _ hv)
  exact (hafter v hmem).2 r hr

/-- A request for the webhook `w` does what the call `u` has asked for of `w`: what it is made with
was asked for by `u`, or by a call that is not among those before `u`, and `u` has not removed the
webhook. -/
structure Obeys (P : Platform) (call : τ → Task) (before : τ → Prop) (w : String) (u : τ)
    (request : Request) : Prop where
  url : ∀ url, ((call u).patch w).url = some url →
    ∃ v, ¬ before v ∧ ((call v).patch w).url = some request.url
  secret : ∀ secret, ((call u).patch w).secret = some secret →
    ∃ v k, ¬ before v ∧ ((call v).patch w).secret = some k ∧ SignedWith P k request
  active : ((call u).patch w).active = some false →
    ∃ v, ¬ before v ∧ ((call v).patch w).active = some true
  kept : (call u).removes w = false

omit [DecidableEq τ] in
/-- A call that does not change the webhook asks for nothing. -/
theorem Obeys.of_target {before : τ → Prop} {request : Request} (h : (call u).target ≠ some w) :
    Obeys P call before w u request := by
  cases hu : call u with
  | attempt d sequence =>
    exact ⟨fun _ h' => by simp [hu, Task.patch] at h', fun _ h' => by simp [hu, Task.patch] at h',
      fun h' => by simp [hu, Task.patch] at h', by rw [hu]; rfl⟩
  | update id patch =>
    have hid : id ≠ w := fun he => h (by rw [hu, he]; rfl)
    exact ⟨fun _ h' => by simp [hu, Task.patch, hid] at h',
      fun _ h' => by simp [hu, Task.patch, hid] at h',
      fun h' => by simp [hu, Task.patch, hid] at h', by rw [hu]; rfl⟩
  | remove id =>
    have hid : id ≠ w := fun he => h (by rw [hu, he]; rfl)
    exact ⟨fun _ h' => by simp [hu, Task.patch] at h', fun _ h' => by simp [hu, Task.patch] at h',
      fun h' => by simp [hu, Task.patch] at h', by simp [hu, Task.removes, hid]⟩

omit [DecidableEq τ] in
/-- What reflects a journal obeys the calls in it. -/
theorem Obeys.of_reflects {before : τ → Prop} {request : Request} {us : List τ} {secret : String}
    (hreflects : Reflects call w us request.url (some secret) true)
    (hsigned : SignedWith P secret request) (hu : u ∈ us)
    (hbefore : ∀ l e v, us = l ++ u :: e → v ∈ l ++ [u] → ¬ before v) :
    Obeys P call before w u request := by
  obtain ⟨l, e, hus⟩ := List.append_of_mem hu
  obtain ⟨hurl, hsecret, hactive, hkept⟩ := hreflects
  rw [hus] at hurl hsecret hactive
  refine ⟨fun url h => ?_, fun k h => ?_, fun h => ?_, hkept u hu⟩
  · obtain ⟨v, hv, ha⟩ := hurl.later h
    exact ⟨v, hbefore l e v hus hv, ha⟩
  · obtain ⟨v, hv, ha⟩ := hsecret.later (b := some k) (by simp [h])
    obtain ⟨k', hk', he⟩ := Option.map_eq_some_iff.mp ha
    obtain rfl := Option.some.inj he
    exact ⟨v, k', hbefore l e v hus hv, hk', hsigned⟩
  · obtain ⟨v, hv, ha⟩ := hactive.later h
    exact ⟨v, hbefore l e v hus hv, ha⟩

/-- What a call leaves: its change is in the journal. -/
theorem task_changes {owner : String → String} (hopens : Opens P) :
    SatE (journalMachine P who) i (taskContract P config call owner who i)
      ((call i).code P config) (Knows P config call owner fun _ => True)
      (fun _ => Knows P config call owner fun h => ∀ w ∈ (call i).target, i ∈ h.changes w)
      fun _ => Sound P config call owner := by
  cases hcall : call i with
  | update id patch =>
    refine SatE.bind (update_changes hopens hcall) fun _ => SatE.pure fun s hs => ⟨hs.1, ?_⟩
    rintro w ⟨⟩
    exact hs.2
  | remove id =>
    refine SatE.bind remove_changes fun _ => SatE.pure fun s hs => ⟨hs.1, ?_⟩
    rintro w ⟨⟩
    exact hs.2
  | attempt d sequence =>
    exact SatE.bind (attempt_posts hcall) fun _ => SatE.pure fun s hs => ⟨hs.1, nofun⟩

end

/-- **Changes take effect.**  Any number of updates, removals and attempts interleave, in any
processes and with any caches, and any command may fail.  No update stores what has been changed
since it read it, and no attempt uses a cache entry that differs from the record.  Then a call that
has returned when an attempt begins is obeyed by every request of this attempt. -/
theorem changes_take_effect [DecidableEq τ] (P : Platform) (config : Config) (hopens : Opens P)
    (who : τ → Caller) (call : τ → Task) (s : Store) (ls : List (τ × Env))
    (hls : Along (Pool.step (journalMachine P who))
      (fun c l => Pool.Issues (S := sig) (UpToDate P config who call l.1) c l)
      (startTasks P config call s) ls)
    (u i : τ) (hu : ReturnedBefore P who (startTasks P config call s) ls u i Except.isOk)
    (d w : String) (sequence : Option ℕ) (hi : call i = .attempt d sequence)
    (hd : ∀ delivery, s.deliveries d = some delivery → delivery.webhook_id = w) :
    ∀ request, (i, request) ∈ (run (Pool.step (journalMachine P who))
        (startTasks P config call s) ls).store.2.posted →
      Obeys P call
        (fun v => ReturnedBefore P who (startTasks P config call s) ls v u fun _ => true) w u
        request := by
  intro request hposted
  by_cases htarget : (call u).target = some w
  case neg => exact Obeys.of_target htarget
  let owner : String → String := fun e => ((s.deliveries e).map (·.webhook_id)).getD w
  have hrecipient : (call i).recipient owner = w := by
    rw [hi]
    cases hdelivery : s.deliveries d with
    | none => simp [Task.recipient, owner, hdelivery]
    | some delivery => simpa [Task.recipient, owner, hdelivery] using hd delivery hdelivery
  have hinit : Sound P config call owner (s, Journal.init) := by
    refine ⟨fun id r _ => ⟨trivial, trivial, trivial, nofun⟩, fun e delivery he => ?_, nofun, nofun⟩
    have he : s.deliveries e = some delivery := he
    simp [owner, he]
  have hstart : (startTasks P config call s).Safe (journalMachine P who)
      (taskContract P config call owner who) fun j r t => ∀ a, r = .ok a →
        Knows P config call owner (fun h => ∀ w ∈ (call j).target, j ∈ h.changes w) t :=
    fun j => ⟨_, stable_knows lasting_true, ⟨hinit, trivial⟩, Sat.mono (task_changes hopens)
      (fun _ h => h) fun r t h a ha => by rw [ha] at h; exact h⟩
  have hcompatible : Pool.Compatible (taskContract P config call owner who) :=
    fun j k hjk _ _ h => ⟨j, fun he => hjk he.symm, h⟩
  obtain ⟨a, b, rfl, hbegin, r, hr, hok⟩ := hu
  -- the change of `u` is in the journal when `i` begins
  have hchange : u ∈ (run (Pool.step (journalMachine P who)) (startTasks P config call s)
      a).store.2.changes w := by
    have hdone := (hstart.run hcompatible ((along_append _ _ _).mp hls).1).done hr
    cases r with
    | error e => cases hok
    | ok a => exact (hdone a rfl).2 w htarget
  have hsound : Sound P config call owner (run (Pool.step (journalMachine P who))
      (startTasks P config call s) (a ++ b)).store :=
    hstart.run_stable (fun _ _ _ hs h => (h hs).sound) hcompatible hinit hls
  obtain ⟨us, secret, ⟨first, hfirst, hsince, hsuffix⟩, hreflects, hsigned⟩ :=
    hsound.posted _ hposted
  rw [hrecipient] at hsince hsuffix hreflects
  have hmem : u ∈ us := by
    rw [run_append] at hfirst
    exact hsince.subset ((start_run (start_of_not_mem rfl hbegin) b w first hfirst).subset hchange)
  refine Obeys.of_reflects hreflects hsigned hmem fun l e v hus hv => ?_
  rw [hus] at hsuffix
  exact not_returned_before _ hv hsuffix

/-- A webhook moves to another URL, with a new secret; there are two attempts at a delivery to it. -/
def sampleTasks : Option Bool → Task
  | none => .update "wh_0" { url := some "https://moved.example", secret := some "whsec_new" }
  | some _ => .attempt "dlv_0" none

/-- They run in one process, on a store with that webhook and that delivery. -/
def sampleTasksStart : Pool sig (Except Err Unit) (Option Bool) (Store × Journal (Option Bool)) :=
  startTasks openPlatform sampleConfig sampleTasks sampleStore

/-- What they have posted. -/
def samplePosted (ls : List (Option Bool × Env)) : List (Option Bool × Request) :=
  (run (Pool.step (journalMachine openPlatform fun _ => ⟨0, none⟩)) sampleTasksStart
    ls).store.2.posted

theorem sample_delivery (delivery : Delivery) (h : sampleStore.deliveries "dlv_0" = some delivery) :
    delivery.webhook_id = "wh_0" := by
  obtain rfl : sampleDelivery = delivery := Option.some.inj h
  rfl

/-- The update runs to its end, and then an attempt. -/
def changedFirst : List (Option Bool × Env) :=
  List.replicate 4 (none, answering 200) ++ List.replicate 11 (some false, answering 200)

theorem changes_take_effect_sample : (samplePosted changedFirst).isEmpty = false ∧
    ∀ request, (some false, request) ∈ samplePosted changedFirst →
      Obeys openPlatform sampleTasks
        (fun v => ReturnedBefore openPlatform (fun _ => ⟨0, none⟩) sampleTasksStart changedFirst v
          none fun _ => true) "wh_0" none request := by
  refine ⟨by decide +kernel, ?_⟩
  rw [samplePosted, sampleTasksStart]
  have hbefore : ReturnedBefore openPlatform (fun _ => ⟨0, none⟩)
      (startTasks openPlatform sampleConfig sampleTasks sampleStore) changedFirst none (some false)
      Except.isOk :=
    ⟨_, _, rfl, by decide, Pool.returned_iff.mpr (by decide +kernel)⟩
  exact changes_take_effect openPlatform sampleConfig openPlatform_opens (fun _ => ⟨0, none⟩)
    sampleTasks sampleStore changedFirst (by decide +kernel) none (some false) hbefore "dlv_0" "wh_0"
    none rfl sample_delivery

/-- An attempt is answered 500 and leaves the webhook in the cache; the update runs to its end, and
then the second attempt. -/
def changedBetween : List (Option Bool × Env) :=
  (List.replicate 23 (some false, answering 500) ++ List.replicate 4 (none, answering 200)) ++
    List.replicate 11 (some true, answering 200)

/-- The second attempt posts to the URL of before. -/
theorem old_url_posted : ¬ ∀ (call : Option Bool → Task) (s : Store) (ls : List (Option Bool × Env))
    (u i : Option Bool), ReturnedBefore openPlatform (fun _ => ⟨0, none⟩)
      (startTasks openPlatform sampleConfig call s) ls u i Except.isOk →
    ∀ (d w : String) (sequence : Option ℕ), call i = .attempt d sequence →
    (∀ delivery, s.deliveries d = some delivery → delivery.webhook_id = w) →
    ∀ request, (i, request) ∈ (run (Pool.step (journalMachine openPlatform fun _ => ⟨0, none⟩))
      (startTasks openPlatform sampleConfig call s) ls).store.2.posted →
    Obeys openPlatform call
      (fun v => ReturnedBefore openPlatform (fun _ => ⟨0, none⟩)
        (startTasks openPlatform sampleConfig call s) ls v u fun _ => true) w u request := by
  intro h
  have hposted : ∃ p ∈ samplePosted changedBetween, p.1 = some true ∧
      p.2.url = "https://hooks.example" := by decide +kernel
  rw [samplePosted, sampleTasksStart] at hposted
  obtain ⟨⟨i, request⟩, hp, hi, hurl⟩ := hposted
  subst hi
  have hbefore : ReturnedBefore openPlatform (fun _ => ⟨0, none⟩)
      (startTasks openPlatform sampleConfig sampleTasks sampleStore) changedBetween none (some true)
      Except.isOk :=
    ⟨_, _, rfl, by decide, Pool.returned_iff.mpr (by decide +kernel)⟩
  have hobeys := h sampleTasks sampleStore changedBetween none (some true) hbefore "dlv_0" "wh_0" none rfl
    sample_delivery request hp
  obtain ⟨v, -, hv⟩ := hobeys.url "https://moved.example" rfl
  cases v with
  | none =>
    have he : "https://moved.example" = request.url := Option.some.inj hv
    rw [hurl] at he
    exact absurd he (by decide)
  | some b => cases hv

end SmartDrop.Webhooks
