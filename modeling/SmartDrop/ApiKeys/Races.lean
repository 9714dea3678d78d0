/-
# Retiring a key while it is in use

Any number of calls run at once, one Redis command at a time, with the hash lookup of
`validateApiKey` returning the id that was stored (`validateByHash`).  Every validation that
succeeds writes the record back that it has read, with a new `last_used_at`; if the key is
rotated or revoked in between, the write undoes it (`revoked_key_accepted`).  Rotation and
revocation are effective in every run in which no write of the record comes after its deletion
or moves its expiry to a later time (`retired_for_good`).
-/
import SmartDrop.ApiKeys.Law

namespace SmartDrop.ApiKeys

open Conc Redis JsonText

/-! ## 1. The concurrent system -/

variable (P : Platform) (cfg : Config)

/-- `validateApiKey`, where the hash lookup returns the id as it was stored. -/
def validateByHash (apiKey : String) : Code (Option Json) := do
  if apiKey = "" then return none
  if isAdminKey P cfg apiKey then
    let now ← dateNow
    return some (.obj [
      ("id", .str "admin"),
      ("label", .str "Bootstrap admin key"),
      ("key_prefix", .str (keyPrefix apiKey)),
      ("scopes", .arr [.str "admin"]),
      ("tier", .str "admin"),
      ("created_at", .null),
      ("last_used_at", .str (P.toISOString now))])
  let hashed := P.sha256 apiKey
  let id ← Prog.call (S := sig) (.get (hashPath hashed))
  validateFound P cfg hashed (id.map .str)

/-- What a call returns. -/
inductive Outcome where
  | created (key : Created)
  | rotated (key : Option Rotated)
  | revoked (record : Option Json)
  | validated (record : Option Json)

/-- The code of a call. -/
def Call.code : Call → Code Outcome
  | .create label scopes tier => do
    let key ← createKey P cfg label scopes tier
    return .created key
  | .rotate id options => do
    let key ← rotateKey P cfg id options
    return .rotated key
  | .revoke id => do
    let record ← revokeKey id
    return .revoked record
  | .validate apiKey => do
    let record ← validateByHash P cfg apiKey
    return .validated record

/-- A database and what each call has still to do. -/
abbrev Calls (τ : Type) := Pool sig Outcome τ Store

/-- Every call is about to begin. -/
def beginCalls {τ : Type} (calls : τ → Call) (s : Store) : Calls τ :=
  ⟨s, fun i => (calls i).code P cfg⟩

/-- The calls act on one Redis; the environment's answers are the times of the steps. -/
def callMachine {τ : Type} : Machine sig τ ℕ Store := (machine P).comap fun _ => ()

/-- A validation has returned a record for its key. -/
def Outcome.isAccepted : Outcome → Bool
  | .validated record => record.isSome
  | _ => false

/-- A rotation has returned a new key. -/
def Outcome.isRotated : Outcome → Bool
  | .rotated key => key.isSome
  | _ => false

/-- The time from which `validateApiKey` refuses a record; `none` is never. -/
def expiry (record : Json) : Option ℕ :=
  if Json.truthy (record.get? "expires_at") then parseDate P (record.get? "expires_at") else none

/-- The expiry of a stored text. -/
def textExpiry (text : String) : Option ℕ := (Cache.decode (some text)).bind (expiry P)

/-- An expiry comes no later than another one. -/
def NoLater (new old : Option ℕ) : Prop := ∀ e ∈ old, ∃ e' ∈ new, e' ≤ e

instance (new old : Option ℕ) : Decidable (NoLater new old) :=
  inferInstanceAs (Decidable (∀ e ∈ old, ∃ e' ∈ new, e' ≤ e))

/-- A write of the record of `id` finds it stored, and does not move its expiry to a later time. -/
def Command.KeepsRetired (id : String) (s : Store) : Command → Prop
  | .set key text => key = keyPath id →
      ∃ old ∈ s.strings key, NoLater (textExpiry P text) (textExpiry P old)
  | _ => True

/-- The same of every write of a transaction. -/
def KeepsRetired (id : String) (op : sig.Op) (_ : ℕ) (s : Store) : Prop :=
  match op with
  | Op.multi cmds => ∀ cmd ∈ cmds, cmd.KeepsRetired P id s
  | _ => True

instance (id : String) (s : Store) (cmd : Command) : Decidable (cmd.KeepsRetired P id s) := by
  cases cmd <;> unfold Command.KeepsRetired <;> infer_instance

instance (id : String) (op : sig.Op) (x : ℕ) (s : Store) :
    Decidable (KeepsRetired P id op x s) := by
  cases op <;> unfold KeepsRetired <;> infer_instance

/-! ## 2. What is known of a key -/

/-- The record is not there. -/
def Gone (id : String) (s : Store) : Prop := s.strings (keyPath id) = none

instance (id : String) (s : Store) : Decidable (Gone id s) :=
  inferInstanceAs (Decidable (s.strings (keyPath id) = none))

/-- The record is not there, or refused from the time `t` on. -/
def Retired (id : String) (t : ℕ) (s : Store) : Prop :=
  ∀ text, s.strings (keyPath id) = some text → ∃ e, textExpiry P text = some e ∧ e ≤ t

/-- The key `id` with the hash `hash` was issued, and what leads to its record leads nowhere
else. -/
structure Known (id hash : String) (s : Store) : Prop where
  record : ∀ k text, s.strings (keyPath k) = some text → ∃ hash, IsRecord text k hash
  entry : ∀ k, s.strings (hashPath hash) = some k → k = id
  drawn : ∃ n < s.keysDrawn, hash = P.sha256 (P.randomKey n)

/-- What every step does: the key stays known, a retired key retired and a deleted one deleted. -/
structure Moves (id hash : String) (s s' : Store) : Prop where
  known : Known P id hash s'
  retired : ∀ t, Retired P id t s → Retired P id t s'
  gone : Gone id s → Gone id s'

/-- The contract of a call whose steps happen at the times that satisfy `when`. -/
def retiring (id hash : String) (during : ℕ → Prop) : Contract sig ℕ Store where
  ok op x s := KeepsRetired P id op x s ∧ during x
  rely := Moves P id hash
  guar := Moves P id hash

variable {P cfg} {id hash : String} {s s' : Store}

/-- The database of the sequential calls: an issued key is known. -/
theorem Inv.known (h : Inv P s) {text : String} (ht : s.strings (keyPath id) = some text)
    (hr : IsRecord text id hash) : Known P id hash s where
  record k t hk := by
    obtain ⟨hash', hr', -⟩ := h.linked.record k t hk
    exact ⟨hash', hr'⟩
  entry k hk := by
    obtain ⟨t, ht', hr'⟩ := h.linked.hash hash k hk
    exact h.linked.id_unique ht' ht hr' hr
  drawn := by
    obtain ⟨hash', hr', hentry⟩ := h.linked.record id text ht
    rw [hr.hash_unique hr']
    exact h.drawn.hash hash' id hentry

theorem Gone.retired (h : Gone id s) (t : ℕ) : Retired P id t s :=
  fun _ ht => absurd (ht.symm.trans h) (by simp)

/-- Where a text comes from after a transaction. -/
theorem exec_strings {cmds : List Command} {key text : String}
    (h : (s.exec cmds).strings key = some text) :
    .set key text ∈ cmds ∨ s.strings key = some text := by
  induction cmds generalizing s with
  | nil => exact Or.inr h
  | cons cmd cmds ih =>
    rcases ih h with hset | hold
    · exact Or.inl (List.mem_cons_of_mem _ hset)
    cases cmd with
    | set key' text' =>
      by_cases hk : key = key'
      · subst hk
        obtain rfl : text' = text := by simpa [Command.apply] using hold
        exact Or.inl List.mem_cons_self
      · exact Or.inr (by simpa [Command.apply, hk] using hold)
    | del key' =>
      by_cases hk : key = key'
      · subst hk
        simp [Command.apply] at hold
      · exact Or.inr (by simpa [Command.apply, hk] using hold)
    | zadd | zrem => exact Or.inr hold

/-- The writes of a transaction are records under their ids, and no new entry for `hash`. -/
def Proper (id hash : String) (cmds : List Command) : Prop :=
  (∀ k text, .set (keyPath k) text ∈ cmds → ∃ hash, IsRecord text k hash) ∧
    ∀ k, .set (hashPath hash) k ∈ cmds → k = id

/-- **A proper transaction** that keeps the key retired. -/
theorem moves_of_proper {cmds : List Command} (hcmds : Proper id hash cmds) (h : Known P id hash s)
    {x : ℕ} (hok : KeepsRetired P id (.multi cmds) x s) : Moves P id hash s (s.exec cmds) := by
  have hkeys : (s.exec cmds).keysDrawn = s.keysDrawn := by
    clear hcmds hok h
    induction cmds generalizing s with
    | nil => rfl
    | cons cmd cmds ih => exact ih.trans (by cases cmd <;> rfl)
  refine ⟨⟨?_, ?_, hkeys ▸ h.drawn⟩, ?_, ?_⟩
  · intro k text ht
    rcases exec_strings ht with hset | hold
    · exact hcmds.1 k text hset
    · exact h.record k text hold
  · intro k hk
    rcases exec_strings hk with hset | hold
    · exact hcmds.2 k hset
    · exact h.entry k hold
  · intro t hret text ht
    rcases exec_strings ht with hset | hold
    · obtain ⟨old, hold, hlater⟩ := hok _ hset rfl
      obtain ⟨e, he, hle⟩ := hret old hold
      obtain ⟨e', he', hle'⟩ := hlater e he
      exact ⟨e', he', hle'.trans hle⟩
    · exact hret text hold
  · intro hgone
    refine Option.eq_none_iff_forall_ne_some.mpr fun text ht => ?_
    rcases exec_strings ht with hset | hold
    · obtain ⟨old, hold, -⟩ := hok _ hset rfl
      exact absurd (hold.symm.trans hgone) (by simp)
    · exact absurd (hold.symm.trans hgone) (by simp)

/-! ## 3. The calls under the contract -/

section Calls

variable {during : ℕ → Prop}

/-- A piece of code under the contract, as any of the calls. -/
def Holds {α : Type} (P : Platform) (id hash : String) (during : ℕ → Prop) (code : Code α)
    (A : Store → Prop) (Q : α → Store → Prop) : Prop :=
  Sat (machine P) () (retiring P id hash during) code A Q

theorem stable_known : Stable (Moves P id hash) (Known P id hash) := fun _ _ _ h => h.known

theorem stable_gone : Stable (Moves P id hash) (Gone id) := fun _ _ hg hm => hm.gone hg

theorem moves_refl (h : Known P id hash s) : Moves P id hash s s :=
  ⟨h, fun _ h => h, fun h => h⟩

/-- A record that was read: an object that has the id it is stored under, and a hash. -/
def ReadAs (k : String) (r : Option Json) : Prop :=
  ∀ record, r = some record → ∃ fields hash, record = .obj fields ∧
    record.get? "id" = some (.str k) ∧ record.get? "key_hash" = some (.str hash)

theorem holds_dateNow : Holds P id hash during dateNow (Known P id hash) fun t s =>
    during t ∧ Known P id hash s := by
  refine Sat.call (fun _ _ _ hs hm => ⟨hs.1, hm.known⟩) fun x s hs hok => ?_
  exact ⟨moves_refl hs, hok.2, hs⟩

theorem holds_randomUUID : Holds P id hash during randomUUID (Known P id hash) fun _ =>
    Known P id hash := by
  refine Sat.call (fun _ => stable_known) fun x s hs _ => ?_
  have hknown : Known P id hash ((machine P).exec () .randomUUID x s).2 :=
    ⟨hs.record, hs.entry, hs.drawn⟩
  exact ⟨⟨hknown, fun _ h => h, fun h => h⟩, hknown⟩

/-- A new key does not have the hash of a key that was issued before. -/
theorem holds_generateApiKey : Holds P id hash during generateApiKey (Known P id hash)
    fun apiKey s => P.sha256 apiKey ≠ hash ∧ Known P id hash s := by
  refine Sat.call (fun _ _ _ hs hm => ⟨hs.1, hm.known⟩) fun x s hs _ => ?_
  obtain ⟨n, hn, hhash⟩ := hs.drawn
  have hknown : Known P id hash ((machine P).exec () .randomBytes x s).2 :=
    ⟨hs.record, hs.entry, n, Nat.lt_succ_of_lt hn, hhash⟩
  refine ⟨⟨hknown, fun _ h => h, fun h => h⟩, fun heq => ?_, hknown⟩
  exact Nat.lt_irrefl n (P.hash_inj (heq.trans hhash) ▸ hn)

theorem holds_multiExec {cmds : List Command} (h : Proper id hash cmds) :
    Holds P id hash during (multiExec cmds) (Known P id hash) fun _ => Known P id hash := by
  refine Sat.call (fun _ => stable_known) fun x s hs hok => ?_
  have hm := moves_of_proper h hs hok.1
  exact ⟨hm, hm.known⟩

/-- What is read under a key is what `cache.get` makes of its text. -/
theorem Known.readAs (h : Known P id hash s) (k : String) : ReadAs k (recordOf s k) := by
  intro record hrecord
  unfold recordOf at hrecord
  cases ht : s.strings (keyPath k) with
  | none => simp [ht, Cache.decode] at hrecord
  | some text =>
    obtain ⟨hash', fields, rfl, hid, hkey⟩ := h.record k text ht
    rw [ht, decode_stringify] at hrecord
    obtain rfl := Option.some.inj hrecord
    exact ⟨fields, hash', rfl, hid, hkey⟩

/-- A record that is not read is not there. -/
theorem Known.gone_of_none (h : Known P id hash s) (hr : recordOf s id = none) : Gone id s := by
  refine Option.eq_none_iff_forall_ne_some.mpr fun text ht => ?_
  obtain ⟨hash', fields, rfl, -⟩ := h.record id text ht
  simp [recordOf, ht] at hr

/-- The read of the record itself. -/
theorem holds_getKey_self : Holds P id hash during (getKey id) (Known P id hash)
    fun r s => ReadAs id r ∧ (r = none → Gone id s) ∧ Known P id hash s := by
  refine Sat.bind (Q := fun data s => ReadAs id (Cache.decode data) ∧
    (Cache.decode data = none → Gone id s) ∧ Known P id hash s) ?_ fun data => fun s hs => hs
  refine Sat.call (fun _ _ _ hs hm => ⟨hs.1, fun hr => hm.gone (hs.2.1 hr), hm.known⟩)
    fun x s hs _ => ?_
  exact ⟨moves_refl hs, hs.readAs id, hs.gone_of_none, hs⟩

theorem holds_getKey (k : String) : Holds P id hash during (getKey k) (Known P id hash)
    fun r s => ReadAs k r ∧ Known P id hash s := by
  refine Sat.bind (Q := fun data s => ReadAs k (Cache.decode data) ∧ Known P id hash s) ?_
    fun data => fun s hs => hs
  refine Sat.call (fun _ _ _ hs hm => ⟨hs.1, hm.known⟩) fun x s hs _ => ?_
  exact ⟨moves_refl hs, hs.readAs k, hs⟩

theorem holds_ret {α : Type} (a : α) :
    Holds P id hash during (pure a : Code α) (Known P id hash) fun _ => Known P id hash :=
  fun _ hs => hs

/-- A write of a record that keeps its id. -/
theorem proper_record {k text hash' : String} (hr : IsRecord text k hash') :
    Proper id hash [.set (keyPath k) text] := by
  refine ⟨fun k' text' h => ?_, fun k' h => ?_⟩
  · obtain ⟨hk, rfl⟩ : keyPath k' = keyPath k ∧ text' = text := by simpa using h
    rw [keyPath_inj.mp hk]
    exact ⟨hash', hr⟩
  · simp at h

theorem proper_zadd (score : ℕ) (k : String) : Proper id hash [.zadd score k] :=
  ⟨fun _ _ h => by simp at h, fun _ h => by simp at h⟩

theorem proper_delete (a b c : String) : Proper id hash [.del a, .del b, .zrem c] :=
  ⟨fun _ _ h => by simp at h, fun _ h => by simp at h⟩

theorem holds_touch {k hash' : String} {fields : List (String × Json)}
    (hid : (Json.obj fields).get? "id" = some (.str k))
    (hkey : (Json.obj fields).get? "key_hash" = some (.str hash')) :
    Holds P id hash during (touch P (.obj fields)) (Known P id hash) fun _ => Known P id hash := by
  refine Sat.bind holds_dateNow fun now => Sat.assume fun _ => ?_
  refine Sat.bind ?_ fun _ => holds_ret _
  rw [hid]
  exact holds_multiExec (proper_record (isRecord_spread hid hkey (by simp)))

/-- The end of `validateApiKey` for a record with the right hash, at the time `now`. -/
def concludeAt (P : Platform) (cfg : Config) (record : Json) (now : ℕ) : Code (Option Json) := do
  if Json.truthy (record.get? "expires_at") &&
      (parseDate P (record.get? "expires_at")).any fun t => t ≤ now then
    multiExec [
      .del (keyPath (fieldText (record.get? "id"))),
      .del (hashPath (fieldText (record.get? "key_hash"))),
      .zrem (fieldText (record.get? "id"))]
    return none
  let record := if Json.truthy (record.get? "tier") then record
    else record.spread [("tier", .str cfg.defaultTier)]
  return some (← touch P record)

theorem holds_concludeAt {k hash' : String} {fields : List (String × Json)}
    (hid : (Json.obj fields).get? "id" = some (.str k))
    (hkey : (Json.obj fields).get? "key_hash" = some (.str hash')) (now : ℕ) :
    Holds P id hash during (concludeAt P cfg (.obj fields) now) (Known P id hash) fun _ =>
      Known P id hash := by
  unfold concludeAt
  split
  · exact Sat.bind (holds_multiExec (proper_delete _ _ _)) fun _ => holds_ret _
  · refine Sat.bind ?_ fun _ => holds_ret _
    split
    · exact holds_touch hid hkey
    · exact holds_touch ((Json.get?_spread (by simp)).trans hid)
        ((Json.get?_spread (by simp)).trans hkey)

theorem holds_validateFound (hashed : String) (found : Option Json) :
    Holds P id hash during (validateFound P cfg hashed found) (Known P id hash) fun _ =>
      Known P id hash := by
  unfold validateFound
  cases found with
  | none => exact holds_ret _
  | some k =>
    dsimp only
    split
    · exact holds_ret _
    refine Sat.bind (holds_getKey _) fun r => Sat.assume fun hread => ?_
    cases r with
    | none => exact holds_ret _
    | some record =>
      obtain ⟨fields, hash', rfl, hid, hkey⟩ := hread record rfl
      dsimp only
      split
      · exact holds_ret _
      split
      · refine Sat.bind holds_dateNow fun now => Sat.assume fun _ => ?_
        exact holds_concludeAt hid hkey now
      · exact holds_concludeAt hid hkey 0

theorem holds_validateByHash (apiKey : String) :
    Holds P id hash during (validateByHash P cfg apiKey) (Known P id hash) fun _ =>
      Known P id hash := by
  unfold validateByHash
  split
  · exact holds_ret _
  split
  · exact Sat.bind holds_dateNow fun now => Sat.assume fun _ => holds_ret _
  · refine Sat.bind (Q := fun _ => Known P id hash) ?_ fun found => holds_validateFound _ _
    exact Sat.call (fun _ => stable_known) fun x s hs _ => ⟨moves_refl hs, hs⟩

/-- What `createKey` and `rotateKey` write for a new key. -/
theorem proper_issue {newId newHash text : String} (hr : IsRecord text newId newHash)
    (hne : newHash ≠ hash) (score : ℕ) : Proper id hash (issueWrites newId newHash text score) := by
  refine ⟨fun k text' h => ?_, fun k h => ?_⟩
  · obtain ⟨rfl, rfl⟩ : k = newId ∧ text' = text := by simpa [issueWrites] using h
    exact ⟨newHash, hr⟩
  · exact absurd (by simpa [issueWrites] using h : hash = newHash ∧ k = newId).1 hne.symm

theorem Proper.append {a b : List Command} (ha : Proper id hash a) (hb : Proper id hash b) :
    Proper id hash (a ++ b) :=
  ⟨fun k text h => (List.mem_append.mp h).elim (ha.1 k text) (hb.1 k text),
    fun k h => (List.mem_append.mp h).elim (ha.2 k) (hb.2 k)⟩

theorem holds_createKey (label : String) (scopes : List String) (tier : Option String) :
    Holds P id hash during (createKey P cfg label scopes tier) (Known P id hash) fun _ =>
      Known P id hash := by
  refine Sat.bind holds_generateApiKey fun apiKey => Sat.assume fun hne => ?_
  refine Sat.bind holds_dateNow fun now => Sat.assume fun _ => ?_
  refine Sat.bind holds_randomUUID fun uuid => ?_
  refine Sat.bind holds_dateNow fun score => Sat.assume fun _ => ?_
  refine Sat.bind (holds_multiExec (proper_issue ⟨_, rfl, ?_, ?_⟩ hne score)) fun _ => holds_ret _
  · simp [Json.get?]
  · simp [Json.get?]

theorem holds_revokeKey (k : String) :
    Holds P id hash during (revokeKey k) (Known P id hash) fun _ => Known P id hash := by
  refine Sat.bind (holds_getKey k) fun r => Sat.assume fun _ => ?_
  cases r with
  | none => exact holds_ret _
  | some record => exact Sat.bind (holds_multiExec (proper_delete _ _ _)) fun _ => holds_ret _

/-- **A revocation** that has returned has deleted the record. -/
theorem holds_revokeKey_self :
    Holds P id hash during (revokeKey id) (Known P id hash) fun _ => Gone id := by
  refine Sat.bind holds_getKey_self fun r => Sat.assume fun _ => ?_
  cases r with
  | none => exact fun s hs => hs.1 rfl
  | some record =>
    refine Sat.bind (Q := fun _ => Gone id) ?_ fun _ => fun s hs => hs
    refine Sat.call (fun _ _ _ hs hm => hm.gone hs) fun x s hs hok => ?_
    refine ⟨moves_of_proper (proper_delete _ _ _) hs.2 hok.1, ?_⟩
    simp [Gone, machine, Command.apply]

/-- Dates are read back as they were written. -/
structure Dates (P : Platform) : Prop where
  parse_toISOString : ∀ t, P.dateParse (P.toISOString t) = some t
  parse_empty : P.dateParse "" = none

/-- The patch of a retired record sets its expiry. -/
theorem expiry_retired (hP : Dates P) (fields : List (String × Json)) (now end_ : ℕ)
    (newId : String) : textExpiry P (stringify ((Json.obj fields).spread [
      ("revoked_at", .str (P.toISOString now)),
      ("expires_at", .str (P.toISOString end_)),
      ("rotated_to", .str newId)])) = some end_ := by
  have hget : ((Json.obj fields).spread [
      ("revoked_at", .str (P.toISOString now)),
      ("expires_at", .str (P.toISOString end_)),
      ("rotated_to", .str newId)]).get? "expires_at" = some (.str (P.toISOString end_)) := by
    simp only [Json.spread, List.foldl]
    rw [Json.get?_setField_of_ne (by decide), Json.get?_setField_self]
  have hne : P.toISOString end_ ≠ "" := by
    intro h
    have := hP.parse_toISOString end_
    rw [h, hP.parse_empty] at this
    cases this
  rw [textExpiry, decode_stringify, Option.bind_some, expiry, hget]
  simp [Json.truthy, hne, parseDate, hP.parse_toISOString]

theorem graceEnd_mono (options : RotateOptions) {t t' : ℕ} (h : t ≤ t') :
    graceEnd cfg options t ≤ graceEnd cfg options t' := by
  unfold graceEnd
  refine Int.toNat_le_toNat (Int.floor_le_floor ?_)
  have : (t : ℚ) ≤ t' := by exact_mod_cast h
  linarith

/-- **A rotation** that has returned a new key has retired the record, from the end of its grace
period on. -/
theorem holds_rotateKey (hP : Dates P) (k : String) (options : RotateOptions) :
    Holds P id hash during (rotateKey P cfg k options) (Known P id hash) fun r s =>
      Known P id hash s ∧ (k = id → r ≠ none → ∀ t, (∀ x, during x → x ≤ t) →
        Retired P id (graceEnd cfg options t) s) := by
  refine Sat.bind (holds_getKey k) fun r => Sat.assume fun hread => ?_
  cases r with
  | none => exact fun s hs => ⟨hs, fun _ h => absurd rfl h⟩
  | some record =>
    obtain ⟨fields, hash', rfl, hid, hkey⟩ := hread record rfl
    refine Sat.bind holds_generateApiKey fun apiKey => Sat.assume fun hne => ?_
    refine Sat.bind holds_dateNow fun now => Sat.assume fun _ => ?_
    refine Sat.bind holds_randomUUID fun uuid => ?_
    refine Sat.bind holds_dateNow fun score => Sat.assume fun _ => ?_
    have hissue : Proper id hash (issueWrites (keyId uuid) (P.sha256 apiKey) (stringify
        (rotatedRecord P cfg options (.obj fields) apiKey (keyId uuid) (P.sha256 apiKey) now))
        score) :=
      proper_issue (isRecord_rotated P cfg options (.obj fields) apiKey _ _ now) hne score
    have hstable : ∀ t, Stable (Moves P id hash) fun s => Known P id hash s ∧ (k = id →
        Retired P id t s) :=
      fun t _ _ hs hm => ⟨hm.known, fun heq => hm.retired t (hs.2 heq)⟩
    split
    · refine Sat.bind holds_dateNow fun start => Sat.assume fun hstart => ?_
      refine Sat.bind holds_dateNow fun retired => Sat.assume fun _ => ?_
      refine Sat.bind (Q := fun _ s => Known P id hash s ∧ (k = id →
        Retired P id (graceEnd cfg options start) s)) ?_ fun _ => fun s hs =>
          ⟨hs.1, fun heq _ t ht text htext => ?_⟩
      · refine Sat.call (fun _ => hstable _) fun x s hs hok => ?_
        have hrecord : IsRecord (stringify ((Json.obj fields).spread [
            ("revoked_at", .str (P.toISOString now)),
            ("expires_at", .str (P.toISOString (graceEnd cfg options start))),
            ("rotated_to", .str (keyId uuid))])) k hash' :=
          isRecord_spread hid hkey (by simp)
        have hm := moves_of_proper (hissue.append ((proper_record hrecord).append
          (proper_zadd retired k))) hs hok.1
        refine ⟨hm, hm.known, fun heq text htext => ?_⟩
        subst heq
        have hnow : stringify ((Json.obj fields).spread [
            ("revoked_at", .str (P.toISOString now)),
            ("expires_at", .str (P.toISOString (graceEnd cfg options start))),
            ("rotated_to", .str (keyId uuid))]) = text := by
          simpa [machine, Store.exec, List.foldl_append, Command.apply] using htext
        exact ⟨_, hnow ▸ expiry_retired hP fields now _ _, le_rfl⟩
      · obtain ⟨e, he, hle⟩ := hs.2 heq text htext
        exact ⟨e, he, hle.trans (graceEnd_mono options (ht start hstart))⟩
    · refine Sat.bind (Q := fun _ s => Known P id hash s ∧ (k = id → Gone id s)) ?_ fun _ =>
        fun s hs => ⟨hs.1, fun heq _ t _ => (hs.2 heq).retired _⟩
      refine Sat.call (fun _ _ _ hs hm => ⟨hm.known, fun heq => hm.gone (hs.2 heq)⟩)
        fun x s hs hok => ?_
      have hm := moves_of_proper (hissue.append (proper_delete _ _ _)) hs hok.1
      refine ⟨hm, hm.known, fun heq => ?_⟩
      subst heq
      simp [Gone, machine, Command.apply]

/-- **A validation of the key at times when its record is refused** returns `null`. -/
theorem holds_late {apiKey : String} (hhash : P.sha256 apiKey = hash)
    (hadmin : isAdminKey P cfg apiKey = false) {end_ : ℕ} (hend : ∀ x, during x → end_ ≤ x) :
    Holds P id hash during (validateByHash P cfg apiKey)
      (fun s => Known P id hash s ∧ Retired P id end_ s) fun r _ => r = none := by
  unfold validateByHash
  split
  · exact fun s _ => rfl
  rw [hadmin, hhash]
  have hentry : Holds P id hash during (Prog.call (S := sig) (.get (hashPath hash)))
      (fun s => Known P id hash s ∧ Retired P id end_ s) fun found s =>
        (∀ k, found = some k → k = id) ∧ Known P id hash s ∧ Retired P id end_ s := by
    refine Sat.call (fun _ _ _ hs hm => ⟨hs.1, hm.known, hm.retired _ hs.2.2⟩) fun x s hs _ => ?_
    exact ⟨moves_refl hs.1, fun k hk => hs.1.entry k hk, hs⟩
  refine Sat.bind hentry fun found => Sat.assume fun hfound => ?_
  unfold validateFound
  cases found with
  | none => exact fun s _ => rfl
  | some k =>
    obtain rfl := hfound k rfl
    dsimp only [Option.map]
    split
    · exact fun s _ => rfl
    have hread : Holds P k hash during (getKey k)
        (fun s => Known P k hash s ∧ Retired P k end_ s) fun r s =>
          (ReadAs k r ∧ ∀ record, r = some record → ∃ e, expiry P record = some e ∧ e ≤ end_) ∧
            Known P k hash s := by
      refine Sat.bind (Q := fun data s => (ReadAs k (Cache.decode data) ∧
        ∀ record, Cache.decode data = some record → ∃ e, expiry P record = some e ∧ e ≤ end_) ∧
          Known P k hash s) ?_ fun data => fun s hs => hs
      refine Sat.call (fun _ _ _ hs hm => ⟨hs.1, hm.known⟩) fun x s hs _ => ?_
      refine ⟨moves_refl hs.1, ⟨hs.1.readAs k, fun record hrecord => ?_⟩, hs.1⟩
      cases ht : s.strings (keyPath k) with
      | none => exact absurd hrecord (by simp [machine, ht, Cache.decode])
      | some text =>
        obtain ⟨e, he, hle⟩ := hs.2 text ht
        have hdecode : Cache.decode (some text) = some record := by
          simpa [machine, ht] using hrecord
        exact ⟨e, by simpa [textExpiry, hdecode] using he, hle⟩
    refine Sat.bind hread fun r => Sat.assume fun hr => ?_
    cases r with
    | none => exact fun s _ => rfl
    | some record =>
      obtain ⟨fields, hash', rfl, -⟩ := hr.1 record rfl
      obtain ⟨e, he, hle⟩ := hr.2 _ rfl
      -- an expiry that is not `none` is a date that the validation looks at
      obtain ⟨htruthy, hdate⟩ : Json.truthy ((Json.obj fields).get? "expires_at") = true ∧
          parseDate P ((Json.obj fields).get? "expires_at") = some e := by
        unfold expiry at he
        split at he
        · exact ⟨by assumption, he⟩
        · cases he
      dsimp only
      split
      · exact fun s _ => rfl
      refine Sat.bind holds_dateNow fun now => Sat.assume fun hnow => ?_
      rw [htruthy, hdate]
      rw [if_pos (by simpa using hle.trans (hend now hnow))]
      refine Sat.bind (holds_multiExec (proper_delete _ _ _)) fun _ => ?_
      exact fun s _ => rfl

/-- What a call has brought about when it returns. -/
def Returns (P : Platform) (cfg : Config) (id : String) (during : ℕ → Prop) (call : Call)
    (o : Outcome) (s : Store) : Prop :=
  (∀ options, call = .rotate id options → o.isRotated = true →
      ∀ t, (∀ x, during x → x ≤ t) → Retired P id (graceEnd cfg options t) s) ∧
    (call = .revoke id → Gone id s)

/-- **Every call meets the contract.** -/
theorem holds_code (hP : Dates P) (call : Call) :
    Holds P id hash during (call.code P cfg) (Known P id hash) (Returns P cfg id during call) := by
  cases call with
  | create label scopes tier =>
    refine Sat.bind (holds_createKey label scopes tier) fun key => fun s _ => ?_
    exact ⟨fun _ h => (nomatch h), fun h => (nomatch h)⟩
  | validate apiKey =>
    refine Sat.bind (holds_validateByHash apiKey) fun record => fun s _ => ?_
    exact ⟨fun _ h => (nomatch h), fun h => (nomatch h)⟩
  | rotate k options =>
    refine Sat.bind (holds_rotateKey hP k options) fun key => fun s hs => ?_
    refine ⟨fun options' hcall hr t ht => ?_, fun h => (nomatch h)⟩
    obtain ⟨rfl, rfl⟩ := Call.rotate.inj hcall
    exact hs.2 rfl (fun hnone => by simp [hnone, Outcome.isRotated] at hr) t ht
  | revoke k =>
    by_cases hk : k = id
    · subst hk
      refine Sat.bind holds_revokeKey_self fun record => fun s hs => ?_
      exact ⟨fun _ h => (nomatch h), fun _ => hs⟩
    · refine Sat.bind (holds_revokeKey k) fun record => fun s _ => ?_
      exact ⟨fun _ h => (nomatch h), fun h => absurd (Call.revoke.inj h) hk⟩

end Calls

/-! ## 4. Every interleaving -/

section Runs

variable {τ : Type} [DecidableEq τ] {calls : τ → Call} {during : τ → ℕ → Prop}
  {ls : List (τ × ℕ)}

omit [DecidableEq τ] in
theorem compatible_retiring :
    Pool.Compatible fun i : τ => retiring P id hash (during i) := fun _ _ _ _ _ h => h

/-- The steps of a run meet the contracts of the calls. -/
theorem along_ok (hash : String) (during : τ → ℕ → Prop) {c : Calls τ}
    (hls : Along (Pool.step (callMachine P)) (Pool.Issues (KeepsRetired P id)) c ls)
    (htimes : ∀ l ∈ ls, during l.1 l.2) :
    Along (Pool.step (callMachine P))
      (fun c l => Pool.Issues (retiring P id hash (during l.1)).ok c l) c ls := by
  refine (hls.and_forall htimes).mono fun c l h => ?_
  obtain ⟨hissues, htime⟩ := h
  unfold Pool.Issues at hissues ⊢
  cases hp : c.prog l.1 with
  | ret a => trivial
  | cmd op k =>
    rw [hp] at hissues
    exact ⟨hissues, htime⟩

omit [DecidableEq τ] in
/-- The calls as they begin. -/
theorem safe_begin (cfg : Config) (calls : τ → Call) (during : τ → ℕ → Prop) (hP : Dates P) (hs : Known P id hash s) :
    (beginCalls P cfg calls s).Safe (callMachine P) (fun i => retiring P id hash (during i))
      fun i => Returns P cfg id (during i) (calls i) :=
  fun i => ⟨Known P id hash, stable_known, hs,
    Sat.comap (f := fun _ => ()) (holds_code hP (calls i))⟩

/-- **From a state in which the record is refused from `end_` on**, the validation `j` of the
key, none of whose steps comes before `end_`, returns no record. -/
theorem rejected_later {c : Calls τ} {Q : τ → Outcome → Store → Prop} {i j : τ} {apiKey : String}
    (hsafe : c.Safe (callMachine P) (fun k => retiring P id (P.sha256 apiKey) (during k)) Q)
    (hduring : ∀ k, k ≠ i → ∀ x, during k x) {o : Outcome} (hi : c.prog i = .ret o)
    (hj : c.prog j = (Call.validate apiKey).code P cfg) (hadmin : isAdminKey P cfg apiKey = false)
    {end_ : ℕ} (hstore : Known P id (P.sha256 apiKey) c.store ∧ Retired P id end_ c.store)
    (hls : Along (Pool.step (callMachine P)) (Pool.Issues (KeepsRetired P id)) c ls)
    (htimes : ∀ l ∈ ls, l.1 = j → end_ ≤ l.2) :
    ¬ (run (Pool.step (callMachine P)) c ls).Returned j Outcome.isAccepted := by
  have hend : (run (Pool.step (callMachine P)) c ls).Safe (callMachine P)
      (fun k => retiring P id (P.sha256 apiKey) fun x => k = j → end_ ≤ x)
      fun k o _ => k = j → o.isAccepted = false := by
    refine Pool.Safe.run compatible_retiring (fun k => ?_)
      (along_ok _ (fun k x => k = j → end_ ≤ x) hls htimes)
    by_cases hk : k = j
    · subst hk
      rw [hj]
      refine ⟨fun s => Known P id (P.sha256 apiKey) s ∧ Retired P id end_ s,
        fun _ _ hs hm => ⟨hm.known, hm.retired _ hs.2⟩, hstore, Sat.comap ?_⟩
      refine Sat.bind (holds_late rfl hadmin fun x hx => hx rfl) fun r => ?_
      rintro s rfl -
      rfl
    by_cases hki : k = i
    · subst hki
      rw [hi]
      exact ⟨fun _ => True, fun _ _ _ _ => trivial, trivial, fun _ _ h => absurd h hk⟩
    · exact ((hsafe k).ok_mono fun op x s hok => ⟨hok.1, hduring k hki x⟩).mono
        fun _ _ _ h => absurd h hk
  rintro ⟨o, hret, haccepted⟩
  exact absurd (hend.done hret rfl) (by simp [haccepted])

/-- **Rotation and revocation are effective.**  Any calls run in any interleaving, and every
write of the record of `id` finds it stored and does not move its expiry to a later time.  Once a
rotation has returned, a validation of the old key that starts at or after the end of the grace
period is refused; once a revocation has returned, every later one is, and the record stays
deleted. -/
theorem retired_for_good (P : Platform) (hP : Dates P) (cfg : Config) (calls : τ → Call)
    (s : Store) (hinv : Inv P s) (id text apiKey : String)
    (hstored : s.strings (keyPath id) = some text) (hrecord : IsRecord text id (P.sha256 apiKey))
    (hadmin : isAdminKey P cfg apiKey = false) (l₁ l₂ : List (τ × ℕ))
    (hls : Along (Pool.step (callMachine P)) (Pool.Issues (KeepsRetired P id))
      (beginCalls P cfg calls s) (l₁ ++ l₂))
    (i j : τ) (hj : calls j = .validate apiKey) (hlater : ∀ l ∈ l₁, l.1 ≠ j) :
    (∀ options t, calls i = .rotate id options →
      (run (Pool.step (callMachine P)) (beginCalls P cfg calls s) l₁).Returned i
        Outcome.isRotated →
      (∀ l ∈ l₁, l.1 = i → l.2 ≤ t) → (∀ l ∈ l₂, l.1 = j → graceEnd cfg options t ≤ l.2) →
      ¬ (run (Pool.step (callMachine P)) (beginCalls P cfg calls s) (l₁ ++ l₂)).Returned j
        Outcome.isAccepted) ∧
    (calls i = .revoke id →
      (run (Pool.step (callMachine P)) (beginCalls P cfg calls s) l₁).Returned i (fun _ => true) →
      ¬ (run (Pool.step (callMachine P)) (beginCalls P cfg calls s) (l₁ ++ l₂)).Returned j
        Outcome.isAccepted ∧
      Gone id (run (Pool.step (callMachine P)) (beginCalls P cfg calls s) (l₁ ++ l₂)).store) := by
  obtain ⟨hl₁, hl₂⟩ := (along_append _ l₁ l₂).mp hls
  have hknown := hinv.known hstored hrecord
  have hbegin : (run (Pool.step (callMachine P)) (beginCalls P cfg calls s) l₁).prog j =
      (Call.validate apiKey).code P cfg := by
    rw [Pool.run_prog_of_not_mem hlater, ← hj]
    rfl
  have hstart : ∀ during : τ → ℕ → Prop, (∀ l ∈ l₁, during l.1 l.2) →
      (run (Pool.step (callMachine P)) (beginCalls P cfg calls s) l₁).Safe (callMachine P)
        (fun k => retiring P id (P.sha256 apiKey) (during k))
        (fun k => Returns P cfg id (during k) (calls k)) ∧
      Known P id (P.sha256 apiKey)
        (run (Pool.step (callMachine P)) (beginCalls P cfg calls s) l₁).store := by
    intro during htimes
    have hok := along_ok (P.sha256 apiKey) during hl₁ htimes
    have hsafe := safe_begin cfg calls during hP hknown
    exact ⟨hsafe.run compatible_retiring hok,
      hsafe.run_stable (fun _ => stable_known) compatible_retiring hknown hok⟩
  rw [run_append]
  generalize run (Pool.step (callMachine P)) (beginCalls P cfg calls s) l₁ = c at *
  constructor
  · rintro options t hi ⟨o, hret, hrotated⟩ ht htimes
    obtain ⟨hsafe, hk⟩ := hstart (fun k x => k = i → x ≤ t) ht
    have hretired := (hsafe.done hret).1 options hi hrotated t fun x hx => hx rfl
    exact rejected_later hsafe (fun k hne x h => absurd h hne) hret hbegin hadmin ⟨hk, hretired⟩
      hl₂ htimes
  · rintro hi ⟨o, hret, -⟩
    obtain ⟨hsafe, hk⟩ := hstart (fun _ _ => True) fun _ _ => trivial
    have hgone := (hsafe.done hret).2 hi
    refine ⟨rejected_later hsafe (fun _ _ _ => trivial) hret hbegin hadmin ⟨hk, hgone.retired 0⟩
      hl₂ fun _ _ _ => Nat.zero_le _, ?_⟩
    exact hsafe.run_stable (fun _ => stable_gone) compatible_retiring hgone
      (along_ok _ (fun _ _ => True) hl₂ fun _ _ => trivial)

end Runs

/-! ## 5. A validation that overlaps a revocation -/

/-- The sample platform with dates that count from one. -/
def clockPlatform : Platform := { samplePlatform with
  toISOString := fun n => String.ofList (List.replicate (n + 1) '1')
  dateParse := fun text => if text = "" then none else some (text.length - 1) }

theorem clockPlatform_dates : Dates clockPlatform where
  parse_toISOString t := by
    have hlen : (String.ofList (List.replicate (t + 1) '1')).length = t + 1 := by simp
    have hne : String.ofList (List.replicate (t + 1) '1') ≠ "" := by
      intro h
      rw [h] at hlen
      cases hlen
    show (if String.ofList (List.replicate (t + 1) '1') = "" then none else some
      ((String.ofList (List.replicate (t + 1) '1')).length - 1)) = some t
    rw [if_neg hne, hlen, Nat.add_sub_cancel]
  parse_empty := rfl

/-- One key has been created. -/
def sampleStore : Store :=
  (run (step clockPlatform sampleConfig) .init [(.create "ops" ["default"] none, 0)]).store

/-- Two requests that use the key, and its revocation. -/
def sampleCalls : Fin 3 → Call
  | 0 => .validate "a"
  | 1 => .revoke "key_"
  | 2 => .validate "a"

/-- The run of the sample calls in which each label lets one of them take a step. -/
def sampleRun (ls : List (Fin 3 × ℕ)) : Calls (Fin 3) :=
  run (Pool.step (callMachine clockPlatform))
    (beginCalls clockPlatform sampleConfig sampleCalls sampleStore) ls

/-- The first request has read the record, and the revocation runs to its end. -/
def sampleRevocation : List (Fin 3 × ℕ) := List.replicate 3 (0, 1) ++ List.replicate 2 (1, 1)

/-- A revocation reads the record, and deletes what leads to it. -/
theorem code_revoke (P : Platform) (cfg : Config) (id : String) :
    ∃ found : Option Json → Code Outcome, (Call.revoke id).code P cfg =
      .cmd (Op.get (keyPath id)) (fun data => found (Cache.decode data)) ∧
    ∀ record, found (some record) = .cmd (Op.multi [.del (keyPath id),
      .del (hashPath (fieldText (record.get? "key_hash"))), .zrem id]) fun _ =>
        .ret (.revoked (some (sanitize record))) := by
  refine ⟨fun o => Prog.bind (o.elim (.ret none) fun record => (multiExec [.del (keyPath id),
      .del (hashPath (fieldText (record.get? "key_hash"))), .zrem id]).bind fun _ =>
        .ret (some (sanitize record))) fun r => .ret (Outcome.revoked r),
    congrArg (@Prog.cmd sig _ (Op.get (keyPath id))) (funext fun data => ?_), fun _ => rfl⟩
  show Prog.bind (Prog.bind (Prog.ret (Cache.decode data)) _) _ = _
  generalize Cache.decode data = o
  cases o <;> rfl

/-- The sample key's record. -/
def sampleKey : Json := .obj [
  ("id", .str "key_"), ("label", .str "ops"), ("key_prefix", .str "a"), ("key_hash", .str "a"),
  ("scopes", .arr [.str "default"]), ("tier", .str "free"), ("created_at", .str "1"),
  ("last_used_at", .null)]

theorem sampleStore_key : sampleStore.strings (keyPath "key_") = some (stringify sampleKey) := rfl

theorem sampleStore_hash : sampleStore.strings (hashPath "a") = some (keyId "") := rfl

theorem validateFound_sample : ∃ F k,
    validateFound clockPlatform sampleConfig "a" (some (.str (keyId ""))) =
      (Cache.get (keyPath "key_")).bind F ∧
    F (some sampleKey) = .cmd Op.now k ∧
    k (1 : ℕ) = .cmd (Op.multi [.set (keyPath "key_")
      (stringify (sampleKey.spread [("last_used_at", .str "11")]))]) fun _ =>
        .ret (some (sanitize (sampleKey.spread [("last_used_at", .str "11")]))) :=
  ⟨_, _, rfl, rfl, rfl⟩

/-- The request reads the id, the record and the time, and writes the record. -/
theorem code_validate : ∃ k₁ k₂ k₃ k₄,
    (Call.validate "a").code clockPlatform sampleConfig = .cmd (Op.get (hashPath "a")) k₁ ∧
    k₁ (some (keyId "")) = .cmd (Op.get (keyPath "key_")) k₂ ∧
    k₂ (some (stringify sampleKey)) = .cmd Op.now k₃ ∧
    k₃ (1 : ℕ) = .cmd (Op.multi [.set (keyPath "key_")
      (stringify (sampleKey.spread [("last_used_at", .str "11")]))]) k₄ := by
  obtain ⟨F, k, hF, hk, hset⟩ := validateFound_sample
  let answer (code : Code (Option Json)) : Code Outcome :=
    code.bind fun record => .ret (Outcome.validated record)
  refine ⟨fun id => answer (validateFound clockPlatform sampleConfig "a" (id.map .str)),
    fun data => answer (F (Cache.decode data)), fun t => answer (k t), _, rfl,
    congrArg answer hF, ?_, congrArg answer hset⟩
  change answer (F (Cache.decode (some (stringify sampleKey)))) = _
  rw [decode_stringify]
  exact congrArg answer hk

/-- After its three steps the request is about to write the record. -/
theorem sample_about_to_write : ∃ k, (sampleRun (List.replicate 3 (0, 1))).prog 0 =
      .cmd (Op.multi [.set (keyPath "key_")
        (stringify (sampleKey.spread [("last_used_at", .str "11")]))]) k ∧
    (sampleRun (List.replicate 3 (0, 1))).store = sampleStore := by
  obtain ⟨k₁, k₂, k₃, k₄, h₁, h₂, h₃, h₄⟩ := code_validate
  have hbegin : (sampleRun []).prog 0 = .cmd (Op.get (hashPath "a")) k₁ := h₁
  obtain ⟨hhash, hs₁⟩ := Pool.step_of_cmd (M := callMachine clockPlatform) hbegin rfl 1
  have hid := hhash.trans ((congrArg k₁ sampleStore_hash).trans h₂)
  obtain ⟨hrecord, hs₂⟩ := Pool.step_of_cmd (M := callMachine clockPlatform) hid hs₁ 1
  have hkey := hrecord.trans ((congrArg k₂ sampleStore_key).trans h₃)
  obtain ⟨hnow, hs₃⟩ := Pool.step_of_cmd (M := callMachine clockPlatform) hkey hs₂ 1
  exact ⟨k₄, hnow.trans h₄, hs₃⟩

/-- A revocation reads the record and deletes it. -/
theorem sample_deletes {c : Calls (Fin 3)}
    (hprog : c.prog 1 = (Call.revoke "key_").code clockPlatform sampleConfig)
    (hstore : c.store = sampleStore) :
    (∃ k, c.prog 1 = .cmd (Op.get (keyPath "key_")) k) ∧
    ∃ record hash, (c.step (callMachine clockPlatform) (1, 1)).prog 1 =
      .cmd (Op.multi [.del (keyPath "key_"), .del hash, .zrem "key_"]) fun _ =>
        .ret (.revoked record) := by
  obtain ⟨found, hcode, hfound⟩ := code_revoke clockPlatform sampleConfig "key_"
  have hfirst := hprog.trans hcode
  have hread : Cache.decode (sampleStore.strings (keyPath "key_")) = some sampleKey := by
    rw [sampleStore_key, decode_stringify]
  have hrecord := (Pool.step_of_cmd (M := callMachine clockPlatform) hfirst hstore 1).1
  exact ⟨⟨_, hfirst⟩, _, _, hrecord.trans ((congrArg found hread).trans (hfound sampleKey))⟩

/-- Its second step is the last. -/
theorem sample_revoked {c : Calls (Fin 3)}
    (hprog : c.prog 1 = (Call.revoke "key_").code clockPlatform sampleConfig)
    (hstore : c.store = sampleStore) :
    ∃ record, (run (Pool.step (callMachine clockPlatform)) c (List.replicate 2 (1, 1))).prog 1 =
      .ret (.revoked record) := by
  obtain ⟨-, record, hash, hdel⟩ := sample_deletes hprog hstore
  exact ⟨record, (Pool.step_of_cmd (M := callMachine clockPlatform) hdel rfl 1).1⟩

/-- A revocation writes no record. -/
theorem sample_keeps {c : Calls (Fin 3)}
    (hprog : c.prog 1 = (Call.revoke "key_").code clockPlatform sampleConfig)
    (hstore : c.store = sampleStore) :
    Along (Pool.step (callMachine clockPlatform)) (Pool.Issues (KeepsRetired clockPlatform "key_")) c
      (List.replicate 2 (1, 1)) := by
  obtain ⟨⟨_, hget⟩, _, hash, hdel⟩ := sample_deletes hprog hstore
  have hkeeps : KeepsRetired clockPlatform "key_"
      (Op.multi [.del (keyPath "key_"), .del hash, .zrem "key_"]) 1
      (c.step (callMachine clockPlatform) (1, 1)).store := by
    simp [KeepsRetired, Command.KeepsRetired]
  exact ⟨Pool.issues_of_cmd hget trivial, Pool.issues_of_cmd hdel hkeeps, trivial⟩

theorem callMachine_set {τ : Type} (i : τ) (key text : String) (x : ℕ) (s : Store) :
    ((callMachine clockPlatform).exec i (Op.multi [.set key text]) x s).2.strings key = some text := by
  change Function.update s.strings key (some text) key = _
  rw [Function.update_self]

/-- When the first request writes the record, the revoked key has one again. -/
theorem revoked_key_recreated :
    ¬ ((sampleRun sampleRevocation).Returned 1 (fun _ => true) →
      Gone "key_" (sampleRun (sampleRevocation ++ [(0, 1)])).store) := by
  intro h
  obtain ⟨k, hwrite, hstore⟩ := sample_about_to_write
  have hsplit : sampleRun sampleRevocation = run (Pool.step (callMachine clockPlatform))
      (sampleRun (List.replicate 3 (0, 1))) (List.replicate 2 (1, 1)) := run_append ..
  have hrevoke : (sampleRun (List.replicate 3 (0, 1))).prog 1 =
      (Call.revoke "key_").code clockPlatform sampleConfig :=
    Pool.run_prog_of_not_mem (by decide)
  obtain ⟨record, hreturned⟩ := sample_revoked hrevoke hstore
  have hlast : (sampleRun sampleRevocation).prog 0 = _ :=
    (congrArg (fun c : Calls (Fin 3) => c.prog 0) hsplit).trans
      ((Pool.run_prog_of_not_mem (by decide)).trans hwrite)
  have hgone := h ⟨_, (congrArg (fun c : Calls (Fin 3) => c.prog 1) hsplit).trans hreturned, rfl⟩
  have hstep : sampleRun (sampleRevocation ++ [(0, 1)]) =
      (sampleRun sampleRevocation).step (callMachine clockPlatform) (0, 1) := run_append ..
  have hwritten : (sampleRun (sampleRevocation ++ [(0, 1)])).store.strings (keyPath "key_") =
      some (stringify (sampleKey.spread [("last_used_at", .str "11")])) := by
    rw [hstep, (Pool.step_of_cmd (M := callMachine clockPlatform) hlast rfl 1).2]
    exact callMachine_set ..
  rw [Gone, hwritten] at hgone
  cases hgone

/-- When the revocation comes first, the key is refused. -/
theorem retired_for_good_sample :
    ¬ (sampleRun (List.replicate 2 (1, 1) ++ [(2, 2)])).Returned 2 Outcome.isAccepted := by
  have hrecord : IsRecord (stringify sampleKey) "key_" "a" := ⟨_, rfl, rfl, rfl⟩
  obtain ⟨record, hreturned⟩ := sample_revoked (c := sampleRun []) rfl rfl
  obtain ⟨k₁, -, -, -, hcode, -⟩ := code_validate
  have hvalidate : (run (Pool.step (callMachine clockPlatform)) (sampleRun [])
      (List.replicate 2 (1, 1))).prog 2 = .cmd (Op.get (hashPath "a")) k₁ :=
    (Pool.run_prog_of_not_mem (by decide)).trans hcode
  have hkeeps : Along (Pool.step (callMachine clockPlatform))
      (Pool.Issues (KeepsRetired clockPlatform "key_")) (sampleRun [])
      (List.replicate 2 (1, 1) ++ [(2, 2)]) :=
    (along_append _ _ _).mpr ⟨sample_keeps rfl rfl, Pool.issues_of_cmd hvalidate trivial, trivial⟩
  have h := retired_for_good clockPlatform clockPlatform_dates sampleConfig sampleCalls sampleStore
    (reachable_inv clockPlatform sampleConfig _) "key_" _ "a" sampleStore_key hrecord
    (by decide +kernel) (List.replicate 2 (1, 1)) [(2, 2)] hkeeps 1 2 rfl (by decide)
  exact (h.2 rfl ⟨_, hreturned, rfl⟩).1

end SmartDrop.ApiKeys
