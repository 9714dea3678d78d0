/-
# The law of the API key store

The three places a key is kept in agree after every sequence of calls (`Linked`), and that is
all the store needs to find a key again.  The last part of the law is not met: `createKey` and
`rotateKey` write the id into the hash entry as it is, and `validateApiKey` reads the entry
through `cache.get`, which takes a text that is not JSON as a miss.  An id starts with a `k`,
so no issued key validates (`validateApiKey_eq`), and the law holds exactly as long as no
issued key should (`law_iff`).
-/
import SmartDrop.ApiKeys.Keys
import SmartDrop.Lib.JsText
import SmartDrop.Lib.Run

namespace SmartDrop.ApiKeys

open Conc Redis JsonText

/-! ## 1. The sequential system -/

/-- A key that was issued: its id, its text, whether it was revoked, and the ends of the grace
periods that rotations of it have started. -/
structure Issued where
  id : String
  apiKey : String
  revoked : Bool
  graceEnds : List ℕ

/-- A key is LIVE at `t` when it was not revoked and no grace period of it has ended. -/
def Issued.Live (e : Issued) (t : ℕ) : Prop := e.revoked = false ∧ ∀ g ∈ e.graceEnds, t < g

/-- The calls of the module. -/
inductive Call where
  | create (label : String) (scopes : List String) (tier : Option String)
  | rotate (id : String) (options : RotateOptions)
  | revoke (id : String)
  | validate (apiKey : String)

/-- The database, and the history of what was issued. -/
structure State where
  store : Store
  issued : List Issued

/-- Nothing issued yet. -/
def State.init : State := ⟨.init, []⟩

/-- The history after a revocation of `id`. -/
def markRevoked (id : String) (issued : List Issued) : List Issued :=
  issued.map fun e => if e.id = id then { e with revoked := true } else e

/-- The history after a rotation of `id` whose grace period ends at `g`. -/
def markRotated (id : String) (g : ℕ) (issued : List Issued) : List Issued :=
  issued.map fun e => if e.id = id then { e with graceEnds := g :: e.graceEnds } else e

variable (P : Platform) (cfg : Config)

/-- What a call returns and leaves, run alone at time `t`. -/
def runAt {α : Type} (code : Code α) (t : ℕ) (s : Store) : α × Store :=
  code.runAt (machine P) () t s

/-- One call at a time. -/
def step (c : State) (l : Call × ℕ) : State :=
  match l.1 with
  | .create label scopes tier =>
    let r := runAt P (createKey P cfg label scopes tier) l.2 c.store
    ⟨r.2, ⟨r.1.id, r.1.apiKey, false, []⟩ :: c.issued⟩
  | .rotate id options =>
    let r := runAt P (rotateKey P cfg id options) l.2 c.store
    match r.1 with
    | none => ⟨r.2, c.issued⟩
    | some new =>
      ⟨r.2, ⟨new.id, new.apiKey, false, []⟩ :: markRotated id (graceEnd cfg options l.2) c.issued⟩
  | .revoke id => ⟨(runAt P (revokeKey id) l.2 c.store).2, markRevoked id c.issued⟩
  | .validate apiKey => ⟨(runAt P (validateApiKey P cfg apiKey) l.2 c.store).2, c.issued⟩

/-- `validateApiKey` returns a record for `apiKey` at time `t`. -/
def Validates (s : Store) (apiKey : String) (t : ℕ) : Prop :=
  (runAt P (validateApiKey P cfg apiKey) t s).1 ≠ none

/-- The record of an id, as `getKey` reads it. -/
def recordOf (s : Store) (id : String) : Option Json := Cache.decode (s.strings (keyPath id))

/-- **The law of the store** at time `t`. -/
structure Law (c : State) (t : ℕ) : Prop where
  hash_names_record : ∀ hash id, c.store.strings (hashPath hash) = some id →
    ∃ record, recordOf c.store id = some record ∧ record.get? "key_hash" = some (.str hash)
  record_has_hash : ∀ id record, recordOf c.store id = some record →
    ∃ hash, record.get? "key_hash" = some (.str hash) ∧
      c.store.strings (hashPath hash) = some id
  listed_has_record : ∀ id ∈ c.store.ids, ∃ record, recordOf c.store id = some record
  validates_iff : ∀ apiKey, Validates P cfg c.store apiKey t ↔
    ∃ e ∈ c.issued, e.apiKey = apiKey ∧ e.Live t

/-! ## 2. Keys of the database -/

variable {P cfg} {s : Store} {id hash text : String}

@[simp] theorem keyPath_inj {a b : String} : keyPath a = keyPath b ↔ a = b := by
  simp [keyPath, String.ext_iff]

@[simp] theorem hashPath_inj {a b : String} : hashPath a = hashPath b ↔ a = b := by
  simp [hashPath, String.ext_iff]

@[simp] theorem keyPath_ne_hashPath (a b : String) : keyPath a ≠ hashPath b := by
  simp [keyPath, hashPath, String.ext_iff]

@[simp] theorem hashPath_ne_keyPath (a b : String) : hashPath a ≠ keyPath b :=
  (keyPath_ne_hashPath b a).symm

@[simp] theorem keyId_inj {a b : String} : keyId a = keyId b ↔ a = b := by
  simp [keyId, String.ext_iff]

/-- What `cache.set` wrote, `cache.get` reads. -/
@[simp] theorem decode_stringify (v : Json) : Cache.decode (some (stringify v)) = some v := by
  have hne : stringify v ≠ "" := by
    intro h
    have := parse_stringify v
    rw [h] at this
    exact absurd this (by simp [parse, readValue, skip, readNumber, isLiteral, isUnsigned])
  rw [Cache.decode, if_neg hne, parse_stringify]

/-- An id as it stands is not JSON. -/
@[simp] theorem decode_keyId (uuid : String) : Cache.decode (some (keyId uuid)) = none := by
  have h : (keyId uuid).toList = 'k' :: ("ey_" ++ uuid).toList := by simp [keyId]
  have hne : keyId uuid ≠ "" := by
    intro e
    rw [e] at h
    exact absurd h (by simp)
  rw [Cache.decode, if_neg hne]
  exact parse_eq_none_of_head h (by decide) (by decide) (by decide)

/-! ## 3. What the three places say about each other -/

/-- `text` is a record with this id and this hash. -/
def IsRecord (text id hash : String) : Prop :=
  ∃ fields, text = stringify (.obj fields) ∧ (Json.obj fields).get? "id" = some (.str id) ∧
    (Json.obj fields).get? "key_hash" = some (.str hash)

/-- Records, hash entries and the id list agree. -/
structure Linked (s : Store) : Prop where
  record : ∀ id text, s.strings (keyPath id) = some text →
    ∃ hash, IsRecord text id hash ∧ s.strings (hashPath hash) = some id
  hash : ∀ hash id, s.strings (hashPath hash) = some id →
    ∃ text, s.strings (keyPath id) = some text ∧ IsRecord text id hash
  listed : ∀ id ∈ s.ids, ∃ text, s.strings (keyPath id) = some text

/-- Every id and every hash in the database comes from the random source. -/
structure Drawn (P : Platform) (s : Store) : Prop where
  id : ∀ id text, s.strings (keyPath id) = some text →
    ∃ n < s.uuidsDrawn, id = keyId (P.randomUUID n)
  hash : ∀ hash id, s.strings (hashPath hash) = some id →
    ∃ n < s.keysDrawn, hash = P.sha256 (P.randomKey n)

/-- What every call keeps. -/
structure Inv (P : Platform) (s : Store) : Prop where
  linked : Linked s
  drawn : Drawn P s

/-- A stored record has one hash. -/
theorem IsRecord.hash_unique {h₁ h₂ : String} (r₁ : IsRecord text id h₁)
    (r₂ : IsRecord text id h₂) : h₁ = h₂ := by
  obtain ⟨f₁, rfl, -, k₁⟩ := r₁
  obtain ⟨f₂, he, -, k₂⟩ := r₂
  have hp := parse_stringify (.obj f₁)
  rw [he, parse_stringify] at hp
  rw [Option.some.inj hp] at k₂
  simpa using k₁.symm.trans k₂

/-- Two ids do not share a hash entry. -/
theorem Linked.id_unique (h : Linked s) {a b t₁ t₂ : String} (ha : s.strings (keyPath a) = some t₁)
    (hb : s.strings (keyPath b) = some t₂) (ra : IsRecord t₁ a hash) (rb : IsRecord t₂ b hash) :
    a = b := by
  obtain ⟨h₁, r₁, e₁⟩ := h.record a t₁ ha
  obtain ⟨h₂, r₂, e₂⟩ := h.record b t₂ hb
  rw [r₁.hash_unique ra] at e₁
  rw [r₂.hash_unique rb, e₁] at e₂
  exact Option.some.inj e₂

/-- What `getKey` finds under the invariant. -/
theorem Linked.recordOf_cases (h : Linked s) (id : String) :
    (s.strings (keyPath id) = none ∧ recordOf s id = none) ∨
    ∃ fields hash, s.strings (keyPath id) = some (stringify (.obj fields)) ∧
      recordOf s id = some (.obj fields) ∧ (Json.obj fields).get? "id" = some (.str id) ∧
      (Json.obj fields).get? "key_hash" = some (.str hash) ∧
      s.strings (hashPath hash) = some id := by
  cases ht : s.strings (keyPath id) with
  | none => exact Or.inl ⟨rfl, by simp [recordOf, ht, Cache.decode]⟩
  | some text =>
    obtain ⟨hash, ⟨fields, rfl, hid, hkey⟩, hentry⟩ := h.record id text ht
    exact Or.inr ⟨fields, hash, rfl, by simp [recordOf, ht], hid, hkey, hentry⟩

/-! ## 4. What the writes do to it

A call writes one of three things: a new key, a new text for a record, or nothing more of a
key. -/

/-- The writes of a new key. -/
def issueWrites (id hash text : String) (score : ℕ) : List Command :=
  [.set (keyPath id) text, .set (hashPath hash) id, .zadd score id]

/-- The writes that delete a key. -/
def deleteWrites (id hash : String) : List Command :=
  [.del (keyPath id), .del (hashPath hash), .zrem id]

/-- A transaction. -/
def Store.exec (s : Store) (cmds : List Command) : Store := cmds.foldl Command.apply s

theorem Linked.issue (h : Linked s) (hid : s.strings (keyPath id) = none)
    (hhash : s.strings (hashPath hash) = none) (hr : IsRecord text id hash) (score : ℕ) :
    Linked (s.exec (issueWrites id hash text score)) where
  record a t ha := by
    simp only [Store.exec, issueWrites, List.foldl, Command.apply, Function.update_apply,
      keyPath_inj, hashPath_inj, keyPath_ne_hashPath, hashPath_ne_keyPath, if_false] at ha ⊢
    split at ha
    · rename_i e
      subst e
      obtain rfl := Option.some.inj ha
      exact ⟨hash, hr, by simp⟩
    · obtain ⟨k, hk, e⟩ := h.record a t ha
      refine ⟨k, hk, ?_⟩
      rw [if_neg, e]
      rintro rfl
      rw [hhash] at e
      cases e
  hash k a hk := by
    simp only [Store.exec, issueWrites, List.foldl, Command.apply, Function.update_apply,
      keyPath_inj, hashPath_inj, keyPath_ne_hashPath, hashPath_ne_keyPath, if_false] at hk ⊢
    split at hk
    · rename_i e
      subst e
      obtain rfl := Option.some.inj hk
      exact ⟨text, by simp, hr⟩
    · obtain ⟨t, ht, hr'⟩ := h.hash k a hk
      refine ⟨t, ?_, hr'⟩
      rw [if_neg, ht]
      rintro rfl
      rw [hid] at ht
      cases ht
  listed a ha := by
    simp only [Store.exec, issueWrites, List.foldl, Command.apply, Function.update_apply,
      keyPath_inj, keyPath_ne_hashPath, if_false, ZSet.mem_zadd] at ha ⊢
    by_cases e : a = id
    · exact ⟨text, by simp [e]⟩
    · rw [if_neg e]
      exact h.listed a (ha.resolve_right e)

theorem Linked.rewrite (h : Linked s) (hentry : s.strings (hashPath hash) = some id)
    (hr : IsRecord text id hash) (score : ℕ) :
    Linked (s.exec [.set (keyPath id) text, .zadd score id]) where
  record a t ha := by
    simp only [Store.exec, List.foldl, Command.apply, Function.update_apply, keyPath_inj,
      hashPath_ne_keyPath, if_false] at ha ⊢
    split at ha
    · rename_i e
      subst e
      obtain rfl := Option.some.inj ha
      exact ⟨hash, hr, hentry⟩
    · exact h.record a t ha
  hash k a hk := by
    simp only [Store.exec, List.foldl, Command.apply, Function.update_apply, keyPath_inj,
      hashPath_ne_keyPath, if_false] at hk ⊢
    obtain ⟨t, ht, hr'⟩ := h.hash k a hk
    by_cases e : a = id
    · subst e
      obtain ⟨t₀, ht₀, hr₀⟩ := h.hash hash a hentry
      rw [ht] at ht₀
      obtain rfl := Option.some.inj ht₀
      exact ⟨text, by simp, hr'.hash_unique hr₀ ▸ hr⟩
    · exact ⟨t, by rw [if_neg e, ht], hr'⟩
  listed a ha := by
    simp only [Store.exec, List.foldl, Command.apply, Function.update_apply, keyPath_inj,
      ZSet.mem_zadd] at ha ⊢
    by_cases e : a = id
    · exact ⟨text, by simp [e]⟩
    · rw [if_neg e]
      exact h.listed a (ha.resolve_right e)

theorem Linked.delete (h : Linked s) (hentry : s.strings (hashPath hash) = some id) :
    Linked (s.exec (deleteWrites id hash)) where
  record a t ha := by
    simp only [Store.exec, deleteWrites, List.foldl, Command.apply, Function.update_apply,
      keyPath_inj, hashPath_inj, keyPath_ne_hashPath, hashPath_ne_keyPath, if_false] at ha ⊢
    split at ha
    · cases ha
    · rename_i hne
      obtain ⟨k, hk, e⟩ := h.record a t ha
      refine ⟨k, hk, ?_⟩
      rw [if_neg, e]
      rintro rfl
      rw [hentry] at e
      exact hne (Option.some.inj e).symm
  hash k a hk := by
    simp only [Store.exec, deleteWrites, List.foldl, Command.apply, Function.update_apply,
      keyPath_inj, hashPath_inj, keyPath_ne_hashPath, hashPath_ne_keyPath, if_false] at hk ⊢
    split at hk
    · cases hk
    · rename_i hne
      obtain ⟨t, ht, hr⟩ := h.hash k a hk
      refine ⟨t, ?_, hr⟩
      rw [if_neg, ht]
      rintro rfl
      obtain ⟨t₀, ht₀, hr₀⟩ := h.hash hash a hentry
      rw [ht] at ht₀
      obtain rfl := Option.some.inj ht₀
      exact hne (hr.hash_unique hr₀)
  listed a ha := by
    simp only [Store.exec, deleteWrites, List.foldl, Command.apply, Function.update_apply,
      keyPath_inj, keyPath_ne_hashPath, if_false, ZSet.mem_zrem] at ha ⊢
    rw [if_neg ha.2]
    exact h.listed a ha.1

/-! ## 5. Where ids and hashes come from -/

/-- The database after a key and a UUID were drawn. -/
def Store.draw (s : Store) : Store :=
  { s with keysDrawn := s.keysDrawn + 1, uuidsDrawn := s.uuidsDrawn + 1 }

theorem Linked.draw (h : Linked s) : Linked s.draw := ⟨h.record, h.hash, h.listed⟩

/-- The id that the next UUID makes. -/
def nextId (P : Platform) (s : Store) : String := keyId (P.randomUUID s.uuidsDrawn)

/-- The hash of the next key. -/
def nextHash (P : Platform) (s : Store) : String := P.sha256 (P.randomKey s.keysDrawn)

/-- What is drawn next is not in the database. -/
theorem Drawn.fresh (h : Drawn P s) :
    s.strings (keyPath (nextId P s)) = none ∧ s.strings (hashPath (nextHash P s)) = none := by
  constructor
  · rw [Option.eq_none_iff_forall_ne_some]
    intro text ht
    obtain ⟨n, hn, e⟩ := h.id _ _ ht
    exact absurd (P.uuid_inj (keyId_inj.mp e)) (by omega)
  · rw [Option.eq_none_iff_forall_ne_some]
    intro id hi
    obtain ⟨n, hn, e⟩ := h.hash _ _ hi
    exact absurd (P.hash_inj e) (by omega)

/-- A write that brings in no other id and no other hash than the ones drawn. -/
theorem Drawn.write (h : Drawn P s) {s' : Store} (hk : s.keysDrawn ≤ s'.keysDrawn)
    (hu : s.uuidsDrawn ≤ s'.uuidsDrawn)
    (hid : ∀ a t, s'.strings (keyPath a) = some t →
      (∃ t', s.strings (keyPath a) = some t') ∨ a = nextId P s ∧ s.uuidsDrawn < s'.uuidsDrawn)
    (hhash : ∀ k a, s'.strings (hashPath k) = some a →
      (∃ a', s.strings (hashPath k) = some a') ∨ k = nextHash P s ∧ s.keysDrawn < s'.keysDrawn) :
    Drawn P s' where
  id a t ha := by
    rcases hid a t ha with ⟨t', ht'⟩ | ⟨e, hlt⟩
    · obtain ⟨n, hn, e⟩ := h.id a t' ht'
      exact ⟨n, by omega, e⟩
    · exact ⟨_, hlt, e⟩
  hash k a ha := by
    rcases hhash k a ha with ⟨a', ha'⟩ | ⟨e, hlt⟩
    · obtain ⟨n, hn, e⟩ := h.hash k a' ha'
      exact ⟨n, by omega, e⟩
    · exact ⟨_, hlt, e⟩

theorem Inv.init : Inv P .init where
  linked := {
    record := fun _ _ h => absurd h (by simp [Store.init]),
    hash := fun _ _ h => absurd h (by simp [Store.init]),
    listed := fun id h => absurd h (ZSet.not_mem_empty id) }
  drawn := {
    id := fun _ _ h => absurd h (by simp [Store.init]),
    hash := fun _ _ h => absurd h (by simp [Store.init]) }

theorem Inv.issue (h : Inv P s) (hr : IsRecord text (nextId P s) (nextHash P s)) (score : ℕ) :
    Inv P (s.draw.exec (issueWrites (nextId P s) (nextHash P s) text score)) where
  linked := h.linked.draw.issue h.drawn.fresh.1 h.drawn.fresh.2 hr score
  drawn := by
    refine h.drawn.write (Nat.le_succ _) (Nat.le_succ _) ?_ ?_
    · intro a t ha
      simp only [Store.exec, issueWrites, List.foldl, Command.apply, Function.update_apply,
        keyPath_inj, keyPath_ne_hashPath, if_false] at ha
      split at ha
      · exact Or.inr ⟨‹_›, Nat.lt_succ_self _⟩
      · exact Or.inl ⟨t, ha⟩
    · intro k a ha
      simp only [Store.exec, issueWrites, List.foldl, Command.apply, Function.update_apply,
        hashPath_inj, hashPath_ne_keyPath, if_false] at ha
      split at ha
      · exact Or.inr ⟨‹_›, Nat.lt_succ_self _⟩
      · exact Or.inl ⟨a, ha⟩

theorem Inv.rewrite (h : Inv P s) (hentry : s.strings (hashPath hash) = some id)
    (hr : IsRecord text id hash) (score : ℕ) :
    Inv P (s.exec [.set (keyPath id) text, .zadd score id]) where
  linked := h.linked.rewrite hentry hr score
  drawn := by
    refine h.drawn.write le_rfl le_rfl ?_ fun k a ha => Or.inl ⟨a, ?_⟩
    · intro a t ha
      simp only [Store.exec, List.foldl, Command.apply, Function.update_apply, keyPath_inj] at ha
      split at ha
      · rename_i e
        obtain ⟨t₀, ht₀, -⟩ := h.linked.hash hash id hentry
        exact Or.inl ⟨t₀, e ▸ ht₀⟩
      · exact Or.inl ⟨t, ha⟩
    · simpa [Store.exec, Command.apply] using ha

theorem Inv.delete (h : Inv P s) (hentry : s.strings (hashPath hash) = some id) :
    Inv P (s.exec (deleteWrites id hash)) where
  linked := h.linked.delete hentry
  drawn := by
    refine h.drawn.write le_rfl le_rfl ?_ ?_
    · intro a t ha
      simp only [Store.exec, deleteWrites, List.foldl, Command.apply, Function.update_apply,
        keyPath_inj, keyPath_ne_hashPath, if_false] at ha
      split at ha
      · cases ha
      · exact Or.inl ⟨t, ha⟩
    · intro k a ha
      simp only [Store.exec, deleteWrites, List.foldl, Command.apply, Function.update_apply,
        hashPath_inj, hashPath_ne_keyPath, if_false] at ha
      split at ha
      · cases ha
      · exact Or.inl ⟨a, ha⟩

/-- The hash entry of a stored key stays where it is when another key is issued. -/
theorem Drawn.issue_entry (h : Drawn P s) (hentry : s.strings (hashPath hash) = some id)
    (text : String) (score : ℕ) : (s.draw.exec (issueWrites (nextId P s) (nextHash P s) text score)).strings
      (hashPath hash) = some id := by
  have hne : hash ≠ nextHash P s := by
    rintro rfl
    rw [h.fresh.2] at hentry
    cases hentry
  simp [Store.exec, issueWrites, Command.apply, hne, Store.draw, hentry]

/-! ## 6. One lemma for each call -/

section Steps

variable {α : Type} (t : ℕ)

@[simp] theorem runAt_ret (a : α) : runAt P (.ret a) t s = (a, s) := rfl

@[simp] theorem runAt_dateNow (f : ℕ → Code α) :
    runAt P (dateNow.bind f) t s = runAt P (f t) t s := rfl

@[simp] theorem runAt_generateApiKey (f : String → Code α) :
    runAt P (generateApiKey.bind f) t s =
      runAt P (f (P.randomKey s.keysDrawn)) t { s with keysDrawn := s.keysDrawn + 1 } := rfl

@[simp] theorem runAt_randomUUID (f : String → Code α) :
    runAt P (randomUUID.bind f) t s =
      runAt P (f (P.randomUUID s.uuidsDrawn)) t { s with uuidsDrawn := s.uuidsDrawn + 1 } := rfl

@[simp] theorem runAt_multiExec (cmds : List Command) (f : Unit → Code α) :
    runAt P ((multiExec cmds).bind f) t s = runAt P (f ()) t (s.exec cmds) := rfl

/-- `cache.get` reads one text and changes nothing. -/
theorem runAt_get (key : String) (f : Option Json → Code α) :
    runAt P ((Cache.get key).bind f) t s = runAt P (f (Cache.decode (s.strings key))) t s := rfl

/-- `getKey` reads the record and changes nothing. -/
theorem runAt_getKey (f : Option Json → Code α) :
    runAt P ((getKey id).bind f) t s = runAt P (f (recordOf s id)) t s := rfl

end Steps

theorem createKey_inv (h : Inv P s) (label : String) (scopes : List String)
    (tier : Option String) (t : ℕ) : Inv P (runAt P (createKey P cfg label scopes tier) t s).2 := by
  simp only [createKey, Prog.bind_eq, Prog.pure_eq, runAt_generateApiKey, runAt_dateNow,
    runAt_randomUUID, runAt_multiExec, runAt_ret]
  exact h.issue ⟨_, rfl, by simp [Json.get?, nextId], by simp [Json.get?, nextHash]⟩ t

theorem revokeKey_inv (h : Inv P s) (id : String) (t : ℕ) :
    Inv P (runAt P (revokeKey id) t s).2 := by
  rw [revokeKey, Prog.bind_eq, runAt_getKey]
  rcases h.linked.recordOf_cases id with ⟨-, hr⟩ | ⟨fields, hash, -, hr, -, hkey, hentry⟩
  · rw [hr]
    exact h
  · rw [hr]
    simp only [hkey, fieldText, templateText, Prog.bind_eq, Prog.pure_eq, runAt_multiExec,
      runAt_ret]
    exact h.delete hentry

/-- The replacement's record is one. -/
theorem isRecord_rotated (P : Platform) (cfg : Config) (options : RotateOptions)
    (oldRecord : Json) (apiKey id hash : String) (now : ℕ) :
    IsRecord (stringify (rotatedRecord P cfg options oldRecord apiKey id hash now)) id hash := by
  have hn : ["id", "label", "key_prefix", "key_hash", "scopes", "tier", "created_at",
      "rotated_at", "rotated_from", "rotation_count", "last_used_at"].Nodup := by decide
  exact ⟨_, rfl, Json.get?_ofFields hn (by simp), Json.get?_ofFields hn (by simp)⟩

/-- A record that is patched beside its id and its hash. -/
theorem isRecord_spread {fields patch : List (String × Json)}
    (hid : (Json.obj fields).get? "id" = some (.str id))
    (hkey : (Json.obj fields).get? "key_hash" = some (.str hash))
    (hp : ∀ f ∈ patch, f.1 ≠ "id" ∧ f.1 ≠ "key_hash") :
    IsRecord (stringify ((Json.obj fields).spread patch)) id hash :=
  ⟨_, rfl, (Json.get?_spread fun f hf => (hp f hf).1).trans hid,
    (Json.get?_spread fun f hf => (hp f hf).2).trans hkey⟩

theorem rotateKey_inv (cfg : Config) (h : Inv P s) (id : String) (options : RotateOptions) (t : ℕ) :
    Inv P (runAt P (rotateKey P cfg id options) t s).2 := by
  rw [rotateKey, Prog.bind_eq, runAt_getKey]
  rcases h.linked.recordOf_cases id with ⟨-, hr⟩ | ⟨fields, hash, -, hr, hid, hkey, hentry⟩
  · rw [hr]
    exact h
  · rw [hr]
    simp only [hkey, fieldText, templateText, Prog.bind_eq, Prog.pure_eq, runAt_generateApiKey,
      runAt_dateNow, runAt_randomUUID]
    have hrec := isRecord_rotated P cfg options (.obj fields) (P.randomKey s.keysDrawn)
      (nextId P s) (nextHash P s) t
    have hissued := h.issue hrec t
    have hentry' := h.drawn.issue_entry hentry (stringify (rotatedRecord P cfg options
      (.obj fields) (P.randomKey s.keysDrawn) (nextId P s) (nextHash P s) t)) t
    split
    · simp only [runAt_dateNow, runAt_multiExec, runAt_ret]
      rw [Store.exec, List.foldl_append]
      exact hissued.rewrite hentry' (isRecord_spread hid hkey (by simp)) t
    · simp only [runAt_multiExec, runAt_ret]
      rw [Store.exec, List.foldl_append]
      exact hissued.delete hentry'

/-- What a hash entry holds never parses. -/
theorem Inv.entry_unreadable (h : Inv P s) (hash : String) :
    Cache.decode (s.strings (hashPath hash)) = none := by
  cases hentry : s.strings (hashPath hash) with
  | none => rfl
  | some id =>
    obtain ⟨text, ht, -⟩ := h.linked.hash hash id hentry
    obtain ⟨n, -, rfl⟩ := h.drawn.id id text ht
    exact decode_keyId _

/-- The keys that `validateApiKey` answers before it looks at the database. -/
def IsBootstrap (P : Platform) (cfg : Config) (apiKey : String) : Prop :=
  apiKey ≠ "" ∧ isAdminKey P cfg apiKey = true

/-- **No issued key validates**: the answer is `null` for every key but the bootstrap admin
key, and the database stays as it is for that one too. -/
theorem validateApiKey_spec (cfg : Config) (h : Inv P s) (apiKey : String) (t : ℕ) :
    (runAt P (validateApiKey P cfg apiKey) t s).2 = s ∧
      (Validates P cfg s apiKey t ↔ IsBootstrap P cfg apiKey) := by
  unfold Validates IsBootstrap validateApiKey
  split
  · rename_i he
    simp [he]
  · rename_i hne
    split
    · rename_i ha
      simp [ha, hne]
    · rename_i ha
      simp only [Prog.bind_eq, runAt_get, h.entry_unreadable, validateFound]
      simp [ha]

/-! ## 7. The law of every reachable state -/

theorem step_inv (cfg : Config) {c : State} (h : Inv P c.store) (l : Call × ℕ) :
    Inv P (step P cfg c l).store := by
  obtain ⟨call, t⟩ := l
  cases call with
  | create label scopes tier => exact createKey_inv h label scopes tier t
  | rotate id options =>
    have := rotateKey_inv cfg h id options t
    simp only [step]
    split <;> exact this
  | revoke id => exact revokeKey_inv h id t
  | validate apiKey =>
    simp only [step, (validateApiKey_spec cfg h apiKey t).1]
    exact h

/-- **Every sequence of calls** keeps the three places linked. -/
theorem reachable_inv (P : Platform) (cfg : Config) (ls : List (Call × ℕ)) :
    Inv P (run (step P cfg) .init ls).store :=
  run_inv_of_step (I := fun c : State => Inv P c.store) (fun _ l h => step_inv cfg h l) Inv.init

/-- **When the law holds.**  After every sequence of calls, at every time, records, hash
entries and ids agree; and keys validate as they should exactly when the live keys are the
bootstrap admin key: where none is configured, as long as no issued key is live. -/
theorem law_iff (P : Platform) (cfg : Config) (ls : List (Call × ℕ)) (t : ℕ) :
    Law P cfg (run (step P cfg) .init ls) t ↔
      ∀ apiKey, (∃ e ∈ (run (step P cfg) .init ls).issued, e.apiKey = apiKey ∧ e.Live t) ↔
        IsBootstrap P cfg apiKey := by
  have h := reachable_inv P cfg ls
  constructor
  · intro hl apiKey
    rw [← hl.validates_iff apiKey, (validateApiKey_spec cfg h apiKey t).2]
  · intro hb
    refine ⟨?_, ?_, ?_, fun apiKey => ?_⟩
    · intro hash id hentry
      obtain ⟨text, ht, fields, rfl, -, hkey⟩ := h.linked.hash hash id hentry
      exact ⟨_, by rw [recordOf, ht, decode_stringify], hkey⟩
    · intro id record hr
      rcases h.linked.recordOf_cases id with ⟨-, he⟩ | ⟨fields, hash, -, he, -, hkey, hentry⟩
      · rw [he] at hr
        cases hr
      · rw [he] at hr
        obtain rfl := Option.some.inj hr
        exact ⟨hash, hkey, hentry⟩
    · intro id hid
      obtain ⟨text, ht⟩ := h.linked.listed id hid
      obtain ⟨hash, ⟨fields, rfl, -⟩, -⟩ := h.linked.record id text ht
      exact ⟨_, by rw [recordOf, ht, decode_stringify]⟩
    · rw [hb apiKey, (validateApiKey_spec cfg h apiKey t).2]

/-- A platform whose `n`-th draw is a text of length `n`, and whose hash is the text. -/
def samplePlatform : Platform where
  sha256 key := key
  toISOString _ := "1970-01-01T00:00:00.000Z"
  dateParse _ := some 0
  randomKey n := String.ofList (List.replicate (n + 1) 'a')
  randomUUID n := String.ofList (List.replicate n '0')
  hash_inj := JsText.repeat_inj 'a' 1
  uuid_inj := JsText.repeat_inj '0' 0

/-- The configuration without a bootstrap admin key. -/
def sampleConfig : Config := ⟨"", 0, [("free", 100), ("pro", 1000), ("admin", 10000)], "free"⟩

/-- The first key that is created does not validate. -/
theorem created_key_is_refused : ¬ Law samplePlatform sampleConfig
    (run (step samplePlatform sampleConfig) .init [(.create "ops" ["default"] none, 0)]) 0 := by
  intro hl
  have hinv := reachable_inv samplePlatform sampleConfig [(.create "ops" ["default"] none, 0)]
  have hv := (hl.validates_iff "a").mpr
    ⟨_, List.mem_singleton.mpr rfl, by decide, rfl, by simp⟩
  exact absurd ((validateApiKey_spec sampleConfig hinv "a" 0).2.mp hv).2 (by decide)

end SmartDrop.ApiKeys
