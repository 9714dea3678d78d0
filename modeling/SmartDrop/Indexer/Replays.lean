/-
# Batches that are saved again

Pollers save batches of one chain, and a poller that has lost the race for the cursor saves
events that another has saved before it.  A late replay takes an airdrop back to what it was
(`replay_undoes`): `upsertAirdrop` does not look at the ledger of the record it writes over.

When every write of a projection finds the record that its caller has read, and no caller applies
an event after a later one about the same record that its own batch does not reach, the
projections are those of the events applied once each in their order, however the calls are
interleaved (`replays_harmless`).
-/
import SmartDrop.Indexer.Claims
import SmartDrop.Indexer.Projections

namespace SmartDrop.Indexer

open Conc JsonText Redis Replay

/-! ## 1. What is stored of a record -/

/-- What is stored of a record. -/
def stored (s : Store) : Key → Option Json
  | .airdrop a => s.airdrops a
  | .recipient a r => match s.recipients a with
    | .hash entries => (Json.obj entries).get? r
    | _ => none

/-- No recipients are in the form of an old list. -/
def AllMigrated (s : Store) : Prop := ∀ a l, s.recipients a ≠ .list l

/-- The record that a command reads. -/
def Op.reads (op : sig.Op) : Option Key :=
  match op with
  | Op.getAirdrop a => some (.airdrop a)
  | Op.hget a r => some (.recipient a r)
  | _ => none

/-- The record that a command writes. -/
def Op.writes (op : sig.Op) : Option (Key × Json) :=
  match op with
  | Op.putAirdrop a record => some (.airdrop a, record)
  | Op.hset a r record => some (.recipient a r, record)
  | _ => none

/-- Commands that leave the records alone. -/
def SparesRecords (op : sig.Op) : Prop :=
  match op with
  | Op.putAirdrop .. | Op.hset .. | Op.delRecipients _ => False
  | _ => True

/-- The records are the same in both. -/
def SameRecords (s s' : Store) : Prop :=
  s'.airdrops = s.airdrops ∧ s'.recipients = s.recipients

variable {τ : Type} {s s' : Store}

theorem SameRecords.stored (h : SameRecords s s') (key : Key) : stored s' key = stored s key := by
  cases key with
  | airdrop a => exact congrFun h.1 a
  | recipient a r =>
    unfold Indexer.stored
    rw [h.2]

theorem SameRecords.allMigrated (h : SameRecords s s') (hs : AllMigrated s) : AllMigrated s' := by
  unfold AllMigrated
  rw [h.2]
  exact hs

theorem sameRecords_of_spares {op : sig.Op} (hop : SparesRecords op) :
    SameRecords s (s.exec op).2 := by
  cases op with
  | putAirdrop => exact absurd hop id
  | hset => exact absurd hop id
  | delRecipients => exact absurd hop id
  | advanceLastLedger expected next =>
    simp only [Store.exec]
    split <;> exact ⟨rfl, rfl⟩
  | getRecipientsList airdropId =>
    simp only [Store.exec]
    split <;> exact ⟨rfl, rfl⟩
  | hget airdropId recipient =>
    simp only [Store.exec]
    split <;> exact ⟨rfl, rfl⟩
  | _ => exact ⟨rfl, rfl⟩

theorem spares_of_reads {op : sig.Op} {key : Key} (h : Op.reads op = some key) :
    SparesRecords op := by
  cases op <;> trivial

/-- **A write** of a record stores it, and no other. -/
theorem exec_writes {op : sig.Op} {key : Key} {record : Json} (hs : AllMigrated s)
    (hop : Op.writes op = some (key, record)) : AllMigrated (s.exec op).2 ∧
      ∀ key', stored (s.exec op).2 key' = if key' = key then some record else stored s key' := by
  cases op with
  | putAirdrop a r =>
    cases hop
    refine ⟨hs, fun key' => ?_⟩
    cases key' with
    | airdrop a' => simp [Store.exec, stored, Function.update_apply]
    | recipient a' r' => simp [Store.exec, stored]
  | hset a r json =>
    cases hop
    cases hr : s.recipients a with
    | list l => exact absurd hr (hs a l)
    | absent =>
      constructor
      · intro a' l
        by_cases ha : a' = a
        · simp [Store.exec, hr, ha]
        · simpa [Store.exec, hr, ha] using hs a' l
      · rintro (a' | ⟨a', r'⟩)
        · simp [Store.exec, hr, stored]
        by_cases ha : a' = a
        · subst ha
          by_cases hr' : r' = r
          · simp [Store.exec, hr, stored, hr', Json.get?]
          · simp [Store.exec, hr, stored, hr', Json.get?, Ne.symm hr']
        · simp [Store.exec, hr, stored, ha]
    | hash entries =>
      constructor
      · intro a' l
        by_cases ha : a' = a
        · simp [Store.exec, hr, ha]
        · simpa [Store.exec, hr, ha] using hs a' l
      · rintro (a' | ⟨a', r'⟩)
        · simp [Store.exec, hr, stored]
        by_cases ha : a' = a
        · subst ha
          have hset : (Json.obj (Json.setField entries r record)).get? r' =
              if r' = r then some record else (Json.obj entries).get? r' := by
            by_cases hr' : r' = r
            · rw [if_pos hr', hr', Json.get?_setField_self]
            · rw [if_neg hr', Json.get?_setField_of_ne hr']
          simp [Store.exec, hr, stored, hset]
        · simp [Store.exec, hr, stored, ha]
  | _ => cases hop

/-! ## 2. The record of a run -/

/-- The positions of a batch whose events are about a record. -/
def part (chain : Chain) (batches : τ → List ℕ) (key : Key) (i : τ) : List ℕ :=
  (batches i).filter fun k => About key (chain k)

/-- What is kept of a run: of each record, who has applied how much of it in which order, and
what each call has read last. -/
structure Trace (τ : Type) where
  progress : Key → Progress τ
  read : τ → Option Json

/-- Nothing has happened. -/
def Trace.init (τ : Type) : Trace τ := ⟨fun _ => .init τ, fun _ => none⟩

variable [DecidableEq τ] {chain : Chain} {batches : τ → List ℕ} {i : τ} {key : Key}

/-- A call wrote a record: it applied its next event about it. -/
def Trace.wrote (chain : Chain) (batches : τ → List ℕ) (i : τ) (key : Key) (t : Trace τ) :
    Trace τ where
  progress := Function.update t.progress key ((t.progress key).apply (part chain batches key) i)
  read := t.read

/-- What is kept of one command. -/
def note (chain : Chain) (batches : τ → List ℕ) (i : τ) (op : sig.Op) (x : Fault) (s : Store)
    (t : Trace τ) : Trace τ :=
  if x = .before then t
  else match Op.reads op, Op.writes op with
    | some key, _ => { t with read := Function.update t.read i (stored s key) }
    | none, some (key, _) => t.wrote chain batches i key
    | none, none => t

/-- Redis, with the record of the run. -/
def traced (chain : Chain) (batches : τ → List ℕ) : Machine sig τ Fault (Store × Trace τ) :=
  (machine τ).observe (note chain batches)

/-- The call may write the record: it is what the call has read, and what was applied already of
the events after the one that the call has come to is in its own batch. -/
def MayWrite (chain : Chain) (batches : τ → List ℕ) (i : τ) (key : Key) (g : Store × Trace τ) :
    Prop :=
  stored g.1 key = g.2.read i ∧
    ∀ k ∈ ((part chain batches key i)[(g.2.progress key).done i]?).toList,
      ∀ c ∈ (g.2.progress key).word, k < c → c ∈ batches i

instance (key : Key) (g : Store × Trace τ) : Decidable (MayWrite chain batches i key g) := by
  unfold MayWrite
  infer_instance

/-- A write that Redis executes is one that the call may make. -/
def WritesFresh (chain : Chain) (batches : τ → List ℕ) (i : τ) (op : sig.Op) (x : Fault)
    (g : Store × Trace τ) : Prop :=
  ∀ w ∈ (Op.writes op).toList, x = .before ∨ MayWrite chain batches i w.1 g

instance (op : sig.Op) (x : Fault) (g : Store × Trace τ) :
    Decidable (WritesFresh chain batches i op x g) := by
  unfold WritesFresh
  infer_instance

/-! ## 3. What every step keeps -/

/-- Each record is what the events applied to it have made of it. -/
structure Replaying (chain : Chain) (batches : τ → List ℕ) (g : Store × Trace τ) : Prop where
  stored_eq : ∀ key, stored g.1 key = (g.2.progress key).word.foldl (applyAt chain key) none
  migrated : AllMigrated g.1
  covered : ∀ key, Covered (part chain batches key) (g.2.progress key)

omit [DecidableEq τ] in
theorem Replaying.init (chain : Chain) (batches : τ → List ℕ) :
    Replaying chain batches (.init, .init τ) where
  stored_eq key := by cases key <;> rfl
  migrated _ _ h := by cases h
  covered key := .init _

/-- How much a call has applied of each record. -/
def Stands (i : τ) (m : Key → ℕ) (g : Store × Trace τ) : Prop :=
  ∀ key, (g.2.progress key).done i = m key

/-- The contract of a call: the others leave alone what is kept of it. -/
def replaying (chain : Chain) (batches : τ → List ℕ) (i : τ) :
    Contract sig Fault (Store × Trace τ) where
  ok := WritesFresh chain batches i
  rely g g' := Replaying chain batches g' ∧ (∀ key, (g'.2.progress key).done i =
    (g.2.progress key).done i) ∧ g'.2.read i = g.2.read i
  guar g g' := Replaying chain batches g' ∧ ∀ j, j ≠ i → (∀ key, (g'.2.progress key).done j =
    (g.2.progress key).done j) ∧ g'.2.read j = g.2.read j

omit [DecidableEq τ] in
theorem replaying_compatible : Pool.Compatible (replaying chain batches) :=
  fun _ _ hj _ _ h => ⟨h.1, h.2 _ hj⟩

omit [DecidableEq τ] in
theorem stable_replaying (i : τ) :
    Stable (replaying chain batches i).guar (Replaying chain batches) := fun _ _ _ h => h.1

variable {g : Store × Trace τ} {m : Key → ℕ}

omit [DecidableEq τ] in
theorem stable_stands : Stable (replaying chain batches i).rely
    fun g => Replaying chain batches g ∧ Stands i m g :=
  fun _ _ h hr => ⟨hr.1, fun key => (hr.2.1 key).trans (h.2 key)⟩

omit [DecidableEq τ] in
theorem Replaying.of_same (h : Replaying chain batches g) (hs : SameRecords g.1 s')
    (read : τ → Option Json) : Replaying chain batches (s', { g.2 with read }) where
  stored_eq key := (hs.stored key).trans (h.stored_eq key)
  migrated := hs.allMigrated h.migrated
  covered := h.covered

/-- **A write** of what an event makes of the record that was read. -/
theorem Replaying.wrote (h : Replaying chain batches g)
    (hsorted : ∀ i, (batches i).Pairwise (· < ·)) (hs' : AllMigrated s') {k : ℕ}
    (hk : (part chain batches key i)[(g.2.progress key).done i]? = some k)
    (hmay : MayWrite chain batches i key g)
    (hwrote : ∀ key', stored s' key' = if key' = key
      then some (next key ((g.2.read i).getD (initial key (chain k))) (chain k))
      else stored g.1 key') :
    Replaying chain batches (s', g.2.wrote chain batches i key) := by
  have hpart : k ∈ part chain batches key i := List.mem_of_getElem? hk
  have habout : About key (chain k) := of_decide_eq_true (List.mem_filter.mp hpart).2
  refine ⟨fun key' => ?_, hs', fun key' => ?_⟩
  · rw [hwrote key']
    by_cases hkey : key' = key
    · subst hkey
      simp only [Trace.wrote, Function.update_self, Progress.apply, hk, Option.toList_some,
        List.foldl_append, List.foldl_cons, List.foldl_nil, if_true]
      rw [← h.stored_eq, applyAt, if_pos habout, hmay.1]
      rfl
    · rw [if_neg hkey, h.stored_eq]
      simp only [Trace.wrote, Function.update_of_ne hkey]
  · by_cases hkey : key' = key
    · subst hkey
      simp only [Trace.wrote, Function.update_self]
      refine (h.covered key').apply (fun j => (hsorted j).filter _) hk fun c hc hkc => ?_
      have hcbatch : c ∈ batches i := hmay.2 k (by simp [hk]) c hc hkc
      obtain ⟨j, hj⟩ := ((h.covered key').mem c).mp hc
      exact List.mem_filter.mpr ⟨hcbatch, (List.mem_filter.mp (List.mem_of_mem_take hj)).2⟩
    · simp only [Trace.wrote, Function.update_of_ne hkey]
      exact h.covered key'

/-! ## 4. The code under the contract -/

section Code

/-- A piece of code under the contract of a call; nothing is said of what is thrown. -/
def Replays (chain : Chain) (batches : τ → List ℕ) (i : τ) {α : Type} (code : Code α)
    (A : Store × Trace τ → Prop) (Q : α → Store × Trace τ → Prop) : Prop :=
  SatE (traced chain batches) i (replaying chain batches i) code A Q fun _ _ => True

/-- The invariant, and how much the call has applied. -/
def Holds (chain : Chain) (batches : τ → List ℕ) (i : τ) (m : Key → ℕ) (g : Store × Trace τ) :
    Prop := Replaying chain batches g ∧ Stands i m g

/-- One command: what it does, and what it replies unless it fails. -/
theorem replays_redis {op : Op} {A : Store × Trace τ → Prop}
    {Q : op.Ret → Store × Trace τ → Prop}
    (hst : ∀ a, Stable (replaying chain batches i).rely (Q a))
    (hA : ∀ g, A g → Replaying chain batches g)
    (hop : ∀ g, A g → WritesFresh chain batches i op .none g →
      (replaying chain batches i).guar g ((g.1.exec op).2, note chain batches i op .none g.1 g.2) ∧
      ∀ a, (g.1.exec op).1 = .ok a → Q a ((g.1.exec op).2, note chain batches i op .none g.1 g.2)) :
    Replays chain batches i (redis op) A Q := by
  refine Sat.call (fun r => ?_) fun x g hg hok => ?_
  · cases r with
    | ok a => exact hst a
    | error e => exact fun _ _ _ _ => trivial
  · cases x with
    | none =>
      obtain ⟨hguar, hreply⟩ := hop g hg hok
      refine ⟨hguar, ?_⟩
      rw [show (traced chain batches).exec i op .none g = ((g.1.exec op).1, (g.1.exec op).2,
        note chain batches i op .none g.1 g.2) from rfl]
      cases hr : (g.1.exec op).1 with
      | ok a => exact hreply a hr
      | error e => trivial
    | before => exact ⟨⟨hA g hg, fun _ _ => ⟨fun _ => rfl, rfl⟩⟩, trivial⟩
    | after =>
      have hok' : WritesFresh chain batches i op .none g := by
        rintro w hw
        rcases hok w hw with h | h
        · cases h
        · exact Or.inr h
      exact ⟨(hop g hg hok').1, trivial⟩

/-- A command that has nothing to do with the records. -/
theorem replays_spare (op : Op) (hop : SparesRecords op) (hreads : Op.reads op = none)
    {φ : op.Ret → Prop} (hφ : ∀ s a, AllMigrated s → (s.exec op).1 = .ok a → φ a) :
    Replays chain batches i (redis op) (Holds chain batches i m)
      fun a g => φ a ∧ Holds chain batches i m g := by
  have hwrites : Op.writes op = none := by
    cases op <;> first | rfl | exact absurd hop id
  have hnote : ∀ s (t : Trace τ), note chain batches i op .none s t = t := by
    intro s t
    simp [note, hreads, hwrites]
  refine replays_redis (fun a g g' h hr => ⟨h.1, stable_stands h.2 hr⟩) (fun _ h => h.1)
    fun g hg _ => ?_
  rw [hnote]
  have hnext : Replaying chain batches ((g.1.exec op).2, g.2) :=
    hg.1.of_same (sameRecords_of_spares hop) g.2.read
  exact ⟨⟨hnext, fun _ _ => ⟨fun _ => rfl, rfl⟩⟩, fun a ha => ⟨hφ _ a hg.1.migrated ha, hnext, hg.2⟩⟩

/-- A command that reads a record. -/
theorem replays_reads (op : Op) (hreads : Op.reads op = some key) {φ : op.Ret → Option Json}
    (hφ : ∀ s a, AllMigrated s → (s.exec op).1 = .ok a → φ a = stored s key) :
    Replays chain batches i (redis op) (Holds chain batches i m)
      fun a g => Holds chain batches i m g ∧ g.2.read i = φ a := by
  have hnote : ∀ s (t : Trace τ), note chain batches i op .none s t =
      { t with read := Function.update t.read i (stored s key) } := by
    intro s t
    simp [note, hreads]
  refine replays_redis (fun a g g' h hr => ⟨stable_stands h.1 hr, hr.2.2.trans h.2⟩)
    (fun _ h => h.1) fun g hg _ => ?_
  rw [hnote]
  have hnext := hg.1.of_same (sameRecords_of_spares (spares_of_reads hreads))
    (Function.update g.2.read i (stored g.1 key))
  refine ⟨⟨hnext, fun j hj => ⟨fun _ => rfl, Function.update_of_ne hj ..⟩⟩, fun a ha => ?_⟩
  exact ⟨⟨hnext, hg.2⟩, (Function.update_self ..).trans (hφ _ a hg.1.migrated ha).symm⟩

/-- The command that writes what an event makes of the record that was read. -/
theorem replays_writes (hsorted : ∀ i, (batches i).Pairwise (· < ·)) {op : Op} {k : ℕ}
    {o : Option Json}
    (hwrites : Op.writes op = some (key, next key (o.getD (initial key (chain k))) (chain k)))
    (hk : (part chain batches key i)[m key]? = some k) :
    Replays chain batches i (redis op) (fun g => Holds chain batches i m g ∧ g.2.read i = o)
      fun _ => Holds chain batches i (Function.update m key (m key + 1)) := by
  have hreads : Op.reads op = none := by
    cases op <;> first | rfl | cases hwrites
  have hnote : ∀ s (t : Trace τ), note chain batches i op .none s t = t.wrote chain batches i key := by
    intro s t
    simp [note, hreads, hwrites]
  refine replays_redis (fun a g g' h hr => stable_stands h hr) (fun _ h => h.1.1) fun g hg hok => ?_
  obtain ⟨⟨hreplaying, hstands⟩, rfl⟩ := hg
  have hmay : MayWrite chain batches i key g := by
    rcases hok _ (Option.mem_toList.mpr hwrites) with h | h
    · cases h
    · exact h
  rw [hnote]
  obtain ⟨hmigrated, hwrote⟩ := exec_writes hreplaying.migrated hwrites
  have hnext := hreplaying.wrote hsorted hmigrated (by rwa [hstands]) hmay hwrote
  have hdone : ∀ j key', ((g.2.wrote chain batches i key).progress key').done j =
      if j = i ∧ key' = key then m key + 1 else (g.2.progress key').done j := by
    intro j key'
    by_cases hkey : key' = key
    · subst hkey
      by_cases hj : j = i
      · subst hj
        simp [Trace.wrote, Progress.apply, hstands key']
      · simp [Trace.wrote, Progress.apply, hj]
    · simp [Trace.wrote, hkey]
  refine ⟨⟨hnext, fun j hj => ⟨fun key' => ?_, rfl⟩⟩, fun _ _ => ⟨hnext, fun key' => ?_⟩⟩
  · rw [hdone, if_neg fun h => hj h.1]
  · rw [hdone]
    by_cases hkey : key' = key
    · subst hkey
      simp
    · simp [hkey, hstands key']

/-- What `upsertAirdrop` does, by the record that it writes. -/
theorem upsertAirdrop_eq (event : ParsedEvent) : upsertAirdrop event =
    (match airdropKey event with
    | none => return ()
    | some a => do
      let o ← redis (.getAirdrop a)
      redis (.putAirdrop a (next (.airdrop a) (o.getD (initial (.airdrop a) event)) event))) := by
  unfold upsertAirdrop airdropKey
  cases h : getAirdropId event with
  | none => rfl
  | some airdropId =>
    dsimp only
    split
    · rfl
    split
    · rfl
    · obtain rfl : airdropId = (getAirdropId event).getD .null := by rw [h, Option.getD_some]
      rfl

/-- What `upsertRecipient` does, by the record that it writes. -/
theorem upsertRecipient_eq (event : ParsedEvent) : upsertRecipient event =
    (match recipientKey event with
    | none => return ()
    | some (a, r) => do
      migrateRecipientsListToHashIfNeeded a
      let o ← redis (.hget a r)
      redis (.hset a r (next (.recipient a r) (o.getD (initial (.recipient a r) event)) event))) := by
  unfold upsertRecipient recipientKey
  cases h : getAirdropId event with
  | none => rfl
  | some airdropId =>
    cases h' : getRecipient event with
    | none => rfl
    | some recipient =>
      dsimp only
      split
      · rfl
      · obtain rfl : airdropId = (getAirdropId event).getD .null := by rw [h, Option.getD_some]
        obtain rfl : recipient = (getRecipient event).getD .null := by rw [h', Option.getD_some]
        rfl

/-- One more event about a record, if there is one. -/
def bump (m : Key → ℕ) : Option Key → Key → ℕ
  | none => m
  | some key => Function.update m key (m key + 1)

theorem bump_apply (m : Key → ℕ) (o : Option Key) (key : Key) :
    bump m o key = m key + if o = some key then 1 else 0 := by
  unfold bump
  cases o with
  | none => rfl
  | some b =>
    by_cases hb : b = key
    · subst hb
      simp
    · simp [hb, Function.update_of_ne (Ne.symm hb)]

theorem replays_migrate (a : String) :
    Replays chain batches i (migrateRecipientsListToHashIfNeeded a) (Holds chain batches i m)
      fun _ => Holds chain batches i m := by
  refine SatE.bind (replays_spare (.recipientsType a) trivial rfl
    (φ := fun type => type ≠ "string") ?_) fun type => ?_
  · rintro s type hs ⟨⟩
    cases hr : s.recipients a with
    | absent => simp [RecipientsKey.type]
    | list l => exact absurd hr (hs a l)
    | hash entries => simp [RecipientsKey.type]
  · refine SatE.assume fun htype => ?_
    rw [if_pos htype]
    exact SatE.pure fun _ h => h

theorem replays_upsertAirdrop (hsorted : ∀ i, (batches i).Pairwise (· < ·)) {k : ℕ}
    (hk : ∀ a, airdropKey (chain k) = some a →
      (part chain batches (.airdrop a) i)[m (.airdrop a)]? = some k) :
    Replays chain batches i (upsertAirdrop (chain k)) (Holds chain batches i m)
      fun _ => Holds chain batches i (bump m ((airdropKey (chain k)).map .airdrop)) := by
  rw [upsertAirdrop_eq]
  cases ha : airdropKey (chain k) with
  | none => exact SatE.pure fun _ h => h
  | some a =>
    refine SatE.bind (replays_reads (.getAirdrop a) (φ := id) rfl ?_) fun o => ?_
    · rintro s o - ⟨⟩
      rfl
    · exact replays_writes hsorted rfl (hk a ha)

theorem replays_upsertRecipient (hsorted : ∀ i, (batches i).Pairwise (· < ·)) {k : ℕ}
    (hk : ∀ a r, recipientKey (chain k) = some (a, r) →
      (part chain batches (.recipient a r) i)[m (.recipient a r)]? = some k) :
    Replays chain batches i (upsertRecipient (chain k)) (Holds chain batches i m)
      fun _ => Holds chain batches i
        (bump m ((recipientKey (chain k)).map fun p => .recipient p.1 p.2)) := by
  rw [upsertRecipient_eq]
  cases hr : recipientKey (chain k) with
  | none => exact SatE.pure fun _ h => h
  | some p =>
    obtain ⟨a, r⟩ := p
    refine SatE.bind (replays_migrate a) fun _ => ?_
    refine SatE.bind (replays_reads (.hget a r) (φ := id) rfl ?_) fun o => ?_
    · intro s o hs ho
      unfold stored
      cases hrecipients : s.recipients a with
      | absent => simpa [Store.exec, hrecipients] using ho.symm
      | list l => exact absurd hrecipients (hs a l)
      | hash entries => simpa [Store.exec, hrecipients] using ho.symm
    · exact replays_writes hsorted rfl (hk a r hr)

/-- Commands that have nothing to do with the records. -/
def Aside (op : sig.Op) : Prop := SparesRecords op ∧ Op.reads op = none

theorem replays_of_uses {α : Type} {code : Code α} (h : Throws.Uses Aside code) :
    Replays chain batches i code (Holds chain batches i m) fun _ => Holds chain batches i m := by
  refine (SatE.frame stable_stands (fun op hop x g hg _ => ?_) h).mono (fun _ h => h)
    (fun _ _ h => h) fun _ _ _ => trivial
  obtain ⟨hspares, hreads⟩ := hop
  have hwrites : Op.writes op = none := by
    cases op <;> first | rfl | exact absurd hspares id
  have hnote : note chain batches i op x g.1 g.2 = g.2 := by simp [note, hreads, hwrites]
  have hsame : SameRecords g.1 ((machine τ).exec i op x g.1).2 := by
    cases x with
    | none => exact sameRecords_of_spares hspares
    | before => exact ⟨rfl, rfl⟩
    | after => exact sameRecords_of_spares hspares
  have hnext : ((traced chain batches).exec i op x g).2 =
      (((machine τ).exec i op x g.1).2, g.2) := by
    rw [← hnote]
    rfl
  rw [hnext]
  have hreplaying := hg.1.of_same hsame g.2.read
  exact ⟨⟨hreplaying, fun _ _ => ⟨fun _ => rfl, rfl⟩⟩, hreplaying, hg.2⟩

omit [DecidableEq τ] in
theorem uses_appendClaim {φ : sig.Op → Prop} (hget : ∀ r, φ (Op.getClaims r))
    (hset : ∀ r claims, φ (Op.setClaims r claims)) (event : ParsedEvent) :
    Throws.Uses φ (appendClaim event) := by
  unfold appendClaim
  split
  · split
    · exact Throws.uses_pure _
    refine Throws.Uses.bind (uses_redis (hget _)) fun claims => ?_
    split
    · exact Throws.uses_pure _
    · exact uses_redis (hset ..)
  · exact Throws.uses_pure _

/-- How many events of a list are about each record. -/
def tally (chain : Chain) (ks : List ℕ) (key : Key) : ℕ :=
  (ks.filter fun k => About key (chain k)).length

omit [DecidableEq τ] in
/-- The event that a call has come to, in its part of the chain about a record. -/
theorem part_getElem? {ks rest : List ℕ} {k : ℕ} (hbatch : batches i = ks ++ k :: rest)
    (habout : About key (chain k)) : (part chain batches key i)[tally chain ks key]? = some k := by
  unfold part tally
  rw [hbatch, List.filter_append, List.filter_cons_of_pos (by simpa using habout)]
  rw [List.getElem?_append_right (Nat.le_refl _), Nat.sub_self, List.getElem?_cons_zero]

theorem bump_tally (chain : Chain) (ks : List ℕ) (k : ℕ) :
    bump (bump (tally chain ks) ((airdropKey (chain k)).map .airdrop))
      ((recipientKey (chain k)).map fun p => .recipient p.1 p.2) = tally chain (ks ++ [k]) := by
  funext key
  have happend : tally chain (ks ++ [k]) key =
      tally chain ks key + if About key (chain k) then 1 else 0 := by
    unfold tally
    rw [List.filter_append, List.length_append]
    split <;> simp_all
  rw [happend]
  rw [bump_apply, bump_apply]
  cases key with
  | airdrop a =>
    have habout : About (.airdrop a) (chain k) ↔ airdropKey (chain k) = some a := Iff.rfl
    simp [habout]
  | recipient a r =>
    have habout : About (.recipient a r) (chain k) ↔ recipientKey (chain k) = some (a, r) :=
      Iff.rfl
    simp [habout]

/-- **The projections of one event.** -/
theorem replays_project (hsorted : ∀ i, (batches i).Pairwise (· < ·)) {ks rest : List ℕ} {k : ℕ}
    (hbatch : batches i = ks ++ k :: rest) :
    Replays chain batches i (project (chain k)) (Holds chain batches i (tally chain ks))
      fun _ => Holds chain batches i (tally chain (ks ++ [k])) := by
  refine SatE.bind (replays_upsertAirdrop hsorted fun a ha => part_getElem? hbatch ha) fun _ => ?_
  refine SatE.bind (replays_upsertRecipient hsorted fun a r hr => ?_) fun _ => ?_
  · have hother : bump (tally chain ks) ((airdropKey (chain k)).map .airdrop) (.recipient a r) =
        tally chain ks (.recipient a r) := by
      cases airdropKey (chain k) <;> simp [bump]
    rw [hother]
    exact part_getElem? hbatch hr
  rw [bump_tally]
  split
  · exact replays_of_uses (uses_appendClaim (fun _ => ⟨trivial, rfl⟩) (fun _ _ => ⟨trivial, rfl⟩) _)
  · exact SatE.pure fun _ h => h

/-- **The loop.** -/
theorem replays_projectAll (hsorted : ∀ i, (batches i).Pairwise (· < ·)) {ks rest : List ℕ}
    (hbatch : batches i = ks ++ rest) :
    Replays chain batches i (projectAll (rest.map chain)) (Holds chain batches i (tally chain ks))
      fun _ => Holds chain batches i (tally chain (batches i)) := by
  induction rest generalizing ks with
  | nil =>
    rw [hbatch, List.append_nil]
    exact SatE.pure fun _ h => h
  | cons k rest ih =>
    refine SatE.bind (replays_project hsorted hbatch) fun _ => ih ?_
    rw [hbatch, List.append_assoc, List.singleton_append]

/-- **A call of `saveEvents`** that returns has applied its whole batch. -/
theorem replays_saveEvents (hsorted : ∀ i, (batches i).Pairwise (· < ·)) :
    Replays chain batches i (saveEvents ((batches i).map chain))
      (Holds chain batches i fun _ => 0)
      fun _ => Holds chain batches i (tally chain (batches i)) := by
  refine SatE.bind (replays_of_uses (uses_saveRecords (fun _ => ⟨trivial, rfl⟩)
    (fun _ => ⟨trivial, rfl⟩) _)) fun _ => ?_
  exact replays_projectAll hsorted (List.nil_append _).symm

end Code

/-! ## 5. Every interleaving -/

/-- The calls of `saveEvents` that are about to begin, and the empty record. -/
def beginTraced (chain : Chain) (batches : τ → List ℕ) :
    Pool sig (Except Err Unit) τ (Store × Trace τ) :=
  ⟨(.init, .init τ), fun i => (saveEvents ((batches i).map chain)).prog⟩

/-- The record is there in both or in neither, and its fields are the same, but for the one
that names it. -/
def SameFields (key : Key) (o o' : Option Json) : Prop :=
  o.isSome = o'.isSome ∧ ∀ name, name ≠ key.idField → field name o = field name o'

omit [DecidableEq τ] in
theorem projection_filter (chain : Chain) (ks : List ℕ) (key : Key) :
    (ks.filter fun k => About key (chain k)).foldl (applyAt chain key) none =
      projection chain ks key := by
  rw [List.foldl_filter]
  unfold projection
  congr 1
  funext o k
  unfold applyAt
  by_cases habout : About key (chain k)
  · simp [habout]
  · simp [habout]

/-- **Late replays are harmless** when every write finds the record that its caller has read,
and the caller's batch reaches whatever was applied already of the events after the one it is
at.  Calls of `saveEvents` for any batches of one chain, each in the order of the chain, run in
any interleaving; once all have returned, every projection is that of the events applied once
each in their order. -/
theorem replays_harmless (chain : Chain) (batches : τ → List ℕ)
    (hsorted : ∀ i, (batches i).Pairwise (· < ·)) (ls : List (τ × Fault))
    (hls : Along (Pool.step (traced chain batches))
      (fun c l => Pool.Issues (WritesFresh chain batches l.1) c l) (beginTraced chain batches) ls)
    (hdone : ∀ i, (run (Pool.step (machine τ)) (beginSaves fun i => (batches i).map chain)
      ls).prog i = .ret (.ok ()))
    (ks : List ℕ) (hks : ks.Pairwise (· < ·)) (hsaved : ∀ k, k ∈ ks ↔ ∃ i, k ∈ batches i)
    (key : Key) :
    SameFields key (stored (run (Pool.step (machine τ)) (beginSaves fun i => (batches i).map chain)
      ls).store key) (projection chain ks key) := by
  have hbegin : (beginTraced chain batches).Safe (traced chain batches)
      (replaying chain batches) fun i r g => r = .ok () →
        Holds chain batches i (tally chain (batches i)) g := by
    intro i
    refine ⟨_, stable_stands, ⟨Replaying.init chain batches, fun key => ?_⟩,
      Sat.mono (replays_saveEvents hsorted) (fun _ h => h) ?_⟩
    · rfl
    · rintro (e | u) g h heq
      · cases heq
      · exact h
  have hobserve := Pool.run_observe (M := machine τ)
    (c := beginSaves fun i => (batches i).map chain) (d := beginTraced chain batches) rfl rfl ls
  obtain ⟨hstore, hprog⟩ := hobserve (note chain batches)
  set g := (run (Pool.step (traced chain batches)) (beginTraced chain batches) ls).store with hg
  have hreplaying : Replaying chain batches g :=
    hbegin.run_stable stable_replaying replaying_compatible (Replaying.init chain batches) hls
  have hall : ∀ i, (g.2.progress key).done i = (part chain batches key i).length := by
    intro i
    have hi : (run (Pool.step (traced chain batches)) (beginTraced chain batches) ls).prog i =
        .ret (.ok ()) := (congrFun hprog i).trans (hdone i)
    exact ((hbegin.run replaying_compatible hls).done hi rfl).2 key
  obtain ⟨hsettled, hmem⟩ := (hreplaying.covered key).settled hall
  -- the last occurrences in the word are the events about the record, in their order
  have hdedup : (g.2.progress key).word.dedup = ks.filter fun k => About key (chain k) := by
    refine hsettled.dedup_eq (hks.filter _) fun k => ?_
    rw [hmem, List.mem_filter, hsaved]
    constructor
    · rintro ⟨⟨i, hi⟩, habout⟩
      exact ⟨i, List.mem_filter.mpr ⟨hi, habout⟩⟩
    · rintro ⟨i, hi⟩
      exact ⟨⟨i, (List.mem_filter.mp hi).1⟩, (List.mem_filter.mp hi).2⟩
  rw [← hstore, ← projection_filter, ← hdedup]
  show SameFields key (stored g.1 key) _
  rw [hreplaying.stored_eq]
  exact ⟨acts_isSome.foldl_dedup isObj_none _, fun name hname =>
    (acts_field hname).foldl_dedup isObj_none _⟩

/-! ## 6. A replay that comes late -/

/-- The airdrop `a` is created at ledger 1. -/
def sampleCreated : ParsedEvent :=
  { sampleClaim "0" with
    event_name := .airdrop_created
    data := .obj [("airdrop_id", .str "a"), ("creator", .str "GC"), ("token", .str "T"),
      ("total_amount", .str "10"), ("expiry_ledger", .str "9")] }

/-- The airdrop is created, and then a claim is made. -/
def sampleChain : Chain
  | 0 => sampleCreated
  | _ => { sampleClaim "1" with ledger := 2 }

/-- One poller saves both events, another the first of them. -/
def sampleReplay : Fin 2 → List ℕ
  | 0 => [0, 1]
  | 1 => [0]

/-- The run of the sample batches in which each label lets one poller take a step. -/
def sampleReplays (ls : List (Fin 2)) : Saves (Fin 2) :=
  run (Pool.step (machine (Fin 2))) (beginSaves fun i => (sampleReplay i).map sampleChain)
    (ls.map fun i => (i, .none))

local instance twoReplays : NeZero 2 := ⟨Nat.succ_ne_zero 1⟩

/-- The first poller saves both events, and then the second saves the first again. -/
def lateReplay : List (Fin 2) := List.replicate 13 0 ++ List.replicate 4 1

/-- The second poller saves the first event, and then the first saves both. -/
def earlyReplay : List (Fin 2) := List.replicate 4 1 ++ List.replicate 13 0

/-- The late replay takes the airdrop back to `created`. -/
theorem replay_undoes : ¬ ((∀ i, (sampleReplays lateReplay).prog i = .ret (.ok ())) →
    SameFields (.airdrop "a") (stored (sampleReplays lateReplay).store (.airdrop "a"))
      (projection sampleChain [0, 1] (.airdrop "a"))) := by
  intro h
  refine absurd ((h ?_).2 "status" (by decide)) (by decide +kernel)
  intro i
  match i with
  | 0 => rfl
  | 1 => rfl

theorem sampleReplay_sorted (i : Fin 2) : (sampleReplay i).Pairwise (· < ·) := by
  match i with
  | 0 => exact List.pairwise_pair.mpr Nat.zero_lt_one
  | 1 => exact List.pairwise_singleton ..

/-- The early replay is harmless. -/
theorem replays_harmless_sample :
    SameFields (.airdrop "a") (stored (sampleReplays earlyReplay).store (.airdrop "a"))
      (projection sampleChain [0, 1] (.airdrop "a")) := by
  have hdone : ∀ i, (sampleReplays earlyReplay).prog i = .ret (.ok ()) := by
    intro i
    match i with
    | 0 => rfl
    | 1 => rfl
  have hsaved : ∀ k, k ∈ [0, 1] ↔ ∃ i, k ∈ sampleReplay i := by
    intro k
    constructor
    · exact fun hk => ⟨0, hk⟩
    · rintro ⟨i, hi⟩
      match i with
      | 0 => exact hi
      | 1 => exact List.mem_cons.mpr (Or.inl (List.mem_singleton.mp hi))
  -- Four of the seventeen commands write a record; what each of them finds is what was read.
  have haside {i : Fin 2} {g : Store × Trace (Fin 2)} : ∀ w ∈ ([] : List (Key × Json)),
      Fault.none = .before ∨ MayWrite sampleChain sampleReplay i w.1 g :=
    fun _ hw => absurd hw List.not_mem_nil
  have hfresh : Along (Pool.step (traced sampleChain sampleReplay))
      (fun c l => Pool.Issues (WritesFresh sampleChain sampleReplay l.1) c l)
      (beginTraced sampleChain sampleReplay) (earlyReplay.map fun i => (i, .none)) := by
    refine ⟨haside, haside, haside, ?_, haside, haside, haside, haside, haside, ?_, haside, ?_,
      haside, haside, ?_, haside, haside, trivial⟩
    all_goals
      refine List.forall_mem_singleton.mpr (Or.inr ⟨rfl, ?_⟩)
      decide +kernel
  unfold sampleReplays at *
  exact replays_harmless sampleChain sampleReplay sampleReplay_sorted _ hfresh hdone
    [0, 1] (List.pairwise_pair.mpr Nat.zero_lt_one) hsaved (.airdrop "a")

end SmartDrop.Indexer
