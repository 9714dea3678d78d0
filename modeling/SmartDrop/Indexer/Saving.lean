/-
# What saving leaves

`saveEvents` returns unless a command fails, and then the events it was given are saved, with
everything that was saved before, and the cursor is where it was (`leaves_saveEvents`).  What
it derives from the events is on other keys; the one command that Redis could refuse there,
for a recipients key in the old form, comes after the migration of that key.
-/
import SmartDrop.Indexer.Store

namespace SmartDrop.Indexer

open Conc JsonText Redis

variable {s : Store}

/-- An event with this id is saved: its record, and the id among the ids. -/
def SavedId (s : Store) (id : String) : Prop := s.events id ≠ none ∧ id ∈ s.eventIds

/-- The cursor and the saved events are the same in both. -/
def SameSaved (s s' : Store) : Prop :=
  s'.lastLedger = s.lastLedger ∧ s'.events = s.events ∧ s'.eventIds = s.eventIds

theorem SameSaved.refl (s : Store) : SameSaved s s := ⟨rfl, rfl, rfl⟩

theorem SameSaved.trans {s₁ s₂ s₃ : Store} (h₁ : SameSaved s₁ s₂) (h₂ : SameSaved s₂ s₃) :
    SameSaved s₁ s₃ := ⟨h₂.1.trans h₁.1, h₂.2.1.trans h₁.2.1, h₂.2.2.trans h₁.2.2⟩

/-- A piece of code, run alone and without failures, returns with `Q`. -/
def Leaves {α : Type} (code : Code α) (s : Store) (Q : α → Store → Prop) : Prop :=
  Throws.Returns (machine Unit) () Fault.none code s Q

theorem leaves_redis {op : Op} {a : op.Ret} {Q : op.Ret → Store → Prop}
    (he : (s.exec op).1 = .ok a) (h : Q a (s.exec op).2) : Leaves (redis op) s Q :=
  ⟨a, (s.exec op).2, Prod.ext he rfl, h⟩

/-- One step, then more. -/
theorem leaves_redis_bind {α : Type} {op : Op} {a : op.Ret} {f : op.Ret → Code α}
    {Q : α → Store → Prop} (he : (s.exec op).1 = .ok a) (h : Leaves (f a) (s.exec op).2 Q) :
    Leaves (redis op >>= f) s Q :=
  Throws.Returns.bind (leaves_redis (Q := fun b s' => b = a ∧ s' = (s.exec op).2) he ⟨rfl, rfl⟩)
    fun _ _ ⟨hb, hs⟩ => hb ▸ hs ▸ h

/-! ## 1. The projections -/

/-- The recipients of an airdrop are not in the form of an old list. -/
def Migrated (s : Store) (airdropId : String) : Prop := ∀ l, s.recipients airdropId ≠ .list l

theorem leaves_hset {airdropId recipient : String} {record : Json} (h : Migrated s airdropId) :
    Leaves (redis (.hset airdropId recipient record)) s
      fun _ s' => SameSaved s s' ∧ Migrated s' airdropId := by
  cases hr : s.recipients airdropId with
  | list l => exact absurd hr (h l)
  | absent =>
    refine leaves_redis (a := ()) (by simp only [Store.exec, hr]) ?_
    simp [Store.exec, hr, SameSaved, Migrated]
  | hash entries =>
    refine leaves_redis (a := ()) (by simp only [Store.exec, hr]) ?_
    simp [Store.exec, hr, SameSaved, Migrated]

theorem leaves_hget {airdropId recipient : String} (h : Migrated s airdropId) :
    Leaves (redis (.hget airdropId recipient)) s fun _ s' => s' = s := by
  cases hr : s.recipients airdropId with
  | list l => exact absurd hr (h l)
  | absent => exact leaves_redis (a := none) (by simp only [Store.exec, hr]) (by simp [Store.exec, hr])
  | hash entries =>
    exact leaves_redis (a := (Json.obj entries).get? recipient) (by simp only [Store.exec, hr])
      (by simp [Store.exec, hr])

theorem leaves_moveEntries (airdropId : String) (entries : List Json)
    (h : Migrated s airdropId) : Leaves (moveEntries airdropId entries) s
      fun _ s' => SameSaved s s' ∧ Migrated s' airdropId := by
  induction entries generalizing s with
  | nil => exact Throws.Returns.pure ⟨SameSaved.refl s, h⟩
  | cons entry rest ih =>
    rw [moveEntries]
    split
    · refine Throws.Returns.bind (leaves_hset h) fun _ s₁ ⟨hsame, hm⟩ => ?_
      exact (ih hm).mono fun _ s₂ ⟨hsame', hm'⟩ => ⟨hsame.trans hsame', hm'⟩
    · exact ih h

theorem leaves_migrate (s : Store) (airdropId : String) :
    Leaves (migrateRecipientsListToHashIfNeeded airdropId) s
      fun _ s' => SameSaved s s' ∧ Migrated s' airdropId := by
  rw [migrateRecipientsListToHashIfNeeded]
  refine leaves_redis_bind rfl ?_
  cases hr : s.recipients airdropId with
  | absent =>
    rw [RecipientsKey.type, if_pos (by simp)]
    exact Throws.Returns.pure ⟨SameSaved.refl s, by simp [Migrated, Store.exec, hr]⟩
  | hash entries =>
    rw [RecipientsKey.type, if_pos (by simp)]
    exact Throws.Returns.pure ⟨SameSaved.refl s, by simp [Migrated, Store.exec, hr]⟩
  | list entries =>
    rw [RecipientsKey.type, if_neg (by simp)]
    refine leaves_redis_bind (a := entries) (by simp [Store.exec, hr]) ?_
    refine leaves_redis_bind rfl ?_
    have hmoved := leaves_moveEntries (s := { s with
      recipients := Function.update s.recipients airdropId .absent }) airdropId entries
      (by simp [Migrated])
    simp only [Store.exec, hr]
    exact hmoved.mono fun _ s' ⟨hsame, hm⟩ => ⟨hsame, hm⟩

theorem leaves_upsertAirdrop (s : Store) (event : ParsedEvent) :
    Leaves (upsertAirdrop event) s fun _ s' => SameSaved s s' := by
  rw [upsertAirdrop]
  split
  · exact Throws.Returns.pure (SameSaved.refl s)
  · split
    · exact Throws.Returns.pure (SameSaved.refl s)
    · split
      · exact Throws.Returns.pure (SameSaved.refl s)
      · refine leaves_redis_bind rfl ?_
        exact leaves_redis (a := ()) rfl (SameSaved.refl s)

theorem leaves_upsertRecipient (s : Store) (event : ParsedEvent) :
    Leaves (upsertRecipient event) s fun _ s' => SameSaved s s' := by
  rw [upsertRecipient]
  split
  · split
    · exact Throws.Returns.pure (SameSaved.refl s)
    · refine Throws.Returns.bind (leaves_migrate s _) fun _ s₁ ⟨hsame, hm⟩ => ?_
      refine Throws.Returns.bind (leaves_hget hm) fun existingRaw s₂ h => ?_
      subst h
      exact (leaves_hset hm).mono fun _ s₃ ⟨hsame', _⟩ => hsame.trans hsame'
  · exact Throws.Returns.pure (SameSaved.refl s)

theorem leaves_appendClaim (s : Store) (event : ParsedEvent) :
    Leaves (appendClaim event) s fun _ s' => SameSaved s s' := by
  rw [appendClaim]
  split
  · split
    · exact Throws.Returns.pure (SameSaved.refl s)
    · refine leaves_redis_bind rfl ?_
      split
      · exact Throws.Returns.pure (SameSaved.refl s)
      · exact leaves_redis (a := ()) rfl (SameSaved.refl s)
  · exact Throws.Returns.pure (SameSaved.refl s)

theorem leaves_project (s : Store) (event : ParsedEvent) :
    Leaves (project event) s fun _ s' => SameSaved s s' := by
  rw [project]
  refine Throws.Returns.bind (leaves_upsertAirdrop s event) fun _ s₁ h₁ => ?_
  refine Throws.Returns.bind (leaves_upsertRecipient s₁ event) fun _ s₂ h₂ => ?_
  split
  · exact (leaves_appendClaim s₂ event).mono fun _ s₃ h₃ => (h₁.trans h₂).trans h₃
  · exact Throws.Returns.pure (h₁.trans h₂)

theorem leaves_projectAll (s : Store) (events : List ParsedEvent) :
    Leaves (projectAll events) s fun _ s' => SameSaved s s' := by
  induction events generalizing s with
  | nil => exact Throws.Returns.pure (SameSaved.refl s)
  | cons event rest ih =>
    refine Throws.Returns.bind (leaves_project s event) fun _ s₁ h₁ => ?_
    exact (ih s₁).mono fun _ s₂ h₂ => h₁.trans h₂

/-! ## 2. The records -/

/-- After `events` were saved: the cursor stands where it was, and one more id is saved for
each event. -/
def SavesAll (s : Store) (events : List ParsedEvent) (s' : Store) : Prop :=
  s'.lastLedger = s.lastLedger ∧
    ∀ id, SavedId s' id ↔ SavedId s id ∨ id ∈ events.map ParsedEvent.id

theorem leaves_saveRecords (s : Store) (events : List ParsedEvent) :
    Leaves (saveRecords events) s fun _ s' => SavesAll s events s' := by
  induction events generalizing s with
  | nil => exact Throws.Returns.pure ⟨rfl, fun id => by simp⟩
  | cons event rest ih =>
    rw [saveRecords]
    refine leaves_redis_bind (a := ()) rfl (leaves_redis_bind (a := ()) rfl ?_)
    refine (ih _).mono fun _ s' ⟨hledger, hsaved⟩ => ⟨hledger, fun id => ?_⟩
    rw [hsaved id, List.map_cons, List.mem_cons, or_left_comm]
    by_cases he : id = event.id
    · simp [he, SavedId, Store.exec]
    · simp [he, SavedId, Store.exec]

/-- **`saveEvents` saves its events**, and leaves the cursor where it is. -/
theorem leaves_saveEvents (s : Store) (events : List ParsedEvent) :
    Leaves (saveEvents events) s fun _ s' => SavesAll s events s' := by
  rw [saveEvents]
  refine Throws.Returns.bind (leaves_saveRecords s events) fun _ s₁ ⟨hledger, hsaved⟩ => ?_
  refine (leaves_projectAll s₁ events).mono fun _ s₂ h => ⟨h.1.trans hledger, fun id => ?_⟩
  rw [← hsaved id, SavedId, SavedId, h.2.1, h.2.2]

end SmartDrop.Indexer
