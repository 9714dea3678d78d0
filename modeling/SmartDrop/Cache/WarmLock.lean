/-
# The lock of cache warming

`releaseLock` and `warmCacheInBackground` of `startup/cacheWarm.js`.  A replica takes the lock with
`SET NX PX`, warms the cache, and releases the lock by a `GET` and, if it still finds its own token, a `DEL`,
"so we never delete a lock another replica has since acquired (our key may have expired mid-warm if the TTL
was too small for a slow warm)".

The two commands are not one.  If the lock expires between them and another replica takes it, the `DEL`
deletes the other one's lock (`late_delete`); if it does not expire just there, no release ever does
(`deletes_own`).
-/
import SmartDrop.Lib.Run
import Mathlib.Logic.Function.Basic

namespace SmartDrop.WarmLock

open Conc

/-! ## 1. Replicas -/

/-- The owner tokens of the replicas. -/
structure Owners (ι : Type) where
  owner : ι → String
  distinct : Function.Injective owner

/-- Where a replica is: before its `SET`, warming, between the `GET` that found its own token and the
`DEL`, or past all of that. -/
inductive Phase where
  | started
  | warming
  | releasing
  | finished
deriving DecidableEq

/-- How a command can fail: before Redis executed it, or after, its reply being lost. -/
inductive Fault where
  | none
  | before
  | after
deriving DecidableEq

/-- The lock key, and the replicas. -/
structure Fleet (ι : Type) where
  lock : Option String
  phase : ι → Phase

/-- One command of a replica, or the expiry of the lock. -/
inductive Event (ι : Type) where
  | set (i : ι) (fault : Fault)
  | get (i : ι) (fault : Fault)
  | del (i : ι) (fault : Fault)
  | expire
deriving DecidableEq

namespace Fleet

variable {ι : Type}

/-- No lock, and every replica about to start. -/
def init (ι : Type) : Fleet ι := ⟨none, fun _ => .started⟩

variable [DecidableEq ι] (owners : Owners ι)

/-- The replica enters a phase. -/
def enter (c : Fleet ι) (i : ι) (phase : Phase) : Fleet ι :=
  { c with phase := Function.update c.phase i phase }

/-- `redis.set(lockKey, owner, 'PX', ttl, 'NX')`; a replica that gets no answer warms as well. -/
def set (c : Fleet ι) (i : ι) : Fault → Fleet ι
  | .none =>
    match c.lock with
    | none => { c.enter i .warming with lock := some (owners.owner i) }
    | some _ => c.enter i .finished
  | .before => c.enter i .warming
  | .after => { c.enter i .warming with lock := c.lock.or (some (owners.owner i)) }

/-- `redis.get(key)` of `releaseLock`; an error ends the release. -/
def get (c : Fleet ι) (i : ι) : Fault → Fleet ι
  | .none => c.enter i (if c.lock = some (owners.owner i) then .releasing else .finished)
  | .before | .after => c.enter i .finished

/-- `redis.del(key)`. -/
def del (c : Fleet ι) (i : ι) : Fault → Fleet ι
  | .none | .after => { c.enter i .finished with lock := none }
  | .before => c.enter i .finished

/-- One step; a replica that is not there yet does nothing. -/
def step (c : Fleet ι) : Event ι → Fleet ι
  | .set i fault => if c.phase i = .started then c.set owners i fault else c
  | .get i fault => if c.phase i = .warming then c.get owners i fault else c
  | .del i fault => if c.phase i = .releasing then c.del i fault else c
  | .expire => { c with lock := none }

/-! ## 2. What is deleted -/

/-- A `DEL` that is executed does not delete the lock of another replica. -/
def DeletesOwn (c : Fleet ι) : Event ι → Prop
  | .del i fault =>
    c.phase i = .releasing → fault ≠ .before → ∀ j, c.lock = some (owners.owner j) → j = i
  | _ => True

/-- The lock does not expire while its owner is between its two commands. -/
def InTime (c : Fleet ι) : Event ι → Prop
  | .expire => ∀ i, c.phase i = .releasing → c.lock ≠ some (owners.owner i)
  | _ => True

/-- A replica between its two commands holds the lock. -/
def Held (c : Fleet ι) : Prop := ∀ i, c.phase i = .releasing → c.lock = some (owners.owner i)

variable {owners} {c : Fleet ι} {i : ι}

theorem phase_enter_of_ne {j : ι} {phase : Phase} (h : j ≠ i) : (c.enter i phase).phase j = c.phase j :=
  Function.update_of_ne h _ _

theorem phase_enter (phase : Phase) : (c.enter i phase).phase i = phase := by
  simp only [enter, Function.update_self]

/-- A replica goes to a phase in which it does not release, and the lock stays or was free. -/
theorem Held.move (h : c.Held owners) {c' : Fleet ι} {phase : Phase}
    (hphase : c'.phase = (c.enter i phase).phase) (hnot : phase ≠ .releasing)
    (hlock : c'.lock = c.lock ∨ c.lock = none) : c'.Held owners := by
  intro j hj
  by_cases hji : j = i
  · subst hji
    rw [hphase, phase_enter] at hj
    exact absurd hj hnot
  · rw [hphase, phase_enter_of_ne hji] at hj
    have hheld := h j hj
    rcases hlock with hsame | hfree
    · rw [hsame, hheld]
    · rw [hfree] at hheld
      cases hheld

theorem Held.set (h : c.Held owners) (fault : Fault) : (c.set owners i fault).Held owners := by
  cases fault with
  | none =>
    rw [Fleet.set]
    cases hlock : c.lock with
    | none => exact h.move rfl (by decide) (Or.inr hlock)
    | some token => exact h.move rfl (by decide) (Or.inl rfl)
  | before => exact h.move rfl (by decide) (Or.inl rfl)
  | after =>
    cases hlock : c.lock with
    | none => exact h.move rfl (by decide) (Or.inr hlock)
    | some token => exact h.move rfl (by decide) (Or.inl (by rw [Fleet.set, hlock]; rfl))

theorem Held.get (h : c.Held owners) (fault : Fault) : (c.get owners i fault).Held owners := by
  cases fault with
  | before | after => exact h.move rfl (by decide) (Or.inl rfl)
  | none =>
    rw [Fleet.get]
    split
    · rename_i hown
      intro j hj
      by_cases hji : j = i
      · exact hji ▸ hown
      · rw [phase_enter_of_ne hji] at hj
        exact h j hj
    · exact h.move rfl (by decide) (Or.inl rfl)

omit [DecidableEq ι] in
/-- Only one replica can be between its two commands. -/
theorem Held.alone (h : c.Held owners) {j : ι} (hi : c.phase i = .releasing)
    (hj : c.lock = some (owners.owner j)) : j = i :=
  owners.distinct (Option.some.inj (hj.symm.trans (h i hi)))

theorem Held.del (h : c.Held owners) (hi : c.phase i = .releasing) (fault : Fault) :
    (c.del i fault).Held owners := by
  have hnobody : ∀ {c' : Fleet ι}, c'.phase = (c.enter i .finished).phase → c'.Held owners := by
    intro c' hphase j hj
    by_cases hji : j = i
    · subst hji
      rw [hphase, phase_enter] at hj
      cases hj
    · rw [hphase, phase_enter_of_ne hji] at hj
      exact absurd (h.alone hi (h j hj)) hji
  cases fault with
  | none | before | after => exact hnobody rfl

theorem Held.step (h : c.Held owners) {e : Event ι} (htime : c.InTime owners e) :
    (c.step owners e).Held owners := by
  cases e with
  | set i fault =>
    rw [Fleet.step]
    split
    · exact h.set fault
    · exact h
  | get i fault =>
    rw [Fleet.step]
    split
    · exact h.get fault
    · exact h
  | del i fault =>
    rw [Fleet.step]
    split
    · exact h.del ‹_› fault
    · exact h
  | expire => exact fun i hi => absurd (h i hi) (htime i hi)

omit [DecidableEq ι] in
theorem Held.deletesOwn (h : c.Held owners) (e : Event ι) : c.DeletesOwn owners e := by
  cases e with
  | del i fault => exact fun hi _ j hj => h.alone hi hj
  | _ => trivial

/-- **No release deletes another replica's lock**, in any run in which the lock never expires while its
owner is between the `GET` and the `DEL`. -/
theorem deletes_own (owners : Owners ι) (es : List (Event ι))
    (htime : Along (Fleet.step owners) (InTime owners) (.init ι) es) :
    Along (Fleet.step owners) (DeletesOwn owners) (.init ι) es := by
  have hinit : (Fleet.init ι).Held owners := by
    intro i hi
    cases hi
  refine Along.of_inv (I := Held owners) ?_ hinit htime
  exact fun c e h hin => ⟨h.step hin, h.deletesOwn e⟩

end Fleet

/-! ## 3. Two replicas -/

theorem sampleOwner_inj : Function.Injective fun b : Bool => if b then "b:2" else "a:1" := by
  intro a b
  cases a <;> cases b <;> decide

def sampleOwners : Owners Bool := ⟨fun b => if b then "b:2" else "a:1", sampleOwner_inj⟩

/-- The lock expires while the first replica warms, and the second one takes it. -/
def slowWarm : List (Event Bool) :=
  [.set false .none, .expire, .set true .none, .get false .none, .get true .none, .del true .none]

theorem deletes_own_slowWarm :
    Along (Fleet.step sampleOwners) (Fleet.DeletesOwn sampleOwners) (.init Bool) slowWarm :=
  Fleet.deletes_own sampleOwners slowWarm
    ⟨trivial, fun i hi => absurd hi (by cases i <;> decide), trivial, trivial, trivial, trivial, trivial⟩

/-- It expires between the first one's two commands. -/
theorem late_delete :
    ¬ ∀ es : List (Event Bool),
      Along (Fleet.step sampleOwners) (Fleet.DeletesOwn sampleOwners) (.init Bool) es := by
  intro h
  have hlast := h [.set false .none, .get false .none, .expire, .set true .none, .del false .none]
  exact absurd (hlast.2.2.2.2.1 rfl (by decide) true rfl) (by decide)

end SmartDrop.WarmLock
