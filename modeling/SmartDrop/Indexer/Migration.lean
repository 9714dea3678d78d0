/-
# The migration of old recipients lists

An old recipients list is moved into a hash by the first access that finds it:
`migrateRecipientsListToHashIfNeeded` reads the list, deletes the key, and writes one field for
each entry.  The list is gone before its entries are stored again, so a process that stops there
loses them, and two accesses that overlap write over each other (`migration_loses`).

`migration_keeps` says when nothing is lost: no access deletes a hash, none stops while it has
entries left to move, and a write of a recipient's record finds the record that was read, with no
entry of that recipient still on its way.  Nothing in an access handles a failure, so a process that
stops is one whose next command fails.
-/
import SmartDrop.Indexer.Replays
import SmartDrop.Lib.Lift
import Mathlib.Data.Fintype.Basic

namespace SmartDrop.Indexer.Migration

open Conc JsonText Redis

/-! ## 1. The accesses -/

/-- `HGETALL` of the recipients of an airdrop. -/
inductive ReadOp where
  | hgetall (airdropId : String)

def readSig : Sig where
  Op := ReadOp
  Rep _ := Except Err (List (String × Json))

/-- The commands of the store, and the one of `getAirdropRecipients`. -/
abbrev accessSig : Sig := sig.sum readSig

/-- The fields of a recipients key. -/
def hgetall : RecipientsKey → Except Err (List (String × Json))
  | .absent => .ok []
  | .list _ => .error "WRONGTYPE"
  | .hash entries => .ok entries

variable {τ : Type}

/-- Redis, with its failures. -/
def redisMachine (τ : Type) : Machine accessSig τ Fault Store where
  exec
    | i, .inl op, x, s => (machine τ).exec i op x s
    | _, .inr (.hgetall airdropId), x, s =>
      (if x = .none then hgetall (s.recipients airdropId) else .error "Redis command failed", s)

/-- The ledger by which recipients are sorted. -/
def addedLedger (recipient : Json) : ℕ :=
  ((recipient.get? "added_ledger").bind Json.toNat?).getD 0

/-- The order of `getAirdropRecipients`; `localeCompare` compares two addresses. -/
def precedes (localeCompare : String → String → Ordering) (a b : Json) : Bool :=
  if addedLedger a ≠ addedLedger b then addedLedger a < addedLedger b
  else localeCompare (fieldText (a.get? "recipient")) (fieldText (b.get? "recipient")) != .gt

/-- `getAirdropRecipients`. -/
def getAirdropRecipients (localeCompare : String → String → Ordering) (airdropId : String) :
    Throws accessSig Err (List Json) := do
  Throws.inl (migrateRecipientsListToHashIfNeeded airdropId)
  let raw ← (Prog.call (S := accessSig) (.inr (.hgetall airdropId)) :
    Prog accessSig (Except Err (List (String × Json))))
  return (raw.map Prod.snd).mergeSort (precedes localeCompare)

/-- An access to the recipients of some airdrop. -/
inductive Access where
  | upsertRecipient (event : ParsedEvent)
  | getAirdropRecipients (airdropId : String)

/-- Its program, without its result. -/
def Access.code (localeCompare : String → String → Ordering) : Access → Throws accessSig Err Unit
  | .upsertRecipient event => Throws.inl (Indexer.upsertRecipient event)
  | .getAirdropRecipients airdropId => do
    let _ ← Migration.getAirdropRecipients localeCompare airdropId

/-! ## 2. What is stored, and what a run has done -/

/-- The entries that the pipeline writes, with their fields. -/
def namedEntries (entries : List Json) : List (String × Json) :=
  (entries.filter fun e => Json.truthy (e.get? "recipient")).map fun e =>
    (fieldText (e.get? "recipient"), e)

/-- The record of a recipient, in either format; of two entries in a list the later one. -/
def recordOf : RecipientsKey → String → Option Json
  | .absent, _ => none
  | .list entries, r => (Json.obj (namedEntries entries)).get? r
  | .hash entries, r => (Json.obj entries).get? r

/-- How far a record's status has come: none, some status, `claimed`. -/
def statusRank (record : Json) : ℕ :=
  if Json.isStr (record.get? "status") "claimed" then 2
  else if Json.truthy (record.get? "status") then 1
  else 0

/-- What is kept of a run: the list that each access has read, the entries it has still to move,
the record it has read last, and the records that upserts have written for each recipient. -/
structure Trace (τ : Type) where
  readList : τ → List Json
  moving : τ → List (String × Json)
  found : τ → Option Json
  written : String → List Json

/-- Nothing has happened. -/
def Trace.init (τ : Type) : Trace τ := ⟨fun _ => [], fun _ => [], fun _ => none, fun _ => []⟩

/-- The key is still a list. -/
def isList : RecipientsKey → Bool
  | .list _ => true
  | _ => false

/-- The key is a hash. -/
def isHash : RecipientsKey → Bool
  | .hash _ => true
  | _ => false

/-- The entries of a list; `[]` for a key that is none. -/
def listOf : RecipientsKey → List Json
  | .list entries => entries
  | _ => []

section Runs

variable [DecidableEq τ]

/-- What a command on the recipients `a` adds to the trace.  An access that has entries to move
writes the next one of them. -/
def note (a : String) (i : τ) (op : accessSig.Op) (x : Fault) (s : Store) (t : Trace τ) : Trace τ :=
  match op with
  | .inl (Op.getRecipientsList b) =>
    if b = a then { t with readList := Function.update t.readList i (listOf (s.recipients a)) } else t
  | .inl (Op.delRecipients b) =>
    if b = a ∧ x ≠ .before then
      { t with moving := Function.update t.moving i (namedEntries (t.readList i)) }
    else t
  | .inl (Op.hget b r) =>
    if b = a then { t with found := Function.update t.found i (recordOf (s.recipients a) r) } else t
  | .inl (Op.hset b r record) =>
    if b = a ∧ x ≠ .before then
      match t.moving i with
      | _ :: rest => { t with moving := Function.update t.moving i rest }
      | [] =>
        if isList (s.recipients a) then t
        else { t with written := Function.update t.written r (t.written r ++ [record]) }
    else t
  | _ => t

/-- Redis, with the trace of what happens to the recipients of `a`. -/
def traced (a : String) : Machine accessSig τ Fault (Store × Trace τ) :=
  (redisMachine τ).observe (note a)

/-- A deletion does not find a hash, and a write of an upsert finds the record that was read, with no
entry of that recipient on its way. -/
def FindsWhatItRead (a : String) (i : τ) (op : accessSig.Op) (x : Fault) (w : Store × Trace τ) : Prop :=
  match op with
  | .inl (Op.delRecipients b) => b = a → x ≠ .before → isHash (w.1.recipients a) = false
  | .inl (Op.hset b r _) => b = a → x ≠ .before → w.2.moving i = [] →
    (∀ j, r ∉ (w.2.moving j).map Prod.fst) ∧ recordOf (w.1.recipients a) r = w.2.found i
  | _ => True

instance [Fintype τ] (a : String) (i : τ) (op : accessSig.Op) (x : Fault) (w : Store × Trace τ) :
    Decidable (FindsWhatItRead a i op x w) := by
  unfold FindsWhatItRead
  split <;> infer_instance

/-- A step that loses nothing; an access that stops has nothing left to move. -/
def Careful (a : String) (i : τ) (op : accessSig.Op) (x : Fault) (w : Store × Trace τ) : Prop :=
  (x ≠ .none → (note a i op x w.1 w.2).moving i = []) ∧ FindsWhatItRead a i op x w

instance [Fintype τ] (a : String) (i : τ) (op : accessSig.Op) (x : Fault) (w : Store × Trace τ) :
    Decidable (Careful a i op x w) := by
  unfold Careful
  infer_instance

end Runs

/-- The accesses, from any store. -/
def start (localeCompare : String → String → Ordering) (s : Store) (accesses : τ → Access) :
    Pool accessSig (Except Err Unit) τ (Store × Trace τ) where
  store := (s, .init τ)
  prog i := ((accesses i).code localeCompare).prog

/-- Every recipient of the old list and every one that was written is stored, and its status is no
older than any of these. -/
def NothingLost (a : String) (old : List Json) (w : Store × Trace τ) : Prop :=
  ∀ r, ∀ v ∈ (recordOf (.list old) r).toList ++ w.2.written r,
    ∃ record, recordOf (w.1.recipients a) r = some record ∧ statusRank v ≤ statusRank record

/-! ## 3. Statuses and entries -/

theorem statusRank_le_two (v : Json) : statusRank v ≤ 2 := by
  unfold statusRank
  split
  · exact le_refl _
  · split <;> decide

/-- **An event does not take a recipient's status back.** -/
theorem statusRank_next (a r : String) (existing : Json) (event : ParsedEvent) :
    statusRank existing ≤ statusRank (next (.recipient a r) existing event) := by
  cases existing with
  | obj fields =>
    have hget := get?_next (.recipient a r) fields event "status"
    rw [show (Json.obj (eventPatch (.recipient a r) (.obj fields) event)).get? "status" = none from rfl,
      Option.none_or] at hget
    cases hname : event.event_name with
    | recipient_added =>
      -- the status that is there is kept
      unfold namedPatch at hget
      simp only [hname] at hget
      cases hstatus : (Json.obj fields).get? "status" with
      | none => simp [statusRank, hstatus, Json.isStr, Json.truthy]
      | some status =>
        cases htruthy : Json.truthy (some status) with
        | true =>
          rw [hstatus, htruthy] at hget
          unfold statusRank
          rw [hget, hstatus]
          rfl
        | false =>
          have hnot : Json.isStr (some status) "claimed" = false := by
            by_contra hclaimed
            cases status <;> simp_all [Json.isStr, Json.truthy]
          simp [statusRank, hstatus, htruthy, hnot]
    | token_claimed =>
      have hclaimed : (next (.recipient a r) (.obj fields) event).get? "status" =
          some (.str "claimed") := by
        unfold namedPatch at hget
        simp only [hname] at hget
        exact hget
      refine (statusRank_le_two _).trans ?_
      unfold statusRank
      rw [hclaimed]
      decide
    | _ =>
      unfold namedPatch at hget
      simp only [hname] at hget
      unfold statusRank
      rw [hget]
      exact le_refl _
  | _ => exact Nat.zero_le _

/-- A field of two lists of fields. -/
theorem get?_append (as bs : List (String × Json)) (r : String) :
    (Json.obj (as ++ bs)).get? r = ((Json.obj bs).get? r).or ((Json.obj as).get? r) := by
  simp only [Json.get?, List.reverse_append, List.find?_append]
  cases List.find? (fun f => f.1 == r) bs.reverse <;> rfl

theorem get?_eq_none {entries : List (String × Json)} {r : String}
    (h : r ∉ entries.map Prod.fst) : (Json.obj entries).get? r = none := by
  simp only [Json.get?, Option.map_eq_none_iff, List.find?_eq_none, List.mem_reverse, beq_iff_eq]
  intro f hf heq
  exact h (heq ▸ List.mem_map_of_mem hf)

theorem get?_cons (r : String) (e : Json) (rest : List (String × Json)) (r' : String) :
    (Json.obj ((r, e) :: rest)).get? r' =
      ((Json.obj rest).get? r').or (if r = r' then some e else none) := by
  rw [← List.singleton_append, get?_append]
  by_cases hr : r = r' <;> simp [Json.get?, hr]

/-- The last entry of a recipient is found in any end of the list that names the recipient. -/
theorem get?_of_suffix {entries rest : List (String × Json)} {r : String} {e : Json}
    (hsuffix : (r, e) :: rest <:+ entries) (hlast : r ∉ rest.map Prod.fst) :
    (Json.obj entries).get? r = some e := by
  obtain ⟨before, rfl⟩ := hsuffix
  rw [get?_append, get?_cons, get?_eq_none hlast, if_pos rfl]
  rfl

/-! ## 4. What every step keeps -/

/-- The recipients that an access has still to move. -/
def Trace.names (t : Trace τ) (i : τ) : List String := (t.moving i).map Prod.fst

/-- The records of a recipient: the one of the old list, and those that were written. -/
def versions (old : List Json) (t : Trace τ) (r : String) : List Json :=
  (recordOf (.list old) r).toList ++ t.written r

/-- A recipient's record, unless it is on its way, is as new as every version of it. -/
structure Kept (a : String) (old : List Json) (w : Store × Trace τ) : Prop where
  untouched : ∀ l, w.1.recipients a = .list l →
    l = old ∧ (∀ i, w.2.moving i = []) ∧ ∀ r, w.2.written r = []
  suffix : ∀ i, w.2.moving i <:+ namedEntries old
  unwritten : ∀ i, ∀ r ∈ w.2.names i, w.2.written r = []
  newest : ∀ r, (∀ i, r ∉ w.2.names i) → ∀ v ∈ versions old w.2 r,
    ∃ record, recordOf (w.1.recipients a) r = some record ∧ statusRank v ≤ statusRank record

variable {a : String} {old : List Json} {w w' : Store × Trace τ} {i : τ}

theorem Kept.init {s : Store} (hs : s.recipients a = .list old) :
    Kept a old (s, .init τ) where
  untouched l hl := by
    obtain rfl : old = l := by
      rw [hs] at hl
      exact RecipientsKey.list.inj hl
    exact ⟨rfl, fun _ => rfl, fun _ => rfl⟩
  suffix i := List.nil_suffix
  unwritten i r hr := by cases hr
  newest r _ v hv := by
    rw [versions, show (Trace.init τ).written r = [] from rfl, List.append_nil,
      Option.mem_toList] at hv
    exact ⟨v, by rw [hs]; exact hv, le_refl _⟩

/-- What an access has read does not matter. -/
theorem Kept.congr (h : Kept a old w) (hkey : w'.1.recipients a = w.1.recipients a)
    (hmoving : w'.2.moving = w.2.moving) (hwritten : w'.2.written = w.2.written) : Kept a old w' := by
  obtain ⟨hlist, hsuffix, hunwritten, hnewest⟩ := h
  have hnames : ∀ i, w'.2.names i = w.2.names i := fun i => by rw [Trace.names, hmoving, Trace.names]
  refine ⟨fun l hl => ?_, fun i => ?_, fun i r hr => ?_, fun r hr v hv => ?_⟩
  · rw [hmoving, hwritten]
    exact hlist l (hkey ▸ hl)
  · rw [hmoving]
    exact hsuffix i
  · rw [hwritten]
    exact hunwritten i r (hnames i ▸ hr)
  · rw [versions, hwritten] at hv
    rw [hkey]
    exact hnewest r (fun i => hnames i ▸ hr i) v hv

section Steps

variable [DecidableEq τ]

/-- The names of the others do not change with what one access has to move. -/
theorem names_update {t t' : Trace τ} {entries : List (String × Json)}
    (h : t'.moving = Function.update t.moving i entries) (j : τ) :
    t'.names j = if j = i then entries.map Prod.fst else t.names j := by
  rw [Trace.names, h, Function.update_apply]
  split <;> rfl

/-- **A deletion** that does not find a hash: the entries of the list are on their way. -/
theorem Kept.deleted {list : List Json} (h : Kept a old w) (hkey : isHash (w.1.recipients a) = false)
    (hidle : w.2.moving i = []) (hlist : list = old ∨ list = [])
    (hread : isList (w.1.recipients a) = true → list = old)
    (hkey' : w'.1.recipients a = .absent)
    (hmoving : w'.2.moving = Function.update w.2.moving i (namedEntries list))
    (hwritten : w'.2.written = w.2.written) : Kept a old w' := by
  have hnames := names_update hmoving
  have hsame : ∀ r, (∀ j, r ∉ w'.2.names j) → ∀ j, r ∉ w.2.names j := by
    intro r hr j hj
    by_cases hji : j = i
    · rw [hji, Trace.names, hidle] at hj
      cases hj
    · refine hr j ?_
      rwa [hnames, if_neg hji]
  -- what is neither in the list nor on its way has not been written
  have hnone : ∀ r, (∀ j, r ∉ w.2.names j) →
      (isList (w.1.recipients a) = true → r ∉ (namedEntries old).map Prod.fst) →
      versions old w.2 r = [] := by
    intro r hr hold
    refine List.eq_nil_iff_forall_not_mem.mpr fun v hv => ?_
    obtain ⟨record, hrecord, -⟩ := h.newest r hr v hv
    cases hcase : w.1.recipients a with
    | absent =>
      rw [hcase] at hrecord
      cases hrecord
    | hash entries =>
      rw [hcase] at hkey
      cases hkey
    | list l =>
      obtain ⟨rfl, -, -⟩ := h.untouched l hcase
      rw [hcase] at hrecord
      rw [hcase] at hold
      rw [recordOf, get?_eq_none (hold rfl)] at hrecord
      cases hrecord
  refine ⟨fun l hl => ?_, fun j => ?_, fun j r hr => ?_, fun r hr v hv => ?_⟩
  · rw [hkey'] at hl
    cases hl
  · rw [hmoving, Function.update_apply]
    split
    · rcases hlist with rfl | rfl
      · exact List.suffix_rfl
      · exact List.nil_suffix
    · exact h.suffix j
  · rw [hwritten]
    by_cases hmoved : ∃ k, r ∈ w.2.names k
    · obtain ⟨k, hk⟩ := hmoved
      exact h.unwritten k r hk
    · cases hcase : w.1.recipients a with
      | list l => exact (h.untouched l hcase).2.2 r
      | _ =>
        have hversions := hnone r (fun k hk => hmoved ⟨k, hk⟩) (by rw [hcase]; simp [isList])
        exact (List.append_eq_nil_iff.mp hversions).2
  · rw [versions, hwritten] at hv
    have hversions := hnone r (hsame r hr) fun hl => by
      have hi := hr i
      rw [hnames, if_pos rfl, hread hl] at hi
      exact hi
    rw [versions] at hversions
    rw [hversions] at hv
    cases hv

/-- **The next entry** is moved. -/
theorem Kept.moved {r : String} {e : Json} {rest : List (String × Json)} (h : Kept a old w)
    (hmoving : w.2.moving i = (r, e) :: rest)
    (hkey : ∀ r', recordOf (w'.1.recipients a) r' =
      if r' = r then some e else recordOf (w.1.recipients a) r')
    (hlist : isList (w'.1.recipients a) = false)
    (hmoving' : w'.2.moving = Function.update w.2.moving i rest)
    (hwritten : w'.2.written = w.2.written) : Kept a old w' := by
  have hnames := names_update hmoving'
  have hsuffix : (r, e) :: rest <:+ namedEntries old := hmoving ▸ h.suffix i
  refine ⟨fun l hl => ?_, fun j => ?_, fun j r' hr' => ?_, fun r' hr' v hv => ?_⟩
  · rw [hl] at hlist
    cases hlist
  · rw [hmoving', Function.update_apply]
    split
    · exact (List.suffix_cons _ _).trans hsuffix
    · exact h.suffix j
  · rw [hwritten]
    refine h.unwritten j r' ?_
    rw [hnames] at hr'
    split at hr'
    · rename_i hj
      rw [hj, Trace.names, hmoving]
      exact List.mem_cons_of_mem _ hr'
    · exact hr'
  · rw [versions, hwritten] at hv
    rw [hkey]
    by_cases hr : r' = r
    · -- it was the last entry of this recipient, and nothing else was written
      subst hr
      have hlast : r' ∉ rest.map Prod.fst := by
        have hi := hr' i
        rwa [hnames, if_pos rfl] at hi
      have hnew : w.2.written r' = [] := h.unwritten i r' (by rw [Trace.names, hmoving]; simp)
      rw [recordOf, get?_of_suffix hsuffix hlast, hnew, List.append_nil, Option.mem_toList] at hv
      rw [if_pos rfl]
      exact ⟨e, rfl, (Option.some.inj hv) ▸ le_refl _⟩
    · rw [if_neg hr]
      refine h.newest r' (fun j hj => hr' j ?_) v hv
      rw [hnames]
      split
      · rename_i hji
        rw [hji, Trace.names, hmoving, List.map_cons, List.mem_cons] at hj
        exact hj.resolve_left hr
      · exact hj

omit [DecidableEq τ] in
/-- **A record is written** over the one that was read. -/
theorem Kept.wrote {r : String} {next : Json} (h : Kept a old w)
    (hr : ∀ j, r ∉ w.2.names j)
    (hnext : ∀ record, recordOf (w.1.recipients a) r = some record →
      statusRank record ≤ statusRank next)
    (hkey : ∀ r', recordOf (w'.1.recipients a) r' =
      if r' = r then some next else recordOf (w.1.recipients a) r')
    (hlist : isList (w'.1.recipients a) = false) (hmoving : w'.2.moving = w.2.moving)
    (hwritten : w'.2.written = Function.update w.2.written r (w.2.written r ++ [next])) :
    Kept a old w' := by
  have hnames : ∀ j, w'.2.names j = w.2.names j := fun j => by rw [Trace.names, hmoving, Trace.names]
  refine ⟨fun l hl => ?_, fun j => ?_, fun j r' hr' => ?_, fun r' hr' v hv => ?_⟩
  · rw [hl] at hlist
    cases hlist
  · rw [hmoving]
    exact h.suffix j
  · rw [hnames] at hr'
    have hne : r' ≠ r := fun heq => hr j (heq ▸ hr')
    rw [hwritten, Function.update_of_ne hne]
    exact h.unwritten j r' hr'
  · rw [hkey]
    rw [versions, hwritten] at hv
    by_cases heq : r' = r
    · subst heq
      rw [if_pos rfl]
      refine ⟨next, rfl, ?_⟩
      rw [Function.update_self, ← List.append_assoc, List.mem_append, List.mem_singleton] at hv
      rcases hv with hv | rfl
      · obtain ⟨record, hrecord, hle⟩ := h.newest r' hr v hv
        exact hle.trans (hnext record hrecord)
      · exact le_refl _
    · rw [Function.update_of_ne heq] at hv
      rw [if_neg heq]
      exact h.newest r' (fun j => hnames j ▸ hr' j) v hv

end Steps

/-! ## 5. The code under its contract -/

/-- What is kept of an access is the same. -/
structure SameOwn (i : τ) (t t' : Trace τ) : Prop where
  readList : t'.readList i = t.readList i
  moving : t'.moving i = t.moving i
  found : t'.found i = t.found i

/-- A key that is a list has been one before. -/
def NoNewList (a : String) (s s' : Store) : Prop :=
  isList (s'.recipients a) = true → isList (s.recipients a) = true

variable [DecidableEq τ]

/-- The contract of an access: the others leave alone what is kept of it. -/
def migrating (a : String) (old : List Json) (i : τ) : Contract accessSig Fault (Store × Trace τ) where
  ok := Careful a i
  rely w w' := (Kept a old w' ∧ NoNewList a w.1 w'.1) ∧ SameOwn i w.2 w'.2
  guar w w' := (Kept a old w' ∧ NoNewList a w.1 w'.1) ∧ ∀ j, j ≠ i → SameOwn j w.2 w'.2

theorem migrating_compatible : Pool.Compatible (migrating (τ := τ) a old) :=
  fun _ j hj _ _ h => ⟨h.1, h.2 j hj⟩

/-- An access that has nothing to move. -/
def Idle (a : String) (old : List Json) (i : τ) (w : Store × Trace τ) : Prop :=
  Kept a old w ∧ w.2.moving i = []

/-- An access that has read a list. -/
def HasRead (a : String) (old : List Json) (i : τ) (list : List Json) (w : Store × Trace τ) : Prop :=
  Idle a old i w ∧ w.2.readList i = list ∧ (list = old ∨ list = []) ∧
    (isList (w.1.recipients a) = true → list = old)

/-- An access that has these entries to move. -/
def Moving (a : String) (old : List Json) (i : τ) (entries : List (String × Json))
    (w : Store × Trace τ) : Prop :=
  Kept a old w ∧ w.2.moving i = entries

theorem stable_idle : Stable (migrating a old i).rely (Idle a old i) :=
  fun _ _ h hr => ⟨hr.1.1, hr.2.moving.trans h.2⟩

theorem stable_moving {entries : List (String × Json)} :
    Stable (migrating a old i).rely (Moving a old i entries) :=
  fun _ _ h hr => ⟨hr.1.1, hr.2.moving.trans h.2⟩

theorem stable_hasRead {list : List Json} :
    Stable (migrating a old i).rely (HasRead a old i list) :=
  fun _ _ h hr => ⟨stable_idle h.1 hr, hr.2.readList.trans h.2.1, h.2.2.1,
    fun hl => h.2.2.2 (hr.1.2 hl)⟩

/-- A piece of an access, which has nothing left to move when it throws. -/
def Keeps (a : String) (old : List Json) (i : τ) {α : Type} (code : Throws accessSig Err α)
    (A : Store × Trace τ → Prop) (Q : α → Store × Trace τ → Prop) : Prop :=
  SatE (traced a) i (migrating a old i) code A Q fun _ => Idle a old i

/-- One command. -/
theorem keeps_redis {op : Op} {A : Store × Trace τ → Prop} {Q : op.Ret → Store × Trace τ → Prop}
    (hst : ∀ r, Stable (migrating a old i).rely (Q r))
    (h : ∀ x w, A w → Careful a i (.inl op) x w →
      (migrating a old i).guar w ((traced a).exec i (.inl op) x w).2 ∧
      (∀ r, ((traced a).exec i (.inl op) x w).1 = .ok r → Q r ((traced a).exec i (.inl op) x w).2) ∧
      ∀ e, ((traced a).exec i (.inl op) x w).1 = .error e →
        Idle a old i ((traced a).exec i (.inl op) x w).2) :
    Keeps a old i (Throws.inl (redis op)) A Q := by
  intro x w hw hok
  obtain ⟨hguar, hreply, herror⟩ := h x w hw hok
  cases hr : ((traced a).exec i (.inl op) x w).1 with
  | ok r => exact ⟨hguar, Q r, hst r, hreply r hr, fun _ hq => hq⟩
  | error e => exact ⟨hguar, Idle a old i, stable_idle, herror e hr, fun _ hq => hq⟩

/-- What a command leaves. -/
theorem traced_store (op : Op) (x : Fault) (w : Store × Trace τ) :
    ((traced a).exec i (.inl op) x w).2 =
      (if x = .before then w.1 else (w.1.exec op).2, note a i (.inl op) x w.1 w.2) := by
  cases x <;> rfl

theorem traced_reply (op : Op) (x : Fault) (w : Store × Trace τ) :
    ((traced a).exec i (.inl op) x w).1 =
      if x = .none then (w.1.exec op).1 else .error "Redis command failed" := by
  cases x <;> rfl

/-- A step that only changes what the access itself has read. -/
theorem guar_of_congr (h : Kept a old w) (hkey : w'.1.recipients a = w.1.recipients a)
    (hmoving : w'.2.moving = w.2.moving) (hwritten : w'.2.written = w.2.written)
    (hread : ∀ j, j ≠ i → w'.2.readList j = w.2.readList j)
    (hfound : ∀ j, j ≠ i → w'.2.found j = w.2.found j) : (migrating a old i).guar w w' := by
  refine ⟨⟨h.congr hkey hmoving hwritten, fun hl => hkey ▸ hl⟩, fun j hj => ?_⟩
  exact ⟨hread j hj, congrFun hmoving j, hfound j hj⟩

theorem keeps_type :
    Keeps a old i (Throws.inl (redis (.recipientsType a))) (Idle a old i) fun _ => Idle a old i := by
  refine keeps_redis (fun _ => stable_idle) fun x w hw _ => ?_
  have hstore : ((traced a).exec i (.inl (.recipientsType a)) x w).2 = w := by
    rw [traced_store]
    cases x <;> rfl
  rw [hstore]
  exact ⟨guar_of_congr hw.1 rfl rfl rfl (fun _ _ => rfl) fun _ _ => rfl, fun _ _ => hw, fun _ _ => hw⟩

theorem keeps_getList :
    Keeps a old i (Throws.inl (redis (.getRecipientsList a))) (Idle a old i) (HasRead a old i) := by
  refine keeps_redis (fun _ => stable_hasRead) fun x w hw _ => ?_
  have hkeep : (w.1.exec (.getRecipientsList a)).2 = w.1 := by
    simp only [Store.exec]
    split <;> rfl
  have hstore : ((traced a).exec i (.inl (.getRecipientsList a)) x w).2 = (w.1, { w.2 with
      readList := Function.update w.2.readList i (listOf (w.1.recipients a)) }) := by
    rw [traced_store, hkeep, ite_self, note]
    simp only [if_true]
  have hidle : Idle a old i ((traced a).exec i (.inl (.getRecipientsList a)) x w).2 := by
    rw [hstore]
    exact ⟨hw.1.congr rfl rfl rfl, hw.2⟩
  refine ⟨?_, fun list hlist => ⟨hidle, ?_⟩, fun _ _ => hidle⟩
  · rw [hstore]
    exact guar_of_congr hw.1 rfl rfl rfl (fun j hj => Function.update_of_ne hj ..) fun _ _ => rfl
  · rw [traced_reply] at hlist
    split at hlist
    · rw [hstore]
      dsimp only
      rw [Function.update_self]
      cases hcase : w.1.recipients a with
      | absent =>
        simp only [Store.exec, hcase] at hlist
        obtain rfl := Except.ok.inj hlist
        exact ⟨rfl, .inr rfl, fun hl => by cases hl⟩
      | list l =>
        simp only [Store.exec, hcase] at hlist
        obtain rfl := Except.ok.inj hlist
        obtain ⟨rfl, -, -⟩ := hw.1.untouched l hcase
        exact ⟨rfl, .inl rfl, fun _ => rfl⟩
      | hash entries =>
        simp only [Store.exec, hcase] at hlist
        cases hlist
    · cases hlist

theorem keeps_del (list : List Json) :
    Keeps a old i (Throws.inl (redis (.delRecipients a))) (HasRead a old i list)
      fun _ => Moving a old i (namedEntries list) := by
  refine keeps_redis (fun _ => stable_moving) fun x w hw hok => ?_
  obtain ⟨hidle, hread, hlist, hlist'⟩ := hw
  by_cases hx : x = .before
  · have hstore : ((traced a).exec i (.inl (.delRecipients a)) x w).2 = w := by
      rw [traced_store, if_pos hx, note, if_neg (fun h => h.2 hx)]
    rw [hstore, traced_reply, hx]
    exact ⟨guar_of_congr hidle.1 rfl rfl rfl (fun _ _ => rfl) fun _ _ => rfl,
      fun r hr => (by cases hr), fun _ _ => hidle⟩
  · have hnote : note a i (.inl (.delRecipients a)) x w.1 w.2 = { w.2 with
        moving := Function.update w.2.moving i (namedEntries list) } := by
      rw [note, if_pos ⟨rfl, hx⟩, hread]
    have hstore : ((traced a).exec i (.inl (.delRecipients a)) x w).2 =
        ((w.1.exec (.delRecipients a)).2, { w.2 with
          moving := Function.update w.2.moving i (namedEntries list) }) := by
      rw [traced_store, if_neg hx, hnote]
    have hkey : ((w.1.exec (.delRecipients a)).2).recipients a = .absent := Function.update_self ..
    have hkept : Kept a old ((w.1.exec (.delRecipients a)).2, { w.2 with
        moving := Function.update w.2.moving i (namedEntries list) }) :=
      hidle.1.deleted (hok.2 rfl hx) hidle.2 hlist hlist' hkey rfl rfl
    rw [hstore]
    refine ⟨⟨⟨hkept, fun hl => ?_⟩, fun j hj => ⟨rfl, Function.update_of_ne hj .., rfl⟩⟩,
      fun _ _ => ⟨hkept, Function.update_self ..⟩, fun e he => ⟨hkept, ?_⟩⟩
    · rw [hkey] at hl
      cases hl
    · have hcrash : x ≠ .none := fun hnone => by
        rw [traced_reply, if_pos hnone] at he
        cases he
      have hleft := hok.1 hcrash
      rw [hnote] at hleft
      exact hleft

omit [DecidableEq τ] in
/-- `HSET` on a key that is not a list. -/
theorem exec_hset {s : Store} (r : String) (record : Json) (h : isList (s.recipients a) = false) :
    (s.exec (.hset a r record)).1 = .ok () ∧
      isList ((s.exec (.hset a r record)).2.recipients a) = false ∧
      ∀ r', recordOf ((s.exec (.hset a r record)).2.recipients a) r' =
        if r' = r then some record else recordOf (s.recipients a) r' := by
  cases hcase : s.recipients a with
  | list l =>
    rw [hcase] at h
    cases h
  | absent =>
    refine ⟨by simp [Store.exec, hcase], by simp [Store.exec, hcase, isList], fun r' => ?_⟩
    have hone : (Json.obj [(r, record)]).get? r' = if r' = r then some record else none := by
      rw [get?_cons, show (Json.obj []).get? r' = none from rfl, Option.none_or]
      simp only [eq_comm]
    simpa [Store.exec, hcase, recordOf] using hone
  | hash entries =>
    refine ⟨by simp [Store.exec, hcase], by simp [Store.exec, hcase, isList], fun r' => ?_⟩
    have hset : (Json.obj (Json.setField entries r record)).get? r' =
        if r' = r then some record else (Json.obj entries).get? r' := by
      by_cases hr : r' = r
      · rw [if_pos hr, hr, Json.get?_setField_self]
      · rw [if_neg hr, Json.get?_setField_of_ne hr]
    simpa [Store.exec, hcase, recordOf] using hset

omit [DecidableEq τ] in
/-- A key is not a list once an access has something to move. -/
theorem Kept.not_list {entry : String × Json} {rest : List (String × Json)} (h : Kept a old w)
    (hmoving : w.2.moving i = entry :: rest) : isList (w.1.recipients a) = false := by
  cases hcase : w.1.recipients a with
  | list l =>
    rw [(h.untouched l hcase).2.1 i] at hmoving
    cases hmoving
  | _ => rfl

theorem keeps_move (r : String) (e : Json) (rest : List (String × Json)) :
    Keeps a old i (Throws.inl (redis (.hset a r e))) (Moving a old i ((r, e) :: rest))
      fun _ => Moving a old i rest := by
  refine keeps_redis (fun _ => stable_moving) fun x w hw hok => ?_
  obtain ⟨hkept, hmoving⟩ := hw
  have hx : x ≠ .before := by
    -- it would stop with this entry left to move
    rintro rfl
    have hleft := hok.1 (by decide)
    rw [note, if_neg (fun h => h.2 rfl), hmoving] at hleft
    cases hleft
  have hnote : note a i (.inl (.hset a r e)) x w.1 w.2 = { w.2 with
      moving := Function.update w.2.moving i rest } := by
    rw [note, if_pos ⟨rfl, hx⟩, hmoving]
  obtain ⟨hreply, hlist, hkey⟩ := exec_hset r e (hkept.not_list hmoving)
  have hkept' : Kept a old ((w.1.exec (.hset a r e)).2, { w.2 with
      moving := Function.update w.2.moving i rest }) :=
    hkept.moved hmoving hkey hlist rfl rfl
  rw [traced_store, if_neg hx, hnote]
  refine ⟨⟨⟨hkept', fun hl => ?_⟩, fun j hj => ⟨rfl, Function.update_of_ne hj .., rfl⟩⟩,
    fun _ _ => ⟨hkept', Function.update_self ..⟩, fun err he => ⟨hkept', ?_⟩⟩
  · rw [hlist] at hl
    cases hl
  · have hcrash : x ≠ .none := fun hnone => by
      rw [traced_reply, if_pos hnone, hreply] at he
      cases he
    have hleft := hok.1 hcrash
    rw [hnote] at hleft
    exact hleft

theorem keeps_hget (r : String) :
    Keeps a old i (Throws.inl (redis (.hget a r))) (Idle a old i)
      fun o w => Idle a old i w ∧ w.2.found i = o := by
  refine keeps_redis (fun o => ?_) fun x w hw _ => ?_
  · exact fun w w' h hr => ⟨stable_idle h.1 hr, hr.2.found.trans h.2⟩
  have hkeep : (w.1.exec (.hget a r)).2 = w.1 := by
    simp only [Store.exec]
    split <;> rfl
  have hstore : ((traced a).exec i (.inl (.hget a r)) x w).2 = (w.1, { w.2 with
      found := Function.update w.2.found i (recordOf (w.1.recipients a) r) }) := by
    rw [traced_store, hkeep, ite_self, note]
    simp only [if_true]
  have hidle : Idle a old i ((traced a).exec i (.inl (.hget a r)) x w).2 := by
    rw [hstore]
    exact ⟨hw.1.congr rfl rfl rfl, hw.2⟩
  refine ⟨?_, fun o ho => ⟨hidle, ?_⟩, fun _ _ => hidle⟩
  · rw [hstore]
    exact guar_of_congr hw.1 rfl rfl rfl (fun _ _ => rfl) fun j hj => Function.update_of_ne hj ..
  · rw [traced_reply] at ho
    split at ho
    · rw [hstore]
      dsimp only
      rw [Function.update_self]
      cases hcase : w.1.recipients a with
      | absent =>
        simp only [Store.exec, hcase] at ho
        exact Except.ok.inj ho
      | list l =>
        simp only [Store.exec, hcase] at ho
        cases ho
      | hash entries =>
        simp only [Store.exec, hcase] at ho
        exact Except.ok.inj ho
    · cases ho

theorem keeps_hset (r : String) {o : Option Json} {record : Json}
    (hrank : ∀ v, o = some v → statusRank v ≤ statusRank record) :
    Keeps a old i (Throws.inl (redis (.hset a r record)))
      (fun w => Idle a old i w ∧ w.2.found i = o) fun _ => Idle a old i := by
  refine keeps_redis (fun _ => stable_idle) fun x w hw hok => ?_
  obtain ⟨⟨hkept, hmoving⟩, hfound⟩ := hw
  by_cases hx : x = .before
  · have hstore : ((traced a).exec i (.inl (.hset a r record)) x w).2 = w := by
      rw [traced_store, if_pos hx, note, if_neg (fun h => h.2 hx)]
    rw [hstore]
    exact ⟨guar_of_congr hkept rfl rfl rfl (fun _ _ => rfl) fun _ _ => rfl,
      fun _ _ => ⟨hkept, hmoving⟩, fun _ _ => ⟨hkept, hmoving⟩⟩
  obtain ⟨hfree, hsame⟩ := hok.2 rfl hx hmoving
  cases hl : isList (w.1.recipients a) with
  | true =>
    have hstore : ((traced a).exec i (.inl (.hset a r record)) x w).2 = w := by
      have hkeep : (w.1.exec (.hset a r record)).2 = w.1 := by
        cases hcase : w.1.recipients a with
        | list l => simp only [Store.exec, hcase]
        | _ =>
          rw [hcase] at hl
          cases hl
      rw [traced_store, if_neg hx, hkeep, note, if_pos ⟨rfl, hx⟩, hmoving]
      simp only [hl, if_true]
    rw [hstore]
    exact ⟨guar_of_congr hkept rfl rfl rfl (fun _ _ => rfl) fun _ _ => rfl,
      fun _ _ => ⟨hkept, hmoving⟩, fun _ _ => ⟨hkept, hmoving⟩⟩
  | false =>
    have hnote : note a i (.inl (.hset a r record)) x w.1 w.2 = { w.2 with
        written := Function.update w.2.written r (w.2.written r ++ [record]) } := by
      rw [note, if_pos ⟨rfl, hx⟩, hmoving]
      simp only [hl, Bool.false_eq_true, if_false]
    obtain ⟨-, hlist, hkey⟩ := exec_hset r record hl
    have hkept' : Kept a old ((w.1.exec (.hset a r record)).2, { w.2 with
        written := Function.update w.2.written r (w.2.written r ++ [record]) }) :=
      hkept.wrote hfree (fun v hv => hrank v (hfound ▸ hsame ▸ hv)) hkey hlist rfl rfl
    rw [traced_store, if_neg hx, hnote]
    refine ⟨⟨⟨hkept', fun h => ?_⟩, fun j _ => ⟨rfl, rfl, rfl⟩⟩, fun _ _ => ⟨hkept', hmoving⟩,
      fun _ _ => ⟨hkept', hmoving⟩⟩
    rw [hlist] at h
    cases h

theorem keeps_moveEntries (entries : List Json) :
    Keeps a old i (Throws.inl (moveEntries a entries)) (Moving a old i (namedEntries entries))
      fun _ => Idle a old i := by
  induction entries with
  | nil => exact SatE.pure fun _ h => h
  | cons entry rest ih =>
    rw [moveEntries]
    cases htruthy : Json.truthy (entry.get? "recipient") with
    | true =>
      rw [show namedEntries (entry :: rest) =
        (fieldText (entry.get? "recipient"), entry) :: namedEntries rest by
        simp [namedEntries, htruthy]]
      simp only [if_true]
      rw [Throws.inl_bind]
      exact SatE.bind (keeps_move _ _ _) fun _ => ih
    | false =>
      rw [show namedEntries (entry :: rest) = namedEntries rest by simp [namedEntries, htruthy]]
      exact ih

/-- **A migration** moves what it has read. -/
theorem keeps_migrate :
    Keeps a old i (Throws.inl (migrateRecipientsListToHashIfNeeded a)) (Idle a old i)
      fun _ => Idle a old i := by
  rw [migrateRecipientsListToHashIfNeeded, Throws.inl_bind]
  refine SatE.bind keeps_type fun type => ?_
  split
  · exact SatE.pure fun _ h => h
  rw [Throws.inl_bind]
  refine SatE.bind keeps_getList fun list => ?_
  rw [Throws.inl_bind]
  exact SatE.bind (keeps_del list) fun _ => keeps_moveEntries list

/-- Commands on the recipients of other airdrops, and those that only read. -/
def Elsewhere (a : String) (op : accessSig.Op) : Prop :=
  match op with
  | .inl (Op.recipientsType b) | .inl (Op.getRecipientsList b) | .inl (Op.delRecipients b)
  | .inl (Op.hget b _) | .inl (Op.hset b _ _) => b ≠ a
  | .inl _ => False
  | .inr _ => True

theorem exec_elsewhere {op : Op} (hop : Elsewhere a (.inl op)) (x : Fault) (w : Store × Trace τ) :
    ((traced a).exec i (.inl op) x w).2.1.recipients a = w.1.recipients a ∧
      ((traced a).exec i (.inl op) x w).2.2 = w.2 := by
  rw [traced_store]
  cases op with
  | recipientsType b => exact ⟨by cases x <;> rfl, rfl⟩
  | getRecipientsList b =>
    refine ⟨?_, if_neg hop⟩
    simp only [Store.exec]
    split <;> (try split) <;> rfl
  | delRecipients b =>
    refine ⟨?_, if_neg fun h => hop h.1⟩
    split
    · rfl
    · exact Function.update_of_ne (Ne.symm hop) _ _
  | hget b r =>
    refine ⟨?_, if_neg hop⟩
    simp only [Store.exec]
    split <;> (try split) <;> rfl
  | hset b r record =>
    refine ⟨?_, if_neg fun h => hop h.1⟩
    split
    · rfl
    · simp only [Store.exec]
      split
      · exact Function.update_of_ne (Ne.symm hop) _ _
      · rfl
      · exact Function.update_of_ne (Ne.symm hop) _ _
  | _ => exact hop.elim

/-- What is done elsewhere changes nothing here. -/
theorem keeps_elsewhere {α : Type} {code : Throws accessSig Err α}
    (h : Throws.Uses (Elsewhere a) code) : Keeps a old i code (Idle a old i) fun _ => Idle a old i := by
  refine SatE.frame stable_idle (fun op hop x w hw _ => ?_) h
  have hsame : ((traced a).exec i op x w).2.1.recipients a = w.1.recipients a ∧
      ((traced a).exec i op x w).2.2 = w.2 := by
    rcases op with op | op
    · exact exec_elsewhere hop x w
    · cases op
      exact ⟨rfl, rfl⟩
  obtain ⟨hkey, htrace⟩ := hsame
  have hguar : (migrating a old i).guar w ((traced a).exec i op x w).2 :=
    guar_of_congr hw.1 hkey (by rw [htrace]) (by rw [htrace]) (fun _ _ => by rw [htrace])
      fun _ _ => by rw [htrace]
  exact ⟨hguar, hguar.1.1, by rw [htrace]; exact hw.2⟩

omit [DecidableEq τ] in
theorem elsewhere_moveEntries {b : String} (hb : b ≠ a) (entries : List Json) :
    Throws.Uses (fun op => Elsewhere a (.inl op)) (moveEntries b entries) := by
  induction entries with
  | nil => exact Throws.uses_pure _
  | cons entry rest ih =>
    unfold moveEntries
    split
    · exact Throws.Uses.bind (uses_redis hb) fun _ => ih
    · exact ih

omit [DecidableEq τ] in
theorem elsewhere_migrate {b : String} (hb : b ≠ a) :
    Throws.Uses (fun op => Elsewhere a (.inl op)) (migrateRecipientsListToHashIfNeeded b) := by
  refine Throws.Uses.bind (uses_redis hb) fun type => ?_
  split
  · exact Throws.uses_pure _
  refine Throws.Uses.bind (uses_redis hb) fun list => ?_
  exact Throws.Uses.bind (uses_redis hb) fun _ => elsewhere_moveEntries hb list

/-- **`upsertRecipient`**, for any airdrop. -/
theorem keeps_upsertRecipient (event : ParsedEvent) :
    Keeps a old i (Throws.inl (Indexer.upsertRecipient event)) (Idle a old i) fun _ => Idle a old i := by
  rw [upsertRecipient_eq]
  cases hkey : recipientKey event with
  | none => exact SatE.pure fun _ h => h
  | some p =>
    obtain ⟨b, r⟩ := p
    by_cases hb : b = a
    · subst hb
      dsimp only
      rw [Throws.inl_bind]
      refine SatE.bind keeps_migrate fun _ => ?_
      rw [Throws.inl_bind]
      refine SatE.bind (keeps_hget r) fun o => ?_
      refine keeps_hset r fun v hv => ?_
      rw [hv]
      exact statusRank_next b r v event
    · refine keeps_elsewhere (Prog.Uses.inl ?_)
      refine Throws.Uses.bind (elsewhere_migrate hb) fun _ => ?_
      exact Throws.Uses.bind (uses_redis hb) fun _ => uses_redis hb

/-- **`getAirdropRecipients`**, for any airdrop. -/
theorem keeps_getAirdropRecipients (localeCompare : String → String → Ordering) (b : String) :
    Keeps a old i (getAirdropRecipients localeCompare b) (Idle a old i) fun _ => Idle a old i := by
  refine SatE.bind (Q := fun _ => Idle a old i) ?_ fun _ => ?_
  · by_cases hb : b = a
    · subst hb
      exact keeps_migrate
    · exact keeps_elsewhere (Prog.Uses.inl (elsewhere_migrate hb))
  · refine keeps_elsewhere (Throws.Uses.bind ⟨trivial, fun _ => trivial⟩ fun _ => Throws.uses_pure _)

theorem keeps_access (localeCompare : String → String → Ordering) (access : Access) :
    Keeps a old i (access.code localeCompare) (Idle a old i) fun _ => Idle a old i := by
  cases access with
  | upsertRecipient event => exact keeps_upsertRecipient event
  | getAirdropRecipients b =>
    exact SatE.bind (keeps_getAirdropRecipients localeCompare b) fun _ => SatE.pure fun _ h => h

/-! ## 6. Every run -/

/-- **Nothing is lost** by any accesses, in any order of their commands, in which every step is
careful: once they have all finished or stopped, each recipient of the old list and each that was
written is stored, with a status no older than any of these. -/
theorem migration_keeps (localeCompare : String → String → Ordering) (a : String) (old : List Json)
    (s : Store) (hs : s.recipients a = .list old) (accesses : τ → Access) (ls : List (τ × Fault))
    (hcareful : Along (Pool.step (traced a)) (fun c l => Pool.Issues (Careful a l.1) c l)
      (start localeCompare s accesses) ls)
    (hdone : ∀ i, ∃ r, (run (Pool.step (traced a)) (start localeCompare s accesses) ls).prog i = .ret r) :
    NothingLost a old (run (Pool.step (traced a)) (start localeCompare s accesses) ls).store := by
  have hsafe : Pool.Safe (traced a) (migrating a old) (fun i _ => Idle a old i)
      (start localeCompare s accesses) := by
    intro i
    refine ⟨Idle a old i, stable_idle, ⟨Kept.init hs, rfl⟩, ?_⟩
    refine Sat.mono (keeps_access localeCompare (accesses i)) (fun _ h => h) ?_
    rintro (e | r) w h <;> exact h
  have hkept := hsafe.run_stable (A := Kept a old)
    (fun i w w' _ (hg : (migrating a old i).guar w w') => hg.1.1) migrating_compatible (Kept.init hs) hcareful
  have hidle : ∀ i, (run (Pool.step (traced a)) (start localeCompare s accesses) ls).store.2.moving i =
      [] := by
    intro i
    obtain ⟨r, hr⟩ := hdone i
    exact ((hsafe.run migrating_compatible hcareful).done hr).2
  intro r
  refine hkept.newest r fun i hi => ?_
  rw [Trace.names, hidle] at hi
  cases hi

/-- One recipient, who is pending. -/
def sampleList : List Json := [.obj [("recipient", .str "GA"), ("status", .str "pending")]]

/-- The list of the airdrop `a`. -/
def sampleOld : Store :=
  { Store.init with recipients := Function.update Store.init.recipients "a" (.list sampleList) }

/-- One access reads the recipients, the other one saves a claim. -/
def sampleAccesses : Bool → Access
  | false => .getAirdropRecipients "a"
  | true => .upsertRecipient (sampleClaim "1")

/-- What a run of the two leaves. -/
def sampleRun (ls : List (Bool × Fault)) : Pool accessSig (Except Err Unit) Bool (Store × Trace Bool) :=
  run (Pool.step (traced "a")) (start compare sampleOld sampleAccesses) ls

/-- The reader migrates the list before the claim is saved. -/
def migratedFirst : List (Bool × Fault) :=
  List.replicate 5 (false, .none) ++ List.replicate 3 (true, .none)

theorem sampleRun_done {ls : List (Bool × Fault)}
    (h : ∀ i, ((sampleRun ls).prog i).result?.isSome = true) (i : Bool) :
    ∃ r, (sampleRun ls).prog i = .ret r := by
  have hi := h i
  cases hprog : (sampleRun ls).prog i with
  | ret r => exact ⟨r, rfl⟩
  | cmd op k =>
    rw [hprog] at hi
    cases hi

theorem migration_keeps_sample : NothingLost "a" sampleList (sampleRun migratedFirst).store :=
  migration_keeps compare "a" sampleList sampleOld rfl sampleAccesses migratedFirst
    (by decide +kernel) (sampleRun_done (by decide +kernel))

/-- The process that saves the claim stops after it has deleted the list. -/
def stoppedHalfway : List (Bool × Fault) :=
  List.replicate 3 (true, .none) ++ [(true, .before)] ++ List.replicate 2 (false, .none)

/-- Both have read the list when the claim is saved, and the reader moves it once more. -/
def movedTwice : List (Bool × Fault) :=
  List.replicate 2 (false, .none) ++ List.replicate 6 (true, .none) ++ List.replicate 3 (false, .none)

/-- The recipient is gone in the first run, and is pending again in the second one. -/
theorem migration_loses :
    ¬ ((∀ i, ((sampleRun stoppedHalfway).prog i).result?.isSome = true) →
      NothingLost "a" sampleList (sampleRun stoppedHalfway).store) ∧
    ¬ ((∀ i, ((sampleRun movedTwice).prog i).result?.isSome = true) →
      NothingLost "a" sampleList (sampleRun movedTwice).store) := by
  constructor
  · intro h
    obtain ⟨record, hrecord, -⟩ := h (by decide +kernel) "GA" _ (List.mem_append_left _
      (Option.mem_toList.mpr rfl))
    have hgone : recordOf ((sampleRun stoppedHalfway).store.1.recipients "a") "GA" = none := by
      decide +kernel
    rw [hgone] at hrecord
    cases hrecord
  · intro h
    have hclaimed : ((sampleRun movedTwice).store.2.written "GA").any (fun v => statusRank v == 2) =
        true := by decide +kernel
    have hpending : (recordOf ((sampleRun movedTwice).store.1.recipients "a") "GA").map statusRank =
        some 1 := by decide +kernel
    obtain ⟨v, hv, hrank⟩ := List.any_eq_true.mp hclaimed
    obtain ⟨record, hrecord, hle⟩ := h (by decide +kernel) "GA" v (List.mem_append_right _ hv)
    rw [hrecord] at hpending
    rw [eq_of_beq hrank, Option.some.inj hpending] at hle
    exact absurd hle (by decide)

end SmartDrop.Indexer.Migration
