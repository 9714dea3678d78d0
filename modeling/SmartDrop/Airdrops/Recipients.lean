/-
# No recipient twice

`create` writes its list of recipients and the set of their addresses in one transaction.
`addRecipients` first adds its addresses to the set, all in one transaction whose replies say
which were new, and then appends the recipients whose addresses were.  Between the two commands a
new address is in the set and not yet in the list: it is owed by the call that has claimed it.

However the calls interleave, each address of the set is in exactly one place, the list or the
hands of one call (`Importing`), so the list never has it twice, and holds the whole set once all
calls have returned (`recipients_unique`).  This takes an airdrop that exists: a call that is
made for an id before `create` inserts it can append what `create` appends once more
(`recipients_repeated`).
-/
import SmartDrop.Airdrops.Store
import SmartDrop.Lib.Places
import SmartDrop.Lib.Run

namespace SmartDrop.Airdrops

open Binary64 Conc Redis

/-! ## 1. Claiming addresses -/

/-- The set after `SADD` of one address after the other. -/
theorem mem_saddEach {as : List String} {set : RSet String} {a : String} :
    a ∈ (saddEach set as).1 ↔ a ∈ set ∨ a ∈ as := by
  induction as generalizing set with
  | nil => simp [saddEach]
  | cons b as ih => rw [saddEach, ih, RSet.mem_sadd, List.mem_cons, or_assoc]

/-- The recipients that `addRecipients` goes on with: one for each address that was new. -/
theorem splitDuplicates_new (rs : List Recipient) (set : RSet String) :
    let new := (splitDuplicates rs (saddEach set (rs.map Recipient.address)).2).1
    (new.map Recipient.address).Nodup ∧
      ∀ a, a ∈ new.map Recipient.address ↔ a ∈ rs.map Recipient.address ∧ a ∉ set := by
  induction rs generalizing set with
  | nil => simp [splitDuplicates]
  | cons r rs ih =>
    obtain ⟨hnodup, hmem⟩ := ih (set.sadd r.address)
    simp only [List.map_cons, saddEach, splitDuplicates]
    by_cases hr : r.address ∈ set
    · -- a duplicate: it claims nothing
      simp only [hr, not_true_eq_false, decide_false, Bool.false_eq_true, if_false]
      refine ⟨hnodup, fun a => ?_⟩
      rw [hmem a, RSet.mem_sadd, List.mem_cons]
      constructor
      · rintro ⟨ha, hout⟩
        exact ⟨.inr ha, fun hset => hout (.inl hset)⟩
      · rintro ⟨rfl | ha, hout⟩
        · exact absurd hr hout
        · refine ⟨ha, fun h => h.elim hout ?_⟩
          rintro rfl
          exact hout hr
    · simp only [hr, not_false_eq_true, decide_true, if_true, List.map_cons]
      refine ⟨List.nodup_cons.mpr ⟨fun h => ?_, hnodup⟩, fun a => ?_⟩
      · exact ((hmem r.address).mp h).2 (RSet.mem_sadd.mpr (.inr rfl))
      · rw [List.mem_cons, hmem a, RSet.mem_sadd, List.mem_cons]
        constructor
        · rintro (rfl | ⟨ha, hout⟩)
          · exact ⟨.inl rfl, hr⟩
          · exact ⟨.inr ha, fun hset => hout (.inl hset)⟩
        · rintro ⟨rfl | ha, hout⟩
          · exact .inl rfl
          · by_cases har : a = r.address
            · exact .inl har
            · exact .inr ⟨ha, fun h => h.elim hout har⟩

/-! ## 2. The calls -/

/-- The creation of an airdrop, and calls of `addRecipients` for `id`. -/
def importCode {τ : Type} (data : CreateBody) (contract : Option String) (id : String)
    (lists : τ → List Recipient) : Option τ → Code Unit
  | none => do let _ ← create data contract; return ()
  | some i => do let _ ← addRecipients id (lists i); return ()

/-- A database and what each call has still to do. -/
abbrev Imports (τ : Type) := Pool sig (Except Err Unit) (Option τ) Store

/-- Every call is about to begin. -/
def startImports {τ : Type} (s : Store) (data : CreateBody) (contract : Option String)
    (id : String) (lists : τ → List Recipient) : Imports τ :=
  ⟨s, fun i => (importCode data contract id lists i).prog⟩

/-- No command fails, and addresses are only added for an airdrop that is there. -/
def Known (op : sig.Op) (x : Env) (s : Store) : Prop :=
  x.fault = .none ∧
    match op with
    | Op.saddAll id _ => (s.records id).isSome
    | _ => True

instance (op : sig.Op) (x : Env) (s : Store) : Decidable (Known op x s) := by
  cases op <;> unfold Known <;> infer_instance

/-- What a call is about to append to the list of `id`. -/
def owed (id : String) : Prog sig (Except Err Unit) → List String
  | .ret _ => []
  | .cmd op _ =>
    match (op : Op) with
    | .rpush i recipients => if i = id then recipients.map Recipient.address else []
    | _ => []

/-- Where the addresses of `id` are: in the list, or with a call that has claimed them. -/
def holds {τ : Type} (id : String) (c : Imports τ) : Option (Option τ) → List String
  | none => (c.store.recipients id).map Recipient.address
  | some i => owed id (c.prog i)

/-- What `create` does once it has drawn the id: it reads the clock, and inserts. -/
def Drafting (id : String) (list : List Recipient) : Prog sig (Except Err Unit) → Prop
  | .ret r => ∃ e, r = .error e
  | .cmd op k =>
    (op = Op.now ∧ ∀ r, Drafting id list (k r)) ∨
    ((∃ airdrop score, op = Op.insert airdrop score list ∧ airdrop.id = id) ∧
      ∀ r, ∃ a, k r = .ret a)

/-- `create` throws, or draws the id first. -/
theorem create_cases {τ : Type} (data : CreateBody) (contract : Option String) (id : String)
    (lists : τ → List Recipient) :
    (∃ e, (importCode data contract id lists none).prog = .ret (.error e)) ∨
    ∃ k, (importCode data contract id lists none).prog = .cmd Op.randomUUID k ∧
      ∀ uuid : String, Drafting ("drop_" ++ uuid) data.recipients (k (.ok uuid)) := by
  have hfail : ∀ {e : Err}, Drafting "" [] (.ret (.error e)) := fun {e} => ⟨e, rfl⟩
  by_cases hsum : (!data.recipients.isEmpty && !sumMatches data.total_amount data.recipients) = true
  · left
    simp only [importCode, create, hsum, if_true]
    exact ⟨_, rfl⟩
  · right
    simp only [importCode, create, hsum]
    refine ⟨_, rfl, fun uuid => ?_⟩
    refine .inl ⟨rfl, ?_⟩
    rintro (e | created_at)
    · exact ⟨e, rfl⟩
    refine .inl ⟨rfl, ?_⟩
    rintro (e | updated_at)
    · exact ⟨e, rfl⟩
    refine .inl ⟨rfl, ?_⟩
    rintro (e | score)
    · exact ⟨e, rfl⟩
    refine .inr ⟨⟨_, _, rfl, rfl⟩, ?_⟩
    rintro (e | _)
    · exact ⟨_, rfl⟩
    · exact ⟨_, rfl⟩

/-- `addRecipients` from the replies of `SADD` on. -/
def appendNew (id : String) (recipients : List Recipient) :
    Except Err (List Bool) → Prog sig (Except Err Unit)
  | .error e => .ret (.error e)
  | .ok counts =>
    match (splitDuplicates recipients counts).1 with
    | [] => .ret (.ok ())
    | r :: rs => .cmd (Op.rpush id (r :: rs)) fun
      | .ok _ => .ret (.ok ())
      | .error e => .ret (.error e)

/-- `addRecipients` claims its addresses, and appends the recipients whose addresses were new. -/
theorem add_eq {τ : Type} (data : CreateBody) (contract : Option String) (id : String)
    (lists : τ → List Recipient) (i : τ) :
    (importCode data contract id lists (some i)).prog =
      .cmd (Op.saddAll id ((lists i).map Recipient.address)) (appendNew id (lists i)) := by
  simp only [importCode, addRecipients]
  refine congrArg (Prog.cmd (S := sig) _) (funext ?_)
  rintro (e | counts)
  · rfl
  · change Prog.bind (S := sig) (if (!(splitDuplicates (lists i) counts).1.isEmpty) = true then
        (do redis (.rpush id (splitDuplicates (lists i) counts).1)
            return (splitDuplicates (lists i) counts).2 : Code (List String))
      else (return (splitDuplicates (lists i) counts).2 : Code (List String)))
      (ExceptT.bindCont fun _ => pure ()) = _
    rw [appendNew]
    cases hnew : (splitDuplicates (lists i) counts).1 with
    | nil => rfl
    | cons r rs =>
      refine congrArg (Prog.cmd (S := sig) _) (funext ?_)
      rintro (e | _) <;> rfl

/-! ## 3. One command -/

section Step

variable {τ : Type} [DecidableEq τ] {P : Platform} {data : CreateBody} {contract : Option String}
  {lists : τ → List Recipient} {drawn : ℕ} {id : String} {s s' : Store}

/-- How far the creation of the `drawn`-th id is. -/
inductive Creating (data : CreateBody) (code : Prog sig (Except Err Unit)) (drawn : ℕ)
    (id : String) (s : Store) : Prog sig (Except Err Unit) → Prop
  | waiting : s.uuidsDrawn = drawn → s.records id = none → Creating data code drawn id s code
  | drafting {t} : Drafting id data.recipients t → s.records id = none →
      Creating data code drawn id s t
  | done {r} : (r = .ok () → ∀ a ∈ data.recipients.map Recipient.address, a ∈ s.addresses id) →
      Creating data code drawn id s (.ret r)

/-- How far a call of `addRecipients` is: once it has claimed its addresses, they stay. -/
inductive Adding (recipients : List Recipient) (code : Prog sig (Except Err Unit)) (id : String)
    (s : Store) : Prog sig (Except Err Unit) → Prop
  | waiting : Adding recipients code id s code
  | pushing {new k} : (∀ a ∈ recipients.map Recipient.address, a ∈ s.addresses id) →
      (∀ r, ∃ a, k r = .ret a) → Adding recipients code id s (.cmd (Op.rpush id new) k)
  | done {r} : (∀ a ∈ recipients.map Recipient.address, a ∈ s.addresses id) →
      Adding recipients code id s (.ret r)

/-- The state of the calls between two commands. -/
structure Importing (data : CreateBody) (contract : Option String) (lists : τ → List Recipient)
    (drawn : ℕ) (id : String) (c : Imports τ) : Prop where
  placed : Placed (holds id c) (· ∈ c.store.addresses id)
  fresh : c.store.records id = none → ∀ a, a ∉ c.store.addresses id
  creator : Creating data (importCode data contract id lists none).prog drawn id c.store
    (c.prog none)
  adder : ∀ i, Adding (lists i) (importCode data contract id lists (some i)).prog id c.store
    (c.prog (some i))

theorem Adding.mono {recipients : List Recipient} {code t : Prog sig (Except Err Unit)}
    (h : Adding recipients code id s t) (hs : ∀ a ∈ s.addresses id, a ∈ s'.addresses id) :
    Adding recipients code id s' t := by
  cases h with
  | waiting => exact .waiting
  | pushing ha hk => exact .pushing (fun a hm => hs a (ha a hm)) hk
  | done ha => exact .done fun a hm => hs a (ha a hm)

theorem Creating.mono {code t : Prog sig (Except Err Unit)} (h : Creating data code drawn id s t)
    (hs : ∀ a ∈ s.addresses id, a ∈ s'.addresses id) (hdrawn : s'.uuidsDrawn = s.uuidsDrawn)
    (hrecords : s'.records = s.records) : Creating data code drawn id s' t := by
  cases h with
  | waiting hd hr => exact .waiting (hdrawn.trans hd) (by rwa [hrecords])
  | drafting ht hr => exact .drafting ht (by rwa [hrecords])
  | done ha => exact .done fun h a hm => hs a (ha h a hm)

@[simp] theorem owed_ret (id : String) (r : Except Err Unit) : owed id (.ret r) = [] := rfl

theorem owed_drafting {list : List Recipient} {t : Prog sig (Except Err Unit)}
    (h : Drafting id list t) : owed id t = [] := by
  cases t with
  | ret r => rfl
  | cmd op k =>
    rcases h with ⟨rfl, -⟩ | ⟨⟨airdrop, score, rfl, -⟩, -⟩
    · rfl
    · rfl

omit [DecidableEq τ] in
theorem owed_create (data : CreateBody) (contract : Option String) (id : String)
    (lists : τ → List Recipient) : owed id (importCode data contract id lists none).prog = [] := by
  rcases create_cases data contract id lists with ⟨e, he⟩ | ⟨k, hk, -⟩
  · rw [he]
    rfl
  · rw [hk]
    rfl

/-- A call issues its command, which does not fail. -/
theorem step_of_cmd {c : Imports τ} {i : Option τ} {x : Env} {op : Op}
    {k : sig.Rep op → Prog sig (Except Err Unit)} (hp : c.prog i = .cmd (S := sig) op k)
    (hx : x.fault = .none) :
    c.step (machine (Option τ) P) (i, x) =
      ⟨(c.store.exec P x.now op).2,
        Function.update c.prog i (k (.ok (c.store.exec P x.now op).1))⟩ := by
  have hexec : (machine (Option τ) P).exec i op x c.store =
      (.ok (c.store.exec P x.now op).1, (c.store.exec P x.now op).2) := by
    simp only [machine, hx]
    split <;> rfl
  simp only [Pool.step, hp, Prog.act, hexec]

/-- A step that owes nothing before or after, and touches neither list nor set. -/
theorem holds_of_same {c : Imports τ} {i : Option τ} {t : Prog sig (Except Err Unit)}
    (hr : s'.recipients id = c.store.recipients id) (hbefore : owed id (c.prog i) = [])
    (hafter : owed id t = []) :
    holds id (⟨s', Function.update c.prog i t⟩ : Imports τ) = holds id c := by
  funext p
  cases p with
  | none => simp only [holds, hr]
  | some j =>
    by_cases hj : j = i
    · subst hj
      simp only [holds, Function.update_self, hbefore, hafter]
    · simp only [holds, Function.update_of_ne hj]

/-- The creation has moved on. -/
theorem Importing.moved_creator {c : Imports τ} (h : Importing data contract lists drawn id c)
    {t : Prog sig (Except Err Unit)}
    (hplaced : Placed (holds id (⟨s', Function.update c.prog none t⟩ : Imports τ))
      (· ∈ s'.addresses id))
    (hfresh : s'.records id = none → ∀ a, a ∉ s'.addresses id)
    (hmono : ∀ a ∈ c.store.addresses id, a ∈ s'.addresses id)
    (ht : Creating data (importCode data contract id lists none).prog drawn id s' t) :
    Importing data contract lists drawn id ⟨s', Function.update c.prog none t⟩ where
  placed := hplaced
  fresh := hfresh
  creator := by simpa only [Function.update_self] using ht
  adder i := by
    simpa only [Function.update_of_ne (Option.some_ne_none i)] using (h.adder i).mono hmono

/-- A call of `addRecipients` has moved on. -/
theorem Importing.moved_adder {c : Imports τ} (h : Importing data contract lists drawn id c)
    {j : τ} {t : Prog sig (Except Err Unit)}
    (hplaced : Placed (holds id (⟨s', Function.update c.prog (some j) t⟩ : Imports τ))
      (· ∈ s'.addresses id))
    (hfresh : s'.records id = none → ∀ a, a ∉ s'.addresses id)
    (hmono : ∀ a ∈ c.store.addresses id, a ∈ s'.addresses id)
    (hdrawn : s'.uuidsDrawn = c.store.uuidsDrawn) (hrecords : s'.records = c.store.records)
    (ht : Adding (lists j) (importCode data contract id lists (some j)).prog id s' t) :
    Importing data contract lists drawn id ⟨s', Function.update c.prog (some j) t⟩ where
  placed := hplaced
  fresh := hfresh
  creator := by
    simpa only [Function.update_of_ne (Option.some_ne_none j).symm] using
      h.creator.mono hmono hdrawn hrecords
  adder i := by
    by_cases hi : i = j
    · subst hi
      simpa only [Function.update_self] using ht
    · have hne : (some i : Option τ) ≠ some j := fun he => hi (Option.some.inj he)
      simpa only [Function.update_of_ne hne] using (h.adder i).mono hmono

/-- The insertion of the airdrop: nothing was there before. -/
theorem Importing.insert {c : Imports τ} (h : Importing data contract lists drawn id c)
    (hnodup : (data.recipients.map Recipient.address).Nodup) (hnone : c.store.records id = none)
    (hbefore : owed id (c.prog none) = []) {airdrop : Airdrop} (hairdrop : airdrop.id = id)
    (score now : ℕ) (r : Except Err Unit) :
    Importing data contract lists drawn id
      ⟨(c.store.exec P now (.insert airdrop score data.recipients)).2,
        Function.update c.prog none (.ret r)⟩ := by
  have hfree := h.fresh hnone
  have hempty := h.placed.holds_eq_nil hfree
  have hclaim := h.placed.claim (hempty none) hnodup fun a _ => hfree a
  have hmem : ∀ a, a ∈ (c.store.exec P now (.insert airdrop score data.recipients)).2.addresses id ↔
      a ∈ c.store.addresses id ∨ a ∈ data.recipients.map Recipient.address := by
    intro a
    simp only [Store.exec, hairdrop, Function.update_self, mem_saddEach]
  have hholds : ∀ p, holds id (⟨(c.store.exec P now (.insert airdrop score data.recipients)).2,
      Function.update c.prog none (.ret r)⟩ : Imports τ) p =
      Function.update (holds id c) none (data.recipients.map Recipient.address) p := by
    intro p
    cases p with
    | none =>
      have hlist : (c.store.recipients id).map Recipient.address = [] := hempty none
      simp only [holds, Store.exec, hairdrop, Function.update_self, List.map_append, hlist,
        List.nil_append]
    | some j =>
      rw [Function.update_of_ne (Option.some_ne_none j)]
      have hsame : holds id (⟨c.store, Function.update c.prog none (.ret r)⟩ : Imports τ) =
          holds id c := holds_of_same rfl hbefore (owed_ret id r)
      exact congrFun hsame (some j)
  refine h.moved_creator (hclaim.congr hholds hmem) (fun hno => ?_)
    (fun a ha => (hmem a).mpr (.inl ha)) (.done fun _ a ha => (hmem a).mpr (.inr ha))
  simp [Store.exec, hairdrop] at hno

/-- **The creation of the airdrop moves on.** -/
theorem Importing.create {c : Imports τ} (h : Importing data contract lists drawn id c)
    (hnodup : (data.recipients.map Recipient.address).Nodup)
    (hid : id = "drop_" ++ P.randomUUID drawn) {x : Env}
    (hok : Pool.Issues (S := sig) Known c (none, x)) :
    Importing data contract lists drawn id (c.step (machine (Option τ) P) (none, x)) := by
  have hx : ∀ {op : Op} {k}, c.prog none = .cmd (S := sig) op k → x.fault = .none := by
    intro op k hp
    simp only [Pool.Issues, hp] at hok
    exact hok.1
  have hcreator := h.creator
  generalize hp : c.prog none = t at hcreator
  cases hcreator with
  | waiting hdrawn hnone =>
    rcases create_cases data contract id lists with ⟨e, he⟩ | ⟨k, hk, hdrafting⟩
    · rw [Pool.step_of_ret (hp.trans he)]
      exact h
    · rw [step_of_cmd (hp.trans hk) (hx (hp.trans hk))]
      have hdraft : Drafting id data.recipients (k (.ok (P.randomUUID c.store.uuidsDrawn))) := by
        rw [hid, ← hdrawn]
        exact hdrafting _
      have hbefore : owed id (c.prog none) = [] := by
        rw [hp]
        exact owed_create data contract id lists
      refine h.moved_creator ?_ h.fresh (fun _ ha => ha) (.drafting hdraft hnone)
      exact h.placed.congr (congrFun (holds_of_same rfl hbefore (owed_drafting hdraft))) fun _ => .rfl
  | drafting hdraft hnone =>
    cases t with
    | ret r =>
      rw [Pool.step_of_ret hp]
      exact h
    | cmd op k =>
      rw [step_of_cmd hp (hx hp)]
      have hbefore : owed id (c.prog none) = [] := by
        rw [hp]
        exact owed_drafting hdraft
      rcases hdraft with ⟨rfl, hnext⟩ | ⟨⟨airdrop, score, rfl, hairdrop⟩, hend⟩
      · refine h.moved_creator ?_ h.fresh (fun _ ha => ha) (.drafting (hnext _) hnone)
        exact h.placed.congr (congrFun (holds_of_same rfl hbefore (owed_drafting (hnext _))))
          fun _ => .rfl
      · obtain ⟨r, hr⟩ := hend (.ok ())
        have hins := h.insert (P := P) hnodup hnone hbefore hairdrop score x.now r
        rw [← hr] at hins
        exact hins
  | done _ =>
    rw [Pool.step_of_ret hp]
    exact h

/-- What `addRecipients` goes on with is what it owes. -/
theorem owed_appendNew (id : String) (recipients : List Recipient) (counts : List Bool) :
    owed id (appendNew id recipients (.ok counts)) =
      (splitDuplicates recipients counts).1.map Recipient.address := by
  rw [appendNew]
  split
  · rename_i hnew
    rw [hnew]
    rfl
  · rename_i hnew
    rw [hnew]
    simp [owed]

/-- A call that has claimed its addresses. -/
theorem adding_appendNew {recipients : List Recipient} {code : Prog sig (Except Err Unit)}
    (h : ∀ a ∈ recipients.map Recipient.address, a ∈ s.addresses id) (counts : List Bool) :
    Adding recipients code id s (appendNew id recipients (.ok counts)) := by
  rw [appendNew]
  split
  · exact .done h
  · refine .pushing h ?_
    rintro (e | _)
    · exact ⟨_, rfl⟩
    · exact ⟨_, rfl⟩

/-- The addresses of a call are claimed. -/
theorem Importing.claim {c : Imports τ} (h : Importing data contract lists drawn id c) {j : τ}
    (hbefore : owed id (c.prog (some j)) = []) (hrecord : (c.store.records id).isSome) (now : ℕ) :
    let addresses := (lists j).map Recipient.address
    Importing data contract lists drawn id
      ⟨(c.store.exec P now (.saddAll id addresses)).2, Function.update c.prog (some j)
        (appendNew id (lists j) (.ok (c.store.exec P now (.saddAll id addresses)).1))⟩ := by
  intro addresses
  obtain ⟨hnodup, hnew⟩ := splitDuplicates_new (lists j) (c.store.addresses id)
  have hclaim := h.placed.claim (p := some (some j)) hbefore hnodup fun a ha => ((hnew a).mp ha).2
  have hmem : ∀ a, a ∈ (c.store.exec P now (.saddAll id addresses)).2.addresses id ↔
      a ∈ c.store.addresses id ∨ a ∈ addresses := by
    intro a
    simp only [Store.exec, Function.update_self, mem_saddEach]
  refine h.moved_adder (hclaim.congr (fun p => ?_) fun a => ?_) (fun hno => ?_)
    (fun a ha => (hmem a).mpr (.inl ha)) rfl rfl
    (adding_appendNew (fun a ha => (hmem a).mpr (.inr ha)) _)
  · cases p with
    | none => exact (Function.update_of_ne (Option.some_ne_none (some j)).symm _ _).symm
    | some i =>
      by_cases hi : i = some j
      · subst hi
        simp only [holds, Function.update_self]
        exact owed_appendNew id (lists j) _
      · have hne : some i ≠ some (some j) := fun he => hi (Option.some.inj he)
        simp only [holds, Function.update_of_ne hi, Function.update_of_ne hne]
  · rw [hmem a, hnew a]
    by_cases ha : a ∈ c.store.addresses id
    · simp only [ha, true_or]
    · simp only [ha, false_or, not_false_eq_true, and_true, addresses]
  · rw [show (c.store.exec P now (.saddAll id addresses)).2.records = c.store.records from rfl] at hno
    simp [hno] at hrecord

/-- What a call has claimed is appended. -/
theorem Importing.push {c : Imports τ} (h : Importing data contract lists drawn id c) {j : τ}
    {new : List Recipient} (howed : owed id (c.prog (some j)) = new.map Recipient.address)
    (hmine : ∀ a ∈ (lists j).map Recipient.address, a ∈ c.store.addresses id) (now : ℕ)
    (r : Except Err Unit) :
    Importing data contract lists drawn id
      ⟨(c.store.exec P now (.rpush id new)).2, Function.update c.prog (some j) (.ret r)⟩ := by
  have hgive := h.placed.give (p := none) (q := some (some j)) (Option.some_ne_none _).symm
  refine h.moved_adder (hgive.congr (fun p => ?_) fun _ => .rfl) h.fresh (fun _ ha => ha) rfl rfl
    (.done hmine)
  cases p with
  | none =>
    simp only [holds, howed, Function.update_self, Store.exec, List.map_append]
  | some i =>
    rw [Function.update_of_ne (Option.some_ne_none i)]
    by_cases hi : i = some j
    · subst hi
      simp only [holds, Function.update_self, owed_ret]
    · have hne : some i ≠ some (some j) := fun he => hi (Option.some.inj he)
      simp only [holds, Function.update_of_ne hi, Function.update_of_ne hne]

/-- **A call of `addRecipients` moves on.** -/
theorem Importing.add {c : Imports τ} (h : Importing data contract lists drawn id c) {j : τ}
    {x : Env} (hok : Pool.Issues (S := sig) Known c (some j, x)) :
    Importing data contract lists drawn id (c.step (machine (Option τ) P) (some j, x)) := by
  have hadder := h.adder j
  generalize hp : c.prog (some j) = t at hadder
  cases hadder with
  | waiting =>
    have hp' := hp.trans (add_eq data contract id lists j)
    have hknown : x.fault = .none ∧ (c.store.records id).isSome := by
      simp only [Pool.Issues, hp'] at hok
      exact hok
    rw [step_of_cmd hp' hknown.1]
    exact h.claim (by rw [hp']; rfl) hknown.2 x.now
  | @pushing new k ha hk =>
    have hfault : x.fault = .none := by
      simp only [Pool.Issues, hp] at hok
      exact hok.1
    rw [step_of_cmd hp hfault]
    obtain ⟨r, hr⟩ := hk (.ok ())
    have howed : owed id (c.prog (some j)) = new.map Recipient.address := by
      rw [hp]
      simp [owed]
    have hpush := h.push (P := P) howed ha x.now r
    rw [← hr] at hpush
    exact hpush
  | done ha =>
    rw [Pool.step_of_ret hp]
    exact h

omit [DecidableEq τ] in
/-- Before the first command. -/
theorem importing_start (hrecord : s.records id = none) (hlist : s.recipients id = [])
    (hset : ∀ a, a ∉ s.addresses id) :
    Importing data contract lists s.uuidsDrawn id (startImports s data contract id lists) where
  placed := by
    refine ⟨Apart.empty fun p => ?_, fun a ha => absurd ha (hset a)⟩
    rcases p with _ | _ | i
    · simp [holds, startImports, hlist]
    · exact owed_create data contract id lists
    · simp only [holds, startImports, add_eq]
      rfl
  fresh _ := hset
  creator := .waiting rfl hrecord
  adder _ := .waiting

omit [DecidableEq τ] in
/-- A call of `addRecipients` that has returned has claimed its addresses. -/
theorem Importing.submitted {c : Imports τ} (h : Importing data contract lists drawn id c) {i : τ}
    {r : Except Err Unit} (hr : c.prog (some i) = .ret r) :
    ∀ a ∈ (lists i).map Recipient.address, a ∈ c.store.addresses id := by
  have hadder := h.adder i
  rw [hr, add_eq] at hadder
  cases hadder with
  | done ha => exact ha

omit [DecidableEq τ] in
/-- A creation that has returned has stored its list. -/
theorem Importing.created {c : Imports τ} (h : Importing data contract lists drawn id c)
    (hr : c.prog none = .ret (.ok ())) :
    ∀ a ∈ data.recipients.map Recipient.address, a ∈ c.store.addresses id := by
  have hcreator := h.creator
  rw [hr] at hcreator
  generalize hcode : (importCode data contract id lists none).prog = code at hcreator
  generalize ht : (Prog.ret (.ok ()) : Prog sig (Except Err Unit)) = t at hcreator
  cases hcreator with
  | waiting _ _ =>
    rcases create_cases data contract id lists with ⟨e, he⟩ | ⟨k, hk, -⟩
    · rw [hcode, ← ht] at he
      cases he
    · rw [hcode, ← ht] at hk
      cases hk
  | drafting hdraft _ =>
    rw [← ht] at hdraft
    obtain ⟨e, he⟩ := hdraft
    cases he
  | done ha => exact ha (Prog.ret.inj ht).symm

end Step

/-! ## 4. Every interleaving -/

/-- **No recipient twice.**  An airdrop is created with a list that names no address twice, and
any number of calls of `addRecipients` are made for it with any lists, their commands in any
order.  If no command fails and no call begins before the airdrop is there, its list never holds
an address twice; once all calls have returned, the addresses in the list are those in the set,
and every address that was submitted is among them. -/
theorem recipients_unique {τ : Type} [DecidableEq τ] (P : Platform) (s : Store)
    (data : CreateBody) (contract : Option String) (lists : τ → List Recipient) (id : String)
    (hid : id = "drop_" ++ P.randomUUID s.uuidsDrawn) (hrecord : s.records id = none)
    (hlist : s.recipients id = []) (hset : ∀ a, a ∉ s.addresses id)
    (hnodup : (data.recipients.map Recipient.address).Nodup) (ls : List (Option τ × Env))
    (hls : Along (Pool.step (machine (Option τ) P)) (Pool.Issues (S := sig) Known)
      (startImports s data contract id lists) ls) :
    let c := run (Pool.step (machine (Option τ) P)) (startImports s data contract id lists) ls
    ((c.store.recipients id).map Recipient.address).Nodup ∧
    ((∀ i, ∃ r, c.prog i = .ret r) →
      (∀ a, a ∈ (c.store.recipients id).map Recipient.address ↔ a ∈ c.store.addresses id) ∧
      (∀ i, ∀ r ∈ lists i, r.address ∈ c.store.addresses id) ∧
      (c.prog none = .ret (.ok ()) → ∀ r ∈ data.recipients, r.address ∈ c.store.addresses id)) := by
  intro c
  have h : Importing data contract lists s.uuidsDrawn id c := by
    refine run_inv (fun c l hc hok => ?_) (importing_start hrecord hlist hset) hls
    obtain ⟨i, x⟩ := l
    cases i with
    | none => exact hc.create hnodup hid hok
    | some j => exact hc.add hok
  refine ⟨h.placed.nodup none, fun hdone => ⟨fun a => ?_, fun i r hr => ?_, fun hok r hr => ?_⟩⟩
  · constructor
    · exact fun ha => h.placed.taken_of_mem none a ha
    · intro ha
      obtain ⟨p, hp⟩ := h.placed.exists_mem a ha
      cases p with
      | none => exact hp
      | some i =>
        obtain ⟨r, hr⟩ := hdone i
        simp [holds, hr] at hp
  · obtain ⟨result, hi⟩ := hdone (some i)
    exact h.submitted hi _ (List.mem_map_of_mem hr)
  · exact h.created hok _ (List.mem_map_of_mem hr)

/-- An airdrop for one recipient, which two calls add again, with others. -/
def sharedBody : CreateBody where
  name := "launch"
  description := none
  asset := "XLM"
  asset_issuer := "GI"
  total_amount := Double.ofNat 20 Double.nearest_twenty
  expiry_ledger := 100
  recipients := [⟨"GA", Double.ofNat 20 Double.nearest_twenty⟩]

def sharedLists : Bool → List Recipient
  | false => [⟨"GA", Double.ofNat 20 Double.nearest_twenty⟩,
      ⟨"GB", Double.ofNat 20 Double.nearest_twenty⟩, ⟨"GB", Double.ofNat 10 Double.nearest_ten⟩]
  | true => [⟨"GB", Double.ofNat 20 Double.nearest_twenty⟩]

/-- The airdrop is created, and the two calls take turns. -/
theorem recipients_unique_sample :
    let ls : List (Option Bool × Env) :=
      [none, none, none, none, none, some false, some true, some false].map fun i => (i, ⟨0, .none⟩)
    let c := run (Pool.step (machine (Option Bool) samplePlatform))
      (startImports .init sharedBody none "drop_" sharedLists) ls
    ((c.store.recipients "drop_").map Recipient.address).Nodup ∧
    ((∀ i, ∃ r, c.prog i = .ret r) →
      (∀ a, a ∈ (c.store.recipients "drop_").map Recipient.address ↔
        a ∈ c.store.addresses "drop_") ∧
      (∀ i, ∀ r ∈ sharedLists i, r.address ∈ c.store.addresses "drop_") ∧
      (c.prog none = .ret (.ok ()) →
        ∀ r ∈ sharedBody.recipients, r.address ∈ c.store.addresses "drop_")) :=
  recipients_unique samplePlatform .init sharedBody none sharedLists "drop_" rfl rfl rfl
    (fun a => RSet.not_mem_empty a) (by decide) _ (by decide +kernel)

/-- **A call for an id that is not there yet** appends the address, and `create` appends it once
more. -/
theorem recipients_repeated :
    let ls : List (Option Bool × Env) :=
      [some false, some false, none, none, none, none, none].map fun i => (i, ⟨0, .none⟩)
    ¬ (((run (Pool.step (machine (Option Bool) samplePlatform))
      (startImports .init sharedBody none "drop_" sharedLists) ls).store.recipients
        "drop_").map Recipient.address).Nodup := by
  decide +kernel

end SmartDrop.Airdrops
