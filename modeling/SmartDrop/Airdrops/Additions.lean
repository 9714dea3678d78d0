/-
# All or nothing

`addRecipients` adds the addresses of a request to the set in one round trip, and appends the
recipients whose addresses were new in another.  It takes nothing back: neither when the first
round trip has shown some addresses to be duplicates, nor when the second one fails.  So the call
is all or nothing only where the first round trip has added nothing, or both have succeeded
without a duplicate (`addRecipients_allOrNothing_iff`).
-/
import SmartDrop.Airdrops.Recipients

namespace SmartDrop.Airdrops

open Binary64 Conc Redis

/-- The set of addresses is the set of the list's addresses. -/
def InStep (s : Store) (id : String) : Prop :=
  ∀ a, a ∈ s.addresses id ↔ a ∈ (s.recipients id).map Recipient.address

/-- A call that reports a duplicate or throws has changed nothing; another one has appended every
recipient, and left the set and the list in step. -/
def AllOrNothing (id : String) (recipients : List Recipient) (s : Store) :
    Except Err (List String) × Store → Prop
  | (.ok [], s') => s'.recipients id = s.recipients id ++ recipients ∧ InStep s' id
  | (_, s') => s'.recipients id = s.recipients id ∧ ∀ a, a ∈ s'.addresses id ↔ a ∈ s.addresses id

/-- No address of a request is new. -/
def Stale (s : Store) (id : String) (recipients : List Recipient) : Prop :=
  ∀ r ∈ recipients, r.address ∈ s.addresses id

/-- Every address of a request is new, and is there once. -/
def Fresh (s : Store) (id : String) (recipients : List Recipient) : Prop :=
  (recipients.map Recipient.address).Nodup ∧ ∀ r ∈ recipients, r.address ∉ s.addresses id

variable {τ : Type} (P : Platform) (i : τ) (id : String) (recipients : List Recipient)

/-- The call alone, the environment of its `n`-th round trip being `xs n`. -/
def runAdd (xs : ℕ → Env) (s : Store) : Except Err (List String) × Store :=
  (addRecipients id recipients).prog.runWith (machine τ P) i xs s

/-- The store once the addresses have been added. -/
def claimed (s : Store) : Store := { s with
  addresses := Function.update s.addresses id
    (saddEach (s.addresses id) (recipients.map Recipient.address)).1 }

/-- What the first round trip tells: the new recipients, and the duplicates. -/
def told (s : Store) : List Recipient × List String :=
  splitDuplicates recipients (saddEach (s.addresses id) (recipients.map Recipient.address)).2

variable {P i id recipients} {xs : ℕ → Env} {s : Store}

/-! ## 1. The round trips -/

/-- One round trip, and what follows if it succeeds. -/
theorem runWith_redis {α : Type} (op : Op) (f : op.Ret → Code α) (xs : ℕ → Env) (s : Store) :
    (redis op >>= f).prog.runWith (machine τ P) i xs s =
      match (machine τ P).exec i op (xs 0) s with
      | (.ok a, s') => (f a).prog.runWith (machine τ P) i (fun n => xs (n + 1)) s'
      | (.error e, s') => (.error e, s') := by
  rw [Throws.prog_bind]
  change (Throws.andThen f ((machine τ P).exec i op (xs 0) s).1).runWith _ i _
    ((machine τ P).exec i op (xs 0) s).2 = _
  rcases (machine τ P).exec i op (xs 0) s with ⟨e | a, s'⟩
  · rfl
  · rfl

theorem runAdd_before (h : (xs 0).fault = .before) :
    runAdd P i id recipients xs s = (.error "Redis command failed", s) := by
  rw [runAdd, addRecipients, runWith_redis]
  simp [machine, Op.isLocal, h]

theorem runAdd_after (h : (xs 0).fault = .after) :
    runAdd P i id recipients xs s = (.error "Redis command failed", claimed id recipients s) := by
  rw [runAdd, addRecipients, runWith_redis]
  simp [machine, Op.isLocal, h, Store.exec, claimed]

/-- When the first round trip succeeds and nothing was new, there is no second one. -/
theorem runAdd_stale (h : (xs 0).fault = .none) (hnew : (told id recipients s).1 = []) :
    runAdd P i id recipients xs s = (.ok (told id recipients s).2, claimed id recipients s) := by
  have hexec : (machine τ P).exec i (Op.saddAll id (recipients.map Recipient.address)) (xs 0) s =
      (.ok (saddEach (s.addresses id) (recipients.map Recipient.address)).2,
        claimed id recipients s) := by
    simp [machine, Op.isLocal, h, Store.exec, claimed]
  have htold : splitDuplicates recipients (saddEach (s.addresses id)
      (recipients.map Recipient.address)).2 = told id recipients s := rfl
  rw [runAdd, addRecipients, runWith_redis, hexec]
  simp only [htold, hnew]
  rfl

/-- When something was new, the second round trip comes next. -/
theorem runAdd_new (h : (xs 0).fault = .none) (hnew : (told id recipients s).1 ≠ []) :
    runAdd P i id recipients xs s =
      (redis (.rpush id (told id recipients s).1) >>= fun _ =>
        (return (told id recipients s).2 : Code _)).prog.runWith (machine τ P) i (fun n => xs (n + 1))
          (claimed id recipients s) := by
  have hexec : (machine τ P).exec i (Op.saddAll id (recipients.map Recipient.address)) (xs 0) s =
      (.ok (saddEach (s.addresses id) (recipients.map Recipient.address)).2,
        claimed id recipients s) := by
    simp [machine, Op.isLocal, h, Store.exec, claimed]
  have htold : splitDuplicates recipients (saddEach (s.addresses id)
      (recipients.map Recipient.address)).2 = told id recipients s := rfl
  have hsome : (!(told id recipients s).1.isEmpty) = true := by simpa using hnew
  rw [runAdd, addRecipients, runWith_redis, hexec]
  simp only [htold, hsome, if_true]
  rfl

/-- It appends what was new. -/
theorem runAdd_appends (h : (xs 0).fault = .none) (h1 : (xs 1).fault = .none)
    (hnew : (told id recipients s).1 ≠ []) :
    runAdd P i id recipients xs s = (.ok (told id recipients s).2, { claimed id recipients s with
      recipients := Function.update s.recipients id
        (s.recipients id ++ (told id recipients s).1) }) := by
  rw [runAdd_new h hnew, runWith_redis]
  simp [machine, Op.isLocal, h1, Store.exec, claimed]

/-- If it fails, the call throws, and the addresses stay. -/
theorem runAdd_throws (h : (xs 0).fault = .none) (h1 : (xs 1).fault ≠ .none)
    (hnew : (told id recipients s).1 ≠ []) :
    ∃ e s', runAdd P i id recipients xs s = (.error e, s') ∧
      s'.addresses = (claimed id recipients s).addresses := by
  rw [runAdd_new h hnew, runWith_redis]
  cases hx : (xs 1).fault with
  | none => exact absurd hx h1
  | before => exact ⟨"Redis command failed", claimed id recipients s, by
      simp [machine, Op.isLocal, hx], rfl⟩
  | after => exact ⟨"Redis command failed", { claimed id recipients s with
      recipients := Function.update s.recipients id
        (s.recipients id ++ (told id recipients s).1) }, by
      simp [machine, Op.isLocal, hx, Store.exec, claimed], rfl⟩

/-! ## 2. What they change -/

/-- The set is what it was when nothing was new. -/
theorem mem_claimed_iff : (∀ a, a ∈ (claimed id recipients s).addresses id ↔ a ∈ s.addresses id) ↔
    Stale s id recipients := by
  simp only [claimed, Function.update_self, mem_saddEach]
  constructor
  · intro h r hr
    exact (h r.address).mp (.inr (List.mem_map_of_mem hr))
  · intro h a
    constructor
    · rintro (ha | ha)
      · exact ha
      · obtain ⟨r, hr, rfl⟩ := List.mem_map.mp ha
        exact h r hr
    · exact .inl

theorem told_eq_nil : (told id recipients s).1 = [] ↔ Stale s id recipients := by
  obtain ⟨-, hmem⟩ := splitDuplicates_new recipients (s.addresses id)
  constructor
  · intro h r hr
    by_contra hout
    have := (hmem r.address).mpr ⟨List.mem_map_of_mem hr, hout⟩
    rw [told] at h
    rw [h] at this
    cases this
  · intro h
    rw [List.eq_nil_iff_forall_not_mem]
    intro r hr
    obtain ⟨hin, hout⟩ := (hmem r.address).mp (List.mem_map_of_mem hr)
    obtain ⟨q, hq, heq⟩ := List.mem_map.mp hin
    exact hout (heq ▸ h q hq)

/-- A request is fresh when no duplicate is reported of it, and then it is new as a whole. -/
theorem splitDuplicates_fresh (rs : List Recipient) (set : RSet String) :
    ((splitDuplicates rs (saddEach set (rs.map Recipient.address)).2).2 = [] ↔
      (rs.map Recipient.address).Nodup ∧ ∀ r ∈ rs, r.address ∉ set) ∧
    ((splitDuplicates rs (saddEach set (rs.map Recipient.address)).2).2 = [] →
      (splitDuplicates rs (saddEach set (rs.map Recipient.address)).2).1 = rs) := by
  induction rs generalizing set with
  | nil => simp [splitDuplicates]
  | cons r rs ih =>
    obtain ⟨hfresh, hall⟩ := ih (set.sadd r.address)
    simp only [List.map_cons, saddEach, splitDuplicates]
    by_cases hr : r.address ∈ set
    · simp [hr]
    · simp only [hr, not_false_eq_true, decide_true, if_true]
      refine ⟨hfresh.trans ?_, fun h => congrArg _ (hall h)⟩
      simp only [RSet.mem_sadd, not_or, List.nodup_cons, List.mem_map, not_exists, not_and,
        List.forall_mem_cons, hr, true_and, not_false_eq_true]
      constructor
      · rintro ⟨hnodup, hout⟩
        exact ⟨⟨fun q hq => (hout q hq).2, hnodup⟩, fun q hq => (hout q hq).1⟩
      · rintro ⟨⟨hne, hnodup⟩, hout⟩
        exact ⟨hnodup, fun q hq => ⟨hout q hq, hne q hq⟩⟩

theorem duplicates_eq_nil : (told id recipients s).2 = [] ↔ Fresh s id recipients :=
  (splitDuplicates_fresh recipients (s.addresses id)).1

theorem told_of_fresh (h : Fresh s id recipients) : (told id recipients s).1 = recipients :=
  (splitDuplicates_fresh recipients (s.addresses id)).2 (duplicates_eq_nil.mpr h)

/-! ## 3. All or nothing -/

/-- The environments and requests that leave nothing half done. -/
def Undivided (s : Store) (id : String) (recipients : List Recipient) (xs : ℕ → Env) : Prop :=
  Stale s id recipients ∨ (xs 0).fault = .before ∨
    (Fresh s id recipients ∧ (xs 0).fault = .none ∧ (xs 1).fault = .none)

/-- An outcome that is not a success has changed nothing only if nothing was new. -/
theorem stale_of_allOrNothing {outcome : Except Err (List String) × Store}
    (hset : outcome.2.addresses = (claimed id recipients s).addresses) (hfail : outcome.1 ≠ .ok [])
    (h : AllOrNothing id recipients s outcome) : Stale s id recipients := by
  obtain ⟨result, s'⟩ := outcome
  have hsame : ∀ a, a ∈ s'.addresses id ↔ a ∈ s.addresses id := by
    match result, hfail, h with
    | .error e, _, h => exact h.2
    | .ok [], hfail, _ => exact absurd rfl hfail
    | .ok (d :: ds), _, h => exact h.2
  rw [← mem_claimed_iff, ← hset]
  exact hsame

/-- **When adding recipients is all or nothing**: where nothing is new, where the first round trip
fails before Redis executes it, and where all is new and neither round trip fails. -/
theorem addRecipients_allOrNothing_iff (P : Platform) (i : τ) {id : String}
    {recipients : List Recipient} (xs : ℕ → Env) {s : Store} (hs : InStep s id) :
    AllOrNothing id recipients s (runAdd P i id recipients xs s) ↔
      Undivided s id recipients xs := by
  cases h0 : (xs 0).fault with
  | before =>
    rw [runAdd_before h0]
    exact iff_of_true ⟨rfl, fun _ => Iff.rfl⟩ (.inr (.inl h0))
  | after =>
    rw [runAdd_after h0, Undivided, h0]
    constructor
    · intro h
      exact .inl (stale_of_allOrNothing rfl (by simp) h)
    · rintro (h | h | ⟨-, h, -⟩)
      · exact ⟨rfl, mem_claimed_iff.mpr h⟩
      · cases h
      · cases h
  | none =>
    by_cases hnew : (told id recipients s).1 = []
    · have hstale := told_eq_nil.mp hnew
      rw [runAdd_stale h0 hnew]
      refine iff_of_true ?_ (.inl hstale)
      match hdup : (told id recipients s).2 with
      | [] =>
        -- nothing new and no duplicate: the request is empty
        have hempty : recipients = [] := by
          rw [← told_of_fresh (duplicates_eq_nil.mp hdup), hnew]
        subst hempty
        refine ⟨(List.append_nil _).symm, fun a => ?_⟩
        rw [mem_claimed_iff.mpr hstale a]
        exact hs a
      | d :: ds => exact ⟨rfl, mem_claimed_iff.mpr hstale⟩
    · have hnot : ¬ Stale s id recipients := fun h => hnew (told_eq_nil.mpr h)
      by_cases h1 : (xs 1).fault = .none
      · rw [runAdd_appends h0 h1 hnew]
        by_cases hfresh : Fresh s id recipients
        · rw [told_of_fresh hfresh, duplicates_eq_nil.mpr hfresh]
          refine iff_of_true ⟨?_, fun a => ?_⟩ (.inr (.inr ⟨hfresh, h0, h1⟩))
          · simp
          · simp only [claimed, Function.update_self, mem_saddEach, List.map_append,
              List.mem_append, hs a]
        · refine iff_of_false (fun h => hnot (stale_of_allOrNothing rfl ?_ h)) ?_
          · intro hok
            exact hfresh (duplicates_eq_nil.mp (Except.ok.inj hok))
          · rintro (h | h | ⟨h, -⟩)
            · exact hnot h
            · rw [h0] at h
              cases h
            · exact hfresh h
      · obtain ⟨e, s', hrun, hset⟩ : ∃ e s', runAdd P i id recipients xs s = (.error e, s') ∧
            s'.addresses = (claimed id recipients s).addresses := runAdd_throws h0 h1 hnew
        rw [hrun]
        refine iff_of_false (fun h => hnot (stale_of_allOrNothing hset (by simp) h)) ?_
        rintro (h | h | ⟨-, -, h⟩)
        · exact hnot h
        · rw [h0] at h
          cases h
        · exact h1 h

/-- An airdrop with one recipient. -/
def oneStored : Store := { Store.init with
  recipients := fun _ => [⟨"GA", Double.ofNat 20 Double.nearest_twenty⟩]
  addresses := fun _ => RSet.empty.sadd "GA" }

theorem inStep_oneStored : InStep oneStored "drop_" := by
  intro a
  simp [oneStored]

/-- Two recipients more, the first of whom may be there already. -/
def request (first : String) : List Recipient :=
  [⟨first, Double.ofNat 20 Double.nearest_twenty⟩, ⟨"GC", Double.ofNat 10 Double.nearest_ten⟩]

theorem addRecipients_allOrNothing_iff_sample :
    AllOrNothing "drop_" (request "GB") oneStored
      (runAdd samplePlatform () "drop_" (request "GB") (fun _ => ⟨0, .none⟩) oneStored) ↔
      Undivided oneStored "drop_" (request "GB") fun _ => ⟨0, .none⟩ :=
  addRecipients_allOrNothing_iff samplePlatform () (fun _ => ⟨0, .none⟩) inStep_oneStored

/-- **A duplicate is reported, and the other recipient stored.** -/
theorem reported_and_stored :
    InStep oneStored "drop_" ∧
    (runAdd samplePlatform () "drop_" (request "GA") (fun _ => ⟨0, .none⟩) oneStored).1 =
      .ok ["GA"] ∧
    ¬ AllOrNothing "drop_" (request "GA") oneStored
      (runAdd samplePlatform () "drop_" (request "GA") (fun _ => ⟨0, .none⟩) oneStored) := by
  refine ⟨inStep_oneStored, by decide +kernel, ?_⟩
  have hrecipients : ((runAdd samplePlatform () "drop_" (request "GA") (fun _ => ⟨0, .none⟩)
      oneStored).2.recipients "drop_").length = 2 := by decide +kernel
  have hresult : (runAdd samplePlatform () "drop_" (request "GA") (fun _ => ⟨0, .none⟩)
      oneStored).1 = .ok ["GA"] := by decide +kernel
  generalize runAdd samplePlatform () "drop_" (request "GA") (fun _ => ⟨0, .none⟩) oneStored =
    outcome at hrecipients hresult
  obtain ⟨result, s'⟩ := outcome
  obtain rfl : result = .ok ["GA"] := hresult
  rintro ⟨hsame, -⟩
  rw [hsame] at hrecipients
  cases hrecipients

end SmartDrop.Airdrops
