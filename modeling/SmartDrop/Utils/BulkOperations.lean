/-
# Bulk operations

`services/bulkOperations.js`.  `processBatch` calls a handler for every item, so many at a time, and
reports "results for each item — successes and failures independently".  What a handler's promise rejects
with is caught for each item; what the handler itself throws, before there is a promise, is not, and neither
is a reason that no text can be made of.  Then nothing is reported at all (`processBatch_accounts_iff`).
-/
import Mathlib.Data.List.Basic
import Mathlib.Data.Nat.Notation

namespace SmartDrop.BulkOperations

/-! ## 1. A batch -/

variable {α β ρ ε : Type}

/-- What a call of the handler comes to: a value, a rejection, or an exception. -/
inductive Outcome (β ρ : Type) where
  | value (result : β)
  | reject (reason : ρ)
  | throws (reason : ρ)

/-- An entry of the report. -/
structure Entry (α β : Type) where
  index : ℕ
  item : α
  result : β
deriving DecidableEq

structure Report (α β ε : Type) where
  succeeded : List (Entry α β)
  failed : List (Entry α ε)

/-- `options`: how many calls are under way at once. -/
structure Options where
  concurrency : ℕ
  pos : 0 < concurrency

/-- What `processBatch` rejects with. -/
inductive Fault (ρ : Type) where
  | thrown (reason : ρ)
  | noText
deriving DecidableEq

variable (handler : α → ℕ → Outcome β ρ) (errorOf : ρ → Option ε)

/-- What `Promise.allSettled` gets of a call, unless the call throws. -/
def settle : Outcome β ρ → Except (Fault ρ) (Except ρ β)
  | .value result => .ok (.ok result)
  | .reject reason => .ok (.error reason)
  | .throws reason => .error (.thrown reason)

/-- `Promise.allSettled(batch.map((item, j) => handler(item, i + j)))`. -/
def callAll : List (α × ℕ) → Except (Fault ρ) (List (α × ℕ × (Except ρ β)))
  | [] => .ok []
  | (item, index) :: batch =>
    match settle (handler item index) with
    | .error fault => .error fault
    | .ok settled => (callAll batch).map ((item, index, settled) :: ·)

/-- The loop over the settled results; `errorOf` is `reason?.message ?? String(reason)`, which throws for
some values. -/
def record (report : Report α β ε) : List (α × ℕ × (Except ρ β)) → Except (Fault ρ) (Report α β ε)
  | [] => .ok report
  | (item, index, .ok result) :: results =>
    record { report with succeeded := report.succeeded ++ [⟨index, item, result⟩] } results
  | (item, index, .error reason) :: results =>
    match errorOf reason with
    | some error => record { report with failed := report.failed ++ [⟨index, item, error⟩] } results
    | none => .error .noText

/-- The loop of `processBatch`, from an index on. -/
def processFrom (options : Options) (items : List α) (i : ℕ) (report : Report α β ε) :
    Except (Fault ρ) (Report α β ε) :=
  if _h : i < items.length then do
    let batch := ((items.drop i).take options.concurrency).zipIdx i
    let results ← callAll handler batch
    let report ← record errorOf report results
    processFrom options items (i + options.concurrency) report
  else .ok report
termination_by items.length - i
decreasing_by
  have := options.pos
  omega

def processBatch (items : List α) (options : Options) : Except (Fault ρ) (Report α β ε) :=
  processFrom handler errorOf options items 0 ⟨[], []⟩

/-! ## 2. What is reported -/

/-- What becomes of an item can be reported. -/
def Reportable (p : α × ℕ) : Prop :=
  match handler p.1 p.2 with
  | .value _ => True
  | .reject reason => (errorOf reason).isSome = true
  | .throws _ => False

/-- The handler has failed for an item. -/
def Failed (p : α × ℕ) : Prop :=
  match handler p.1 p.2 with
  | .value _ => False
  | .reject _ | .throws _ => True

def succeededOf (batch : List (α × ℕ)) : List (Entry α β) :=
  batch.filterMap fun p =>
    match handler p.1 p.2 with
    | .value result => some ⟨p.2, p.1, result⟩
    | _ => none

def failedOf (batch : List (α × ℕ)) : List (Entry α ε) :=
  batch.filterMap fun p =>
    match handler p.1 p.2 with
    | .reject reason => (errorOf reason).map (⟨p.2, p.1, ·⟩)
    | _ => none

/-- The report once the items of a batch are added. -/
def Report.add (report : Report α β ε) (batch : List (α × ℕ)) : Report α β ε :=
  ⟨report.succeeded ++ succeededOf handler batch, report.failed ++ failedOf handler errorOf batch⟩

/-- The two parts of a turn of the loop. -/
def runBatch (report : Report α β ε) (batch : List (α × ℕ)) : Except (Fault ρ) (Report α β ε) := do
  record errorOf report (← callAll handler batch)

variable {handler errorOf}

variable {report : Report α β ε} {item : α} {index : ℕ} {batch : List (α × ℕ)}

theorem runBatch_value {result : β} (h : handler item index = .value result) :
    runBatch handler errorOf report ((item, index) :: batch) =
      runBatch handler errorOf { report with succeeded := report.succeeded ++ [⟨index, item, result⟩] }
        batch := by
  rw [runBatch, runBatch, callAll, h]
  cases callAll handler batch <;> rfl

theorem runBatch_reject {reason : ρ} {error : ε} (h : handler item index = .reject reason)
    (herror : errorOf reason = some error) :
    runBatch handler errorOf report ((item, index) :: batch) =
      runBatch handler errorOf { report with failed := report.failed ++ [⟨index, item, error⟩] }
        batch := by
  rw [runBatch, runBatch, callAll, h]
  cases callAll handler batch with
  | error => rfl
  | ok results =>
    change record errorOf report ((item, index, .error reason) :: results) = _
    rw [record, herror]
    rfl

theorem runBatch_unreportable (h : ¬ Reportable handler errorOf (item, index)) :
    ∃ fault, runBatch handler errorOf report ((item, index) :: batch) = .error fault := by
  rw [runBatch, callAll]
  cases houtcome : handler item index with
  | value => exact absurd (by rw [Reportable, houtcome]; trivial) h
  | throws reason => exact ⟨_, rfl⟩
  | reject reason =>
    cases callAll handler batch with
    | error fault => exact ⟨fault, rfl⟩
    | ok results =>
      have hnone : errorOf reason = none := by
        rw [Reportable, houtcome] at h
        exact Option.not_isSome_iff_eq_none.mp h
      refine ⟨.noText, ?_⟩
      change record errorOf report ((item, index, .error reason) :: results) = _
      rw [record, hnone]

theorem runBatch_ok (h : ∀ p ∈ batch, Reportable handler errorOf p) (report : Report α β ε) :
    runBatch handler errorOf report batch = .ok (report.add handler errorOf batch) := by
  induction batch generalizing report with
  | nil =>
    change Except.ok report = _
    rw [Report.add, succeededOf, failedOf, List.filterMap_nil, List.filterMap_nil, List.append_nil,
      List.append_nil]
  | cons p batch ih =>
    obtain ⟨item, index⟩ := p
    obtain ⟨hp, hbatch⟩ := List.forall_mem_cons.mp h
    rw [Reportable] at hp
    cases houtcome : handler item index with
    | value result =>
      rw [runBatch_value houtcome, ih hbatch]
      simp [Report.add, succeededOf, failedOf, houtcome]
    | reject reason =>
      rw [houtcome] at hp
      obtain ⟨error, herror⟩ := Option.isSome_iff_exists.mp hp
      rw [runBatch_reject houtcome herror, ih hbatch]
      simp [Report.add, succeededOf, failedOf, houtcome, herror]
    | throws =>
      rw [houtcome] at hp
      exact hp.elim

theorem runBatch_error (h : ¬ ∀ p ∈ batch, Reportable handler errorOf p) (report : Report α β ε) :
    ∃ fault, runBatch handler errorOf report batch = .error fault := by
  induction batch generalizing report with
  | nil => exact absurd (List.forall_mem_nil _) h
  | cons p batch ih =>
    obtain ⟨item, index⟩ := p
    by_cases hp : Reportable handler errorOf (item, index)
    · have hbatch : ¬ ∀ p ∈ batch, Reportable handler errorOf p := fun hall =>
        h (List.forall_mem_cons.mpr ⟨hp, hall⟩)
      cases houtcome : handler item index with
      | value result =>
        rw [runBatch_value houtcome]
        exact ih hbatch _
      | reject reason =>
        rw [Reportable, houtcome] at hp
        obtain ⟨error, herror⟩ := Option.isSome_iff_exists.mp hp
        rw [runBatch_reject houtcome herror]
        exact ih hbatch _
      | throws =>
        rw [Reportable, houtcome] at hp
        exact hp.elim
    · exact runBatch_unreportable hp

/-! ## 3. The loop -/

variable {options : Options} {items : List α} {i : ℕ}

theorem processFrom_next (hi : i < items.length) :
    processFrom handler errorOf options items i report =
      (runBatch handler errorOf report (((items.drop i).take options.concurrency).zipIdx i)).bind
        (processFrom handler errorOf options items (i + options.concurrency)) := by
  rw [processFrom, dif_pos hi, runBatch]
  exact (bind_assoc _ _ _).symm

/-- The items from an index on are those of this turn and the others. -/
theorem zipIdx_turn (items : List α) (i : ℕ) {concurrency : ℕ} :
    (items.drop i).zipIdx i =
      ((items.drop i).take concurrency).zipIdx i ++
        (items.drop (i + concurrency)).zipIdx (i + concurrency) := by
  conv_lhs => rw [← List.take_append_drop concurrency (items.drop i)]
  rw [List.zipIdx_append, List.drop_drop]
  by_cases hshort : (items.drop i).length ≤ concurrency
  · have hnone : items.drop (i + concurrency) = [] := by
      rw [List.drop_eq_nil_iff]
      rw [List.length_drop] at hshort
      omega
    rw [hnone, List.zipIdx_nil, List.zipIdx_nil]
  · rw [List.length_take, Nat.min_eq_left (Nat.le_of_not_le hshort), Nat.add_comm]

theorem add_append (report : Report α β ε) (batch others : List (α × ℕ)) :
    (report.add handler errorOf batch).add handler errorOf others =
      report.add handler errorOf (batch ++ others) := by
  simp [Report.add, succeededOf, failedOf, List.filterMap_append]

theorem processFrom_done (hi : ¬ i < items.length) :
    processFrom handler errorOf options items i report = .ok report := by
  rw [processFrom, dif_neg hi]

/-- If everything can be reported, everything is. -/
theorem processFrom_ok (h : ∀ p ∈ (items.drop i).zipIdx i, Reportable handler errorOf p) :
    processFrom handler errorOf options items i report =
      .ok (report.add handler errorOf ((items.drop i).zipIdx i)) := by
  induction hleft : items.length - i using Nat.strongRecOn generalizing i report with
  | ind left ih =>
    by_cases hi : i < items.length
    · rw [zipIdx_turn items i] at h
      obtain ⟨hturn, hothers⟩ := List.forall_mem_append.mp h
      have hpos := options.pos
      rw [processFrom_next hi, runBatch_ok hturn]
      change processFrom handler errorOf options items (i + options.concurrency) _ = _
      rw [ih (items.length - (i + options.concurrency)) (by omega) hothers rfl, add_append,
        ← zipIdx_turn]
    · have hnone : items.drop i = [] := List.drop_eq_nil_of_le (Nat.le_of_not_lt hi)
      rw [processFrom_done hi, hnone]
      simp [Report.add, succeededOf, failedOf]

/-- Otherwise nothing is. -/
theorem processFrom_error (h : ¬ ∀ p ∈ (items.drop i).zipIdx i, Reportable handler errorOf p) :
    ∃ fault, processFrom handler errorOf options items i report = .error fault := by
  induction hleft : items.length - i using Nat.strongRecOn generalizing i report with
  | ind left ih =>
    by_cases hi : i < items.length
    · rw [processFrom_next hi]
      by_cases hturn : ∀ p ∈ ((items.drop i).take options.concurrency).zipIdx i,
          Reportable handler errorOf p
      · have hothers : ¬ ∀ p ∈ (items.drop (i + options.concurrency)).zipIdx (i + options.concurrency),
            Reportable handler errorOf p := by
          intro hothers
          rw [zipIdx_turn items i] at h
          exact h (List.forall_mem_append.mpr ⟨hturn, hothers⟩)
        have hpos := options.pos
        rw [runBatch_ok hturn]
        exact ih (items.length - (i + options.concurrency)) (by omega) hothers rfl
      · obtain ⟨fault, hfault⟩ := runBatch_error hturn report
        exact ⟨fault, by rw [hfault]; rfl⟩
    · have hnone : items.drop i = [] := List.drop_eq_nil_of_le (Nat.le_of_not_lt hi)
      rw [hnone] at h
      exact absurd (List.forall_mem_nil _) h

/-! ## 4. Every item once -/

/-- The indexes that are reported, of items for which the handler has succeeded or failed. -/
def Report.indexes (report : Report α β ε) : List ℕ :=
  report.succeeded.map Entry.index ++ report.failed.map Entry.index

/-- Every index is reported once, and as failed exactly if the handler has failed. -/
structure Accounts (handler : α → ℕ → Outcome β ρ) (items : List α) (report : Report α β ε) : Prop where
  once : report.indexes.Perm (List.range items.length)
  failed : ∀ i item, items[i]? = some item →
    (i ∈ report.failed.map Entry.index ↔ Failed handler (item, i))

theorem indexes_add (h : ∀ p ∈ batch, Reportable handler errorOf p) :
    (Report.add handler errorOf ⟨[], []⟩ batch).indexes.Perm (batch.map Prod.snd) := by
  induction batch with
  | nil => exact List.Perm.refl []
  | cons p batch ih =>
    obtain ⟨item, index⟩ := p
    obtain ⟨hp, hbatch⟩ := List.forall_mem_cons.mp h
    have hrest := ih hbatch
    rw [Report.indexes, Report.add] at hrest ⊢
    rw [Reportable] at hp
    cases houtcome : handler item index with
    | value result =>
      simpa [succeededOf, failedOf, houtcome] using hrest
    | reject reason =>
      rw [houtcome] at hp
      obtain ⟨error, herror⟩ := Option.isSome_iff_exists.mp hp
      have hmiddle := List.perm_middle.trans (hrest.cons index)
      simpa [succeededOf, failedOf, houtcome, herror] using hmiddle
    | throws =>
      rw [houtcome] at hp
      exact hp.elim

theorem mem_failedOf (h : ∀ p ∈ batch, Reportable handler errorOf p) {i : ℕ} :
    i ∈ (failedOf handler errorOf batch).map Entry.index ↔
      ∃ p ∈ batch, p.2 = i ∧ Failed handler p := by
  rw [failedOf, List.mem_map]
  constructor
  · rintro ⟨entry, hentry, rfl⟩
    obtain ⟨p, hp, heq⟩ := List.mem_filterMap.mp hentry
    cases houtcome : handler p.1 p.2 with
    | value => simp [houtcome] at heq
    | throws => simp [houtcome] at heq
    | reject reason =>
      simp only [houtcome, Option.map_eq_some_iff] at heq
      obtain ⟨error, -, rfl⟩ := heq
      exact ⟨p, hp, rfl, by rw [Failed, houtcome]; trivial⟩
  · rintro ⟨p, hp, rfl, hfailed⟩
    have hreport := h p hp
    rw [Failed] at hfailed
    rw [Reportable] at hreport
    cases houtcome : handler p.1 p.2 with
    | value =>
      rw [houtcome] at hfailed
      exact hfailed.elim
    | throws =>
      rw [houtcome] at hreport
      exact hreport.elim
    | reject reason =>
      rw [houtcome] at hreport
      obtain ⟨error, herror⟩ := Option.isSome_iff_exists.mp hreport
      exact ⟨⟨p.2, p.1, error⟩, List.mem_filterMap.mpr ⟨p, hp, by simp [houtcome, herror]⟩, rfl⟩

/-- **Every item is accounted for** exactly if no call of the handler throws and every rejection has a
text. -/
theorem processBatch_accounts_iff (handler : α → ℕ → Outcome β ρ) (errorOf : ρ → Option ε)
    (items : List α) (options : Options) :
    (∃ report, processBatch handler errorOf items options = .ok report ∧
      Accounts handler items report) ↔
      ∀ i item, items[i]? = some item → Reportable handler errorOf (item, i) := by
  have hitems : (∀ i item, items[i]? = some item → Reportable handler errorOf (item, i)) ↔
      ∀ p ∈ (items.drop 0).zipIdx 0, Reportable handler errorOf p := by
    rw [List.drop_zero]
    constructor
    · intro h p hp
      exact h p.2 p.1 (List.mem_zipIdx_iff_getElem?.mp hp)
    · intro h i item hitem
      exact h (item, i) (List.mem_zipIdx_iff_getElem?.mpr hitem)
  rw [hitems, processBatch]
  constructor
  · rintro ⟨report, hreport, -⟩
    by_contra hnot
    have herror : ∃ fault, processFrom handler errorOf options items 0 ⟨[], []⟩ = .error fault :=
      processFrom_error hnot
    obtain ⟨fault, hfault⟩ := herror
    rw [hfault] at hreport
    cases hreport
  · intro h
    refine ⟨_, processFrom_ok h, ?_, fun i item hitem => ?_⟩
    · have hindexes := indexes_add h
      rw [List.drop_zero] at hindexes ⊢
      rwa [List.zipIdx_map_snd, ← List.range_eq_range'] at hindexes
    · change i ∈ (failedOf handler errorOf ((items.drop 0).zipIdx 0)).map Entry.index ↔ _
      rw [mem_failedOf h, List.drop_zero]
      constructor
      · rintro ⟨p, hp, rfl, hfailed⟩
        have hsame := (List.mem_zipIdx_iff_getElem?.mp hp).symm.trans hitem
        rwa [← Option.some.inj hsame]
      · exact fun hfailed => ⟨(item, i), List.mem_zipIdx_iff_getElem?.mpr hitem, rfl, hfailed⟩

/-- One handler throws before there is a promise, and the other item is not reported either. -/
theorem synchronous_throw :
    ¬ ∀ (handler : ℕ → ℕ → Outcome ℕ String) (items : List ℕ) (options : Options),
      ∃ report, processBatch handler some items options = .ok report ∧
        Accounts handler items report := by
  intro h
  obtain ⟨report, hreport, -⟩ := h (fun item _ => if item = 0 then .throws "bad" else .value item)
    [1, 0] ⟨5, Nat.succ_pos 4⟩
  have herror : ∃ fault, processBatch (fun item (_ : ℕ) =>
      if item = 0 then Outcome.throws "bad" else .value item) some [1, 0] ⟨5, Nat.succ_pos 4⟩ =
        .error fault :=
    processFrom_error fun hall => hall (0, 1) (by decide)
  obtain ⟨fault, hfault⟩ := herror
  rw [hfault] at hreport
  cases hreport

end SmartDrop.BulkOperations
