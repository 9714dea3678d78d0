/-
# How many handlers run

`_processNext` compares `activeJobs` with the concurrency before it awaits the next job, and counts
the job only when it has it: polls that pass the check while another one is waiting are not counted
against each other.  The bound holds as long as every poll that passes also has room beside those
that are waiting (`HasRoom`), and `too_many` is the run in which two polls pass for one place.

How often a job has been tried travels in its text.  A record beside the system counts the handlers
that were started for each job: `budget` is what its texts and threads still allow, and together they
never exceed `MAX_RETRIES` for each time it was enqueued.
-/
import SmartDrop.Jobs.JobQueue

namespace SmartDrop.Jobs.Bounds

open Conc

/-! ## 1. The record -/

/-- The job whose handler a step starts. -/
def started? (s : System) : Label → Option Job
  | .claim n true =>
    match s.threads[n]? with
    | some ⟨server, .claiming⟩ =>
      (s.queue.getLast?.bind Job.parse).filter fun job => job.type ∈ (s.servers server).handlers
    | _ => none
  | _ => none

/-- The job that a step enqueues. -/
def enqueued? : Label → Option Job
  | .enqueue id type data enqueuedAt => some ⟨id, type, data, 0, MAX_RETRIES, enqueuedAt⟩
  | _ => none

/-- The system, how often the handler of each job was started, and how often it was enqueued. -/
structure Counted where
  system : System
  started : String → ℕ
  enqueued : String → ℕ

/-- At the beginning. -/
def Counted.init : Counted := ⟨.init, fun _ => 0, fun _ => 0⟩

/-- `1` for the key of the job, if there is one. -/
def tally (key : String) : Option Job → ℕ
  | none => 0
  | some job => System.one key job

/-- One step. -/
def step (c : Counted) (l : Label) : Counted where
  system := c.system.step l
  started key := c.started key + tally key (started? c.system l)
  enqueued key := c.enqueued key + tally key (enqueued? l)

/-! ## 2. The bounds -/

/-- `1` for a thread whose handler is running on the server. -/
def runs (server : ℕ) (t : Thread) : ℕ :=
  match t.work with
  | .executing .. => if t.server = server then 1 else 0
  | _ => 0

/-- `1` for a poll of the server that has passed the check and has no job yet. -/
def claims (server : ℕ) (t : Thread) : ℕ :=
  match t.work with
  | .claiming => if t.server = server then 1 else 0
  | _ => 0

/-- How many handlers are running on a server. -/
def executing (s : System) (server : ℕ) : ℕ := (s.threads.map (runs server)).sum

/-- How many polls of a server are waiting for a job. -/
def claiming (s : System) (server : ℕ) : ℕ := (s.threads.map (claims server)).sum

/-- No server runs more handlers than its concurrency, and the handler of no job was started more than
`MAX_RETRIES` times for each time it was enqueued. -/
structure Bounded (c : Counted) : Prop where
  concurrency : ∀ server, executing c.system server ≤ (c.system.servers server).concurrency
  retries : ∀ key, c.started key ≤ MAX_RETRIES * c.enqueued key

/-- A poll that passes the check has room beside the polls that are waiting, and a server is started
with room for what it is still at. -/
def HasRoom (s : System) : Label → Prop
  | .poll server =>
    (s.servers server).running = true →
      (s.servers server).activeJobs < (s.servers server).concurrency →
      (s.servers server).activeJobs + claiming s server < (s.servers server).concurrency
  | .start server concurrency =>
    (s.servers server).running = false →
      (s.servers server).activeJobs + claiming s server ≤ concurrency
  | _ => True

/-! ## 3. Concurrency -/

/-- The jobs of a server are counted, and they and the polls that are waiting have room. -/
structure Roomy (s : System) : Prop where
  active : ∀ server, (s.servers server).activeJobs = executing s server
  room : ∀ server, executing s server + claiming s server ≤ (s.servers server).concurrency

section Concurrency

variable {s : System} {n server : ℕ} {t : Thread}

theorem roomy_init : Roomy .init where
  active _ := rfl
  room _ := Nat.zero_le _

/-- A thread goes on: its server counts the handlers, and no place is taken that it had not. -/
theorem Roomy.exchange (h : Roomy s) {s' : System} (hthreads : s'.threads = s.threads)
    (ht : s.threads[n]? = some t) {t' : Option Thread}
    (hactive : ∀ i, (s'.servers i).activeJobs + runs i t =
      (s.servers i).activeJobs + (t'.toList.map (runs i)).sum)
    (hconc : ∀ i, (s'.servers i).concurrency = (s.servers i).concurrency)
    (hplaces : ∀ i, (t'.toList.map (runs i)).sum + (t'.toList.map (claims i)).sum ≤
      runs i t + claims i t) : Roomy (s'.goOn n t') := by
  have hruns : ∀ i, executing (s'.goOn n t') i + runs i t =
      executing s i + (t'.toList.map (runs i)).sum := by
    intro i
    have hsum := System.sum_goOn (runs i) (s := s') (hthreads ▸ ht) t'
    rwa [hthreads] at hsum
  have hclaims : ∀ i, claiming (s'.goOn n t') i + claims i t =
      claiming s i + (t'.toList.map (claims i)).sum := by
    intro i
    have hsum := System.sum_goOn (claims i) (s := s') (hthreads ▸ ht) t'
    rwa [hthreads] at hsum
  have hservers : (s'.goOn n t').servers = s'.servers := rfl
  refine ⟨fun i => ?_, fun i => ?_⟩
  · have := h.active i
    have := hactive i
    have := hruns i
    rw [hservers]
    omega
  · have := h.room i
    have := hplaces i
    have := hruns i
    have := hclaims i
    rw [hservers, hconc]
    omega

/-- A thread goes on that runs no handler, and becomes one that neither does nor waits for a job. -/
theorem Roomy.idle (h : Roomy s) {s' : System} (hthreads : s'.threads = s.threads)
    (hservers : s'.servers = s.servers) (ht : s.threads[n]? = some t) (hruns : ∀ i, runs i t = 0)
    {t' : Option Thread} (hnext : ∀ i, (t'.toList.map (runs i)).sum = 0)
    (hclaims : ∀ i, (t'.toList.map (claims i)).sum = 0) : Roomy (s'.goOn n t') := by
  refine h.exchange hthreads ht (fun i => ?_) (fun i => ?_) fun i => ?_
  · rw [hservers, hruns, hnext]
  · rw [hservers]
  · rw [hnext, hclaims]
    exact Nat.zero_le _

/-- A server is changed that keeps its jobs and its concurrency. -/
theorem Roomy.update (h : Roomy s) (server : ℕ) {f : JobQueue → JobQueue}
    (hactive : ∀ q, (f q).activeJobs = q.activeJobs) (hconc : ∀ q, (f q).concurrency = q.concurrency) :
    Roomy (s.update server f) := by
  refine ⟨fun i => ?_, fun i => ?_⟩
  · simp only [System.update]
    split
    · rw [hactive]
      exact h.active i
    · exact h.active i
  · simp only [System.update]
    split
    · rw [hconc]
      exact h.room i
    · exact h.room i

theorem Roomy.start (h : Roomy s) {concurrency : ℕ} (hroom : HasRoom s (.start server concurrency)) :
    Roomy (s.start server concurrency) := by
  refine ⟨fun i => ?_, fun i => ?_⟩
  · simp only [System.start, System.update]
    split
    · split <;> exact h.active i
    · exact h.active i
  · simp only [System.start, System.update]
    split
    · rename_i hi
      subst hi
      split
      · exact h.room i
      · rename_i hstopped
        have hle := hroom (by simpa using hstopped)
        rw [h.active i] at hle
        exact hle
    · exact h.room i

theorem Roomy.poll (h : Roomy s) (hroom : HasRoom s (.poll server)) : Roomy (s.poll server) := by
  unfold System.poll
  dsimp only
  split
  · exact h
  · rename_i hpass
    simp only [Bool.or_eq_true, Bool.not_eq_true', decide_eq_true_eq, not_or, Bool.not_eq_false,
      Nat.not_le] at hpass
    have hlt := hroom hpass.1 hpass.2
    refine ⟨fun i => ?_, fun i => ?_⟩
    · have := h.active i
      simpa [executing, runs] using this
    · have hle := h.room i
      have hactive := h.active server
      simp only [executing, claiming, List.map_append, List.sum_append, List.map_singleton,
        List.sum_singleton] at hle hactive hlt ⊢
      simp only [runs, claims]
      split
      · rename_i hi
        subst hi
        omega
      · omega

theorem Roomy.claim (h : Roomy s) (ht : s.threads[n]? = some ⟨server, .claiming⟩) :
    Roomy (s.claim n server) := by
  unfold System.claim
  split
  · exact h.idle rfl rfl ht (fun _ => rfl) (fun _ => by rfl) fun _ => by rfl
  · rename_i raw hraw
    dsimp only
    split
    · refine h.idle (by rfl) (by rfl) ht (fun _ => rfl) (fun _ => ?_) fun _ => ?_ <;> rfl
    · rename_i job hparse
      split
      · -- the poll becomes a running handler, and is counted
        refine h.exchange (by rfl) ht (fun i => ?_) (fun i => ?_) fun i => ?_
        · simp only [System.update, runs, Option.toList_some, List.map_singleton, List.sum_singleton,
            eq_comm (a := i)]
          split <;> rfl
        · simp only [System.update]
          split <;> rfl
        · simp [runs, claims]
      · refine h.idle (by rfl) (by rfl) ht (fun _ => rfl) (fun _ => ?_) fun _ => ?_ <;> rfl

theorem Roomy.settle (h : Roomy s) {raw : String} {job : Job}
    (ht : s.threads[n]? = some ⟨server, .executing raw job⟩) (ok : Bool) :
    Roomy (s.settle n server raw job ok) := by
  have hpos : 0 < (s.servers server).activeJobs := by
    rw [h.active, executing]
    have hmem : runs server ⟨server, .executing raw job⟩ ∈ s.threads.map (runs server) :=
      List.mem_map_of_mem (List.mem_of_getElem? ht)
    have hle := List.le_sum_of_mem hmem
    simp only [runs, if_true] at hle
    exact hle
  -- the handler is no longer counted, whatever becomes of the job
  have hgone : ∀ (s' : System) (t' : Option Thread), s'.threads = s.threads →
      s'.servers = (s.update server fun q => { q with activeJobs := q.activeJobs - 1 }).servers →
      (∀ i, (t'.toList.map (runs i)).sum = 0) → (∀ i, (t'.toList.map (claims i)).sum = 0) →
      Roomy (s'.goOn n t') := by
    intro s' t' hthreads hservers hruns hclaims
    refine h.exchange hthreads ht (fun i => ?_) (fun i => ?_) fun i => ?_
    · rw [hservers, hruns]
      simp only [System.update, runs, eq_comm (a := i)]
      split
      · rename_i hi
        subst hi
        exact Nat.sub_add_cancel hpos
      · rfl
    · rw [hservers]
      simp only [System.update]
      split <;> rfl
    · rw [hruns, hclaims]
      exact Nat.zero_le _
  unfold System.settle
  dsimp only
  split
  · exact hgone _ _ rfl rfl (fun _ => rfl) fun _ => rfl
  · split
    · exact hgone _ _ rfl rfl (fun _ => rfl) fun _ => rfl
    · exact hgone _ _ rfl rfl (fun _ => rfl) fun _ => rfl

theorem Roomy.crash (h : Roomy s) (server : ℕ) : Roomy (s.step (.crash server)) := by
  have hgone : ∀ (f : ℕ → Thread → ℕ), (∀ i t, t.server ≠ i → f i t = 0) → ∀ i,
      ((s.threads.filter fun t => t.server ≠ server).map (f i)).sum =
        if i = server then 0 else (s.threads.map (f i)).sum := by
    intro f hf i
    generalize s.threads = ts
    induction ts with
    | nil => simp
    | cons t ts ih =>
      by_cases ht : t.server = server
      · rw [List.filter_cons_of_neg (by simp [ht]), ih]
        split
        · rfl
        · rename_i hi
          simp [hf i t (by rw [ht]; exact Ne.symm hi)]
      · rw [List.filter_cons_of_pos (by simp [ht]), List.map_cons, List.sum_cons, ih]
        split
        · rename_i hi
          simp [hf i t (by rw [hi]; exact ht)]
        · simp
  have hruns : ∀ i t, t.server ≠ i → runs i t = 0 := by
    intro i t hne
    unfold runs
    split <;> simp [hne]
  have hclaims : ∀ i t, t.server ≠ i → claims i t = 0 := by
    intro i t hne
    unfold claims
    split <;> simp [hne]
  refine ⟨fun i => ?_, fun i => ?_⟩
  · simp only [System.step, executing, hgone runs hruns]
    split
    · rfl
    · exact h.active i
  · simp only [System.step, executing, claiming, hgone runs hruns, hgone claims hclaims]
    split
    · exact Nat.zero_le _
    · exact h.room i

/-- **One step** with room. -/
theorem Roomy.step (h : Roomy s) {l : Label} (hl : HasRoom s l) : Roomy (s.step l) := by
  cases l with
  | register server type =>
    exact h.update server (f := fun q => { q with handlers := type :: q.handlers }) (fun _ => rfl)
      fun _ => rfl
  | start server concurrency => exact h.start hl
  | stop server =>
    exact h.update server (f := fun q => { q with running := false }) (fun _ => rfl) fun _ => rfl
  | enqueue id type data enqueuedAt => exact ⟨h.active, h.room⟩
  | poll server => exact h.poll hl
  | claim n ok =>
    simp only [System.step]
    split
    · rename_i server ht
      split
      · exact h.claim ht
      · exact h.idle rfl rfl ht (fun _ => rfl) (fun _ => by rfl) fun _ => by rfl
    · exact h
  | settle n ok =>
    simp only [System.step]
    split
    · rename_i server raw job ht
      exact h.settle ht ok
    · exact h
  | lrem n ok =>
    have hlrem : ∀ raw, (s.lrem raw ok).threads = s.threads ∧ (s.lrem raw ok).servers = s.servers := by
      intro raw
      unfold System.lrem
      split <;> exact ⟨rfl, rfl⟩
    simp only [System.step]
    split
    · rename_i server raw ht
      exact h.idle (hlrem raw).1 (hlrem raw).2 ht (fun _ => rfl) (fun _ => by rfl) fun _ => by rfl
    · rename_i server raw job fate ht
      refine h.idle (hlrem raw).1 (hlrem raw).2 ht (fun _ => rfl) ?_ ?_
      · intro i
        cases fate <;> rfl
      · intro i
        cases fate <;> rfl
    · exact h
  | fire n ok =>
    have hpush : ∀ job, (s.push job ok).threads = s.threads ∧ (s.push job ok).servers = s.servers := by
      intro job
      unfold System.push
      split <;> exact ⟨rfl, rfl⟩
    simp only [System.step]
    split
    · rename_i server raw job ht
      exact h.idle (hpush job).1 (hpush job).2 ht (fun _ => rfl) (fun _ => by rfl) fun _ => by rfl
    · rename_i server job ht
      exact h.idle (hpush job).1 (hpush job).2 ht (fun _ => rfl) (fun _ => by rfl) fun _ => by rfl
    · exact h
  | crash server => exact h.crash server

end Concurrency

/-! ## 4. Retries -/

/-- How often the handler of a job may still be started. -/
def left (key : String) (job : Job) : ℕ := if job.key = key then job.maxRetries - job.attempts else 0

/-- What a text allows. -/
def textLeft (key raw : String) : ℕ := ((Job.parse raw).map (left key)).getD 0

/-- What a thread allows: a running handler counts as the attempt that it is. -/
def threadLeft (key : String) (t : Thread) : ℕ :=
  match t.work with
  | .executing _ job => left key { job with attempts := job.attempts + 1 }
  | .finishing _ job .retrying | .waiting job => left key job
  | _ => 0

/-- What the queue and the threads allow. -/
def budget (s : System) (key : String) : ℕ :=
  (s.queue.map (textLeft key)).sum + (s.threads.map (threadLeft key)).sum

/-- The job may be tried once more. -/
def Untried (job : Job) : Prop := job.attempts < job.maxRetries

/-- So may the job that a thread will push. -/
def Retries (t : Thread) : Prop :=
  match t.work with
  | .finishing _ job .retrying | .waiting job => Untried job
  | _ => True

/-- What holds in every state. -/
structure Budgeted (c : Counted) : Prop where
  queue : ∀ raw ∈ c.system.queue, ∀ job ∈ Job.parse raw, Untried job
  threads : ∀ t ∈ c.system.threads, Retries t
  budget : ∀ key, c.started key + budget c.system key ≤ MAX_RETRIES * c.enqueued key

section Retries

variable {c : Counted} {key : String} {n server : ℕ}

@[simp] theorem textLeft_text (job : Job) : textLeft key job.text = left key job := by
  rw [textLeft, Job.parse_text]
  rfl

/-- A job that may be tried has that attempt left, and what it has left after it. -/
theorem left_untried {job : Job} (h : Untried job) :
    System.one key job + left key { job with attempts := job.attempts + 1 } = left key job := by
  unfold Untried at h
  simp only [System.one, left, Job.key_attempts]
  split <;> omega

theorem budgeted_init : Budgeted .init where
  queue := fun _ hraw => absurd hraw List.not_mem_nil
  threads := fun _ ht => absurd ht List.not_mem_nil
  budget _ := Nat.le_refl _

/-- A thread goes on, what is enqueued stays, and a handler is started only where it was left. -/
theorem Budgeted.exchange (h : Budgeted c) {s' : System} (hthreads : s'.threads = c.system.threads)
    {t : Thread} (ht : c.system.threads[n]? = some t) {t' : Option Thread} {started : String → ℕ}
    (hqueue : ∀ raw ∈ s'.queue, raw ∈ c.system.queue ∨ ∃ job, Untried job ∧ raw = job.text)
    (hretries : ∀ u ∈ t', Retries u)
    (hleft : ∀ key, started key + (s'.queue.map (textLeft key)).sum +
        (t'.toList.map (threadLeft key)).sum ≤
      c.started key + (c.system.queue.map (textLeft key)).sum + threadLeft key t) :
    Budgeted ⟨s'.goOn n t', started, c.enqueued⟩ where
  queue raw hraw job hjob := by
    rcases hqueue raw hraw with hold | ⟨job', huntried, rfl⟩
    · exact h.queue raw hold job hjob
    · rw [Job.parse_text, Option.mem_some] at hjob
      exact hjob ▸ huntried
  threads u hu := by
    rcases List.mem_append.mp hu with hu | hu
    · exact h.threads u (hthreads ▸ List.mem_of_mem_eraseIdx hu)
    · exact hretries u (Option.mem_toList.mp hu)
  budget key := by
    have hold := h.budget key
    have hnew := hleft key
    have hsum := System.sum_goOn (s := s') (threadLeft key) (hthreads ▸ ht) t'
    rw [hthreads] at hsum
    simp only [Bounds.budget, System.goOn] at hold hsum ⊢
    omega

/-- A thread goes on that has nothing left of its own, and the queue stays. -/
theorem Budgeted.idle (h : Budgeted c) {s' : System} (hthreads : s'.threads = c.system.threads)
    (hqueue : s'.queue = c.system.queue) {t : Thread} (ht : c.system.threads[n]? = some t)
    {t' : Option Thread} (hretries : ∀ u ∈ t', Retries u)
    (hleft : ∀ key, (t'.toList.map (threadLeft key)).sum ≤ threadLeft key t) :
    Budgeted ⟨s'.goOn n t', c.started, c.enqueued⟩ := by
  refine h.exchange hthreads ht (fun raw hraw => .inl (hqueue ▸ hraw)) hretries fun key => ?_
  have := hleft key
  rw [hqueue]
  omega

/-- The servers and the processing list are not looked at. -/
theorem Budgeted.same (h : Budgeted c) {s' : System} (hqueue : s'.queue = c.system.queue)
    (hthreads : s'.threads.Sublist c.system.threads) : Budgeted ⟨s', c.started, c.enqueued⟩ where
  queue := hqueue ▸ h.queue
  threads t ht := h.threads t (hthreads.subset ht)
  budget key := by
    have hold := h.budget key
    have hfewer := (hthreads.map (threadLeft key)).sum_le_sum fun _ _ => Nat.zero_le _
    simp only [Bounds.budget, hqueue] at hold ⊢
    omega

theorem Budgeted.enqueue (h : Budgeted c) (id type : String) (data : JsonText.Json) (enqueuedAt : String) :
    Budgeted (step c (.enqueue id type data enqueuedAt)) where
  queue raw hraw job hjob := by
    rcases List.mem_cons.mp hraw with rfl | hraw
    · rw [Job.parse_text, Option.mem_some] at hjob
      rw [← hjob]
      exact (by decide : 0 < MAX_RETRIES)
    · exact h.queue raw hraw job hjob
  threads := h.threads
  budget key := by
    have hold := h.budget key
    have hstarted : started? c.system (.enqueue id type data enqueuedAt) = none := rfl
    simp only [Bounds.budget, step, System.step, System.enqueue, hstarted, enqueued?, tally,
      List.map_cons, List.sum_cons, textLeft_text] at hold ⊢
    simp only [left, System.one, Nat.mul_add]
    split <;> omega

theorem Budgeted.poll (h : Budgeted c) (server : ℕ) : Budgeted (step c (.poll server)) := by
  have hsystem : (step c (.poll server)).system = c.system.poll server := rfl
  have hqueue : (c.system.poll server).queue = c.system.queue := by
    unfold System.poll
    dsimp only
    split <;> rfl
  refine ⟨?_, ?_, fun key => ?_⟩
  · rw [hsystem, hqueue]
    exact h.queue
  · rw [hsystem]
    unfold System.poll
    dsimp only
    split
    · exact h.threads
    · intro t ht
      rcases List.mem_append.mp ht with ht | ht
      · exact h.threads t ht
      · rw [List.mem_singleton.mp ht]
        trivial
  · have hthreads : ((c.system.poll server).threads.map (threadLeft key)).sum =
        (c.system.threads.map (threadLeft key)).sum := by
      unfold System.poll
      dsimp only
      split
      · rfl
      · simp [threadLeft]
    have hold := h.budget key
    simp only [Bounds.budget] at hold ⊢
    rw [hsystem, hqueue, hthreads]
    exact hold

theorem Budgeted.claim (h : Budgeted c) (ht : c.system.threads[n]? = some ⟨server, .claiming⟩) :
    Budgeted (step c (.claim n true)) := by
  have hsystem : c.system.step (.claim n true) = c.system.claim n server := by
    simp only [System.step, ht, if_true]
  have hstarted : started? c.system (.claim n true) =
      (c.system.queue.getLast?.bind Job.parse).filter fun job =>
        job.type ∈ (c.system.servers server).handlers := by
    simp only [started?, ht]
  unfold step
  rw [hsystem, hstarted]
  simp only [enqueued?, tally, Nat.add_zero]
  unfold System.claim
  split
  · rename_i hempty
    rw [hempty]
    exact h.idle rfl rfl ht (fun u hu => by cases hu) fun _ => Nat.zero_le _
  · rename_i raw hraw
    have hmem : raw ∈ c.system.queue := List.mem_of_getLast? hraw
    have hqueue : ∀ raw' ∈ c.system.queue.dropLast,
        raw' ∈ c.system.queue ∨ ∃ job : Job, Untried job ∧ raw' = job.text :=
      fun raw' hraw' => .inl (List.dropLast_subset _ hraw')
    have hmove : ∀ key, (c.system.queue.dropLast.map (textLeft key)).sum + textLeft key raw =
        (c.system.queue.map (textLeft key)).sum := by
      intro key
      conv_rhs => rw [← List.dropLast_append_getLast? raw hraw]
      simp
    rw [hraw]
    dsimp only [Option.bind_some]
    split
    · rename_i hparse
      rw [hparse]
      refine h.exchange (by rfl) ht hqueue ?_ fun key => ?_
      · rintro u ⟨⟩
        trivial
      · have := hmove key
        simp only [Option.filter_none, threadLeft, Option.toList_some, List.map_singleton,
          List.sum_singleton]
        omega
    · rename_i job hparse
      have htext : ∀ key, textLeft key raw = left key job := by
        intro key
        rw [textLeft, hparse]
        rfl
      rw [hparse]
      split
      · rename_i hhandler
        -- the attempt that was left is the one that is started
        refine h.exchange (by rfl) ht hqueue ?_ fun key => ?_
        · rintro u ⟨⟩
          trivial
        · have huntried : System.one key job + left key { job with attempts := job.attempts + 1 } =
              left key job := left_untried (h.queue raw hmem job hparse)
          have := hmove key
          have := htext key
          simp only [Option.filter_some, hhandler, decide_true, if_true, threadLeft,
            System.update, Option.toList_some, List.map_singleton, List.sum_singleton] at huntried ⊢
          omega
      · rename_i hhandler
        refine h.exchange (by rfl) ht hqueue ?_ fun key => ?_
        · rintro u ⟨⟩
          trivial
        · have := hmove key
          simp only [Option.filter_some, hhandler, decide_false, Bool.false_eq_true, if_false,
            threadLeft, Option.toList_some, List.map_singleton, List.sum_singleton]
          omega

theorem Budgeted.settle (h : Budgeted c) {raw : String} {job : Job}
    (ht : c.system.threads[n]? = some ⟨server, .executing raw job⟩) (ok : Bool) :
    Budgeted ⟨c.system.settle n server raw job ok, c.started, c.enqueued⟩ := by
  unfold System.settle
  dsimp only
  split
  · refine h.idle (by rfl) (by rfl) ht ?_ fun key => ?_
    · rintro u ⟨⟩
      trivial
    · exact Nat.zero_le _
  · split
    · rename_i hmore
      refine h.idle (by rfl) (by rfl) ht ?_ fun key => ?_
      · rintro u ⟨⟩
        exact hmore
      · simp [threadLeft]
    · refine h.idle (by rfl) (by rfl) ht ?_ fun key => ?_
      · rintro u ⟨⟩
        trivial
      · exact Nat.zero_le _

/-- The job of a timer is pushed, or is not. -/
theorem Budgeted.fire (h : Budgeted c) {t : Thread} (ht : c.system.threads[n]? = some t) {job : Job}
    (hjob : Untried job) (hheld : ∀ key, threadLeft key t = left key job) (ok : Bool)
    {t' : Option Thread} (hretries : ∀ u ∈ t', Retries u)
    (hleft : ∀ key, (t'.toList.map (threadLeft key)).sum = 0) :
    Budgeted ⟨(c.system.push job ok).goOn n t', c.started, c.enqueued⟩ := by
  refine h.exchange (by unfold System.push; split <;> rfl) ht ?_ hretries fun key => ?_
  · intro raw hraw
    cases ok with
    | false => exact .inl hraw
    | true =>
      rcases List.mem_cons.mp hraw with rfl | hraw
      · exact .inr ⟨job, hjob, rfl⟩
      · exact .inl hraw
  · have := hheld key
    have := hleft key
    cases ok with
    | false =>
      simp only [System.push, Bool.false_eq_true, if_false]
      omega
    | true =>
      simp only [System.push, if_true, List.map_cons, List.sum_cons, textLeft_text]
      omega

/-- **One step.** -/
theorem Budgeted.step (h : Budgeted c) (l : Label) : Budgeted (step c l) := by
  cases l with
  | register server type => exact h.same rfl (.refl _)
  | start server concurrency => exact h.same rfl (.refl _)
  | stop server => exact h.same rfl (.refl _)
  | enqueue id type data enqueuedAt => exact h.enqueue id type data enqueuedAt
  | poll server => exact h.poll server
  | claim n ok =>
    by_cases hclaiming : ∃ server, c.system.threads[n]? = some ⟨server, .claiming⟩
    · obtain ⟨server, ht⟩ := hclaiming
      cases ok with
      | true => exact h.claim ht
      | false =>
        have hsystem : c.system.step (.claim n false) = c.system.goOn n none := by
          simp only [System.step, ht, Bool.false_eq_true, if_false]
        unfold Bounds.step
        rw [hsystem]
        exact h.idle rfl rfl ht (fun u hu => by cases hu) fun _ => Nat.zero_le _
    · have hstarted : started? c.system (.claim n ok) = none := by
        cases ok with
        | false => rfl
        | true =>
          simp only [started?]
          split
          · rename_i server ht
            exact absurd ⟨server, ht⟩ hclaiming
          · rfl
      have hsystem : c.system.step (.claim n ok) = c.system := by
        simp only [System.step]
        split
        · rename_i server ht
          exact absurd ⟨server, ht⟩ hclaiming
        · rfl
      unfold Bounds.step
      rw [hsystem, hstarted]
      exact h
  | settle n ok =>
    unfold Bounds.step
    simp only [System.step]
    split
    · rename_i server raw job ht
      exact h.settle ht ok
    · exact h
  | lrem n ok =>
    have hlrem : ∀ raw, (c.system.lrem raw ok).threads = c.system.threads ∧
        (c.system.lrem raw ok).queue = c.system.queue := by
      intro raw
      unfold System.lrem
      split <;> exact ⟨rfl, rfl⟩
    unfold Bounds.step
    simp only [System.step]
    split
    · rename_i server raw ht
      exact h.idle (hlrem raw).1 (hlrem raw).2 ht (fun u hu => by cases hu) fun _ => Nat.zero_le _
    · rename_i server raw job fate ht
      have hretries := h.threads _ (List.mem_of_getElem? ht)
      refine h.idle (hlrem raw).1 (hlrem raw).2 ht ?_ fun key => ?_
      · intro u hu
        cases fate <;> simp only [System.afterRemoval, Option.mem_def, reduceCtorEq,
          Option.some.injEq] at hu
        exact hu ▸ hretries
      · cases fate <;> simp [System.afterRemoval, threadLeft]
    · exact h
  | fire n ok =>
    unfold Bounds.step
    simp only [System.step]
    split
    · rename_i server raw job ht
      have hretries : Untried job := h.threads _ (List.mem_of_getElem? ht)
      refine h.fire ht hretries (fun _ => rfl) ok ?_ fun key => ?_
      · rintro u ⟨⟩
        cases ok <;> trivial
      · cases ok <;> rfl
    · rename_i server job ht
      have hretries : Untried job := h.threads _ (List.mem_of_getElem? ht)
      exact h.fire ht hretries (fun _ => rfl) ok (fun u hu => by cases hu) fun _ => rfl
    · exact h
  | crash server => exact h.same rfl List.filter_sublist

end Retries

/-! ## 5. Every run -/

/-- A poll has room beside those that are waiting. -/
def StepHasRoom (c : Counted) (l : Label) : Prop := HasRoom c.system l

theorem roomy_run {ls : List Label} (h : Along step StepHasRoom .init ls) :
    Roomy (run step .init ls).system :=
  run_inv (I := fun c : Counted => Roomy c.system) (fun _ _ hI hl => hI.step hl) roomy_init h

theorem budgeted_run (ls : List Label) : Budgeted (run step .init ls) :=
  run_inv_of_step (fun _ l hI => hI.step l) budgeted_init

/-- The handler of a job is started at most `MAX_RETRIES` times for each time it was enqueued, in any
run at all. -/
theorem started_le (ls : List Label) (key : String) :
    (run step .init ls).started key ≤ MAX_RETRIES * (run step .init ls).enqueued key :=
  (Nat.le_add_right _ _).trans ((budgeted_run ls).budget key)

/-- **The bounds hold** in every run in which no poll is let through that has no room beside the polls
that are waiting: in every state reached, each server runs at most as many handlers as its concurrency,
and each job's handler was started at most `MAX_RETRIES` times. -/
theorem bounded_run {ls : List Label} (h : Along step StepHasRoom .init ls) (l₁ l₂ : List Label)
    (hls : ls = l₁ ++ l₂) : Bounded (run step .init l₁) where
  concurrency server := by
    rw [hls, along_append] at h
    have hroom := (roomy_run h.1).room server
    exact (Nat.le_add_right _ _).trans hroom
  retries := started_le l₁

/-- A poll that gets a job with a handler executes it. -/
theorem step_claim {s : System} {n server : ℕ} {job : Job}
    (ht : s.threads[n]? = some ⟨server, .claiming⟩) (hqueue : s.queue.getLast? = some job.text)
    (hhandler : job.type ∈ (s.servers server).handlers) :
    s.step (.claim n true) =
      ({ s with queue := s.queue.dropLast, processing := job.text :: s.processing }.update server
        fun q => { q with activeJobs := q.activeJobs + 1 }).goOn n
          (some ⟨server, .executing job.text job⟩) := by
  simp only [System.step, ht, if_true, System.claim, hqueue, Job.parse_text]
  exact if_pos hhandler

theorem system_step (c : Counted) (l : Label) : (step c l).system = c.system.step l := rfl

/-- One poll after the other: the job is done before the next poll passes. -/
def oneByOne : List Label :=
  [.register 0 "email-send", .start 0 1, .enqueue "job_1_a" "email-send" (.obj []) "1970-01-01",
    .poll 0, .claim 0 true, .settle 0 true, .poll 0, .lrem 0 true]

/-- The job that is enqueued there. -/
def emailJob (id : String) : Job := ⟨id, "email-send", .obj [], 0, MAX_RETRIES, "1970-01-01"⟩

theorem bounded_run_sample : Bounded (run step .init oneByOne) := by
  have hclaim := @step_claim (run step .init (oneByOne.take 4)).system 0 0 (emailJob "job_1_a") rfl rfl
    List.mem_cons_self
  have halong : Along step StepHasRoom .init
      (oneByOne.take 4 ++ [.claim 0 true, .settle 0 true, .poll 0, .lrem 0 true]) := by
    rw [along_append]
    refine ⟨⟨trivial, fun _ => Nat.zero_le 1, trivial, fun _ _ => Nat.one_pos, trivial⟩, trivial, trivial,
      ?_, trivial, trivial⟩
    rw [StepHasRoom, system_step, system_step, hclaim, HasRoom]
    decide +kernel
  exact bounded_run halong oneByOne [] (List.append_nil _).symm

/-- The timer ticks twice before the first `rpoplpush` is answered. -/
def twoTicks : List Label :=
  [.register 0 "email-send", .start 0 1, .enqueue "job_1_a" "email-send" (.obj []) "1970-01-01",
    .enqueue "job_1_b" "email-send" (.obj []) "1970-01-01", .poll 0, .poll 0, .claim 0 true,
    .claim 0 true]

/-- Two polls pass for one place, and two handlers run where one may. -/
theorem too_many : ¬ Bounded (run step .init twoTicks) := by
  intro h
  have hfirst := @step_claim (run step .init (twoTicks.take 6)).system 0 0 (emailJob "job_1_a") rfl rfl
    List.mem_cons_self
  have hsecond := @step_claim ((run step .init (twoTicks.take 6)).system.step (.claim 0 true)) 0 0
    (emailJob "job_1_b") (by rw [hfirst]; rfl) (by rw [hfirst]; rfl)
    (by rw [hfirst]; exact List.mem_cons_self)
  have hclaims : Bounded (run step .init (twoTicks.take 6 ++ [.claim 0 true, .claim 0 true])) := h
  have hle := hclaims.concurrency 0
  rw [run_append, run_cons, run_cons, run_nil, system_step, system_step, hsecond, hfirst] at hle
  revert hle
  decide +kernel

end SmartDrop.Jobs.Bounds
