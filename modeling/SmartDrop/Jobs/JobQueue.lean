/-
# The job queue

`services/jobQueue.js`: jobs are texts in the Redis list `jobs:queue`.  A server moves one to
`jobs:processing`, lets the handler of its type run, and then removes it there; a job that has failed
and may be retried is pushed to `jobs:queue` again by a timer.

Any number of servers share the two lists.  What a server does between two commands is one step, a
command may throw, and a server may crash at any time.  `pending` is a record of the jobs that are
neither done nor out of retries: the question is whether they are all in one of the lists
(`Durable`).
-/
import SmartDrop.Lib.JsonRoundTrip
import SmartDrop.Lib.Run
import Mathlib.Algebra.GroupWithZero.Nat
import Mathlib.Algebra.Order.BigOperators.Group.List
import Mathlib.Algebra.Order.Group.Nat
import Mathlib.Data.List.Perm.Basic

namespace SmartDrop.Jobs

open Conc JsonText

/-! ## 1. Jobs -/

/-- A job. -/
structure Job where
  id : String
  type : String
  data : Json
  attempts : ℕ
  maxRetries : ℕ
  enqueuedAt : String

/-- `MAX_RETRIES`. -/
def MAX_RETRIES : ℕ := 3

namespace Job

/-- The object that is written. -/
def toJson (job : Job) : Json :=
  .obj [("id", .str job.id), ("type", .str job.type), ("data", job.data),
    ("attempts", .ofNat job.attempts), ("maxRetries", .ofNat job.maxRetries),
    ("enqueuedAt", .str job.enqueuedAt)]

/-- `JSON.stringify(job)`. -/
def text (job : Job) : String := stringify job.toJson

/-- A field that is a string. -/
def string? : Option Json → Option String
  | some (.str s) => some s
  | _ => none

/-- The job in an object. -/
def ofJson (v : Json) : Option Job := do
  let id ← string? (v.get? "id")
  let type ← string? (v.get? "type")
  let data ← v.get? "data"
  let attempts ← (v.get? "attempts").bind Json.toNat?
  let maxRetries ← (v.get? "maxRetries").bind Json.toNat?
  let enqueuedAt ← string? (v.get? "enqueuedAt")
  return ⟨id, type, data, attempts, maxRetries, enqueuedAt⟩

/-- `JSON.parse(raw)`.  The lists hold the texts of jobs and nothing else. -/
def parse (raw : String) : Option Job := (JsonText.parse raw).bind ofJson

/-- The text with which a job was enqueued. -/
def key (job : Job) : String := text { job with attempts := 0 }

@[simp] theorem key_attempts (job : Job) (n : ℕ) : key { job with attempts := n } = job.key := by
  simp only [key]

theorem parse_text (job : Job) : parse job.text = some job := by
  simp [parse, text, toJson, ofJson, Json.get?, string?, Json.toNat?_ofNat]

end Job

/-! ## 2. Servers -/

/-- A `JobQueue`.  The timer of `start` is there while it is running. -/
structure JobQueue where
  handlers : List String
  running : Bool
  concurrency : ℕ
  activeJobs : ℕ

/-- `new JobQueue()`. -/
def JobQueue.new : JobQueue := ⟨[], false, 5, 0⟩

/-- How the execution of a job has ended: its handler has succeeded or there is none; or it has
failed, and the retries are used up, or a retry is to come, has been pushed, or could not be. -/
inductive Fate where
  | succeeded
  | unhandled
  | exhausted
  | retrying
  | requeued
  | dropped
deriving DecidableEq

/-- A fate after which the text may be removed. -/
def Fate.done : Fate → Bool
  | .succeeded | .exhausted | .requeued => true
  | .unhandled | .retrying | .dropped => false

/-- What is left to do of a `_processNext`: the text is claimed, removed because nobody can read it, or
its job is executed and the text then removed; the timer of a retry may outlive that. -/
inductive Work where
  | claiming
  | unreadable (raw : String)
  | executing (raw : String) (job : Job)
  | finishing (raw : String) (job : Job) (fate : Fate)
  | waiting (job : Job)

/-- A piece of work and the server that does it. -/
structure Thread where
  server : ℕ
  work : Work

/-- Redis, the servers and what they are at.  `pending` has the keys of the jobs that have been
enqueued and have neither succeeded nor used up their retries. -/
structure System where
  queue : List String
  processing : List String
  servers : ℕ → JobQueue
  threads : List Thread
  pending : List String

/-- At the beginning. -/
def System.init : System := ⟨[], [], fun _ => .new, [], []⟩

/-- What can happen.  A command of the `n`-th thread that is not `ok` throws. -/
inductive Label where
  | register (server : ℕ) (type : String)
  | start (server concurrency : ℕ)
  | stop (server : ℕ)
  | enqueue (id : String) (type : String) (data : Json) (enqueuedAt : String)
  | poll (server : ℕ)
  | claim (n : ℕ) (ok : Bool)
  | settle (n : ℕ) (ok : Bool)
  | lrem (n : ℕ) (ok : Bool)
  | fire (n : ℕ) (ok : Bool)
  | crash (server : ℕ)

/-! ## 3. The source -/

namespace System

variable (s : System)

/-- A server is changed. -/
def update (server : ℕ) (f : JobQueue → JobQueue) : System :=
  { s with servers := fun i => if i = server then f (s.servers i) else s.servers i }

/-- The `n`-th thread goes on, or is over. -/
def goOn (n : ℕ) (t : Option Thread) : System :=
  { s with threads := s.threads.eraseIdx n ++ t.toList }

/-- `enqueue`. -/
def enqueue (id type : String) (data : Json) (enqueuedAt : String) : System :=
  let job : Job := ⟨id, type, data, 0, MAX_RETRIES, enqueuedAt⟩
  { s with
    queue := job.text :: s.queue
    pending := job.key :: s.pending }

/-- `start`. -/
def start (server concurrency : ℕ) : System :=
  s.update server fun q => if q.running then q else { q with running := true, concurrency }

/-- `_processNext`, until it claims a job. -/
def poll (server : ℕ) : System :=
  let q := s.servers server
  if !q.running || q.concurrency ≤ q.activeJobs then s
  else { s with threads := s.threads ++ [⟨server, .claiming⟩] }

/-- `_processNext`, from the `rpoplpush` to where the handler is called. -/
def claim (n server : ℕ) : System :=
  match s.queue.getLast? with
  | none => s.goOn n none
  | some raw =>
    let s := { s with queue := s.queue.dropLast, processing := raw :: s.processing }
    match Job.parse raw with
    | none => s.goOn n (some ⟨server, .unreadable raw⟩)
    | some job =>
      if job.type ∈ (s.servers server).handlers then
        (s.update server fun q => { q with activeJobs := q.activeJobs + 1 }).goOn n
          (some ⟨server, .executing raw job⟩)
      else s.goOn n (some ⟨server, .finishing raw job .unhandled⟩)

/-- The job is done, or out of retries. -/
def retire (job : Job) : System := { s with pending := s.pending.erase job.key }

/-- `_executeJob`, from where the handler settles, and `activeJobs--`. -/
def settle (n server : ℕ) (raw : String) (job : Job) (ok : Bool) : System :=
  let s := s.update server fun q => { q with activeJobs := q.activeJobs - 1 }
  if ok then (s.retire job).goOn n (some ⟨server, .finishing raw job .succeeded⟩)
  else
    let job := { job with attempts := job.attempts + 1 }
    if job.attempts < job.maxRetries then
      s.goOn n (some ⟨server, .finishing raw job .retrying⟩)
    else (s.retire job).goOn n (some ⟨server, .finishing raw job .exhausted⟩)

/-- What is left once the text has been removed, or could not be. -/
def afterRemoval (server : ℕ) (job : Job) : Fate → Option Thread
  | .retrying => some ⟨server, .waiting job⟩
  | _ => none

/-- The `lrem`. -/
def lrem (raw : String) (ok : Bool) : System :=
  if ok then { s with processing := s.processing.erase raw } else s

/-- The `lpush` of a timer. -/
def push (job : Job) (ok : Bool) : System :=
  if ok then { s with queue := job.text :: s.queue } else s

/-- One step. -/
def step : Label → System
  | .register server type => s.update server fun q => { q with handlers := type :: q.handlers }
  | .start server concurrency => s.start server concurrency
  | .stop server => s.update server fun q => { q with running := false }
  | .enqueue id type data enqueuedAt => s.enqueue id type data enqueuedAt
  | .poll server => s.poll server
  | .claim n ok =>
    match s.threads[n]? with
    | some ⟨server, .claiming⟩ => if ok then s.claim n server else s.goOn n none
    | _ => s
  | .settle n ok =>
    match s.threads[n]? with
    | some ⟨server, .executing raw job⟩ => s.settle n server raw job ok
    | _ => s
  | .lrem n ok =>
    match s.threads[n]? with
    | some ⟨_, .unreadable raw⟩ => (s.lrem raw ok).goOn n none
    | some ⟨server, .finishing raw job fate⟩ =>
      (s.lrem raw ok).goOn n (afterRemoval server job fate)
    | _ => s
  | .fire n ok =>
    match s.threads[n]? with
    | some ⟨server, .finishing raw job .retrying⟩ =>
      (s.push job ok).goOn n (some ⟨server, .finishing raw job (if ok then .requeued else .dropped)⟩)
    | some ⟨_, .waiting job⟩ => (s.push job ok).goOn n none
    | _ => s
  | .crash server =>
    { s with
      servers := fun i => if i = server then .new else s.servers i
      threads := s.threads.filter fun t => t.server ≠ server }

/-! ## 4. Durability -/

/-- A text of the job that was enqueued as `key`. -/
def IsText (key raw : String) : Bool := (Job.parse raw).map Job.key == some key

/-- **Durability**: of the jobs that are pending, there are at least as many texts in the lists. -/
def Durable : Prop :=
  ∀ key, s.pending.count key ≤ (s.queue ++ s.processing).countP (IsText key)

/-! ## 5. Counting

For each key: `live` is about what can still be executed, `listed` about what can still be removed. -/

/-- `1` for a job that was enqueued as `key`. -/
def one (key : String) (job : Job) : ℕ := if job.key = key then 1 else 0

/-- How many texts of the job are in a list. -/
def texts (key : String) (list : List String) : ℕ := list.countP (IsText key)

/-- What a thread can still have executed or pushed. -/
def holds (key : String) (t : Thread) : ℕ :=
  match t.work with
  | .executing _ job | .finishing _ job .retrying | .waiting job => one key job
  | _ => 0

/-- What a thread may remove. -/
def frees (key : String) (t : Thread) : ℕ :=
  match t.work with
  | .finishing _ job fate => if fate.done then one key job else 0
  | _ => 0

/-- The text of a thread is the one of its job, or of no job. -/
def Fits (t : Thread) : Prop :=
  match t.work with
  | .executing raw job | .finishing raw job _ => ∀ key, texts key [raw] = one key job
  | .unreadable raw => ∀ key, texts key [raw] = 0
  | _ => True

/-- What always holds, as long as no text is removed too early. -/
structure Invariant : Prop where
  fits : ∀ t ∈ s.threads, Fits t
  live : ∀ key, texts key s.queue + (s.threads.map (holds key)).sum ≤ s.pending.count key
  listed : ∀ key, s.pending.count key + (s.threads.map (frees key)).sum ≤
    texts key s.queue + texts key s.processing

section Counting

variable {s} {key : String}

variable (key) in
theorem texts_cons (raw : String) (list : List String) :
    texts key (raw :: list) = texts key [raw] + texts key list := by
  simp only [texts, List.countP_cons, List.countP_nil]
  omega

theorem texts_text (job : Job) : texts key [job.text] = one key job := by
  simp [texts, one, IsText, Job.parse_text]

theorem texts_dropLast {list : List String} {raw : String} (h : list.getLast? = some raw) :
    texts key list.dropLast + texts key [raw] = texts key list := by
  have happend := List.dropLast_append_getLast? raw h
  unfold texts
  rw [← List.countP_append, happend]

variable (key) in
theorem texts_erase (raw : String) (list : List String) :
    texts key list ≤ texts key (list.erase raw) + texts key [raw] := by
  by_cases h : raw ∈ list
  · have hperm := (List.perm_cons_erase h).countP_eq (IsText key)
    have hcons := texts_cons key raw (list.erase raw)
    unfold texts at *
    omega
  · rw [List.erase_of_not_mem h]
    omega

theorem count_erase_key (job : Job) (pending : List String) :
    (pending.erase job.key).count key = pending.count key - one key job := by
  rw [List.count_erase, one]
  simp

/-- A thread that goes on is exchanged for what it becomes. -/
theorem sum_goOn (f : Thread → ℕ) {n : ℕ} {t : Thread} (ht : s.threads[n]? = some t)
    (t' : Option Thread) :
    ((s.goOn n t').threads.map f).sum + f t = (s.threads.map f).sum + (t'.toList.map f).sum := by
  obtain ⟨hn, rfl⟩ := List.getElem?_eq_some_iff.mp ht
  have hperm := ((List.getElem_cons_eraseIdx_perm hn).map f).sum_eq
  simp only [List.map_cons, List.sum_cons] at hperm
  simp only [goOn, List.map_append, List.sum_append]
  omega

end Counting

/-! ## 6. What one step keeps -/

section Steps

variable {s} {n server : ℕ} {raw : String} {job : Job} {fate : Fate}

theorem invariant_init : init.Invariant where
  fits := nofun
  live _ := Nat.le_refl _
  listed _ := Nat.le_refl _

theorem fits_of_getElem? (h : s.Invariant) {t : Thread} (ht : s.threads[n]? = some t) : Fits t :=
  h.fits t (List.mem_of_getElem? ht)

theorem holds_le (h : s.Invariant) {t : Thread} (ht : s.threads[n]? = some t) (key : String) :
    holds key t ≤ s.pending.count key := by
  have hlive := h.live key
  have hsum := sum_goOn (holds key) ht none
  simp only [Option.toList_none, List.map_nil, List.sum_nil] at hsum
  omega

/-- A thread goes on, and the rest changes by as much as it does. -/
theorem Invariant.exchange (h : s.Invariant) {s' : System} (hthreads : s'.threads = s.threads)
    {t : Thread} (ht : s.threads[n]? = some t) {t' : Option Thread} (hfits : ∀ u ∈ t', Fits u)
    (hlive : ∀ key, texts key s'.queue + (t'.toList.map (holds key)).sum + s.pending.count key ≤
      texts key s.queue + holds key t + s'.pending.count key)
    (hlisted : ∀ key, s'.pending.count key + (t'.toList.map (frees key)).sum +
        (texts key s.queue + texts key s.processing) ≤
      s.pending.count key + frees key t + (texts key s'.queue + texts key s'.processing)) :
    (s'.goOn n t').Invariant where
  fits u hu := by
    rcases List.mem_append.mp hu with hu | hu
    · exact h.fits u (hthreads ▸ List.mem_of_mem_eraseIdx hu)
    · exact hfits u (Option.mem_toList.mp hu)
  live key := by
    have hold := h.live key
    have hnew := hlive key
    have hsum := sum_goOn (s := s') (holds key) (hthreads ▸ ht) t'
    rw [hthreads] at hsum
    simp only [goOn] at hsum ⊢
    omega
  listed key := by
    have hold := h.listed key
    have hnew := hlisted key
    have hsum := sum_goOn (s := s') (frees key) (hthreads ▸ ht) t'
    rw [hthreads] at hsum
    simp only [goOn] at hsum ⊢
    omega

theorem Invariant.update (h : s.Invariant) (server : ℕ) (f : JobQueue → JobQueue) :
    (s.update server f).Invariant := ⟨h.fits, h.live, h.listed⟩

theorem Invariant.enqueue (h : s.Invariant) (id type : String) (data : Json) (enqueuedAt : String) :
    (s.enqueue id type data enqueuedAt).Invariant where
  fits := h.fits
  live key := by
    have hlive := h.live key
    simp only [System.enqueue]
    rw [texts_cons, texts_text, List.count_cons, one]
    simp only [beq_iff_eq]
    omega
  listed key := by
    have hlisted := h.listed key
    simp only [System.enqueue]
    rw [texts_cons, texts_text, List.count_cons, one]
    simp only [beq_iff_eq]
    omega

theorem Invariant.poll (h : s.Invariant) (server : ℕ) : (s.poll server).Invariant := by
  unfold System.poll
  dsimp only
  split
  · exact h
  · refine ⟨fun t ht => ?_, fun key => ?_, fun key => ?_⟩
    · rcases List.mem_append.mp ht with ht | ht
      · exact h.fits t ht
      · rw [List.mem_singleton.mp ht]
        trivial
    · have hlive := h.live key
      simpa [holds] using hlive
    · have hlisted := h.listed key
      simpa [frees] using hlisted

theorem Invariant.claim (h : s.Invariant) (ht : s.threads[n]? = some ⟨server, .claiming⟩) :
    (s.claim n server).Invariant := by
  unfold System.claim
  split
  · refine h.exchange (by rfl) ht nofun (fun key => ?_) fun key => ?_
    · simp [holds]
    · simp [frees]
  · rename_i raw hraw
    have hmove : ∀ key, texts key s.queue.dropLast + texts key [raw] = texts key s.queue :=
      fun key => texts_dropLast hraw
    have hpush : ∀ key, texts key (raw :: s.processing) = texts key [raw] + texts key s.processing :=
      fun key => texts_cons key raw s.processing
    dsimp only
    split
    · rename_i hparse
      have hnone : ∀ key, texts key [raw] = 0 := fun key => by simp [texts, IsText, hparse]
      refine h.exchange (by rfl) ht ?_ (fun key => ?_) fun key => ?_
      · rintro _ ⟨⟩
        exact hnone
      · have := hmove key
        simp [holds]
        omega
      · have := hmove key
        have := hpush key
        simp [frees]
        omega
    · rename_i job hparse
      have hone : ∀ key, texts key [raw] = one key job := fun key => by
        simp [texts, IsText, hparse, one]
      split
      · refine h.exchange (by rfl) ht ?_ (fun key => ?_) fun key => ?_
        · rintro _ ⟨⟩
          exact hone
        · have := hmove key
          have := hone key
          simp [holds, System.update]
          omega
        · have := hmove key
          have := hpush key
          simp [frees, System.update]
          omega
      · refine h.exchange (by rfl) ht ?_ (fun key => ?_) fun key => ?_
        · rintro _ ⟨⟩
          exact hone
        · have := hmove key
          simp [holds]
          omega
        · have := hmove key
          have := hpush key
          simp [frees, Fate.done]
          omega

theorem Invariant.settle (h : s.Invariant) (ht : s.threads[n]? = some ⟨server, .executing raw job⟩)
    (ok : Bool) : (s.settle n server raw job ok).Invariant := by
  have hone : ∀ key, texts key [raw] = one key job := fits_of_getElem? h ht
  have hle : ∀ key, one key job ≤ s.pending.count key := fun key => by
    simpa only [holds] using holds_le h ht key
  unfold System.settle
  dsimp only
  split
  · refine h.exchange (by rfl) ht ?_ (fun key => ?_) fun key => ?_
    · rintro _ ⟨⟩
      exact hone
    · have := hle key
      simp [holds, System.retire, System.update, count_erase_key]
      omega
    · have := hle key
      simp [frees, Fate.done, System.retire, System.update, count_erase_key]
      omega
  · have hsame : ∀ key, one key { job with attempts := job.attempts + 1 } = one key job := by
      simp only [one, Job.key_attempts, implies_true]
    split
    · refine h.exchange (by rfl) ht ?_ (fun key => ?_) fun key => ?_
      · rintro _ ⟨⟩
        exact hone
      · simp [holds, System.update, hsame]
      · simp [frees, Fate.done, System.update]
    · refine h.exchange (by rfl) ht ?_ (fun key => ?_) fun key => ?_
      · rintro _ ⟨⟩
        exact hone
      · have := hle key
        have := hsame key
        simp [holds, System.retire, System.update, count_erase_key]
        omega
      · have := hle key
        simp [frees, Fate.done, System.retire, System.update, count_erase_key, hsame]
        omega

theorem Invariant.lrem (h : s.Invariant)
    (ht : s.threads[n]? = some ⟨server, .finishing raw job fate⟩) {ok : Bool}
    (hdone : ok = true → fate.done = true) :
    ((s.lrem raw ok).goOn n (afterRemoval server job fate)).Invariant := by
  have hone : ∀ key, texts key [raw] = one key job := fits_of_getElem? h ht
  have herase : ∀ key, texts key s.processing ≤
      texts key (s.processing.erase raw) + texts key [raw] := fun key => texts_erase key raw _
  refine h.exchange (by unfold System.lrem; split <;> rfl) ht ?_ (fun key => ?_) fun key => ?_
  · intro u hu
    cases fate <;> simp only [afterRemoval, Option.mem_def, reduceCtorEq, Option.some.injEq] at hu
    exact hu ▸ trivial
  · have hqueue : (s.lrem raw ok).queue = s.queue ∧ (s.lrem raw ok).pending = s.pending := by
      unfold System.lrem
      split <;> exact ⟨rfl, rfl⟩
    rw [hqueue.1, hqueue.2]
    cases fate <;> simp [holds, afterRemoval]
  · have hwaits : ((afterRemoval server job fate).toList.map (frees key)).sum = 0 := by
      cases fate <;> simp [frees, afterRemoval]
    rw [hwaits]
    cases ok with
    | false => simp [System.lrem]
    | true =>
      have := hone key
      have := herase key
      simp only [System.lrem, frees, hdone rfl, if_true]
      omega

theorem Invariant.lrem_unreadable (h : s.Invariant)
    (ht : s.threads[n]? = some ⟨server, .unreadable raw⟩) (ok : Bool) :
    ((s.lrem raw ok).goOn n none).Invariant := by
  have hnone : ∀ key, texts key [raw] = 0 := fits_of_getElem? h ht
  refine h.exchange (by unfold System.lrem; split <;> rfl) ht nofun (fun key => ?_) fun key => ?_
  · unfold System.lrem
    split <;> simp [holds]
  · have := hnone key
    have := texts_erase key raw s.processing
    unfold System.lrem
    split <;> simp [frees]
    omega

theorem Invariant.fire (h : s.Invariant) {t : Thread} (ht : s.threads[n]? = some t) (ok : Bool)
    {t' : Option Thread} (hfits : ∀ u ∈ t', Fits u) (hheld : ∀ key, holds key t = one key job)
    (hholds : ∀ key, (t'.toList.map (holds key)).sum = 0)
    (hfrees : ∀ key, (t'.toList.map (frees key)).sum ≤ if ok then one key job else 0) :
    ((s.push job ok).goOn n t').Invariant := by
  have hpush : ∀ key, texts key (job.text :: s.queue) = one key job + texts key s.queue :=
    fun key => by rw [texts_cons, texts_text]
  refine h.exchange (by unfold System.push; split <;> rfl) ht hfits (fun key => ?_) fun key => ?_
  · have := hheld key
    have := hholds key
    have := hpush key
    cases ok <;> simp only [System.push, Bool.false_eq_true, if_true, if_false] <;> omega
  · have hsum := hfrees key
    have := hpush key
    cases ok <;> simp only [System.push, Bool.false_eq_true, if_true, if_false] at hsum ⊢ <;> omega

theorem Invariant.crash (h : s.Invariant) (server : ℕ) : (s.step (.crash server)).Invariant := by
  have hfewer : ∀ f : Thread → ℕ,
      ((s.threads.filter fun t => t.server ≠ server).map f).sum ≤ (s.threads.map f).sum := by
    intro f
    exact (List.filter_sublist.map f).sum_le_sum fun _ _ => Nat.zero_le _
  refine ⟨fun t ht => h.fits t (List.mem_of_mem_filter ht), fun key => ?_, fun key => ?_⟩
  · exact (Nat.add_le_add_left (hfewer (holds key)) _).trans (h.live key)
  · exact (Nat.add_le_add_left (hfewer (frees key)) _).trans (h.listed key)

/-- An `lrem` that is executed is of a text that nobody can read, or of a job that has succeeded, is out
of retries or has been pushed again. -/
def RemovesDone (s : System) (l : Label) : Prop :=
  ∀ n server raw job fate, l = .lrem n true →
    s.threads[n]? = some ⟨server, .finishing raw job fate⟩ → fate.done = true

/-- **One step** keeps the invariant. -/
theorem Invariant.step (h : s.Invariant) {l : Label} (hl : s.RemovesDone l) :
    (s.step l).Invariant := by
  cases l with
  | register server type => exact h.update server fun q => { q with handlers := type :: q.handlers }
  | start server concurrency =>
    simp only [System.step, System.start]
    exact h.update server _
  | stop server => exact h.update server fun q => { q with running := false }
  | enqueue id type data enqueuedAt => exact h.enqueue id type data enqueuedAt
  | poll server => exact h.poll server
  | claim n ok =>
    simp only [System.step]
    split
    · rename_i server ht
      split
      · exact h.claim ht
      · refine h.exchange (by rfl) ht nofun (fun key => ?_) fun key => ?_
        · simp [holds]
        · simp [frees]
    · exact h
  | settle n ok =>
    simp only [System.step]
    split
    · rename_i server raw job ht
      exact h.settle ht ok
    · exact h
  | lrem n ok =>
    simp only [System.step]
    split
    · rename_i server raw ht
      exact h.lrem_unreadable ht ok
    · rename_i server raw job fate ht
      exact h.lrem ht fun hok => hl n server raw job fate (by rw [hok]) ht
    · exact h
  | fire n ok =>
    simp only [System.step]
    split
    · rename_i server raw job ht
      refine h.fire ht ok ?_ (fun key => rfl) (fun key => ?_) fun key => ?_
      · have hone : ∀ key, texts key [raw] = one key job := fits_of_getElem? h ht
        rintro _ ⟨⟩
        exact hone
      · cases ok <;> simp [holds]
      · cases ok <;> simp [frees, Fate.done]
    · rename_i server job ht
      exact h.fire ht ok nofun (fun key => rfl) (fun key => rfl) fun key => Nat.zero_le _
    · exact h
  | crash server => exact h.crash server

end Steps

theorem Invariant.durable {s : System} (h : s.Invariant) : s.Durable := by
  intro key
  have hlisted := h.listed key
  unfold texts at hlisted
  rw [List.countP_append]
  omega

/-- **Jobs are durable** in every run that removes no text too early, whatever else happens: in every
state reached, each pending job is in one of the lists. -/
theorem durable_run {ls : List Label} (h : Along step RemovesDone init ls) (l₁ l₂ : List Label)
    (hls : ls = l₁ ++ l₂) : (run step init l₁).Durable := by
  rw [hls, along_append] at h
  exact (run_inv (fun _ _ hI hl => hI.step hl) invariant_init h.1).durable

/-- A job that is enqueued, claimed and executed, until its text is to be removed. -/
def executed (id type : String) (data : Json) (enqueuedAt : String) (ok : Bool) : List Label :=
  [.register 0 type, .start 0 5, .enqueue id type data enqueuedAt, .poll 0, .claim 0 true, .settle 0 ok]

theorem run_executed (id type : String) (data : Json) (enqueuedAt : String) (ok : Bool) :
    let s := run step init (executed id type data enqueuedAt ok)
    let job : Job := ⟨id, type, data, 0, MAX_RETRIES, enqueuedAt⟩
    s.queue = [] ∧ s.processing = [job.text] ∧
      s.threads = [⟨0, .finishing job.text { job with attempts := if ok then 0 else 1 }
        (if ok then .succeeded else .retrying)⟩] ∧
      s.pending = if ok then [] else [job.key] := by
  cases ok <;>
    simp [run, executed, step, System.start, System.enqueue, System.poll, System.claim, System.settle,
      System.update, System.goOn, init, Job.parse_text, JobQueue.new, System.retire, MAX_RETRIES]

theorem along_executed (id type : String) (data : Json) (enqueuedAt : String) (ok : Bool) :
    Along step RemovesDone init (executed id type data enqueuedAt ok) := by
  simp [executed, RemovesDone]

/-- A job that succeeds is durable to the end. -/
theorem durable_run_sample : (run step init
    (executed "job_1_a" "email-send" (.obj []) "1970-01-01" true ++ [.lrem 0 true])).Durable := by
  have halong : Along step RemovesDone init
      (executed "job_1_a" "email-send" (.obj []) "1970-01-01" true ++ [.lrem 0 true]) := by
    simp only [along_append, along_cons, along_nil, and_true]
    refine ⟨along_executed _ _ _ _ true, ?_⟩
    intro n server raw job fate hl ht
    obtain ⟨-, -, hthreads, -⟩ := run_executed "job_1_a" "email-send" (.obj []) "1970-01-01" true
    cases hl
    rw [hthreads] at ht
    simp only [List.getElem?_cons_zero, Option.some.injEq, Thread.mk.injEq,
      Work.finishing.injEq] at ht
    rw [← ht.2.2.2]
    rfl
  exact durable_run halong _ [] (List.append_nil _).symm

/-- Any job that fails at first is in neither list once its text is removed. -/
theorem not_durable_executed (id type : String) (data : Json) (enqueuedAt : String) :
    ¬ (run step init (executed id type data enqueuedAt false ++ [.lrem 0 true])).Durable := by
  intro h
  obtain ⟨hqueue, hprocessing, hthreads, hpending⟩ := run_executed id type data enqueuedAt false
  have hkey := h (Job.key ⟨id, type, data, 0, MAX_RETRIES, enqueuedAt⟩)
  rw [run_append] at hkey
  simp [step, hthreads, hqueue, hprocessing, hpending, System.lrem, System.goOn] at hkey

/-- An e-mail whose first attempt fails is in neither list until the timer of its retry runs. -/
theorem lost_after_failure : ¬ (run step init
    (executed "job_1_a" "email-send" (.obj []) "1970-01-01" false ++ [.lrem 0 true])).Durable :=
  not_durable_executed _ _ _ _

end System

end SmartDrop.Jobs
