/-
# Workers that take jobs

A crew is a store and a set of workers.  A worker is idle, or it is running a program that
decides which jobs it gets (`taking`), or it is working on one job while others wait.  A job has
a key, the resource it is about.

`Custody` is what has to be known of one resource: what holds of it while nobody works on it
(`free`), and what a worker leaves alone of a resource that is not its own (`same`).  `Custody.Owned` is the invariant that rely/guarantee reasoning keeps: no resource is in
two hands, each worker is fit to go on, and what nobody works on is free.  It survives a step of
a worker (`Owned.act`), a new assignment (`Owned.assign`) and the loss of workers (`Owned.stop`).
-/
import SmartDrop.Lib.Prog
import Mathlib.Data.List.Nodup

namespace Conc

instance {S : Sig} : LawfulMonad (Prog S) :=
  LawfulMonad.mk' (Prog S) Prog.bind_ret (fun _ _ => rfl) Prog.bind_assoc

/-! ## 1. Crews -/

/-- What is left to do on the resource `key`. -/
structure Job (S : Sig) (κ ρ : Type) where
  key : κ
  code : Prog S ρ

/-- A worker; one that is not idle has a next command. -/
inductive Worker (S : Sig) (κ ρ : Type) where
  | idle
  | taking (op : S.Op) (k : S.Rep op → Prog S (List (Job S κ ρ)))
  | working (key : κ) (op : S.Op) (k : S.Rep op → Prog S ρ) (rest : List (Job S κ ρ))

variable {S : Sig} {κ ρ τ θ ι σ : Type}

namespace Worker

/-- Go on with a list of jobs; one without commands is done at once. -/
def start : List (Job S κ ρ) → Worker S κ ρ
  | [] => .idle
  | ⟨_, .ret _⟩ :: rest => start rest
  | ⟨key, .cmd op k⟩ :: rest => .working key op k rest

/-- Go on with the job at hand, or with the next one if it is done. -/
def work (key : κ) (code : Prog S ρ) (rest : List (Job S κ ρ)) : Worker S κ ρ :=
  start (⟨key, code⟩ :: rest)

/-- Go on with a program that decides on jobs. -/
def take : Prog S (List (Job S κ ρ)) → Worker S κ ρ
  | .ret jobs => start jobs
  | .cmd op k => .taking op k

/-- The resources in the hands of a worker. -/
def keys : Worker S κ ρ → List κ
  | .idle => []
  | .taking .. => []
  | .working key _ _ rest => key :: rest.map Job.key

end Worker

/-- One job after the other, as a program. -/
def runJobs : List (Job S κ ρ) → Prog S Unit
  | [] => .ret ()
  | job :: rest => job.code.bind fun _ => runJobs rest

namespace Worker

/-- What a worker has still to do, as a program. -/
def prog : Worker S κ ρ → Prog S Unit
  | .idle => .ret ()
  | .taking op k => .cmd op fun r => (k r).bind runJobs
  | .working _ op k rest => .cmd op fun r => (k r).bind fun _ => runJobs rest

theorem prog_start (jobs : List (Job S κ ρ)) : (start jobs).prog = runJobs jobs := by
  induction jobs with
  | nil => rfl
  | cons job rest ih =>
    obtain ⟨key, code⟩ := job
    cases code with
    | ret a => exact ih
    | cmd op k => rfl

theorem prog_take (code : Prog S (List (Job S κ ρ))) : (take code).prog = code.bind runJobs := by
  cases code with
  | ret jobs => exact prog_start jobs
  | cmd op k => rfl

end Worker

/-- The jobs that a program has decided on. -/
def Prog.jobs : Prog S (List (Job S κ ρ)) → List (Job S κ ρ)
  | .ret jobs => jobs
  | .cmd .. => []

/-- A store and its workers. -/
structure Crew (S : Sig) (κ ρ τ σ : Type) where
  store : σ
  worker : τ → Worker S κ ρ

namespace Crew

variable [DecidableEq τ]

/-- An idle worker is given a program; a busy one keeps what it has. -/
def assign (c : Crew S κ ρ τ σ) (i : τ) (code : Prog S (List (Job S κ ρ))) : Crew S κ ρ τ σ :=
  match c.worker i with
  | .idle => { c with worker := Function.update c.worker i (.take code) }
  | _ => c

/-- A worker issues its next command, as the caller that `who` names. -/
def act (M : Machine S θ ι σ) (who : τ → Option κ → θ) (c : Crew S κ ρ τ σ) (i : τ) (x : ι) :
    Crew S κ ρ τ σ :=
  match c.worker i with
  | .idle => c
  | .taking op k =>
    let r := M.exec (who i none) op x c.store
    ⟨r.2, Function.update c.worker i (.take (k r.1))⟩
  | .working key op k rest =>
    let r := M.exec (who i (some key)) op x c.store
    ⟨r.2, Function.update c.worker i (.work key (k r.1) rest)⟩

/-- **A worker does what its program does**, as a caller that is known by the job at hand. -/
theorem act_prog (M : Machine S θ ι σ) (who : τ → Option κ → θ) (c : Crew S κ ρ τ σ) (i : τ)
    (x : ι) : ∃ o, ((c.act M who i x).worker i).prog =
        ((c.worker i).prog.act M (who i o) x c.store).1 ∧
      (c.act M who i x).store = ((c.worker i).prog.act M (who i o) x c.store).2 := by
  rw [act]
  cases hw : c.worker i with
  | idle => exact ⟨none, by rw [hw]; rfl, rfl⟩
  | taking op k =>
    refine ⟨none, ?_, rfl⟩
    simp only [Function.update_self]
    exact Worker.prog_take _
  | working key op k rest =>
    refine ⟨some key, ?_, rfl⟩
    simp only [Function.update_self]
    exact Worker.prog_start _

/-- Some workers drop what they have, and the store changes by `f`. -/
def stop (c : Crew S κ ρ τ σ) (dead : τ → Bool) (f : σ → σ) : Crew S κ ρ τ σ :=
  ⟨f c.store, fun i => if dead i then .idle else c.worker i⟩

end Crew

/-! ## 2. Custody -/

/-- What is known of each resource.  `ok` and `okTake` are the steps that are considered, of a
job and of a worker that has none yet; `kept` is what every step does to every resource. -/
structure Custody (S : Sig) (κ θ ι σ : Type) where
  ok : θ → κ → S.Op → ι → σ → Prop
  okTake : θ → S.Op → ι → σ → Prop
  same : κ → σ → σ → Prop
  kept : κ → σ → σ → Prop
  free : κ → σ → Prop
  same_refl : ∀ k s, same k s s
  kept_of_same : ∀ {k s s'}, same k s s' → kept k s s'
  free_stable : ∀ k, Stable (same k) (free k)

namespace Custody

variable (K : Custody S κ θ ι σ) (M : Machine S θ ι σ) (who : τ → Option κ → θ)

/-- The contract of a job on `k` that `t` does: the others leave `k` alone, and the job leaves the
rest alone. -/
def contract (t : θ) (k : κ) : Contract S ι σ where
  ok := K.ok t k
  rely := K.same k
  guar s s' := K.kept k s s' ∧ ∀ e, e ≠ k → K.same e s s'

/-- A job that can go on from a store, and ends with its resource free. -/
def Set (i : τ) (s : σ) (job : Job S κ ρ) : Prop :=
  Ready M (who i (some job.key)) (K.contract (who i (some job.key)) job.key) job.code
    (fun _ => K.free job.key) s

/-- A program whose steps change nothing but what the jobs it decides on are about, and which
leaves these jobs set if their resources were free. -/
def Takes (i : τ) : Prog S (List (Job S κ ρ)) → Prop
  | .ret _ => True
  | .cmd op k => ∀ x s, K.okTake (who i none) op x s →
      let r := M.exec (who i none) op x s
      let jobs := (k r.1).jobs
      (∀ e, e ∉ jobs.map Job.key → K.same e s r.2) ∧
      ((∀ e ∈ jobs.map Job.key, K.free e s) → (jobs.map Job.key).Nodup ∧
        ∀ job ∈ jobs, K.kept job.key s r.2 ∧ K.Set M who i r.2 job) ∧
      Takes i (k r.1)

/-- A worker that can go on from a store. -/
def Fit (i : τ) (s : σ) : Worker S κ ρ → Prop
  | .idle => True
  | .taking op k => K.Takes M who i (.cmd op k)
  | .working key op k rest =>
    ((⟨key, .cmd op k⟩ :: rest : List (Job S κ ρ)).map Job.key).Nodup ∧
    ∀ job ∈ (⟨key, .cmd op k⟩ :: rest : List (Job S κ ρ)), K.Set M who i s job

/-- No resource is in two hands, every worker is fit, and what nobody has is free. -/
structure Owned (c : Crew S κ ρ τ σ) : Prop where
  exclusive : ∀ i j k, k ∈ (c.worker i).keys → k ∈ (c.worker j).keys → i = j
  fit : ∀ i, K.Fit M who i c.store (c.worker i)
  free : ∀ k, (∀ i, k ∉ (c.worker i).keys) → K.free k c.store

variable {K M who} {i : τ} {s s' : σ} {c : Crew S κ ρ τ σ}

/-- A fit worker stays fit while the others leave alone what it has. -/
theorem Fit.stable {w : Worker S κ ρ} (h : K.Fit M who i s w)
    (hsame : ∀ k ∈ w.keys, K.same k s s') : K.Fit M who i s' w := by
  cases w with
  | idle => trivial
  | taking op k => exact h
  | working key op k rest =>
    refine ⟨h.1, fun job hjob => (h.2 job hjob).rely (hsame job.key ?_)⟩
    exact List.mem_map.mpr ⟨job, hjob, rfl⟩

/-- A step with which no job comes. -/
theorem takes_cmd {op : S.Op} {k : S.Rep op → Prog S (List (Job S κ ρ))}
    (h : ∀ x s, K.okTake (who i none) op x s → (∀ e, K.same e s (M.exec (who i none) op x s).2) ∧
      (k (M.exec (who i none) op x s).1).jobs = [] ∧
      K.Takes M who i (k (M.exec (who i none) op x s).1)) : K.Takes M who i (.cmd op k) := by
  intro x s hok
  obtain ⟨hsame, hnone, hnext⟩ := h x s hok
  dsimp only
  rw [hnone]
  exact ⟨fun e _ => hsame e, fun _ => ⟨List.nodup_nil, fun _ hj => absurd hj List.not_mem_nil⟩,
    hnext⟩

/-- The step with which a program decides on its jobs. -/
theorem takes_decide {op : S.Op} {k : S.Rep op → Prog S (List (Job S κ ρ))}
    (h : ∀ x s, K.okTake (who i none) op x s → ∃ rep s' jobs,
      M.exec (who i none) op x s = (rep, s') ∧ k rep = .ret jobs ∧
      (∀ e, e ∉ jobs.map Job.key → K.same e s s') ∧
      ((∀ e ∈ jobs.map Job.key, K.free e s) → (jobs.map Job.key).Nodup ∧
        ∀ job ∈ jobs, K.kept job.key s s' ∧ K.Set M who i s' job)) :
    K.Takes M who i (.cmd op k) := by
  intro x s hok
  obtain ⟨rep, s', jobs, hexec, hk, hsame, hnew⟩ := h x s hok
  dsimp only
  rw [hexec]
  dsimp only
  rw [hk]
  exact ⟨hsame, hnew, trivial⟩

/-- A part that does nothing to any resource, before a program that has not decided on jobs yet. -/
theorem takes_bind {α : Type} {t : Prog S α} {f : α → Prog S (List (Job S κ ρ))} {φ : S.Op → Prop}
    (hquiet : ∀ op, φ op → ∀ x s, K.okTake (who i none) op x s →
      ∀ e, K.same e s (M.exec (who i none) op x s).2)
    (ht : t.Uses φ) (hf : ∀ a, (f a).jobs = [] ∧ K.Takes M who i (f a)) :
    K.Takes M who i (t.bind f) := by
  have hnone : ∀ t : Prog S α, (t.bind f).jobs = [] := by
    intro t
    cases t with
    | ret a => exact (hf a).1
    | cmd op k => rfl
  induction t with
  | ret a => exact (hf a).2
  | cmd op k ih =>
    refine takes_cmd fun x s hok => ⟨hquiet op ht.1 x s hok, hnone _, ?_⟩
    exact ih _ (ht.2 _)

/-- Starting on jobs that are set: what has no command to issue is free at once. -/
theorem fit_start {jobs : List (Job S κ ρ)} (hnodup : (jobs.map Job.key).Nodup)
    (h : ∀ job ∈ jobs, K.Set M who i s job) :
    K.Fit M who i s (.start jobs) ∧
    (∀ k ∈ (Worker.start jobs).keys, k ∈ jobs.map Job.key) ∧
    ∀ k ∈ jobs.map Job.key, k ∉ (Worker.start jobs).keys → K.free k s := by
  induction jobs with
  | nil => exact ⟨trivial, by simp [Worker.start, Worker.keys], by simp⟩
  | cons job rest ih =>
    obtain ⟨key, code⟩ := job
    cases code with
    | ret a =>
      obtain ⟨hfit, hsub, hfree⟩ := ih hnodup.of_cons fun j hj => h j (List.mem_cons_of_mem _ hj)
      refine ⟨hfit, fun k hk => List.mem_cons_of_mem _ (hsub k hk), fun k hk hout => ?_⟩
      rcases List.mem_cons.mp hk with rfl | hk
      · exact (h _ List.mem_cons_self).done
      · exact hfree k hk hout
    | cmd op k => exact ⟨⟨hnodup, h⟩, fun _ hk => hk, fun _ hk hout => absurd hk hout⟩

/-- Idle workers have nothing; everything is free. -/
theorem owned_idle (hidle : ∀ i, c.worker i = .idle) (hfree : ∀ e, K.free e c.store) :
    K.Owned M who c where
  exclusive a b e ha := by simp [hidle, Worker.keys] at ha
  fit i := by rw [hidle]; trivial
  free e _ := hfree e

/-- **The loss of workers** that had only free resources. -/
theorem Owned.stop (h : K.Owned M who c) {dead : τ → Bool} {f : σ → σ}
    (hsame : ∀ e, K.same e c.store (f c.store))
    (hfree : ∀ i, dead i → ∀ e ∈ (c.worker i).keys, K.free e c.store) :
    K.Owned M who (c.stop dead f) where
  exclusive a b e ha hb := by
    simp only [Crew.stop] at ha hb
    split at ha
    · simp [Worker.keys] at ha
    · split at hb
      · simp [Worker.keys] at hb
      · exact h.exclusive a b e ha hb
  fit j := by
    simp only [Crew.stop]
    split
    · trivial
    · exact (h.fit j).stable fun e _ => hsame e
  free e he := by
    refine K.free_stable e ?_ (hsame e)
    by_cases hheld : ∃ i, e ∈ (c.worker i).keys
    · obtain ⟨i, hi⟩ := hheld
      by_cases hd : dead i
      · exact hfree i hd e hi
      · have := he i
        simp only [Crew.stop, hd] at this
        exact absurd hi this
    · exact h.free e fun i hi => hheld ⟨i, hi⟩

variable [DecidableEq τ]

/-- Worker `i` goes on with `jobs`, which are set, and the store is `s'` now. -/
theorem Owned.replace_start (h : K.Owned M who c) {jobs : List (Job S κ ρ)}
    (hnodup : (jobs.map Job.key).Nodup) (hset : ∀ job ∈ jobs, K.Set M who i s' job)
    (hothers : ∀ j, j ≠ i → ∀ e ∈ (c.worker j).keys,
      e ∉ jobs.map Job.key ∧ K.same e c.store s')
    (hfree : ∀ e, e ∉ jobs.map Job.key → (∀ j, j ≠ i → e ∉ (c.worker j).keys) → K.free e s') :
    K.Owned M who ⟨s', Function.update c.worker i (.start jobs)⟩ := by
  obtain ⟨hfit, hsub, hdone⟩ := fit_start hnodup hset
  refine ⟨fun a b e ha hb => ?_, fun j => ?_, fun e he => ?_⟩
  · by_cases hai : a = i <;> by_cases hbi : b = i
    · rw [hai, hbi]
    · subst hai
      simp only [Function.update_self, Function.update_of_ne hbi] at ha hb
      exact absurd (hsub e ha) (hothers b hbi e hb).1
    · subst hbi
      simp only [Function.update_self, Function.update_of_ne hai] at ha hb
      exact absurd (hsub e hb) (hothers a hai e ha).1
    · simp only [Function.update_of_ne hai, Function.update_of_ne hbi] at ha hb
      exact h.exclusive a b e ha hb
  · by_cases hji : j = i
    · subst hji
      simpa using hfit
    · simp only [Function.update_of_ne hji]
      exact (h.fit j).stable fun e he => (hothers j hji e he).2
  · have hout : e ∉ (Worker.start jobs).keys := by simpa using he i
    by_cases hin : e ∈ jobs.map Job.key
    · exact hdone e hin hout
    · exact hfree e hin fun j hji => by simpa [hji] using he j

/-- Worker `i` has no jobs yet, and the store is `s'` now. -/
theorem Owned.replace_taking (h : K.Owned M who c) {op : S.Op}
    {k : S.Rep op → Prog S (List (Job S κ ρ))} (htakes : K.Takes M who i (.cmd op k))
    (hidle : (c.worker i).keys = []) (hsame : ∀ e, K.same e c.store s') :
    K.Owned M who ⟨s', Function.update c.worker i (.taking op k)⟩ := by
  have hkeys : ∀ j, (Function.update c.worker i (.taking op k) j).keys = (c.worker j).keys := by
    intro j
    by_cases hji : j = i
    · subst hji
      rw [Function.update_self, hidle]
      rfl
    · rw [Function.update_of_ne hji]
  refine ⟨fun a b e ha hb => ?_, fun j => ?_, fun e he => ?_⟩
  · rw [hkeys] at ha hb
    exact h.exclusive a b e ha hb
  · by_cases hji : j = i
    · subst hji
      have hw : Function.update c.worker j (.taking op k) j = .taking op k :=
        Function.update_self ..
      show K.Fit M who j s' (Function.update c.worker j (.taking op k) j)
      rw [hw]
      exact htakes
    · simp only [Function.update_of_ne hji]
      exact (h.fit j).stable fun e _ => hsame e
  · refine K.free_stable e (h.free e fun j hj => he j ?_) (hsame e)
    rw [hkeys]
    exact hj

/-- A step of a worker on its job. -/
theorem Owned.act_working (h : K.Owned M who c) {key : κ} {op : S.Op} {k : S.Rep op → Prog S ρ}
    {rest : List (Job S κ ρ)} (hw : c.worker i = .working key op k rest) {x : ι}
    (hok : K.ok (who i (some key)) key op x c.store) :
    K.Owned M who (c.act M who i x) ∧ ∀ e, K.kept e c.store (c.act M who i x).store := by
  obtain ⟨hnodup, hset⟩ : K.Fit M who i c.store (.working key op k rest) := hw ▸ h.fit i
  obtain ⟨⟨hkept, hsame⟩, hnext⟩ := (hset _ List.mem_cons_self).act hok
  simp only [Crew.act, hw]
  generalize M.exec (who i (some key)) op x c.store = r at hkept hsame hnext
  have hmine : (c.worker i).keys = key :: rest.map Job.key := by rw [hw]; rfl
  refine ⟨?_, fun e => ?_⟩
  · have hset' : ∀ job ∈ (⟨key, k r.1⟩ :: rest : List (Job S κ ρ)), K.Set M who i r.2 job := by
      intro job hjob
      rcases List.mem_cons.mp hjob with rfl | hjob
      · exact hnext
      · have hin : job.key ∈ rest.map Job.key := List.mem_map.mpr ⟨job, hjob, rfl⟩
        have hne : job.key ≠ key := fun hk => (List.nodup_cons.mp hnodup).1 (hk ▸ hin)
        exact (hset job (List.mem_cons_of_mem _ hjob)).rely (hsame _ hne)
    refine h.replace_start hnodup hset' (fun j hji e he => ?_) fun e hout hno => ?_
    · have hout : e ∉ key :: rest.map Job.key := fun hm =>
        hji (h.exclusive j i e he (hmine ▸ hm))
      exact ⟨hout, hsame e fun hk => hout (hk ▸ List.mem_cons_self)⟩
    · have hne : e ≠ key := fun hk => hout (hk ▸ List.mem_cons_self)
      refine K.free_stable e (h.free e fun j => ?_) (hsame e hne)
      by_cases hji : j = i
      · subst hji
        rw [hmine]
        exact hout
      · exact hno j hji
  · by_cases he : e = key
    · exact he ▸ hkept
    · exact K.kept_of_same (hsame e he)

/-- A step of a worker that has no job yet. -/
theorem Owned.act_taking (h : K.Owned M who c) {op : S.Op}
    {k : S.Rep op → Prog S (List (Job S κ ρ))} (hw : c.worker i = .taking op k) {x : ι}
    (hok : K.okTake (who i none) op x c.store)
    (hnew : ∀ e ∈ (k (M.exec (who i none) op x c.store).1).jobs.map Job.key,
      ∀ j, e ∉ (c.worker j).keys) :
    K.Owned M who (c.act M who i x) ∧ ∀ e, K.kept e c.store (c.act M who i x).store := by
  have htakes : K.Takes M who i (.cmd op k) := by
    have := h.fit i
    rwa [hw] at this
  obtain ⟨hsame, hjobs, hnext⟩ := htakes x c.store hok
  obtain ⟨hnodup, hset⟩ := hjobs fun e he => h.free e (hnew e he)
  simp only [Crew.act, hw]
  generalize M.exec (who i none) op x c.store = r at hsame hnodup hset hnext hnew
  have hnone : (c.worker i).keys = [] := by rw [hw]; rfl
  refine ⟨?_, fun e => ?_⟩
  · cases hcode : k r.1 with
    | cmd op' k' =>
      rw [hcode] at hnext hsame
      exact h.replace_taking hnext hnone fun e => hsame e List.not_mem_nil
    | ret jobs =>
      rw [hcode] at hsame hnodup hset hnew
      refine h.replace_start hnodup (fun job hjob => (hset job hjob).2) (fun j _ e he => ?_)
        fun e hout hno => ?_
      · have hout : e ∉ jobs.map Job.key := fun hm => hnew e hm j he
        exact ⟨hout, hsame e hout⟩
      · refine K.free_stable e (h.free e fun j => ?_) (hsame e hout)
        by_cases hji : j = i
        · subst hji
          simp [hnone]
        · exact hno j hji
  · by_cases he : e ∈ (k r.1).jobs.map Job.key
    · obtain ⟨job, hjob, rfl⟩ := List.mem_map.mp he
      exact (hset job hjob).1
    · exact K.kept_of_same (hsame e he)

variable (K M who) in
/-- A step that is considered: the command is, and no worker gets a resource that another one
still has. -/
def Allows (c : Crew S κ ρ τ σ) (i : τ) (x : ι) : Prop :=
  match c.worker i with
  | .idle => True
  | .taking op k => K.okTake (who i none) op x c.store ∧
    ∀ e ∈ (k (M.exec (who i none) op x c.store).1).jobs.map Job.key, ∀ j, e ∉ (c.worker j).keys
  | .working key op _ _ => K.ok (who i (some key)) key op x c.store

/-- **A step of a worker** keeps the custody, and does to every resource what it may. -/
theorem Owned.act (h : K.Owned M who c) (i : τ) {x : ι} (hok : K.Allows M who c i x) :
    K.Owned M who (c.act M who i x) ∧ ∀ e, K.kept e c.store (c.act M who i x).store := by
  rw [Allows] at hok
  cases hw : c.worker i with
  | idle =>
    have hact : c.act M who i x = c := by simp only [Crew.act, hw]
    rw [hact]
    exact ⟨h, fun e => K.kept_of_same (K.same_refl e c.store)⟩
  | taking op k =>
    rw [hw] at hok
    exact h.act_taking hw hok.1 hok.2
  | working key op k rest =>
    rw [hw] at hok
    exact h.act_working hw hok

/-- **A new assignment**: what the program has already decided on is nobody's, and set. -/
theorem Owned.assign (h : K.Owned M who c) (i : τ) {code : Prog S (List (Job S κ ρ))}
    (htakes : K.Takes M who i code) (hnodup : (code.jobs.map Job.key).Nodup)
    (hnew : ∀ job ∈ code.jobs, (∀ j, job.key ∉ (c.worker j).keys) ∧ K.Set M who i c.store job) :
    K.Owned M who (c.assign i code) := by
  rw [Crew.assign]
  split
  · rename_i hw
    have hnone : (c.worker i).keys = [] := by rw [hw]; rfl
    cases code with
    | cmd op k => exact h.replace_taking htakes hnone fun e => K.same_refl e _
    | ret jobs =>
      refine h.replace_start hnodup (fun job hjob => (hnew job hjob).2) (fun j _ e he => ?_)
        fun e _ hno => h.free e fun j => ?_
      · refine ⟨fun hm => ?_, K.same_refl e _⟩
        obtain ⟨job, hjob, rfl⟩ := List.mem_map.mp hm
        exact (hnew job hjob).1 j he
      · by_cases hji : j = i
        · subst hji
          simp [hnone]
        · exact hno j hji
  · exact h

end Custody

end Conc
