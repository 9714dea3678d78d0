/-
# Runs of a labelled system, and pools of programs

`run step c ls` is the state that the labels `ls` lead to from `c`, and `Along step φ c ls`
says that `φ` holds at every step on the way.  What one step preserves (`hstep` below) becomes
what a whole run preserves by `run_inv`, and a property of every step under an invariant by
`Along.of_inv`; `Along.iff_of_inv` compares two such properties.

A `Pool` is a store with a program for every thread.  `Pool.step` lets one thread issue its
next command, so the label lists are exactly the interleavings of the threads.  What a thread
can issue at all only shrinks along a run (`Pool.Uses.step`), and threads that each satisfy
their contract, the guarantee of one being what the others rely on, satisfy them together
(`Pool.Safe.run`).
-/
import SmartDrop.Lib.Prog
import Mathlib.Data.List.Forall2

namespace Conc

/-! ## 1. Runs -/

section Run

variable {C L : Type} (step : C → L → C)

/-- The state that a list of labels leads to. -/
def run (c : C) (ls : List L) : C := ls.foldl step c

/-- `φ` holds of every state of the run from `c` and the label taken there. -/
def Along (φ : C → L → Prop) : C → List L → Prop
  | _, [] => True
  | c, l :: ls => φ c l ∧ Along φ (step c l) ls

variable {step} {φ ψ : C → L → Prop} {I : C → Prop} {c : C} {ls : List L}

@[simp] theorem run_nil (c : C) : run step c [] = c := rfl

@[simp] theorem run_cons (c : C) (l : L) (ls : List L) :
    run step c (l :: ls) = run step (step c l) ls := rfl

theorem run_append (c : C) (ls ms : List L) :
    run step c (ls ++ ms) = run step (run step c ls) ms := List.foldl_append

@[simp] theorem along_nil (c : C) : Along step φ c [] := trivial

@[simp] theorem along_cons (c : C) (l : L) (ls : List L) :
    Along step φ c (l :: ls) ↔ φ c l ∧ Along step φ (step c l) ls := Iff.rfl

theorem along_append (c : C) (ls ms : List L) :
    Along step φ c (ls ++ ms) ↔ Along step φ c ls ∧ Along step φ (run step c ls) ms := by
  induction ls generalizing c with
  | nil => simp
  | cons l ls ih => simp [ih, and_assoc]

instance Along.decidable [∀ c l, Decidable (φ c l)] (c : C) :
    (ls : List L) → Decidable (Along step φ c ls)
  | [] => isTrue trivial
  | l :: ls =>
    have := Along.decidable (step c l) ls
    inferInstanceAs (Decidable (φ c l ∧ Along step φ (step c l) ls))

theorem Along.of_forall (h : ∀ c l, φ c l) (c : C) (ls : List L) : Along step φ c ls := by
  induction ls generalizing c with
  | nil => trivial
  | cons l ls ih => exact ⟨h c l, ih _⟩

/-- A property of the labels alone. -/
theorem Along.of_mem {χ : L → Prop} (h : ∀ l ∈ ls, χ l) (c : C) : Along step (fun _ => χ) c ls := by
  induction ls generalizing c with
  | nil => trivial
  | cons l ls ih =>
    exact ⟨h l List.mem_cons_self, ih (fun l' hl' => h l' (List.mem_cons_of_mem l hl')) _⟩

theorem Along.mono (h : ∀ c l, φ c l → ψ c l) (hφ : Along step φ c ls) : Along step ψ c ls := by
  induction ls generalizing c with
  | nil => trivial
  | cons l ls ih => exact ⟨h c l hφ.1, ih hφ.2⟩

/-- **Run induction.**  An invariant that every allowed step keeps holds at the end of every
run whose steps are all allowed. -/
theorem run_inv (hstep : ∀ c l, I c → φ c l → I (step c l)) (hc : I c)
    (hφ : Along step φ c ls) : I (run step c ls) := by
  induction ls generalizing c with
  | nil => exact hc
  | cons l ls ih => exact ih (hstep c l hc hφ.1) hφ.2

/-- An invariant that every step keeps. -/
theorem run_inv_of_step (hstep : ∀ c l, I c → I (step c l)) (hc : I c) : I (run step c ls) := by
  induction ls generalizing c with
  | nil => exact hc
  | cons l ls ih => exact ih (hstep c l hc)

theorem Along.and (hφ : Along step φ c ls) (hψ : Along step ψ c ls) :
    Along step (fun c l => φ c l ∧ ψ c l) c ls := by
  induction ls generalizing c with
  | nil => trivial
  | cons l ls ih => exact ⟨⟨hφ.1, hψ.1⟩, ih hφ.2 hψ.2⟩

/-- A property of the labels alone can be asked of every step. -/
theorem Along.and_forall {χ : L → Prop} (hφ : Along step φ c ls) (hχ : ∀ l ∈ ls, χ l) :
    Along step (fun c l => φ c l ∧ χ l) c ls := by
  induction ls generalizing c with
  | nil => trivial
  | cons l ls ih =>
    exact ⟨⟨hφ.1, hχ l List.mem_cons_self⟩,
      ih hφ.2 fun l' hl' => hχ l' (List.mem_cons_of_mem _ hl')⟩

/-- **Two runs.**  A relation that paired steps keep holds between the ends of the runs. -/
theorem run_rel {C' L' : Type} {step' : C' → L' → C'} {φ' : C' → L' → Prop} {R : C → C' → Prop}
    {T : L → L' → Prop}
    (hstep : ∀ c c' l l', R c c' → T l l' → φ c l → φ' c' l' → R (step c l) (step' c' l'))
    {c' : C'} {ls' : List L'} (hc : R c c') (hls : List.Forall₂ T ls ls')
    (hφ : Along step φ c ls) (hφ' : Along step' φ' c' ls') : R (run step c ls) (run step' c' ls') := by
  induction hls generalizing c c' with
  | nil => exact hc
  | cons hl _ ih => exact ih (hstep _ _ _ _ hc hl hφ.1 hφ'.1) hφ.2 hφ'.2

/-- What every allowed step does under an invariant, every step of an allowed run does. -/
theorem Along.of_inv (hstep : ∀ c l, I c → φ c l → I (step c l) ∧ ψ c l) (hc : I c)
    (hφ : Along step φ c ls) : Along step ψ c ls := by
  induction ls generalizing c with
  | nil => trivial
  | cons l ls ih =>
    obtain ⟨hI, hψ⟩ := hstep c l hc hφ.1
    exact ⟨hψ, ih hI hφ.2⟩

/-- Two properties of steps that agree under an invariant agree on whole runs. -/
theorem Along.iff_of_inv (hI : ∀ c l, I c → I (step c l)) (h : ∀ c l, I c → (φ c l ↔ ψ c l))
    (hc : I c) : Along step φ c ls ↔ Along step ψ c ls := by
  induction ls generalizing c with
  | nil => simp
  | cons l ls ih => rw [along_cons, along_cons, h c l hc, ih (hI c l hc)]

/-- A property of states that each step keeps exactly when `φ` allows it: it holds in every
state of a run if and only if every step of the run is allowed. -/
theorem forall_prefix_iff {G : C → Prop} (hI : ∀ c l, I c → I (step c l))
    (h : ∀ c l, I c → G c → (G (step c l) ↔ φ c l)) (hc : I c) (hg : G c) :
    (∀ l₁ l₂, ls = l₁ ++ l₂ → G (run step c l₁)) ↔ Along step φ c ls := by
  induction ls generalizing c with
  | nil =>
    refine ⟨fun _ => trivial, fun _ l₁ l₂ e => ?_⟩
    obtain ⟨rfl, -⟩ := List.append_eq_nil_iff.mp e.symm
    exact hg
  | cons l ls ih =>
    constructor
    · intro hall
      have hgl : G (step c l) := hall [l] ls rfl
      refine ⟨(h c l hc hg).mp hgl, (ih (hI c l hc) hgl).mp fun l₁ l₂ e => ?_⟩
      exact hall (l :: l₁) l₂ (by rw [e, List.cons_append])
    · rintro ⟨hφ, hrest⟩ l₁ l₂ e
      have hgl : G (step c l) := (h c l hc hg).mpr hφ
      cases l₁ with
      | nil => exact hg
      | cons a l₁ =>
        obtain ⟨rfl, e'⟩ := List.cons.inj e
        exact (ih (hI c l hc) hgl).mpr hrest l₁ l₂ e'

/-- A property of states that follows from an invariant: if the steps that `φ` excludes are those
that break the property, it holds in every state of a run exactly when no step is excluded. -/
theorem forall_prefix_iff_of_inv {G : C → Prop}
    (hstep : ∀ c l, I c → ψ c l → φ c l → I (step c l)) (hgood : ∀ c, I c → G c)
    (hbad : ∀ c l, I c → ψ c l → ¬ φ c l → ¬ G (step c l)) (hc : I c) (hψ : Along step ψ c ls) :
    (∀ l₁ l₂, ls = l₁ ++ l₂ → G (run step c l₁)) ↔ Along step φ c ls := by
  induction ls generalizing c with
  | nil =>
    refine ⟨fun _ => trivial, fun _ l₁ l₂ e => ?_⟩
    obtain ⟨rfl, -⟩ := List.append_eq_nil_iff.mp e.symm
    exact hgood c hc
  | cons l ls ih =>
    constructor
    · intro hall
      have hφ : φ c l := by
        by_contra hφ
        exact hbad c l hc hψ.1 hφ (hall [l] ls rfl)
      refine ⟨hφ, (ih (hstep c l hc hψ.1 hφ) hψ.2).mp fun l₁ l₂ e => ?_⟩
      exact hall (l :: l₁) l₂ (by rw [e, List.cons_append])
    · rintro ⟨hφ, hrest⟩ l₁ l₂ e
      cases l₁ with
      | nil => exact hgood c hc
      | cons a l₁ =>
        obtain ⟨rfl, e'⟩ := List.cons.inj e
        exact (ih (hstep c l hc hψ.1 hφ) hψ.2).mpr hrest l₁ l₂ e'

/-- A preorder relates the states of a run pairwise exactly when each step does. -/
theorem forall_later_iff {R : C → C → Prop} (hr : ∀ c, R c c)
    (ht : ∀ a b c, R a b → R b c → R a c) :
    (∀ l₁ l₂ l₃, ls = l₁ ++ l₂ ++ l₃ → R (run step c l₁) (run step c (l₁ ++ l₂))) ↔
      Along step (fun c l => R c (step c l)) c ls := by
  induction ls generalizing c with
  | nil =>
    refine ⟨fun _ => trivial, fun _ l₁ l₂ l₃ e => ?_⟩
    obtain ⟨e, -⟩ := List.append_eq_nil_iff.mp e.symm
    obtain ⟨rfl, rfl⟩ := List.append_eq_nil_iff.mp e
    exact hr c
  | cons l ls ih =>
    constructor
    · intro hall
      refine ⟨hall [] [l] ls rfl, ih.mp fun l₁ l₂ l₃ e => ?_⟩
      exact hall (l :: l₁) l₂ l₃ (by rw [e, List.cons_append, List.cons_append])
    · rintro ⟨hl, hrest⟩ l₁ l₂ l₃ e
      cases l₁ with
      | cons a l₁ =>
        obtain ⟨rfl, e'⟩ := List.cons.inj e
        exact ih.mpr hrest l₁ l₂ l₃ e'
      | nil =>
        cases l₂ with
        | nil => exact hr c
        | cons a l₂ =>
          obtain ⟨rfl, e'⟩ := List.cons.inj e
          exact ht _ _ _ hl (ih.mpr hrest [] l₂ l₃ e')

end Run

/-! ## 2. Pools of threads -/

variable {S : Sig} {α τ ι σ : Type}

/-- A store and the remaining program of every thread. -/
structure Pool (S : Sig) (α τ σ : Type) where
  store : σ
  prog : τ → Prog S α

namespace Pool

variable [DecidableEq τ] (M : Machine S τ ι σ)

/-- Thread `l.1` issues its next command and the environment answers `l.2`. -/
def step (c : Pool S α τ σ) (l : τ × ι) : Pool S α τ σ where
  store := ((c.prog l.1).act M l.1 l.2 c.store).2
  prog := Function.update c.prog l.1 ((c.prog l.1).act M l.1 l.2 c.store).1

variable {M}

theorem step_of_ret {c : Pool S α τ σ} {l : τ × ι} {a : α} (h : c.prog l.1 = .ret a) :
    c.step M l = c := by
  have hact : (c.prog l.1).act M l.1 l.2 c.store = (c.prog l.1, c.store) := by rw [h]; rfl
  simp only [step, hact, Function.update_eq_self]

theorem step_of_cmd {c : Pool S α τ σ} {i : τ} {op : S.Op} {k : S.Rep op → Prog S α} {s : σ}
    (h : c.prog i = .cmd op k) (hs : c.store = s) (x : ι) :
    (c.step M (i, x)).prog i = k (M.exec i op x s).1 ∧
      (c.step M (i, x)).store = (M.exec i op x s).2 := by
  subst hs
  simp only [step, h, Prog.act, Function.update_self, and_self]

@[simp] theorem step_prog_self (c : Pool S α τ σ) (l : τ × ι) :
    (c.step M l).prog l.1 = ((c.prog l.1).act M l.1 l.2 c.store).1 := by simp [step]

theorem step_prog_of_ne {c : Pool S α τ σ} {l : τ × ι} {j : τ} (h : j ≠ l.1) :
    (c.step M l).prog j = c.prog j := by simp [step, h]

/-- The command that a label makes a thread issue satisfies `φ` there. -/
def Issues (φ : S.Op → ι → σ → Prop) (c : Pool S α τ σ) (l : τ × ι) : Prop :=
  match c.prog l.1 with
  | .ret _ => True
  | .cmd op _ => φ op l.2 c.store

omit [DecidableEq τ] in
theorem issues_of_cmd {φ : S.Op → ι → σ → Prop} {c : Pool S α τ σ} {i : τ} {op : S.Op}
    {k : S.Rep op → Prog S α} {x : ι} (h : c.prog i = .cmd op k) (hφ : φ op x c.store) :
    Issues φ c (i, x) := by
  rw [Issues, h]
  exact hφ

instance (φ : S.Op → ι → σ → Prop) [∀ op x s, Decidable (φ op x s)] (c : Pool S α τ σ)
    (l : τ × ι) : Decidable (Issues φ c l) := by
  unfold Issues
  cases c.prog l.1 with
  | ret a => exact instDecidableTrue
  | cmd op k => infer_instance

instance (φ : S.Op → ι → σ → Prop) [∀ op x s, Decidable (φ op x s)] (c : Pool S α τ σ)
    (ls : List (τ × ι)) : Decidable (Along (step M) (Issues φ) c ls) := Along.decidable c ls

/-- Thread `i` has returned, with a result that satisfies `p`. -/
def Returned (c : Pool S α τ σ) (i : τ) (p : α → Bool) : Prop := ∃ a, c.prog i = .ret a ∧ p a = true

omit [DecidableEq τ] in
theorem returned_iff {c : Pool S α τ σ} {i : τ} {p : α → Bool} :
    c.Returned i p ↔ (c.prog i).result?.any p = true := by
  unfold Returned
  cases c.prog i with
  | ret a => simp
  | cmd op k => simp

instance (c : Pool S α τ σ) (i : τ) (p : α → Bool) : Decidable (c.Returned i p) :=
  decidable_of_iff _ returned_iff.symm

/-- Thread `i` can only ever issue commands that satisfy `φ i`. -/
def Uses (φ : τ → S.Op → Prop) (c : Pool S α τ σ) : Prop := ∀ i, (c.prog i).Uses (φ i)

/-- What the threads can issue only shrinks. -/
theorem Uses.step {φ : τ → S.Op → Prop} {c : Pool S α τ σ} (h : c.Uses φ) (l : τ × ι) :
    (c.step M l).Uses φ := by
  intro j
  by_cases hj : j = l.1
  · subst hj
    rw [step_prog_self]
    have hi := h l.1
    cases hp : c.prog l.1 with
    | ret a => trivial
    | cmd op k => rw [hp] at hi; exact hi.2 _
  · rw [step_prog_of_ne hj]
    exact h j

/-- **A store invariant of a pool.**  What every command that a thread can issue keeps, where it
is `ok`, holds at the end of every run whose commands are all `ok`. -/
theorem run_keeps {φ : τ → S.Op → Prop} {ok : S.Op → ι → σ → Prop} {I : σ → Prop}
    {c : Pool S α τ σ} {ls : List (τ × ι)}
    (hstep : ∀ i op x s, φ i op → ok op x s → I s → I (M.exec i op x s).2) (huses : c.Uses φ)
    (hI : I c.store) (hls : Along (step M) (Issues ok) c ls) : I (Conc.run (step M) c ls).store := by
  refine (run_inv (I := fun c : Pool S α τ σ => c.Uses φ ∧ I c.store) ?_ ⟨huses, hI⟩ hls).2
  rintro c ⟨i, x⟩ ⟨hu, hs⟩ hok
  refine ⟨hu.step _, ?_⟩
  cases hp : c.prog i with
  | ret a => rwa [step_of_ret hp]
  | cmd op k =>
    have hop : φ i op := by
      have := hu i
      rw [hp] at this
      exact this.1
    have hx : ok op x c.store := by simpa only [Issues, hp] using hok
    have hstore : (c.step M (i, x)).store = (M.exec i op x c.store).2 := by
      simp [Pool.step, hp, Prog.act]
    rw [hstore]
    exact hstep i op x c.store hop hx hs

/-! ## 3. Threads under contracts -/

/-- Every thread can go on from the store under its contract, and returns with `Q`. -/
def Safe (M : Machine S τ ι σ) (C : τ → Contract S ι σ) (Q : τ → α → σ → Prop)
    (c : Pool S α τ σ) : Prop := ∀ i, Ready M i (C i) (c.prog i) (Q i) c.store

/-- What one thread guarantees is what the others rely on. -/
def Compatible (C : τ → Contract S ι σ) : Prop :=
  ∀ i j, j ≠ i → ∀ s s', (C i).guar s s' → (C j).rely s s'

section Safe

variable {C : τ → Contract S ι σ} {Q : τ → α → σ → Prop} {c : Pool S α τ σ}

/-- One step: the thread that moves meets its guarantee, and the others go on. -/
theorem Safe.step (hC : Compatible C) (h : c.Safe M C Q) (l : τ × ι)
    (hok : Issues (C l.1).ok c l) : (c.step M l).Safe M C Q := by
  obtain ⟨i, x⟩ := l
  cases hp : c.prog i with
  | ret a =>
    rw [step_of_ret hp]
    exact h
  | cmd op k =>
    have hi := h i
    rw [hp] at hi
    have hop : (C i).ok op x c.store := by simpa only [Issues, hp] using hok
    obtain ⟨hguar, hnext⟩ := hi.act hop
    have hstore : (c.step M (i, x)).store = (M.exec i op x c.store).2 := by
      simp [Pool.step, hp, Prog.act]
    intro j
    rw [hstore]
    by_cases hj : j = i
    · subst hj
      have hself : (c.step M (j, x)).prog j = k (M.exec j op x c.store).1 := by
        simp [Pool.step, hp, Prog.act]
      rw [hself]
      exact hnext
    · rw [show (c.step M (i, x)).prog j = c.prog j from step_prog_of_ne hj]
      exact (h j).rely (hC i j hj _ _ hguar)

/-- An assertion on the store that no guarantee can make false stays true. -/
theorem Safe.run_stable {A : σ → Prop} (hA : ∀ i, Stable (C i).guar A) (hC : Compatible C)
    (h : c.Safe M C Q) (hs : A c.store) {ls : List (τ × ι)}
    (hls : Along (Pool.step M) (fun c l => Issues (C l.1).ok c l) c ls) :
    A (Conc.run (Pool.step M) c ls).store := by
  refine (run_inv (I := fun c : Pool S α τ σ => c.Safe M C Q ∧ A c.store) ?_ ⟨h, hs⟩ hls).2
  rintro c ⟨i, x⟩ ⟨hsafe, hA'⟩ hok
  refine ⟨hsafe.step hC _ hok, ?_⟩
  cases hp : c.prog i with
  | ret a => rwa [step_of_ret hp]
  | cmd op k =>
    have hi := hsafe i
    rw [hp] at hi
    have hop : (C i).ok op x c.store := by simpa only [Issues, hp] using hok
    have hstore : (c.step M (i, x)).store = (M.exec i op x c.store).2 := by
      simp [Pool.step, hp, Prog.act]
    rw [hstore]
    exact hA i hA' (hi.act hop).1

/-- **Parallel composition.**  Threads with compatible contracts satisfy them in every run whose
steps are `ok`. -/
theorem Safe.run (hC : Compatible C) (h : c.Safe M C Q) {ls : List (τ × ι)}
    (hls : Along (Pool.step M) (fun c l => Issues (C l.1).ok c l) c ls) :
    (run (Pool.step M) c ls).Safe M C Q :=
  run_inv (I := fun c : Pool S α τ σ => c.Safe M C Q) (fun _ l h hl => h.step hC l hl) h hls

omit [DecidableEq τ] in
/-- A thread that has returned has reached its postcondition. -/
theorem Safe.done (h : c.Safe M C Q) {i : τ} {a : α} (hi : c.prog i = .ret a) : Q i a c.store := by
  have hready := h i
  rw [hi] at hready
  exact hready.done

/-- What a thread has still to do changes only by its own steps. -/
theorem run_prog_of_not_mem {i : τ} {ls : List (τ × ι)} (hi : ∀ l ∈ ls, l.1 ≠ i) :
    (run (Pool.step M) c ls).prog i = c.prog i := by
  induction ls generalizing c with
  | nil => rfl
  | cons l ls ih =>
    rw [run_cons, ih fun l' hl' => hi l' (List.mem_cons_of_mem _ hl')]
    exact step_prog_of_ne (hi l List.mem_cons_self).symm

end Safe

/-! ## 4. Machines that keep a record

A record of a run is a second part of the store, which no command reads.  An invariant may speak
of it, and what it says of the first part holds of the machine without the record. -/

section Observe

variable {ω : Type}

/-- **The record changes nothing**: the run with it is the run without it. -/
theorem run_observe {c : Pool S α τ σ} {d : Pool S α τ (σ × ω)} (hstore : d.store.1 = c.store)
    (hprog : d.prog = c.prog) (ls : List (τ × ι)) (note : τ → (op : S.Op) → ι → σ → ω → ω) :
    (run (Pool.step (M.observe note)) d ls).store.1 = (run (Pool.step M) c ls).store ∧
      (run (Pool.step (M.observe note)) d ls).prog = (run (Pool.step M) c ls).prog := by
  induction ls generalizing c d with
  | nil => exact ⟨hstore, hprog⟩
  | cons l ls ih =>
    refine ih ?_ ?_
    · cases hp : c.prog l.1 with
      | ret a => simp only [Pool.step, hprog, hp, Prog.act, hstore]
      | cmd op k => simp only [Pool.step, hprog, hp, Prog.act, Machine.observe, hstore]
    · cases hp : c.prog l.1 with
      | ret a => simp only [Pool.step, hprog, hp, Prog.act]
      | cmd op k => simp only [Pool.step, hprog, hp, Prog.act, Machine.observe, hstore]

end Observe

end Pool

end Conc
