/-
# Programs that run one atomic command at a time

A server is a set of pieces of code that take turns: each runs up to its next command to a
shared store, the store executes the command, and any other piece may run before the reply is
used.  `Prog S α` is such a piece of code: a tree whose nodes are the commands of a signature
`S` and whose branches are the possible replies.  It says nothing about what a command does;
a `Machine` says that, and one program can be run alone (`runWith`) or among others (`Pool`).

* `Prog.Uses φ t`: every command that `t` can ever issue satisfies `φ`.
* `Prog.Sat`: the rely/guarantee judgement.  Its rules (`ret`, `cmd`, `bind`, `mono`, `frame`)
  follow the shape of the program; `Sat.act` is what one step of a satisfying program gives.

A program that can throw is a `Throws S ε α`, with the rules `SatE` for both exits.
-/
import Mathlib.Data.Nat.Notation
import Mathlib.Logic.Function.Basic

namespace Conc

/-! ## 1. Signatures and programs -/

/-- A signature of atomic commands: which can be issued, and what each one replies. -/
structure Sig where
  Op : Type
  Rep : Op → Type

/-- A program over the commands of `S` that returns an `α`. -/
inductive Prog (S : Sig) (α : Type) : Type where
  | ret (a : α) : Prog S α
  | cmd (op : S.Op) (k : S.Rep op → Prog S α) : Prog S α

variable {S : Sig} {α β γ ε : Type}

namespace Prog

/-- Run `t`, then go on with what it returned. -/
protected def bind : Prog S α → (α → Prog S β) → Prog S β
  | .ret a, f => f a
  | .cmd op k, f => .cmd op fun r => (k r).bind f

instance : Monad (Prog S) where
  pure := .ret
  bind := .bind

/-- Issue one command and return its reply. -/
def call (op : S.Op) : Prog S (S.Rep op) := .cmd op .ret

@[simp] theorem pure_eq (a : α) : (pure a : Prog S α) = .ret a := rfl

@[simp] theorem bind_eq (t : Prog S α) (f : α → Prog S β) : (t >>= f) = t.bind f := rfl

@[simp] theorem ret_bind (a : α) (f : α → Prog S β) : (Prog.ret a).bind f = f a := rfl

@[simp] theorem cmd_bind (op : S.Op) (k : S.Rep op → Prog S α) (f : α → Prog S β) :
    (Prog.cmd op k).bind f = .cmd op fun r => (k r).bind f := rfl

@[simp] theorem call_bind (op : S.Op) (f : S.Rep op → Prog S β) :
    (call op).bind f = .cmd op f := rfl

theorem bind_assoc (t : Prog S α) (f : α → Prog S β) (g : β → Prog S γ) :
    (t.bind f).bind g = t.bind fun a => (f a).bind g := by
  induction t with
  | ret a => rfl
  | cmd op k ih =>
    simp only [cmd_bind, Prog.cmd.injEq, heq_eq_eq, true_and]
    funext r
    exact ih r

theorem bind_ret (t : Prog S α) : t.bind .ret = t := by
  induction t with
  | ret a => rfl
  | cmd op k ih => exact congrArg (Prog.cmd op) (funext ih)

/-- What a finished program has returned. -/
def result? : Prog S α → Option α
  | .ret a => some a
  | .cmd _ _ => none

@[simp] theorem result?_ret (a : α) : (Prog.ret a : Prog S α).result? = some a := rfl

@[simp] theorem result?_cmd (op : S.Op) (k : S.Rep op → Prog S α) :
    (Prog.cmd op k).result? = none := rfl

/-! ## 2. Which commands a program can issue -/

/-- Every command that `t` can issue, whatever the replies, satisfies `φ`. -/
def Uses (φ : S.Op → Prop) : Prog S α → Prop
  | .ret _ => True
  | .cmd op k => φ op ∧ ∀ r, (k r).Uses φ

@[simp] theorem uses_ret (φ : S.Op → Prop) (a : α) : (Prog.ret a).Uses φ := trivial

@[simp] theorem uses_cmd (φ : S.Op → Prop) (op : S.Op) (k : S.Rep op → Prog S α) :
    (Prog.cmd op k).Uses φ ↔ φ op ∧ ∀ r, (k r).Uses φ := Iff.rfl

@[simp] theorem uses_call (φ : S.Op → Prop) (op : S.Op) : (call op).Uses φ ↔ φ op := by
  simp [call]

/-- A composed program issues what its parts issue. -/
theorem Uses.bind {φ : S.Op → Prop} {t : Prog S α} {f : α → Prog S β} (ht : t.Uses φ)
    (hf : ∀ a, (f a).Uses φ) : (t.bind f).Uses φ := by
  induction t with
  | ret a => exact hf a
  | cmd op k ih => exact ⟨ht.1, fun r => ih r (ht.2 r)⟩

theorem uses_of_forall {φ : S.Op → Prop} (h : ∀ op, φ op) (t : Prog S α) : t.Uses φ := by
  induction t with
  | ret a => trivial
  | cmd op k ih => exact ⟨h op, ih⟩

theorem Uses.mono {φ ψ : S.Op → Prop} (h : ∀ op, φ op → ψ op) {t : Prog S α} (ht : t.Uses φ) :
    t.Uses ψ := by
  induction t with
  | ret a => trivial
  | cmd op k ih => exact ⟨h op ht.1, fun r => ih r (ht.2 r)⟩

end Prog

/-! ## 3. Machines: what a command does

The thread that issues a command and the environment's answer at that moment (the clock, a
network reply, whether the command fails) are arguments of its execution. -/

/-- What each command replies and does to the store. -/
structure Machine (S : Sig) (τ ι σ : Type) where
  exec : τ → (op : S.Op) → ι → σ → S.Rep op × σ

variable {τ θ ι σ : Type}

/-- The same machine for other threads, each of which acts as the caller that `f` names. -/
def Machine.comap (M : Machine S θ ι σ) (f : τ → θ) : Machine S τ ι σ where
  exec i := M.exec (f i)

/-- The same machine, which also keeps a record of what is executed, by whom and where. -/
def Machine.observe (M : Machine S τ ι σ) {ω : Type}
    (note : τ → (op : S.Op) → ι → σ → ω → ω) : Machine S τ ι (σ × ω) where
  exec i op x s := ((M.exec i op x s.1).1, (M.exec i op x s.1).2, note i op x s.1 s.2)

/-- One step of a program: its next command is executed.  A finished program stays. -/
def Prog.act (M : Machine S τ ι σ) (i : τ) (x : ι) : Prog S α → σ → Prog S α × σ
  | .ret a, s => (.ret a, s)
  | .cmd op k, s => (k (M.exec i op x s).1, (M.exec i op x s).2)

/-- Run a program alone to its end, the environment answering from the stream `xs`. -/
def Prog.runWith (M : Machine S τ ι σ) (i : τ) : Prog S α → (ℕ → ι) → σ → α × σ
  | .ret a, _, s => (a, s)
  | .cmd op k, xs, s =>
    (k (M.exec i op (xs 0) s).1).runWith M i (fun n => xs (n + 1)) (M.exec i op (xs 0) s).2

@[simp] theorem Prog.runWith_ret (M : Machine S τ ι σ) (i : τ) (a : α) (xs : ℕ → ι) (s : σ) :
    (Prog.ret a : Prog S α).runWith M i xs s = (a, s) := rfl

@[simp] theorem Prog.runWith_cmd (M : Machine S τ ι σ) (i : τ) (op : S.Op)
    (k : S.Rep op → Prog S α) (xs : ℕ → ι) (s : σ) :
    (Prog.cmd op k).runWith M i xs s =
      (k (M.exec i op (xs 0) s).1).runWith M i (fun n => xs (n + 1)) (M.exec i op (xs 0) s).2 :=
  rfl

/-- Run a program alone while the environment keeps giving the answer `x`. -/
def Prog.runAt (M : Machine S τ ι σ) (i : τ) (t : Prog S α) (x : ι) (s : σ) : α × σ :=
  t.runWith M i (fun _ => x) s

section RunAt

variable (M : Machine S τ ι σ) (i : τ) (x : ι) (s : σ)

@[simp] theorem Prog.runAt_ret (a : α) : (Prog.ret a : Prog S α).runAt M i x s = (a, s) := rfl

@[simp] theorem Prog.runAt_cmd (op : S.Op) (k : S.Rep op → Prog S α) :
    (Prog.cmd op k).runAt M i x s = (k (M.exec i op x s).1).runAt M i x (M.exec i op x s).2 := rfl

theorem Prog.runAt_bind (t : Prog S α) (f : α → Prog S β) :
    (t.bind f).runAt M i x s = (f (t.runAt M i x s).1).runAt M i x (t.runAt M i x s).2 := by
  induction t generalizing s with
  | ret a => rfl
  | cmd op k ih => exact ih _ _

variable {M i x} in
/-- A change of the state that the commands of a program do not see commutes with it. -/
theorem Prog.runAt_comm {φ : S.Op → Prop} {w : σ → σ} {t : Prog S α}
    (hw : ∀ op s, φ op → M.exec i op x (w s) = ((M.exec i op x s).1, w (M.exec i op x s).2))
    (ht : t.Uses φ) (s : σ) :
    t.runAt M i x (w s) = ((t.runAt M i x s).1, w (t.runAt M i x s).2) := by
  induction t generalizing s with
  | ret a => rfl
  | cmd op k ih =>
    rw [Prog.runAt_cmd, Prog.runAt_cmd, hw op s ht.1]
    exact ih _ (ht.2 _) _

end RunAt

/-! ## 4. Rely and guarantee

A thread is judged against what the others may do between two of its commands (`rely`), and
answers for what its own commands do (`guar`).  `ok` says at which steps the judgement has to
hold: it can exclude a command in a store where it would break the guarantee, or an answer of
the environment, and a run is then claimed safe only when its steps are `ok`. -/

/-- An assertion that the moves of `R` cannot make false. -/
def Stable (R : σ → σ → Prop) (P : σ → Prop) : Prop := ∀ ⦃s s'⦄, P s → R s s' → P s'

/-- What a thread relies on, what it guarantees, and the steps that are considered. -/
structure Contract (S : Sig) (ι σ : Type) where
  ok : S.Op → ι → σ → Prop
  rely : σ → σ → Prop
  guar : σ → σ → Prop

/-- `Sat M i C t P Q`: from a store that satisfies `P`, every `ok` step of `t` as thread `i`
meets the guarantee, with the others moving as `C.rely` says, and `t` returns only with `Q`.
Between two commands an assertion carries what `t` knows; it has to be stable. -/
def Sat (M : Machine S τ ι σ) (i : τ) (C : Contract S ι σ) :
    Prog S α → (σ → Prop) → (α → σ → Prop) → Prop
  | .ret a, P, Q => ∀ s, P s → Q a s
  | .cmd op k, P, Q => ∀ x s, P s → C.ok op x s →
      C.guar s (M.exec i op x s).2 ∧ ∃ P', Stable C.rely P' ∧ P' (M.exec i op x s).2 ∧
        Sat M i C (k (M.exec i op x s).1) P' Q

namespace Sat

variable {M : Machine S τ ι σ} {i : τ} {C : Contract S ι σ}

theorem ret {a : α} {P : σ → Prop} {Q : α → σ → Prop} (h : ∀ s, P s → Q a s) :
    Sat M i C (.ret a) P Q := h

theorem cmd {op : S.Op} {k : S.Rep op → Prog S α} {P : σ → Prop} {Q : α → σ → Prop}
    (h : ∀ x s, P s → C.ok op x s →
      C.guar s (M.exec i op x s).2 ∧ ∃ P', Stable C.rely P' ∧ P' (M.exec i op x s).2 ∧
        Sat M i C (k (M.exec i op x s).1) P' Q) : Sat M i C (.cmd op k) P Q := h

/-- The rule of consequence. -/
theorem mono {t : Prog S α} {P P' : σ → Prop} {Q Q' : α → σ → Prop} (h : Sat M i C t P Q)
    (hP : ∀ s, P' s → P s) (hQ : ∀ a s, Q a s → Q' a s) : Sat M i C t P' Q' := by
  induction t generalizing P P' with
  | ret a => exact fun s hs => hQ a s (h s (hP s hs))
  | cmd op k ih =>
    intro x s hs hok
    obtain ⟨hg, P₁, hst, hp, hk⟩ := h x s (hP s hs) hok
    exact ⟨hg, P₁, hst, hp, ih _ hk fun _ h₁ => h₁⟩

theorem pre {t : Prog S α} {P P' : σ → Prop} {Q : α → σ → Prop} (h : Sat M i C t P Q)
    (hP : ∀ s, P' s → P s) : Sat M i C t P' Q := h.mono hP fun _ _ hq => hq

/-- A part of the precondition that does not depend on the store can be assumed. -/
theorem assume {t : Prog S α} {φ : Prop} {P : σ → Prop} {Q : α → σ → Prop}
    (h : φ → Sat M i C t P Q) : Sat M i C t (fun s => φ ∧ P s) Q := by
  cases t with
  | ret a => exact fun s hs => h hs.1 s hs.2
  | cmd op k => exact fun x s hs hok => h hs.1 x s hs.2 hok

/-- The store at the start can be named. -/
theorem fix {t : Prog S α} {P : σ → Prop} {Q : α → σ → Prop}
    (h : ∀ s, P s → Sat M i C t (· = s) Q) : Sat M i C t P Q := by
  cases t with
  | ret a => exact fun s hs => h s hs s rfl
  | cmd op k => exact fun x s hs hok => h s hs x s rfl hok

/-- One command: what it replies and leaves satisfies `Q`, which the others cannot make false. -/
theorem call {op : S.Op} {P : σ → Prop} {Q : S.Rep op → σ → Prop}
    (hst : ∀ r, Stable C.rely (Q r)) (h : ∀ x s, P s → C.ok op x s →
      C.guar s (M.exec i op x s).2 ∧ Q (M.exec i op x s).1 (M.exec i op x s).2) :
    Sat M i C (Prog.call op) P Q := by
  intro x s hs hok
  obtain ⟨hg, hq⟩ := h x s hs hok
  exact ⟨hg, Q (M.exec i op x s).1, hst _, hq, fun _ hs => hs⟩

/-- Sequencing: what the first part returns with is what the second part starts from. -/
theorem bind {t : Prog S α} {f : α → Prog S β} {P : σ → Prop} {Q : α → σ → Prop}
    {Q' : β → σ → Prop} (h : Sat M i C t P Q) (hf : ∀ a, Sat M i C (f a) (Q a) Q') :
    Sat M i C (t.bind f) P Q' := by
  induction t generalizing P with
  | ret a => exact (hf a).pre h
  | cmd op k ih =>
    intro x s hs hok
    obtain ⟨hg, P₁, hst, hp, hk⟩ := h x s hs hok
    exact ⟨hg, P₁, hst, hp, ih _ hk⟩

/-- **The frame rule.**  A program whose commands all keep an assertion, and meet the
guarantee where it holds, keeps the assertion as a whole. -/
theorem frame {t : Prog S α} {P : σ → Prop} (hst : Stable C.rely P) {φ : S.Op → Prop}
    (hop : ∀ op, φ op → ∀ x s, P s → C.ok op x s →
      C.guar s (M.exec i op x s).2 ∧ P (M.exec i op x s).2)
    (ht : t.Uses φ) : Sat M i C t P fun _ => P := by
  induction t with
  | ret a => exact fun s hs => hs
  | cmd op k ih =>
    intro x s hs hok
    obtain ⟨hg, hp⟩ := hop op ht.1 x s hs hok
    exact ⟨hg, P, hst, hp, ih _ (ht.2 _)⟩

/-- What neither the others nor the thread itself can make false is kept throughout. -/
theorem keep {t : Prog S α} {P B : σ → Prop} {Q : α → σ → Prop} (h : Sat M i C t P Q)
    (hrely : Stable C.rely B) (hguar : Stable C.guar B) :
    Sat M i C t (fun s => P s ∧ B s) fun a s => Q a s ∧ B s := by
  induction t generalizing P with
  | ret a => exact fun s hs => ⟨h s hs.1, hs.2⟩
  | cmd op k ih =>
    rintro x s ⟨hp, hb⟩ hok
    obtain ⟨hg, P', hst, hp', hk⟩ := h x s hp hok
    refine ⟨hg, fun s => P' s ∧ B s, fun s s' hs hr => ⟨hst hs.1 hr, hrely hs.2 hr⟩,
      ⟨hp', hguar hb hg⟩, ih _ hk⟩

/-- A judgement about many steps is one about some of them. -/
theorem ok_mono {t : Prog S α} {P : σ → Prop} {Q : α → σ → Prop} {ok : S.Op → ι → σ → Prop}
    (h : Sat M i C t P Q) (hok : ∀ op x s, ok op x s → C.ok op x s) :
    Sat M i { C with ok } t P Q := by
  induction t generalizing P with
  | ret a => exact h
  | cmd op k ih =>
    intro x s hs hx
    obtain ⟨hg, P', hst, hp, hk⟩ := h x s hs (hok op x s hx)
    exact ⟨hg, P', hst, hp, ih _ hk⟩

/-- A caller's judgement is one of every thread that acts as that caller. -/
theorem comap {M : Machine S θ ι σ} {f : τ → θ} {t : Prog S α} {P : σ → Prop}
    {Q : α → σ → Prop} (h : Sat M (f i) C t P Q) : Sat (M.comap f) i C t P Q := by
  induction t generalizing P with
  | ret a => exact h
  | cmd op k ih =>
    intro x s hs hok
    obtain ⟨hg, P', hst, hp, hk⟩ := h x s hs hok
    exact ⟨hg, P', hst, hp, ih _ hk⟩

end Sat

/-- The contract of a program that nothing interferes with. -/
def Contract.alone (ok : S.Op → ι → σ → Prop) : Contract S ι σ where
  ok
  rely := Eq
  guar _ _ := True

/-- **A program that runs alone**, every step being `ok`, ends in its postcondition. -/
theorem Sat.runWith {M : Machine S τ ι σ} {i : τ} {ok : S.Op → ι → σ → Prop} {t : Prog S α}
    {P : σ → Prop} {Q : α → σ → Prop} (h : Sat M i (.alone ok) t P Q) (xs : ℕ → ι) {s : σ}
    (hok : ∀ n op s, ok op (xs n) s) (hs : P s) :
    Q (t.runWith M i xs s).1 (t.runWith M i xs s).2 := by
  induction t generalizing P xs s with
  | ret a => exact h s hs
  | cmd op k ih =>
    obtain ⟨-, P', -, hp', hk⟩ := h (xs 0) s hs (hok 0 op s)
    exact ih _ hk _ (fun n => hok (n + 1)) hp'

/-- What a thread keeps between its steps: some stable assertion holds now, and its program
satisfies its contract from there. -/
def Ready (M : Machine S τ ι σ) (i : τ) (C : Contract S ι σ) (t : Prog S α)
    (Q : α → σ → Prop) (s : σ) : Prop :=
  ∃ P, Stable C.rely P ∧ P s ∧ Sat M i C t P Q

namespace Ready

variable {M : Machine S τ ι σ} {i : τ} {C : Contract S ι σ} {t : Prog S α} {Q : α → σ → Prop}
  {s s' : σ}

/-- A thread stays ready while the others move as it relies on. -/
theorem rely (h : Ready M i C t Q s) (hr : C.rely s s') : Ready M i C t Q s' := by
  obtain ⟨P, hst, hp, ht⟩ := h
  exact ⟨P, hst, hst hp hr, ht⟩

theorem ok_mono {ok : S.Op → ι → σ → Prop} (h : Ready M i C t Q s)
    (hok : ∀ op x s, ok op x s → C.ok op x s) : Ready M i { C with ok } t Q s := by
  obtain ⟨P, hst, hp, ht⟩ := h
  exact ⟨P, hst, hp, ht.ok_mono hok⟩

/-- The rule of consequence. -/
theorem mono {Q' : α → σ → Prop} (h : Ready M i C t Q s) (hQ : ∀ a s, Q a s → Q' a s) :
    Ready M i C t Q' s := by
  obtain ⟨P, hst, hp, ht⟩ := h
  exact ⟨P, hst, hp, ht.mono (fun _ h => h) hQ⟩

/-- **One step of a ready thread** meets the guarantee and leaves it ready. -/
theorem act {op : S.Op} {k : S.Rep op → Prog S α} (h : Ready M i C (.cmd op k) Q s) {x : ι}
    (hok : C.ok op x s) :
    C.guar s (M.exec i op x s).2 ∧
      Ready M i C (k (M.exec i op x s).1) Q (M.exec i op x s).2 := by
  obtain ⟨P, _, hp, ht⟩ := h
  obtain ⟨hg, P', hst', hp', hk⟩ := ht x s hp hok
  exact ⟨hg, P', hst', hp', hk⟩

/-- The same, whether the thread has finished or not: the others see what it guarantees, if
anything. -/
theorem advance (h : Ready M i C t Q s) {x : ι} (hok : ∀ op, C.ok op x s) :
    Ready M i C (t.act M i x s).1 Q (t.act M i x s).2 ∧
      ((t.act M i x s).2 = s ∨ C.guar s (t.act M i x s).2) := by
  cases t with
  | ret a => exact ⟨h, .inl rfl⟩
  | cmd op k =>
    obtain ⟨hguar, hready⟩ := h.act (hok op)
    exact ⟨hready, .inr hguar⟩

/-- A finished thread has reached its postcondition. -/
theorem done {a : α} (h : Ready M i C (.ret a) Q s) : Q a s := by
  obtain ⟨P, _, hp, ht⟩ := h
  exact ht s hp

end Ready

/-! ## 5. Programs that can throw -/

/-- A program that either returns an `α` or throws an `ε`. -/
abbrev Throws (S : Sig) (ε α : Type) : Type := ExceptT ε (Prog S) α

/-- A throwing program, as the plain program that returns either outcome. -/
def Throws.prog (t : Throws S ε α) : Prog S (Except ε α) := t

namespace Throws

/-- Issue one command, which does not fail, and return its reply. -/
def call (op : S.Op) : Throws S ε (S.Rep op) := (.cmd op fun r => .ret (.ok r) : Prog S _)

/-- What follows a program that may have thrown. -/
def andThen (f : α → Throws S ε β) : Except ε α → Prog S (Except ε β)
  | .ok a => (f a).prog
  | .error e => .ret (.error e)

/-- What follows a program whose throws are caught. -/
def orElse (f : ε → Throws S ε α) : Except ε α → Prog S (Except ε α)
  | .ok a => .ret (.ok a)
  | .error e => (f e).prog

@[simp] theorem andThen_ok (f : α → Throws S ε β) (a : α) : andThen f (.ok a) = (f a).prog := rfl

@[simp] theorem andThen_error (f : α → Throws S ε β) (e : ε) :
    andThen f (.error e) = .ret (.error e) := rfl

@[simp] theorem orElse_ok (f : ε → Throws S ε α) (a : α) : orElse f (.ok a) = .ret (.ok a) := rfl

@[simp] theorem orElse_error (f : ε → Throws S ε α) (e : ε) :
    orElse f (.error e) = (f e).prog := rfl

@[simp] theorem prog_call (op : S.Op) :
    (call op : Throws S ε (S.Rep op)).prog = .cmd op fun r => .ret (.ok r) := rfl

@[simp] theorem prog_pure (a : α) : (pure a : Throws S ε α).prog = .ret (.ok a) := rfl

@[simp] theorem prog_throw (e : ε) : (throw e : Throws S ε α).prog = .ret (.error e) := rfl

theorem prog_bind (t : Throws S ε α) (f : α → Throws S ε β) :
    (t >>= f).prog = t.prog.bind (andThen f) := by
  refine congrArg (Prog.bind t.prog) ?_
  funext r
  cases r <;> rfl

theorem prog_tryCatch (t : Throws S ε α) (f : ε → Throws S ε α) :
    (tryCatch t f).prog = t.prog.bind (orElse f) := by
  refine congrArg (Prog.bind t.prog) ?_
  funext r
  cases r <;> rfl

/-- Every command that `t` can issue, whatever it returns or throws, satisfies `φ`. -/
def Uses (φ : S.Op → Prop) (t : Throws S ε α) : Prop := t.prog.Uses φ

variable {φ : S.Op → Prop}

@[simp] theorem uses_pure (a : α) : Uses φ (pure a : Throws S ε α) := trivial

@[simp] theorem uses_throw (e : ε) : Uses φ (throw e : Throws S ε α) := trivial

theorem uses_call {op : S.Op} (h : φ op) : Uses φ (call op : Throws S ε (S.Rep op)) :=
  ⟨h, fun _ => trivial⟩

theorem Uses.bind {t : Throws S ε α} {f : α → Throws S ε β} (ht : Uses φ t)
    (hf : ∀ a, Uses φ (f a)) : Uses φ (t >>= f) := by
  rw [Uses, prog_bind]
  refine Prog.Uses.bind ht ?_
  rintro (e | a)
  · trivial
  · exact hf a

theorem Uses.tryCatch {t : Throws S ε α} {f : ε → Throws S ε α} (ht : Uses φ t)
    (hf : ∀ e, Uses φ (f e)) : Uses φ (tryCatch t f) := by
  rw [Uses, prog_tryCatch]
  refine Prog.Uses.bind ht ?_
  rintro (e | a)
  · exact hf e
  · trivial

/-- Run alone from `s` while the environment keeps giving the answer `x`, the program returns,
and `Q` holds of what it returns and leaves. -/
def Returns (M : Machine S τ ι σ) (i : τ) (x : ι) (t : Throws S ε α) (s : σ)
    (Q : α → σ → Prop) : Prop :=
  ∃ a s', t.prog.runAt M i x s = (.ok a, s') ∧ Q a s'

namespace Returns

variable {M : Machine S τ ι σ} {i : τ} {x : ι} {s : σ}

theorem pure {a : α} {Q : α → σ → Prop} (h : Q a s) :
    Returns M i x (Pure.pure a : Throws S ε α) s Q := ⟨a, s, rfl, h⟩

theorem mono {t : Throws S ε α} {Q Q' : α → σ → Prop} (h : Returns M i x t s Q)
    (hQ : ∀ a s', Q a s' → Q' a s') : Returns M i x t s Q' := by
  obtain ⟨a, s', hrun, hq⟩ := h
  exact ⟨a, s', hrun, hQ a s' hq⟩

theorem bind {t : Throws S ε α} {f : α → Throws S ε β} {Q : α → σ → Prop}
    {Q' : β → σ → Prop} (h : Returns M i x t s Q)
    (hf : ∀ a s', Q a s' → Returns M i x (f a) s' Q') : Returns M i x (t >>= f) s Q' := by
  obtain ⟨a, s', hrun, hq⟩ := h
  obtain ⟨b, s'', hrun', hq'⟩ := hf a s' hq
  refine ⟨b, s'', ?_, hq'⟩
  rw [prog_bind, Prog.runAt_bind, hrun, andThen_ok, hrun']

end Returns

end Throws

/-- `SatE`: `Sat` with one postcondition for each of the two exits. -/
def SatE (M : Machine S τ ι σ) (i : τ) (C : Contract S ι σ) (t : Throws S ε α) (P : σ → Prop)
    (Q : α → σ → Prop) (E : ε → σ → Prop) : Prop :=
  Sat M i C t.prog P fun r s => match r with
    | .ok a => Q a s
    | .error e => E e s

namespace SatE

variable {M : Machine S τ ι σ} {i : τ} {C : Contract S ι σ}

theorem pure {a : α} {P : σ → Prop} {Q : α → σ → Prop} {E : ε → σ → Prop}
    (h : ∀ s, P s → Q a s) : SatE M i C (Pure.pure a : Throws S ε α) P Q E := h

/-- One command: what it replies and leaves satisfies `Q`, which the others cannot make false. -/
theorem call {op : S.Op} {P : σ → Prop} {Q : S.Rep op → σ → Prop} {E : ε → σ → Prop}
    (hst : ∀ r, Stable C.rely (Q r)) (h : ∀ x s, P s → C.ok op x s →
      C.guar s (M.exec i op x s).2 ∧ Q (M.exec i op x s).1 (M.exec i op x s).2) :
    SatE M i C (Throws.call op : Throws S ε (S.Rep op)) P Q E := by
  intro x s hs hok
  obtain ⟨hg, hq⟩ := h x s hs hok
  exact ⟨hg, Q (M.exec i op x s).1, hst _, hq, fun _ hs => hs⟩

/-- **The frame rule**, whichever exit is taken. -/
theorem frame {t : Throws S ε α} {P : σ → Prop} (hst : Stable C.rely P) {φ : S.Op → Prop}
    (hop : ∀ op, φ op → ∀ x s, P s → C.ok op x s →
      C.guar s (M.exec i op x s).2 ∧ P (M.exec i op x s).2)
    (ht : Throws.Uses φ t) : SatE M i C t P (fun _ => P) fun _ => P := by
  refine Sat.mono (Sat.frame hst hop ht) (fun _ h => h) ?_
  rintro (e | a) s hs <;> exact hs

/-- What neither the others nor the thread itself can make false is kept throughout. -/
theorem keep {t : Throws S ε α} {P B : σ → Prop} {Q : α → σ → Prop} {E : ε → σ → Prop}
    (h : SatE M i C t P Q E) (hrely : Stable C.rely B) (hguar : Stable C.guar B) :
    SatE M i C t (fun s => P s ∧ B s) (fun a s => Q a s ∧ B s) fun e s => E e s ∧ B s := by
  refine Sat.mono (Sat.keep h hrely hguar) (fun _ h => h) ?_
  rintro (e | a) s hs <;> exact hs

theorem throw {e : ε} {P : σ → Prop} {Q : α → σ → Prop} {E : ε → σ → Prop}
    (h : ∀ s, P s → E e s) : SatE M i C (MonadExcept.throw e : Throws S ε α) P Q E := h

/-- The rule of consequence, for both exits. -/
theorem mono {t : Throws S ε α} {P P' : σ → Prop} {Q Q' : α → σ → Prop} {E E' : ε → σ → Prop}
    (h : SatE M i C t P Q E) (hP : ∀ s, P' s → P s) (hQ : ∀ a s, Q a s → Q' a s)
    (hE : ∀ e s, E e s → E' e s) : SatE M i C t P' Q' E' := by
  refine Sat.mono h hP ?_
  rintro (e | a) s hq
  · exact hE e s hq
  · exact hQ a s hq

theorem assume {t : Throws S ε α} {φ : Prop} {P : σ → Prop} {Q : α → σ → Prop}
    {E : ε → σ → Prop} (h : φ → SatE M i C t P Q E) : SatE M i C t (fun s => φ ∧ P s) Q E :=
  Sat.assume h

/-- The store at the start can be named. -/
theorem fix {t : Throws S ε α} {P : σ → Prop} {Q : α → σ → Prop} {E : ε → σ → Prop}
    (h : ∀ s, P s → SatE M i C t (· = s) Q E) : SatE M i C t P Q E := Sat.fix h

/-- Sequencing: a throw in the first part skips the second. -/
theorem bind {t : Throws S ε α} {f : α → Throws S ε β} {P : σ → Prop} {Q : α → σ → Prop}
    {Q' : β → σ → Prop} {E : ε → σ → Prop} (h : SatE M i C t P Q E)
    (hf : ∀ a, SatE M i C (f a) (Q a) Q' E) : SatE M i C (t >>= f) P Q' E := by
  refine Sat.bind (f := ExceptT.bindCont f) h ?_
  rintro (e | a)
  · exact fun s hs => hs
  · exact hf a

/-- A handler runs from what the throw left. -/
theorem tryCatch {t : Throws S ε α} {f : ε → Throws S ε α} {P : σ → Prop} {Q : α → σ → Prop}
    {E E' : ε → σ → Prop} (h : SatE M i C t P Q E) (hf : ∀ e, SatE M i C (f e) (E e) Q E') :
    SatE M i C (MonadExcept.tryCatch t f) P Q E' := by
  refine Sat.bind h ?_
  rintro (e | a)
  · exact hf e
  · exact fun s hs => hs

end SatE

end Conc
