/-
# At most once

Several threads compete for something that can be spent only once: a token, a slot, the right
to answer.  What a thread issues depends on the replies it gets (the name it drew, the record it
read), so it is judged on the paths on which every reply is in `ρ`: `Prog.Assuming ρ φ Q` says
what it issues and returns there, and `Prog.Needs ρ φ Q` that it reaches no result in `Q`
without a command in `φ` first.  `Prog.Nodes φ` is about each of its commands and what follows.

If the commands that spend are only issued while a guard of the store holds, end the guard, and
nothing brings the guard back, then at most one thread returns with a result that needs one of
them (`Pool.once`).
-/
import SmartDrop.Lib.Run

namespace Conc

variable {S : Sig} {α β ε τ ι σ : Type}

namespace Prog

/-! ## 1. What a program does while the replies are as they should be -/

/-- As long as every reply is in `ρ`, the commands are in `φ` and the result is in `Q`. -/
def Assuming (ρ : (op : S.Op) → S.Rep op → Prop) (φ : S.Op → Prop) (Q : α → Prop) :
    Prog S α → Prop
  | .ret a => Q a
  | .cmd op k => φ op ∧ ∀ r, ρ op r → (k r).Assuming ρ φ Q

/-- As long as every reply is in `ρ`, no result in `Q` comes before a command in `φ`. -/
def Needs (ρ : (op : S.Op) → S.Rep op → Prop) (φ : S.Op → Prop) (Q : α → Prop) : Prog S α → Prop
  | .ret a => ¬ Q a
  | .cmd op k => φ op ∨ ∀ r, ρ op r → (k r).Needs ρ φ Q

variable {ρ : (op : S.Op) → S.Rep op → Prop} {φ : S.Op → Prop} {Q : α → Prop} {R : β → Prop}

@[simp] theorem assuming_ret (a : α) : (Prog.ret a : Prog S α).Assuming ρ φ Q ↔ Q a := Iff.rfl

@[simp] theorem assuming_cmd (op : S.Op) (k : S.Rep op → Prog S α) :
    (Prog.cmd op k).Assuming ρ φ Q ↔ φ op ∧ ∀ r, ρ op r → (k r).Assuming ρ φ Q := Iff.rfl

@[simp] theorem needs_ret (a : α) : (Prog.ret a : Prog S α).Needs ρ φ Q ↔ ¬ Q a := Iff.rfl

@[simp] theorem needs_cmd (op : S.Op) (k : S.Rep op → Prog S α) :
    (Prog.cmd op k).Needs ρ φ Q ↔ φ op ∨ ∀ r, ρ op r → (k r).Needs ρ φ Q := Iff.rfl

theorem Assuming.bind {t : Prog S β} {f : β → Prog S α} (ht : t.Assuming ρ φ R)
    (hf : ∀ b, R b → (f b).Assuming ρ φ Q) : (t.bind f).Assuming ρ φ Q := by
  induction t with
  | ret b => exact hf b ht
  | cmd op k ih => exact ⟨ht.1, fun r hr => ih r (ht.2 r hr)⟩

theorem Assuming.mono {Q' : α → Prop} {t : Prog S α} (h : t.Assuming ρ φ Q)
    (hQ : ∀ a, Q a → Q' a) : t.Assuming ρ φ Q' := by
  induction t with
  | ret a => exact hQ a h
  | cmd op k ih => exact ⟨h.1, fun r hr => ih r (h.2 r hr)⟩

/-- What a program issues whatever the replies are. -/
theorem Uses.assuming {t : Prog S α} (h : t.Uses φ) : t.Assuming ρ φ fun _ => True := by
  induction t with
  | ret a => trivial
  | cmd op k ih => exact ⟨h.1, fun r _ => ih r (h.2 r)⟩

/-- A composed program needs what its first part needs before the results with which the second
part would go on without. -/
theorem Needs.bind {t : Prog S β} {f : β → Prog S α}
    (h : t.Needs ρ φ fun b => ¬ (f b).Needs ρ φ Q) : (t.bind f).Needs ρ φ Q := by
  induction t with
  | ret b => exact Classical.not_not.mp h
  | cmd op k ih =>
    rcases h with hop | hk
    · exact Or.inl hop
    · exact Or.inr fun r hr => ih r (hk r hr)

/-- What is true at every command that a program can issue, of the command and of what follows it. -/
def Nodes (φ : (op : S.Op) → (S.Rep op → Prog S α) → Prop) : Prog S α → Prop
  | .ret _ => True
  | .cmd op k => φ op k ∧ ∀ r, (k r).Nodes φ

theorem Nodes.bind {φ : (op : S.Op) → (S.Rep op → Prog S α) → Prop} {t : Prog S β} {f : β → Prog S α}
    (ht : t.Nodes fun op k => φ op fun r => (k r).bind f) (hf : ∀ b, (f b).Nodes φ) :
    (t.bind f).Nodes φ := by
  induction t with
  | ret b => exact hf b
  | cmd op k ih => exact ⟨ht.1, fun r => ih r (ht.2 r)⟩

/-- At commands of which nothing has to be known but what they are. -/
theorem Uses.nodes {ψ : S.Op → Prop} {φ : (op : S.Op) → (S.Rep op → Prog S α) → Prop}
    (hφ : ∀ op k, ψ op → φ op k) {t : Prog S α} (ht : t.Uses ψ) : t.Nodes φ := by
  induction t with
  | ret a => trivial
  | cmd op k ih => exact ⟨hφ op k ht.1, fun r => ih r (ht.2 r)⟩

/-- The first part returns with `R` at most, and the second part needs `φ` from there. -/
theorem Needs.of_bind {t : Prog S β} {f : β → Prog S α} {ψ : S.Op → Prop}
    (ht : t.Assuming ρ ψ R) (hf : ∀ b, R b → (f b).Needs ρ φ Q) : (t.bind f).Needs ρ φ Q := by
  induction t with
  | ret b => exact hf b ht
  | cmd op k ih => exact Or.inr fun r hr => ih r (ht.2 r hr)

end Prog

/-! ## 2. Programs that can throw -/

namespace Throws

/-- `Prog.Assuming`; nothing is said of what is thrown. -/
def Assuming (ρ : (op : S.Op) → S.Rep op → Prop) (φ : S.Op → Prop) (Q : α → Prop)
    (t : Throws S ε α) : Prop :=
  t.prog.Assuming ρ φ fun r => ∀ a, r = .ok a → Q a

/-- No value is returned before a command in `φ`. -/
def Needs (ρ : (op : S.Op) → S.Rep op → Prop) (φ : S.Op → Prop) (t : Throws S ε α) : Prop :=
  t.prog.Needs ρ φ fun r => ∃ a, r = .ok a

variable {ρ : (op : S.Op) → S.Rep op → Prop} {φ : S.Op → Prop} {Q : α → Prop} {R : β → Prop}

theorem Assuming.call {op : S.Op} {Q : S.Rep op → Prop} (h : φ op) (hQ : ∀ r, ρ op r → Q r) :
    Assuming ρ φ Q (call op : Throws S ε (S.Rep op)) := by
  refine ⟨h, fun r hr a ha => ?_⟩
  cases ha
  exact hQ r hr

theorem Assuming.pure {a : α} (h : Q a) : Assuming ρ φ Q (Pure.pure a : Throws S ε α) := by
  intro b hb
  cases hb
  exact h

theorem Assuming.throw (e : ε) : Assuming ρ φ Q (MonadExcept.throw e : Throws S ε α) := by
  intro a ha
  cases ha

/-- What follows a throw is not reached. -/
theorem Assuming.throw_bind (e : ε) (f : β → Throws S ε α) :
    Assuming ρ φ Q ((MonadExcept.throw e : Throws S ε β) >>= f) := by
  intro a ha
  cases ha

theorem Assuming.bind {t : Throws S ε β} {f : β → Throws S ε α} (ht : Assuming ρ φ R t)
    (hf : ∀ b, R b → Assuming ρ φ Q (f b)) : Assuming ρ φ Q (t >>= f) := by
  rw [Assuming, prog_bind]
  refine Prog.Assuming.bind ht ?_
  rintro (e | b) hb
  · exact Assuming.throw e
  · exact hf b (hb b rfl)

theorem Assuming.tryCatch {t : Throws S ε α} {f : ε → Throws S ε α} (ht : Assuming ρ φ Q t)
    (hf : ∀ e, Assuming ρ φ Q (f e)) : Assuming ρ φ Q (MonadExcept.tryCatch t f) := by
  rw [Assuming, prog_tryCatch]
  refine Prog.Assuming.bind ht ?_
  rintro (e | a) ha
  · exact hf e
  · exact fun b hb => ha b hb

theorem Assuming.mono {Q' : α → Prop} {t : Throws S ε α} (h : Assuming ρ φ Q t)
    (hQ : ∀ a, Q a → Q' a) : Assuming ρ φ Q' t := by
  refine Prog.Assuming.mono h fun r hr a ha => ?_
  exact hQ a (hr a ha)

theorem Needs.throw (e : ε) : Needs ρ φ (MonadExcept.throw e : Throws S ε α) := by
  rintro ⟨a, h⟩
  cases h

theorem Needs.throw_bind (e : ε) (f : β → Throws S ε α) :
    Needs ρ φ ((MonadExcept.throw e : Throws S ε β) >>= f) := by
  rintro ⟨a, h⟩
  cases h

/-- The command that is needed comes first. -/
theorem Needs.call_bind {op : S.Op} {f : S.Rep op → Throws S ε α} (h : φ op) :
    Needs ρ φ (call op >>= f) := Or.inl h

/-- The first part needs `φ`. -/
theorem Needs.bind {t : Throws S ε β} {f : β → Throws S ε α} (h : Needs ρ φ t) :
    Needs ρ φ (t >>= f) := by
  rw [Needs, prog_bind]
  refine Prog.Needs.bind ?_
  unfold Needs at h
  generalize t.prog = p at h
  induction p with
  | ret b =>
    rcases b with e | b
    · exact fun hnot => hnot (Needs.throw e)
    · exact absurd ⟨b, rfl⟩ h
  | cmd op k ih =>
    rcases h with hop | hk
    · exact Or.inl hop
    · exact Or.inr fun r hr => ih r (hk r hr)

/-- What is true at every command that a program can issue, of the command and of what follows it. -/
def Nodes (φ : (op : S.Op) → (S.Rep op → Prog S α) → Prop) : Prog S α → Prop
  | .ret _ => True
  | .cmd op k => φ op k ∧ ∀ r, (k r).Nodes φ

theorem Nodes.bind {φ : (op : S.Op) → (S.Rep op → Prog S α) → Prop} {t : Prog S β} {f : β → Prog S α}
    (ht : t.Nodes fun op k => φ op fun r => (k r).bind f) (hf : ∀ b, (f b).Nodes φ) :
    (t.bind f).Nodes φ := by
  induction t with
  | ret b => exact hf b
  | cmd op k ih => exact ⟨ht.1, fun r => ih r (ht.2 r)⟩

/-- At commands of which nothing has to be known but what they are. -/
theorem Uses.nodes {ψ : S.Op → Prop} {φ : (op : S.Op) → (S.Rep op → Prog S α) → Prop}
    (hφ : ∀ op k, ψ op → φ op k) {t : Prog S α} (ht : t.Uses ψ) : t.Nodes φ := by
  induction t with
  | ret a => trivial
  | cmd op k ih => exact ⟨hφ op k ht.1, fun r => ih r (ht.2 r)⟩

/-- The first part returns with `R` at most, and the second part needs `φ` from there. -/
theorem Needs.of_bind {t : Throws S ε β} {f : β → Throws S ε α} {ψ : S.Op → Prop}
    (ht : Assuming ρ ψ R t) (hf : ∀ b, R b → Needs ρ φ (f b)) : Needs ρ φ (t >>= f) := by
  rw [Needs, prog_bind]
  refine Prog.Needs.of_bind ht ?_
  rintro (e | b) hb
  · exact Needs.throw e
  · exact hf b (hb b rfl)

end Throws

/-- **The frame rule, with replies.**  Where an assertion holds, replies are as they should be, and
the program keeps it and returns what it returns while they are. -/
theorem Sat.assuming {M : Machine S τ ι σ} {i : τ} {C : Contract S ι σ} {t : Prog S α} {P : σ → Prop}
    {ρ : (op : S.Op) → S.Rep op → Prop} {φ : S.Op → Prop} {Q : α → Prop}
    (hst : Stable C.rely P) (hop : ∀ op, φ op → ∀ x s, P s → C.ok op x s →
      C.guar s (M.exec i op x s).2 ∧ P (M.exec i op x s).2 ∧ ρ op (M.exec i op x s).1)
    (ht : t.Assuming ρ φ Q) : Sat M i C t P fun a s => Q a ∧ P s := by
  induction t with
  | ret a => exact fun s hs => ⟨ht, hs⟩
  | cmd op k ih =>
    intro x s hs hok
    obtain ⟨hg, hp, hr⟩ := hop op ht.1 x s hs hok
    exact ⟨hg, P, hst, hp, ih _ (ht.2 _ hr)⟩

theorem SatE.assuming {M : Machine S τ ι σ} {i : τ} {C : Contract S ι σ} {t : Throws S ε α}
    {P : σ → Prop} {ρ : (op : S.Op) → S.Rep op → Prop} {φ : S.Op → Prop} {Q : α → Prop}
    (hst : Stable C.rely P) (hop : ∀ op, φ op → ∀ x s, P s → C.ok op x s →
      C.guar s (M.exec i op x s).2 ∧ P (M.exec i op x s).2 ∧ ρ op (M.exec i op x s).1)
    (ht : Throws.Assuming ρ φ Q t) :
    SatE M i C t P (fun a s => Q a ∧ P s) fun _ => P := by
  refine Sat.mono (Sat.assuming hst hop ht) (fun _ h => h) ?_
  rintro (e | a) s ⟨hq, hp⟩
  · exact hp
  · exact ⟨hq a rfl, hp⟩

/-! ## 3. Pools -/

namespace Pool

variable [DecidableEq τ] {M : Machine S τ ι σ}

/-- What makes something a thing that can be spent once: `J` is what the store keeps, `replies`
and `uses` are what the threads can rely on and issue, `spend` the commands that spend it and
`G` what holds while it can be spent. -/
structure Spends (M : Machine S τ ι σ) (J G : σ → Prop)
    (ρ : (op : S.Op) → S.Rep op → Prop) (φ spend : S.Op → Prop) : Prop where
  keep : ∀ i op x s, φ op → J s → J (M.exec i op x s).2
  reply : ∀ i op x s, φ op → J s → ρ op (M.exec i op x s).1
  spent : ∀ i op x s, φ op → J s → spend op → ¬ G (M.exec i op x s).2
  lost : ∀ i op x s, φ op → J s → ¬ G s → ¬ G (M.exec i op x s).2

/-- The state of a competition: either every thread still has to spend, or the guard is gone
and all but one thread have to. -/
structure Compete (J G : σ → Prop) (ρ : (op : S.Op) → S.Rep op → Prop) (φ spend : S.Op → Prop)
    (Q : α → Prop) (c : Pool S α τ σ) : Prop where
  keep : J c.store
  issue : ∀ i, (c.prog i).Assuming ρ φ fun _ => True
  needs : (∀ i, (c.prog i).Needs ρ spend Q) ∨
    (¬ G c.store ∧ ∃ i, ∀ j, j ≠ i → (c.prog j).Needs ρ spend Q)

variable {J G : σ → Prop} {ρ : (op : S.Op) → S.Rep op → Prop} {φ spend : S.Op → Prop}
  {Q : α → Prop} {c : Pool S α τ σ}

/-- **One step of a competition** in which nothing is spent that cannot be. -/
theorem Compete.step (hM : Spends M J G ρ φ spend) (h : Compete J G ρ φ spend Q c)
    (l : τ × ι) (hl : Issues (fun op _ s => spend op → G s) c l) :
    Compete J G ρ φ spend Q (c.step M l) := by
  obtain ⟨i, x⟩ := l
  cases hp : c.prog i with
  | ret a =>
    rw [step_of_ret hp]
    exact h
  | cmd op k =>
    have hissue := h.issue i
    rw [hp] at hissue
    have hguard : spend op → G c.store := by
      simpa only [Issues, hp] using hl
    have hself : (c.step M (i, x)).prog i = k (M.exec i op x c.store).1 := by
      simp [Pool.step, hp, Prog.act]
    have hstore : (c.step M (i, x)).store = (M.exec i op x c.store).2 := by
      simp [Pool.step, hp, Prog.act]
    have hothers : ∀ j, j ≠ i → (c.step M (i, x)).prog j = c.prog j :=
      fun j hj => step_prog_of_ne hj
    refine ⟨?_, fun j => ?_, ?_⟩
    · rw [hstore]
      exact hM.keep i op x _ hissue.1 h.keep
    · by_cases hj : j = i
      · subst hj
        rw [hself]
        exact hissue.2 _ (hM.reply j op x _ hissue.1 h.keep)
      · rw [hothers j hj]
        exact h.issue j
    · rw [hstore]
      by_cases hspend : spend op
      · -- the thread spends it: the guard held, so nobody had done so before
        have hall : ∀ j, (c.prog j).Needs ρ spend Q := by
          rcases h.needs with hall | ⟨hno, -⟩
          · exact hall
          · exact absurd (hguard hspend) hno
        refine Or.inr ⟨hM.spent i op x _ hissue.1 h.keep hspend, i, fun j hj => ?_⟩
        rw [hothers j hj]
        exact hall j
      · have hnext : (c.prog i).Needs ρ spend Q →
            ((c.step M (i, x)).prog i).Needs ρ spend Q := by
          intro hi
          rw [hp] at hi
          rw [hself]
          exact hi.resolve_left hspend _ (hM.reply i op x _ hissue.1 h.keep)
        rcases h.needs with hall | ⟨hno, w, hw⟩
        · refine Or.inl fun j => ?_
          by_cases hj : j = i
          · subst hj
            exact hnext (hall j)
          · rw [hothers j hj]
            exact hall j
        · refine Or.inr ⟨hM.lost i op x _ hissue.1 h.keep hno, w, fun j hj => ?_⟩
          by_cases hji : j = i
          · subst hji
            exact hnext (hw j hj)
          · rw [hothers j hji]
            exact hw j hj

/-- **At most once.**  In every run in which nothing is spent that cannot be, at most one thread
ends with a result that needs it. -/
theorem once (hM : Spends M J G ρ φ spend) (hJ : J c.store)
    (hissue : ∀ i, (c.prog i).Assuming ρ φ fun _ => True)
    (hneeds : ∀ i, (c.prog i).Needs ρ spend Q) {ls : List (τ × ι)}
    (hls : Along (Pool.step M) (Issues fun op _ s => spend op → G s) c ls) {i j : τ} {a b : α}
    (hi : (run (Pool.step M) c ls).prog i = .ret a) (ha : Q a)
    (hj : (run (Pool.step M) c ls).prog j = .ret b) (hb : Q b) : i = j := by
  have hend : Compete J G ρ φ spend Q (run (Pool.step M) c ls) :=
    run_inv (fun c l h hl => h.step hM l hl) ⟨hJ, hissue, Or.inl hneeds⟩ hls
  have hout : ∀ {n : τ} {r : α}, (run (Pool.step M) c ls).prog n = .ret r → Q r →
      ¬ ((run (Pool.step M) c ls).prog n).Needs ρ spend Q := by
    intro n r hr hq hn
    rw [hr] at hn
    exact hn hq
  rcases hend.needs with hall | ⟨-, w, hw⟩
  · exact absurd (hall i) (hout hi ha)
  · have hiw : i = w := Classical.not_not.mp fun hne => hout hi ha (hw i hne)
    have hjw : j = w := Classical.not_not.mp fun hne => hout hj hb (hw j hne)
    exact hiw.trans hjw.symm

end Pool

end Conc
