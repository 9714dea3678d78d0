/-
# Tickets

Some command hands out tickets, each to one thread, and some other command may only be issued
with a ticket for it, which it uses up.  `Prog.Affine gain spend t` says of a program that has
the ticket `t`, if any, that it issues a command that needs a ticket only with that ticket, once,
and after a reply that hands it one.

If the store hands out no ticket twice (`Ledger`), then what has been spent lists no ticket
twice, and `Apart.act` is the step that keeps it so: the tickets are things that are each in one
place, with a thread or in the list of what was spent.
-/
import SmartDrop.Lib.Lift
import SmartDrop.Lib.Places
import SmartDrop.Lib.Run
import Mathlib.Data.Option.Basic

namespace Conc

variable {S T : Sig} {α β ε κ τ π ι σ ω : Type}

/-- The tickets that replies hand out, and those that commands need. -/
structure Tickets (S : Sig) (κ : Type) where
  gain : (op : S.Op) → S.Rep op → Option κ
  spend : S.Op → Option κ
  spend_of_gain : ∀ op r a, gain op r = some a → spend op = none

namespace Tickets

variable (K : Tickets S κ)

/-- The ticket of a thread after a command and its reply. -/
def after (t : Option κ) (op : S.Op) (r : S.Rep op) : Option κ :=
  match K.gain op r with
  | some a => some a
  | none => if (K.spend op).isSome then none else t

/-- A program that has the ticket `t`, and issues what needs a ticket only with one. -/
def Affine : Option κ → Prog S α → Prop
  | _, .ret _ => True
  | t, .cmd op k => (∀ a, K.spend op = some a → t = some a) ∧ ∀ r, Affine (K.after t op r) (k r)

/-- What is where: the ticket of each thread with the thread, and the spent ones in one place. -/
def held (ticket : π → Option κ) (spent : List κ) : Option π → List κ
  | none => spent
  | some p => (ticket p).toList

/-- A command that neither needs nor hands out a ticket. -/
def Free (op : S.Op) : Prop := K.spend op = none ∧ ∀ r, K.gain op r = none

variable {K}

theorem after_of_free {op : S.Op} (h : K.Free op) (t : Option κ) (r : S.Rep op) :
    K.after t op r = t := by
  simp [after, h.1, h.2 r]

/-- A program without such commands needs no ticket. -/
theorem affine_of_uses {p : Prog S α} (h : p.Uses fun op => K.spend op = none) (t : Option κ) :
    K.Affine t p := by
  induction p generalizing t with
  | ret a => trivial
  | cmd op k ih => exact ⟨fun a ha => by simp [h.1] at ha, fun r => ih r (h.2 r) _⟩

/-- A program that never had to use a ticket does not have to use the one it is given. -/
theorem Affine.of_none {p : Prog S α} (h : K.Affine none p) (t : Option κ) : K.Affine t p := by
  induction p generalizing t with
  | ret a => trivial
  | cmd op k ih =>
    have hspend : K.spend op = none := Option.eq_none_iff_forall_not_mem.mpr fun a ha => by
      have := h.1 a ha
      cases this
    refine ⟨fun a ha => by simp [hspend] at ha, fun r => ?_⟩
    have hr := h.2 r
    rw [after] at hr ⊢
    cases hg : K.gain op r with
    | some a => simpa only [hg] using hr
    | none => exact ih r (by simpa [hg, hspend] using hr) _

/-- What comes after the ticket is used. -/
theorem Affine.bind {t : Option κ} {p : Prog S α} {f : α → Prog S β} (h : K.Affine t p)
    (hf : ∀ a, (f a).Uses fun op => K.spend op = none) : K.Affine t (p.bind f) := by
  induction p generalizing t with
  | ret a => exact affine_of_uses (hf a) t
  | cmd op k ih => exact ⟨h.1, fun r => ih r (h.2 r)⟩

/-- Each part may use the ticket it is handed, and what the first one leaves is lost. -/
theorem Affine.seq {t : Option κ} {p : Prog S α} {f : α → Prog S β} (h : K.Affine t p)
    (hf : ∀ a, K.Affine none (f a)) : K.Affine t (p.bind f) := by
  induction p generalizing t with
  | ret a => exact (hf a).of_none t
  | cmd op k ih => exact ⟨h.1, fun r => ih r (h.2 r)⟩

/-- What comes before it is. -/
theorem affine_bind {t : Option κ} {p : Prog S α} {f : α → Prog S β} (h : p.Uses K.Free)
    (hf : ∀ a, K.Affine t (f a)) : K.Affine t (p.bind f) := by
  induction p with
  | ret a => exact hf a
  | cmd op k ih =>
    refine ⟨fun a ha => by simp [h.1.1] at ha, fun r => ?_⟩
    rw [after_of_free h.1]
    exact ih r (h.2 r)

/-- `affine_bind`, for programs that can throw. -/
theorem affine_andThen {t : Option κ} {p : Throws S ε α} {f : α → Throws S ε β}
    (h : Throws.Uses K.Free p) (hf : ∀ a, K.Affine t (f a).prog) : K.Affine t (p >>= f).prog := by
  rw [Throws.prog_bind]
  refine affine_bind h ?_
  rintro (e | a)
  · trivial
  · exact hf a

/-- `Affine.bind`, for programs that can throw. -/
theorem Affine.andThen {t : Option κ} {p : Throws S ε α} {f : α → Throws S ε β}
    (h : K.Affine t p.prog) (hf : ∀ a, Throws.Uses (fun op => K.spend op = none) (f a)) :
    K.Affine t (p >>= f).prog := by
  rw [Throws.prog_bind]
  refine h.bind ?_
  rintro (e | a)
  · trivial
  · exact hf a

/-- `Affine.seq`, for programs that can throw. -/
theorem Affine.andSeq {t : Option κ} {p : Throws S ε α} {f : α → Throws S ε β}
    (h : K.Affine t p.prog) (hf : ∀ a, K.Affine none (f a).prog) :
    K.Affine t (p >>= f).prog := by
  rw [Throws.prog_bind]
  refine h.seq ?_
  rintro (e | a)
  · trivial
  · exact hf a

theorem Affine.tryCatch {t : Option κ} {p : Throws S ε α} {f : ε → Throws S ε α}
    (h : K.Affine t p.prog) (hf : ∀ e, K.Affine none (f e).prog) :
    K.Affine t (MonadExcept.tryCatch p f).prog := by
  rw [Throws.prog_tryCatch]
  refine h.seq ?_
  rintro (e | a)
  · exact hf e
  · trivial

/-- The tickets of the first of two signatures. -/
def inl (K : Tickets S κ) (T : Sig) : Tickets (S.sum T) κ where
  gain
    | .inl op, r => K.gain op r
    | .inr _, _ => none
  spend
    | .inl op => K.spend op
    | .inr _ => none
  spend_of_gain
    | .inl op, r, a, h => K.spend_of_gain op r a h
    | .inr _, _, _, h => nomatch h

theorem Affine.inl {t : Option κ} {p : Prog S α} (h : K.Affine t p) :
    (K.inl T).Affine t (p.inl : Prog (S.sum T) α) := by
  induction p generalizing t with
  | ret a => trivial
  | cmd op k ih => exact ⟨h.1, fun r => ih r (h.2 r)⟩

/-- The tickets of two signatures, as far as the second one has them. -/
def right (K : Tickets (S.sum T) κ) : Tickets T κ where
  gain op r := K.gain (.inr op) r
  spend op := K.spend (.inr op)
  spend_of_gain op r a h := K.spend_of_gain (.inr op) r a h

theorem Affine.inr {K : Tickets (S.sum T) κ} {t : Option κ} {p : Prog T α} (h : K.right.Affine t p) :
    K.Affine t (p.inr : Prog (S.sum T) α) := by
  induction p generalizing t with
  | ret a => trivial
  | cmd op k ih => exact ⟨h.1, fun r => ih r (h.2 r)⟩

end Tickets

/-- What one command does with the tickets: it takes none back, hands out one that was not taken
before, and lists what is spent. -/
structure LedgerStep (M : Machine S τ ι σ) (K : Tickets S κ) (taken : σ → κ → Prop)
    (spent : σ → List κ) (i : τ) (op : S.Op) (x : ι) (s : σ) : Prop where
  taken_mono : ∀ a, taken s a → taken (M.exec i op x s).2 a
  gained : ∀ a, K.gain op (M.exec i op x s).1 = some a → ¬ taken s a ∧ taken (M.exec i op x s).2 a
  spent_eq : spent (M.exec i op x s).2 = spent s ∨
    ∃ a, K.spend op = some a ∧ spent (M.exec i op x s).2 = spent s ++ [a]

namespace LedgerStep

variable {M : Machine S τ ι σ} {K : Tickets S κ} {taken : σ → κ → Prop} {spent : σ → List κ}
  {holds : Option π → List κ} {i : τ} {x : ι} {s : σ} {op : S.Op}

variable [DecidableEq π] {p : π}

/-- **A command of the thread at `p`**, which had the ticket `t`: its ticket is the one it has
afterwards, and the place of what was spent holds just that. -/
theorem act (h : LedgerStep M K taken spent i op x s) {t : Option κ} (hapart : Apart holds (taken s))
    (hspent : holds none = spent s) (hp : holds (some p) = t.toList)
    (ht : ∀ a, K.spend op = some a → t = some a) :
    Apart (Function.update (Function.update holds (some p)
        (K.after t op (M.exec i op x s).1).toList) none (spent (M.exec i op x s).2))
      (taken (M.exec i op x s).2) := by
  obtain ⟨hmono, hgain, hkept⟩ := h
  generalize M.exec i op x s = m at hmono hgain hkept ⊢
  have hnone : ∀ l, Function.update (Function.update holds (some p) l) none (spent s) =
      Function.update holds (some p) l := by
    intro l
    rw [Function.update_eq_iff, Function.update_of_ne (Option.some_ne_none p).symm]
    exact ⟨hspent.symm, fun _ _ => rfl⟩
  cases hg : K.gain op m.1 with
  | some a =>
    -- a ticket is handed out; one that the thread still had is lost
    have hspend := K.spend_of_gain op m.1 a hg
    obtain ⟨hfree, htaken⟩ := hgain a hg
    have heq : spent m.2 = spent s := hkept.resolve_right fun ⟨b, hb, _⟩ => by simp [hspend] at hb
    have hclaim := (hapart.drop (some p)).claim (p := some p) (List.nodup_singleton a)
      fun b hb => by
        rw [List.mem_singleton.mp hb]
        exact hfree
    rw [Function.update_idem] at hclaim
    simp only [Tickets.after, hg, Option.toList_some, heq, hnone]
    refine hclaim.mono fun b hb => ?_
    rcases hb with hb | hb
    · exact hmono b hb
    · rw [List.mem_singleton.mp hb]
      exact htaken
  | none =>
    cases hsp : K.spend op with
    | none =>
      have heq : spent m.2 = spent s := hkept.resolve_right fun ⟨b, hb, _⟩ => by simp [hsp] at hb
      simp only [Tickets.after, hg, hsp, Option.isSome_none, Bool.false_eq_true, if_false, heq,
        hnone]
      refine (hapart.mono hmono).congr fun q => ?_
      rw [← hp, Function.update_eq_self]
    | some a =>
      -- the ticket is used: it is spent, or lost
      obtain rfl := ht a hsp
      simp only [Tickets.after, hg, hsp, Option.isSome_some, if_true, Option.toList_none]
      rcases hkept with heq | ⟨b, hb, heq⟩
      · rw [heq, hnone]
        exact (hapart.drop (some p)).mono hmono
      · obtain rfl : a = b := Option.some.inj (hsp.symm.trans hb)
        have hgive := hapart.give (p := none) (q := some p) (Option.some_ne_none p).symm
        rw [hspent, hp] at hgive
        rw [heq]
        exact hgive.mono hmono

/-- **A step of the thread at `p`**, whatever it has still to do. -/
theorem step {ticket : π → Option κ} {t : Prog S α}
    (h : ∀ op k, t = .cmd op k → LedgerStep M K taken spent i op x s)
    (hapart : Apart (Tickets.held ticket (spent s)) (taken s)) (ht : K.Affine (ticket p) t) :
    ∃ ticket' : π → Option κ, (∀ q, q ≠ p → ticket' q = ticket q) ∧
      K.Affine (ticket' p) (t.act M i x s).1 ∧
      Apart (Tickets.held ticket' (spent (t.act M i x s).2)) (taken (t.act M i x s).2) := by
  cases t with
  | ret a => exact ⟨ticket, fun _ _ => rfl, ht, hapart⟩
  | cmd op k =>
    refine ⟨Function.update ticket p (K.after (ticket p) op (M.exec i op x s).1),
      fun q hq => Function.update_of_ne hq _ _, ?_, ?_⟩
    · rw [Function.update_self]
      exact ht.2 _
    · refine ((h op k rfl).act hapart rfl rfl ht.1).congr fun q => ?_
      cases q with
      | none => rw [Function.update_self]; rfl
      | some q =>
        rw [Function.update_of_ne (Option.some_ne_none q)]
        by_cases hq : q = p
        · subst hq
          simp [Tickets.held]
        · rw [Function.update_of_ne fun hqp => hq (Option.some.inj hqp)]
          simp [Tickets.held, hq]

end LedgerStep

/-- A store that hands out each ticket once, and lists what is spent. -/
structure Ledger (M : Machine S τ ι σ) (K : Tickets S κ) (taken : σ → κ → Prop)
    (spent : σ → List κ) : Prop where
  taken_mono : ∀ i op x s a, taken s a → taken (M.exec i op x s).2 a
  gained : ∀ i op x s a, K.gain op (M.exec i op x s).1 = some a →
    ¬ taken s a ∧ taken (M.exec i op x s).2 a
  spent_eq : ∀ i op x s, spent (M.exec i op x s).2 = spent s ∨
    ∃ a, K.spend op = some a ∧ spent (M.exec i op x s).2 = spent s ++ [a]

namespace Ledger

/-- A second store, whose commands have no tickets, changes nothing. -/
theorem inl {M : Machine S τ ι σ} {K : Tickets S κ} {taken : σ → κ → Prop} {spent : σ → List κ}
    (h : Ledger M K taken spent) (N : Machine T τ ι ω) :
    Ledger (M.sum N) (K.inl T) (fun s => taken s.1) fun s => spent s.1 where
  taken_mono
    | i, .inl op, x, s, a, ha => h.taken_mono i op x s.1 a ha
    | _, .inr _, _, _, _, ha => ha
  gained
    | i, .inl op, x, s, a, ha => h.gained i op x s.1 a ha
    | _, .inr _, _, _, _, ha => nomatch ha
  spent_eq
    | i, .inl op, x, s => h.spent_eq i op x s.1
    | _, .inr _, _, _ => .inl rfl

variable {M : Machine S τ ι σ} {K : Tickets S κ} {taken : σ → κ → Prop} {spent : σ → List κ}
  {i : τ} {x : ι} {s : σ}

theorem at_step (h : Ledger M K taken spent) (op : S.Op) : LedgerStep M K taken spent i op x s :=
  ⟨h.taken_mono i op x s, h.gained i op x s, h.spent_eq i op x s⟩

/-- **A step of the thread at `p`**, whatever it has still to do. -/
theorem step [DecidableEq π] {p : π} (h : Ledger M K taken spent) {ticket : π → Option κ}
    {t : Prog S α} (hapart : Apart (Tickets.held ticket (spent s)) (taken s))
    (ht : K.Affine (ticket p) t) :
    ∃ ticket' : π → Option κ, (∀ q, q ≠ p → ticket' q = ticket q) ∧
      K.Affine (ticket' p) (t.act M i x s).1 ∧
      Apart (Tickets.held ticket' (spent (t.act M i x s).2)) (taken (t.act M i x s).2) :=
  LedgerStep.step (fun op _ _ => h.at_step op) hapart ht

end Ledger

/-! ## Pools -/

namespace Pool

variable {M : Machine S τ ι σ} {K : Tickets S κ} {taken : σ → κ → Prop} {spent : σ → List κ}
  [DecidableEq τ] {c : Pool S α τ σ}

/-- Every thread has the ticket it may need, or none. -/
structure Ticketed (K : Tickets S κ) (taken : σ → κ → Prop) (spent : σ → List κ)
    (ticket : τ → Option κ) (c : Pool S α τ σ) : Prop where
  apart : Apart (Tickets.held ticket (spent c.store)) (taken c.store)
  affine : ∀ i, K.Affine (ticket i) (c.prog i)

theorem Ticketed.step {ticket : τ → Option κ} (h : c.Ticketed K taken spent ticket) {l : τ × ι}
    (hl : Issues (LedgerStep M K taken spent l.1) c l) :
    ∃ ticket', (c.step M l).Ticketed K taken spent ticket' := by
  have hstep : ∀ op k, c.prog l.1 = .cmd op k → LedgerStep M K taken spent l.1 op l.2 c.store := by
    intro op k hp
    simpa only [Issues, hp] using hl
  obtain ⟨ticket', hother, haffine, hapart⟩ := LedgerStep.step hstep h.apart (h.affine l.1)
  refine ⟨ticket', hapart, fun j => ?_⟩
  by_cases hj : j = l.1
  · rw [hj, step_prog_self]
    exact haffine
  · rw [step_prog_of_ne hj, hother j hj]
    exact h.affine j

/-- **No ticket is spent twice.** -/
theorem spent_nodup (h : ∃ ticket, c.Ticketed K taken spent ticket) {ls : List (τ × ι)}
    (hls : Along (Pool.step M) (fun c l => Issues (LedgerStep M K taken spent l.1) c l) c ls) :
    (spent (run (Pool.step M) c ls).store).Nodup := by
  have hrun : ∃ ticket, (run (Pool.step M) c ls).Ticketed K taken spent ticket :=
    run_inv (I := fun c : Pool S α τ σ => ∃ ticket, c.Ticketed K taken spent ticket)
      (fun c l ⟨_, hc⟩ hl => hc.step hl) h hls
  obtain ⟨ticket, hend⟩ := hrun
  exact hend.apart.nodup none

end Pool

end Conc
