/-
# Programs over two signatures

`S.sum T` are the commands of `S` and of `T`, and a machine for each makes one for both, on the
pair of their stores.  A program over `S` is one over `S.sum T` that never uses the other half
(`Prog.inl`, `Prog.inr`); what it can issue is what it could before.
-/
import SmartDrop.Lib.Prog

namespace Conc

variable {S T : Sig} {α β ε τ ι σ ω : Type}

/-- The commands of either signature. -/
def Sig.sum (S T : Sig) : Sig where
  Op := S.Op ⊕ T.Op
  Rep := Sum.elim S.Rep T.Rep

/-- The two machines, each on its own store. -/
def Machine.sum (M : Machine S τ ι σ) (N : Machine T τ ι ω) : Machine (S.sum T) τ ι (σ × ω) where
  exec
    | i, .inl op, x, s => ((M.exec i op x s.1).1, (M.exec i op x s.1).2, s.2)
    | i, .inr op, x, s => ((N.exec i op x s.2).1, s.1, (N.exec i op x s.2).2)

namespace Prog

/-- A program that uses the first half only. -/
def inl : Prog S α → Prog (S.sum T) α
  | .ret a => .ret a
  | .cmd op k => .cmd (.inl op) fun r => (k r).inl

@[simp] theorem inl_ret (a : α) : (Prog.ret a : Prog S α).inl = (Prog.ret a : Prog (S.sum T) α) :=
  rfl

@[simp] theorem inl_cmd (op : S.Op) (k : S.Rep op → Prog S α) :
    (Prog.cmd op k).inl = (Prog.cmd (.inl op) fun r => (k r).inl : Prog (S.sum T) α) := rfl

theorem inl_bind (t : Prog S α) (f : α → Prog S β) :
    ((t.bind f).inl : Prog (S.sum T) β) = t.inl.bind fun a => (f a).inl := by
  induction t with
  | ret a => rfl
  | cmd op k ih => exact congrArg (Prog.cmd (S := S.sum T) (.inl op)) (funext ih)

/-- A program that uses the second half only. -/
def inr : Prog T α → Prog (S.sum T) α
  | .ret a => .ret a
  | .cmd op k => .cmd (.inr op) fun r => (k r).inr

@[simp] theorem inr_ret (a : α) : (Prog.ret a : Prog T α).inr = (Prog.ret a : Prog (S.sum T) α) :=
  rfl

@[simp] theorem inr_cmd (op : T.Op) (k : T.Rep op → Prog T α) :
    (Prog.cmd op k).inr = (Prog.cmd (.inr op) fun r => (k r).inr : Prog (S.sum T) α) := rfl

theorem inr_bind (t : Prog T α) (f : α → Prog T β) :
    ((t.bind f).inr : Prog (S.sum T) β) = t.inr.bind fun a => (f a).inr := by
  induction t with
  | ret a => rfl
  | cmd op k ih => exact congrArg (Prog.cmd (S := S.sum T) (.inr op)) (funext ih)

/-- What a program can issue is not changed by the other half. -/
theorem Uses.inl {φ : (S.sum T).Op → Prop} {t : Prog S α} (h : t.Uses fun op => φ (.inl op)) :
    (t.inl : Prog (S.sum T) α).Uses φ := by
  induction t with
  | ret a => trivial
  | cmd op k ih => exact ⟨h.1, fun r => ih r (h.2 r)⟩

theorem Uses.inr {φ : (S.sum T).Op → Prop} {t : Prog T α} (h : t.Uses fun op => φ (.inr op)) :
    (t.inr : Prog (S.sum T) α).Uses φ := by
  induction t with
  | ret a => trivial
  | cmd op k ih => exact ⟨h.1, fun r => ih r (h.2 r)⟩

end Prog

/-- `Prog.inl`, for a program that can throw. -/
def Throws.inl (t : Throws S ε α) : Throws (S.sum T) ε α := Prog.inl t.prog

theorem Throws.inl_bind (t : Throws S ε α) (f : α → Throws S ε β) :
    (Throws.inl (t >>= f) : Throws (S.sum T) ε β) = Throws.inl t >>= fun a => Throws.inl (f a) := by
  refine (congrArg Prog.inl (Throws.prog_bind t f)).trans ?_
  rw [Prog.inl_bind]
  refine congrArg (Prog.bind (Throws.inl t).prog) ?_
  funext r
  cases r <;> rfl

/-- `Prog.inr`, for a program that can throw. -/
def Throws.inr (t : Throws T ε α) : Throws (S.sum T) ε α := Prog.inr t.prog

theorem Throws.inr_bind (t : Throws T ε α) (f : α → Throws T ε β) :
    (Throws.inr (t >>= f) : Throws (S.sum T) ε β) = Throws.inr t >>= fun a => Throws.inr (f a) := by
  refine (congrArg Prog.inr (Throws.prog_bind t f)).trans ?_
  rw [Prog.inr_bind]
  refine congrArg (Prog.bind (Throws.inr t).prog) ?_
  funext r
  cases r <;> rfl

/-! ## Judgements -/

section Sat

variable {M : Machine S τ ι σ} {N : Machine T τ ι ω} {i : τ} {C : Contract S ι σ}
  {D : Contract (S.sum T) ι (σ × ω)} {B : ω → Prop}

/-- A program of the first half meets its contract beside the second half, where what it relies on
keeps an assertion on that. -/
theorem Sat.inl {t : Prog S α} {P : σ → Prop} {Q : α → σ → Prop} (h : Sat M i C t P Q)
    (hok : ∀ op x s, D.ok (.inl op) x s → C.ok op x s.1)
    (hrely : ∀ s s', D.rely s s' → C.rely s.1 s'.1 ∧ (B s.2 → B s'.2))
    (hguar : ∀ s s', C.guar s.1 s'.1 → s'.2 = s.2 → D.guar s s') :
    Sat (M.sum N) i D t.inl (fun s => P s.1 ∧ B s.2) fun a s => Q a s.1 ∧ B s.2 := by
  induction t generalizing P with
  | ret a => exact fun s hs => ⟨h s.1 hs.1, hs.2⟩
  | cmd op k ih =>
    rintro x s ⟨hP, hB⟩ hx
    obtain ⟨hg, P', hst, hP', hk⟩ := h x s.1 hP (hok op x s hx)
    refine ⟨hguar _ _ hg rfl, fun s => P' s.1 ∧ B s.2, ?_, ⟨hP', hB⟩, ih _ hk⟩
    intro s s' hs hr
    exact ⟨hst hs.1 (hrely s s' hr).1, (hrely s s' hr).2 hs.2⟩

/-- The same, for both exits. -/
theorem SatE.inl {t : Throws S ε α} {P : σ → Prop} {Q : α → σ → Prop} {E : ε → σ → Prop}
    (h : SatE M i C t P Q E) (hok : ∀ op x s, D.ok (.inl op) x s → C.ok op x s.1)
    (hrely : ∀ s s', D.rely s s' → C.rely s.1 s'.1 ∧ (B s.2 → B s'.2))
    (hguar : ∀ s s', C.guar s.1 s'.1 → s'.2 = s.2 → D.guar s s') :
    SatE (M.sum N) i D (Throws.inl t) (fun s => P s.1 ∧ B s.2) (fun a s => Q a s.1 ∧ B s.2)
      fun e s => E e s.1 ∧ B s.2 := by
  refine Sat.mono (Sat.inl h hok hrely hguar) (fun _ h => h) ?_
  rintro (e | a) s hs <;> exact hs

end Sat

/-- A program of the first half that runs alone meets its contract on any machine that executes its
commands in the same way. -/
theorem Sat.embed {κ : Type} {M : Machine S τ ι σ} {N : Machine (S.sum T) τ κ σ} {i : τ} {f : κ → ι}
    {ok : S.Op → ι → σ → Prop} {ok' : (S.sum T).Op → κ → σ → Prop}
    (hexec : ∀ i (op : S.Op) x s, N.exec i (.inl op) x s = M.exec i op (f x) s)
    (hok : ∀ op x s, ok' (.inl op) x s → ok op (f x) s) {t : Prog S α} {P : σ → Prop}
    {Q : α → σ → Prop} (h : Sat M i (.alone ok) t P Q) : Sat N i (.alone ok') t.inl P Q := by
  induction t generalizing P with
  | ret a => exact h
  | cmd op k ih =>
    intro x s hs hx
    obtain ⟨-, P', hst, hP', hk⟩ := h (f x) s hs (hok op x s hx)
    rw [hexec]
    exact ⟨trivial, P', hst, hP', ih _ hk⟩

/-- A program meets its contract beside a record that its commands keep as it should be, where what
it relies on keeps that as well. -/
theorem SatE.observe {M : Machine S τ ι σ} {i : τ} {C : Contract S ι σ}
    {D : Contract S ι (σ × ω)} {φ : S.Op → Prop} {note : τ → (op : S.Op) → ι → σ → ω → ω}
    {B : ω → Prop} {t : Throws S ε α} {P : σ → Prop} {Q : α → σ → Prop} {E : ε → σ → Prop}
    (h : SatE M i C t P Q E) (huses : Throws.Uses φ t)
    (hB : ∀ op x s w, φ op → B w → B (note i op x s w))
    (hok : ∀ op x s, D.ok op x s → C.ok op x s.1)
    (hrely : ∀ s s', D.rely s s' → C.rely s.1 s'.1 ∧ (B s.2 → B s'.2))
    (hguar : ∀ op x s, φ op → C.guar s.1 (M.exec i op x s.1).2 →
      D.guar s ((M.observe note).exec i op x s).2) :
    SatE (M.observe note) i D t (fun s => P s.1 ∧ B s.2) (fun a s => Q a s.1 ∧ B s.2)
      fun e s => E e s.1 ∧ B s.2 := by
  have hprog : ∀ (t : Prog S (Except ε α)) (P : σ → Prop) (Q : Except ε α → σ → Prop),
      Sat M i C t P Q → t.Uses φ →
      Sat (M.observe note) i D t (fun s => P s.1 ∧ B s.2) fun a s => Q a s.1 ∧ B s.2 := by
    intro t
    induction t with
    | ret a => exact fun P Q h _ s hs => ⟨h s.1 hs.1, hs.2⟩
    | cmd op k ih =>
      rintro P Q h hu x s ⟨hP, hs⟩ hx
      obtain ⟨hg, P', hst, hP', hk⟩ := h x s.1 hP (hok op x s hx)
      refine ⟨hguar op x s hu.1 hg, fun s => P' s.1 ∧ B s.2, ?_,
        ⟨hP', hB op x s.1 s.2 hu.1 hs⟩, ih _ P' Q hk (hu.2 _)⟩
      intro s s' hs hr
      exact ⟨hst hs.1 (hrely s s' hr).1, (hrely s s' hr).2 hs.2⟩
  refine Sat.mono (hprog t.prog _ _ h huses) (fun _ h => h) ?_
  rintro (e | a) s hs <;> exact hs

end Conc
