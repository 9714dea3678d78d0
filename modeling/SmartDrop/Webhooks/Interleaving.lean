/-
# Dispatchers under contracts

Every place of the dispatchers has a contract.  A step of one keeps all of them able to go on
(`Dispatchers.Safe`), where what one guarantees is what the others rely on, and where a delivery
can start from what the head of its dispatch returns with.

Any dispatch can also be brought to its end: its head first, and then its deliveries, in order
(`Dispatchers.exists_reports`).
-/
import SmartDrop.Webhooks.Dispatch

namespace SmartDrop.Webhooks.Dispatchers

open Conc

variable {δ β : Type} {P : Platform} {config : Config} {b : Batching} {who : Place δ β → Caller}
  {c : Dispatchers δ β}

/-- The store of the dispatchers. -/
abbrev World : Type := (Store × List (String × String)) × DispatchStore

/-! ## 1. Every place can go on -/

/-- Every place can go on from the store under its contract: the head of the dispatch `i` returns
with `H i`, and its deliveries with `D i`. -/
structure Safe (P : Platform) (who : Place δ β → Caller)
    (C : Place δ β → Contract (sig.sum dispatchSig) Env World)
    (H : δ → Except Err (List dispatcher.Notice) → World → Prop)
    (D : δ → ℕ → Except Err (Option Delivery) → World → Prop) (c : Dispatchers δ β) : Prop where
  head : ∀ i, Ready (world P who) (.head i) (C (.head i)) (c.head i) (H i) c.store
  delivery : ∀ i n code, c.delivery i n = some code →
    Ready (world P who) (.delivery i n) (C (.delivery i n)) code (D i n) c.store
  other : ∀ j, Ready (world P who) (.other j) (C (.other j)) (c.other j) (fun _ _ => True) c.store

/-- What one place guarantees is what the others rely on. -/
def Compatible (C : Place δ β → Contract (sig.sum dispatchSig) Env World) : Prop :=
  ∀ p p', p' ≠ p → ∀ s s', (C p).guar s s' → (C p').rely s s'

section Safe

variable {C : Place δ β → Contract (sig.sum dispatchSig) Env World}
  {H : δ → Except Err (List dispatcher.Notice) → World → Prop}
  {D : δ → ℕ → Except Err (Option Delivery) → World → Prop} {p : Place δ β} {s : World}

section Frame

variable [DecidableEq δ] [DecidableEq β] {i : δ} {n : ℕ} {x : Env}

/-- A delivery changes no head. -/
theorem step_delivery_head : (c.step P config b who (.delivery i n, x)).head = c.head := by
  cases hdelivery : c.delivery i n with
  | none => simp [step, hdelivery]
  | some code => by_cases hrun : c.mayRun b i n <;> simp [step, hdelivery, hrun]

/-- What was spawned stays. -/
theorem step_delivery_isSome {j : δ} {m : ℕ} (h : (c.delivery j m).isSome) :
    ((c.step P config b who (.delivery i n, x)).delivery j m).isSome := by
  cases hdelivery : c.delivery i n with
  | none => simpa [step, hdelivery] using h
  | some code =>
    by_cases hrun : c.mayRun b i n
    · by_cases hj : j = i
      · subst hj
        by_cases hm : m = n
        · simp [step, hdelivery, hrun, hm]
        · simpa [step, hdelivery, hrun, hm] using h
      · simpa [step, hdelivery, hrun, hj] using h
    · simpa [step, hdelivery, hrun] using h

end Frame

/-- A place goes on after the step of another. -/
theorem ready_of_other {α : Type} {t : Prog (sig.sum dispatchSig) α} {Q : α → World → Prop}
    {p' : Place δ β} (hC : Compatible C) (hne : p' ≠ p)
    (h : Ready (world P who) p' (C p') t Q c.store) (hs : s = c.store ∨ (C p).guar c.store s) :
    Ready (world P who) p' (C p') t Q s := by
  rcases hs with rfl | hs
  · exact h
  · exact h.rely (hC p p' hne _ _ hs)

variable [DecidableEq δ] [DecidableEq β]

theorem Safe.step_delivery (hC : Compatible C) (h : c.Safe P who C H D) {i : δ} {n : ℕ} {x : Env}
    (hok : ∀ op s, (C (.delivery i n)).ok op x s) :
    (c.step P config b who (.delivery i n, x)).Safe P who C H D := by
  cases hdelivery : c.delivery i n with
  | none => simpa [step, hdelivery] using h
  | some code =>
    by_cases hrun : c.mayRun b i n
    · obtain ⟨hready, hs⟩ := (h.delivery i n code hdelivery).advance fun op => hok op c.store
      have hstep : c.step P config b who (.delivery i n, x) =
          { c with
            store := (code.act (world P who) (.delivery i n) x c.store).2
            delivery := Function.update c.delivery i (Function.update (c.delivery i) n
              (some (code.act (world P who) (.delivery i n) x c.store).1)) } := by
        simp [step, hdelivery, hrun]
      rw [hstep]
      refine ⟨fun j => ready_of_other hC (by simp) (h.head j) hs, fun j m code' hcode => ?_,
        fun j => ready_of_other hC (by simp) (h.other j) hs⟩
      by_cases hj : j = i
      · subst hj
        by_cases hm : m = n
        · subst hm
          obtain rfl : _ = code' := by simpa using hcode
          exact hready
        · exact ready_of_other hC (by simpa using hm)
            (h.delivery j m code' (by simpa [hm] using hcode)) hs
      · exact ready_of_other hC (by simp [hj])
          (h.delivery j m code' (by simpa [hj] using hcode)) hs
    · simpa [step, hdelivery, hrun] using h

theorem Safe.step_other (hC : Compatible C) (h : c.Safe P who C H D) {j : β} {x : Env}
    (hok : ∀ op s, (C (.other j)).ok op x s) :
    (c.step P config b who (.other j, x)).Safe P who C H D := by
  obtain ⟨hready, hs⟩ := (h.other j).advance fun op => hok op c.store
  refine ⟨fun i => ready_of_other hC (by simp) (h.head i) hs, fun i n code hcode =>
    ready_of_other hC (by simp) (h.delivery i n code hcode) hs, fun k => ?_⟩
  by_cases hk : k = j
  · subst hk
    simpa [step] using hready
  · simpa [step, hk] using ready_of_other hC (by simpa using hk) (h.other k) hs

/-- The head of a dispatch returns with what its deliveries can start from. -/
theorem Safe.step_head (hC : Compatible C) (h : c.Safe P who C H D) {i : δ} {x : Env}
    (hok : ∀ op s, (C (.head i)).ok op x s)
    (hspawn : ∀ n notices notice s, H i (.ok notices) s → notices[n]? = some notice →
      Ready (world P who) (.delivery i n) (C (.delivery i n))
        (service (dispatcher.deliverToWebhook P config notice)).prog (D i n) s) :
    (c.step P config b who (.head i, x)).Safe P who C H D := by
  obtain ⟨hready, hs⟩ := (h.head i).advance fun op => hok op c.store
  refine ⟨fun j => ?_, fun j n code hcode => ?_,
    fun j => ready_of_other hC (by simp) (h.other j) hs⟩
  · by_cases hj : j = i
    · subst hj
      simpa [step] using hready
    · simpa [step, hj] using ready_of_other hC (by simpa using hj) (h.head j) hs
  · by_cases hj : j = i
    · subst hj
      simp only [step, Function.update_self] at hcode
      rcases Option.or_eq_some_iff.mp hcode with hold | ⟨-, hnew⟩
      · exact ready_of_other hC (by simp) (h.delivery j n code hold) hs
      · rw [spawn] at hnew
        split at hnew
        · rename_i notices hresult
          obtain ⟨notice, hnotice, rfl⟩ := Option.map_eq_some_iff.mp hnew
          refine hspawn n notices notice _ ?_ hnotice
          revert hready hresult
          cases ((c.head j).act (world P who) (.head j) x c.store).1 with
          | ret r =>
            intro hready hresult
            obtain rfl : r = .ok notices := by simpa using hresult
            exact hready.done
          | cmd op k => exact fun _ hresult => (nomatch hresult)
        · cases hnew
    · exact ready_of_other hC (by simp)
        (h.delivery j n code (by simpa [step, hj] using hcode)) hs

variable (config b) in
/-- What a step leaves is what its place guarantees. -/
theorem Safe.guar (h : c.Safe P who C H D) (l : Place δ β × Env)
    (hok : ∀ op s, (C l.1).ok op l.2 s) :
    (c.step P config b who l).store = c.store ∨
      (C l.1).guar c.store (c.step P config b who l).store := by
  obtain ⟨p, x⟩ := l
  cases p with
  | head i => exact ((h.head i).advance fun op => hok op c.store).2
  | other j => exact ((h.other j).advance fun op => hok op c.store).2
  | delivery i n =>
    cases hdelivery : c.delivery i n with
    | none => exact .inl (by simp [step, hdelivery])
    | some code =>
      by_cases hrun : c.mayRun b i n
      · have hadvance := (h.delivery i n code hdelivery).advance fun op => hok op c.store
        simpa [step, hdelivery, hrun] using hadvance.2
      · exact .inl (by simp [step, hdelivery, hrun])

end Safe

/-! ## 2. Any dispatch comes to its end -/

section Progress

theorem isSome_mapM {α γ : Type} (f : α → Option γ) (l : List α) :
    (l.mapM f).isSome ↔ ∀ a ∈ l, (f a).isSome := by
  induction l with
  | nil => simp
  | cons a l ih =>
    rw [List.mapM_cons, List.forall_mem_cons, ← ih]
    cases f a <;> cases l.mapM f <;> simp

/-- A dispatch has returned when its head and its deliveries have. -/
theorem isSome_reports {i : δ} {notices : List dispatcher.Notice}
    (hhead : c.head i = .ret (.ok notices)) :
    (c.reports i).isSome ↔
      ∀ n < notices.length, ((c.delivery i n).bind Prog.result?).isSome := by
  rw [reports, hhead, Prog.result?_ret]
  dsimp only
  rw [isSome_mapM]
  simp only [List.mem_zipIdx_iff_getElem?, Option.isSome_map]
  constructor
  · intro h n hn
    exact h (notices[n], n) (by simp [hn])
  · rintro h ⟨notice, n⟩ hn
    exact h n (List.getElem?_eq_some_iff.mp hn).1

variable [DecidableEq δ] [DecidableEq β]

variable (P config b who) in
/-- The head of a dispatch ends if it keeps taking steps. -/
theorem exists_head_ends (i : δ) (x : Env) (c : Dispatchers δ β) :
    ∃ k, (((run (step P config b who) c (List.replicate k (.head i, x))).head i).result?).isSome := by
  suffices h : ∀ (t : Prog (sig.sum dispatchSig) (Except Err (List dispatcher.Notice)))
      (c : Dispatchers δ β), c.head i = t →
      ∃ k, (((run (step P config b who) c (List.replicate k (.head i, x))).head i).result?).isSome from
    h _ c rfl
  intro t
  induction t with
  | ret a => exact fun c hc => ⟨0, by rw [List.replicate_zero, run_nil, hc]; rfl⟩
  | cmd op k ih =>
    intro c hc
    obtain ⟨m, hm⟩ := ih _ (c.step P config b who (.head i, x))
      (show _ = k ((world P who).exec (.head i) op x c.store).1 by simp [step, hc, Prog.act])
    exact ⟨m + 1, hm⟩

/-- Nothing else of the dispatch changes while one delivery takes steps. -/
structure SameBut (i : δ) (n : ℕ) (c c' : Dispatchers δ β) : Prop where
  head : c'.head = c.head
  delivery : ∀ m ≠ n, c'.delivery i m = c.delivery i m

theorem before_le (b : Batching) (n : ℕ) : Batching.before b n ≤ n := by
  rw [Batching.before]
  split
  · exact le_rfl
  · exact Nat.div_mul_le_self n b.concurrency

variable (P config b who) in
/-- A delivery that may run ends if it keeps taking steps. -/
theorem exists_delivery_ends (i : δ) (n : ℕ) (x : Env) (c : Dispatchers δ β)
    (hspawned : (c.delivery i n).isSome) (hrun : c.mayRun b i n) :
    ∃ k c', run (step P config b who) c (List.replicate k (.delivery i n, x)) = c' ∧
      SameBut i n c c' ∧ ((c'.delivery i n).bind Prog.result?).isSome := by
  suffices h : ∀ (t : Prog (sig.sum dispatchSig) (Except Err (Option Delivery)))
      (c : Dispatchers δ β), c.delivery i n = some t → c.mayRun b i n →
      ∃ k c', run (step P config b who) c (List.replicate k (.delivery i n, x)) = c' ∧
        SameBut i n c c' ∧ ((c'.delivery i n).bind Prog.result?).isSome by
    obtain ⟨t, ht⟩ := Option.isSome_iff_exists.mp hspawned
    exact h t c ht hrun
  intro t
  induction t with
  | ret a => exact fun c hc _ => ⟨0, c, rfl, ⟨rfl, fun _ _ => rfl⟩, by simp [hc]⟩
  | cmd op k ih =>
    intro c hc hrun
    have hsame : SameBut i n c (c.step P config b who (.delivery i n, x)) := by
      constructor
      · simp [step, hc, hrun]
      · intro m hm
        simp [step, hc, hrun, hm]
    have hrun' : (c.step P config b who (.delivery i n, x)).mayRun b i n := by
      intro m hm
      have hlt : m < n := hm.trans_le (before_le b n)
      rw [hsame.delivery m (by omega)]
      exact hrun m hm
    obtain ⟨m, c', hc', hrest, hend⟩ := ih _ (c.step P config b who (.delivery i n, x))
      (show _ = some (k ((world P who).exec (.delivery i n) op x c.store).1) by
        simp [step, hc, hrun, Prog.act]) hrun'
    refine ⟨m + 1, c', hc', ⟨hrest.head.trans hsame.head, fun m' hm' => ?_⟩, hend⟩
    exact (hrest.delivery m' hm').trans (hsame.delivery m' hm')

variable (P config b who) in
/-- The deliveries of a dispatch end one after the other. -/
theorem exists_deliveries_end (i : δ) (N : ℕ) (x : Env) (c : Dispatchers δ β)
    (hspawned : ∀ n < N, (c.delivery i n).isSome) :
    ∃ ls : List (Place δ β × Env), (∀ l ∈ ls, l.2 = x) ∧
      (run (step P config b who) c ls).head = c.head ∧
      ∀ n < N, (((run (step P config b who) c ls).delivery i n).bind Prog.result?).isSome := by
  suffices h : ∀ m ≤ N, ∃ (ls : List (Place δ β × Env)) (c' : Dispatchers δ β),
      (∀ l ∈ ls, l.2 = x) ∧ run (step P config b who) c ls = c' ∧ c'.head = c.head ∧
      (∀ n < m, ((c'.delivery i n).bind Prog.result?).isSome) ∧
      ∀ n < N, (c'.delivery i n).isSome by
    obtain ⟨ls, c', hls, hc', hhead, hends, -⟩ := h N le_rfl
    exact ⟨ls, hls, by rw [hc', hhead], by rwa [hc']⟩
  intro m
  induction m with
  | zero =>
    intro _
    refine ⟨[], c, fun l hl => absurd hl List.not_mem_nil, rfl, rfl, fun n hn => ?_, hspawned⟩
    exact absurd hn n.not_lt_zero
  | succ m ih =>
    intro hm
    obtain ⟨ls, c', hls, hc', hhead, hends, hsome⟩ := ih (by omega)
    have hrun : c'.mayRun b i m := fun n hn => hends n (hn.trans_le (before_le b m))
    obtain ⟨k, c'', hc'', hsame, hend⟩ := exists_delivery_ends P config b who i m x c'
      (hsome m (by omega)) hrun
    refine ⟨ls ++ List.replicate k (.delivery i m, x), c'', fun l hl => ?_, ?_,
      hsame.head.trans hhead, fun n hn => ?_, fun n hn => ?_⟩
    · rcases List.mem_append.mp hl with hl | hl
      · exact hls l hl
      · rw [List.eq_of_mem_replicate hl]
    · rw [run_append, hc', hc'']
    · by_cases he : n = m
      · rw [he]
        exact hend
      · rw [hsame.delivery n he]
        exact hends n (by omega)
    · by_cases he : n = m
      · obtain ⟨r, hr⟩ := Option.isSome_iff_exists.mp hend
        obtain ⟨code, hcode, -⟩ := Option.bind_eq_some_iff.mp hr
        rw [he, hcode]
        rfl
      · rw [hsame.delivery n he]
        exact hsome n hn

end Progress

end SmartDrop.Webhooks.Dispatchers
