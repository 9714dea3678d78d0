/-
# Logs that are replayed

Several writers apply the entries of one log to a state, each a part of it in order, and parts
overlap, so the word of what was applied repeats entries and steps back.  Two facts together say
when the result is that of the log itself:

* `Settled.dedup_sorted`: if whatever is later in the log is applied again after each step back,
  the last occurrences of the entries come in the order of the log.
* `Acts.foldl_dedup`: for a state whose views are acted on by each entry in one of three ways
  (`Act`: leave it, set it, normalise it), an entry that is applied again later does not count
  before.

`Progress` says how far each writer is.  A writer keeps the word on its way to being settled
(`Covered.apply`) when it has in its own part whatever is later than its next entry and was
applied already.
-/
import Mathlib.Data.List.Dedup
import Mathlib.Data.List.Sort
import Mathlib.Data.Nat.Notation
import Mathlib.Logic.Function.Basic
import Mathlib.Order.Basic

namespace Replay

/-! ## 1. Words that step back -/

/-- After an entry is applied, every later one that was applied before is applied again. -/
def Settled (w : List ℕ) : Prop := ∀ u d v, w = u ++ d :: v → ∀ c ∈ u, d < c → c ∈ v

theorem Settled.tail {a : ℕ} {w : List ℕ} (h : Settled (a :: w)) : Settled w :=
  fun u d v e c hc => h (a :: u) d v (by rw [e, List.cons_append]) c (List.mem_cons_of_mem _ hc)

/-- **Last occurrences** come in order. -/
theorem Settled.dedup_sorted {w : List ℕ} (h : Settled w) : w.dedup.Pairwise (· < ·) := by
  induction w with
  | nil => exact List.Pairwise.nil
  | cons a w ih =>
    by_cases ha : a ∈ w
    · rw [List.dedup_cons_of_mem ha]
      exact ih h.tail
    · rw [List.dedup_cons_of_notMem ha]
      refine List.pairwise_cons.mpr ⟨fun b hb => ?_, ih h.tail⟩
      have hbw : b ∈ w := List.mem_dedup.mp hb
      rcases Nat.lt_trichotomy a b with hlt | rfl | hgt
      · exact hlt
      · exact absurd hbw ha
      · obtain ⟨u, v, rfl⟩ := List.append_of_mem hbw
        have hav := h (a :: u) b v rfl a List.mem_cons_self hgt
        exact absurd (List.mem_append_right _ (List.mem_cons_of_mem _ hav)) ha

/-- A word has one sorted list of its entries. -/
theorem Settled.dedup_eq {w ks : List ℕ} (h : Settled w) (hks : ks.Pairwise (· < ·))
    (hmem : ∀ k, k ∈ ks ↔ k ∈ w) : w.dedup = ks := by
  have hperm : w.dedup.Perm ks := by
    refine (List.perm_ext_iff_of_nodup (List.nodup_dedup w) (hks.imp fun h => Nat.ne_of_lt h)).mpr ?_
    intro k
    rw [List.mem_dedup, hmem]
  exact hperm.eq_of_pairwise (fun _ _ _ _ h h' => absurd h' (Nat.lt_asymm h)) h.dedup_sorted hks

/-! ## 2. Entries that are applied again -/

variable {σ α β : Type}

/-- How an entry acts on a view. -/
inductive Act (β : Type) where
  | keep
  | set (b : β)
  | norm

/-- The action, with the one way to normalise. -/
def Act.apply (N : β → β) : Act β → β → β
  | .keep, b => b
  | .set c, _ => c
  | .norm, b => N b

/-- The entries of a word act one after the other. -/
def actAll (N : β → β) (act : α → Act β) (w : List α) (b : β) : β :=
  w.foldl (fun b e => (act e).apply N b) b

variable {N : β → β} {act : α → Act β}

theorem actAll_keep (w : List α) (b : β) : actAll N (fun _ => .keep) w b = b := by
  induction w with
  | nil => rfl
  | cons e w ih => exact ih

theorem actAll_of_set {w : List α} {e : α} {c : β} (he : e ∈ w) (hact : act e = .set c) (b b' : β) :
    actAll N act w b = actAll N act w b' := by
  induction w generalizing b b' with
  | nil => exact absurd he List.not_mem_nil
  | cons a w ih =>
    rcases List.mem_cons.mp he with rfl | he
    · simp [actAll, hact, Act.apply]
    · exact ih he _ _

theorem actAll_norm (hN : ∀ b, N (N b) = N b) {w : List α} {e : α} (he : e ∈ w)
    (hact : act e = .norm) (b : β) : actAll N act w (N b) = actAll N act w b := by
  induction w generalizing b with
  | nil => exact absurd he List.not_mem_nil
  | cons a w ih =>
    rcases List.mem_cons.mp he with rfl | he
    · simp [actAll, hact, Act.apply, hN]
    · show actAll N act w ((act a).apply N (N b)) = actAll N act w ((act a).apply N b)
      cases ha : act a with
      | keep => exact ih he b
      | set c => rfl
      | norm => simp [Act.apply, hN]

/-- An entry that acts again later does not count before. -/
theorem actAll_absorb (hN : ∀ b, N (N b) = N b) {w : List α} {d : α} (hd : d ∈ w) (b : β) :
    actAll N act w ((act d).apply N b) = actAll N act w b := by
  cases hact : act d with
  | keep => rfl
  | set c => exact actAll_of_set hd hact _ _
  | norm => exact actAll_norm hN hd hact b

/-- What is applied before all of a word again does not count. -/
theorem actAll_actAll (hN : ∀ b, N (N b) = N b) {u w : List α} (h : u ⊆ w) (b : β) :
    actAll N act w (actAll N act u b) = actAll N act w b := by
  induction u generalizing b with
  | nil => rfl
  | cons d u ih =>
    rw [List.cons_subset] at h
    show actAll N act w (actAll N act u ((act d).apply N b)) = _
    rw [ih h.2, actAll_absorb hN h.1]

/-- In the states of `I`, each entry acts on the view. -/
structure Acts (I : σ → Prop) (f : σ → α → σ) (view : σ → β) (N : β → β) (act : α → Act β) :
    Prop where
  keeps : ∀ x e, I x → I (f x e)
  view_eq : ∀ x e, I x → view (f x e) = (act e).apply N (view x)
  idem : ∀ b, N (N b) = N b

variable {I : σ → Prop} {f : σ → α → σ} {view : σ → β}

theorem Acts.keeps_foldl (h : Acts I f view N act) {x : σ} (hx : I x) (w : List α) :
    I (w.foldl f x) := by
  induction w generalizing x with
  | nil => exact hx
  | cons e w ih => exact ih (h.keeps x e hx)

theorem Acts.view_foldl (h : Acts I f view N act) {x : σ} (hx : I x) (w : List α) :
    view (w.foldl f x) = actAll N act w (view x) := by
  induction w generalizing x with
  | nil => rfl
  | cons e w ih =>
    rw [List.foldl_cons, ih (h.keeps x e hx), h.view_eq x e hx]
    rfl

/-- **The view of a word** is that of the last occurrences of its entries. -/
theorem Acts.foldl_dedup [DecidableEq α] (h : Acts I f view N act) {x : σ} (hx : I x)
    (w : List α) : view (w.foldl f x) = view (w.dedup.foldl f x) := by
  induction w generalizing x with
  | nil => rfl
  | cons a w ih =>
    by_cases ha : a ∈ w
    · rw [List.dedup_cons_of_mem ha, ← ih hx, List.foldl_cons, h.view_foldl (h.keeps x a hx),
        h.view_foldl hx, h.view_eq x a hx, actAll_absorb h.idem ha]
    · rw [List.dedup_cons_of_notMem ha, List.foldl_cons, List.foldl_cons]
      exact ih (h.keeps x a hx)

/-- **A word that is applied twice** shows what it shows when it is applied once. -/
theorem Acts.foldl_foldl (h : Acts I f view N act) {x : σ} (hx : I x) (w : List α) :
    view (w.foldl f (w.foldl f x)) = view (w.foldl f x) := by
  rw [h.view_foldl (h.keeps_foldl hx w), h.view_foldl hx, actAll_actAll h.idem (List.Subset.refl w)]

/-- Each entry leaves a mark, which the others keep, and does nothing where its mark is. -/
structure Marks (f : σ → α → σ) (mark : α → σ → Prop) : Prop where
  leaves : ∀ x e, mark e (f x e)
  keeps : ∀ x e d, mark d x → mark d (f x e)
  same : ∀ x e, mark e x → f x e = x

variable {mark : α → σ → Prop}

theorem Marks.keeps_foldl (h : Marks f mark) {d : α} {x : σ} (hx : mark d x) (w : List α) :
    mark d (w.foldl f x) := by
  induction w generalizing x with
  | nil => exact hx
  | cons e w ih => exact ih (h.keeps x e d hx)

theorem Marks.mark_foldl (h : Marks f mark) {d : α} {w : List α} (hd : d ∈ w) (x : σ) :
    mark d (w.foldl f x) := by
  induction w generalizing x with
  | nil => exact absurd hd List.not_mem_nil
  | cons e w ih =>
    rcases List.mem_cons.mp hd with rfl | hd
    · exact h.keeps_foldl (h.leaves x d) w
    · exact ih hd _

/-- Entries whose marks are there do nothing. -/
theorem Marks.foldl_same (h : Marks f mark) {x : σ} {w : List α} (hx : ∀ e ∈ w, mark e x) :
    w.foldl f x = x := by
  induction w with
  | nil => rfl
  | cons e w ih =>
    rw [List.forall_mem_cons] at hx
    rw [List.foldl_cons, h.same x e hx.1]
    exact ih hx.2

/-- **Entries that leave marks** do nothing the second time. -/
theorem Marks.foldl_foldl (h : Marks f mark) (x : σ) (w : List α) :
    w.foldl f (w.foldl f x) = w.foldl f x :=
  h.foldl_same fun _ he => h.mark_foldl he x

/-- Two updates for each entry: all of one kind first, or one after the other. -/
theorem foldl_foldl_of_comm {g : σ → α → σ} (h : ∀ x d e, f (g x e) d = g (f x d) e) (x : σ)
    (w : List α) : w.foldl f (w.foldl g x) = w.foldl (fun x e => f (g x e) e) x := by
  have hcomm : ∀ (w : List α) (x : σ) (d : α), f (w.foldl g x) d = w.foldl g (f x d) := by
    intro w
    induction w with
    | nil => exact fun _ _ => rfl
    | cons e w ih =>
      intro x d
      rw [List.foldl_cons, ih, h]
      rfl
  induction w generalizing x with
  | nil => rfl
  | cons e w ih =>
    rw [List.foldl_cons, List.foldl_cons, List.foldl_cons, hcomm, ih]

/-! ## 3. Writers of one log -/

/-- How many entries of its part each writer has applied, and the word of all that was. -/
structure Progress (τ : Type) where
  done : τ → ℕ
  word : List ℕ

/-- Nobody has applied anything. -/
def Progress.init (τ : Type) : Progress τ := ⟨fun _ => 0, []⟩

variable {τ : Type} [DecidableEq τ] {parts : τ → List ℕ} {p : Progress τ} {i : τ} {k : ℕ}

/-- A writer applies the next entry of its part. -/
def Progress.apply (parts : τ → List ℕ) (i : τ) (p : Progress τ) : Progress τ where
  done := Function.update p.done i (p.done i + 1)
  word := p.word ++ ((parts i)[p.done i]?).toList

/-- The word holds what was applied, and every step back will be made good. -/
structure Covered (parts : τ → List ℕ) (p : Progress τ) : Prop where
  mem : ∀ k, k ∈ p.word ↔ ∃ i, k ∈ (parts i).take (p.done i)
  pending : ∀ u d v, p.word = u ++ d :: v → ∀ c ∈ u, d < c →
    c ∈ v ∨ ∃ i, c ∈ (parts i).drop (p.done i)

omit [DecidableEq τ] in
theorem Covered.init (parts : τ → List ℕ) : Covered parts (Progress.init τ) where
  mem k := by simp [Progress.init]
  pending u d v h := by simp [Progress.init] at h

/-- The entries of a sorted part after the next one. -/
theorem mem_drop_of_lt {ks : List ℕ} (hsorted : ks.Pairwise (· < ·)) {n c : ℕ}
    (hk : ks[n]? = some k) (hc : c ∈ ks) (hlt : k < c) : c ∈ ks.drop (n + 1) := by
  obtain ⟨hn, rfl⟩ := List.getElem?_eq_some_iff.mp hk
  obtain ⟨m, hm, rfl⟩ := List.getElem_of_mem hc
  have hnm : n < m := by
    rcases Nat.lt_trichotomy n m with h | rfl | h
    · exact h
    · exact absurd hlt (Nat.lt_irrefl _)
    · exact absurd hlt (Nat.lt_asymm (List.pairwise_iff_getElem.mp hsorted m n hm hn h))
  refine List.mem_drop_iff_getElem.mpr ⟨m - (n + 1), by omega, ?_⟩
  congr 1
  omega

/-- **One step of a writer.**  Whatever is later than its next entry and was applied already
is in its own part. -/
theorem Covered.apply (h : Covered parts p) (hsorted : ∀ i, (parts i).Pairwise (· < ·))
    (hk : (parts i)[p.done i]? = some k) (hlate : ∀ c ∈ p.word, k < c → c ∈ parts i) :
    Covered parts (p.apply parts i) := by
  have hword : (p.apply parts i).word = p.word ++ [k] := by simp [Progress.apply, hk]
  have hself : (p.apply parts i).done i = p.done i + 1 := Function.update_self ..
  have hother : ∀ j, j ≠ i → (p.apply parts i).done j = p.done j :=
    fun j hj => Function.update_of_ne hj ..
  have htake : (parts i).take (p.done i + 1) = (parts i).take (p.done i) ++ [k] := by
    rw [List.take_add_one, hk]
    rfl
  constructor
  · intro c
    rw [hword, List.mem_append, List.mem_singleton, h.mem]
    constructor
    · rintro (⟨j, hj⟩ | rfl)
      · by_cases hji : j = i
        · subst hji
          exact ⟨j, by rw [hself, htake]; exact List.mem_append_left _ hj⟩
        · exact ⟨j, by rwa [hother j hji]⟩
      · exact ⟨i, by rw [hself, htake]; exact List.mem_append_right _ (List.mem_singleton_self _)⟩
    · rintro ⟨j, hj⟩
      by_cases hji : j = i
      · subst hji
        rw [hself, htake] at hj
        rcases List.mem_append.mp hj with hj | hj
        · exact Or.inl ⟨j, hj⟩
        · exact Or.inr (List.mem_singleton.mp hj)
      · exact Or.inl ⟨j, by rwa [hother j hji] at hj⟩
  · intro u d v huv c hc hdc
    rw [hword] at huv
    -- what is still to be applied by writer `i` is the new entry or comes after it
    have hdrop : ∀ c, c ∈ (parts i).drop (p.done i) →
        c = k ∨ c ∈ (parts i).drop ((p.apply parts i).done i) := by
      intro c hc
      obtain ⟨hn, hkn⟩ := List.getElem?_eq_some_iff.mp hk
      rw [List.drop_eq_getElem_cons hn, hkn] at hc
      rw [hself]
      exact List.mem_cons.mp hc
    rcases List.eq_nil_or_concat v with rfl | ⟨v', e, rfl⟩
    · obtain ⟨rfl, hd⟩ := List.append_inj' huv rfl
      obtain rfl : k = d := (List.cons.inj hd).1
      refine Or.inr ⟨i, ?_⟩
      rw [hself]
      exact mem_drop_of_lt (hsorted i) hk (hlate c hc hdc) hdc
    · rw [List.concat_eq_append, ← List.cons_append, ← List.append_assoc] at huv
      obtain ⟨hold, he⟩ := List.append_inj' huv rfl
      obtain rfl : k = e := (List.cons.inj he).1
      rw [List.concat_eq_append]
      rcases h.pending u d v' hold c hc hdc with hv | ⟨j, hj⟩
      · exact Or.inl (List.mem_append_left _ hv)
      · by_cases hji : j = i
        · subst hji
          rcases hdrop c hj with rfl | hc
          · exact Or.inl (List.mem_append_right _ (List.mem_singleton_self _))
          · exact Or.inr ⟨j, hc⟩
        · exact Or.inr ⟨j, by rwa [hother j hji]⟩

omit [DecidableEq τ] in
/-- **When every writer has finished** the word is settled, and holds the entries of all parts. -/
theorem Covered.settled (h : Covered parts p) (hdone : ∀ i, p.done i = (parts i).length) :
    Settled p.word ∧ ∀ k, k ∈ p.word ↔ ∃ i, k ∈ parts i := by
  constructor
  · intro u d v huv c hc hdc
    rcases h.pending u d v huv c hc hdc with hv | ⟨i, hi⟩
    · exact hv
    · rw [hdone, List.drop_length] at hi
      exact absurd hi List.not_mem_nil
  · intro k
    rw [h.mem]
    refine exists_congr fun i => ?_
    rw [hdone, List.take_length]

end Replay
