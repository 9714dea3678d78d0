/-
# Sorted sets that are capped

A sorted set that is trimmed after each insertion holds the highest of what was inserted
(`ZSet.Highest`).  It goes on to do so when an entry leaves it, provided that no other was trimmed,
or that the entry itself was (`Highest.erase`): what was trimmed does not come back.
-/
import SmartDrop.Lib.RedisTypes

namespace Redis

variable {α β : Type} [LinearOrder α] [LinearOrder β]

theorem Ranked.antisymm {a b : β × α} (h : Ranked a b) (h' : Ranked b a) : a = b := by
  rcases h with h | ⟨h, hm⟩
  · rcases h' with h' | ⟨h', -⟩
    · exact absurd h' (lt_asymm h)
    · exact absurd h (by rw [h']; exact lt_irrefl _)
  · rcases h' with h' | ⟨-, hm'⟩
    · exact absurd h' (by rw [h]; exact lt_irrefl _)
    · exact Prod.ext h (le_antisymm hm hm')

theorem Ranked.score_le {a b : β × α} (h : Ranked a b) : a.1 ≤ b.1 := by
  rcases h with h | ⟨h, -⟩
  · exact le_of_lt h
  · exact le_of_eq h

namespace ZSet

variable {z : ZSet β α} {n : ℕ} {S : β × α → Prop} {e : β × α}

/-! ## 1. Trimming -/

theorem entries_nodup (z : ZSet β α) : z.entries.Nodup := z.nodup.of_map

theorem mem_of_mem_entries (h : e ∈ z.entries) : e.2 ∈ z := List.mem_map_of_mem h

theorem mem_entries_of_mem {m : α} (h : m ∈ z) : ∃ score, (score, m) ∈ z.entries := by
  obtain ⟨e, he, rfl⟩ := List.mem_map.mp h
  exact ⟨e.1, he⟩

theorem mem_of_mem_trim (h : e ∈ (z.trim n).entries) : e ∈ z.entries := List.mem_of_mem_drop h

theorem zcard_trim_le (z : ZSet β α) (n : ℕ) : (z.trim n).zcard ≤ n := by
  unfold zcard trim
  rw [List.length_drop]
  omega

theorem zcard_zrem_lt {m : α} (h : m ∈ z) : (z.zrem m).zcard < z.zcard := by
  obtain ⟨e, he, rfl⟩ := List.mem_map.mp h
  exact List.length_filter_lt_length_iff_exists.mpr ⟨e, he, by simp⟩

/-- What is trimmed ranks below what stays. -/
theorem of_not_mem_trim (h : e ∈ z.entries) (hnot : e ∉ (z.trim n).entries) :
    (z.trim n).zcard = n ∧ ∀ e' ∈ (z.trim n).entries, Ranked e e' := by
  have htrim : (z.trim n).entries = z.entries.drop (z.entries.length - n) := rfl
  unfold zcard
  rw [htrim] at hnot ⊢
  generalize hk : z.entries.length - n = k at *
  have hsplit := List.take_append_drop k z.entries
  have htake : e ∈ z.entries.take k := by
    rw [← hsplit] at h
    rcases List.mem_append.mp h with h | h
    · exact h
    · exact absurd h hnot
  constructor
  · have hpos : 0 < (z.entries.take k).length := List.length_pos_of_mem htake
    rw [List.length_take] at hpos
    rw [List.length_drop]
    omega
  · intro e' he'
    have hranked := z.ranked
    rw [← hsplit] at hranked
    exact (List.pairwise_append.mp hranked).2.2 e htake e' he'

/-! ## 2. The highest entries -/

/-- The sorted set holds the `n` highest of the entries `S`. -/
structure Highest (z : ZSet β α) (n : ℕ) (S : β × α → Prop) : Prop where
  sound : ∀ e ∈ z.entries, S e
  card : z.zcard ≤ n
  top : ∀ e, S e → e ∉ z.entries → z.zcard = n ∧ ∀ e' ∈ z.entries, Ranked e e'

theorem highest_empty (h : ∀ e, ¬ S e) (n : ℕ) : (empty : ZSet β α).Highest n S where
  sound _ he := absurd he List.not_mem_nil
  card := Nat.zero_le n
  top e he := absurd he (h e)

theorem Highest.congr {T : β × α → Prop} (h : z.Highest n S) (hST : ∀ e, S e ↔ T e) :
    z.Highest n T where
  sound e he := (hST e).mp (h.sound e he)
  card := h.card
  top e he := h.top e ((hST e).mpr he)

/-- **An entry is inserted**, and the set is trimmed. -/
theorem Highest.insert (h : z.Highest n S) (hnew : ∀ score, ¬ S (score, e.2)) :
    ((z.zadd e.1 e.2).trim n).Highest n fun x => S x ∨ x = e := by
  have hmem : ∀ x, x ∈ (z.zadd e.1 e.2).entries ↔ x ∈ z.entries ∨ x = e := by
    intro x
    rw [mem_entries_zadd]
    refine or_congr_left (and_iff_left_of_imp fun hx heq => ?_)
    exact hnew x.1 (heq ▸ h.sound x hx)
  refine ⟨fun x hx => ?_, zcard_trim_le _ n, fun x hx hnot => ?_⟩
  · exact ((hmem x).mp (mem_of_mem_trim hx)).imp_left (h.sound x)
  · by_cases hin : x ∈ (z.zadd e.1 e.2).entries
    · exact of_not_mem_trim hin hnot
    · rw [hmem, not_or] at hin
      -- the set was full, and what was left out ranks below what is in it
      obtain ⟨hfull, hlow⟩ := h.top x (hx.resolve_right hin.2) hin.1
      have hlen : (z.zadd e.1 e.2).entries.length = n + 1 := by
        have hfresh : e.2 ∉ z := by
          intro hm
          obtain ⟨score, hscore⟩ := mem_entries_of_mem hm
          exact hnew score (h.sound _ hscore)
        have hrem : (z.zrem e.2).entries = z.entries := by
          refine List.filter_eq_self.mpr fun y hy => ?_
          simp only [ne_eq, decide_eq_true_eq]
          exact fun heq => hfresh (heq ▸ mem_of_mem_entries hy)
        rw [zadd, List.orderedInsert_length, hrem]
        exact congrArg (· + 1) hfull
      constructor
      · unfold zcard trim
        rw [List.length_drop]
        omega
      · intro y hy
        rcases (hmem y).mp (mem_of_mem_trim hy) with hyz | rfl
        · exact hlow y hyz
        · -- the new entry stayed, so another was trimmed
          obtain ⟨t, ht, htrim⟩ : ∃ t ∈ z.entries, t ∉ ((z.zadd y.1 y.2).trim n).entries := by
            by_contra hall
            push Not at hall
            have hsub : y :: z.entries ⊆ ((z.zadd y.1 y.2).trim n).entries :=
              List.cons_subset.mpr ⟨hy, hall⟩
            have hnodup : (y :: z.entries).Nodup := by
              refine List.nodup_cons.mpr ⟨fun hyz => hnew y.1 (h.sound y hyz), z.entries_nodup⟩
            have hle := (List.subperm_of_subset hnodup hsub).length_le
            have hcard := zcard_trim_le (z.zadd y.1 y.2) n
            have hfull' : z.entries.length = n := hfull
            unfold zcard at hcard
            rw [List.length_cons] at hle
            omega
          have hty := (of_not_mem_trim ((hmem t).mpr (.inl ht)) htrim).2 y hy
          exact Trans.trans (hlow t ht) hty

/-- **An entry leaves**: it was trimmed before, or nothing was. -/
theorem Highest.erase (h : z.Highest n S) (hunique : ∀ score, S (score, e.2) → (score, e.2) = e)
    (hkeep : e ∉ z.entries ∨ ∀ x, S x → x ∈ z.entries) :
    (z.zrem e.2).Highest n fun x => S x ∧ x ≠ e := by
  have hne : ∀ x, S x → (x.2 ≠ e.2 ↔ x ≠ e) := by
    intro x hx
    refine not_congr ⟨fun heq => ?_, fun heq => heq ▸ rfl⟩
    have hxe : (x.1, e.2) = x := Prod.ext rfl heq.symm
    exact hxe ▸ hunique x.1 (hxe ▸ hx)
  refine ⟨fun x hx => ?_, ?_, fun x hx hnot => ?_⟩
  · obtain ⟨hxz, hx2⟩ := mem_entries_zrem.mp hx
    exact ⟨h.sound x hxz, (hne x (h.sound x hxz)).mp hx2⟩
  · exact (List.length_filter_le _ _).trans h.card
  · rw [mem_entries_zrem, not_and_or, hne x hx.1, not_not] at hnot
    have hxz := hnot.resolve_right hx.2
    rcases hkeep with hout | hall
    · have hrem : (z.zrem e.2).entries = z.entries := by
        refine List.filter_eq_self.mpr fun y hy => ?_
        simp only [ne_eq, decide_eq_true_eq]
        rw [← ne_eq, hne y (h.sound y hy)]
        rintro rfl
        exact hout hy
      unfold zcard
      rw [hrem]
      exact h.top x hx.1 hxz
    · exact absurd (hall x hx.1) hxz

/-- The highest of all stays. -/
theorem Highest.mem_of_above (h : z.Highest n S) (hn : 0 < n) (he : S e) (habove : ∀ x, S x → Ranked x e) :
    e ∈ z.entries := by
  by_contra hnot
  obtain ⟨hfull, hlow⟩ := h.top e he hnot
  have hpos : 0 < z.entries.length := hn.trans_eq hfull.symm
  obtain ⟨x, hx⟩ := List.exists_mem_of_length_pos hpos
  obtain rfl := (hlow x hx).antisymm (habove x (h.sound x hx))
  exact hnot hx

/-- Of few entries none is left out. -/
theorem Highest.mem_of_few (h : z.Highest n S)
    (hfew : ∀ l : List (β × α), l.Nodup → (∀ e ∈ l, S e) → l.length ≤ n) (he : S e) :
    e ∈ z.entries := by
  by_contra hnot
  have hfull : z.entries.length = n := (h.top e he hnot).1
  have hle := hfew (e :: z.entries) (List.nodup_cons.mpr ⟨hnot, z.entries_nodup⟩)
    (List.forall_mem_cons.mpr ⟨he, h.sound⟩)
  rw [List.length_cons] at hle
  omega

/-- An entry with `n` above it is left out. -/
theorem Highest.not_mem_of_outranked (h : z.Highest n S) {l : List (β × α)} (hnodup : l.Nodup)
    (hlen : l.length = n) (hl : ∀ x ∈ l, S x ∧ x ≠ e ∧ Ranked e x) : e ∉ z.entries := by
  intro he
  obtain ⟨x, hx, hxz⟩ : ∃ x ∈ l, x ∉ z.entries := by
    by_contra hall
    push Not at hall
    have hsub : e :: l ⊆ z.entries := List.cons_subset.mpr ⟨he, hall⟩
    have hcons : (e :: l).Nodup :=
      List.nodup_cons.mpr ⟨fun hel => (hl e hel).2.1 rfl, hnodup⟩
    have hle := (List.subperm_of_subset hcons hsub).length_le
    have hcard : z.entries.length ≤ n := h.card
    rw [List.length_cons] at hle
    omega
  obtain ⟨hSx, hne, hranked⟩ := hl x hx
  exact hne (((h.top x hSx hxz).2 e he).antisymm hranked)

end ZSet

end Redis
