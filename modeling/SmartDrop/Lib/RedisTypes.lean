/-
# Redis sets, sorted sets and keys that expire

`RSet α` is a Redis set and `ZSet β α` a sorted set of members `α` with scores `β`.  Each
carries the proof of its own well-formedness: a set lists no member twice, and the entries of a
sorted set are in the order in which Redis ranks them (score first, then member).

The operations are named after the commands, and each has one lemma that says what is a member
afterwards.  `SMEMBERS` may answer in any order; here it answers in the order of insertion.

`Timed α` is the value of a key with a time to live.  An expired value stays where it is and is
no longer read, so that a key that was deleted can be told from one that ran out.
-/
import Mathlib.Data.List.Nodup
import Mathlib.Data.List.Sort
import Mathlib.Order.Basic

namespace Redis

/-! ## 1. Sets -/

/-- A Redis set. -/
structure RSet (α : Type) where
  members : List α
  nodup : members.Nodup

namespace RSet

variable {α : Type}

instance : Membership α (RSet α) := ⟨fun s x => x ∈ s.members⟩

@[simp] theorem mem_members {s : RSet α} {x : α} : x ∈ s.members ↔ x ∈ s := Iff.rfl

/-- The set of a missing key. -/
def empty : RSet α := ⟨[], List.nodup_nil⟩

@[simp] theorem not_mem_empty (x : α) : x ∉ (empty : RSet α) := by
  simp [← mem_members, empty]

variable [DecidableEq α]

instance (s : RSet α) (x : α) : Decidable (x ∈ s) := inferInstanceAs (Decidable (x ∈ s.members))

/-- `SADD`. -/
def sadd (s : RSet α) (x : α) : RSet α :=
  if h : x ∈ s.members then s
  else ⟨s.members ++ [x], List.nodup_append.mpr ⟨s.nodup, List.nodup_singleton x, by
    intro a ha b hb
    rw [List.mem_singleton.mp hb]
    exact fun e => h (e ▸ ha)⟩⟩

/-- `SREM`. -/
def srem (s : RSet α) (x : α) : RSet α := ⟨s.members.erase x, s.nodup.erase x⟩

@[simp] theorem mem_sadd {s : RSet α} {x y : α} : y ∈ s.sadd x ↔ y ∈ s ∨ y = x := by
  unfold sadd
  split
  · rename_i h
    exact ⟨Or.inl, fun hy => hy.elim id fun e => e ▸ h⟩
  · simp [← mem_members]

@[simp] theorem mem_srem {s : RSet α} {x y : α} : y ∈ s.srem x ↔ y ∈ s ∧ y ≠ x := by
  simp only [← mem_members, srem, s.nodup.mem_erase_iff]
  exact And.comm

end RSet

/-! ## 2. Sorted sets -/

section ZSet

variable {α β : Type} [LinearOrder α] [LinearOrder β]

/-- The order in which a sorted set ranks its entries. -/
def Ranked (a b : β × α) : Prop := a.1 < b.1 ∨ (a.1 = b.1 ∧ a.2 ≤ b.2)

instance : DecidableRel (Ranked (α := α) (β := β)) := fun a b =>
  inferInstanceAs (Decidable (a.1 < b.1 ∨ (a.1 = b.1 ∧ a.2 ≤ b.2)))

instance : Std.Total (Ranked (α := α) (β := β)) := ⟨fun a b => by
  rcases lt_trichotomy a.1 b.1 with h | h | h
  · exact Or.inl (Or.inl h)
  · rcases le_total a.2 b.2 with h' | h'
    · exact Or.inl (Or.inr ⟨h, h'⟩)
    · exact Or.inr (Or.inr ⟨h.symm, h'⟩)
  · exact Or.inr (Or.inl h)⟩

instance : IsTrans (β × α) Ranked := ⟨fun a b c hab hbc => by
  rcases hab with h | ⟨h, h'⟩
  · rcases hbc with g | ⟨g, -⟩
    · exact Or.inl (lt_trans h g)
    · exact Or.inl (g ▸ h)
  · rcases hbc with g | ⟨g, g'⟩
    · exact Or.inl (h ▸ g)
    · exact Or.inr ⟨h.trans g, h'.trans g'⟩⟩

/-- A Redis sorted set: its entries in rank order, no member twice. -/
structure ZSet (β α : Type) [LinearOrder β] [LinearOrder α] where
  entries : List (β × α)
  nodup : (entries.map Prod.snd).Nodup
  ranked : entries.Pairwise Ranked

namespace ZSet

instance : Membership α (ZSet β α) := ⟨fun z m => m ∈ z.entries.map Prod.snd⟩

instance (z : ZSet β α) (m : α) : Decidable (m ∈ z) :=
  inferInstanceAs (Decidable (m ∈ z.entries.map Prod.snd))

/-- The sorted set of a missing key. -/
def empty : ZSet β α := ⟨[], List.nodup_nil, List.Pairwise.nil⟩

/-- Keep the entries that satisfy `p`. -/
def filter (z : ZSet β α) (p : β × α → Bool) : ZSet β α where
  entries := z.entries.filter p
  nodup := (List.Sublist.map Prod.snd List.filter_sublist).nodup z.nodup
  ranked := z.ranked.sublist List.filter_sublist

/-- `ZREM`. -/
def zrem (z : ZSet β α) (m : α) : ZSet β α := z.filter fun e => e.2 ≠ m

/-- `ZADD`: a new member, or a new score for an old one. -/
def zadd (z : ZSet β α) (score : β) (m : α) : ZSet β α where
  entries := (z.zrem m).entries.orderedInsert Ranked (score, m)
  nodup := by
    have hp := (List.perm_orderedInsert Ranked (score, m) (z.zrem m).entries).map Prod.snd
    rw [hp.nodup_iff, List.map_cons, List.nodup_cons]
    refine ⟨?_, (z.zrem m).nodup⟩
    simp [zrem, filter]
  ranked := (z.zrem m).ranked.orderedInsert (score, m) _

/-- `ZREMRANGEBYRANK 0 -(keep + 1)`: only the `keep` highest entries stay. -/
def trim (z : ZSet β α) (keep : ℕ) : ZSet β α where
  entries := z.entries.drop (z.entries.length - keep)
  nodup := (List.Sublist.map Prod.snd (List.drop_sublist _ _)).nodup z.nodup
  ranked := z.ranked.sublist (List.drop_sublist _ _)

/-- `ZCARD`. -/
def zcard (z : ZSet β α) : ℕ := z.entries.length

/-- `ZRANGE 0 -1`. -/
def zrange (z : ZSet β α) : List α := z.entries.map Prod.snd

/-- `ZREVRANGE start stop`, for a start and a stop counted from the highest entry. -/
def zrevrange (z : ZSet β α) (start stop : ℕ) : List α :=
  ((z.entries.reverse.map Prod.snd).drop start).take (stop + 1 - start)

/-- `ZRANGEBYSCORE -inf max LIMIT 0 n`. -/
def zrangebyscore (z : ZSet β α) (max : β) (n : ℕ) : List α :=
  ((z.entries.filter fun e => e.1 ≤ max).take n).map Prod.snd

/-- `ZRANGEBYSCORE min +inf LIMIT offset n`. -/
def zrangebyscoreFrom (z : ZSet β α) (min : β) (offset n : ℕ) : List α :=
  (((z.entries.filter fun e => min ≤ e.1).drop offset).take n).map Prod.snd

/-- `ZRANK`, of a member. -/
def zrank (z : ZSet β α) (m : α) : ℕ := z.zrange.idxOf m

/-- `ZREM` of several members. -/
def zremAll (z : ZSet β α) (ms : List α) : ZSet β α := z.filter fun e => e.2 ∉ ms

@[simp] theorem mem_zrange {z : ZSet β α} {m : α} : m ∈ z.zrange ↔ m ∈ z := Iff.rfl

@[simp] theorem not_mem_empty (m : α) : m ∉ (empty : ZSet β α) := by
  simp [← mem_zrange, zrange, empty]

theorem mem_filter {z : ZSet β α} {p : β × α → Bool} {m : α} :
    m ∈ z.filter p ↔ ∃ e ∈ z.entries, p e ∧ e.2 = m := by
  simp only [← mem_zrange, zrange, filter, List.mem_map, List.mem_filter, and_assoc]

@[simp] theorem mem_zrem {z : ZSet β α} {x m : α} : x ∈ z.zrem m ↔ x ∈ z ∧ x ≠ m := by
  rw [zrem, mem_filter]
  simp only [← mem_zrange, zrange, List.mem_map, ne_eq, decide_eq_true_eq]
  constructor
  · rintro ⟨e, he, hne, rfl⟩
    exact ⟨⟨e, he, rfl⟩, hne⟩
  · rintro ⟨⟨e, he, rfl⟩, hne⟩
    exact ⟨e, he, hne, rfl⟩

@[simp] theorem mem_zadd {z : ZSet β α} {score : β} {x m : α} :
    x ∈ z.zadd score m ↔ x ∈ z ∨ x = m := by
  have hp := (List.perm_orderedInsert Ranked (score, m) (z.zrem m).entries).map Prod.snd
  rw [← mem_zrange, zrange, zadd, hp.mem_iff, List.map_cons, List.mem_cons]
  rw [show x ∈ (z.zrem m).entries.map Prod.snd ↔ x ∈ z.zrem m from Iff.rfl, mem_zrem]
  by_cases h : x = m <;> simp [h]

@[simp] theorem mem_zremAll {z : ZSet β α} {ms : List α} {x : α} :
    x ∈ z.zremAll ms ↔ x ∈ z ∧ x ∉ ms := by
  rw [zremAll, mem_filter]
  simp only [← mem_zrange, zrange, List.mem_map, decide_eq_true_eq]
  constructor
  · rintro ⟨e, he, hne, rfl⟩
    exact ⟨⟨e, he, rfl⟩, hne⟩
  · rintro ⟨⟨e, he, rfl⟩, hne⟩
    exact ⟨e, he, hne, rfl⟩

/-- What a score query returns is a member, each once. -/
theorem zrangebyscore_subset {z : ZSet β α} {max : β} {n : ℕ} {m : α}
    (h : m ∈ z.zrangebyscore max n) : m ∈ z := by
  obtain ⟨e, he, rfl⟩ := List.mem_map.mp h
  exact List.mem_map.mpr ⟨e, List.mem_of_mem_filter (List.mem_of_mem_take he), rfl⟩

/-- What a score query returns has a score in the range. -/
theorem score_of_mem_zrangebyscore {z : ZSet β α} {max : β} {n : ℕ} {m : α}
    (h : m ∈ z.zrangebyscore max n) : ∃ score, (score, m) ∈ z.entries ∧ score ≤ max := by
  obtain ⟨e, he, rfl⟩ := List.mem_map.mp h
  obtain ⟨hmem, hle⟩ := List.mem_filter.mp (List.mem_of_mem_take he)
  exact ⟨e.1, hmem, of_decide_eq_true hle⟩

theorem length_zrangebyscore (z : ZSet β α) (max : β) (n : ℕ) :
    (z.zrangebyscore max n).length ≤ n := by
  rw [zrangebyscore, List.length_map, List.length_take]
  exact Nat.min_le_left _ _

/-- The entries after `ZADD`. -/
theorem mem_entries_zadd {z : ZSet β α} {score : β} {m : α} {e : β × α} :
    e ∈ (z.zadd score m).entries ↔ (e ∈ z.entries ∧ e.2 ≠ m) ∨ e = (score, m) := by
  have hp := List.perm_orderedInsert Ranked (score, m) (z.zrem m).entries
  rw [zadd, hp.mem_iff, List.mem_cons, or_comm]
  simp [zrem, filter]

/-- The entries after `ZREM`. -/
theorem mem_entries_zrem {z : ZSet β α} {m : α} {e : β × α} :
    e ∈ (z.zrem m).entries ↔ e ∈ z.entries ∧ e.2 ≠ m := by
  simp [zrem, filter]

/-- The entries after `ZREM` of several members. -/
theorem mem_entries_zremAll {z : ZSet β α} {ms : List α} {e : β × α} :
    e ∈ (z.zremAll ms).entries ↔ e ∈ z.entries ∧ e.2 ∉ ms := by
  simp [zremAll, filter]

theorem nodup_zrangebyscore (z : ZSet β α) (max : β) (n : ℕ) :
    (z.zrangebyscore max n).Nodup :=
  (List.Sublist.map Prod.snd ((List.take_sublist _ _).trans List.filter_sublist)).nodup z.nodup

/-- A score query returns the members in the range that rank among the first `n`: what ranks before
one of them is in the range as well. -/
theorem mem_zrangebyscore_iff {z : ZSet β α} {max : β} {n : ℕ} {m : α} :
    m ∈ z.zrangebyscore max n ↔ ∃ score, (score, m) ∈ z.entries ∧ score ≤ max ∧ z.zrank m < n := by
  have hplace : ∀ score, (score, m) ∈ z.entries → score ≤ max →
      (m ∈ z.zrangebyscore max n ↔ z.zrank m < n) := by
    intro score hmem hle
    obtain ⟨before, after, hentries⟩ := List.append_of_mem hmem
    have hnodup := z.nodup
    have hranked := z.ranked
    rw [hentries, List.pairwise_append] at hranked
    rw [hentries, List.map_append, List.map_cons, List.nodup_append] at hnodup
    have hnot : m ∉ before.map Prod.snd := fun h => hnodup.2.2 m h m List.mem_cons_self rfl
    have hrank : z.zrank m = before.length := by
      rw [zrank, zrange, hentries, List.map_append, List.map_cons,
        List.idxOf_append_of_notMem hnot, List.idxOf_cons_self, List.length_map, Nat.add_zero]
    have hbefore : (before.filter fun e => e.1 ≤ max) = before := by
      refine List.filter_eq_self.mpr fun e he => decide_eq_true ?_
      rcases hranked.2.2 e he _ List.mem_cons_self with h | ⟨h, -⟩
      · exact (le_of_lt h).trans hle
      · exact h.le.trans hle
    rw [hrank, zrangebyscore, hentries, List.filter_append, hbefore,
      List.filter_cons_of_pos (by simpa using hle), List.take_append, List.map_append,
      List.mem_append]
    constructor
    · rintro (h | h)
      · exact absurd (List.map_subset _ (List.take_subset _ _) h) hnot
      · by_contra hn
        rw [Nat.sub_eq_zero_of_le (Nat.le_of_not_lt hn)] at h
        exact List.not_mem_nil h
    · intro hn
      obtain ⟨k, hk⟩ := Nat.exists_eq_succ_of_ne_zero (Nat.sub_pos_of_lt hn).ne'
      rw [hk, List.take_succ_cons, List.map_cons]
      exact Or.inr List.mem_cons_self
  constructor
  · intro h
    obtain ⟨score, hmem, hle⟩ := score_of_mem_zrangebyscore h
    exact ⟨score, hmem, hle, (hplace score hmem hle).mp h⟩
  · rintro ⟨score, hmem, hle, hrank⟩
    exact (hplace score hmem hle).mpr hrank

/-- A query from a score on, without a limit, returns each member of the range. -/
theorem mem_zrangebyscoreFrom_iff {z : ZSet β α} {min : β} {n : ℕ} (hn : z.zcard ≤ n) {m : α} :
    m ∈ z.zrangebyscoreFrom min 0 n ↔ ∃ score, (score, m) ∈ z.entries ∧ min ≤ score := by
  have hlength : (z.entries.filter fun e => min ≤ e.1).length ≤ n :=
    (List.length_filter_le _ _).trans hn
  rw [zrangebyscoreFrom, List.drop_zero, List.take_of_length_le hlength]
  simp only [List.mem_map, List.mem_filter, decide_eq_true_eq]
  constructor
  · rintro ⟨e, ⟨hmem, hle⟩, rfl⟩
    exact ⟨e.1, hmem, hle⟩
  · rintro ⟨score, hmem, hle⟩
    exact ⟨(score, m), ⟨hmem, hle⟩, rfl⟩

theorem nodup_zrangebyscoreFrom (z : ZSet β α) (min : β) (offset n : ℕ) :
    (z.zrangebyscoreFrom min offset n).Nodup :=
  (List.Sublist.map Prod.snd ((List.take_sublist _ _).trans
    ((List.drop_sublist _ _).trans List.filter_sublist))).nodup z.nodup

end ZSet

end ZSet

/-! ## 3. Keys that expire -/

/-- A value and the last millisecond at which it can be read, if it expires at all. -/
structure Timed (α : Type) where
  value : α
  expiresAt : Option ℕ

namespace Timed

variable {α : Type} {e : Timed α} {t now : ℕ}

/-- The value can be read at `now`. -/
def LiveAt (e : Timed α) (now : ℕ) : Prop :=
  match e.expiresAt with
  | none => True
  | some t => now ≤ t

instance (e : Timed α) (now : ℕ) : Decidable (e.LiveAt now) :=
  match e with
  | ⟨_, none⟩ => isTrue trivial
  | ⟨_, some t⟩ => inferInstanceAs (Decidable (now ≤ t))

/-- A value that can be read could be read before. -/
theorem LiveAt.mono (h : e.LiveAt now) (ht : t ≤ now) : e.LiveAt t := by
  unfold LiveAt at *
  split
  · trivial
  · rename_i heq
    rw [heq] at h
    exact le_trans ht h

/-- `GET` at `now`. -/
def readAt (now : ℕ) (entry : Option (Timed α)) : Option α :=
  (entry.filter fun e => decide (e.LiveAt now)).map value

theorem readAt_eq_some {now : ℕ} {entry : Option (Timed α)} {v : α} :
    readAt now entry = some v ↔ ∃ e, entry = some e ∧ e.LiveAt now ∧ e.value = v := by
  simp [readAt, Option.filter_eq_some_iff, and_assoc]

theorem readAt_eq_none {now : ℕ} {entry : Option (Timed α)} :
    readAt now entry = none ↔ ∀ e, entry = some e → ¬ e.LiveAt now := by
  simp [readAt, Option.filter_eq_none_iff]

end Timed

end Redis
