/-
# Maps that keep the order of insertion

`JsMap κ ν` is a `Map`: its entries in the order in which their keys were first set, no key twice.
Setting a key that is there changes its entry where it stands (an `AList` moves it), and deleting
forgets the place.

Every operation has one lemma that says what `get?` finds afterwards (`get?_set`, `get?_delete`) and
one that says what the keys are (`keys_set`, `keys_delete`).
-/
import Mathlib.Data.List.Nodup
import Mathlib.Data.Nat.Notation

/-- A map in the order of insertion. -/
structure JsMap (κ ν : Type) where
  entries : List (κ × ν)
  nodup : (entries.map Prod.fst).Nodup

namespace JsMap

variable {κ ν : Type}

/-- The empty map. -/
def empty : JsMap κ ν := ⟨[], List.nodup_nil⟩

/-- The keys, in order. -/
def keys (m : JsMap κ ν) : List κ := m.entries.map Prod.fst

theorem nodup_keys (m : JsMap κ ν) : m.keys.Nodup := m.nodup

/-- `map.size`. -/
def size (m : JsMap κ ν) : ℕ := m.entries.length

theorem size_eq (m : JsMap κ ν) : m.size = m.keys.length := by simp [size, keys]

@[simp] theorem keys_empty : (empty : JsMap κ ν).keys = [] := rfl

/-- Every value is changed where it stands. -/
def mapValues (m : JsMap κ ν) (f : κ → ν → ν) : JsMap κ ν where
  entries := m.entries.map fun e => (e.1, f e.1 e.2)
  nodup := by simpa [List.map_map, Function.comp_def] using m.nodup

@[simp] theorem keys_mapValues (m : JsMap κ ν) (f : κ → ν → ν) : (m.mapValues f).keys = m.keys := by
  simp [keys, mapValues]

variable [DecidableEq κ]

/-! ## 1. Entries -/

/-- The value of a key. -/
def find (k : κ) : List (κ × ν) → Option ν
  | [] => none
  | e :: es => if e.1 = k then some e.2 else find k es

/-- The entries once a key is set. -/
def put (k : κ) (v : ν) : List (κ × ν) → List (κ × ν)
  | [] => [(k, v)]
  | e :: es => if e.1 = k then (k, v) :: es else e :: put k v es

/-- The entries once a key is deleted. -/
def drop (k : κ) : List (κ × ν) → List (κ × ν)
  | [] => []
  | e :: es => if e.1 = k then es else e :: drop k es

variable {k k' : κ} {v : ν} {es : List (κ × ν)}

theorem find_isSome : (find k es).isSome ↔ k ∈ es.map Prod.fst := by
  induction es with
  | nil => simp [find]
  | cons e es ih =>
    by_cases he : e.1 = k
    · simp [find, he]
    · rw [find, if_neg he, ih, List.map_cons, List.mem_cons]
      exact ⟨.inr, fun h => h.resolve_left fun hk => he hk.symm⟩

theorem find_put : find k' (put k v es) = if k' = k then some v else find k' es := by
  induction es with
  | nil =>
    by_cases hk : k' = k
    · simp [put, find, hk]
    · simp [put, find, hk, Ne.symm hk]
  | cons e es ih =>
    by_cases he : e.1 = k
    · subst he
      by_cases hk : k' = e.1
      · simp [put, find, hk]
      · simp [put, find, hk, Ne.symm hk]
    · by_cases hk : k' = k
      · subst hk
        simp [put, find, he, ih]
      · simp only [put, find, if_neg he, ih, if_neg hk]

theorem map_put : (put k v es).map Prod.fst =
    if k ∈ es.map Prod.fst then es.map Prod.fst else es.map Prod.fst ++ [k] := by
  induction es with
  | nil => rfl
  | cons e es ih =>
    by_cases he : e.1 = k
    · simp [put, he]
    · have hk : ¬ k = e.1 := fun hk => he hk.symm
      simp only [put, if_neg he, List.map_cons, ih, List.mem_cons, hk, false_or]
      split <;> rfl

theorem map_drop : (drop k es).map Prod.fst = (es.map Prod.fst).erase k := by
  induction es with
  | nil => rfl
  | cons e es ih =>
    by_cases he : e.1 = k
    · simp [drop, he]
    · rw [drop, if_neg he, List.map_cons, List.map_cons, ih,
        List.erase_cons_tail (by simpa using he)]

theorem find_drop (h : (es.map Prod.fst).Nodup) :
    find k' (drop k es) = if k' = k then none else find k' es := by
  induction es with
  | nil => simp [drop, find]
  | cons e es ih =>
    obtain ⟨hnot, hes⟩ := List.nodup_cons.mp h
    by_cases he : e.1 = k
    · subst he
      by_cases hk : k' = e.1
      · subst hk
        rw [drop, if_pos rfl, if_pos rfl]
        exact Option.not_isSome_iff_eq_none.mp fun hsome => hnot (find_isSome.mp hsome)
      · simp [drop, find, hk, Ne.symm hk]
    · by_cases hk : k' = k
      · subst hk
        simp [drop, find, he, ih hes]
      · simp only [drop, find, if_neg he, ih hes, if_neg hk]

/-- What is found is an entry. -/
theorem find_of_mem (hnodup : (es.map Prod.fst).Nodup) (h : (k, v) ∈ es) : find k es = some v := by
  induction es with
  | nil => cases h
  | cons e es ih =>
    obtain ⟨hnew, hnodup⟩ := List.nodup_cons.mp hnodup
    rcases List.mem_cons.mp h with rfl | h
    · exact if_pos rfl
    · rw [find, if_neg, ih hnodup h]
      rintro rfl
      exact hnew (List.mem_map.mpr ⟨_, h, rfl⟩)

theorem mem_of_find (h : find k es = some v) : (k, v) ∈ es := by
  induction es with
  | nil => cases h
  | cons e es ih =>
    rw [find] at h
    split at h
    · rename_i he
      rw [← he, ← Option.some.inj h]
      exact List.mem_cons_self
    · exact List.mem_cons_of_mem _ (ih h)

theorem find_map_snd {μ : Type} (f : ν → μ) (k : κ) (es : List (κ × ν)) :
    find k (es.map fun e => (e.1, f e.2)) = (find k es).map f := by
  induction es with
  | nil => rfl
  | cons e es ih =>
    rw [List.map_cons, find, find, ih]
    split <;> rfl

/-- An entry that is there is put again. -/
theorem put_of_find (h : find k es = some v) : put k v es = es := by
  induction es with
  | nil => cases h
  | cons e es ih =>
    rw [find] at h
    rw [put]
    split at h
    · rename_i he
      rw [if_pos he, ← he, ← Option.some.inj h]
    · rename_i he
      rw [if_neg he, ih h]

theorem mem_put {e : κ × ν} (h : e ∈ put k v es) : e = (k, v) ∨ e ∈ es := by
  induction es with
  | nil => exact Or.inl (List.mem_singleton.mp h)
  | cons d es ih =>
    rw [put] at h
    split at h
    · exact (List.mem_cons.mp h).imp id (List.mem_cons_of_mem _)
    · rcases List.mem_cons.mp h with rfl | h
      · exact Or.inr List.mem_cons_self
      · exact (ih h).imp id (List.mem_cons_of_mem _)

theorem map_put_snd {μ : Type} (f : ν → μ) :
    (put k v es).map (fun e => (e.1, f e.2)) = put k (f v) (es.map fun e => (e.1, f e.2)) := by
  induction es with
  | nil => rfl
  | cons e es ih =>
    rw [put, List.map_cons, put]
    split
    · rfl
    · rw [List.map_cons, ih]

/-- A symmetric relation between the entries is kept by an entry that has it to the others. -/
theorem pairwise_put {r : κ × ν → κ × ν → Prop} (hsymm : ∀ a b, r a b → r b a)
    (hnodup : (es.map Prod.fst).Nodup) (h : es.Pairwise r) (hnew : ∀ e ∈ es, e.1 ≠ k → r e (k, v)) :
    (put k v es).Pairwise r := by
  induction es with
  | nil => exact List.pairwise_singleton _ _
  | cons e es ih =>
    obtain ⟨hhead, htail⟩ := List.pairwise_cons.mp h
    obtain ⟨hout, hnodup⟩ := List.nodup_cons.mp hnodup
    rw [put]
    split
    · rename_i he
      refine List.pairwise_cons.mpr ⟨fun d hd => ?_, htail⟩
      refine hsymm _ _ (hnew d (List.mem_cons_of_mem _ hd) ?_)
      rintro hk
      exact hout (he ▸ hk ▸ List.mem_map_of_mem hd)
    · rename_i he
      refine List.pairwise_cons.mpr ⟨fun d hd => ?_,
        ih hnodup htail fun d hd => hnew d (List.mem_cons_of_mem _ hd)⟩
      rcases mem_put hd with rfl | hd
      · exact hnew e List.mem_cons_self he
      · exact hhead d hd

/-! ## 2. Operations -/

/-- `map.get(key)`. -/
def get? (m : JsMap κ ν) (k : κ) : Option ν := find k m.entries

/-- `map.set(key, value)`. -/
def set (m : JsMap κ ν) (k : κ) (v : ν) : JsMap κ ν where
  entries := put k v m.entries
  nodup := by
    rw [map_put]
    split
    · exact m.nodup
    · rename_i hk
      refine List.nodup_append.mpr ⟨m.nodup, List.nodup_singleton k, ?_⟩
      intro a ha b hb
      rw [List.mem_singleton.mp hb]
      rintro rfl
      exact hk ha

/-- `map.delete(key)`. -/
def delete (m : JsMap κ ν) (k : κ) : JsMap κ ν where
  entries := drop k m.entries
  nodup := by
    rw [map_drop]
    exact m.nodup.erase k

variable {m : JsMap κ ν}

@[simp] theorem get?_empty (k : κ) : (empty : JsMap κ ν).get? k = none := rfl

theorem get?_set : (m.set k v).get? k' = if k' = k then some v else m.get? k' := find_put

@[simp] theorem get?_set_self : (m.set k v).get? k = some v := by simp [get?_set]

theorem get?_set_of_ne (h : k' ≠ k) : (m.set k v).get? k' = m.get? k' := by simp [get?_set, h]

theorem get?_delete : (m.delete k).get? k' = if k' = k then none else m.get? k' := find_drop m.nodup

@[simp] theorem get?_delete_self : (m.delete k).get? k = none := by simp [get?_delete]

theorem get?_delete_of_ne (h : k' ≠ k) : (m.delete k).get? k' = m.get? k' := by
  simp [get?_delete, h]

@[simp] theorem get?_isSome : (m.get? k).isSome ↔ k ∈ m.keys := find_isSome

theorem mem_keys_of_get? (h : m.get? k = some v) : k ∈ m.keys := by simp [← get?_isSome, h]

theorem get?_eq_none : m.get? k = none ↔ k ∉ m.keys := by
  rw [← get?_isSome, Option.not_isSome_iff_eq_none]

theorem get?_mapValues (f : κ → ν → ν) : (m.mapValues f).get? k = (m.get? k).map (f k) := by
  simp only [get?, mapValues]
  induction m.entries with
  | nil => rfl
  | cons e es ih =>
    by_cases he : e.1 = k
    · simp [find, he]
    · simpa [find, he] using ih

theorem keys_set : (m.set k v).keys = if k ∈ m.keys then m.keys else m.keys ++ [k] := map_put

theorem keys_set_of_mem (h : k ∈ m.keys) : (m.set k v).keys = m.keys := by rw [keys_set, if_pos h]

theorem keys_set_of_not_mem (h : k ∉ m.keys) : (m.set k v).keys = m.keys ++ [k] := by
  rw [keys_set, if_neg h]

/-- A map is known by its keys, in order, and what they find. -/
theorem ext_get? {m' : JsMap κ ν} (hkeys : m.keys = m'.keys) (h : ∀ k, m.get? k = m'.get? k) :
    m = m' := by
  have hentries : ∀ es es' : List (κ × ν), (es.map Prod.fst).Nodup → es.map Prod.fst = es'.map Prod.fst →
      (∀ k, find k es = find k es') → es = es' := by
    intro es
    induction es with
    | nil =>
      intro es' _ hfst _
      exact (List.map_eq_nil_iff.mp hfst.symm).symm
    | cons e es ih =>
      intro es' hnodup hfst hfind
      obtain ⟨e', es', rfl⟩ : ∃ e' rest, es' = e' :: rest := by
        cases es' with
        | nil => cases hfst
        | cons e' rest => exact ⟨e', rest, rfl⟩
      obtain ⟨hhead, htail⟩ := List.cons.inj hfst
      obtain ⟨hout, hnodup⟩ := List.nodup_cons.mp hnodup
      have hvalue := hfind e.1
      rw [find, find, if_pos rfl, if_pos hhead.symm, Option.some.injEq] at hvalue
      have hrest : ∀ k, find k es = find k es' := by
        intro k
        by_cases hk : e.1 = k
        · have hnone : ∀ fs : List (κ × ν), fs.map Prod.fst = es.map Prod.fst → find k fs = none := by
            intro fs hfs
            rw [← Option.not_isSome_iff_eq_none, find_isSome, hfs, ← hk]
            exact hout
          rw [hnone es rfl, hnone es' htail.symm]
        · have := hfind k
          rwa [find, find, if_neg hk, if_neg (hhead ▸ hk)] at this
      rw [ih es' hnodup htail hrest, Prod.ext hhead hvalue]
  cases m
  cases m'
  simp only [mk.injEq]
  exact hentries _ _ ‹_› hkeys h

@[simp] theorem keys_delete : (m.delete k).keys = m.keys.erase k := map_drop

/-- A new key is put at the end. -/
theorem entries_set_of_not_mem (h : k ∉ m.keys) : (m.set k v).entries = m.entries ++ [(k, v)] := by
  have hput : ∀ es : List (κ × ν), k ∉ es.map Prod.fst → put k v es = es ++ [(k, v)] := by
    intro es
    induction es with
    | nil => exact fun _ => rfl
    | cons e es ih =>
      intro hk
      obtain ⟨hne, hrest⟩ := not_or.mp (List.mem_cons.not.mp hk)
      rw [put, if_neg (Ne.symm hne), ih hrest, List.cons_append]
  exact hput m.entries h

/-- A key that is deleted leaves the other entries. -/
theorem entries_delete : (m.delete k).entries = m.entries.filter fun e => e.1 ≠ k := by
  have hdrop : ∀ es : List (κ × ν), (es.map Prod.fst).Nodup →
      drop k es = es.filter fun e => e.1 ≠ k := by
    intro es
    induction es with
    | nil => exact fun _ => rfl
    | cons e es ih =>
      intro hnodup
      obtain ⟨hfresh, hrest⟩ := List.nodup_cons.mp hnodup
      rw [drop]
      by_cases he : e.1 = k
      · subst he
        rw [if_pos rfl, List.filter_cons_of_neg (by simp)]
        refine (List.filter_eq_self.mpr fun e' he' => ?_).symm
        exact decide_eq_true fun heq => hfresh (heq ▸ List.mem_map_of_mem he')
      · rw [if_neg he, ih hrest, List.filter_cons_of_pos (by simpa using he)]
  exact hdrop m.entries m.nodup

end JsMap
