/-
# Pages with a cursor

`encodeCursor`, `decodeCursor`, `applyCursor` and `buildPage` of `utils/stablePagination.js`, and a client that
follows `nextCursor` while rows are inserted into the table and deleted from it.

A query is what the knex calls build: conditions, columns to sort by and a limit, read as a filter, a sort and a
cut.  The cursor of a page is the sort value and the id of its last row, written as JSON in base64url, and the
next query asks for what comes after these two in the order of both columns.  `follow_stable` reduces the code to
pages by a key (`Keyset`).
-/
import Mathlib
import SmartDrop.Lib.Bytes
import SmartDrop.Lib.JsonRoundTrip
import SmartDrop.Lib.Keyset
import SmartDrop.Lib.Utf8

namespace SmartDrop.StablePagination

open JsonText

/-! ## 1. Queries -/

inductive Direction where
  | asc
  | desc
deriving DecidableEq

inductive Operator where
  | lt
  | gt
  | eq
deriving DecidableEq

/-- A condition of a query; a value to compare with is bound as it was read from JSON. -/
inductive Condition where
  | compare (column : String) (op : Operator) (value : Json)
  | and (left right : Condition)
  | or (left right : Condition)

/-- What the calls of a query builder amount to. -/
structure Query where
  orderBy : List (String × Direction) := []
  wheres : List Condition := []
  limit : Option ℕ := none

/-- A table's columns, how a value of one is written to JSON, and what the database takes a bound value for. -/
structure Columns (ρ V : Type) where
  value : ρ → String → V
  toJson : V → Json
  bind : Json → V

section Run

variable {ρ V : Type} [LinearOrder V] (D : Columns ρ V)

/-- `a` before `b`. -/
def Direction.less : Direction → V → V → Bool
  | .asc, a, b => a < b
  | .desc, a, b => b < a

def Operator.holds : Operator → V → V → Bool
  | .lt, a, b => a < b
  | .gt, a, b => b < a
  | .eq, a, b => a = b

def Condition.holds : Condition → ρ → Bool
  | .compare column op value, r => op.holds (D.value r column) (D.bind value)
  | .and left right, r => left.holds r && right.holds r
  | .or left right, r => left.holds r || right.holds r

/-- The order by several columns, the first one first. -/
def precedes : List (String × Direction) → ρ → ρ → Bool
  | [], _, _ => true
  | (column, direction) :: columns, r, s =>
    direction.less (D.value r column) (D.value s column) ||
      (D.value r column = D.value s column && precedes columns r s)

/-- The rows that a query selects from a table. -/
def Query.run (query : Query) (rows : List ρ) : List ρ :=
  let sorted := (rows.filter fun r => query.wheres.all fun c => c.holds D r).mergeSort (precedes D query.orderBy)
  match query.limit with
  | none => sorted
  | some n => sorted.take n

end Run

/-! ## 2. The functions -/

/-- `encodeCursor`. -/
def encodeCursor (sortValue rowId : Json) : String :=
  let payload := stringify (.obj [("k", sortValue), ("id", rowId)])
  String.ofList (Bytes.base64url (Utf8.encode payload))

/-- `decodeCursor`. -/
def decodeCursor (cursor : String) : Option (Json × Json) := do
  let payload := Utf8.decode (Bytes.ofBase64 cursor.toList)
  let parsed ← parse payload
  let k ← parsed.get? "k"
  let id ← parsed.get? "id"
  return (k, id)

/-- The options of `applyCursor` and `buildPage`, the cursor apart. -/
structure Params where
  sortColumn : String
  idColumn : String
  direction : Direction := .desc
  limit : ℕ

/-- `applyCursor`. -/
def applyCursor (query : Query) (p : Params) (cursor : Option String) : Query :=
  let operator : Operator := if p.direction = .desc then .lt else .gt
  let query := { query with
    orderBy := query.orderBy ++ [(p.sortColumn, p.direction), (p.idColumn, p.direction)] }
  let query := if (cursor.getD "") ≠ "" then
      match decodeCursor (cursor.getD "") with
      | some (sortValue, rowId) =>
        { query with wheres := query.wheres ++
          [.or (.compare p.sortColumn operator sortValue)
            (.and (.compare p.sortColumn .eq sortValue) (.compare p.idColumn operator rowId))] }
      | none => query
    else query
  if p.limit ≠ 0 then { query with limit := some (p.limit + 1) } else query

structure Page (ρ : Type) where
  items : List ρ
  nextCursor : Option String
  hasMore : Bool

variable {ρ V : Type} (D : Columns ρ V)

/-- `buildPage`. -/
def buildPage (rows : List ρ) (p : Params) : Page ρ :=
  let hasMore := decide (p.limit < rows.length)
  let items := if hasMore then rows.take p.limit else rows
  let nextCursor := if hasMore then
      items.getLast?.map fun last =>
        encodeCursor (D.toJson (D.value last p.sortColumn)) (D.toJson (D.value last p.idColumn))
    else none
  { items, nextCursor, hasMore }

variable [LinearOrder V] (p : Params)

/-- A request for the page after a cursor. -/
def page (cursor : Option String) (rows : List ρ) : Page ρ :=
  buildPage D ((applyCursor {} p cursor).run D rows) p

/-- The pages of a client that follows `nextCursor`, from its `n`-th request on; `table n` is the table then. -/
inductive Follows (table : ℕ → List ρ) : ℕ → Option String → List (List ρ) → Prop
  | last {n cursor} (h : (page D p cursor (table n)).nextCursor = none) :
    Follows table n cursor [(page D p cursor (table n)).items]
  | more {n cursor c pages} (h : (page D p cursor (table n)).nextCursor = some c)
    (hrest : Follows table (n + 1) (some c) pages) :
    Follows table n cursor ((page D p cursor (table n)).items :: pages)

/-- A row's values in the two columns are bound as what they are, after they were written to JSON. -/
def Survives (r : ρ) : Prop :=
  D.bind (D.toJson (D.value r p.sortColumn)) = D.value r p.sortColumn ∧
    D.bind (D.toJson (D.value r p.idColumn)) = D.value r p.idColumn

/-- One row comes before another one in the sort order. -/
def Before (r s : ρ) : Prop :=
  p.direction.less (D.value r p.sortColumn) (D.value s p.sortColumn) = true ∨
    D.value r p.sortColumn = D.value s p.sortColumn ∧
      p.direction.less (D.value r p.idColumn) (D.value s p.idColumn) = true

/-- What pages are to be like: they have rows of the tables in order, none twice, and every row that is in the
table at each request. -/
structure Stable (table : ℕ → List ρ) (pages : List (List ρ)) : Prop where
  sorted : pages.flatten.Pairwise (Before D p)
  nodup : pages.flatten.Nodup
  sound : ∀ r ∈ pages.flatten, ∃ n, r ∈ table n
  complete : ∀ r, (∀ n < pages.length, r ∈ table n) → r ∈ pages.flatten

/-! ## 3. A page by its key -/

/-- The order of both columns. -/
def below (direction : Direction) (a b : V × V) : Bool :=
  direction.less a.1 b.1 || (a.1 = b.1 && direction.less a.2 b.2)

/-- The sort value and the id of a row. -/
def key (r : ρ) : V × V := (D.value r p.sortColumn, D.value r p.idColumn)

/-- The cursor for a key. -/
def cursorOf (start : Option (V × V)) : Option String :=
  start.map fun a => encodeCursor (D.toJson a.1) (D.toJson a.2)

variable {D p} {rows : List ρ} {start : Option (V × V)}

theorem Direction.less_irrefl (direction : Direction) (a : V) : direction.less a a = false := by
  cases direction <;> exact decide_eq_false (lt_irrefl a)

theorem Direction.less_trans (direction : Direction) {a b c : V} (hab : direction.less a b = true)
    (hbc : direction.less b c = true) : direction.less a c = true := by
  cases direction with
  | asc => exact decide_eq_true ((of_decide_eq_true hab).trans (of_decide_eq_true hbc))
  | desc => exact decide_eq_true ((of_decide_eq_true hbc).trans (of_decide_eq_true hab))

theorem Direction.less_connected (direction : Direction) {a b : V} (hne : a ≠ b) :
    direction.less a b = true ∨ direction.less b a = true := by
  cases direction with
  | asc => exact (lt_or_gt_of_ne hne).imp decide_eq_true decide_eq_true
  | desc => exact (lt_or_gt_of_ne hne).symm.imp decide_eq_true decide_eq_true

/-- Before or equal is not after. -/
theorem Direction.less_or_eq (direction : Direction) (a b : V) :
    (direction.less a b || decide (a = b)) = !direction.less b a := by
  rw [Bool.eq_iff_iff, Bool.or_eq_true, decide_eq_true_iff, Bool.not_eq_true']
  cases direction with
  | asc => rw [Direction.less, decide_eq_true_iff, Direction.less, decide_eq_false_iff_not, not_lt, le_iff_lt_or_eq]
  | desc =>
    rw [Direction.less, decide_eq_true_iff, Direction.less, decide_eq_false_iff_not, not_lt, le_iff_lt_or_eq,
      eq_comm]

theorem below_iff {direction : Direction} {a b : V × V} : below direction a b = true ↔
    direction.less a.1 b.1 = true ∨ a.1 = b.1 ∧ direction.less a.2 b.2 = true := by
  rw [below, Bool.or_eq_true, Bool.and_eq_true, decide_eq_true_iff]

theorem strict_below (direction : Direction) : Keyset.Strict (below (V := V) direction) := by
  constructor
  · intro a
    rw [below, direction.less_irrefl, direction.less_irrefl, Bool.and_false, Bool.or_false]
  · intro a b c hab hbc
    rw [below_iff] at hab hbc ⊢
    rcases hab with hab | ⟨hab, hab'⟩
    · rcases hbc with hbc | ⟨hbc, -⟩
      · exact Or.inl (direction.less_trans hab hbc)
      · exact Or.inl (hbc ▸ hab)
    · rcases hbc with hbc | ⟨hbc, hbc'⟩
      · exact Or.inl (hab ▸ hbc)
      · exact Or.inr ⟨hab.trans hbc, direction.less_trans hab' hbc'⟩
  · intro a b hne
    rw [below_iff, below_iff]
    by_cases h : a.1 = b.1
    · have h' : a.2 ≠ b.2 := fun h' => hne (Prod.ext h h')
      exact (direction.less_connected h').imp (fun h' => Or.inr ⟨h, h'⟩) fun h' => Or.inr ⟨h.symm, h'⟩
    · exact (direction.less_connected h).imp Or.inl Or.inl

/-- The order of the query is that of the keys. -/
theorem precedes_eq (r s : ρ) :
    precedes D [(p.sortColumn, p.direction), (p.idColumn, p.direction)] r s =
      !below p.direction (key D p s) (key D p r) := by
  have hsort := p.direction.less_or_eq (D.value r p.sortColumn) (D.value s p.sortColumn)
  have hid := p.direction.less_or_eq (D.value r p.idColumn) (D.value s p.idColumn)
  rw [precedes, precedes, precedes, Bool.and_true, hid, below, key, key]
  by_cases h : D.value r p.sortColumn = D.value s p.sortColumn
  · rw [h, p.direction.less_irrefl, decide_eq_true rfl]
    simp
  · rw [decide_eq_false h, Bool.or_false] at hsort
    rw [decide_eq_false h, decide_eq_false (Ne.symm h), hsort]
    simp

/-! ## 4. Cursors -/

/-- **Round trip** of cursors. -/
theorem decodeCursor_encodeCursor (k id : Json) : decodeCursor (encodeCursor k id) = some (k, id) := by
  rw [decodeCursor, encodeCursor, String.toList_ofList, Bytes.ofBase64_base64url, Utf8.decode_encode,
    parse_stringify]
  rfl

theorem encodeCursor_ne (k id : Json) : encodeCursor k id ≠ "" := by
  intro h
  have hdecode := decodeCursor_encodeCursor k id
  have hnone : (decodeCursor "").isNone := by decide +kernel
  rw [h] at hdecode
  rw [hdecode] at hnone
  cases hnone

/-- The values of a key survive a cursor. -/
def KeySurvives (D : Columns ρ V) (a : V × V) : Prop :=
  D.bind (D.toJson a.1) = a.1 ∧ D.bind (D.toJson a.2) = a.2

/-- The operator of a cursor's condition asks for what comes later. -/
theorem operator_holds (direction : Direction) (v a : V) :
    (if direction = .desc then Operator.lt else Operator.gt).holds v a = direction.less a v := by
  cases direction <;> rfl

/-- The query with a cursor selects the rows after its key. -/
theorem run_applyCursor (hlimit : 1 ≤ p.limit) (hstart : ∀ a ∈ start, KeySurvives D a) (rows : List ρ) :
    (applyCursor {} p (cursorOf D start)).run D rows =
      (Keyset.select (below p.direction) (key D p) start rows).take (p.limit + 1) := by
  have hsort : precedes D [(p.sortColumn, p.direction), (p.idColumn, p.direction)] =
      fun r s => !below p.direction (key D p s) (key D p r) := by
    funext r s
    exact precedes_eq r s
  have hnonzero : p.limit ≠ 0 := by omega
  cases start with
  | none =>
    rw [applyCursor, cursorOf, Option.map_none, Option.getD_none, if_neg (fun h => h rfl : ¬ ("" ≠ "")),
      if_pos hnonzero]
    simp only [Query.run, List.nil_append, List.all_nil, hsort]
    rfl
  | some a =>
    obtain ⟨hk, hid⟩ := hstart a rfl
    rw [applyCursor, cursorOf, Option.map_some, Option.getD_some, if_pos (encodeCursor_ne _ _),
      decodeCursor_encodeCursor, if_pos hnonzero]
    simp only [Query.run, List.nil_append, List.all_cons, List.all_nil, Bool.and_true, hsort]
    congr 2
    refine List.filter_congr fun r _ => ?_
    simp only [Condition.holds, hk, hid, operator_holds]
    rw [Keyset.after_some, below, Operator.holds, decide_eq_decide.mpr eq_comm]
    rfl

/-! ## 5. Pages -/

theorem page_eq (hlimit : 1 ≤ p.limit) (hstart : ∀ a ∈ start, KeySurvives D a) (rows : List ρ) :
    (page D p (cursorOf D start) rows).items =
        Keyset.items (below p.direction) (key D p) p.limit start rows ∧
      (page D p (cursorOf D start) rows).nextCursor =
        cursorOf D (Keyset.next (below p.direction) (key D p) p.limit start rows) := by
  rw [page, run_applyCursor hlimit hstart, Keyset.next, Keyset.items]
  generalize Keyset.select (below p.direction) (key D p) start rows = selected
  -- one more row than fits is asked for, and is there exactly if there are more rows
  by_cases h : p.limit < selected.length
  · have hmore : p.limit < (selected.take (p.limit + 1)).length := by
      rw [List.length_take]
      omega
    have htake : (selected.take (p.limit + 1)).take p.limit = selected.take p.limit := by
      rw [List.take_take, Nat.min_eq_left (Nat.le_succ _)]
    simp only [buildPage, hmore, decide_true, if_true, htake, if_pos h, cursorOf, Option.map_map]
    exact ⟨trivial, rfl⟩
  · have hmore : ¬ p.limit < (selected.take (p.limit + 1)).length := by
      rw [List.length_take]
      omega
    simp only [buildPage, hmore, decide_false, Bool.false_eq_true, if_false, if_neg h]
    rw [List.take_of_length_le (by omega), List.take_of_length_le (by omega)]
    exact ⟨rfl, rfl⟩

variable {table : ℕ → List ρ} {n : ℕ} {pages : List (List ρ)}

/-- Where a page begins that comes after one of rows that survive. -/
theorem keySurvives_of_next (hsurvives : ∀ r ∈ rows, Survives D p r) {a : V × V}
    (h : Keyset.next (below p.direction) (key D p) p.limit start rows = some a) : KeySurvives D a := by
  obtain ⟨front, s, -, -, hitems, rfl⟩ := Keyset.split_of_next h
  have hs : s ∈ Keyset.items (below p.direction) (key D p) p.limit start rows :=
    hitems ▸ List.mem_append_right _ List.mem_cons_self
  exact hsurvives s (Keyset.mem_items hs).1

theorem keyset_of_follows (hlimit : 1 ≤ p.limit) (hsurvives : ∀ n, ∀ r ∈ table n, Survives D p r)
    {cursor : Option String} (h : Follows D p table n cursor pages) (hcursor : cursor = cursorOf D start)
    (hstart : ∀ a ∈ start, KeySurvives D a) :
    Keyset.Follows (below p.direction) (key D p) p.limit table n start pages := by
  induction h generalizing start with
  | last h =>
    obtain ⟨hitems, hnext⟩ := page_eq hlimit hstart (table _)
    rw [hcursor, hnext] at h
    rw [hcursor, hitems]
    exact .last (Option.map_eq_none_iff.mp h)
  | more h _ ih =>
    obtain ⟨hitems, hnext⟩ := page_eq hlimit hstart (table _)
    rw [hcursor, hnext] at h
    obtain ⟨a, ha, rfl⟩ := Option.map_eq_some_iff.mp h
    rw [hcursor, hitems]
    have ha' := keySurvives_of_next (hsurvives _) ha
    refine .more ha (@ih (some a) rfl ?_)
    rintro b ⟨⟩
    exact ha'

theorem follows_of_keyset (hlimit : 1 ≤ p.limit) (hsurvives : ∀ n, ∀ r ∈ table n, Survives D p r)
    (h : Keyset.Follows (below p.direction) (key D p) p.limit table n start pages)
    (hstart : ∀ a ∈ start, KeySurvives D a) : Follows D p table n (cursorOf D start) pages := by
  induction h with
  | @last n start h =>
    obtain ⟨hitems, hnext⟩ := page_eq hlimit hstart (table n)
    rw [← hitems]
    refine .last ?_
    rw [hnext, h]
    rfl
  | @more n start a pages h _ ih =>
    obtain ⟨hitems, hnext⟩ := page_eq hlimit hstart (table n)
    have ha := keySurvives_of_next (hsurvives n) h
    rw [← hitems]
    refine .more (c := encodeCursor (D.toJson a.1) (D.toJson a.2)) ?_ (ih ?_)
    · rw [hnext, h]
      rfl
    · rintro b ⟨⟩
      exact ha

/-- **Following the cursors** comes to an end, and gives every row that stays once and in order, whatever else is
inserted or deleted meanwhile. -/
theorem follow_stable (hlimit : 1 ≤ p.limit) (hids : ∀ n, ((table n).map (D.value · p.idColumn)).Nodup)
    (hsurvives : ∀ n, ∀ r ∈ table n, Survives D p r) (hfinite : ∃ all : List ρ, ∀ n, ∀ r ∈ table n, r ∈ all) :
    (∃ pages, Follows D p table 0 none pages) ∧
      ∀ pages, Follows D p table 0 none pages → Stable D p table pages := by
  have hnone : ∀ a ∈ (none : Option (V × V)), KeySurvives D a := fun a ha => by cases ha
  have hkeys : ∀ n, ((table n).map (key D p)).Nodup := by
    intro n
    have hsnd : (table n).map (D.value · p.idColumn) = ((table n).map (key D p)).map Prod.snd := by
      rw [List.map_map]
      rfl
    exact List.Nodup.of_map Prod.snd (hsnd ▸ hids n)
  have hlt := strict_below (V := V) p.direction
  constructor
  · obtain ⟨all, hall⟩ := hfinite
    obtain ⟨pages, hpages⟩ :=
      @Keyset.exists_follows ρ (V × V) (below p.direction) (key D p) p.limit table hlt all hall 0 none
    exact ⟨pages, follows_of_keyset hlimit hsurvives hpages hnone⟩
  · intro pages h
    have hpages := keyset_of_follows hlimit hsurvives h rfl hnone
    have hsorted := hpages.sorted hlt hkeys
    constructor
    · exact hsorted.imp below_iff.mp
    · refine hsorted.imp fun {r s} hrs heq => ?_
      rw [heq, hlt.irrefl] at hrs
      cases hrs
    · exact fun r hr => hpages.mem_table hr
    · intro r hr
      exact hpages.complete hlt hkeys hlimit rfl fun i hi => by simpa using hr i hi

/-- Rows of a sort value and an id. -/
def pairs : Columns (ℕ × ℕ) ℕ where
  value r column := if column = "id" then r.2 else r.1
  toJson := Json.ofNat
  bind v := v.toNat?.getD 0

/-- A table of which the first row is deleted after the first request, while another one is inserted. -/
def changing : ℕ → List (ℕ × ℕ)
  | 0 => [(5, 1), (5, 2), (7, 3)]
  | _ + 1 => [(4, 4), (5, 2), (7, 3)]

theorem follow_stable_changing :
    (∃ pages, Follows pairs ⟨"created_at", "id", .asc, 1⟩ changing 0 none pages) ∧
      ∀ pages, Follows pairs ⟨"created_at", "id", .asc, 1⟩ changing 0 none pages →
        Stable pairs ⟨"created_at", "id", .asc, 1⟩ changing pages := by
  refine follow_stable (by decide) ?_ ?_ ⟨[(5, 1), (5, 2), (7, 3), (4, 4)], ?_⟩
  · intro n
    cases n with
    | zero => decide
    | succ n => exact (by decide : [4, 2, 3].Nodup)
  · intro n r _
    exact ⟨congrArg (Option.getD · 0) (Json.toNat?_ofNat r.1), congrArg (Option.getD · 0) (Json.toNat?_ofNat r.2)⟩
  · intro n
    cases n with
    | zero => decide
    | succ n => exact (by decide : ∀ r ∈ [(4, 4), (5, 2), (7, 3)], r ∈ [(5, 1), (5, 2), (7, 3), (4, 4)])

end SmartDrop.StablePagination
