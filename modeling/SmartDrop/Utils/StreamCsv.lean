/-
# A table streamed as CSV

`streamCsv` of `utils/streaming.js` against a reader of RFC 4180 (`Rfc4180`).  The rows are read in batches, in the
order of their ids, each batch from the id on with which the one before it ended.

The reader does not always get the table back, for three reasons.

* **The batches stop.**  Only the columns that are asked for are selected, so without `id` among them the last
  row of a full batch has no id to go on from; neither does one whose id is falsy.  The export ends there and looks
  complete.  (`streamNdjson` selects all columns.)
* **The header** is written without quotes, whatever the names of the columns are.
* **CR** is not among the characters for which a cell is put in quotes.

`streamCsv_roundTrips_iff` says that there is no other one.
-/
import SmartDrop.Lib.Rfc4180
import Mathlib.Data.List.Sort

namespace SmartDrop.StreamCsv

open Rfc4180

/-! ## 1. The export -/

/-- A row of the table: its id, and the text of each other column; `none` is `null`. -/
structure Row (ι : Type) where
  id : ι
  cell : String → Option String

/-- What the language makes of ids: `String(id)` and `Boolean(id)`. -/
structure Ids (ι : Type) where
  text : ι → String
  truthy : ι → Bool

variable {ι : Type} [LinearOrder ι] (I : Ids ι) (columns : List String) (rows : List (Row ι)) (batchSize : ℕ)

/-- `row[col]` for a selected column. -/
def value (row : Row ι) (col : String) : Option String :=
  if col = "id" then some (I.text row.id) else row.cell col

/-- A cell is put in quotes. -/
def needsQuotes (str : String) : Bool :=
  str.toList.contains ',' || str.toList.contains '"' || str.toList.contains '\n'

/-- What is written for a cell. -/
def writeCell : Option String → List Char
  | none => []
  | some str =>
    if needsQuotes str then
      '"' :: (str.toList.flatMap fun c => if c = '"' then ['"', '"'] else [c]) ++ ['"']
    else str.toList

/-- What is written for a row. -/
def writeRow (row : Row ι) : List Char :=
  [','].intercalate (columns.map fun col => writeCell (value I row col)) ++ ['\n']

/-- The rows that a query gets. -/
def batch (cursor : Option ι) : List (Row ι) :=
  let selected := rows.filter fun row => cursor.all (· < row.id)
  (selected.insertionSort fun r s => r.id ≤ s.id).take batchSize

/-- Where the next query begins: `id` is there if it is selected. -/
def nextCursor (rows : List (Row ι)) : Option ι :=
  if rows.length = batchSize then
    if columns.contains "id" then rows.getLast?.map Row.id else none
  else none

/-- The loop; the number bounds its rounds. -/
def stream : ℕ → Option ι → Option (List Char)
  | 0, _ => none
  | n + 1, cursor =>
    let rows := batch rows batchSize cursor
    let written := rows.flatMap (writeRow I columns)
    match (nextCursor columns batchSize rows).filter I.truthy with
    | none => some written
    | some cursor => (stream n (some cursor)).map (written ++ ·)

/-- `streamCsv`: what is written; there are at most as many rounds as rows, and one more. -/
def streamCsv : Option (List Char) :=
  (stream I columns rows batchSize (rows.length + 1) none).map
    (([','].intercalate (columns.map String.toList) ++ ['\n']) ++ ·)

/-- The rows in the order of their ids. -/
def sorted : List (Row ι) := rows.insertionSort fun r s => r.id ≤ s.id

/-- The texts of a row; `null` is the empty text. -/
def texts (row : Row ι) : List (List Char) := columns.map fun col => ((value I row col).getD "").toList

/-- A reader gets the header and the rows in order. -/
def RoundTrips : Prop :=
  (streamCsv I columns rows batchSize).bind read =
    some (columns.map String.toList :: (sorted rows).map (texts I columns))

/-- The conditions for that. -/
structure Readable : Prop where
  header : ∀ col ∈ columns, ∀ c ∈ col.toList, isText c = true
  cells : ∀ row ∈ rows, ∀ col ∈ columns, ∀ str, value I row col = some str → '\r' ∈ str.toList →
    needsQuotes str = true
  batches : ∀ i row, (sorted rows)[i]? = some row → batchSize ∣ i + 1 → i + 1 < rows.length →
    columns.contains "id" = true ∧ I.truthy row.id = true

variable {I columns rows batchSize}

/-! ## 2. What is written -/

/-- A cell as a field. -/
def cellPiece (v : Option String) : Piece := ⟨v.any needsQuotes, (v.getD "").toList⟩

/-- The name of a column as a field. -/
def headerPiece (col : String) : Piece := ⟨false, col.toList⟩

theorem text_cellPiece (v : Option String) : (cellPiece v).text = writeCell v := by
  cases v with
  | none => rfl
  | some str =>
    rw [Piece.text, writeCell, cellPiece, Option.any_some]
    rfl

omit [LinearOrder ι] in
theorem writeRow_eq (row : Row ι) :
    writeRow I columns row = line (columns.map fun col => cellPiece (value I row col)) := by
  rw [writeRow, line, List.map_map]
  congr 2
  exact List.map_congr_left fun col _ => (text_cellPiece _).symm

omit [LinearOrder ι] in
theorem values_row (row : Row ι) :
    (columns.map fun col => cellPiece (value I row col)).map Piece.value = texts I columns row := by
  rw [List.map_map]
  rfl

theorem header_eq : [','].intercalate (columns.map String.toList) ++ ['\n'] = line (columns.map headerPiece) := by
  rw [line, List.map_map]
  rfl

theorem values_header : (columns.map headerPiece).map Piece.value = columns.map String.toList := by
  rw [List.map_map]
  rfl

/-- A cell is written well unless a CR goes without quotes. -/
theorem ok_cellPiece {v : Option String} : (cellPiece v).Ok ↔
    ∀ str, v = some str → '\r' ∈ str.toList → needsQuotes str = true := by
  cases v with
  | none => exact ⟨fun _ str h => (by cases h), fun _ _ c hc => absurd hc List.not_mem_nil⟩
  | some str =>
    constructor
    · rintro hok _ ⟨⟩ hcr
      by_contra hquotes
      have := hok (by simpa [cellPiece] using hquotes) '\r' hcr
      cases this
    · intro h hquoted c hc
      have hquotes : needsQuotes str = false := hquoted
      have hcr : '\r' ∉ str.toList := fun hcr => by rw [h str rfl hcr] at hquotes; cases hquotes
      rw [needsQuotes, Bool.or_eq_false_iff, Bool.or_eq_false_iff, List.contains_eq_mem, List.contains_eq_mem,
        List.contains_eq_mem, decide_eq_false_iff_not, decide_eq_false_iff_not, decide_eq_false_iff_not] at hquotes
      have hne : ∀ d, d ∉ str.toList → c ≠ d := fun d hd heq => hd (heq ▸ hc)
      simp [isText, hne _ hquotes.1.1, hne _ hquotes.1.2, hne _ hquotes.2, hne _ hcr]

/-! ## 3. The batches -/

theorem sorted_sorted (hids : (rows.map Row.id).Nodup) :
    (sorted rows).Pairwise fun r s => r.id < s.id := by
  have hle : (sorted rows).Pairwise fun r s => r.id ≤ s.id := List.pairwise_insertionSort _ _
  have hne : (sorted rows).Pairwise fun r s => r.id ≠ s.id := by
    rw [← List.pairwise_map (R := (· ≠ ·))]
    exact (((List.perm_insertionSort _ rows).map Row.id).nodup_iff).mpr hids
  exact (hle.and hne).imp fun h => lt_of_le_of_ne h.1 h.2

/-- Some of the rows are sorted as they are among all. -/
theorem insertionSort_filter (hids : (rows.map Row.id).Nodup) (p : Row ι → Bool) :
    ((rows.filter p).insertionSort fun r s => r.id ≤ s.id) = (sorted rows).filter p := by
  have hperm : List.Perm ((rows.filter p).insertionSort fun r s => r.id ≤ s.id) ((sorted rows).filter p) :=
    (List.perm_insertionSort _ _).trans ((List.perm_insertionSort _ rows).symm.filter p)
  have hsub : ((rows.filter p).map Row.id).Nodup := hids.sublist (List.filter_sublist.map Row.id)
  refine hperm.eq_of_pairwise ?_ (sorted_sorted hsub) ((sorted_sorted hids).sublist List.filter_sublist)
  exact fun r s _ _ hrs hsr => absurd (hrs.trans hsr) (lt_irrefl _)

variable {pre rest : List (Row ι)} {cursor : Option ι}

/-- A query gets the first rows of those that are left. -/
theorem batch_eq (hids : (rows.map Row.id).Nodup) (hsplit : sorted rows = pre ++ rest)
    (hcursor : cursor = pre.getLast?.map Row.id) : batch rows batchSize cursor = rest.take batchSize := by
  have hsorted := sorted_sorted hids
  rw [hsplit, List.pairwise_append] at hsorted
  rw [batch, insertionSort_filter hids, hsplit, List.filter_append]
  have hrest : rest.filter (fun row => cursor.all (· < row.id)) = rest := by
    refine List.filter_eq_self.mpr fun s hs => ?_
    rw [hcursor]
    cases hlast : pre.getLast? with
    | none => rfl
    | some r => exact decide_eq_true (hsorted.2.2 r (List.mem_of_getLast? hlast) s hs)
  have hpre : pre.filter (fun row => cursor.all (· < row.id)) = [] := by
    refine List.filter_eq_nil_iff.mpr fun s hs => ?_
    rw [hcursor]
    cases hlast : pre.getLast? with
    | none =>
      rw [List.getLast?_eq_none_iff.mp hlast] at hs
      cases hs
    | some r =>
      obtain ⟨front, rfl⟩ := List.getLast?_eq_some_iff.mp hlast
      rw [Option.map_some, Option.all_some, decide_eq_true_iff, not_lt]
      rcases List.mem_append.mp hs with hs | hs
      · exact ((List.pairwise_append.mp hsorted.1).2.2 s hs r List.mem_cons_self).le
      · rw [List.mem_singleton.mp hs]
  rw [hpre, hrest, List.nil_append]

/-- The loop goes on after a row. -/
def Goes (I : Ids ι) (columns : List String) (row : Row ι) : Prop :=
  columns.contains "id" = true ∧ I.truthy row.id = true

/-- It goes on after each full batch that is followed by a row. -/
def GoesOn (I : Ids ι) (columns : List String) (batchSize : ℕ) (rest : List (Row ι)) : Prop :=
  ∀ i row, rest[i]? = some row → batchSize ∣ i + 1 → i + 1 < rest.length → Goes I columns row

omit [LinearOrder ι] in
theorem goesOn_of_length_le (hlength : rest.length ≤ batchSize) : GoesOn I columns batchSize rest := by
  intro i row _ hdvd hi
  have := Nat.le_of_dvd (Nat.succ_pos i) hdvd
  omega

omit [LinearOrder ι] in
/-- A full batch with rows after it. -/
theorem goesOn_iff {row : Row ι} {front : List (Row ι)} (hfront : front.length + 1 = batchSize)
    (hrest : rest ≠ []) : GoesOn I columns batchSize (front ++ row :: rest) ↔
      Goes I columns row ∧ GoesOn I columns batchSize rest := by
  have hpos : 0 < rest.length := List.length_pos_iff.mpr hrest
  have hlength : (front ++ row :: rest).length = batchSize + rest.length := by
    rw [List.length_append, List.length_cons]
    omega
  have hright : ∀ i, (front ++ row :: rest)[batchSize + i]? = rest[i]? := by
    intro i
    rw [List.getElem?_append_right (by omega), show batchSize + i - front.length = i + 1 by omega,
      List.getElem?_cons_succ]
  constructor
  · intro h
    constructor
    · refine h front.length row ?_ (hfront ▸ Nat.dvd_refl _) (by omega)
      rw [List.getElem?_append_right (Nat.le_refl _), Nat.sub_self, List.getElem?_cons_zero]
    · intro i r hr hdvd hi
      refine h (batchSize + i) r ((hright i).trans hr) ?_ (by omega)
      rw [Nat.add_assoc]
      exact (Nat.dvd_add_right (Nat.dvd_refl _)).mpr hdvd
  · rintro ⟨hgoes, hrest'⟩ i r hr hdvd hi
    rcases Nat.lt_or_ge i batchSize with hlt | hge
    · -- only the last row of the batch is at a boundary
      have hle := Nat.le_of_dvd (Nat.succ_pos i) hdvd
      have hlast : i = front.length := by omega
      rw [hlast, List.getElem?_append_right (Nat.le_refl _), Nat.sub_self, List.getElem?_cons_zero] at hr
      cases hr
      exact hgoes
    · obtain ⟨j, rfl⟩ := Nat.exists_eq_add_of_le hge
      rw [hright] at hr
      refine hrest' j r hr ?_ (by omega)
      rw [Nat.add_assoc] at hdvd
      exact (Nat.dvd_add_right (Nat.dvd_refl _)).mp hdvd

omit [LinearOrder ι] in
theorem nextCursor_append {front : List (Row ι)} {row : Row ι} (hfront : front.length + 1 = batchSize) :
    nextCursor columns batchSize (front ++ [row]) = if columns.contains "id" then some row.id else none := by
  rw [nextCursor, if_pos (by simpa using hfront), List.getLast?_concat]
  rfl

/-- **The loop** exports the rows that are left up to where it stops. -/
theorem stream_exports (hids : (rows.map Row.id).Nodup) (hbatch : 1 ≤ batchSize) {n : ℕ}
    (hn : rest.length < n) (hsplit : sorted rows = pre ++ rest) (hcursor : cursor = pre.getLast?.map Row.id) :
    ∃ exported left, rest = exported ++ left ∧
      stream I columns rows batchSize n cursor = some (exported.flatMap (writeRow I columns)) ∧
      (left = [] ↔ GoesOn I columns batchSize rest) := by
  induction n generalizing pre rest cursor with
  | zero => exact absurd hn (Nat.not_lt_zero _)
  | succ n ih =>
    rw [stream, batch_eq hids hsplit hcursor]
    rcases Nat.lt_or_ge rest.length batchSize with hlt | hge
    · have htake : rest.take batchSize = rest := List.take_of_length_le hlt.le
      rw [htake, nextCursor, if_neg hlt.ne]
      refine ⟨rest, [], (List.append_nil _).symm, rfl, ?_⟩
      exact ⟨fun _ => goesOn_of_length_le hlt.le, fun _ => rfl⟩
    · -- a full batch and its last row
      have hne : rest.take batchSize ≠ [] := by
        rw [← List.length_pos_iff, List.length_take]
        omega
      obtain ⟨front, row, hfull⟩ : ∃ front row, rest.take batchSize = front ++ [row] :=
        ⟨_, _, (List.dropLast_append_getLast hne).symm⟩
      have hfront : front.length + 1 = batchSize := by
        have := congrArg List.length hfull
        rw [List.length_take, List.length_append, List.length_singleton] at this
        omega
      obtain ⟨left, rfl⟩ : ∃ left, rest = front ++ row :: left :=
        ⟨rest.drop batchSize, (List.take_append_drop batchSize rest).symm.trans (by rw [hfull]; simp)⟩
      rw [hfull, nextCursor_append hfront]
      by_cases hgoes : Goes I columns row
      · rw [if_pos hgoes.1, Option.filter_some_pos hgoes.2]
        obtain ⟨exported, left', rfl, hstream, hleft⟩ := @ih (pre ++ front ++ [row]) left (some row.id)
          (by rw [List.length_append, List.length_cons] at hn; omega) (by rw [hsplit]; simp) (by simp)
        refine ⟨front ++ row :: exported, left', by simp, ?_, ?_⟩
        · change (stream I columns rows batchSize n (some row.id)).map _ = _
          rw [hstream]
          simp
        · rw [hleft]
          by_cases hempty : exported ++ left' = []
          · rw [hempty]
            refine ⟨fun _ => goesOn_of_length_le ?_, fun _ => goesOn_of_length_le (Nat.zero_le _)⟩
            rw [List.length_append, List.length_singleton]
            exact hfront.le
          · rw [goesOn_iff hfront hempty]
            exact ⟨fun h => ⟨hgoes, h⟩, fun h => h.2⟩
      · have hstop : (if columns.contains "id" then some row.id else none).filter I.truthy = none := by
          split
          · rename_i hid
            exact Option.filter_some_neg (Bool.not_eq_true _ ▸ fun h => hgoes ⟨hid, h⟩)
          · rfl
        rw [hstop]
        refine ⟨front ++ [row], left, by simp, rfl, ?_⟩
        constructor
        · rintro rfl
          refine goesOn_of_length_le ?_
          rw [List.length_append, List.length_singleton]
          exact hfront.le
        · intro h
          by_contra hempty
          exact hgoes ((goesOn_iff hfront hempty).mp h).1

/-! ## 4. The round trip -/

/-- The loop ends. -/
theorem streamCsv_isSome (hids : (rows.map Row.id).Nodup) (hbatch : 1 ≤ batchSize) :
    (streamCsv I columns rows batchSize).isSome := by
  have hlength : (sorted rows).length < rows.length + 1 := by
    rw [sorted, List.length_insertionSort]
    exact Nat.lt_succ_self _
  obtain ⟨exported, left, -, hstream, -⟩ :=
    @stream_exports _ _ I columns rows batchSize [] (sorted rows) none hids hbatch _ hlength rfl rfl
  rw [streamCsv, hstream]
  rfl

/-- **The reader gets the table back** exactly if the batches do not stop, no column's name has a special
character and no CR is written without quotes. -/
theorem streamCsv_roundTrips_iff (hcolumns : columns ≠ []) (hids : (rows.map Row.id).Nodup)
    (hbatch : 1 ≤ batchSize) : RoundTrips I columns rows batchSize ↔ Readable I columns rows batchSize := by
  have hlength : (sorted rows).length = rows.length := List.length_insertionSort _ rows
  obtain ⟨exported, left, hsplit, hstream, hleft⟩ :=
    @stream_exports _ _ I columns rows batchSize [] (sorted rows) none hids hbatch (rows.length + 1)
      (by omega) rfl rfl
  let pieces : List (List Piece) :=
    columns.map headerPiece :: exported.map fun row => columns.map fun col => cellPiece (value I row col)
  have hpieces : ∀ ps ∈ pieces, ps ≠ [] := by
    intro ps hps
    rcases List.mem_cons.mp hps with rfl | hps
    · simpa using hcolumns
    · obtain ⟨row, -, rfl⟩ := List.mem_map.mp hps
      simpa using hcolumns
  have hwritten : streamCsv I columns rows batchSize = some (pieces.flatMap line) := by
    have hrows : writeRow I columns = fun row => line (columns.map fun col => cellPiece (value I row col)) :=
      funext writeRow_eq
    rw [streamCsv, hstream, Option.map_some, header_eq, List.flatMap_cons, List.flatMap_map, hrows]
  have hvalues : columns.map String.toList :: (sorted rows).map (texts I columns) =
      pieces.map (·.map Piece.value) ++ left.map (texts I columns) := by
    rw [hsplit, List.map_append, List.map_cons, values_header, List.map_map, List.cons_append]
    congr 2
    exact List.map_congr_left fun row _ => (values_row row).symm
  rw [RoundTrips, hwritten, hvalues, Option.bind_some, read_lines_iff hpieces, List.forall_mem_cons,
    List.map_eq_nil_iff, hleft]
  constructor
  · rintro ⟨⟨hheader, hcells⟩, hgoes⟩
    have hall : sorted rows = exported := by rw [hsplit, hleft.mpr hgoes, List.append_nil]
    constructor
    · intro col hcol
      exact hheader _ (List.mem_map_of_mem hcol) rfl
    · intro row hrow col hcol
      have hmem : row ∈ exported := hall ▸ (List.mem_insertionSort _).mpr hrow
      exact ok_cellPiece.mp (hcells _ (List.mem_map_of_mem hmem) _ (List.mem_map_of_mem hcol))
    · intro i row hr hdvd hi
      exact hgoes i row hr hdvd (hlength ▸ hi)
  · rintro ⟨hheader, hcells, hbatches⟩
    refine ⟨⟨?_, ?_⟩, ?_⟩
    · intro p hp _
      obtain ⟨col, hcol, rfl⟩ := List.mem_map.mp hp
      exact hheader col hcol
    · intro ps hps p hp
      obtain ⟨row, hrow, rfl⟩ := List.mem_map.mp hps
      obtain ⟨col, hcol, rfl⟩ := List.mem_map.mp hp
      have hmem : row ∈ sorted rows := hsplit ▸ List.mem_append_left _ hrow
      exact ok_cellPiece.mpr (hcells row ((List.mem_insertionSort _).mp hmem) col hcol)
    · intro i row hr hdvd hi
      exact hbatches i row hr hdvd (hlength ▸ hi)

/-- Numbers as ids. -/
def numbers : Ids ℕ := ⟨toString, (· ≠ 0)⟩

/-- Two rows with a name. -/
def named : List (Row ℕ) := [⟨1, fun _ => some "x"⟩, ⟨2, fun _ => some "y"⟩]

theorem streamCsv_roundTrips_iff_named :
    RoundTrips numbers ["name"] named 1 ↔ Readable numbers ["name"] named 1 :=
  streamCsv_roundTrips_iff (by decide) (by decide) (by decide)

/-- Without `id` among the columns the first batch is all there is. -/
theorem streamCsv_stops : ¬ RoundTrips numbers ["name"] named 1 := by
  rw [RoundTrips]
  decide +kernel

end SmartDrop.StreamCsv
