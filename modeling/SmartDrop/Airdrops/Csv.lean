/-
# Recipients from a CSV file

`parseCSV` and `normalizeRow` of `routes/airdrops.js`, on the rows that the `csv-parser` stream
yields.  A file is accepted whole or not at all.  An amount is taken from its cell by
`parseFloat`, which is content with a numeral at the start, so a file is read as it should be
unless one of its amounts goes on after the numeral (`parseCSV_exact_iff`).
-/
import SmartDrop.Airdrops.Schema
import SmartDrop.Lib.JsMap
import SmartDrop.Lib.ParseFloat

namespace SmartDrop.Airdrops

open Binary64 JsNumber

/-! ## 1. Errors -/

/-- A row that is refused, and its line in the file. -/
structure InvalidRow where
  line : ℕ
  reason : String
deriving DecidableEq

/-- The details of an error of the upload. -/
inductive CsvDetails where
  | none
  | columns (missing_columns required_columns found_columns : List String)
  | limit (max_recipients : ℕ)
  | truncated (invalid_rows : List InvalidRow)
  | counted (invalid_rows : List InvalidRow) (valid_rows total_rows : ℕ)
deriving DecidableEq

/-- What `parseCSV` throws: an `AppError` with the status 400, or the error of the stream. -/
inductive CsvError where
  | appError (code message : String) (details : CsvDetails)
  | stream (message : String)
deriving DecidableEq

/-! ## 2. Rows -/

/-- A row as `csv-parser` yields it: the headers and the cells that are there. -/
abbrev CsvRow := List (String × String)

/-- A file: whether it is valid UTF-8, its rows, and the error that the stream ends with. -/
structure CsvFile where
  utf8 : Bool
  rows : List CsvRow
  failure : Option String

/-- `ADDRESS_COLUMN`. -/
def ADDRESS_COLUMN : String := "address"

/-- `AMOUNT_COLUMN`. -/
def AMOUNT_COLUMN : String := "amount"

/-- `MAX_REPORTED_INVALID_ROWS`. -/
def MAX_REPORTED_INVALID_ROWS : ℕ := 20

variable (toLowerCase : String → String)

/-- `normalizeRow`. -/
def normalizeRow (row : CsvRow) : JsMap String String :=
  row.foldl (fun normalized e =>
    let key := toLowerCase (JsText.trim e.1)
    -- a text that is assigned to the prototype of an object is ignored
    if key = "__proto__" then normalized else normalized.set key e.2) .empty

/-- The number that a key is an index of. -/
def arrayIndex (key : String) : Option ℕ :=
  let n := Nat.ofDigitChars 10 key.toList 0
  if Nat.toDigits 10 n = key.toList ∧ n < 2 ^ 32 - 1 then some n else none

/-- `Object.keys`: indexes first, in their order. -/
def objectKeys (keys : List String) : List String :=
  (keys.filter fun key => (arrayIndex key).isSome).mergeSort
    (fun a b => (arrayIndex a).getD 0 ≤ (arrayIndex b).getD 0) ++
  keys.filter fun key => (arrayIndex key).isNone

/-- The required columns that a row does not have. -/
def missingColumns (row : JsMap String String) : List String :=
  [ADDRESS_COLUMN, AMOUNT_COLUMN].filter fun column => (row.get? column).isNone

/-- The recipient of a row, or the reason why it has none. -/
def readRow (row : JsMap String String) : Except String Recipient :=
  let address := JsText.trim ((row.get? ADDRESS_COLUMN).getD "")
  -- a cell that is not there is `undefined`, and read as `NaN`
  let amount := match row.get? AMOUNT_COLUMN with
    | some rawAmount => parseFloat rawAmount.toList
    | none => .nan
  if address = "" then .error "missing address"
  else match amount with
    | .finite q =>
      if q ≤ 0 then .error "amount must be greater than zero" else .ok ⟨address, .round q⟩
    | _ => .error "amount is not a number"

/-! ## 3. The stream -/

/-- What the loop over the rows has so far. -/
structure Reading where
  headerChecked : Bool := false
  rowCount : ℕ := 0
  results : List Recipient := []
  invalidRows : List InvalidRow := []

/-- One row of the stream. -/
def readNext (maxRecipients : ℕ) (r : Reading) (data : CsvRow) : Except CsvError Reading := do
  let row := normalizeRow toLowerCase data
  if !r.headerChecked && !(missingColumns row).isEmpty then
    throw (.appError "CSV_MISSING_COLUMNS" "CSV is missing required columns"
      (.columns (missingColumns row) [ADDRESS_COLUMN, AMOUNT_COLUMN] (objectKeys row.keys)))
  if maxRecipients < r.rowCount + 1 then
    throw (.appError "RECIPIENT_LIMIT_EXCEEDED"
      ("CSV cannot exceed " ++ toString maxRecipients ++ " recipients") (.limit maxRecipients))
  match readRow row with
  | .ok recipient => return ⟨true, r.rowCount + 1, r.results ++ [recipient], r.invalidRows⟩
  | .error reason =>
    -- the first line of the file is the header
    let invalidRows := r.invalidRows ++ [⟨r.rowCount + 2, reason⟩]
    if MAX_REPORTED_INVALID_ROWS < invalidRows.length then
      throw (.appError "CSV_MALFORMED" "CSV contains too many invalid rows"
        (.truncated (invalidRows.take MAX_REPORTED_INVALID_ROWS)))
    return ⟨true, r.rowCount + 1, r.results, invalidRows⟩

/-- `parseCSV`. -/
def parseCSV (maxRecipients : ℕ) (file : CsvFile) : Except CsvError (List Recipient) := do
  if !file.utf8 then
    throw (.appError "CSV_INVALID_ENCODING" "CSV file must be valid UTF-8 encoded" .none)
  let r ← file.rows.foldlM (readNext toLowerCase maxRecipients) {}
  if let some message := file.failure then throw (.stream message)
  if r.rowCount = 0 then throw (.appError "CSV_EMPTY" "CSV contains no data rows" .none)
  if !r.invalidRows.isEmpty then
    throw (.appError "CSV_MALFORMED" "CSV contains invalid rows"
      (.counted r.invalidRows r.results.length r.rowCount))
  return r.results

/-! ## 4. What a file says -/

/-- The cell of a column: the last one whose header is the column's name, in any case and with
any white space around it. -/
def cell (column : String) (row : CsvRow) : Option String :=
  ((row.filter fun e => toLowerCase (JsText.trim e.1) = column).getLast?).map Prod.snd

/-- The value of a cell that is wholly a finite positive numeral. -/
def numeral (text : String) : Option ℚ :=
  match readSigned (JsText.trim text).toList with
  | some (.finite q) => if 0 < q then some q else none
  | _ => none

/-- The recipient that a row names. -/
def named (row : CsvRow) : Option Recipient :=
  match cell toLowerCase ADDRESS_COLUMN row, (cell toLowerCase AMOUNT_COLUMN row).bind numeral with
  | some address, some q =>
    if JsText.trim address = "" then none else some ⟨JsText.trim address, .round q⟩
  | _, _ => none

/-- The first row has both columns. -/
def HasColumns (rows : List CsvRow) : Prop :=
  ∃ first ∈ rows.head?, (cell toLowerCase ADDRESS_COLUMN first).isSome ∧
    (cell toLowerCase AMOUNT_COLUMN first).isSome

/-- **The valid files**, and the recipients they name. -/
def Names (maxRecipients : ℕ) (rows : List CsvRow) (recipients : List Recipient) : Prop :=
  rows.length ≤ maxRecipients ∧ HasColumns toLowerCase rows ∧
    List.Forall₂ (fun row r => named toLowerCase row = some r) rows recipients

/-- **What is asked of `parseCSV`**: the recipients of a valid file, and nothing of any other. -/
def ReadsExactly (maxRecipients : ℕ) (rows : List CsvRow) : Prop :=
  (∀ recipients, Names toLowerCase maxRecipients rows recipients →
    parseCSV toLowerCase maxRecipients ⟨true, rows, none⟩ = .ok recipients) ∧
  ((∀ recipients, ¬ Names toLowerCase maxRecipients rows recipients) →
    ∃ e, parseCSV toLowerCase maxRecipients ⟨true, rows, none⟩ = .error e)

/-- The cell begins with a finite positive numeral, after white space. -/
def BeginsWithNumeral (text : String) : Prop :=
  ∃ q, parseFloat text.toList = .finite q ∧ 0 < q

/-- A row with an address, and an amount that begins with a numeral. -/
def RowReadable (row : CsvRow) : Prop :=
  (∃ address ∈ cell toLowerCase ADDRESS_COLUMN row, JsText.trim address ≠ "") ∧
    ∃ amount ∈ cell toLowerCase AMOUNT_COLUMN row, BeginsWithNumeral amount

/-- A file in which nothing is wrong, except perhaps behind the numerals. -/
def Readable (maxRecipients : ℕ) (rows : List CsvRow) : Prop :=
  rows.length ≤ maxRecipients ∧ HasColumns toLowerCase rows ∧ ∀ row ∈ rows, RowReadable toLowerCase row

/-- An amount ends where its numeral does. -/
def AmountEnds (row : CsvRow) : Prop :=
  ∀ amount ∈ cell toLowerCase AMOUNT_COLUMN row, (numeral amount).isSome

/-! ## 5. One row -/

variable {toLowerCase} {maxRecipients : ℕ} {row : CsvRow} {rows : List CsvRow} {r r' : Reading}
  {column : String} {recipient : Recipient} {recipients : List Recipient}

/-- **The normalized row** has the cell of each column. -/
theorem get?_normalizeRow (hcolumn : column ≠ "__proto__") :
    (normalizeRow toLowerCase row).get? column = cell toLowerCase column row := by
  unfold normalizeRow cell
  induction row using List.reverseRecOn with
  | nil => rfl
  | append_singleton row e ih =>
    rw [List.foldl_append, List.foldl_cons, List.foldl_nil, List.filter_append]
    dsimp only
    by_cases hkey : toLowerCase (JsText.trim e.1) = column
    · rw [if_neg (by rw [hkey]; exact hcolumn), hkey, JsMap.get?_set_self]
      simp [hkey]
    · have hskip : (List.filter (fun e => decide (toLowerCase (JsText.trim e.1) = column)) [e]) = [] := by
        simp [hkey]
      rw [hskip, List.append_nil, ← ih]
      split
      · rfl
      · exact JsMap.get?_set_of_ne fun h => hkey h.symm

theorem get?_address :
    (normalizeRow toLowerCase row).get? ADDRESS_COLUMN = cell toLowerCase ADDRESS_COLUMN row :=
  get?_normalizeRow (by decide)

theorem get?_amount :
    (normalizeRow toLowerCase row).get? AMOUNT_COLUMN = cell toLowerCase AMOUNT_COLUMN row :=
  get?_normalizeRow (by decide)

/-- What a row has to have. -/
theorem readRow_ok_iff : (∃ recipient, readRow (normalizeRow toLowerCase row) = .ok recipient) ↔
    RowReadable toLowerCase row := by
  unfold readRow RowReadable BeginsWithNumeral
  rw [get?_address, get?_amount]
  cases haddress : cell toLowerCase ADDRESS_COLUMN row with
  | none => simp [JsText.trim]
  | some address =>
    cases hamount : cell toLowerCase AMOUNT_COLUMN row with
    | none =>
      simp only [Option.getD_some, Option.mem_def, reduceCtorEq, false_and, exists_false, and_false,
        iff_false, not_exists]
      intro recipient
      split <;> exact fun h => by cases h
    | some amount =>
      by_cases hblank : JsText.trim address = ""
      · simp [hblank]
      · cases hnumber : parseFloat amount.toList with
        | finite q =>
          by_cases hq : q ≤ 0
          · simp [hblank, hnumber, hq, not_lt.mpr hq]
          · simp [hblank, hnumber, hq, not_le.mp hq]
        | nan => simp [hblank, hnumber]
        | infinity _ => simp [hblank, hnumber]

/-- A numeral that is all of its cell is what the cell begins with. -/
theorem parseFloat_of_numeral {text : String} {q : ℚ} (h : numeral text = some q) :
    parseFloat text.toList = .finite q ∧ 0 < q := by
  unfold numeral at h
  split at h
  · rename_i q' hread
    obtain ⟨hpos, hq⟩ := Option.ite_none_right_eq_some.mp h
    obtain rfl := Option.some.inj hq
    exact ⟨parseFloat_of_trim hread, hpos⟩
  · cases h

/-- The row of a recipient is read as that recipient. -/
theorem readRow_of_named (h : named toLowerCase row = some recipient) :
    readRow (normalizeRow toLowerCase row) = .ok recipient := by
  unfold named at h
  split at h
  · rename_i address q haddress hamount
    obtain ⟨hblank, hrecipient⟩ := Option.ite_none_left_eq_some.mp h
    obtain ⟨amount, hcell, hnumeral⟩ := Option.bind_eq_some_iff.mp hamount
    obtain ⟨hparse, hpos⟩ := parseFloat_of_numeral hnumeral
    unfold readRow
    rw [get?_address, get?_amount, haddress, hcell]
    simp only [Option.getD_some, hparse, if_neg hblank, if_neg (not_le.mpr hpos)]
    rw [Option.some.inj hrecipient]
  · cases h

/-- A row that is readable names a recipient when its amount ends with the numeral. -/
theorem named_isSome_iff (h : RowReadable toLowerCase row) :
    (∃ recipient, named toLowerCase row = some recipient) ↔ AmountEnds toLowerCase row := by
  obtain ⟨⟨address, haddress, hblank⟩, amount, hamount, -⟩ := h
  unfold named AmountEnds
  rw [show cell toLowerCase ADDRESS_COLUMN row = some address from haddress,
    show cell toLowerCase AMOUNT_COLUMN row = some amount from hamount]
  cases hnumeral : numeral amount with
  | none => simp [hnumeral]
  | some q => simp [hnumeral, hblank]

/-! ## 6. All rows -/

theorem missingColumns_isEmpty :
    (missingColumns (normalizeRow toLowerCase row)).isEmpty = true ↔
      (cell toLowerCase ADDRESS_COLUMN row).isSome ∧ (cell toLowerCase AMOUNT_COLUMN row).isSome := by
  rw [missingColumns, List.isEmpty_iff, List.filter_eq_nil_iff]
  simp [get?_address, get?_amount, Option.isSome_iff_ne_none]

/-- The header is in order: it has been seen to be, or it is the next row's. -/
def HeaderOk (toLowerCase : String → String) (r : Reading) (row : CsvRow) : Prop :=
  r.headerChecked = true ∨ (cell toLowerCase ADDRESS_COLUMN row).isSome ∧
    (cell toLowerCase AMOUNT_COLUMN row).isSome

/-- **One row of the stream**: what it leaves when it does not throw. -/
theorem readNext_eq_ok (h : readNext toLowerCase maxRecipients r row = .ok r') :
    HeaderOk toLowerCase r row ∧ r'.headerChecked = true ∧ r.rowCount + 1 ≤ maxRecipients ∧
      r'.rowCount = r.rowCount + 1 ∧
      ((∃ recipient, readRow (normalizeRow toLowerCase row) = .ok recipient ∧
        r'.results = r.results ++ [recipient] ∧ r'.invalidRows = r.invalidRows) ∨
      r'.invalidRows ≠ []) := by
  simp only [readNext, bind, Except.bind, pure, Except.pure] at h
  split at h
  · cases h
  rename_i hmissing
  split at h
  · cases h
  rename_i hcount
  have hok : HeaderOk toLowerCase r row := by
    rw [Bool.and_eq_true, not_and_or, Bool.not_eq_true', Bool.not_eq_false, Bool.not_eq_true',
      Bool.not_eq_false] at hmissing
    exact hmissing.imp_right missingColumns_isEmpty.mp
  split at h
  · rename_i recipient hread
    obtain rfl := Except.ok.inj h
    exact ⟨hok, rfl, by omega, rfl, .inl ⟨recipient, hread, rfl, rfl⟩⟩
  · split at h
    · cases h
    obtain rfl := Except.ok.inj h
    exact ⟨hok, rfl, by omega, rfl, .inr (by simp)⟩

/-- A row that is read is appended. -/
theorem readNext_of_ok (hheader : HeaderOk toLowerCase r row)
    (hcount : r.rowCount + 1 ≤ maxRecipients)
    (hread : readRow (normalizeRow toLowerCase row) = .ok recipient) :
    readNext toLowerCase maxRecipients r row =
      .ok ⟨true, r.rowCount + 1, r.results ++ [recipient], r.invalidRows⟩ := by
  have hmissing : (!r.headerChecked && !(missingColumns (normalizeRow toLowerCase row)).isEmpty) =
      false := by
    rcases hheader with h | h
    · rw [h]
      rfl
    · rw [missingColumns_isEmpty.mpr h, Bool.not_true, Bool.and_false]
  simp [readNext, hmissing, hread, Nat.not_lt.mpr hcount, pure, Except.pure]

/-- **All rows**: what they leave when none of them throws. -/
theorem readAll_eq_ok (h : rows.foldlM (readNext toLowerCase maxRecipients) r = .ok r') :
    r'.rowCount = r.rowCount + rows.length ∧
      (∀ row ∈ rows.head?, HeaderOk toLowerCase r row ∧ r'.rowCount ≤ maxRecipients) ∧
      (r'.invalidRows = [] → r.invalidRows = [] ∧ ∀ row ∈ rows,
        ∃ recipient, readRow (normalizeRow toLowerCase row) = .ok recipient) := by
  induction rows generalizing r with
  | nil =>
    obtain rfl := Except.ok.inj h
    refine ⟨rfl, fun _ hrow => (by cases hrow), fun hnil => ⟨hnil, ?_⟩⟩
    exact fun row hrow => absurd hrow List.not_mem_nil
  | cons row rows ih =>
    rw [List.foldlM_cons] at h
    cases hnext : readNext toLowerCase maxRecipients r row with
    | error e =>
      rw [hnext] at h
      cases h
    | ok next =>
      rw [hnext] at h
      obtain ⟨hheader, -, hcount, hnextCount, hrow⟩ := readNext_eq_ok hnext
      obtain ⟨hrowCount, hlast, hvalid⟩ := ih h
      refine ⟨by rw [hrowCount, hnextCount, List.length_cons]; omega, ?_, ?_⟩
      · intro first hfirst
        obtain rfl : row = first := by simpa using hfirst
        refine ⟨hheader, ?_⟩
        cases rows with
        | nil =>
          rw [List.length_nil] at hrowCount
          omega
        | cons second rows => exact (hlast second rfl).2
      · intro hnil
        obtain ⟨hnextNil, hrest⟩ := hvalid hnil
        rcases hrow with ⟨recipient, hread, -, hsame⟩ | hinvalid
        · refine ⟨by rw [← hsame, hnextNil], ?_⟩
          rw [List.forall_mem_cons]
          exact ⟨⟨recipient, hread⟩, hrest⟩
        · exact absurd hnextNil hinvalid

/-- Rows that are all read are appended in their order. -/
theorem readAll_of_ok (hheader : ∀ row ∈ rows.head?, HeaderOk toLowerCase r row)
    (hcount : r.rowCount + rows.length ≤ maxRecipients)
    (hread : List.Forall₂ (fun row recipient => readRow (normalizeRow toLowerCase row) = .ok recipient)
      rows recipients) :
    ∃ r', rows.foldlM (readNext toLowerCase maxRecipients) r = .ok r' ∧
      r'.rowCount = r.rowCount + rows.length ∧ r'.results = r.results ++ recipients ∧
      r'.invalidRows = r.invalidRows := by
  induction hread generalizing r with
  | nil => exact ⟨r, rfl, rfl, (List.append_nil _).symm, rfl⟩
  | @cons row recipient rows recipients hrow _ ih =>
    rw [List.length_cons] at hcount
    have hlimit : r.rowCount + 1 ≤ maxRecipients := by omega
    have hnext := readNext_of_ok (hheader row rfl) hlimit hrow
    obtain ⟨r', hall, hlast, hresults, hinvalid⟩ :=
      ih (r := ⟨true, r.rowCount + 1, r.results ++ [recipient], r.invalidRows⟩)
        (fun _ _ => .inl rfl) (by show r.rowCount + 1 + rows.length ≤ maxRecipients; omega)
    refine ⟨r', ?_, ?_, ?_, hinvalid⟩
    · rw [List.foldlM_cons, hnext]
      exact hall
    · rw [hlast, List.length_cons]
      show r.rowCount + 1 + rows.length = r.rowCount + (rows.length + 1)
      omega
    · rw [hresults]
      exact List.append_assoc _ _ _

/-- The stream of a file that ends well, and what is made of it. -/
theorem parseCSV_eq_ok_iff :
    parseCSV toLowerCase maxRecipients ⟨true, rows, none⟩ = .ok recipients ↔
      ∃ r, rows.foldlM (readNext toLowerCase maxRecipients) {} = .ok r ∧ r.rowCount ≠ 0 ∧
        r.invalidRows = [] ∧ r.results = recipients := by
  simp only [parseCSV, bind, Except.bind, pure, Except.pure, Bool.not_true]
  cases hall : rows.foldlM (readNext toLowerCase maxRecipients) {} with
  | error e => simp
  | ok r =>
    by_cases hcount : r.rowCount = 0
    · simp [hcount, throw, throwThe, MonadExceptOf.throw]
    · by_cases hinvalid : r.invalidRows = []
      · simp [hcount, hinvalid]
      · simp [hcount, hinvalid, throw, throwThe, MonadExceptOf.throw]

theorem exists_forall₂ {α β : Type} {R : α → β → Prop} {as : List α} (h : ∀ a ∈ as, ∃ b, R a b) :
    ∃ bs, List.Forall₂ R as bs := by
  induction as with
  | nil => exact ⟨[], .nil⟩
  | cons a as ih =>
    obtain ⟨⟨b, hb⟩, has⟩ := List.forall_mem_cons.mp h
    obtain ⟨bs, hbs⟩ := ih has
    exact ⟨b :: bs, .cons hb hbs⟩

theorem forall₂_exists {α β : Type} {R : α → β → Prop} {as : List α} {bs : List β}
    (h : List.Forall₂ R as bs) : ∀ a ∈ as, ∃ b, R a b := by
  induction h with
  | nil => exact fun a ha => absurd ha List.not_mem_nil
  | cons hab _ ih =>
    rw [List.forall_mem_cons]
    exact ⟨⟨_, hab⟩, ih⟩

/-- The rows of a file with a header, not too many, that are all read. -/
theorem parseCSV_of_read (hlimit : rows.length ≤ maxRecipients)
    (hcolumns : HasColumns toLowerCase rows)
    (hread : List.Forall₂ (fun row recipient => readRow (normalizeRow toLowerCase row) = .ok recipient)
      rows recipients) :
    parseCSV toLowerCase maxRecipients ⟨true, rows, none⟩ = .ok recipients := by
  obtain ⟨first, hfirst, hcolumns⟩ := hcolumns
  have hheader : ∀ row ∈ rows.head?, HeaderOk toLowerCase {} row := by
    intro row hrow
    obtain rfl : first = row := Option.some.inj (hfirst.symm.trans hrow)
    exact .inr hcolumns
  obtain ⟨r, hall, hcount, hresults, hinvalid⟩ := readAll_of_ok hheader (by simpa using hlimit) hread
  refine parseCSV_eq_ok_iff.mpr ⟨r, hall, ?_, hinvalid, by simpa using hresults⟩
  rcases rows with _ | ⟨row, rows⟩
  · cases hfirst
  · rw [hcount, List.length_cons]
    omega

/-- **What `parseCSV` accepts**: the files that are readable. -/
theorem readable_iff : (∃ recipients,
      parseCSV toLowerCase maxRecipients ⟨true, rows, none⟩ = .ok recipients) ↔
    Readable toLowerCase maxRecipients rows := by
  constructor
  · rintro ⟨recipients, h⟩
    obtain ⟨r, hall, hcount, hinvalid, -⟩ := parseCSV_eq_ok_iff.mp h
    obtain ⟨hlength, hfirst, hvalid⟩ := readAll_eq_ok hall
    have hlength : r.rowCount = rows.length := by simpa using hlength
    rcases rows with _ | ⟨row, rows⟩
    · exact absurd hlength hcount
    obtain ⟨hheader, hlimit⟩ := hfirst row rfl
    refine ⟨by omega, ⟨row, rfl, ?_⟩, ?_⟩
    · exact hheader.resolve_left (by decide)
    · exact fun row hrow => readRow_ok_iff.mp ((hvalid hinvalid).2 row hrow)
  · rintro ⟨hlimit, hcolumns, hrows⟩
    obtain ⟨recipients, hread⟩ := exists_forall₂ fun row hrow => readRow_ok_iff.mpr (hrows row hrow)
    exact ⟨recipients, parseCSV_of_read hlimit hcolumns hread⟩

/-! ## 7. Files that are read as they should be -/

/-- **A file is read exactly** when no amount that begins with a numeral goes on behind it, unless
something else is wrong with the file. -/
theorem parseCSV_exact_iff (toLowerCase : String → String) (maxRecipients : ℕ)
    (rows : List CsvRow) : ReadsExactly toLowerCase maxRecipients rows ↔
      (Readable toLowerCase maxRecipients rows → ∀ row ∈ rows, AmountEnds toLowerCase row) := by
  constructor
  · rintro ⟨-, hrefused⟩ hreadable row hrow
    obtain ⟨recipients, hparse⟩ := readable_iff.mpr hreadable
    obtain ⟨named, -, -, hnamed⟩ : ∃ named, Names toLowerCase maxRecipients rows named := by
      by_contra hnone
      obtain ⟨e, he⟩ := hrefused (not_exists.mp hnone)
      rw [hparse] at he
      cases he
    exact (named_isSome_iff (hreadable.2.2 row hrow)).mp (forall₂_exists hnamed row hrow)
  · intro hends
    constructor
    · rintro recipients ⟨hlimit, hcolumns, hnamed⟩
      exact parseCSV_of_read hlimit hcolumns (hnamed.imp fun _ _ => readRow_of_named)
    · intro hnone
      cases hparse : parseCSV toLowerCase maxRecipients ⟨true, rows, none⟩ with
      | error e => exact ⟨e, rfl⟩
      | ok recipients =>
        exfalso
        have hreadable := readable_iff.mp ⟨recipients, hparse⟩
        obtain ⟨named, hnamed⟩ := exists_forall₂ fun row hrow =>
          (named_isSome_iff (hreadable.2.2 row hrow)).mpr (hends hreadable row hrow)
        exact hnone named ⟨hreadable.1, hreadable.2.1, hnamed⟩

/-- An amount that goes on behind its numeral is imported as the numeral. -/
theorem trailing_text_imported : ¬ ReadsExactly id 10000
    [[("address", "GA"), ("amount", "12abc")]] := by
  rintro ⟨-, hrefused⟩
  have hparsed : (parseCSV id 10000 ⟨true, [[("address", "GA"), ("amount", "12abc")]], none⟩).isOk =
      true := by decide +kernel
  have hunnamed : named id [("address", "GA"), ("amount", "12abc")] = none := by decide +kernel
  obtain ⟨e, he⟩ := hrefused fun recipients hnames => by
    obtain ⟨recipient, hr⟩ := forall₂_exists hnames.2.2 _ List.mem_cons_self
    rw [hunnamed] at hr
    cases hr
  rw [he] at hparsed
  cases hparsed

end SmartDrop.Airdrops
