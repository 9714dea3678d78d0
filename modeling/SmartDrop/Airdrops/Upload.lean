/-
# Two ways to send recipients

`POST /airdrops/:id/recipients` from the upload on: `uploadRecipientsFile`, the check of the body,
and the handler with its two sources of recipients.  The upload refuses a request without a
file, so a list that is sent as JSON never gets to the handler, and the same list in a CSV file is
stored; the two agree only where the file comes to nothing (`sources_agree_iff`).
-/
import Mathlib.Data.Bool.AllAny
import SmartDrop.Airdrops.Csv
import SmartDrop.Airdrops.Funding

namespace SmartDrop.Airdrops

open Binary64 Conc

/-! ## 1. The upload -/

/-- What multer makes of a request: the file, when a form brings one, or an error. -/
inductive Multer where
  | done (file : Option CsvFile)
  | limitFileSize
  | multerError (code : String)
  | failed (message : String)

/-- What the virus scanner says of the file. -/
inductive ScanResult where
  | clean
  | infected (threats : List String)
  | failed

/-- The details of an error of the upload. -/
inductive UploadDetails where
  | none
  | max_bytes (bytes : ℕ)
  | reason (code : String)
  | infected (threats : List String)

/-- What a request is refused with. -/
inductive Refusal where
  | upload (code message : String) (statusCode : ℕ) (details : UploadDetails)
  | csv (e : CsvError)
  | app (e : AppError)
  | unexpected (message : String)

/-- The status that the error handler answers with. -/
def Refusal.statusCode : Refusal → ℕ
  | .upload _ _ statusCode _ => statusCode
  | .csv (.appError ..) => 400
  | .csv (.stream _) => 500
  | .app e => e.statusCode
  | .unexpected _ => 500

/-- `config.airdrops`, as far as the route reads it. -/
structure RouteConfig where
  csvMaxBytes : ℕ
  maxRecipients : ℕ

/-- A request: what multer and the scanner say, and the list in its body. -/
structure RecipientsRequest where
  upload : Multer
  scan : ScanResult
  recipients : Option (List Recipient)

/-- `uploadRecipientsFile`. -/
def uploadRecipientsFile (config : RouteConfig) (req : RecipientsRequest) : Except Refusal Unit :=
  match req.upload with
  | .limitFileSize => .error (.upload "PAYLOAD_TOO_LARGE" ("CSV file cannot exceed " ++
      toString config.csvMaxBytes ++ " bytes") 413 (.max_bytes config.csvMaxBytes))
  | .multerError code => .error (.upload "VALIDATION_ERROR"
      "Upload does not match the expected form structure" 400 (.reason code))
  | .failed message => .error (.unexpected message)
  | .done none => .error (.upload "VALIDATION_ERROR" "No file provided in upload" 400 .none)
  | .done (some _) =>
    match req.scan with
    | .clean => .ok ()
    | .infected threats => .error (.upload "SECURITY_ERROR" "Uploaded file failed virus scan" 400
        (.infected threats))
    | .failed => .error (.upload "INTERNAL_ERROR" "Failed to scan uploaded file" 500 .none)

/-- `validateRecipientBody`. -/
def validateRecipientBody (req : RecipientsRequest) : Except Refusal Unit :=
  match req.recipients with
  | none => .ok ()
  | some recipients =>
    if (recipientsIssues ["recipients"] recipients).isEmpty then .ok ()
    else .error (.app ⟨"VALIDATION_ERROR", "Validation failed", 400, []⟩)

/-! ## 2. The handler -/

section Route

variable (P : Platform) (toLowerCase : String → String) (config : RouteConfig)

/-- The recipients of a request, from its file if it has one. -/
def recipientsOf (req : RecipientsRequest) : Except Refusal (List Recipient) :=
  match req.upload, req.recipients with
  | .done (some file), _ =>
    match parseCSV toLowerCase config.maxRecipients file with
    | .error e => .error (.csv e)
    | .ok recipients => .ok recipients
  | _, some recipients => .ok recipients
  | _, none => .error (.app ⟨"VALIDATION_ERROR", "recipients or file is required", 400, []⟩)

/-- The handler of the route: how many recipients were added. -/
def handleRecipients (id : String) (req : RecipientsRequest) : Code (Except Refusal ℕ) := do
  match ← get id with
  | none => return .error (.app ⟨"AIRDROP_NOT_FOUND", "Airdrop not found", 404, []⟩)
  | some _ =>
    match recipientsOf toLowerCase config req with
    | .error e => return .error e
    | .ok recipients =>
      match acceptRecipients P.isValidEd25519PublicKey config.maxRecipients recipients with
      | .error e => return .error (.app e)
      | .ok () =>
        let duplicates ← addRecipients id recipients
        if !duplicates.isEmpty then
          return .error (.app ⟨"CONFLICT", "One or more recipient addresses are already " ++
            "registered for this airdrop", 409, duplicates⟩)
        return .ok recipients.length

/-- The route from the upload on. -/
def recipientsRoute (id : String) (req : RecipientsRequest) : Code (Except Refusal ℕ) :=
  match uploadRecipientsFile config req, validateRecipientBody req with
  | .error e, _ => return .error e
  | .ok (), .error e => return .error e
  | .ok (), .ok () => handleRecipients P toLowerCase config id req

/-- The status of the response; what a failed command throws is answered with 500. -/
def responseStatus : Except Err (Except Refusal ℕ) → ℕ
  | .error _ => 500
  | .ok (.error e) => e.statusCode
  | .ok (.ok _) => 201

/-! ## 3. The two forms of a request -/

/-- The list in a JSON body, which multer passes over. -/
def jsonRequest (recipients : List Recipient) (scan : ScanResult) : RecipientsRequest :=
  ⟨.done none, scan, some recipients⟩

/-- The file in a multipart form, unless it is too large. -/
def csvRequest (file : CsvFile) (tooLarge : Bool) (scan : ScanResult) : RecipientsRequest :=
  ⟨if tooLarge then .limitFileSize else .done (some file), scan, none⟩

/-- A CSV file with the addresses and the amounts of a list, a row for each recipient. -/
structure HasRecipients (file : CsvFile) (recipients : List Recipient) : Prop where
  utf8 : file.utf8 = true
  failure : file.failure = none
  rows : List.Forall₂ (fun row r => named toLowerCase row = some r) file.rows recipients

/-- **Two requests agree**: the same status, and the same recipients and addresses stored. -/
def RequestsAgree (t : ℕ) (s : Store) (id : String) (req req' : RecipientsRequest) : Prop :=
  responseStatus (alone P (recipientsRoute P toLowerCase config id req) t s).1 =
      responseStatus (alone P (recipientsRoute P toLowerCase config id req') t s).1 ∧
    (alone P (recipientsRoute P toLowerCase config id req) t s).2.recipients id =
      (alone P (recipientsRoute P toLowerCase config id req') t s).2.recipients id ∧
    (alone P (recipientsRoute P toLowerCase config id req) t s).2.addresses id =
      (alone P (recipientsRoute P toLowerCase config id req') t s).2.addresses id

variable {P} {toLowerCase} {config} {t : ℕ} {s : Store} {id : String} {recipients : List Recipient}
  {file : CsvFile} {scan : ScanResult} {a : Airdrop}

/-- A JSON body is refused as it stands. -/
theorem alone_json : alone P (recipientsRoute P toLowerCase config id (jsonRequest recipients scan))
    t s = (.ok (.error (.upload "VALIDATION_ERROR" "No file provided in upload" 400 .none)), s) := rfl

/-- A file that the upload refuses changes nothing. -/
theorem alone_csv_refused {tooLarge : Bool} {e : Refusal}
    (h : uploadRecipientsFile config (csvRequest file tooLarge scan) = .error e) :
    alone P (recipientsRoute P toLowerCase config id (csvRequest file tooLarge scan)) t s =
      (.ok (.error e), s) := by
  unfold recipientsRoute
  rw [h]
  rfl

/-- A file without rows is empty. -/
theorem parseCSV_nil {maxRecipients : ℕ} (hutf8 : file.utf8 = true) (hfailure : file.failure = none)
    (hrows : file.rows = []) : parseCSV toLowerCase maxRecipients file =
      .error (.appError "CSV_EMPTY" "CSV contains no data rows" .none) := by
  obtain ⟨utf8, rows, failure⟩ := file
  obtain rfl : utf8 = true := hutf8
  obtain rfl : failure = none := hfailure
  obtain rfl : rows = [] := hrows
  rfl

theorem HasRecipients.parse (h : HasRecipients toLowerCase file recipients) (hne : recipients ≠ [])
    {maxRecipients : ℕ} (hlimit : recipients.length ≤ maxRecipients) :
    parseCSV toLowerCase maxRecipients file = .ok recipients := by
  obtain ⟨utf8, rows, failure⟩ := file
  obtain rfl : utf8 = true := h.utf8
  obtain rfl : failure = none := h.failure
  have hrows : List.Forall₂ (fun row r => named toLowerCase row = some r) rows recipients := h.rows
  refine parseCSV_of_read (hrows.length_eq ▸ hlimit) ?_ (hrows.imp fun _ _ => readRow_of_named)
  cases hrows with
  | nil => exact absurd rfl hne
  | @cons row r rows rs hrow _ =>
    refine ⟨row, rfl, ?_⟩
    unfold named at hrow
    split at hrow
    · rename_i address q haddress hamount
      obtain ⟨amount, hcell, -⟩ := Option.bind_eq_some_iff.mp hamount
      rw [haddress, hcell]
      exact ⟨rfl, rfl⟩
    · cases hrow

theorem length_of_accept {valid : String → Bool} {maxRecipients : ℕ}
    (h : acceptRecipients valid maxRecipients recipients = .ok ()) :
    recipients.length ≤ maxRecipients := by
  by_contra hlong
  rw [acceptRecipients] at h
  simp only [throw, throwThe, MonadExceptOf.throw, bind, Except.bind] at h
  split at h
  · cases h
  · rw [if_pos (by omega)] at h
    cases h

/-- **A list in a clean file** of an airdrop that is there is answered with 201 or 409. -/
theorem alone_csv_clean (hrecord : s.records id = some a)
    (haccept : acceptRecipients P.isValidEd25519PublicKey config.maxRecipients recipients = .ok ())
    (hfile : HasRecipients toLowerCase file recipients) (hne : recipients ≠ []) :
    responseStatus (alone P (recipientsRoute P toLowerCase config id
      (csvRequest file false .clean)) t s).1 ≠ 400 := by
  have hparse := hfile.parse hne (length_of_accept haccept)
  obtain ⟨duplicates, hadd⟩ : ∃ duplicates, alone P (addRecipients id recipients) t s =
      (.ok duplicates, appended s id recipients) := alone_addRecipients (nodup_of_accept haccept)
  have hroute : recipientsRoute P toLowerCase config id (csvRequest file false .clean) =
      handleRecipients P toLowerCase config id (csvRequest file false .clean) := rfl
  rw [hroute, handleRecipients, get, alone_redis_bind]
  simp only [Store.exec, hrecord]
  have hof : recipientsOf toLowerCase config (csvRequest file false .clean) = .ok recipients := by
    simp [recipientsOf, csvRequest, hparse]
  simp only [hof, haccept]
  rw [alone_bind_of_ok hadd]
  split
  · show (409 : ℕ) ≠ 400
    decide
  · show (201 : ℕ) ≠ 400
    decide

/-- An empty list in a clean file is refused. -/
theorem alone_csv_empty (hrecord : s.records id = some a) (hfile : HasRecipients toLowerCase file []) :
    alone P (recipientsRoute P toLowerCase config id (csvRequest file false .clean)) t s =
      (.ok (.error (.csv (.appError "CSV_EMPTY" "CSV contains no data rows" .none))), s) := by
  have hrows : file.rows = [] := List.forall₂_nil_right_iff.mp hfile.rows
  have hof : recipientsOf toLowerCase config (csvRequest file false .clean) =
      .error (.csv (.appError "CSV_EMPTY" "CSV contains no data rows" .none)) := by
    simp [recipientsOf, csvRequest, parseCSV_nil hfile.utf8 hfile.failure hrows]
  have hroute : recipientsRoute P toLowerCase config id (csvRequest file false .clean) =
      handleRecipients P toLowerCase config id (csvRequest file false .clean) := rfl
  rw [hroute, handleRecipients, get, alone_redis_bind]
  simp only [Store.exec, hrecord, hof]
  rfl

/-- The request with a file agrees with the one without when it is answered with 400, too, and
stores nothing. -/
theorem agree_of_refused {req : RecipientsRequest} {e : Refusal} (he : e.statusCode = 400)
    (h : alone P (recipientsRoute P toLowerCase config id req) t s = (.ok (.error e), s)) :
    RequestsAgree P toLowerCase config t s id (jsonRequest recipients scan) req := by
  unfold RequestsAgree
  rw [alone_json, h]
  exact ⟨he.symm, rfl, rfl⟩

theorem not_agree_of_status {req : RecipientsRequest}
    (h : responseStatus (alone P (recipientsRoute P toLowerCase config id req) t s).1 ≠ 400) :
    ¬ RequestsAgree P toLowerCase config t s id (jsonRequest recipients scan) req := by
  rintro ⟨hstatus, -⟩
  rw [alone_json] at hstatus
  exact h hstatus.symm

/-- **The two forms agree** only when the scanner finds the file infected, or when there is nothing
in it: as JSON the list is refused whatever it is. -/
theorem sources_agree_iff (P : Platform) (toLowerCase : String → String) (config : RouteConfig)
    (t : ℕ) (s : Store) (id : String) (a : Airdrop) (recipients : List Recipient) (file : CsvFile)
    (tooLarge : Bool) (scan : ScanResult) (hrecord : s.records id = some a)
    (haccept : acceptRecipients P.isValidEd25519PublicKey config.maxRecipients recipients = .ok ())
    (hfile : HasRecipients toLowerCase file recipients) :
    RequestsAgree P toLowerCase config t s id (jsonRequest recipients scan)
        (csvRequest file tooLarge scan) ↔
      tooLarge = false ∧
        ((∃ threats, scan = .infected threats) ∨ scan = .clean ∧ recipients = []) := by
  cases tooLarge with
  | true =>
    refine iff_of_false (not_agree_of_status ?_) fun h => Bool.noConfusion h.1
    rw [alone_csv_refused rfl]
    exact show (413 : ℕ) ≠ 400 by decide
  | false =>
    cases scan with
    | infected threats =>
      exact iff_of_true (agree_of_refused rfl (alone_csv_refused rfl)) ⟨rfl, .inl ⟨threats, rfl⟩⟩
    | failed =>
      refine iff_of_false (not_agree_of_status ?_) ?_
      · rw [alone_csv_refused rfl]
        exact show (500 : ℕ) ≠ 400 by decide
      · rintro ⟨-, ⟨threats, h⟩ | ⟨h, -⟩⟩ <;> cases h
    | clean =>
      by_cases hnil : recipients = []
      · subst hnil
        exact iff_of_true (agree_of_refused rfl (alone_csv_empty hrecord hfile)) ⟨rfl, .inr ⟨rfl, rfl⟩⟩
      · refine iff_of_false (not_agree_of_status (alone_csv_clean hrecord haccept hfile hnil)) ?_
        rintro ⟨-, ⟨threats, h⟩ | ⟨-, h⟩⟩
        · cases h
        · exact hnil h

end Route

/-! ## 4. One recipient -/

/-- A database with the sample airdrop. -/
def draftStore : Store :=
  { Store.init with
    records := Function.update Store.init.records "drop_" (sampleBody.draft none "drop_" 0 0) }

/-- A recipient of 20 units. -/
def oneRecipient : List Recipient := [⟨sampleAddress 'B', .round 20⟩]

/-- The recipient in a CSV file. -/
def oneRow : CsvFile := ⟨true, [[("address", sampleAddress 'B'), ("amount", "20")]], none⟩

theorem oneRow_hasRecipients : HasRecipients id oneRow oneRecipient := by
  have htrim (cs : List Char) (h : ∀ c ∈ cs, JsText.isSpace c = false) :
      JsText.trim (String.ofList cs) = String.ofList cs :=
    String.toList_inj.mp ((JsText.trim_noSpace h).trans String.toList_ofList.symm)
  have hcell : JsText.trim (sampleAddress 'B') = sampleAddress 'B' := by
    refine htrim _ (List.forall_mem_cons.mpr ⟨by decide, fun c hc => ?_⟩)
    rw [List.eq_of_mem_replicate hc]
    decide
  have hne : sampleAddress 'B' ≠ "" := by
    intro hempty
    have hlist := congrArg String.toList hempty
    rw [sampleAddress, String.toList_ofList, String.toList_empty] at hlist
    cases hlist
  have haddress : JsText.trim "address" = "address" := htrim _ (List.all_iff_forall_prop.mp (by decide))
  have hamount : JsText.trim "amount" = "amount" := htrim _ (List.all_iff_forall_prop.mp (by decide))
  have hnumeral : numeral "20" = some 20 := by decide +kernel
  refine ⟨rfl, rfl, .cons ?_ .nil⟩
  simp [named, cell, ADDRESS_COLUMN, AMOUNT_COLUMN, haddress, hamount, hnumeral, hcell, hne]

theorem oneRecipient_accepted :
    acceptRecipients samplePlatform.isValidEd25519PublicKey 10000 oneRecipient = .ok () :=
  acceptRecipients_singleton (isStellarPublicKey_sampleAddress (by decide)) rfl (by decide +kernel)
    (by decide +kernel) (by decide +kernel) (by decide +kernel)

/-- The recipient is stored from the file, and refused as JSON. -/
theorem json_list_refused : ¬ RequestsAgree samplePlatform id ⟨1000000, 10000⟩ 0 draftStore "drop_"
    (jsonRequest oneRecipient .clean) (csvRequest oneRow false .clean) :=
  not_agree_of_status (alone_csv_clean (a := sampleBody.draft none "drop_" 0 0) rfl
    oneRecipient_accepted oneRow_hasRecipients (List.cons_ne_nil _ _))

/-- Both are refused when the file is infected. -/
theorem sources_agree_iff_sample :
    RequestsAgree samplePlatform id ⟨1000000, 10000⟩ 0 draftStore "drop_"
        (jsonRequest oneRecipient (.infected ["eicar"])) (csvRequest oneRow false (.infected ["eicar"])) ↔
      false = false ∧ ((∃ threats, ScanResult.infected ["eicar"] = .infected threats) ∨
        ScanResult.infected ["eicar"] = .clean ∧ oneRecipient = []) :=
  sources_agree_iff samplePlatform id ⟨1000000, 10000⟩ 0 draftStore "drop_"
    (sampleBody.draft none "drop_" 0 0) oneRecipient oneRow false (.infected ["eicar"]) rfl
    oneRecipient_accepted oneRow_hasRecipients

end SmartDrop.Airdrops
