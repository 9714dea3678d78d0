/-
# What an airdrop request has to pass

The request bodies of the airdrop routes, as `validation/schemas.js` accepts them, with the
amounts in stroops that `utils/stroops.js` computes, and the checks that the recipients route
makes on a list before it is stored.

An `Issue` is one of zod's: the path of the field and the text the schema gives; where the
schema gives none, zod's own text is used and `message` is `none`.
-/
import SmartDrop.Lib.Binary64
import SmartDrop.Lib.JsText

namespace SmartDrop.Airdrops

open Binary64

/-! ## 1. Stroops -/

/-- `STROOPS_PER_UNIT`. -/
def STROOPS_PER_UNIT : ℕ := 10000000

/-- `MAX_DECIMALS`. -/
def MAX_DECIMALS : ℕ := 7

/-- The stroops that `amount.toFixed(MAX_DECIMALS)` names. -/
def stroops (amount : Double) : ℤ := fixed MAX_DECIMALS amount.val

/-- `toStroops` of `utils/stroops.js`. -/
def toStroops (amount : Double) : Except String ℤ :=
  if amount.val < 0 then .error "amount must be a non-negative finite number"
  else if nearest (stroops amount / 10 ^ MAX_DECIMALS) ≠ amount.val then
    .error "amount must have at most 7 decimal places"
  else .ok (stroops amount)

/-- A recipient and the amount it is to get. -/
structure Recipient where
  address : String
  amount : Double
deriving DecidableEq

/-- The exact sum of a list, in stroops. -/
def totalStroops (recipients : List Recipient) : ℤ := (recipients.map fun r => stroops r.amount).sum

/-- `sumStroops`: the sum, unless one amount is refused. -/
def sumStroops (recipients : List Recipient) : Except String ℤ :=
  recipients.foldlM (fun total r => return total + (← toStroops r.amount)) 0

/-! ## 2. Schemas -/

/-- A zod issue. -/
structure Issue where
  path : List String
  message : Option String
deriving DecidableEq

/-- An issue unless the check passes. -/
def check (ok : Bool) (path : List String) (message : Option String) : List Issue :=
  if ok then [] else [⟨path, message⟩]

theorem of_check_eq_nil {ok : Bool} {path : List String} {message : Option String}
    (h : check ok path message = []) : ok = true := by
  unfold check at h
  split at h
  · assumption
  · cases h

theorem check_eq_nil_iff {ok : Bool} {path : List String} {message : Option String} :
    check ok path message = [] ↔ ok = true := by
  constructor
  · exact of_check_eq_nil
  · rintro rfl
    rfl

/-- `stellarPublicKeySchema`: `/^G[A-Z0-9]{55}$/`. -/
def isStellarPublicKey (text : String) : Bool :=
  match text.toList with
  | 'G' :: cs => cs.length == 55 && cs.all fun c => JsText.isUpper c || JsText.isDigit c
  | _ => false

/-- The issues of a field that has to be a Stellar public key. -/
def stellarPublicKeyIssues (path : List String) (text : String) : List Issue :=
  check (isStellarPublicKey text) path (some "Must be a valid Stellar public key")

/-- The issues of `assetCodeSchema`, on the trimmed text. -/
def assetCodeIssues (path : List String) (text : String) : List Issue :=
  let code := (JsText.trim text).toList
  check (1 ≤ code.length) path (some "Asset code is required") ++
  check (code.length ≤ 12) path (some "Asset code must be 12 characters or fewer") ++
  check (!code.isEmpty && code.all fun c => JsText.isUpper c || JsText.isLower c || JsText.isDigit c)
    path (some "Asset code must be alphanumeric")

/-- `MAX_AMOUNT_UNITS`: the int64 ceiling in whole units. -/
def MAX_AMOUNT_UNITS : ℕ := 9223372036854775807 / STROOPS_PER_UNIT

/-- The text of an amount shows at most seven characters after its point. -/
def hasFewDecimals (amount : Double) : Bool :=
  let text := text amount.val
  let dotIndex := text.idxOf '.'
  dotIndex == text.length || text.length - dotIndex - 1 ≤ 7

/-- The issues of `recipientSchema`. -/
def recipientIssues (path : List String) (r : Recipient) : List Issue :=
  stellarPublicKeyIssues (path ++ ["address"]) r.address ++
  check (0 < r.amount.val) (path ++ ["amount"]) none ++
  check (r.amount.val ≤ MAX_AMOUNT_UNITS) (path ++ ["amount"])
    (some "amount exceeds Stellar Int64 ceiling") ++
  check (hasFewDecimals r.amount) (path ++ ["amount"])
    (some "amount must have at most 7 decimal places")

/-- The issue of an address that the list has already shown. -/
def duplicateIssue (path : List String) (seen : List Recipient) (r : Recipient) : List Issue :=
  let index := toString seen.length
  check (!(seen.map Recipient.address).contains r.address) (path ++ [index, "address"])
    (some ("recipient " ++ index ++ ": duplicate address " ++ r.address))

/-- The issues of every element, `seen` being the elements before it. -/
def elementIssues (f : List Recipient → Recipient → List Issue) :
    List Recipient → List Recipient → List Issue
  | _, [] => []
  | seen, r :: rs => f seen r ++ elementIssues f (seen ++ [r]) rs

/-- The issues of `recipientsSchema`. -/
def recipientsIssues (path : List String) (recipients : List Recipient) : List Issue :=
  check (recipients.length ≤ 10000) path (some "recipients cannot exceed 10,000") ++
  elementIssues (fun seen r => recipientIssues (path ++ [toString seen.length]) r) [] recipients ++
  elementIssues (duplicateIssue path) [] recipients

/-- The body of a create request, of the types the schema asks for. -/
structure CreateBody where
  name : String
  description : Option String
  asset : String
  asset_issuer : String
  total_amount : Double
  expiry_ledger : ℤ
  recipients : List Recipient

/-- The check of a create body as a whole: the recipients' amounts sum up to the total. -/
def sumIssues (body : CreateBody) : List Issue :=
  if body.recipients.isEmpty then []
  else
    let sums : Except String Bool := do
      let total ← sumStroops body.recipients
      let expected ← toStroops body.total_amount
      return total = expected
    match sums with
    | .ok equal => check equal ["recipients"] (some ("sum of recipient amounts must equal total_amount ("
        ++ String.ofList (text body.total_amount.val) ++ ")"))
    | .error message => [⟨["recipients"], some message⟩]

/-- `Number.MAX_SAFE_INTEGER`. -/
def MAX_SAFE_INTEGER : ℕ := 9007199254740991

/-- The issues of `expiryLedgerSchema(currentLedger)`; zod's `int` takes only safe integers. -/
def expiryLedgerIssues (path : List String) (currentLedger expiry_ledger : ℤ) : List Issue :=
  check (expiry_ledger.natAbs ≤ MAX_SAFE_INTEGER) path none ++
  check (currentLedger < expiry_ledger) path
    (some ("expiry_ledger must be greater than current ledger (" ++ toString currentLedger ++ ")"))

/-- `airdropCreateBodySchema(currentLedger)`: the body with its texts trimmed, or the issues. -/
def airdropCreateBodySchema (currentLedger : ℤ) (body : CreateBody) :
    Except (List Issue) CreateBody :=
  let issues :=
    check ((JsText.trim body.name).toList ≠ []) ["name"] none ++
    assetCodeIssues ["asset"] body.asset ++
    stellarPublicKeyIssues ["asset_issuer"] body.asset_issuer ++
    check (0 < body.total_amount.val) ["total_amount"] none ++
    check (body.total_amount.val ≤ MAX_AMOUNT_UNITS) ["total_amount"]
      (some "total_amount exceeds Stellar Int64 ceiling") ++
    expiryLedgerIssues ["expiry_ledger"] currentLedger body.expiry_ledger ++
    recipientsIssues ["recipients"] body.recipients ++
    sumIssues body
  if issues.isEmpty then
    .ok { body with
      name := JsText.trim body.name
      asset := String.ofList ((JsText.trim body.asset).toList.map JsText.upper) }
  else .error issues

/-! ## 3. The checks of the recipients route -/

/-- An `AppError`, with the texts that its details list. -/
structure AppError where
  code : String
  message : String
  statusCode : ℕ
  details : List String := []
deriving DecidableEq

/-- `INT64_MAX_STROOPS`. -/
def INT64_MAX_STROOPS : ℤ := 9223372036854775807

/-- `toStroops` of `routes/airdrops.js`: the product rounded as `Math.round` does. -/
def routeStroops (amount : Double) : ℤ := mathRound (nearest (amount.val * STROOPS_PER_UNIT))

/-- `assertWithinCeiling`. -/
def assertWithinCeiling (stroops : ℤ) (label : String) : Except AppError Unit :=
  if INT64_MAX_STROOPS < stroops then
    .error ⟨"VALIDATION_ERROR", label ++ " exceeds Stellar Int64 ceiling", 400, []⟩
  else .ok ()

/-- The loop over the recipients: `seen` are the ones before, `sum` their stroops.
`validAddress` is `isValidStellarAddress`. -/
def checkRecipients (validAddress : String → Bool) :
    List Recipient → ℤ → List Recipient → Except AppError ℤ
  | _, sum, [] => .ok sum
  | seen, sum, r :: rs => do
    let label := "recipient " ++ toString seen.length
    if r.address = "" || !validAddress r.address then
      throw ⟨"VALIDATION_ERROR", label ++ ": invalid Stellar address", 400, []⟩
    if (seen.map Recipient.address).contains r.address then
      throw ⟨"VALIDATION_ERROR", label ++ ": duplicate address " ++ r.address, 400, []⟩
    if r.amount.val ≤ 0 then
      throw ⟨"VALIDATION_ERROR", label ++ ": amount must be a positive number", 400, []⟩
    assertWithinCeiling (routeStroops r.amount) (label ++ " amount")
    checkRecipients validAddress (seen ++ [r]) (sum + routeStroops r.amount) rs

/-- Everything the route checks of a list: the schema, its length, each recipient, the sum. -/
def acceptRecipients (validAddress : String → Bool) (maxRecipients : ℕ)
    (recipients : List Recipient) : Except AppError Unit := do
  if !(recipientsIssues [] recipients).isEmpty then
    throw ⟨"VALIDATION_ERROR", "Validation failed", 400, []⟩
  if maxRecipients < recipients.length then
    throw ⟨"VALIDATION_ERROR", "recipients cannot exceed 10,000", 400, []⟩
  let sum ← checkRecipients validAddress [] 0 recipients
  assertWithinCeiling sum "total recipient amount"

/-- One recipient, with what is checked of it. -/
theorem acceptRecipients_singleton {validAddress : String → Bool} {r : Recipient}
    (haddress : isStellarPublicKey r.address = true) (hvalid : validAddress r.address = true)
    (hpos : 0 < r.amount.val) (hunits : r.amount.val ≤ MAX_AMOUNT_UNITS)
    (hdecimals : hasFewDecimals r.amount = true)
    (hstroops : routeStroops r.amount ≤ INT64_MAX_STROOPS) :
    acceptRecipients validAddress 10000 [r] = .ok () := by
  have hissues : recipientsIssues [] [r] = [] := by
    simp [recipientsIssues, elementIssues, recipientIssues, duplicateIssue, stellarPublicKeyIssues, check,
      haddress, hpos, hunits, hdecimals]
  have hne : r.address ≠ "" := by
    rintro hempty
    rw [hempty] at haddress
    exact absurd haddress (by decide)
  have hceiling (label : String) : assertWithinCeiling (routeStroops r.amount) label = .ok () :=
    if_neg (not_lt.mpr hstroops)
  rw [acceptRecipients, hissues]
  simp [checkRecipients, hne, hvalid, not_le.mpr hpos, hceiling]
  exact hceiling _

end SmartDrop.Airdrops
