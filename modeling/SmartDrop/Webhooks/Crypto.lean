/-
# Encryption and signatures

`services/webhookEncryption.js` and `services/webhookSignature.js`.  The ciphers and digests
themselves belong to the platform; what is modelled is how their results are packed into text
and how that text is taken apart again: `<iv>.<ciphertext>.<authTag>` in base64 for what is
encrypted, `sha256=<hex>; t=<timestamp>; n=<nonce>` for a signature.
-/
import SmartDrop.Lib.Bytes
import SmartDrop.Lib.JsNumber

namespace SmartDrop.Webhooks

open Bytes JsNumber JsText

/-! ## 1. The platform -/

/-- A parsed URL: what follows the host name is kept as it is. -/
structure URL where
  protocol : String
  hostname : String
  rest : String
deriving DecidableEq

/-- What the service is given: `crypto` (the `n`-th draw of random bytes, of any length, and the
first twenty digits of the `n`-th UUID, never the same twice), the URL parser (`none` when it
throws), the address tests of `net` and the text form of dates.  `aes256gcmOpen` answers `none` where `final` throws. -/
structure Platform where
  randomUUID : ℕ → String
  randomBytes : (draw count : ℕ) → List UInt8
  sha256 : String → List UInt8
  hmacSha256 : (key message : String) → List UInt8
  aes256gcm : (key iv : List UInt8) → (plaintext : String) → List UInt8 × List UInt8
  aes256gcmOpen : (key iv ciphertext authTag : List UInt8) → Option String
  parseURL : String → Option URL
  isIPv4 : String → Bool
  isIPv6 : String → Bool
  toISOString : ℕ → String
  uuid_inj : Function.Injective randomUUID

/-- The configuration the service reads: `config.webhookSecretEncryptionKey` and
`config.webhooks`. -/
structure Config where
  webhookSecretEncryptionKey : Option String
  maxAttempts : ℕ
  retryBaseMs : ℚ
  retryFactor : ℚ
  timeoutMs : ℕ
  retryBatchSize : ℕ

/-- A message that a failed command or a check throws. -/
abbrev Err := String

variable (P : Platform) (config : Config)

/-! ## 2. Encryption -/

def DEV_FALLBACK_KEY_MATERIAL : String :=
  "smartdrop-dev-insecure-webhook-key-do-not-use-in-production"

/-- `deriveKey`. -/
def deriveKey : List UInt8 :=
  P.sha256 ((config.webhookSecretEncryptionKey.filter (· ≠ "")).getD DEV_FALLBACK_KEY_MATERIAL)

/-- The text of an encryption: `<iv>.<ciphertext>.<authTag>`. -/
def pack (key iv : List UInt8) (plaintext : String) : String :=
  String.ofList (base64 iv ++ '.' :: (base64 (P.aes256gcm key iv plaintext).1 ++
    '.' :: base64 (P.aes256gcm key iv plaintext).2))

/-- The plaintext of a packed text, if it has three parts and its tag verifies. -/
def unpack (key : List UInt8) (packed : String) : Option String :=
  match split ['.'] packed.toList with
  | [iv, ciphertext, authTag] =>
    P.aes256gcmOpen key (ofBase64 iv) (ofBase64 ciphertext) (ofBase64 authTag)
  | _ => none

/-- `isEncrypted`. -/
def isEncrypted (value : String) : Bool :=
  !("whsec_".toList.isPrefixOf value.toList) && (split ['.'] value.toList).length == 3

/-- `encryptSecret`, with the initialisation vector it draws. -/
def encryptSecret (iv : List UInt8) (plaintext : String) : Except Err String :=
  if plaintext = "" then .error "webhook secret to encrypt must be a non-empty string"
  else .ok (pack P (deriveKey P config) iv plaintext)

/-- `decryptRecordSecret`: a legacy secret as it is, and nothing where decryption throws. -/
def decryptRecordSecret (secret : String) : Option String :=
  if !isEncrypted secret then some secret else unpack P (deriveKey P config) secret

/-- `encryptPayload`, with the initialisation vector it draws. -/
def encryptPayload (iv : List UInt8) (plaintext : String) (webhookSecret : Option String) :
    Except Err String :=
  if plaintext = "" then .error "webhook payload to encrypt must be a non-empty string"
  else match webhookSecret.filter (· ≠ "") with
    | none => .error "webhook secret must be a non-empty string"
    | some secret => .ok (pack P (P.sha256 secret) iv plaintext)

/-! ## 3. Signatures -/

def SIGNATURE_PREFIX : List Char := "sha256=".toList

/-- What is signed: `<timestamp>.<nonce>.<body>`. -/
def signedPayload (timestamp nonce : List Char) (body : String) : String :=
  String.ofList (timestamp ++ '.' :: (nonce ++ '.' :: body.toList))

/-- The header that `sign` makes at a time with the random bytes it draws. -/
def signatureHeader (timestamp : ℕ) (nonce : List UInt8) (secret body : String) : String :=
  let t := Nat.toDigits 10 timestamp
  let digest := hex (P.hmacSha256 secret (signedPayload t (hex nonce) body))
  String.ofList (SIGNATURE_PREFIX ++ (digest ++ ("; t=".toList ++ (t ++ ("; n=".toList ++ hex nonce)))))

/-- `sign`, at a clock in milliseconds and with the random bytes it draws. -/
def sign (now : ℕ) (nonce : List UInt8) (secret : Option String) (body : String) :
    Except Err String :=
  match secret.filter (· ≠ "") with
  | none => .error "signature secret must be a non-empty string"
  | some secret => .ok (signatureHeader P (now / 1000) nonce secret body)

/-- What a signature header is made of, as far as it has been read. -/
structure Parts where
  digest : Option (List Char) := none
  timestamp : Number := .finite 0
  nonce : Option (List Char) := none

/-- One step of the `reduce`: a part of the header that is `k=v`, or the digest. -/
def Parts.add (acc : Parts) (part : List Char) : Parts :=
  let kv := split ['='] part
  if kv.head? = some ['t'] then
    { acc with timestamp := ((kv[1]?).map read).getD .nan }
  else if kv.head? = some ['n'] then { acc with nonce := kv[1]? }
  else if acc.digest.all (·.isEmpty) then { acc with digest := some part }
  else acc

/-- The parts of a header without its prefix. -/
def parseParts (text : List Char) : Parts := (split "; ".toList text).foldl Parts.add {}

/-- What `verifyDetailed` answers. -/
structure Verdict where
  valid : Bool
  reason : Option String
deriving DecidableEq

/-- `Math.abs(now - timestamp) > maxAgeSeconds`. -/
def expired (now : ℕ) (timestamp : Number) (maxAgeSeconds : ℚ) : Bool :=
  match timestamp with
  | .nan => false
  | .infinity _ => true
  | .finite t => maxAgeSeconds < |Binary64.nearest (now - t)|

/-- `verifyDetailed`, at a clock in milliseconds. -/
def verifyDetailed (now : ℕ) (secret body : String) (providedSignature : String)
    (maxAgeSeconds : ℚ) : Verdict :=
  if !SIGNATURE_PREFIX.isPrefixOf providedSignature.toList then ⟨false, some "invalid_format"⟩
  else
    let parts := parseParts (providedSignature.toList.drop SIGNATURE_PREFIX.length)
    match parts.digest.filter (!·.isEmpty), parts.timestamp.truthy,
        parts.nonce.filter (!·.isEmpty) with
    | some digest, true, some nonce =>
      if expired (now / 1000) parts.timestamp maxAgeSeconds then ⟨false, some "expired"⟩
      else if ofHex (hex (P.hmacSha256 secret
          (signedPayload (write parts.timestamp) nonce body))) ≠ ofHex digest then
        ⟨false, some "mismatch"⟩
      else ⟨true, none⟩
    | _, _, _ => ⟨false, some "missing_fields"⟩

/-- `verify`. -/
def verify (now : ℕ) (secret body providedSignature : String) (maxAgeSeconds : ℚ) : Bool :=
  (verifyDetailed P now secret body providedSignature maxAgeSeconds).valid

/-! ## 4. What a header carries -/

section Header

variable {P}

theorem not_mem_toDigits {n : ℕ} {c : Char} (h : JsText.isDigit c = false) :
    c ∉ Nat.toDigits 10 n := by
  intro hc
  rw [isDigit_of_mem_toDigits hc] at h
  cases h

/-- A part `k=v` in which neither has an `=`. -/
theorem split_field {k : Char} (hk : k ≠ '=') {v : List Char} (hv : '=' ∉ v) :
    split ['='] (k :: '=' :: v) = [[k], v] := by
  have hkey : '=' ∉ [k] := by simpa using hk.symm
  have hsplit := split_cons hkey v
  rw [split_part hv] at hsplit
  exact hsplit

/-- A header is taken apart into what it was made of, whatever nonce it carries that has neither
`=` nor `; ` in it. -/
theorem parseParts_fields {t : ℕ} (ht : t < 2 ^ 53) (digest : List UInt8) {nonce : List Char}
    (heq : '=' ∉ nonce) (hsep : ¬ "; ".toList <:+: nonce) :
    parseParts (hex digest ++ ("; t=".toList ++ (Nat.toDigits 10 t ++ ("; n=".toList ++ nonce)))) =
      ⟨some (hex digest), .finite t, some nonce⟩ := by
  have hhex : ∀ c ∈ [';', '=', 't', 'n'], c ∉ hex digest := by
    intro c hc
    simp only [List.mem_cons, List.not_mem_nil, or_false] at hc
    rcases hc with rfl | rfl | rfl | rfl <;> exact not_mem_hex (by decide) digest
  have hdigits : ∀ c ∈ [';', '='], c ∉ Nat.toDigits 10 t := by
    intro c hc
    simp only [List.mem_cons, List.not_mem_nil, or_false] at hc
    rcases hc with rfl | rfl <;> exact not_mem_toDigits rfl
  -- the three parts
  have hlast : split "; ".toList ('n' :: '=' :: nonce) = ['n' :: '=' :: nonce] := by
    refine splitFrom_of_not_infix (fun h => hsep ?_) []
    rcases List.infix_cons_iff.mp h with hp | h
    · simp [List.cons_prefix_cons] at hp
    rcases List.infix_cons_iff.mp h with hp | h
    · simp [List.cons_prefix_cons] at hp
    · exact h
  have hmiddle : split "; ".toList ('t' :: '=' :: (Nat.toDigits 10 t ++ ("; n=".toList ++ nonce))) =
      ['t' :: '=' :: Nat.toDigits 10 t, 'n' :: '=' :: nonce] := by
    have hpart : ';' ∉ 't' :: '=' :: Nat.toDigits 10 t := by simpa using hdigits ';' (by simp)
    exact (split_append [' '] hpart ('n' :: '=' :: nonce)).trans (congrArg _ hlast)
  have hparts : split "; ".toList (hex digest ++ ("; t=".toList ++ (Nat.toDigits 10 t ++
      ("; n=".toList ++ nonce)))) =
      [hex digest, 't' :: '=' :: Nat.toDigits 10 t, 'n' :: '=' :: nonce] := by
    have happend := split_append [' '] (hhex ';' (by simp))
      ('t' :: '=' :: (Nat.toDigits 10 t ++ ("; n=".toList ++ nonce)))
    exact happend.trans (congrArg _ hmiddle)
  -- each of them read
  have hdigest : Parts.add {} (hex digest) = { digest := some (hex digest) } := by
    have hne : ∀ c ∈ ['t', 'n'], hex digest ≠ [c] := fun c hc he =>
      hhex c (List.mem_cons_of_mem _ (List.mem_cons_of_mem _ hc))
        (he ▸ List.mem_singleton_self c)
    simp [Parts.add, split_part (hhex '=' (by simp)), hne]
  have hfield : split ['='] ('t' :: '=' :: Nat.toDigits 10 t) = [['t'], Nat.toDigits 10 t] :=
    split_field (by decide) (hdigits '=' (by simp))
  have hnonce : split ['='] ('n' :: '=' :: nonce) = [['n'], nonce] := split_field (by decide) heq
  rw [parseParts, hparts, List.foldl_cons, hdigest, List.foldl_cons, List.foldl_cons,
    List.foldl_nil]
  simp [Parts.add, hfield, hnonce, read_toDigits ht]

/-- What bytes are written as has no `=` and no `; `. -/
theorem hex_carried (bytes : List UInt8) : '=' ∉ hex bytes ∧ ¬ "; ".toList <:+: hex bytes :=
  ⟨not_mem_hex (by decide) bytes, fun h =>
    not_mem_hex (c := ';') (by decide) bytes (h.subset List.mem_cons_self)⟩

/-- A header that `sign` made is taken apart into what it was made of. -/
theorem parseParts_header {t : ℕ} (ht : t < 2 ^ 53) (digest nonce : List UInt8) :
    parseParts (hex digest ++ ("; t=".toList ++ (Nat.toDigits 10 t ++
      ("; n=".toList ++ hex nonce)))) =
      ⟨some (hex digest), .finite t, some (hex nonce)⟩ :=
  parseParts_fields ht digest (hex_carried nonce).1 (hex_carried nonce).2

/-- What is signed tells the body. -/
theorem signedPayload_inj {t nonce : List Char} {body body' : String}
    (h : signedPayload t nonce body' = signedPayload t nonce body) : body' = body := by
  simpa [signedPayload, String.ext_iff] using h

/-- **A body is accepted with a header only if it is the one that was signed.** -/
theorem eq_of_verify (hinj : ∀ key, Function.Injective (P.hmacSha256 key)) {t now : ℕ}
    (ht : t < 2 ^ 53) {nonce : List UInt8} {secret body body' : String} {maxAgeSeconds : ℚ}
    (h : verify P now secret body' (signatureHeader P t nonce secret body) maxAgeSeconds) :
    body' = body := by
  have hheader : (signatureHeader P t nonce secret body).toList.drop SIGNATURE_PREFIX.length =
      hex (P.hmacSha256 secret (signedPayload (Nat.toDigits 10 t) (hex nonce) body)) ++
        ("; t=".toList ++ (Nat.toDigits 10 t ++ ("; n=".toList ++ hex nonce))) := by
    simp [signatureHeader]
  rw [verify, verifyDetailed] at h
  split at h
  · cases h
  simp only [hheader, parseParts_header ht] at h
  split at h
  · rename_i digest nonce' hd _ hn
    have hdigest := (Option.filter_eq_some_iff.mp hd).1
    have hnonce := (Option.filter_eq_some_iff.mp hn).1
    split at h
    · cases h
    split at h
    · cases h
    · rename_i heq
      rw [not_not, ← Option.some.inj hdigest, ← Option.some.inj hnonce, write_natCast ht, ofHex_hex,
        ofHex_hex] at heq
      exact signedPayload_inj (hinj secret heq)
  · cases h

end Header

/-! ## 5. Encryption read back -/

section Cipher

variable {P : Platform}

/-- Decryption inverts encryption under the same key. -/
def Opens (P : Platform) : Prop :=
  ∀ key iv text, P.aes256gcmOpen key iv (P.aes256gcm key iv text).1 (P.aes256gcm key iv text).2 =
    some text

/-- The three parts of a packed text. -/
theorem split_pack (key iv : List UInt8) (plaintext : String) :
    split ['.'] (pack P key iv plaintext).toList =
      [base64 iv, base64 (P.aes256gcm key iv plaintext).1,
        base64 (P.aes256gcm key iv plaintext).2] := by
  have hdot : ∀ bytes, '.' ∉ base64 bytes :=
    not_mem_base64 (by rw [alphabet_eq]; decide) (by decide)
  have hrest := split_append [] (hdot (P.aes256gcm key iv plaintext).1)
    (base64 (P.aes256gcm key iv plaintext).2)
  rw [split_part (hdot _)] at hrest
  have hall := split_append [] (hdot iv) (base64 (P.aes256gcm key iv plaintext).1 ++
    ('.' :: base64 (P.aes256gcm key iv plaintext).2))
  rw [pack, String.toList_ofList]
  exact hall.trans (congrArg _ hrest)

theorem unpack_pack (h : Opens P) (key iv : List UInt8) (plaintext : String) :
    unpack P key (pack P key iv plaintext) = some plaintext := by
  rw [unpack, split_pack]
  simp only [ofBase64_base64]
  exact h key iv plaintext

/-- A packed text is recognised as one: it has no `_`. -/
theorem isEncrypted_pack (key iv : List UInt8) (plaintext : String) :
    isEncrypted (pack P key iv plaintext) = true := by
  have hmark : ∀ bytes, '_' ∉ base64 bytes :=
    not_mem_base64 (by rw [alphabet_eq]; decide) (by decide)
  have hpre : "whsec_".toList.isPrefixOf (pack P key iv plaintext).toList = false := by
    rw [Bool.eq_false_iff]
    intro h
    obtain ⟨rest, hrest⟩ := List.isPrefixOf_iff_prefix.mp h
    have hmem : '_' ∈ (pack P key iv plaintext).toList := by
      rw [← hrest]
      exact List.mem_append_left _ (by decide)
    rw [pack, String.toList_ofList] at hmem
    simp [hmark] at hmem
  rw [isEncrypted, hpre, split_pack]
  rfl

/-- What `encryptSecret` stores is read back. -/
theorem decrypt_encryptSecret (config : Config) (h : Opens P) {iv : List UInt8}
    {secret packed : String} (hpacked : encryptSecret P config iv secret = .ok packed) :
    decryptRecordSecret P config packed = some secret := by
  rw [encryptSecret] at hpacked
  split at hpacked
  · cases hpacked
  · obtain rfl := Except.ok.inj hpacked
    simp [decryptRecordSecret, isEncrypted_pack, unpack_pack h]

end Cipher

/-! ## 6. Platforms for examples -/

theorem sampleUUID_inj : Function.Injective fun n => String.ofList (List.replicate n '0') :=
  repeat_inj '0' 0

/-- A platform whose cipher hides the length only and whose digest is the message; it knows
`https` URLs that are a host name and nothing else. -/
def samplePlatform : Platform where
  randomUUID n := String.ofList (List.replicate n '0')
  randomBytes _ count := List.replicate count 1
  sha256 _ := []
  hmacSha256 _ message := message.toByteArray.data.toList
  aes256gcm _ _ plaintext := (List.replicate plaintext.length 0, [])
  aes256gcmOpen _ _ _ _ := none
  parseURL url :=
    if "https://".toList.isPrefixOf url.toList then
      some ⟨"https:", String.ofList (url.toList.drop 8), "/"⟩
    else none
  isIPv4 text := text.toList.all fun c => JsText.isDigit c || c == '.'
  isIPv6 _ := false
  toISOString _ := ""
  uuid_inj := sampleUUID_inj

/-- The defaults of `config.webhooks`. -/
def sampleConfig : Config where
  webhookSecretEncryptionKey := none
  maxAttempts := 3
  retryBaseMs := 30000
  retryFactor := 2
  timeoutMs := 5000
  retryBatchSize := 25

theorem samplePlatform_hmac_inj (key : String) :
    Function.Injective (samplePlatform.hmacSha256 key) := by
  intro a b h
  exact String.toByteArray_inj.mp (ByteArray.ext (Array.toList_inj.mp h))

/-- Base64 text is at least as long as what it stands for. -/
theorem le_length_base64 (bytes : List UInt8) : bytes.length ≤ (base64 bytes).length := by
  fun_induction base64 bytes with
  | case1 => exact Nat.le_refl _
  | case2 => simp
  | case3 => simp
  | case4 a b c rest n ih =>
    simp only [List.length_cons]
    omega

theorem samplePlatform_pack_ne (key iv : List UInt8) (plaintext : String) :
    pack samplePlatform key iv plaintext ≠ plaintext := by
  intro h
  have hcipher : (samplePlatform.aes256gcm key iv plaintext).1 =
    List.replicate plaintext.length 0 := rfl
  have hlength := le_length_base64 (List.replicate plaintext.length 0)
  have heq := congrArg String.length h
  rw [List.length_replicate] at hlength
  rw [pack, hcipher, String.length_ofList] at heq
  simp only [List.length_append, List.length_cons] at heq
  omega

/-- The code points of a text, in three bytes each. -/
def codePoints (text : List Char) : List UInt8 :=
  text.flatMap fun c =>
    [UInt8.ofNat (c.toNat / 65536), UInt8.ofNat (c.toNat / 256), UInt8.ofNat c.toNat]

/-- The text with these code points. -/
def ofCodePoints : List UInt8 → List Char
  | a :: b :: c :: rest =>
    Char.ofNat (a.toNat * 65536 + b.toNat * 256 + c.toNat) :: ofCodePoints rest
  | _ => []

theorem ofCodePoints_codePoints (text : List Char) : ofCodePoints (codePoints text) = text := by
  induction text with
  | nil => rfl
  | cons c text ih =>
    have hlt : c.toNat < 1114112 := by
      have := c.valid
      rcases this with h | h
      · exact Nat.lt_trans h (by decide)
      · exact h.2
    have hcons : codePoints (c :: text) = UInt8.ofNat (c.toNat / 65536) ::
      UInt8.ofNat (c.toNat / 256) :: UInt8.ofNat c.toNat :: codePoints text := rfl
    have hpoint : (UInt8.ofNat (c.toNat / 65536)).toNat * 65536 +
        (UInt8.ofNat (c.toNat / 256)).toNat * 256 + (UInt8.ofNat c.toNat).toNat = c.toNat := by
      simp only [UInt8.toNat_ofNat']
      omega
    rw [hcons, ofCodePoints, hpoint, Char.ofNat_toNat, ih]

/-- The same platform with a cipher that can be opened. -/
def openPlatform : Platform :=
  { samplePlatform with
    aes256gcm := fun _ _ plaintext => (codePoints plaintext.toList, [])
    aes256gcmOpen := fun _ _ ciphertext _ => some (String.ofList (ofCodePoints ciphertext)) }

theorem openPlatform_opens : Opens openPlatform := by
  intro key iv text
  simp [openPlatform, ofCodePoints_codePoints]

end SmartDrop.Webhooks
