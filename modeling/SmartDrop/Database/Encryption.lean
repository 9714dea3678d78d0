/-
# Encryption of database fields

`database/encryption.js`.  A value is stored as `enc:v1:<iv>:<ciphertext>:<authTag>`, with its parts in
base64.  The prefix decides in both directions: `encrypt` returns a value that has it as it is, and
`decrypt` one that does not, "migration-friendly".

So a text that does not begin with the prefix is read back (`decrypt_encrypt`), also as a field of a record
(`decryptRecord_encryptRecord`); one that does is taken for a ciphertext, stored in clear, and not readable
(`prefixed_lost`).
-/
import SmartDrop.Lib.Bytes
import SmartDrop.Lib.JsMap
import SmartDrop.Lib.JsNumber
import SmartDrop.Lib.JsonRoundTrip
import SmartDrop.Lib.Utf8

namespace SmartDrop.Encryption

open Bytes JsText JsonText

/-! ## 1. Keys -/

/-- A key of AES-256. -/
structure Key where
  bytes : List UInt8
  length_eq : bytes.length = 32

/-- Twelve random bytes. -/
structure Iv where
  bytes : List UInt8
  length_eq : bytes.length = 12

/-- What `crypto` does: `aes256gcmOpen` answers `none` where it throws. -/
structure Crypto where
  sha256 : List UInt8 → Key
  aes256gcm : Key → Iv → (plaintext : List UInt8) → List UInt8 × List UInt8
  aes256gcmOpen : Key → (iv ciphertext authTag : List UInt8) → Option (List UInt8)

/-- Decryption inverts encryption under the same key. -/
def Crypto.Opens (C : Crypto) : Prop :=
  ∀ key (iv : Iv) plaintext,
    C.aes256gcmOpen key iv.bytes (C.aes256gcm key iv plaintext).1 (C.aes256gcm key iv plaintext).2 =
      some plaintext

/-- The configuration, with the key that has been derived from it. -/
structure Settings where
  databaseEncryptionKey : String
  dbEncryptionKey : String
  DB_ENCRYPTION_KEY : Option String
  production : Bool
  cachedDerivedKey : Option Key

abbrev Err := String

def DEV_FALLBACK_KEY_MATERIAL : String := "smartdrop-dev-db-encryption-key-do-not-use-in-production"

variable (C : Crypto)

/-- The key that is configured, if there is one. -/
def Settings.configured (s : Settings) : Option String :=
  if s.databaseEncryptionKey ≠ "" then some s.databaseEncryptionKey
  else if s.dbEncryptionKey ≠ "" then some s.dbEncryptionKey
  else s.DB_ENCRYPTION_KEY.filter (· ≠ "")

/-- `deriveKey`, with the settings after it. -/
def deriveKey (s : Settings) (customKeyMaterial : Option String) : Except Err (Key × Settings) :=
  match customKeyMaterial.filter (· ≠ "") with
  | some material => .ok (C.sha256 (Utf8.encode material), s)
  | none =>
    match s.cachedDerivedKey with
    | some key => .ok (key, s)
    | none =>
      let cache (material : String) :=
        let key := C.sha256 (Utf8.encode material)
        (key, { s with cachedDerivedKey := some key })
      match s.configured with
      | some configured => .ok (cache configured)
      | none =>
        if s.production then
          .error ("DB_ENCRYPTION_KEY must be set in production — refusing to encrypt data at rest " ++
            "with the public fallback development key.")
        else .ok (cache DEV_FALLBACK_KEY_MATERIAL)

/-- A key that has been derived is derived again, as long as the process runs. -/
theorem deriveKey_again {s s' : Settings} {customKeyMaterial : Option String} {key : Key}
    (h : deriveKey C s customKeyMaterial = .ok (key, s')) :
    deriveKey C s' customKeyMaterial = .ok (key, s') := by
  rw [deriveKey] at h ⊢
  cases hcustom : customKeyMaterial.filter (· ≠ "") with
  | some material =>
    rw [hcustom] at h
    cases h
    rfl
  | none =>
    rw [hcustom] at h
    cases hcached : s.cachedDerivedKey with
    | some cached =>
      simp only [hcached] at h
      cases h
      simp only [hcached]
    | none =>
      simp only [hcached] at h
      split at h
      · cases h
        rfl
      · split at h
        · cases h
        · cases h
          rfl

/-! ## 2. Values -/

/-- A value; `none` is `undefined`. -/
abbrev Value := Option Json

def PREFIX : List Char := "enc:v1:".toList

def isEncrypted : Value → Bool
  | some (.str s) => PREFIX.isPrefixOf s.toList
  | _ => false

/-- `null` or `undefined`. -/
def Nullish : Value → Bool
  | none => true
  | some .null => true
  | some _ => false

/-- The text that is encrypted: `String(value)`, or the JSON of an object. -/
def plaintextOf : Json → String
  | .null => "null"
  | .bool b => if b then "true" else "false"
  | .num n => String.ofList (JsNumber.write (JsNumber.read n.chars))
  | .str s => s
  | v => stringify v

/-- What is stored for a text under a key. -/
def pack (key : Key) (iv : Iv) (plaintext : String) : String :=
  let sealed := C.aes256gcm key iv (Utf8.encode plaintext)
  String.ofList (PREFIX ++ (base64 iv.bytes ++ ':' :: (base64 sealed.1 ++ ':' :: base64 sealed.2)))

/-- `encrypt`, with the initialisation vector it draws. -/
def encrypt (s : Settings) (customKey : Option String) (iv : Iv) (value : Value) : Except Err Value :=
  match value with
  | none => .ok none
  | some .null => .ok (some .null)
  | some v =>
    if isEncrypted value then .ok value
    else do
      let (key, _) ← deriveKey C s customKey
      return some (.str (pack C key iv (plaintextOf v)))

/-- What `decrypt` finds behind the prefix. -/
def openPayload (s : Settings) (customKey : Option String) (payload : List Char) : Except Err String :=
  match split [':'] payload with
  | [ivB64, ciphertextB64, authTagB64] => do
    let (key, _) ← deriveKey C s customKey
    match C.aes256gcmOpen key (ofBase64 ivB64) (ofBase64 ciphertextB64) (ofBase64 authTagB64) with
    | some decryptedBuf => return Utf8.decode decryptedBuf
    | none => throw "Unsupported state or unable to authenticate data"
  | _ => throw "Malformed encrypted database value: expected 3 segments (iv:ciphertext:authTag)"

/-- `decrypt`. -/
def decrypt (s : Settings) (customKey : Option String) (parseJson : Bool) (packed : Value) :
    Except Err Value :=
  match packed with
  | some (.str text) =>
    if isEncrypted packed then do
      let decryptedStr ← openPayload C s customKey (text.toList.drop PREFIX.length)
      if parseJson then return some ((parse decryptedStr).getD (.str decryptedStr))
      return some (.str decryptedStr)
    else .ok packed
  | _ => .ok packed

/-! ## 3. Records -/

/-- A row of the database. -/
abbrev Row := JsMap String Value

/-- A field of a row goes through `f`, if it is there and is not `null`. -/
def onField (f : Value → Except Err Value) (result : Row) (field : String) : Except Err Row :=
  match result.get? field with
  | none => .ok result
  | some value => if Nullish value then .ok result else (f value).map (result.set field)

/-- `encryptRecord`, with the initialisation vectors it draws. -/
def encryptRecord (s : Settings) (customKey : Option String) : (ℕ → Iv) → Row → List String →
    Except Err Row
  | _, row, [] => .ok row
  | draws, row, field :: fields => do
    let result ← onField (encrypt C s customKey (draws 0)) row field
    encryptRecord s customKey (fun n => draws (n + 1)) result fields

/-- `decryptRecord`, of given fields or, where none are given, of those that are encrypted. -/
def decryptRecord (s : Settings) (customKey : Option String) (parseJson : Bool) (row : Row)
    (fields : Option (List String)) : Except Err Row :=
  match fields with
  | some (field :: fields) =>
    (field :: fields).foldlM (onField (decrypt C s customKey parseJson)) row
  | _ =>
    (row.keys.filter fun key => ((row.get? key).map isEncrypted).getD false).foldlM
      (onField (decrypt C s customKey parseJson)) row

/-! ## 4. One value -/

variable {C} {s s' s₁ s₁' : Settings} {customKey : Option String} {key : Key} {iv : Iv}

theorem isEncrypted_pack (plaintext : String) :
    isEncrypted (some (.str (pack C key iv plaintext))) = true := by
  simp only [isEncrypted, pack, String.toList_ofList]
  exact List.isPrefixOf_iff_prefix.mpr (List.prefix_append _ _)

theorem openPayload_pack (hopens : C.Opens) (hkey : deriveKey C s customKey = .ok (key, s₁))
    (plaintext : String) :
    openPayload C s customKey ((pack C key iv plaintext).toList.drop PREFIX.length) = .ok plaintext := by
  have hcolon : ∀ bytes, ':' ∉ base64 bytes := not_mem_base64 (by rw [alphabet_eq]; decide) (by decide)
  rw [pack, String.toList_ofList, List.drop_left, openPayload, split_cons (hcolon _),
    split_cons (hcolon _), split_part (hcolon _)]
  simp only [hkey, ofBase64_base64]
  change (match C.aes256gcmOpen key iv.bytes _ _ with
    | some decryptedBuf => Except.ok (Utf8.decode decryptedBuf)
    | none => Except.error _) = _
  rw [hopens]
  simp only [Utf8.decode_encode]

theorem encrypt_plain (hkey : deriveKey C s customKey = .ok (key, s₁)) {v : String}
    (hv : isEncrypted (some (.str v)) = false) :
    encrypt C s customKey iv (some (.str v)) = .ok (some (.str (pack C key iv v))) := by
  simp only [encrypt, hv, hkey]
  rfl

theorem encrypt_encrypted {v : Value} (hv : isEncrypted v = true) :
    encrypt C s customKey iv v = .ok v := by
  cases v with
  | none => cases hv
  | some v =>
    cases v with
    | str text => simp only [encrypt, hv, if_pos]
    | null => cases hv
    | bool => cases hv
    | num => cases hv
    | arr => cases hv
    | obj => cases hv

theorem decrypt_plain {v : Value} (hv : isEncrypted v = false) :
    decrypt C s customKey false v = .ok v := by
  rw [decrypt.eq_def]
  split
  · rw [hv]
    rfl
  · rfl

theorem decrypt_pack (hopens : C.Opens) (hkey : deriveKey C s customKey = .ok (key, s₁)) (v : String) :
    decrypt C s customKey false (some (.str (pack C key iv v))) = .ok (some (.str v)) := by
  rw [decrypt, isEncrypted_pack, if_pos rfl, openPayload_pack hopens hkey]
  rfl

theorem pack_ne {v : String} (hv : isEncrypted (some (.str v)) = false) : pack C key iv v ≠ v := by
  intro heq
  have hpack : isEncrypted (some (.str (pack C key iv v))) = true := isEncrypted_pack v
  rw [heq, hv] at hpack
  cases hpack

/-! ## 5. Records -/

/-- What a field is asked to hold: nothing, or a text that does not look encrypted. -/
def Storable (value : Value) : Prop :=
  Nullish value = true ∨ ∃ v : String, value = some (.str v) ∧ isEncrypted value = false

/-- A row between the two: its fields are as they were, or they are among these ones and encrypted. -/
def Between (C : Crypto) (key : Key) (fields : List String) (row result : Row) : Prop :=
  result.keys = row.keys ∧ ∀ field, result.get? field = row.get? field ∨
    field ∈ fields ∧ ∃ v iv, row.get? field = some (some (.str v)) ∧
      result.get? field = some (some (.str (pack C key iv v)))

variable {fields : List String} {row result : Row} {field : String}

theorem Between.set (h : Between C key fields row result) {value : Value}
    (hmem : field ∈ result.keys)
    (hvalue : some value = row.get? field ∨ field ∈ fields ∧ ∃ v iv,
      row.get? field = some (some (.str v)) ∧ value = some (.str (pack C key iv v))) :
    Between C key fields row (result.set field value) := by
  obtain ⟨hkeys, hfields⟩ := h
  refine ⟨(JsMap.keys_set_of_mem hmem).trans hkeys, fun k => ?_⟩
  by_cases hk : k = field
  · subst hk
    rw [JsMap.get?_set_self]
    rcases hvalue with hvalue | ⟨hin, v, iv, hrow, rfl⟩
    · exact Or.inl hvalue
    · exact Or.inr ⟨hin, v, iv, hrow, rfl⟩
  · rw [JsMap.get?_set_of_ne hk]
    exact hfields k

/-- A field that is encrypted. -/
theorem Between.encrypt (h : Between C key fields row result)
    (hkey : deriveKey C s customKey = .ok (key, s₁)) (hin : field ∈ fields)
    (hrow : ∀ value ∈ row.get? field, Storable value) (iv : Iv) :
    ∃ result', onField (Encryption.encrypt C s customKey iv) result field = .ok result' ∧
      Between C key fields row result' := by
  rw [onField]
  cases hget : result.get? field with
  | none => exact ⟨result, rfl, h⟩
  | some value =>
    have hmem := JsMap.mem_keys_of_get? hget
    cases hnull : Nullish value with
    | true => exact ⟨result, by simp only [hnull, if_pos], h⟩
    | false =>
      simp only [hnull, Bool.false_eq_true, if_false]
      rcases h.2 field with hsame | ⟨-, v, iv', hv, hpacked⟩
      · rw [hget] at hsame
        rcases hrow value (Option.mem_def.mpr hsame.symm) with hnull' | ⟨v, rfl, hv⟩
        · rw [hnull] at hnull'
          cases hnull'
        · rw [encrypt_plain hkey hv]
          exact ⟨_, rfl, h.set hmem (Or.inr ⟨hin, v, iv, hsame.symm, rfl⟩)⟩
      · obtain rfl := Option.some.inj (hget.symm.trans hpacked)
        rw [encrypt_encrypted (isEncrypted_pack v)]
        exact ⟨_, rfl, h.set hmem (Or.inr ⟨hin, v, iv', hv, rfl⟩)⟩

theorem Between.narrow (h : Between C key (field :: fields) row result)
    (hsame : result.get? field = row.get? field) : Between C key fields row result := by
  refine ⟨h.1, fun k => ?_⟩
  rcases h.2 k with hk | ⟨hin, hk⟩
  · exact Or.inl hk
  · rcases List.mem_cons.mp hin with rfl | hin
    · exact Or.inl hsame
    · exact Or.inr ⟨hin, hk⟩

theorem Between.restore (h : Between C key (field :: fields) row result) {value : Value}
    (hmem : field ∈ result.keys) (hrow : row.get? field = some value) :
    Between C key fields row (result.set field value) :=
  (h.set hmem (Or.inl hrow.symm)).narrow (by rw [JsMap.get?_set_self, hrow])

/-- A field that is decrypted. -/
theorem Between.decrypt (hopens : C.Opens) (h : Between C key (field :: fields) row result)
    (hkey : deriveKey C s customKey = .ok (key, s₁))
    (hrow : ∀ value ∈ row.get? field, Storable value) :
    ∃ result', onField (Encryption.decrypt C s customKey false) result field = .ok result' ∧
      Between C key fields row result' := by
  rw [onField]
  rcases h.2 field with hsame | ⟨-, v, iv, hv, hpacked⟩
  · cases hget : result.get? field with
    | none => exact ⟨result, rfl, h.narrow hsame⟩
    | some value =>
      have hmem := JsMap.mem_keys_of_get? hget
      have hvalue := hsame.symm.trans hget
      cases hnull : Nullish value with
      | true => exact ⟨result, by simp only [hnull, if_pos], h.narrow hsame⟩
      | false =>
        simp only [hnull, Bool.false_eq_true, if_false]
        rcases hrow value (Option.mem_def.mpr hvalue) with hnull' | ⟨v, rfl, hv⟩
        · rw [hnull] at hnull'
          cases hnull'
        · rw [decrypt_plain hv]
          exact ⟨_, rfl, h.restore hmem hvalue⟩
  · have hmem := JsMap.mem_keys_of_get? hpacked
    simp only [hpacked, Nullish, Bool.false_eq_true, if_false]
    rw [decrypt_pack hopens hkey]
    exact ⟨_, rfl, h.restore hmem hv⟩

theorem Between.encryptRecord (hkey : deriveKey C s customKey = .ok (key, s₁))
    {rest : List String} (hrest : rest ⊆ fields)
    (hrow : ∀ field ∈ fields, ∀ value ∈ row.get? field, Storable value)
    (h : Between C key fields row result) (draws : ℕ → Iv) :
    ∃ result', Encryption.encryptRecord C s customKey draws result rest = .ok result' ∧
      Between C key fields row result' := by
  induction rest generalizing result draws with
  | nil => exact ⟨result, rfl, h⟩
  | cons field rest ih =>
    obtain ⟨hin, hrest⟩ := List.cons_subset.mp hrest
    obtain ⟨result₁, hfirst, h₁⟩ := h.encrypt hkey hin (hrow field hin) (draws 0)
    obtain ⟨result', hothers, h'⟩ := ih hrest h₁ fun n => draws (n + 1)
    refine ⟨result', ?_, h'⟩
    rw [Encryption.encryptRecord, hfirst]
    exact hothers

theorem Between.decryptFields (hopens : C.Opens) (hkey : deriveKey C s customKey = .ok (key, s₁))
    (hrow : ∀ field ∈ fields, ∀ value ∈ row.get? field, Storable value)
    (h : Between C key fields row result) :
    fields.foldlM (onField (Encryption.decrypt C s customKey false)) result = .ok row := by
  induction fields generalizing result with
  | nil =>
    have heq : result = row := JsMap.ext_get? h.1 fun k => by
      rcases h.2 k with hk | ⟨hin, -⟩
      · exact hk
      · cases hin
    rw [heq]
    rfl
  | cons field fields ih =>
    obtain ⟨result₁, hfirst, h₁⟩ := h.decrypt hopens hkey (hrow field List.mem_cons_self)
    rw [List.foldlM_cons, hfirst]
    exact ih (fun k hk => hrow k (List.mem_cons_of_mem field hk)) h₁

theorem decryptRecord_encryptRecord (hopens : C.Opens) (hkey : deriveKey C s customKey = .ok (key, s₁))
    (hkey' : deriveKey C s' customKey = .ok (key, s₁')) (hne : fields ≠ [])
    (hrow : ∀ field ∈ fields, ∀ value ∈ row.get? field, Storable value) (draws : ℕ → Iv) :
    ∃ result, encryptRecord C s customKey draws row fields = .ok result ∧
      decryptRecord C s' customKey false result (some fields) = .ok row := by
  have hstart : Between C key fields row row := ⟨rfl, fun _ => Or.inl rfl⟩
  obtain ⟨result, hresult, h⟩ := hstart.encryptRecord hkey (List.Subset.refl fields) hrow draws
  refine ⟨result, hresult, ?_⟩
  obtain ⟨field, rest, rfl⟩ := List.exists_cons_of_ne_nil hne
  exact h.decryptFields hopens hkey' hrow

/-- **What was encrypted is read back**, one value or the fields of a record, if no text among them looks
encrypted; one that does stays as it is. -/
theorem roundTrip (hopens : C.Opens) (hkey : deriveKey C s customKey = .ok (key, s₁))
    (hkey' : deriveKey C s' customKey = .ok (key, s₁')) :
    (∀ (v : String) (iv : Iv), isEncrypted (some (.str v)) = false → ∃ packed : String,
      encrypt C s customKey iv (some (.str v)) = .ok (some (.str packed)) ∧ packed ≠ v ∧
        decrypt C s' customKey false (some (.str packed)) = .ok (some (.str v))) ∧
      (∀ (v : String) (iv : Iv), isEncrypted (some (.str v)) = true →
        encrypt C s customKey iv (some (.str v)) = .ok (some (.str v))) ∧
      ∀ (row : Row) (fields : List String) (draws : ℕ → Iv), fields ≠ [] →
        (∀ field ∈ fields, ∀ value ∈ row.get? field, Storable value) →
          ∃ result, encryptRecord C s customKey draws row fields = .ok result ∧
            decryptRecord C s' customKey false result (some fields) = .ok row := by
  refine ⟨fun v iv hv => ?_, fun v iv hv => encrypt_encrypted hv, fun row fields draws hne hrow => ?_⟩
  · exact ⟨pack C key iv v, encrypt_plain hkey hv, pack_ne hv, decrypt_pack hopens hkey' v⟩
  · exact decryptRecord_encryptRecord hopens hkey hkey' hne hrow draws

/-! ## 6. Runs -/

theorem length_sampleKey : (List.replicate 32 (0 : UInt8)).length = 32 := rfl

theorem length_sampleIv : (List.replicate 12 (1 : UInt8)).length = 12 := rfl

def sampleIv : Iv := ⟨List.replicate 12 1, length_sampleIv⟩

/-- A cipher that inverts every bit, with a tag of sixteen zeros. -/
def sampleCrypto : Crypto where
  sha256 _ := ⟨List.replicate 32 0, length_sampleKey⟩
  aes256gcm _ _ plaintext := (plaintext.map (~~~ ·), List.replicate 16 0)
  aes256gcmOpen _ _ ciphertext authTag :=
    if authTag = List.replicate 16 0 then some (ciphertext.map (~~~ ·)) else none

theorem sampleCrypto_opens : sampleCrypto.Opens := by
  intro key iv plaintext
  simp [sampleCrypto, List.map_map, Function.comp_def]

def sampleSettings : Settings := ⟨"k", "k", some "k", true, none⟩

/-- A row with a text and with `null`. -/
def sampleRow : Row := (JsMap.empty.set "email" (some (.str "a:b"))).set "phone" (some .null)

/-- Its fields, and one that it does not have. -/
theorem roundTrip_sample :
    ∃ result, encryptRecord sampleCrypto sampleSettings none (fun _ => sampleIv) sampleRow
        ["email", "phone", "pin"] = .ok result ∧
      decryptRecord sampleCrypto sampleSettings none false result (some ["email", "phone", "pin"]) =
        .ok sampleRow := by
  refine (@roundTrip sampleCrypto sampleSettings sampleSettings _ _ none _
    sampleCrypto_opens rfl rfl).2.2 sampleRow _ _ (by decide) ?_
  intro field hfield value hvalue
  simp only [List.mem_cons, List.not_mem_nil, or_false] at hfield
  rcases hfield with rfl | rfl | rfl
  · cases hvalue
    exact Or.inr ⟨"a:b", rfl, by decide⟩
  · cases hvalue
    exact Or.inl rfl
  · cases hvalue

/-- A text with the prefix is stored as it is, and not read back. -/
theorem prefixed_lost :
    ¬ ∀ (C : Crypto) (s : Settings), C.Opens → ∀ (iv : Iv) (v : String), ∃ packed : String,
      encrypt C s none iv (some (.str v)) = .ok (some (.str packed)) ∧ packed ≠ v ∧
        decrypt C s none false (some (.str packed)) = .ok (some (.str v)) := by
  intro h
  obtain ⟨packed, hpacked, hne, -⟩ := h sampleCrypto sampleSettings sampleCrypto_opens sampleIv "enc:v1:x"
  have hsame : encrypt sampleCrypto sampleSettings none sampleIv (some (.str "enc:v1:x")) =
    .ok (some (.str "enc:v1:x")) := rfl
  cases hsame.symm.trans hpacked
  exact hne rfl

end SmartDrop.Encryption
