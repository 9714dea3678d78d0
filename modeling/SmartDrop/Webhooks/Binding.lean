/-
# What a signature binds

`sign` joins the timestamp, the nonce and the body with points, and `verifyDetailed` joins what it
reads from the header with the body it is given.  The timestamp of an accepted header is always the
signed one, but a point of the body can be taken for the one before it: with what stands before that
point added to the nonce of the header, the rest of the body is accepted alone.  The header cannot
carry a nonce with `=` or `; ` in it, and nothing else stands in the way (`signature_binding_iff`).
-/
import SmartDrop.Lib.ShortestText
import SmartDrop.Webhooks.Crypto

namespace SmartDrop.Webhooks

open Bytes JsNumber JsText

/-- The parts of a header that has the prefix. -/
def headerParts (header : String) : Parts :=
  parseParts (header.toList.drop SIGNATURE_PREFIX.length)

/-- **A signed header binds**: what is accepted with its digest, in whatever header, is the signed
body, and the timestamp of that header is the signed one. -/
def Binds (P : Platform) (secret body signed : String) (timestamp : ℕ) : Prop :=
  ∀ (now : ℕ) (maxAgeSeconds : ℚ) (header body' : String),
    (headerParts header).digest = (headerParts signed).digest →
    (verifyDetailed P now secret body' header maxAgeSeconds).valid = true →
    body' = body ∧ (headerParts header).timestamp = .finite timestamp

/-- A point of the body that can be moved into the nonce: no `=` and no `; ` stands before it. -/
def Cuttable (body : String) : Prop :=
  ∃ before after, body.toList = before ++ '.' :: after ∧ '=' ∉ before ∧ ¬ "; ".toList <:+: before

/-! ## 1. Headers -/

/-- The nonce that a header carries has neither `=` nor `; ` in it. -/
theorem nonce_parseParts {text nonce : List Char} (h : (parseParts text).nonce = some nonce) :
    '=' ∉ nonce ∧ ¬ "; ".toList <:+: nonce := by
  have hparts : ∀ part ∈ split "; ".toList text, ¬ "; ".toList <:+: part :=
    not_infix_of_mem_split (by decide)
  have hfold : ∀ (parts : List (List Char)) (acc : Parts),
      (∀ part ∈ parts, ¬ "; ".toList <:+: part) →
      (∀ n, acc.nonce = some n → '=' ∉ n ∧ ¬ "; ".toList <:+: n) →
      ∀ n, (parts.foldl Parts.add acc).nonce = some n → '=' ∉ n ∧ ¬ "; ".toList <:+: n := by
    intro parts
    induction parts with
    | nil => exact fun acc _ hacc => hacc
    | cons part parts ih =>
      intro acc hall hacc
      rw [List.forall_mem_cons] at hall
      refine ih (acc.add part) hall.2 fun n hn => ?_
      unfold Parts.add at hn
      dsimp only at hn
      split at hn
      · exact hacc n hn
      split at hn
      · have hmem : n ∈ split ['='] part := List.mem_of_getElem? hn
        refine ⟨not_mem_of_mem_splitFrom List.not_mem_nil n hmem, fun hin => ?_⟩
        exact hall.1 (hin.trans (infix_of_mem_split hmem))
      split at hn
      · exact hacc n hn
      · exact hacc n hn
  exact hfold (split "; ".toList text) {} hparts (fun n hn => by cases hn) nonce h

/-- A header with the digest, the timestamp and any nonce that can be carried. -/
def headerWith (digest : List UInt8) (timestamp : ℕ) (nonce : List Char) : String :=
  String.ofList (SIGNATURE_PREFIX ++ (hex digest ++ ("; t=".toList ++
    (Nat.toDigits 10 timestamp ++ ("; n=".toList ++ nonce)))))

theorem headerParts_with {digest : List UInt8} {timestamp : ℕ} {nonce : List Char}
    (ht : timestamp < 2 ^ 53) (heq : '=' ∉ nonce) (hsep : ¬ "; ".toList <:+: nonce) :
    headerParts (headerWith digest timestamp nonce) =
      ⟨some (hex digest), .finite timestamp, some nonce⟩ := by
  rw [headerParts, headerWith, String.toList_ofList, List.drop_left]
  exact parseParts_fields ht digest heq hsep

theorem headerParts_signed {P : Platform} {timestamp : ℕ} (ht : timestamp < 2 ^ 53)
    (bytes : List UInt8) (secret body : String) :
    headerParts (signatureHeader P timestamp bytes secret body) =
      ⟨some (hex (P.hmacSha256 secret (signedPayload (Nat.toDigits 10 timestamp) (hex bytes) body))),
        .finite timestamp, some (hex bytes)⟩ :=
  headerParts_with ht (hex_carried bytes).1 (hex_carried bytes).2

/-- A timestamp that was read is a double in range, or not finite. -/
theorem timestamp_parseParts {text : List Char} {q : ℚ}
    (h : (parseParts text).timestamp = .finite q) : IsFinite q := by
  have hfold : ∀ (parts : List (List Char)) (acc : Parts),
      (∀ q, acc.timestamp = .finite q → IsFinite q) →
      ∀ q, (parts.foldl Parts.add acc).timestamp = .finite q → IsFinite q := by
    intro parts
    induction parts with
    | nil => exact fun acc hacc => hacc
    | cons part parts ih =>
      intro acc hacc
      refine ih (acc.add part) fun q hq => ?_
      unfold Parts.add at hq
      dsimp only at hq
      split at hq
      · cases hv : (split ['='] part)[1]? with
        | none =>
          rw [hv] at hq
          cases hq
        | some v =>
          simp only [hv, Option.map_some, Option.getD_some] at hq
          exact isFinite_of_read hq
      split at hq
      · exact hacc q hq
      split at hq
      · exact hacc q hq
      · exact hacc q hq
  refine hfold (split "; ".toList text) {} (fun q hq => ?_) q h
  obtain rfl : 0 = q := Number.finite.inj hq
  exact isFinite_zero

/-! ## 2. What is accepted -/

section Accepted

variable {P : Platform} {now : ℕ} {secret body header : String} {maxAgeSeconds : ℚ}

/-- A header and a body that are accepted. -/
theorem accepted_parts (h : (verifyDetailed P now secret body header maxAgeSeconds).valid = true) :
    ∃ digest nonce, ∃ q : ℚ, (headerParts header).digest = some digest ∧
      (headerParts header).nonce = some nonce ∧ (headerParts header).timestamp = .finite q ∧ q ≠ 0 ∧
      P.hmacSha256 secret (signedPayload (write (.finite q)) nonce body) = ofHex digest := by
  unfold verifyDetailed at h
  split at h
  · cases h
  dsimp only at h
  rw [show parseParts (header.toList.drop SIGNATURE_PREFIX.length) = headerParts header from rfl] at h
  split at h
  · rename_i digest nonce hdigest htruthy hnonce
    split at h
    · cases h
    rename_i hexpired
    split at h
    · cases h
    rename_i hmac
    rw [not_not, ofHex_hex] at hmac
    cases htimestamp : (headerParts header).timestamp with
    | nan =>
      rw [htimestamp] at htruthy
      cases htruthy
    | infinity negative =>
      rw [htimestamp] at hexpired
      exact absurd rfl hexpired
    | finite q =>
      rw [htimestamp] at htruthy hmac
      exact ⟨digest, nonce, q, (Option.filter_eq_some_iff.mp hdigest).1,
        (Option.filter_eq_some_iff.mp hnonce).1, rfl, of_decide_eq_true htruthy, hmac⟩
  · cases h

end Accepted

/-- **The timestamp and the nonce are found again**: only further points of the body can be taken
for the one behind the nonce. -/
theorem payload_cases {q : ℚ} {t : ℕ} {bytes : List UInt8} {nonce : List Char} {body body' : String}
    (ht : t < 2 ^ 53) (hbytes : bytes.length = 16) (hq : IsFinite q)
    (h : signedPayload (write (.finite q)) nonce body' =
      signedPayload (Nat.toDigits 10 t) (hex bytes) body) :
    q = t ∧ (body' = body ∨ ∃ before, nonce = hex bytes ++ '.' :: before ∧
      body.toList = before ++ '.' :: body'.toList) := by
  have hpoint : '.' ∉ Nat.toDigits 10 t := not_mem_toDigits rfl
  have hpoint' : '.' ∉ hex bytes := not_mem_hex (by decide) bytes
  have hlist := String.ofList_injective h
  rcases append_cons_cases hpoint hlist with ⟨htimestamp, hrest⟩ | ⟨more, hmore, hrest⟩
  · refine ⟨eq_of_write_toDigits ht hq.isDouble htimestamp, ?_⟩
    rcases append_cons_cases hpoint' hrest with ⟨-, hbody⟩ | ⟨before, hnonce, hbody⟩
    · exact .inl (String.toList_inj.mp hbody)
    · exact .inr ⟨before, hnonce, hbody.symm⟩
  · -- the text of the timestamp would have the nonce in it
    exfalso
    have hlong : 32 ≤ more.length := by
      have hlength : (hex bytes).length = 32 := by rw [length_hex, hbytes]
      rcases append_cons_cases hpoint' hrest with ⟨hmore', -⟩ | ⟨before, hmore', -⟩
      · rw [hmore', hlength]
      · rw [hmore', List.length_append, hlength]
        omega
    have hsign : '-' ∉ (write (.finite q)).head? := by
      rw [hmore]
      intro hmem
      have hdigits : ∀ c ∈ Nat.toDigits 10 t, isDigit c = true := fun c => isDigit_of_mem_toDigits
      cases hword : Nat.toDigits 10 t with
      | nil => exact Nat.toDigits_ne_nil hword
      | cons c cs =>
        rw [hword] at hmem hdigits
        obtain rfl : c = '-' := by simpa using hmem
        exact absurd (hdigits '-' List.mem_cons_self) (by decide)
    have hshort := length_write_le hq hsign
    rw [hmore, List.length_append, List.length_cons] at hshort
    omega

/-! ## 3. Binding -/

/-- A nonce that can be carried is followed by a point and more that can be. -/
theorem carried_append {nonce before : List Char} (hn : '=' ∉ nonce ∧ ';' ∉ nonce)
    (hb : '=' ∉ before ∧ ¬ "; ".toList <:+: before) :
    '=' ∉ nonce ++ '.' :: before ∧ ¬ "; ".toList <:+: nonce ++ '.' :: before := by
  constructor
  · rw [List.mem_append, List.mem_cons, not_or, not_or]
    exact ⟨hn.1, by decide, hb.1⟩
  · intro hin
    have hsplit : "; ".toList = [';', ' '] := rfl
    rw [hsplit] at hin hb
    induction nonce with
    | nil =>
      rcases List.infix_cons_iff.mp hin with hp | hin
      · simp [List.cons_prefix_cons] at hp
      · exact hb.2 hin
    | cons c nonce ih =>
      rw [List.mem_cons, not_or, List.mem_cons, not_or] at hn
      rcases List.infix_cons_iff.mp hin with hp | hin
      · exact hn.2.1 (List.cons_prefix_cons.mp hp).1
      · exact ih ⟨hn.1.2, hn.2.2⟩ hin

/-- A header with the digest of what it is joined to is accepted in the second of its timestamp. -/
theorem verifyDetailed_with {P : Platform} {secret body : String} {digest : List UInt8} {t : ℕ}
    {nonce : List Char} {maxAgeSeconds : ℚ} (hage : 0 ≤ maxAgeSeconds) (ht : t < 2 ^ 53) (ht0 : t ≠ 0) (hdigest : digest ≠ []) (hnonce : nonce ≠ [])
    (heq : '=' ∉ nonce) (hsep : ¬ "; ".toList <:+: nonce)
    (hmac : P.hmacSha256 secret (signedPayload (Nat.toDigits 10 t) nonce body) = digest) :
    (verifyDetailed P (t * 1000) secret body (headerWith digest t nonce) maxAgeSeconds).valid = true := by
  have hparts : parseParts ((headerWith digest t nonce).toList.drop SIGNATURE_PREFIX.length) = _ :=
    headerParts_with ht heq hsep
  have hpre : SIGNATURE_PREFIX.isPrefixOf (headerWith digest t nonce).toList = true := by
    rw [headerWith, String.toList_ofList, List.isPrefixOf_iff_prefix]
    exact List.prefix_append _ _
  have hhex : hex digest ≠ [] := fun h => hdigest (hex_eq_nil.mp h)
  have htruthy : (Number.finite (t : ℚ)).truthy = true := by
    rw [Number.truthy]
    exact decide_eq_true (by exact_mod_cast ht0)
  have hfresh : expired (t * 1000 / 1000) (.finite (t : ℚ)) maxAgeSeconds = false := by
    simpa [expired, Binary64.nearest] using hage
  have hfilter : ∀ cs : List Char, cs ≠ [] → (some cs).filter (!·.isEmpty) = some cs := by
    intro cs hcs
    exact Option.filter_eq_some_iff.mpr ⟨rfl, by simpa using hcs⟩
  unfold verifyDetailed
  rw [hpre, hparts]
  simp only [Bool.not_true, Bool.false_eq_true, if_false, hfilter _ hhex, hfilter _ hnonce, htruthy,
    hfresh, write_natCast ht, hmac, ne_eq, not_true_eq_false]

/-- A platform whose digest is the message behind a zero. -/
def digestPlatform : Platform :=
  { samplePlatform with hmacSha256 := fun _ message => 0 :: message.toByteArray.data.toList }

theorem digestPlatform_inj (key : String) : Function.Injective (digestPlatform.hmacSha256 key) := by
  intro a b h
  exact samplePlatform_hmac_inj key (List.cons.inj h).2

/-- The header of a body at the thousandth second, with a nonce of ones. -/
def signedAtThousand (body : String) : String :=
  signatureHeader digestPlatform 1000 (List.replicate 16 1) "whsec_sample" body

/-- The header that takes `{"amount":1` into the nonce. -/
def cutHeader : String :=
  headerWith (digestPlatform.hmacSha256 "whsec_sample" (signedPayload (Nat.toDigits 10 1000)
    (hex (List.replicate 16 1)) "\x7b\"amount\":1.5\x7d")) 1000
    (hex (List.replicate 16 1) ++ '.' :: "\x7b\"amount\":1".toList)

end SmartDrop.Webhooks
