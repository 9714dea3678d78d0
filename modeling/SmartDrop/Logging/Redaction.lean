/-
# Redaction of log records

`services/logRedaction.js`.  The value of a sensitive key is replaced by `[REDACTED]`, or by `whsec_****`
if it is a webhook secret under a key that says so; what stands under the keys of bodies, cookies,
passwords and authorization headers is replaced as a whole.  A structure under another sensitive key is
walked instead, "so each leaf is redacted by shape/key": its fields are treated by their own keys, as
anywhere else.

So two records give one output if they differ in the values of sensitive keys, in the strings of an array
there, in anything below the keys that are redacted entirely, or in what the patterns hide
(`redactInfo_alike`); but not if they differ in what a structure under `token` has under a key of its own
(`nested_leaks`).
-/
import Mathlib
import SmartDrop.Lib.Json
import SmartDrop.Lib.JsText

namespace SmartDrop.LogRedaction

open JsText JsonText

/-! ## 1. Keys -/

def SENSITIVE_KEYS : List String :=
  ["apikey", "privatekey", "secret", "token", "authorization", "password", "passwd", "cookie", "cookies",
    "setcookie", "body", "reqbody", "requestbody", "credential", "credentials", "jwt", "session",
    "bearer"]

def ENTIRELY_REDACTED_KEYS : List String :=
  ["body", "reqbody", "requestbody", "authorization", "cookie", "cookies", "setcookie", "password",
    "passwd"]

/-- `toLowerCase()` where it gives a letter of ASCII: U+212A, the Kelvin sign, becomes a `k`. -/
def lower (c : Char) : Char :=
  if isUpper c then Char.ofNat (c.toNat + 32) else if c.toNat = 0x212A then 'k' else c

def normKey (key : String) : List Char := (key.toList.map lower).filter fun c => c != '_' && c != '-'

def isSensitiveKey (key : String) : Bool :=
  SENSITIVE_KEYS.any fun k => decide (k.toList <:+: normKey key)

def isEntirelyRedactedKey (key : String) : Bool :=
  ENTIRELY_REDACTED_KEYS.any fun k => decide (k.toList <:+: normKey key)

theorem isSensitiveKey_of_entirely {key : String} (h : isEntirelyRedactedKey key = true) :
    isSensitiveKey key = true := by
  obtain ⟨k, hk, hin⟩ := List.any_eq_true.mp h
  have hsubset : ENTIRELY_REDACTED_KEYS ⊆ SENSITIVE_KEYS := by decide
  exact List.any_eq_true.mpr ⟨k, hsubset hk, hin⟩

/-! ## 2. Patterns -/

/-- `text.replace(pattern, …)` for a global pattern, from here on: `matchAt` gives the length of a match
here and its replacement, and `skip` characters of the last match are still to be passed over. -/
def replaceFrom (matchAt : List Char → Option (ℕ × List Char)) : ℕ → List Char → List Char
  | _, [] => []
  | skip + 1, _ :: cs => replaceFrom matchAt skip cs
  | 0, c :: cs =>
    match matchAt (c :: cs) with
    | some (length, replacement) => replacement ++ replaceFrom matchAt (length - 1) cs
    | none => c :: replaceFrom matchAt 0 cs

def isHexDigit (c : Char) : Bool := JsText.isDigit c || ('a' ≤ c && c ≤ 'f') || ('A' ≤ c && c ≤ 'F')

/-- The text begins with this one, in any case of the letters of ASCII. -/
def startsWithAnyCase (pattern cs : List Char) : Bool :=
  (cs.take pattern.length).map (fun c => if isUpper c then Char.ofNat (c.toNat + 32) else c) == pattern

/-- `WHSEC_RE`, with its replacement. -/
def WHSEC_RE (cs : List Char) : Option (ℕ × List Char) :=
  let digits := (cs.drop 6).takeWhile isHexDigit
  if startsWithAnyCase "whsec_".toList cs && digits != [] then
    some (6 + digits.length, "whsec_****".toList)
  else none

/-- The names of query parameters that hold secrets. -/
def QUERY_SECRETS : List String :=
  ["token", "secret", "key", "api_key", "password", "auth", "sig", "signature", "access_token",
    "credential", "session"]

/-- `QUERY_SECRET_RE`, with its replacement, which keeps the name of the parameter. -/
def QUERY_SECRET_RE (cs : List Char) : Option (ℕ × List Char) :=
  match cs with
  | [] => none
  | c :: rest =>
    if c == '?' || c == '&' then
      match QUERY_SECRETS.find? fun name => startsWithAnyCase (name.toList ++ ['=']) rest with
      | some name =>
        let start := name.toList.length + 2
        let value := (cs.drop start).takeWhile fun d => !(d == '&' || d == '#' || JsText.isSpace d)
        if value ≠ [] then some (start + value.length, cs.take start ++ "[REDACTED]".toList) else none
      | none => none
    else none

/-- `\r` and `\n` are written out. -/
def escapeBreaks (cs : List Char) : List Char :=
  cs.flatMap fun c => if c = '\r' then ['\\', 'r'] else if c = '\n' then ['\\', 'n'] else [c]

def scanString (value : String) : String :=
  String.ofList (escapeBreaks (replaceFrom QUERY_SECRET_RE 0 (replaceFrom WHSEC_RE 0 value.toList)))

/-! ## 3. Redaction -/

/-- `redactValue` of a string. -/
def redactValue (value key : String) : String :=
  if "secret".toList <:+: normKey key ∧ "whsec_".toList <+: value.toList then "whsec_****"
  else "[REDACTED]"

mutual

/-- A value under an ordinary key, or in an ordinary array. -/
def redactOrdinary : Json → Json
  | .str s => .str (scanString s)
  | .arr xs => .arr (redactElements xs)
  | .obj fields => .obj (redactFields fields)
  | v => v

/-- `redact`, of the elements of an array. -/
def redactElements : List Json → List Json
  | [] => []
  | x :: xs => redactOrdinary x :: redactElements xs

/-- `redact`, of the fields of an object. -/
def redactFields : List (String × Json) → List (String × Json)
  | [] => []
  | (key, v) :: fields =>
    (key, if isSensitiveKey key then redactSensitiveValue key v else redactOrdinary v) ::
      redactFields fields

def redactSensitiveValue (key : String) : Json → Json
  | .str s => .str (if isEntirelyRedactedKey key then "[REDACTED]" else redactValue s key)
  | .arr xs => if isEntirelyRedactedKey key then .str "[REDACTED]" else .arr (redactSensitiveElements key xs)
  | .obj fields => if isEntirelyRedactedKey key then .str "[REDACTED]" else .obj (redactFields fields)
  | _ => .str "[REDACTED]"

/-- The elements of an array under a sensitive key. -/
def redactSensitiveElements (key : String) : List Json → List Json
  | [] => []
  | .str s :: xs => .str (redactValue s key) :: redactSensitiveElements key xs
  | x :: xs => redactOrdinary x :: redactSensitiveElements key xs

end

/-- `redactInfo`, of a record of these fields. -/
def redactInfo (info : List (String × Json)) : List (String × Json) := redactFields info

/-! ## 4. Records that look alike -/

/-- What is revealed of a string under a key: that it is a webhook secret. -/
def Reveals (key value : String) : Prop :=
  "secret".toList <:+: normKey key ∧ "whsec_".toList <+: value.toList

instance (key value : String) : Decidable (Reveals key value) := inferInstanceAs (Decidable (_ ∧ _))

/-- A value that is no structure and no string. -/
def IsPlain : Json → Prop
  | .arr _ | .obj _ | .str _ => False
  | _ => True

mutual

/-- Two values under an ordinary key. -/
inductive Alike : Json → Json → Prop
  | same (v : Json) : Alike v v
  | string {s t : String} (h : scanString s = scanString t) : Alike (.str s) (.str t)
  | array {xs ys : List Json} (h : AlikeElements xs ys) : Alike (.arr xs) (.arr ys)
  | object {fields fields' : List (String × Json)} (h : AlikeFields fields fields') :
    Alike (.obj fields) (.obj fields')

inductive AlikeElements : List Json → List Json → Prop
  | nil : AlikeElements [] []
  | cons {x y : Json} {xs ys : List Json} (h : Alike x y) (hs : AlikeElements xs ys) :
    AlikeElements (x :: xs) (y :: ys)

inductive AlikeFields : List (String × Json) → List (String × Json) → Prop
  | nil : AlikeFields [] []
  | same (field : String × Json) {fields fields' : List (String × Json)}
    (hs : AlikeFields fields fields') : AlikeFields (field :: fields) (field :: fields')
  /-- What stands under a key that is redacted entirely does not matter. -/
  | entirely {key : String} {v w : Json} {fields fields' : List (String × Json)}
    (hkey : isEntirelyRedactedKey key = true) (hs : AlikeFields fields fields') :
    AlikeFields ((key, v) :: fields) ((key, w) :: fields')
  | sensitive {key : String} {v w : Json} {fields fields' : List (String × Json)}
    (hkey : isSensitiveKey key = true) (h : AlikeSensitive key v w) (hs : AlikeFields fields fields') :
    AlikeFields ((key, v) :: fields) ((key, w) :: fields')
  | ordinary {key : String} {v w : Json} {fields fields' : List (String × Json)}
    (hkey : isSensitiveKey key = false) (h : Alike v w) (hs : AlikeFields fields fields') :
    AlikeFields ((key, v) :: fields) ((key, w) :: fields')

/-- Two values under a sensitive key. -/
inductive AlikeSensitive : String → Json → Json → Prop
  | strings {key s t : String} (h : Reveals key s ↔ Reveals key t) :
    AlikeSensitive key (.str s) (.str t)
  /-- A number, a boolean or `null` is as good as another one, or as a string that reveals nothing. -/
  | plain {key : String} {v w : Json} (hv : IsPlain v ∨ ∃ s, v = .str s ∧ ¬ Reveals key s)
    (hw : IsPlain w ∨ ∃ t, w = .str t ∧ ¬ Reveals key t) : AlikeSensitive key v w
  | array {key : String} {xs ys : List Json} (h : AlikeSensitiveElements key xs ys) :
    AlikeSensitive key (.arr xs) (.arr ys)
  | object {key : String} {fields fields' : List (String × Json)} (h : AlikeFields fields fields') :
    AlikeSensitive key (.obj fields) (.obj fields')

/-- The elements of two arrays under a sensitive key. -/
inductive AlikeSensitiveElements : String → List Json → List Json → Prop
  | nil {key : String} : AlikeSensitiveElements key [] []
  | strings {key s t : String} {xs ys : List Json} (h : Reveals key s ↔ Reveals key t)
    (hs : AlikeSensitiveElements key xs ys) :
    AlikeSensitiveElements key (.str s :: xs) (.str t :: ys)
  | others {key : String} {x y : Json} {xs ys : List Json} (hx : ∀ s, x ≠ .str s)
    (h : Alike x y) (hs : AlikeSensitiveElements key xs ys) :
    AlikeSensitiveElements key (x :: xs) (y :: ys)

end

/-! ## 5. Noninterference -/

theorem redactValue_congr {key s t : String} (h : Reveals key s ↔ Reveals key t) :
    redactValue s key = redactValue t key := by
  rw [redactValue, redactValue]
  exact if_congr h rfl rfl

/-- A value that reveals nothing. -/
theorem redactSensitiveValue_plain {key : String} {v : Json}
    (h : IsPlain v ∨ ∃ s, v = .str s ∧ ¬ Reveals key s) :
    redactSensitiveValue key v = .str "[REDACTED]" := by
  rcases h with hplain | ⟨s, rfl, hreveals⟩
  · cases v with
    | null => rfl
    | bool b => rfl
    | num n => rfl
    | str s => exact hplain.elim
    | arr xs => exact hplain.elim
    | obj fields => exact hplain.elim
  · have hvalue : redactValue s key = "[REDACTED]" := if_neg hreveals
    rw [redactSensitiveValue, hvalue, ite_self]

/-- Nothing is left of what stands under a key that is redacted entirely. -/
theorem redactSensitiveValue_entirely {key : String} (hkey : isEntirelyRedactedKey key = true)
    (v : Json) : redactSensitiveValue key v = .str "[REDACTED]" := by
  cases v with
  | null => rfl
  | bool b => rfl
  | num n => rfl
  | str s => rw [redactSensitiveValue, if_pos hkey]
  | arr xs => rw [redactSensitiveValue, if_pos hkey]
  | obj fields => rw [redactSensitiveValue, if_pos hkey]

/-- An element that is no string is redacted as elsewhere. -/
theorem redactSensitiveElements_cons {key : String} {x : Json} (hx : ∀ s, x ≠ .str s)
    (xs : List Json) : redactSensitiveElements key (x :: xs) =
      redactOrdinary x :: redactSensitiveElements key xs := by
  cases x with
  | str s => exact absurd rfl (hx s)
  | _ => rw [redactSensitiveElements]; exact hx

theorem Alike.not_string {v w : Json} (h : Alike v w) (hv : ∀ s, v ≠ .str s) : ∀ s, w ≠ .str s := by
  cases h with
  | same _ => exact hv
  | string _ => exact absurd rfl (hv _)
  | array _ => simp
  | object _ => simp

mutual

theorem redactOrdinary_alike {v w : Json} : Alike v w → redactOrdinary v = redactOrdinary w
  | .same _ => rfl
  | .string h => by rw [redactOrdinary, redactOrdinary, h]
  | .array h => by rw [redactOrdinary, redactOrdinary, redactElements_alike h]
  | .object h => by rw [redactOrdinary, redactOrdinary, redactFields_alike h]

theorem redactElements_alike {xs ys : List Json} :
    AlikeElements xs ys → redactElements xs = redactElements ys
  | .nil => rfl
  | .cons h hs => by
    rw [redactElements, redactElements, redactOrdinary_alike h, redactElements_alike hs]

theorem redactFields_alike {fields fields' : List (String × Json)} :
    AlikeFields fields fields' → redactFields fields = redactFields fields'
  | .nil => rfl
  | .same (_, _) hs => by rw [redactFields, redactFields, redactFields_alike hs]
  | .entirely hkey hs => by
    rw [redactFields, redactFields, if_pos (isSensitiveKey_of_entirely hkey),
      if_pos (isSensitiveKey_of_entirely hkey), redactSensitiveValue_entirely hkey,
      redactSensitiveValue_entirely hkey, redactFields_alike hs]
  | .sensitive hkey h hs => by
    rw [redactFields, redactFields, if_pos hkey, if_pos hkey, redactSensitiveValue_alike h,
      redactFields_alike hs]
  | .ordinary hkey h hs => by
    have hother : ¬ isSensitiveKey _ = true := Bool.eq_false_iff.mp hkey
    rw [redactFields, redactFields, if_neg hother, if_neg hother, redactOrdinary_alike h,
      redactFields_alike hs]

theorem redactSensitiveValue_alike {key : String} {v w : Json} :
    AlikeSensitive key v w → redactSensitiveValue key v = redactSensitiveValue key w
  | .strings h => by rw [redactSensitiveValue, redactSensitiveValue, redactValue_congr h]
  | .plain hv hw => by rw [redactSensitiveValue_plain hv, redactSensitiveValue_plain hw]
  | .array h => by
    rw [redactSensitiveValue, redactSensitiveValue, redactSensitiveElements_alike h]
  | .object h => by rw [redactSensitiveValue, redactSensitiveValue, redactFields_alike h]

theorem redactSensitiveElements_alike {key : String} {xs ys : List Json} :
    AlikeSensitiveElements key xs ys →
      redactSensitiveElements key xs = redactSensitiveElements key ys
  | .nil => rfl
  | .strings h hs => by
    rw [redactSensitiveElements, redactSensitiveElements, redactValue_congr h,
      redactSensitiveElements_alike hs]
  | .others hx h hs => by
    rw [redactSensitiveElements_cons hx, redactSensitiveElements_cons (h.not_string hx),
      redactOrdinary_alike h, redactSensitiveElements_alike hs]

end

/-- **Noninterference.**  Records that look alike have one output. -/
theorem redactInfo_alike (info info' : List (String × Json)) (h : AlikeFields info info') :
    redactInfo info = redactInfo info' := redactFields_alike h

/-- A key is sensitive by the `n`-th word. -/
theorem isSensitiveKey_of_word {key word : String} {ks cs : List Char} (n : ℕ)
    (hkey : key.toList = ks) (hword : SENSITIVE_KEYS[n]? = some word) (htext : word.toList = cs)
    (hin : cs <:+: (ks.map lower).filter fun c => c != '_' && c != '-') :
    isSensitiveKey key = true := by
  subst hkey htext
  exact List.any_eq_true.mpr ⟨word, List.mem_of_getElem? hword, decide_eq_true hin⟩

theorem not_reveals {key s : String} {cs : List Char} (htext : s.toList = cs)
    (hhead : cs.head? ≠ some 'w') : ¬ Reveals key s := by
  rintro ⟨-, rest, happend⟩
  rw [htext, show "whsec_".toList = ['w', 'h', 's', 'e', 'c', '_'] from String.toList_ofList] at happend
  exact hhead (happend ▸ rfl)

/-- Another token, another password in a body, and another signature in an array. -/
theorem redactInfo_alike_sample :
    redactInfo [("access_token", .str "abc"), ("body", .arr [.str "pw"]),
      ("credentials", .arr [.str "x", .obj [("jwt", .str "y")]])] =
    redactInfo [("access_token", .str "xyz"), ("body", .null),
      ("credentials", .arr [.str "z", .obj [("jwt", .null)]])] := by
  have htoken : isSensitiveKey "access_token" = true :=
    isSensitiveKey_of_word 3 String.toList_ofList rfl String.toList_ofList (by decide)
  have hcredentials : isSensitiveKey "credentials" = true :=
    isSensitiveKey_of_word 14 String.toList_ofList rfl String.toList_ofList (by decide)
  have hjwt : isSensitiveKey "jwt" = true :=
    isSensitiveKey_of_word 15 String.toList_ofList rfl String.toList_ofList (by decide)
  have hbody : isEntirelyRedactedKey "body" = true := by
    refine List.any_eq_true.mpr ⟨"body", List.mem_cons_self, decide_eq_true ?_⟩
    rw [normKey, show "body".toList = ['b', 'o', 'd', 'y'] from String.toList_ofList]
    decide
  refine redactInfo_alike _ _ (.sensitive htoken (.strings (iff_of_false
    (not_reveals String.toList_ofList (by decide)) (not_reveals String.toList_ofList (by decide))))
    (.entirely hbody (.sensitive hcredentials (.array ?_) .nil)))
  refine .strings (iff_of_false (not_reveals String.toList_ofList (by decide))
    (not_reveals String.toList_ofList (by decide))) (.others (by simp) (.object ?_) .nil)
  exact .sensitive hjwt (.plain (.inr ⟨"y", rfl, not_reveals String.toList_ofList (by decide)⟩)
    (.inl trivial)) .nil

/-! ## 6. Structures under a sensitive key -/

mutual

/-- Two values that differ only in strings and numbers beneath a sensitive key, and there not in the
prefix of a webhook secret. -/
inductive Differ : Bool → Json → Json → Prop
  | same (beneath : Bool) (v : Json) : Differ beneath v v
  | strings {s t : String} (h : "whsec_".toList <+: s.toList ↔ "whsec_".toList <+: t.toList) :
    Differ true (.str s) (.str t)
  | numbers (m n : Literal) : Differ true (.num m) (.num n)
  | array {beneath : Bool} {xs ys : List Json} (h : DifferElements beneath xs ys) :
    Differ beneath (.arr xs) (.arr ys)
  | object {beneath : Bool} {fields fields' : List (String × Json)}
    (h : DifferFields beneath fields fields') : Differ beneath (.obj fields) (.obj fields')

inductive DifferElements : Bool → List Json → List Json → Prop
  | nil {beneath : Bool} : DifferElements beneath [] []
  | cons {beneath : Bool} {x y : Json} {xs ys : List Json} (h : Differ beneath x y)
    (hs : DifferElements beneath xs ys) : DifferElements beneath (x :: xs) (y :: ys)

inductive DifferFields : Bool → List (String × Json) → List (String × Json) → Prop
  | nil {beneath : Bool} : DifferFields beneath [] []
  | cons {beneath : Bool} {key : String} {v w : Json} {fields fields' : List (String × Json)}
    (h : Differ (beneath || isSensitiveKey key) v w) (hs : DifferFields beneath fields fields') :
    DifferFields beneath ((key, v) :: fields) ((key, w) :: fields')

end

/-- A structure under a sensitive key is walked, and what stands there under an ordinary key is shown. -/
theorem nested_leaks : ¬ ∀ info info', DifferFields false info info' →
    redactInfo info = redactInfo info' := by
  intro h
  have hsensitive : isSensitiveKey "token" = true := by decide +kernel
  have hdiffer : DifferFields false [("token", .obj [("id", .str "alpha")])]
      [("token", .obj [("id", .str "beta")])] := by
    refine .cons (.object (.cons ?_ .nil)) .nil
    rw [hsensitive]
    exact .strings (by decide +kernel)
  have hsame := h _ _ hdiffer
  have hid : isSensitiveKey "id" = false := by decide +kernel
  have hentirely : isEntirelyRedactedKey "token" = false := by decide +kernel
  simp only [redactInfo, redactFields, hsensitive, hid, redactSensitiveValue, hentirely,
    redactOrdinary, if_true, Bool.false_eq_true, if_false, List.cons.injEq, Prod.mk.injEq,
    Json.obj.injEq, Json.str.injEq, true_and, and_true] at hsame
  exact absurd hsame (by decide +kernel)

end SmartDrop.LogRedaction
