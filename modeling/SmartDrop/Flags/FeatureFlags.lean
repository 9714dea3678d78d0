/-
# Feature flags

`services/featureFlags.js`: flags by their names, and who sees them.  A user that neither list names
is put into one of a hundred buckets by a hash of the flag's name and the user's id, and sees the flag
when the bucket is not above the percentage (`isEnabled`).

The hash wraps around at 32 bits with a sign, so that it can be the smallest integer, whose absolute
value is no 32-bit integer; the language takes it in its own numbers, and the bucket is in range
(`bucket_range`).  A percentage is any number, also one that `parseInt` could not read: it is not below
a hundred, so such a flag is seen by everybody (`isEnabled_unread`).
-/
import SmartDrop.Lib.JsMap
import SmartDrop.Lib.NumberOrder
import SmartDrop.Lib.UriText

namespace SmartDrop.FeatureFlags

open JsNumber

/-- A string of the language, by its code units. -/
abbrev Str : Type := List UInt16

/-- A string literal. -/
def lit (text : String) : Str := Utf16.units text.toList

/-! ## 1. The hash -/

/-- The signed 32-bit integer that a whole number wraps around to. -/
def toInt32 (n : ℤ) : ℤ := n.bmod (2 ^ 32)

theorem toInt32_range (n : ℤ) : -2 ^ 31 ≤ toInt32 n ∧ toInt32 n < 2 ^ 31 := by
  have hlo : -(((2 ^ 32 : ℕ) : ℤ) / 2) ≤ n.bmod (2 ^ 32) := Int.le_bmod (by norm_num)
  have hhi : n.bmod (2 ^ 32) < (((2 ^ 32 : ℕ) : ℤ) + 1) / 2 := Int.bmod_lt (by norm_num)
  rw [toInt32]
  constructor <;> omega

/-- The sum that one character makes of the hash, before it wraps around. -/
def mix (hash : ℤ) (char : UInt16) : ℤ := toInt32 (hash * 2 ^ 5) - hash + char.toNat

/-- `hashCode`. -/
def hashCode (str : Str) : ℤ := str.foldl (fun hash char => toInt32 (mix hash char)) 0

/-- The bucket of a string. -/
def bucket (str : Str) : ℕ := (hashCode str).natAbs % 100 + 1

theorem hashCode_append (str : Str) (char : UInt16) :
    hashCode (str ++ [char]) = toInt32 (mix (hashCode str) char) := by
  rw [hashCode, List.foldl_append]
  rfl

/-- The hash of every string is a signed 32-bit integer. -/
theorem hashCode_range (str : Str) : -2 ^ 31 ≤ hashCode str ∧ hashCode str < 2 ^ 31 := by
  rcases List.eq_nil_or_concat str with rfl | ⟨before, char, rfl⟩
  · decide
  · rw [List.concat_eq_append, hashCode_append]
    exact toInt32_range _

/-- No sum on the way leaves the integers that doubles keep. -/
theorem mix_exact (str : Str) (char : UInt16) : |mix (hashCode str) char| < 2 ^ 53 := by
  have hhash := hashCode_range str
  have hshift := toInt32_range (hashCode str * 2 ^ 5)
  have hchar := char.toNat_lt
  rw [abs_lt, mix]
  constructor <;> omega

/-- **The bucket is one of a hundred**, also that of a string whose hash is the smallest integer. -/
theorem bucket_range (str : Str) : 1 ≤ bucket str ∧ bucket str ≤ 100 := by
  have hmod : (hashCode str).natAbs % 100 < 100 := Nat.mod_lt _ (by decide)
  rw [bucket]
  omega

/-! ## 2. Flags -/

/-- A flag that is set. -/
structure Flag where
  enabled : Bool
  percentage : Number
  allowlist : List Str
  denylist : List Str
  updatedAt : ℕ

/-- What a caller gives of a flag. -/
structure Config where
  enabled : Option Bool := none
  percentage : Option Number := none
  allowlist : Option (List Str) := none
  denylist : Option (List Str) := none

/-- The flags by their names. -/
abbrev Flags : Type := JsMap Str Flag

/-- `setFlag`, at a time. -/
def setFlag (now : ℕ) (flags : Flags) (name : Str) (config : Config) : Flags :=
  flags.set name
    { enabled := config.enabled.getD true
      percentage := config.percentage.getD (.finite 100)
      allowlist := config.allowlist.getD []
      denylist := config.denylist.getD []
      updatedAt := now }

/-- The user id, unless it is missing or empty. -/
def known (userId : Option Str) : Option Str := userId.filter (· ≠ [])

/-- `isEnabled`. -/
def isEnabled (flags : Flags) (name : Str) (userId : Option Str) : Bool :=
  match flags.get? name with
  | none => false
  | some flag =>
    if !flag.enabled then false
    else
      let userId := known userId
      if userId.any flag.denylist.contains then false
      else if userId.any flag.allowlist.contains then true
      else if flag.percentage.less (.finite 100) then
        match userId with
        | none => false
        | some id => (Number.finite (bucket (name ++ lit ":" ++ id))).atMost flag.percentage
      else true

/-- The flag that a variable of the environment names: what follows `FEATURE_FLAG_` in lower case,
with hyphens. -/
def flagName (toLowerCase : Str → Str) (key : Str) : Option Str :=
  if (lit "FEATURE_FLAG_").isPrefixOf key then
    some ((toLowerCase (key.drop 13)).map fun u => if u = 0x5F then 0x2D else u)
  else none

/-- What the value of the variable says of the flag. -/
def flagConfig (value : Str) : Option Config :=
  if value = lit "true" ∨ value = lit "false" then some { enabled := some (value = lit "true") }
  else if (lit "percentage:").isPrefixOf value then
    some { enabled := some true, percentage := some (parseInt ((value.drop 11).map Utf16.single)) }
  else none

/-- One variable of the environment. -/
def initFlag (toLowerCase : Str → Str) (now : ℕ) (flags : Flags) (entry : Str × Str) : Flags :=
  match flagName toLowerCase entry.1, flagConfig entry.2 with
  | some name, some config => setFlag now flags name config
  | _, _ => flags

/-- `initFromEnv`, over the variables in their order. -/
def initFromEnv (toLowerCase : Str → Str) (now : ℕ) (env : List (Str × Str)) (flags : Flags) : Flags :=
  env.foldl (initFlag toLowerCase now) flags

/-! ## 3. Rollout -/

variable {flags : Flags} {flag : Flag} {name : Str} {userId : Option Str} {p q : Number}

/-- A percentage lets a user see a flag: everybody from a hundred on, below it those whose bucket is
not above it. -/
def Reaches (percentage : Number) (name : Str) (userId : Option Str) : Prop :=
  percentage.less (.finite 100) = true →
    ∃ id ∈ known userId, (Number.finite (bucket (name ++ lit ":" ++ id))).atMost percentage = true

/-- **Who sees a flag**: nobody if it is off, nobody on its denylist, everybody else on its allowlist,
and of the others those that its percentage reaches. -/
theorem isEnabled_iff (hflag : flags.get? name = some flag) :
    isEnabled flags name userId = true ↔ flag.enabled = true ∧
      (∀ id ∈ known userId, id ∉ flag.denylist) ∧
        ((∃ id ∈ known userId, id ∈ flag.allowlist) ∨ Reaches flag.percentage name userId) := by
  rw [isEnabled, hflag, Reaches]
  have hless : ∀ reached : Prop, (flag.percentage.less (.finite 100) = true → reached) ↔
      flag.percentage.less (.finite 100) = false ∨ reached := by
    intro reached
    rw [imp_iff_not_or, Bool.not_eq_true]
  rw [hless]
  cases known userId with
  | none =>
    cases henabled : flag.enabled <;> simp [henabled]
  | some id =>
    by_cases hdeny : id ∈ flag.denylist
    · simp [hdeny]
    · by_cases hallow : id ∈ flag.allowlist
      · simp [hdeny, hallow]
      · cases henabled : flag.enabled <;> simp [henabled, hdeny, hallow]

/-- A greater percentage reaches the same users, and perhaps more. -/
theorem Reaches.mono (hpq : p.atMost q = true) (h : Reaches p name userId) :
    Reaches q name userId := by
  intro hq
  obtain ⟨id, hid, hbucket⟩ := h (Number.less_of_atMost hpq hq)
  exact ⟨id, hid, Number.atMost_trans hbucket hpq⟩

/-- **A rollout only grows**: who sees a flag at a percentage sees it at every greater one; and the
bucket of every string is one of a hundred. -/
theorem rollout_monotone (flags : Flags) (name : Str) (flag : Flag) (userId : Option Str) (p q : Number)
    (hpq : p.atMost q = true) :
    (isEnabled (flags.set name { flag with percentage := p }) name userId = true →
      isEnabled (flags.set name { flag with percentage := q }) name userId = true) ∧
        ∀ str : Str, 1 ≤ bucket str ∧ bucket str ≤ 100 := by
  refine ⟨fun h => ?_, bucket_range⟩
  obtain ⟨henabled, hdeny, hshown⟩ := (isEnabled_iff JsMap.get?_set_self).mp h
  exact (isEnabled_iff JsMap.get?_set_self).mpr ⟨henabled, hdeny, hshown.imp_right (Reaches.mono hpq)⟩

/-- Half of the users, then three quarters. -/
theorem rollout_monotone_sample :
    (isEnabled (JsMap.empty.set (lit "new-checkout") ⟨true, .finite 50, [], [lit "eve"], 0⟩)
        (lit "new-checkout") (some (lit "alice")) = true →
      isEnabled (JsMap.empty.set (lit "new-checkout") ⟨true, .finite 75, [], [lit "eve"], 0⟩)
        (lit "new-checkout") (some (lit "alice")) = true) ∧
          ∀ str : Str, 1 ≤ bucket str ∧ bucket str ≤ 100 :=
  rollout_monotone JsMap.empty (lit "new-checkout") ⟨true, .nan, [], [lit "eve"], 0⟩ (some (lit "alice"))
    (.finite 50) (.finite 75) (by decide)

/-- A percentage that could not be read reaches everybody. -/
theorem isEnabled_unread (hflag : flags.get? name = some flag) (hnan : flag.percentage = .nan) :
    isEnabled flags name userId = true ↔
      flag.enabled = true ∧ ∀ id ∈ known userId, id ∉ flag.denylist := by
  have hall : Reaches flag.percentage name userId := by
    rw [hnan]
    intro hless
    cases hless
  rw [isEnabled_iff hflag]
  exact and_congr_right fun _ => and_iff_left (.inr hall)

/-! ## 4. Setting flags -/

variable {now : ℕ} {toLowerCase : Str → Str} {env : List (Str × Str)}

/-- A flag that is only switched on or off is seen by everybody or nobody. -/
theorem isEnabled_switch (enabled : Option Bool) :
    isEnabled (setFlag now flags name { enabled }) name userId = enabled.getD true := by
  rw [Bool.eq_iff_iff, setFlag, isEnabled_iff JsMap.get?_set_self]
  have hall : Reaches (.finite 100) name userId := by
    intro hless
    exact absurd hless (by decide)
  simp [hall]

theorem get?_initFlag {entry : Str × Str} (h : flagName toLowerCase entry.1 ≠ some name) :
    (initFlag toLowerCase now flags entry).get? name = flags.get? name := by
  rw [initFlag]
  split
  · rename_i name' config hname hconfig
    refine JsMap.get?_set_of_ne fun he => h ?_
    rw [hname, he]
  · rfl

/-- A flag that no variable names is as it was. -/
theorem get?_initFromEnv (h : ∀ entry ∈ env, flagName toLowerCase entry.1 ≠ some name) :
    (initFromEnv toLowerCase now env flags).get? name = flags.get? name := by
  rw [initFromEnv]
  induction env generalizing flags with
  | nil => rfl
  | cons entry env ih =>
    rw [List.forall_mem_cons] at h
    rw [List.foldl_cons, ih h.2, get?_initFlag h.1]

end SmartDrop.FeatureFlags
