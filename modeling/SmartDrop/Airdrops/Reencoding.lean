/-
# What expiring an airdrop does to its record

`MARK_EXPIRED_SCRIPT` decodes the record and encodes it again, and `cjson` writes numbers with
fourteen digits.  So the total and the expiry ledger of a record read back as they were only if
fourteen digits show them (`markExpired_frame_iff`); the other fields are texts and nulls, which
are kept.
-/
import Mathlib.Data.Bool.AllAny
import SmartDrop.Airdrops.Funding
import SmartDrop.Lib.Significant

namespace SmartDrop.Airdrops

open Binary64 Conc JsNumber

/-- The digits that `cjson` writes. -/
def CJSON_DIGITS : ℕ := 14

/-! ## 1. Whole numbers -/

section Integers

variable {n : ℤ}

/-- A whole number of fourteen digits or fewer. -/
theorem hasDigits_of_lt (h : n.natAbs < 10 ^ CJSON_DIGITS) : HasDigits CJSON_DIGITS |(n : ℚ)| := by
  have hsmall : n.natAbs < 2 ^ 53 := h.trans (by decide)
  refine ⟨n.natAbs, h, 0, ?_⟩
  rw [zpow_zero, mul_one, nearest_natCast hsmall, Nat.cast_natAbs, Int.cast_abs]

theorem nearest_intCast (h : n.natAbs < 2 ^ 53) : nearest n = n := by
  obtain ⟨m, rfl | rfl⟩ := n.eq_nat_or_neg
  · rw [Int.natAbs_natCast] at h
    rw [Int.cast_natCast, nearest_natCast h]
  · rw [Int.natAbs_neg, Int.natAbs_natCast] at h
    rw [Int.cast_neg, Int.cast_natCast, nearest_neg, nearest_natCast h]

/-- A whole number of more digits is written as a whole number. -/
theorem significant_intCast (h : 10 ^ CJSON_DIGITS ≤ n.natAbs) :
    ∃ w : ℤ, significant CJSON_DIGITS n = w := by
  have key : ∀ m : ℕ, 10 ^ CJSON_DIGITS ≤ m → ∃ w : ℤ, significant CJSON_DIGITS m = w := by
    intro m hm
    have hpos : (0 : ℚ) < m := by exact_mod_cast lt_of_lt_of_le (by decide) hm
    obtain ⟨-, hhi⟩ := digitsBefore_spec hpos
    have hlo : (10 : ℚ) ^ ((CJSON_DIGITS : ℕ) : ℤ) ≤ m := by
      rw [zpow_natCast]
      exact_mod_cast hm
    have hdigits := pow10_lt_iff.mp (lt_of_le_of_lt hlo hhi)
    refine ⟨roundEven (m / 10 ^ (digitsBefore m - CJSON_DIGITS)) *
      10 ^ (digitsBefore m - CJSON_DIGITS).toNat, ?_⟩
    rw [significant_of_pos hpos]
    push_cast
    rw [← zpow_natCast, Int.toNat_of_nonneg (by omega)]
  obtain ⟨m, rfl | rfl⟩ := n.eq_nat_or_neg
  · rw [Int.natAbs_natCast] at h
    rw [Int.cast_natCast]
    exact key m h
  · rw [Int.natAbs_neg, Int.natAbs_natCast] at h
    obtain ⟨w, hw⟩ := key m h
    exact ⟨-w, by rw [Int.cast_neg, Int.cast_natCast, significant_neg, hw, Int.cast_neg]⟩

/-- **A safe integer reads back** when fourteen digits show it. -/
theorem cjsonInteger_eq_iff {cjson : Double → Double}
    (hcjson : ∀ x, cjson x = .round (significant CJSON_DIGITS x.val))
    (hsafe : n.natAbs ≤ MAX_SAFE_INTEGER) :
    cjsonInteger cjson n = n ↔ HasDigits CJSON_DIGITS |(n : ℚ)| := by
  have hdouble : nearest n = n := nearest_intCast (lt_of_le_of_lt hsafe (by decide))
  have hiff : nearest (significant CJSON_DIGITS n) = n ↔ _ :=
    nearest_significant_iff hdouble (by decide) (by decide)
  have hvalue : (cjson (.round n)).val = nearest (significant CJSON_DIGITS n) := by
    rw [hcjson]
    exact congrArg (fun q => nearest (significant CJSON_DIGITS q)) hdouble
  rw [cjsonInteger, hvalue]
  constructor
  · intro hfloor
    rcases Nat.lt_or_ge n.natAbs (10 ^ CJSON_DIGITS) with hfew | hmany
    · exact hasDigits_of_lt hfew
    obtain ⟨w, hw⟩ := significant_intCast hmany
    rw [hw] at hfloor hiff
    rcases Nat.lt_or_ge w.natAbs (2 ^ 53) with hsmall | hlarge
    · rw [nearest_intCast hsmall, Int.floor_intCast] at hfloor
      rw [← hiff, hfloor, hdouble]
    · -- what is written is out of the range of safe integers, and reads as such
      exfalso
      have hceil : nearest ((2 ^ 53 : ℤ) : ℚ) = ((2 ^ 53 : ℤ) : ℚ) := by
        simpa using nearest_mul_pow2 (m := 2 ^ 53) (k := 0) (by norm_num) le_rfl (by norm_num)
      unfold MAX_SAFE_INTEGER at hsafe
      rcases le_total 0 w with hnonneg | hneg
      · have hmono := nearest_mono (p := ((2 ^ 53 : ℤ) : ℚ)) (q := w) (by exact_mod_cast (by omega))
        rw [hceil] at hmono
        have := Int.le_floor.mpr hmono
        omega
      · have hmono := nearest_mono (p := w) (q := -((2 ^ 53 : ℤ) : ℚ))
          (by exact_mod_cast (show w ≤ -(2 ^ 53) by omega))
        rw [nearest_neg, hceil] at hmono
        have hle : (⌊nearest w⌋ : ℚ) ≤ -((2 ^ 53 : ℤ) : ℚ) := (Int.floor_le _).trans hmono
        have : ⌊nearest w⌋ ≤ -(2 ^ 53) := by exact_mod_cast hle
        omega
  · intro h
    rw [hiff.mpr h, Int.floor_intCast]

end Integers

/-! ## 2. The record -/

section Record

variable {currentLedger : ℤ} {body data : CreateBody}

/-- What the create schema has checked of the numbers. -/
theorem numbers_of_accepted (h : airdropCreateBodySchema currentLedger body = .ok data) :
    0 < data.total_amount.val ∧ data.expiry_ledger.natAbs ≤ MAX_SAFE_INTEGER := by
  simp only [airdropCreateBodySchema] at h
  split at h
  · rename_i hissues
    obtain rfl := Except.ok.inj h
    simp only [expiryLedgerIssues, List.isEmpty_iff, List.append_eq_nil_iff] at hissues
    obtain ⟨⟨⟨⟨⟨-, hpos⟩, -⟩, hsafe, -⟩, -⟩, -⟩ := hissues
    exact ⟨by simpa [check] using hpos, by simpa [check] using hsafe⟩
  · cases h

/-- **Expiring an airdrop changes its status and its time, and nothing else,** exactly when fourteen
digits show its total and its expiry ledger. -/
theorem markExpired_frame_iff (P : Platform)
    (hcjson : ∀ x, P.cjsonNumber x = .round (significant CJSON_DIGITS x.val))
    (createdAtLedger currentLedger : ℤ) (body data : CreateBody) (contract : Option String)
    (id : String) (created_at updated_at t : ℕ) (status : Status) (s : Store)
    (hschema : airdropCreateBodySchema createdAtLedger body = .ok data)
    (hrecord : s.records id = some { data.draft contract id created_at updated_at with status })
    (hlive : status.terminal = false) (hpassed : data.expiry_ledger ≤ currentLedger) :
    (alone P (markExpired id currentLedger) t s).2.records id =
        some { data.draft contract id created_at t with status := .expired } ↔
      HasDigits CJSON_DIGITS data.total_amount.val ∧
        HasDigits CJSON_DIGITS |(data.expiry_ledger : ℚ)| := by
  obtain ⟨hpos, hsafe⟩ := numbers_of_accepted hschema
  have hscript : markExpiredScript P.cjsonNumber currentLedger t (s.records id) =
      some { data.draft contract id created_at t with
        total_amount := P.cjsonNumber data.total_amount
        expiry_ledger := some (cjsonInteger P.cjsonNumber data.expiry_ledger)
        status := .expired } := by
    rw [hrecord]
    simp [markExpiredScript, hlive, CreateBody.draft, hpassed.not_gt]
  have hamount : P.cjsonNumber data.total_amount = data.total_amount ↔
      HasDigits CJSON_DIGITS data.total_amount.val := by
    have hiff : nearest (significant CJSON_DIGITS data.total_amount.val) = _ ↔ _ :=
      nearest_significant_iff data.total_amount.isDouble (by decide) (by decide)
    rw [abs_of_pos hpos] at hiff
    rw [← hiff, hcjson]
    obtain ⟨val, isDouble⟩ := data.total_amount
    exact Double.mk.injEq _ _ _ _ ▸ Iff.rfl
  rw [← hamount, ← cjsonInteger_eq_iff hcjson hsafe, markExpired, alone_redis_bind, alone_redis]
  simp only [Store.exec, hscript, Function.update_self, Option.some.injEq, CreateBody.draft,
    Airdrop.mk.injEq, true_and, and_true]

/-- `cjson` as Redis has it. -/
def redisPlatform : Platform :=
  { samplePlatform with cjsonNumber := fun x => .round (significant CJSON_DIGITS x.val) }

end Record

/-! ## 3. Two airdrops -/

/-- A database with a body's record. -/
def recordStore (body : CreateBody) : Store :=
  { Store.init with
    records := Function.update Store.init.records "drop_" (body.draft none "drop_" 0 0) }

theorem sampleBody_accepted : airdropCreateBodySchema 50 sampleBody = .ok sampleBody := by
  have htrim : JsText.trim "sample" = "sample" :=
    String.toList_inj.mp ((JsText.trim_noSpace (List.all_iff_forall_prop.mp (by decide))).trans
      String.toList_ofList.symm)
  have hasset : String.ofList ((JsText.trim "XLM").toList.map JsText.upper) = "XLM" :=
    congrArg String.ofList (congrArg (List.map JsText.upper)
      (JsText.trim_noSpace (List.all_iff_forall_prop.mp (by decide))))
  have hissuer : stellarPublicKeyIssues ["asset_issuer"] sampleBody.asset_issuer = [] := by
    unfold stellarPublicKeyIssues check
    exact if_pos (isStellarPublicKey_sampleAddress (by decide))
  have hok : (airdropCreateBodySchema 50 sampleBody).isOk = true := by
    rw [airdropCreateBodySchema, hissuer]
    decide +kernel
  unfold airdropCreateBodySchema at hok ⊢
  dsimp only at hok ⊢
  split at hok
  · rename_i hissues
    rw [if_pos hissues]
    simp only [sampleBody, htrim, hasset]
  · cases hok

/-- An airdrop of 10 units that ends with ledger 100. -/
theorem markExpired_frame_iff_sample :
    (alone redisPlatform (markExpired "drop_" 100) 7 (recordStore sampleBody)).2.records "drop_" =
        some { sampleBody.draft none "drop_" 0 7 with status := .expired } ↔
      HasDigits CJSON_DIGITS sampleBody.total_amount.val ∧
        HasDigits CJSON_DIGITS |(sampleBody.expiry_ledger : ℚ)| :=
  markExpired_frame_iff redisPlatform (fun _ => rfl) 50 100 sampleBody sampleBody none "drop_" 0 0 7
    .draft (recordStore sampleBody) sampleBody_accepted rfl rfl (by decide)

/-- An airdrop of 123456789.1234567 units. -/
def longBody : CreateBody := { sampleBody with total_amount := .round (1234567891234567 / 10 ^ 7) }

/-- Its total reads back as 123456789.12346. -/
theorem long_total_damaged : (airdropCreateBodySchema 50 longBody).isOk = true ∧
    (alone redisPlatform (markExpired "drop_" 100) 7 (recordStore longBody)).2.records "drop_" =
      some { longBody.draft none "drop_" 0 7 with
        total_amount := .round (12345678912346 / 10 ^ 5), status := .expired } ∧
    longBody.total_amount ≠ .round (12345678912346 / 10 ^ 5) := by
  decide +kernel

end SmartDrop.Airdrops
