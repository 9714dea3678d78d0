/-
# Amounts as texts, as numbers and in stroops

An amount is a double.  The schemas look at its shortest text, `utils/stroops.js` at its text with
seven decimals, and the route at the double itself, so the three can differ.  What the text shows
is settled by `hasFewDecimals_plain`; with it, `stored_whole_iff` says which amounts that the route
stores are whole stroops, and `stroop_sums_exact` for which decimal amounts the sum that the create
schema checks is the exact one.
-/
import SmartDrop.Airdrops.Upload
import SmartDrop.Lib.ShortestText

namespace SmartDrop.Airdrops

open Binary64 Conc JsNumber

/-! ## 1. What the text of an amount shows -/

section Text

variable {a : Double} {q : ℚ} {int frac : List Char}

/-- The text without an exponent, of digits and perhaps a point, has few decimals when it shows seven
at most. -/
theorem hasFewDecimals_plain (h : PlainText (text a.val) int frac) :
    hasFewDecimals a = true ↔ frac.length ≤ 7 := by
  have hpoint : '.' ∉ int := fun hmem => absurd (h.int_digit '.' hmem) (by decide)
  unfold hasFewDecimals
  rw [h.text]
  split
  · rename_i hfrac
    simp [hfrac, List.idxOf_eq_length hpoint]
  · have hindex : (int ++ '.' :: frac).idxOf '.' = int.length := by
      rw [List.idxOf_append_of_notMem hpoint, List.idxOf_cons_self, Nat.add_zero]
    simp only [hindex, List.length_append, List.length_cons, Bool.or_eq_true, beq_iff_eq,
      decide_eq_true_eq]
    omega

theorem text_of_pos (h : 0 < q) : text q = positiveText q := by
  rw [text, if_neg h.ne', if_pos h]

theorem nearest_ceiling : nearest MAX_AMOUNT_UNITS = MAX_AMOUNT_UNITS := by decide +kernel

/-- The number of digits before the point of an amount under the ceiling. -/
theorem digitsBefore_le (hq : 0 < q) (hmax : q ≤ MAX_AMOUNT_UNITS) : digitsBefore q ≤ 12 := by
  obtain ⟨hlo, -⟩ := digitsBefore_spec hq
  have hlt : (10 : ℚ) ^ (digitsBefore q - 1) < 10 ^ (12 : ℤ) := by
    refine lt_of_le_of_lt (hlo.trans hmax) ?_
    norm_num [MAX_AMOUNT_UNITS, STROOPS_PER_UNIT]
  have := pow10_lt_iff.mp hlt
  omega

/-- **The shortest decimal of an amount** from `1e-6` up to the ceiling is written in full. -/
theorem point_bounds (hdouble : nearest q = q) (hlo : nearest (1 / 10 ^ 6) ≤ q)
    (hmax : q ≤ MAX_AMOUNT_UNITS) : -6 < (shortest q).point ∧ (shortest q).point ≤ 21 := by
  have hmicro : (0 : ℚ) < nearest (1 / 10 ^ 6) := by decide +kernel
  have hq : 0 < q := lt_of_lt_of_le hmicro hlo
  obtain ⟨k, j, hk, -, hj, -⟩ := shortest_candidate hq hdouble
  obtain ⟨-, hge, hle, -⟩ := candidate_point (j := j) (n := digitsBefore q) hk
  rw [← hj] at hge hle
  constructor
  · rcases le_or_gt (1 / 10 ^ 6) q with hmicro | hbelow
    · have hpow : (10 : ℚ) ^ (-6 : ℤ) ≤ q := le_trans (by norm_num) hmicro
      have := pow10_lt_iff.mp (lt_of_le_of_lt hpow (digitsBefore_spec hq).2)
      omega
    · -- the double at `1e-6`, which is a little less
      have heq : q = nearest (1 / 10 ^ 6) :=
        le_antisymm (hdouble ▸ nearest_mono hbelow.le) hlo
      rw [heq]
      decide +kernel
  · have := digitsBefore_le hq hmax
    omega

end Text

/-! ## 2. Whole stroops -/

/-- What the schema asks of an amount. -/
structure AmountOk (a : Double) : Prop where
  pos : 0 < a.val
  le : a.val ≤ MAX_AMOUNT_UNITS
  few : hasFewDecimals a = true

/-- **A whole number of stroops**: the decimal that the amount's text shows is one, between one and
the ceiling of an int64, and the route's own conversion yields one at least. -/
def WholeStroops (a : Double) : Prop :=
  (∃ n : ℕ, 1 ≤ n ∧ (n : ℤ) ≤ INT64_MAX_STROOPS ∧ readDecimal (text a.val) = some ((n : ℚ) / 10 ^ 7)) ∧
    1 ≤ routeStroops a

/-- An amount from `1e-6` on, or of one to nine stroops. -/
def NotDust (a : Double) : Prop :=
  nearest (1 / 10 ^ 6) ≤ a.val ∨ ∃ d : Fin 9, a.val = nearest (((d + 1 : ℕ) : ℚ) / 10 ^ 7)

section Stroops

variable {a : Double}

/-- The decimal of an amount is below the ceiling of an int64. -/
theorem shortest_le (hpos : 0 < a.val) (hmax : a.val ≤ MAX_AMOUNT_UNITS) :
    (shortest a.val).value * 10 ^ 7 ≤ INT64_MAX_STROOPS := by
  by_contra hgt
  have hover : (9223372036854775807 : ℚ) / 10 ^ 7 ≤ (shortest a.val).value := by
    rw [div_le_iff₀ (by positivity)]
    exact (not_le.mp hgt).le
  have hceil : (MAX_AMOUNT_UNITS : ℚ) < nearest (9223372036854775807 / 10 ^ 7) := by decide +kernel
  have := nearest_mono hover
  rw [shortest_reads hpos a.isDouble] at this
  linarith

/-- Half a stroop is rounded up. -/
theorem one_le_routeStroops (h : 1 / (2 * 10 ^ 7) ≤ a.val) : 1 ≤ routeStroops a := by
  have hhalf : nearest (1 / 2) ≤ nearest (a.val * STROOPS_PER_UNIT) := by
    refine nearest_mono ?_
    norm_num [STROOPS_PER_UNIT] at h ⊢
    linarith
  have heq : nearest (1 / 2) = 1 / 2 := by decide +kernel
  rw [routeStroops, mathRound, Int.le_floor]
  push_cast
  linarith

/-- An amount that is written in full shows a whole number of stroops. -/
theorem wholeStroops_plain (hmax : a.val ≤ MAX_AMOUNT_UNITS) (hfew : hasFewDecimals a = true)
    (hlo : nearest (1 / 10 ^ 6) ≤ a.val) : WholeStroops a := by
  have hmicro : 1 / (2 * 10 ^ 7) < nearest (1 / 10 ^ 6) := by decide +kernel
  have hpos : 0 < a.val := lt_trans (by norm_num) (lt_of_lt_of_le hmicro hlo)
  refine ⟨?_, one_le_routeStroops (hmicro.le.trans hlo)⟩
  obtain ⟨hpoint, hpoint'⟩ := point_bounds a.isDouble hlo hmax
  obtain ⟨int, frac, htext, -, hvalue⟩ :=
    positiveText_plain (shortest_normal hpos a.isDouble) hpoint hpoint'
  rw [← text_of_pos hpos] at htext
  have hseven := (hasFewDecimals_plain htext).mp hfew
  -- the digits that are not shown are zeros
  have hstroops : (shortest a.val).value * 10 ^ 7 =
      (Nat.ofDigitChars 10 (int ++ frac) 0 * 10 ^ (7 - frac.length) : ℕ) := by
    rw [← hvalue]
    push_cast
    rw [mul_assoc]
    congr 1
    rw [← zpow_natCast, ← zpow_natCast, ← zpow_add₀ (by norm_num)]
    congr 1
    omega
  refine ⟨Nat.ofDigitChars 10 (int ++ frac) 0 * 10 ^ (7 - frac.length), ?_, ?_, ?_⟩
  · have hvaluePos : 0 < (shortest a.val).value * 10 ^ 7 := by
      have := (shortest_normal hpos a.isDouble).digits_pos
      rw [Decimal.value_eq]
      have := pow10_pos ((shortest a.val).point - (shortest a.val).count)
      positivity
    rw [hstroops] at hvaluePos
    exact_mod_cast hvaluePos
  · have := shortest_le hpos hmax
    rw [hstroops] at this
    exact_mod_cast this
  · rw [htext.readDecimal, hvalue, ← hstroops, mul_div_cancel_right₀ _ (by positivity)]

/-- One to nine stroops, which are written with an exponent. -/
theorem wholeStroops_few (d : Fin 9) : WholeStroops (.round (((d + 1 : ℕ) : ℚ) / 10 ^ 7)) := by
  have hread : ∀ d : Fin 9, readDecimal (text (nearest (((d + 1 : ℕ) : ℚ) / 10 ^ 7))) =
      some (((d + 1 : ℕ) : ℚ) / 10 ^ 7) := by decide +kernel
  have hroute : ∀ d : Fin 9, 1 / (2 * 10 ^ 7) ≤ nearest (((d + 1 : ℕ) : ℚ) / 10 ^ 7) := by decide +kernel
  refine ⟨⟨d + 1, by omega, ?_, hread d⟩, one_le_routeStroops (hroute d)⟩
  have := d.isLt
  unfold INT64_MAX_STROOPS
  omega

/-- **An amount that the schema accepts is a whole number of stroops unless it is dust.** -/
theorem wholeStroops_iff (h : AmountOk a) : WholeStroops a ↔ NotDust a := by
  have hpos := h.pos
  constructor
  · rintro ⟨⟨n, hn, -, hread⟩, -⟩
    rw [text_of_pos hpos, readDecimal_positiveText (shortest_normal hpos a.isDouble)] at hread
    have hval : nearest (n / 10 ^ 7) = a.val := by
      rw [← Option.some.inj hread, shortest_reads hpos a.isDouble]
    rcases le_or_gt (nearest (1 / 10 ^ 6)) a.val with hlo | hlt
    · exact .inl hlo
    · rw [← hval] at hlt
      have hsmall := lt_of_nearest_lt hlt
      have hlt10 : (n : ℚ) < 10 := by
        rw [div_lt_iff₀ (by positivity)] at hsmall
        linarith
      have hn10 : n < 10 := by exact_mod_cast hlt10
      refine .inr ⟨⟨n - 1, by omega⟩, ?_⟩
      rw [← hval, show n - 1 + 1 = n by omega]
  · rintro (hlo | ⟨d, hd⟩)
    · exact wholeStroops_plain h.le h.few hlo
    · have heq : a = .round (((d + 1 : ℕ) : ℚ) / 10 ^ 7) := by
        cases a
        simpa only [Double.round, Double.mk.injEq] using hd
      rw [heq]
      exact wholeStroops_few d

end Stroops

/-! ## 3. What the route stores -/

/-- The elements of a list whose issues are empty have none. -/
theorem elementIssues_eq_nil {f : List Recipient → Recipient → List Issue}
    {recipients seen : List Recipient} (h : elementIssues f seen recipients = []) :
    ∀ r ∈ recipients, ∃ before, f before r = [] := by
  induction recipients generalizing seen with
  | nil => exact fun r hr => absurd hr List.not_mem_nil
  | cons r rs ih =>
    rw [elementIssues, List.append_eq_nil_iff] at h
    rw [List.forall_mem_cons]
    exact ⟨⟨seen, h.1⟩, ih h.2⟩

/-- What the schema has checked of an amount. -/
theorem amount_of_recipientIssues {path : List String} {r : Recipient}
    (h : recipientIssues path r = []) : AmountOk r.amount := by
  simp only [recipientIssues, List.append_eq_nil_iff] at h
  obtain ⟨⟨⟨-, hpos⟩, hmax⟩, hfew⟩ := h
  exact ⟨of_decide_eq_true (of_check_eq_nil hpos), of_decide_eq_true (of_check_eq_nil hmax),
    of_check_eq_nil hfew⟩

theorem amount_of_accept {valid : String → Bool} {maxRecipients : ℕ} {recipients : List Recipient}
    (h : acceptRecipients valid maxRecipients recipients = .ok ()) :
    ∀ r ∈ recipients, AmountOk r.amount := by
  have hissues : recipientsIssues [] recipients = [] := by
    by_contra hne
    rw [acceptRecipients] at h
    simp [hne, throw, throwThe, MonadExceptOf.throw, bind, Except.bind] at h
  simp only [recipientsIssues, List.append_eq_nil_iff] at hissues
  intro r hr
  obtain ⟨before, hbefore⟩ := elementIssues_eq_nil hissues.1.2 r hr
  exact amount_of_recipientIssues hbefore

/-- **What the route stores are whole stroops** exactly when no amount among it is dust. -/
theorem stored_whole_iff (P : Platform) (maxRecipients t : ℕ) (s : Store) (id : String)
    (a : Airdrop) (recipients : List Recipient) (hrecord : s.records id = some a)
    (haccept : acceptRecipients P.isValidEd25519PublicKey maxRecipients recipients = .ok ()) :
    ∃ stored, (alone P (postRecipients P maxRecipients id recipients) t s).2.recipients id =
        s.recipients id ++ stored ∧ stored = newRecipients s id recipients ∧
      ((∀ r ∈ stored, WholeStroops r.amount) ↔ ∀ r ∈ stored, NotDust r.amount) := by
  refine ⟨newRecipients s id recipients, ?_, rfl, ?_⟩
  · rw [alone_postRecipients_of_accept hrecord haccept]
    simp [appended]
  · have hiff : ∀ r ∈ newRecipients s id recipients, WholeStroops r.amount ↔ NotDust r.amount := by
      intro r hr
      exact wholeStroops_iff (amount_of_accept haccept r (List.mem_filter.mp hr).1)
    exact forall₂_congr hiff

/-- The route stores one recipient of 20 units. -/
theorem stored_whole_iff_sample : ∃ stored,
    (alone samplePlatform (postRecipients samplePlatform 10000 "drop_" oneRecipient) 0
        draftStore).2.recipients "drop_" = draftStore.recipients "drop_" ++ stored ∧
      stored = newRecipients draftStore "drop_" oneRecipient ∧
      ((∀ r ∈ stored, WholeStroops r.amount) ↔ ∀ r ∈ stored, NotDust r.amount) :=
  stored_whole_iff samplePlatform 10000 0 draftStore "drop_" (sampleBody.draft none "drop_" 0 0)
    oneRecipient rfl oneRecipient_accepted

/-- A recipient of a billionth: its text has no point, so it shows few decimals. -/
def dustRecipient : List Recipient := [⟨sampleAddress 'B', .round (1 / 10 ^ 9)⟩]

theorem dustRecipient_accepted :
    acceptRecipients samplePlatform.isValidEd25519PublicKey 10000 dustRecipient = .ok () :=
  acceptRecipients_singleton (isStellarPublicKey_sampleAddress (by decide)) rfl (by decide +kernel)
    (by decide +kernel) (by decide +kernel) (by decide +kernel)

/-- It is stored, with no stroop to it. -/
theorem dust_stored :
    (alone samplePlatform (postRecipients samplePlatform 10000 "drop_" dustRecipient) 0
        draftStore).2.recipients "drop_" = dustRecipient ∧
      ∀ r ∈ dustRecipient, routeStroops r.amount = 0 ∧ ¬ WholeStroops r.amount := by
  have hroute : routeStroops (.round (1 / 10 ^ 9)) = 0 := by decide +kernel
  constructor
  · rw [alone_postRecipients_of_accept (a := sampleBody.draft none "drop_" 0 0) rfl dustRecipient_accepted]
    simp [appended, draftStore, Store.init, newRecipients, dustRecipient]
  · intro r hr
    obtain rfl := List.mem_singleton.mp hr
    refine ⟨hroute, fun h => ?_⟩
    have := h.2
    rw [hroute] at this
    omega

/-! ## 4. Sums in stroops -/

/-- The double that a decimal of `k` stroops is read as. -/
def amountOf (k : ℕ) : Double := .round (k / 10 ^ 7)

/-- **The decimal survives its double**, which is half a stroop away at most (and less than that
above it, where `toFixed` would round up). -/
def Survives (k : ℕ) : Prop :=
  (k : ℚ) - 1 / 2 ≤ (amountOf k).val * 10 ^ 7 ∧ (amountOf k).val * 10 ^ 7 < k + 1 / 2

instance (k : ℕ) : Decidable (Survives k) :=
  inferInstanceAs (Decidable (_ ∧ _))

section Sums

variable {k : ℕ}

theorem stroops_eq_iff {a : Double} {n : ℤ} :
    stroops a = n ↔ (n : ℚ) - 1 / 2 ≤ a.val * 10 ^ 7 ∧ a.val * 10 ^ 7 < n + 1 / 2 := by
  rw [stroops, fixed, MAX_DECIMALS, Int.floor_eq_iff]
  constructor
  · rintro ⟨hlo, hhi⟩
    constructor <;> linarith
  · rintro ⟨hlo, hhi⟩
    constructor <;> linarith

/-- **The stroops of a decimal** are its own exactly when it survives. -/
theorem toStroops_amountOf (k : ℕ) : toStroops (amountOf k) = .ok (k : ℤ) ↔ Survives k := by
  have hsurvives : Survives k ↔ stroops (amountOf k) = k := by
    rw [stroops_eq_iff]
    exact Iff.rfl
  rw [hsurvives]
  constructor
  · exact fun h => (toStroops_eq h).symm
  · intro h
    have hnonneg : ¬ (amountOf k).val < 0 := not_lt.mpr (nearest_nonneg (by positivity))
    have hreads : nearest (((k : ℤ) : ℚ) / 10 ^ MAX_DECIMALS) = (amountOf k).val := by
      rw [Int.cast_natCast]
      rfl
    rw [toStroops, if_neg hnonneg, h, if_neg (not_not.mpr hreads)]

/-- Up to `2 ^ 29` units, where a double is exact to a fourth of a stroop and more. -/
theorem survives_of_small (hk : 0 < k) (hle : k ≤ 2 ^ 29 * 10 ^ 7) : Survives k := by
  have hq : (0 : ℚ) < k / 10 ^ 7 := by positivity
  have herror : |nearest (k / 10 ^ 7) - (k : ℚ) / 10 ^ 7| ≤ 2 ^ (-25 : ℤ) := by
    rcases hle.lt_or_eq with hlt | heq
    · obtain ⟨hlo, -⟩ := log2_spec hq
      have hbound : (k : ℚ) / 10 ^ 7 < 2 ^ (29 : ℤ) := by
        rw [div_lt_iff₀ (by positivity)]
        exact_mod_cast hlt
      have hlog := pow2_lt_iff.mp (lt_of_le_of_lt hlo hbound)
      refine (abs_nearest_sub_le hq).trans ?_
      have hulp : ulp ((k : ℚ) / 10 ^ 7) ≤ 2 ^ (-24 : ℤ) := by
        rw [ulp, pow2_eq_zpow]
        exact pow2_le (by omega)
      have hhalf := pow2_succ (-25)
      norm_num at hhalf hulp ⊢
      linarith
    · have hexact : nearest (((2 ^ 29 * 10 ^ 7 : ℕ) : ℚ) / 10 ^ 7) = ((2 ^ 29 * 10 ^ 7 : ℕ) : ℚ) / 10 ^ 7 := by
        decide +kernel
      rw [heq, hexact, sub_self, abs_zero]
      positivity
  rw [abs_le] at herror
  have hval : (amountOf k).val = nearest (k / 10 ^ 7) := rfl
  have hk' : (k : ℚ) = k / 10 ^ 7 * 10 ^ 7 := by field_simp
  constructor
  · rw [hval]
    norm_num at herror ⊢
    linarith
  · rw [hval]
    norm_num at herror ⊢
    linarith

/-- One stroop at least, and the ceiling at most. -/
def InRange (k : ℕ) : Prop := 0 < k ∧ k ≤ MAX_AMOUNT_UNITS * 10 ^ 7

instance (k : ℕ) : Decidable (InRange k) :=
  inferInstanceAs (Decidable (_ ∧ _))

theorem amountOf_pos (hk : 0 < k) : 0 < (amountOf k).val := by
  have hstroop : 0 < nearest (1 / 10 ^ 7) := by decide +kernel
  refine lt_of_lt_of_le hstroop (nearest_mono ?_)
  have : (1 : ℚ) ≤ k := by exact_mod_cast hk
  gcongr

theorem amountOf_le (hk : k ≤ MAX_AMOUNT_UNITS * 10 ^ 7) :
    (amountOf k).val ≤ MAX_AMOUNT_UNITS := by
  rw [← nearest_ceiling]
  refine nearest_mono ((div_le_iff₀ (by positivity)).mpr ?_)
  exact_mod_cast hk

/-- A decimal of seven digits behind the point is shown with no more, if it survives. -/
theorem hasFewDecimals_amountOf (hk : InRange k) (hs : Survives k) :
    hasFewDecimals (amountOf k) = true := by
  rcases Nat.lt_or_ge k 10 with hfew | hmany
  · have hall : ∀ d : Fin 9, hasFewDecimals (amountOf (d + 1)) = true := by decide +kernel
    have := hall ⟨k - 1, by have := hk.1; omega⟩
    rwa [show k - 1 + 1 = k by have := hk.1; omega] at this
  have hpos := amountOf_pos hk.1
  have hmax := amountOf_le hk.2
  have hlo : nearest (1 / 10 ^ 6) ≤ (amountOf k).val := by
    refine nearest_mono ?_
    have : (10 : ℚ) ≤ k := by exact_mod_cast hmany
    rw [le_div_iff₀ (by positivity)]
    linarith
  have hdouble := (amountOf k).isDouble
  obtain ⟨hpoint, hpoint'⟩ := point_bounds hdouble hlo hmax
  obtain ⟨int, frac, htext, hlength, -⟩ :=
    positiveText_plain (shortest_normal hpos hdouble) hpoint hpoint'
  rw [← text_of_pos hpos] at htext
  refine (hasFewDecimals_plain htext).mpr ?_
  obtain ⟨-, hbefore⟩ := digitsBefore_spec hpos
  have hdigits : -7 < digitsBefore (amountOf k).val := by
    have hstroop : (10 : ℚ) ^ (-7 : ℤ) ≤ nearest (1 / 10 ^ 6) := by decide +kernel
    exact pow10_lt_iff.mp (lt_of_le_of_lt (hstroop.trans hlo) hbefore)
  have := shortest_decimals (m := k) (s := 7) hpos hdouble (by omega) (by linarith [hs.1])
    (by linarith [hs.2]) rfl
  omega

end Sums

/-! ## 5. What the create schema accepts -/

/-- The create schema has nothing to say about a body but for its amounts. -/
structure RestValid (currentLedger : ℤ) (body : CreateBody) : Prop where
  name : (JsText.trim body.name).toList ≠ []
  asset : assetCodeIssues ["asset"] body.asset = []
  asset_issuer : isStellarPublicKey body.asset_issuer = true
  expiry_ledger : expiryLedgerIssues ["expiry_ledger"] currentLedger body.expiry_ledger = []
  length : body.recipients.length ≤ 10000
  address : ∀ r ∈ body.recipients, isStellarPublicKey r.address = true
  nodup : (body.recipients.map Recipient.address).Nodup

section Accepts

variable {currentLedger : ℤ} {body : CreateBody} {recipients seen : List Recipient}

/-- Elements without issues make a list without issues. -/
theorem elementIssues_of_nil {f : List Recipient → Recipient → List Issue}
    (h : ∀ r ∈ recipients, ∀ before, f before r = []) : elementIssues f seen recipients = [] := by
  induction recipients generalizing seen with
  | nil => rfl
  | cons r rs ih =>
    rw [List.forall_mem_cons] at h
    rw [elementIssues, h.1, ih h.2, List.append_nil]

/-- Addresses that are all different are not reported. -/
theorem elementIssues_duplicate {path : List String} (h : (recipients.map Recipient.address).Nodup)
    (hseen : ∀ r ∈ recipients, r.address ∉ seen.map Recipient.address) :
    elementIssues (duplicateIssue path) seen recipients = [] := by
  induction recipients generalizing seen with
  | nil => rfl
  | cons r rs ih =>
    rw [List.map_cons, List.nodup_cons] at h
    rw [List.forall_mem_cons] at hseen
    have hhead : duplicateIssue path seen r = [] := by
      have := hseen.1
      simpa [duplicateIssue, check_eq_nil_iff] using this
    rw [elementIssues, hhead, List.nil_append]
    refine ih h.2 fun r' hr' => ?_
    rw [List.map_append, List.mem_append]
    rintro (hmem | hmem)
    · exact hseen.2 r' hr' hmem
    · have heq : r'.address = r.address := by simpa using hmem
      exact h.1 (heq ▸ List.mem_map_of_mem hr')

theorem recipientIssues_of_amount {path : List String} {r : Recipient}
    (haddress : isStellarPublicKey r.address = true) (hamount : AmountOk r.amount) :
    recipientIssues path r = [] := by
  simp [recipientIssues, stellarPublicKeyIssues, check_eq_nil_iff, haddress, hamount.pos, hamount.le,
    hamount.few]

/-- A body whose amounts are fine one by one is accepted when they sum up to its total. -/
theorem accepted_iff_sum (hrest : RestValid currentLedger body) (hpos : 0 < body.total_amount.val)
    (hmax : body.total_amount.val ≤ MAX_AMOUNT_UNITS)
    (hamounts : ∀ r ∈ body.recipients, AmountOk r.amount) :
    (∃ data, airdropCreateBodySchema currentLedger body = .ok data) ↔ sumIssues body = [] := by
  have hrecipients : recipientsIssues ["recipients"] body.recipients = [] := by
    have helements : elementIssues (fun seen r => recipientIssues
        (["recipients"] ++ [toString seen.length]) r) [] body.recipients = [] := by
      refine elementIssues_of_nil fun r hr before => ?_
      exact recipientIssues_of_amount (hrest.address r hr) (hamounts r hr)
    rw [recipientsIssues, helements, elementIssues_duplicate hrest.nodup (by simp),
      check_eq_nil_iff.mpr (by simpa using hrest.length)]
    rfl
  have hname := hrest.name
  have hissuer := hrest.asset_issuer
  simp only [airdropCreateBodySchema, hrecipients, hrest.asset, hrest.expiry_ledger,
    stellarPublicKeyIssues, check_eq_nil_iff.mpr hissuer,
    check_eq_nil_iff.mpr (decide_eq_true hname), check_eq_nil_iff.mpr (decide_eq_true hpos),
    check_eq_nil_iff.mpr (decide_eq_true hmax), List.append_nil, List.nil_append, List.isEmpty_iff]
  constructor
  · rintro ⟨data, hdata⟩
    by_contra hsum
    rw [if_neg hsum] at hdata
    cases hdata
  · exact fun hsum => ⟨_, if_pos hsum⟩

/-- The exact sum of decimals that survive. -/
theorem sumStroops_of_survives {ks : List ℕ} (hks : recipients.map Recipient.amount = ks.map amountOf)
    (h : ∀ k ∈ ks, Survives k) : sumStroops recipients = .ok (ks.sum : ℤ) := by
  have hgen : ∀ (rs : List Recipient) (ks : List ℕ) (start : ℤ),
      rs.map Recipient.amount = ks.map amountOf → (∀ k ∈ ks, Survives k) →
      rs.foldlM (fun total r => return total + (← toStroops r.amount)) start =
        (.ok (start + (ks.sum : ℤ)) : Except String ℤ) := by
    intro rs
    induction rs with
    | nil =>
      intro ks start hks _
      obtain rfl : ks = [] := by simpa using hks.symm
      simp [pure, Except.pure]
    | cons r rs ih =>
      intro ks start hks h
      cases ks with
      | nil => simp at hks
      | cons k ks =>
        rw [List.map_cons, List.map_cons, List.cons.injEq] at hks
        rw [List.forall_mem_cons] at h
        have hk := (toStroops_amountOf k).mpr h.1
        rw [List.foldlM_cons, hks.1, hk]
        refine (ih ks (start + k) hks.2 h.2).trans ?_
        rw [List.sum_cons, Nat.cast_add, add_assoc]
  have := hgen recipients ks 0 hks h
  rwa [zero_add] at this

/-- **Sums of decimals** are checked exactly when the decimals survive their doubles, as all do up
to `2 ^ 29` units; a list without recipients is not checked. -/
theorem stroop_sums_exact (currentLedger : ℤ) (body : CreateBody) (total : ℕ) (ks : List ℕ)
    (hrest : RestValid currentLedger body) (htotal : body.total_amount = amountOf total)
    (hks : body.recipients.map Recipient.amount = ks.map amountOf)
    (hrange : ∀ k ∈ total :: ks, InRange k) :
    (∀ k ∈ total :: ks, (toStroops (amountOf k) = .ok (k : ℤ) ↔ Survives k) ∧
        (k ≤ 2 ^ 29 * 10 ^ 7 → Survives k)) ∧
      ((∀ k ∈ total :: ks, Survives k) →
        ((∃ data, airdropCreateBodySchema currentLedger body = .ok data) ↔
          ks = [] ∨ ks.sum = total)) := by
  constructor
  · exact fun k hk => ⟨toStroops_amountOf k, survives_of_small (hrange k hk).1⟩
  intro hsurvives
  rw [List.forall_mem_cons] at hrange hsurvives
  have hamounts : ∀ r ∈ body.recipients, AmountOk r.amount := by
    intro r hr
    have hmem : r.amount ∈ ks.map amountOf := hks ▸ List.mem_map_of_mem hr
    obtain ⟨k, hk, hamount⟩ := List.mem_map.mp hmem
    rw [← hamount]
    exact ⟨amountOf_pos (hrange.2 k hk).1, amountOf_le (hrange.2 k hk).2,
      hasFewDecimals_amountOf (hrange.2 k hk) (hsurvives.2 k hk)⟩
  have hempty : body.recipients = [] ↔ ks = [] := by
    have := congrArg List.length hks
    rw [List.length_map, List.length_map] at this
    rw [← List.length_eq_zero_iff, this, List.length_eq_zero_iff]
  rw [accepted_iff_sum hrest (htotal ▸ amountOf_pos hrange.1.1) (htotal ▸ amountOf_le hrange.1.2)
    hamounts, sumIssues]
  by_cases hnil : body.recipients = []
  · rw [if_pos (by rw [hnil]; rfl)]
    exact iff_of_true rfl (.inl (hempty.mp hnil))
  · rw [if_neg (by simpa using hnil), sumStroops_of_survives hks hsurvives.2, htotal,
      (toStroops_amountOf total).mpr hsurvives.1]
    refine check_eq_nil_iff.trans ?_
    rw [decide_eq_true_iff, or_iff_right (fun h => hnil (hempty.mpr h))]
    exact_mod_cast Iff.rfl

end Accepts

/-! ## 6. A body with two recipients -/

/-- An airdrop of 10 units for two recipients. -/
def twoRecipients : CreateBody := { sampleBody with
  total_amount := amountOf 100000000
  recipients := [⟨sampleAddress 'B', amountOf 45000000⟩, ⟨sampleAddress 'C', amountOf 55000000⟩] }

theorem twoRecipients_restValid : RestValid 50 twoRecipients where
  name := by decide +kernel
  asset := by decide +kernel
  asset_issuer := isStellarPublicKey_sampleAddress (by decide)
  expiry_ledger := by decide +kernel
  length := by decide +kernel
  address := by
    refine List.forall_mem_cons.mpr ⟨?_, List.forall_mem_singleton.mpr ?_⟩
    · exact isStellarPublicKey_sampleAddress (by decide)
    · exact isStellarPublicKey_sampleAddress (by decide)
  nodup := by decide +kernel

/-- Its amounts sum up. -/
theorem stroop_sums_exact_sample :
    (∀ k ∈ [100000000, 45000000, 55000000], (toStroops (amountOf k) = .ok (k : ℤ) ↔ Survives k) ∧
        (k ≤ 2 ^ 29 * 10 ^ 7 → Survives k)) ∧
      ((∀ k ∈ [100000000, 45000000, 55000000], Survives k) →
        ((∃ data, airdropCreateBodySchema 50 twoRecipients = .ok data) ↔
          [45000000, 55000000] = [] ∨ [45000000, 55000000].sum = 100000000)) :=
  stroop_sums_exact 50 twoRecipients 100000000 [45000000, 55000000] twoRecipients_restValid rfl rfl
    (by decide +kernel)

/-- 600000000.0000003 units are taken for a stroop more, and 10 units without recipients are
accepted. -/
theorem large_decimal_changed :
    InRange 6000000000000003 ∧ toStroops (amountOf 6000000000000003) = .ok 6000000000000004 ∧
      sampleBody.recipients = [] ∧ toStroops sampleBody.total_amount = .ok 100000000 ∧
      (airdropCreateBodySchema 50 sampleBody).isOk = true := by
  decide +kernel

end SmartDrop.Airdrops
