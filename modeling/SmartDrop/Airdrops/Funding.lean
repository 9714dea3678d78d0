/-
# What an airdrop's recipients may get

The schema of a create body asks for amounts that sum up to the total, in exact stroops, so an
airdrop is funded when it is made (`create_funded`).  `addRecipients` takes no notice of the
total: each accepted list is appended whole.  The funding invariant therefore holds along a run
exactly when each list still fits in what the airdrop has left (`funding_iff`).
-/
import SmartDrop.Airdrops.Store
import SmartDrop.Lib.Run
import Mathlib.Algebra.BigOperators.Group.List.Basic

namespace SmartDrop.Airdrops

open Binary64 Conc Redis

/-! ## 1. The sequential system -/

/-- A create request, with the ledger it is checked against, or a list for an airdrop. -/
inductive Request where
  | create (currentLedger : ℤ) (body : CreateBody)
  | addRecipients (id : String) (recipients : List Recipient)

/-- What a piece of the service returns and leaves, run alone at time `t` without failures. -/
def alone {α : Type} (P : Platform) (code : Code α) (t : ℕ) (s : Store) : Except Err α × Store :=
  code.prog.runAt (machine Unit P) () ⟨t, .none⟩ s

/-- One request at a time. -/
def serve (P : Platform) (maxRecipients : ℕ) (s : Store) (l : Request × ℕ) : Store :=
  match l.1 with
  | .create currentLedger body =>
    match airdropCreateBodySchema currentLedger body with
    | .error _ => s
    | .ok data => (alone P (create data none) l.2 s).2
  | .addRecipients id recipients => (alone P (postRecipients P maxRecipients id recipients) l.2 s).2

/-- **The funding invariant**: no airdrop owes its recipients more than its total. -/
def Funded (s : Store) : Prop :=
  ∀ id a, s.records id = some a → s.recipients id ≠ [] →
    totalStroops (s.recipients id) ≤ stroops a.total_amount

/-- The recipients of a list whose address is new to the airdrop. -/
def newRecipients (s : Store) (id : String) (recipients : List Recipient) : List Recipient :=
  recipients.filter fun r => r.address ∉ s.addresses id

/-- A list that the route accepts fits in what is left of the airdrop's total. -/
def Fits (P : Platform) (maxRecipients : ℕ) (s : Store) (l : Request × ℕ) : Prop :=
  match l.1 with
  | .create .. => True
  | .addRecipients id recipients => ∀ a, s.records id = some a →
      acceptRecipients P.isValidEd25519PublicKey maxRecipients recipients = .ok () →
      newRecipients s id recipients ≠ [] →
      totalStroops (s.recipients id) + totalStroops (newRecipients s id recipients) ≤
        stroops a.total_amount

/-! ## 2. Running the service alone -/

section Alone

variable {α β : Type} {P : Platform} {t : ℕ} {s : Store}

@[simp] theorem alone_pure (a : α) : alone P (pure a) t s = (.ok a, s) := rfl

@[simp] theorem alone_throw (e : Err) : alone P (throw e : Code α) t s = (.error e, s) := rfl

@[simp] theorem alone_redis (op : Op) :
    alone P (redis op) t s = (.ok (s.exec P t op).1, (s.exec P t op).2) := by
  change (machine Unit P).exec () op ⟨t, .none⟩ s = _
  simp only [machine]
  split <;> rfl

/-- What follows a piece that returns runs from what that piece leaves. -/
theorem alone_bind_of_ok {code : Code α} {f : α → Code β} {a : α} {s' : Store}
    (h : alone P code t s = (.ok a, s')) : alone P (code >>= f) t s = alone P (f a) t s' := by
  simp only [alone] at h ⊢
  rw [Throws.prog_bind, Prog.runAt_bind, h, Throws.andThen_ok]

@[simp] theorem alone_redis_bind (op : Op) (f : op.Ret → Code β) :
    alone P (redis op >>= f) t s = alone P (f (s.exec P t op).1) t (s.exec P t op).2 :=
  alone_bind_of_ok (alone_redis op)

end Alone

/-! ## 3. The checks -/

/-- What `toStroops` returns are the stroops of the amount. -/
theorem toStroops_eq {amount : Double} {n : ℤ} (h : toStroops amount = .ok n) :
    n = stroops amount := by
  unfold toStroops at h
  split at h
  · cases h
  · split at h
    · cases h
    · exact (Except.ok.inj h).symm

/-- What `sumStroops` returns is the exact sum. -/
theorem sumStroops_eq {recipients : List Recipient} {total : ℤ}
    (h : sumStroops recipients = .ok total) : total = totalStroops recipients := by
  have hgen : ∀ (rs : List Recipient) (start total : ℤ),
      rs.foldlM (fun sum r => return sum + (← toStroops r.amount)) start =
        (.ok total : Except String ℤ) → total = start + totalStroops rs := by
    intro rs
    induction rs with
    | nil =>
      intro start total h
      simpa [totalStroops] using (Except.ok.inj h).symm
    | cons r rs ih =>
      intro start total h
      rw [List.foldlM_cons] at h
      cases hr : toStroops r.amount with
      | error e =>
        rw [hr] at h
        cases h
      | ok n =>
        rw [hr] at h
        have hn := toStroops_eq hr
        have := ih _ _ h
        simp only [totalStroops, List.map_cons, List.sum_cons] at this ⊢
        omega
  simpa using hgen recipients 0 total h

/-- A body that the schema accepts pays out its total. -/
theorem accepted_sum {currentLedger : ℤ} {body data : CreateBody}
    (h : airdropCreateBodySchema currentLedger body = .ok data) (hne : data.recipients ≠ []) :
    totalStroops data.recipients = stroops data.total_amount := by
  simp only [airdropCreateBodySchema] at h
  split at h
  · rename_i hissues
    obtain rfl := Except.ok.inj h
    simp only [List.isEmpty_iff, List.append_eq_nil_iff] at hissues
    have hsum := hissues.2
    rw [sumIssues, if_neg (by simpa using hne)] at hsum
    cases ht : sumStroops body.recipients with
    | error e => simp [ht, bind, Except.bind] at hsum
    | ok total =>
      cases hx : toStroops body.total_amount with
      | error e => simp [ht, hx, bind, Except.bind] at hsum
      | ok expected =>
        have heq : total = expected := by
          simpa [ht, hx, bind, Except.bind, pure, Except.pure, check] using hsum
        rw [← sumStroops_eq ht, heq, toStroops_eq hx]
  · cases h

/-- One recipient of a list that passes: its address is new, and the rest passes. -/
theorem checkRecipients_cons {valid : String → Bool} {seen : List Recipient} {sum n : ℤ}
    {r : Recipient} {rs : List Recipient}
    (h : checkRecipients valid seen sum (r :: rs) = .ok n) :
    r.address ∉ seen.map Recipient.address ∧
      checkRecipients valid (seen ++ [r]) (sum + routeStroops r.amount) rs = .ok n := by
  rw [checkRecipients] at h
  simp only [throw, throwThe, MonadExceptOf.throw, bind, Except.bind] at h
  split at h
  · cases h
  split at h
  · cases h
  rename_i hseen
  refine ⟨by simpa using hseen, ?_⟩
  split at h
  · cases h
  split at h
  · cases h
  · exact h

theorem checkRecipients_nodup {valid : String → Bool} {seen : List Recipient} {sum n : ℤ}
    {rs : List Recipient} (h : checkRecipients valid seen sum rs = .ok n) :
    (rs.map Recipient.address).Nodup ∧ ∀ r ∈ rs, r.address ∉ seen.map Recipient.address := by
  induction rs generalizing seen sum with
  | nil => simp
  | cons r rs ih =>
    obtain ⟨hr, hrest⟩ := checkRecipients_cons h
    obtain ⟨hnodup, hseen⟩ := ih hrest
    constructor
    · rw [List.map_cons, List.nodup_cons]
      refine ⟨fun hmem => ?_, hnodup⟩
      obtain ⟨r', hr', he⟩ := List.mem_map.mp hmem
      exact hseen r' hr' (by simp [he])
    · intro r' hr'
      rcases List.mem_cons.mp hr' with rfl | hr'
      · exact hr
      · exact fun hmem => hseen r' hr' (by simp at hmem ⊢; exact Or.inl hmem)

/-- A list that the route accepts names no address twice. -/
theorem nodup_of_accept {valid : String → Bool} {maxRecipients : ℕ} {recipients : List Recipient}
    (h : acceptRecipients valid maxRecipients recipients = .ok ()) :
    (recipients.map Recipient.address).Nodup := by
  rw [acceptRecipients] at h
  cases hcheck : checkRecipients valid [] 0 recipients with
  | ok n => exact (checkRecipients_nodup hcheck).1
  | error e =>
    rw [hcheck] at h
    simp only [throw, throwThe, MonadExceptOf.throw, bind, Except.bind] at h
    split at h
    · cases h
    · split at h <;> cases h

/-! ## 4. What a request does -/

section Requests

variable {P : Platform} {t maxRecipients : ℕ} {s : Store}

/-- The id of the next airdrop. -/
def nextId (P : Platform) (s : Store) : String := "drop_" ++ P.randomUUID s.uuidsDrawn

/-- The store once a body's record is inserted under the next id. -/
def inserted (P : Platform) (s : Store) (data : CreateBody) (contract : Option String) (t : ℕ) :
    Store :=
  (Store.exec P t { s with uuidsDrawn := s.uuidsDrawn + 1 }
    (.insert (data.draft contract (nextId P s) t t) t data.recipients)).2

/-- A creation throws, or inserts its record. -/
theorem alone_create (data : CreateBody) (contract : Option String) :
    (alone P (create data contract) t s).2 = s ∨
      (alone P (create data contract) t s).2 = inserted P s data contract t := by
  rw [create]
  split
  · exact Or.inl rfl
  · exact Or.inr rfl

/-- `SADD` reports the addresses that were not there, when none comes twice. -/
theorem saddEach_snd {as : List String} (h : as.Nodup) (set : RSet String) :
    (saddEach set as).2 = as.map fun a => decide (a ∉ set) := by
  induction as generalizing set with
  | nil => rfl
  | cons a as ih =>
    obtain ⟨ha, has⟩ := List.nodup_cons.mp h
    rw [saddEach, List.map_cons, ih has]
    refine congrArg _ (List.map_congr_left fun b hb => ?_)
    have hne : b ≠ a := fun e => ha (e ▸ hb)
    simp [hne]

/-- The recipients that `addRecipients` stores. -/
theorem splitDuplicates_fst (rs : List Recipient) (set : RSet String) :
    (splitDuplicates rs (rs.map fun r => decide (r.address ∉ set))).1 =
      rs.filter fun r => r.address ∉ set := by
  induction rs with
  | nil => rfl
  | cons r rs ih =>
    rw [List.map_cons, splitDuplicates, List.filter_cons, ← ih]
    split <;> rfl

/-- The store once a list is appended, less the addresses that were there. -/
def appended (s : Store) (id : String) (recipients : List Recipient) : Store :=
  { s with
    addresses := Function.update s.addresses id
      (saddEach (s.addresses id) (recipients.map Recipient.address)).1
    recipients := Function.update s.recipients id
      (s.recipients id ++ newRecipients s id recipients) }

/-- A list for an airdrop that is not there, or one that fails a check, changes nothing. -/
theorem alone_postRecipients_of_reject {id : String} {recipients : List Recipient}
    (h : s.records id = none ∨
      acceptRecipients P.isValidEd25519PublicKey maxRecipients recipients ≠ .ok ()) :
    (alone P (postRecipients P maxRecipients id recipients) t s).2 = s := by
  rw [postRecipients, get, alone_redis_bind]
  cases hr : s.records id with
  | none => simp [Store.exec, hr]
  | some a =>
    have hreject := h.resolve_left (by simp [hr])
    simp only [Store.exec, hr]
    cases hc : acceptRecipients P.isValidEd25519PublicKey maxRecipients recipients with
    | error e => simp
    | ok u => exact absurd hc hreject

/-- `addRecipients` returns, and appends the recipients with a new address. -/
theorem alone_addRecipients {id : String} {recipients : List Recipient}
    (h : (recipients.map Recipient.address).Nodup) :
    ∃ duplicates, alone P (addRecipients id recipients) t s =
      (.ok duplicates, appended s id recipients) := by
  have hadded := saddEach_snd h (s.addresses id)
  rw [List.map_map] at hadded
  have hnew : (splitDuplicates recipients
      (saddEach (s.addresses id) (recipients.map Recipient.address)).2).1 =
        newRecipients s id recipients := by
    rw [hadded]
    exact splitDuplicates_fst recipients (s.addresses id)
  refine ⟨(splitDuplicates recipients
    (saddEach (s.addresses id) (recipients.map Recipient.address)).2).2, ?_⟩
  rw [addRecipients, alone_redis_bind]
  simp only [Store.exec, hnew]
  by_cases he : newRecipients s id recipients = []
  · simp [he, appended]
  · have hsome : (newRecipients s id recipients).isEmpty = false := by simpa using he
    simp only [hsome, Bool.not_false, if_true]
    rw [alone_redis_bind, alone_pure]
    simp only [Store.exec, hnew, appended]

/-- A list that passes is appended, less the addresses that were there. -/
theorem alone_postRecipients_of_accept {id : String} {recipients : List Recipient} {a : Airdrop}
    (hr : s.records id = some a)
    (hc : acceptRecipients P.isValidEd25519PublicKey maxRecipients recipients = .ok ()) :
    (alone P (postRecipients P maxRecipients id recipients) t s).2 = appended s id recipients := by
  obtain ⟨duplicates, hadd⟩ : ∃ duplicates, alone P (addRecipients id recipients) t s =
      (.ok duplicates, appended s id recipients) := alone_addRecipients (nodup_of_accept hc)
  rw [postRecipients, get, alone_redis_bind]
  simp only [Store.exec, hr, hc]
  rw [alone_bind_of_ok hadd]
  split <;> rfl

end Requests

/-! ## 5. Every sequence of requests -/

/-- Everything in the store is under an id that was drawn. -/
def Drawn (P : Platform) (s : Store) : Prop :=
  ∀ id, s.records id ≠ none ∨ s.recipients id ≠ [] → ∃ n < s.uuidsDrawn, id = "drop_" ++ P.randomUUID n

variable {P : Platform} {t maxRecipients : ℕ} {s : Store}

/-- The next id is not in use. -/
theorem Drawn.fresh (h : Drawn P s) :
    s.records (nextId P s) = none ∧ s.recipients (nextId P s) = [] := by
  have hnot : ¬ ∃ n < s.uuidsDrawn, nextId P s = "drop_" ++ P.randomUUID n := by
    rintro ⟨n, hn, e⟩
    have := P.uuid_inj (String.append_right_inj _ |>.mp e)
    omega
  constructor
  · by_contra hne
    exact hnot (h _ (Or.inl hne))
  · by_contra hne
    exact hnot (h _ (Or.inr hne))

theorem Drawn.inserted (h : Drawn P s) (data : CreateBody) (contract : Option String) (t : ℕ) :
    Drawn P (inserted P s data contract t) := by
  intro id hid
  by_cases he : id = nextId P s
  · exact ⟨s.uuidsDrawn, Nat.lt_succ_self _, he⟩
  · obtain ⟨n, hn, e⟩ := h id (by
      simpa [Airdrops.inserted, Store.exec, CreateBody.draft, he] using hid)
    exact ⟨n, Nat.lt_succ_of_lt hn, e⟩

theorem Drawn.appended (h : Drawn P s) {id : String} {a : Airdrop} (hr : s.records id = some a)
    (recipients : List Recipient) : Drawn P (appended s id recipients) := by
  intro j hj
  by_cases he : j = id
  · exact h j (Or.inl (by simp [he, hr]))
  · exact h j (by simpa [Airdrops.appended, he] using hj)

/-- A new airdrop pays out what the schema has checked. -/
theorem Funded.inserted (h : Funded s) (hd : Drawn P s) {data : CreateBody}
    (hsum : data.recipients ≠ [] → totalStroops data.recipients = stroops data.total_amount)
    (contract : Option String) (t : ℕ) : Funded (inserted P s data contract t) := by
  intro id a ha hne
  by_cases he : id = nextId P s
  · subst he
    have hrec : (Airdrops.inserted P s data contract t).recipients (nextId P s) =
        data.recipients := by
      simp [Airdrops.inserted, Store.exec, CreateBody.draft, hd.fresh.2]
    have htotal : a.total_amount = data.total_amount := by
      simp only [Airdrops.inserted, Store.exec, CreateBody.draft, Function.update_self,
        Option.some.injEq] at ha
      rw [← ha]
    rw [hrec] at hne ⊢
    rw [htotal, hsum hne]
  · simp only [Airdrops.inserted, Store.exec, CreateBody.draft, Function.update_of_ne he]
      at ha hne ⊢
    exact h id a ha hne

/-- An appended list keeps the invariant exactly when it fits. -/
theorem funded_appended_iff (h : Funded s) {id : String} {a : Airdrop}
    (hr : s.records id = some a) (recipients : List Recipient) :
    Funded (appended s id recipients) ↔ (newRecipients s id recipients ≠ [] →
      totalStroops (s.recipients id) + totalStroops (newRecipients s id recipients) ≤
        stroops a.total_amount) := by
  have hsum : totalStroops (s.recipients id ++ newRecipients s id recipients) =
      totalStroops (s.recipients id) + totalStroops (newRecipients s id recipients) := by
    simp [totalStroops]
  constructor
  · intro hf hne
    have := hf id a hr (by simp [Airdrops.appended, hne])
    simp only [Airdrops.appended, Function.update_self] at this
    rwa [hsum] at this
  · intro hfit j b hb hne
    by_cases he : j = id
    · subst he
      have hba : b = a := Option.some.inj (hb.symm.trans hr)
      simp only [Airdrops.appended, Function.update_self] at hne ⊢
      rw [hba, hsum]
      by_cases hnew : newRecipients s j recipients = []
      · rw [hnew, List.append_nil] at hne
        simpa [hnew, totalStroops] using h j a hr hne
      · exact hfit hnew
    · simp only [Airdrops.appended, Function.update_of_ne he] at hb hne ⊢
      exact h j b hb hne

theorem serve_drawn (maxRecipients : ℕ) (s : Store) (l : Request × ℕ) (h : Drawn P s) :
    Drawn P (serve P maxRecipients s l) := by
  obtain ⟨request, t⟩ := l
  cases request with
  | create currentLedger body =>
    simp only [serve]
    split
    · exact h
    · rename_i data _
      rcases alone_create (P := P) (t := t) (s := s) data none with he | he
      · rwa [he]
      · rw [he]
        exact h.inserted data none t
  | addRecipients id recipients =>
    simp only [serve]
    cases hr : s.records id with
    | none => rwa [alone_postRecipients_of_reject (Or.inl hr)]
    | some a =>
      by_cases hc : acceptRecipients P.isValidEd25519PublicKey maxRecipients recipients = .ok ()
      · rw [alone_postRecipients_of_accept hr hc]
        exact h.appended hr recipients
      · rwa [alone_postRecipients_of_reject (Or.inr hc)]

/-- **One request** keeps the invariant exactly when its list fits. -/
theorem serve_funded_iff (maxRecipients : ℕ) (s : Store) (l : Request × ℕ) (hd : Drawn P s)
    (h : Funded s) : Funded (serve P maxRecipients s l) ↔ Fits P maxRecipients s l := by
  obtain ⟨request, t⟩ := l
  cases request with
  | create currentLedger body =>
    simp only [serve, Fits, iff_true]
    split
    · exact h
    · rename_i data hdata
      rcases alone_create (P := P) (t := t) (s := s) data none with he | he
      · rwa [he]
      · rw [he]
        exact h.inserted hd (accepted_sum hdata) none t
  | addRecipients id recipients =>
    simp only [serve, Fits]
    cases hr : s.records id with
    | none =>
      rw [alone_postRecipients_of_reject (Or.inl hr)]
      simp [h]
    | some a =>
      by_cases hc : acceptRecipients P.isValidEd25519PublicKey maxRecipients recipients = .ok ()
      · rw [alone_postRecipients_of_accept hr hc, funded_appended_iff h hr]
        simp [hc]
      · rw [alone_postRecipients_of_reject (Or.inr hc)]
        simp [h, hc]

/-- **The funding invariant holds in every state of a run exactly when every list that the
route accepts still fits in what its airdrop has left.** -/
theorem funding_iff (P : Platform) (maxRecipients : ℕ) (ls : List (Request × ℕ)) :
    (∀ l₁ l₂, ls = l₁ ++ l₂ → Funded (run (serve P maxRecipients) .init l₁)) ↔
      Along (serve P maxRecipients) (Fits P maxRecipients) .init ls :=
  forall_prefix_iff (I := Drawn P) (G := Funded) (fun s l h => serve_drawn maxRecipients s l h)
    (fun s l hd h => serve_funded_iff maxRecipients s l hd h)
    (fun _ h => absurd h (by simp [Store.init])) (fun _ _ h => absurd h (by simp [Store.init]))

/-- A Stellar key made of one letter. -/
def sampleAddress (c : Char) : String := String.ofList ('G' :: List.replicate 55 c)

theorem isStellarPublicKey_sampleAddress {c : Char}
    (h : (JsText.isUpper c || JsText.isDigit c) = true) : isStellarPublicKey (sampleAddress c) = true := by
  unfold isStellarPublicKey sampleAddress
  rw [String.toList_ofList]
  simp [h]

/-- An airdrop of 10 units without recipients. -/
def sampleBody : CreateBody where
  name := "sample"
  description := none
  asset := "XLM"
  asset_issuer := sampleAddress 'A'
  total_amount := Double.ofNat 10 Double.nearest_ten
  expiry_ledger := 100
  recipients := []

/-- An airdrop of 10 units is created, and a recipient of 20 units is added to it. -/
theorem recipients_exceed_total : ¬ ∀ l₁ l₂ : List (Request × ℕ),
    [(.create 50 sampleBody, 0),
      (.addRecipients "drop_" [⟨sampleAddress 'B', Double.ofNat 20 Double.nearest_twenty⟩], 1)] = l₁ ++ l₂ →
    Funded (run (serve samplePlatform 10000) .init l₁) := by
  intro h
  have hfunded := h _ [] (List.append_nil _).symm "drop_" (sampleBody.draft none "drop_" 0 0)
    (by decide +kernel) (by decide +kernel)
  exact absurd hfunded (by decide +kernel)

end SmartDrop.Airdrops
