/-
# Which fields are recovered

A contract may write the first fields of an event as topics after its name, and the others as a map,
as a tuple in their order, or, if one is left, as that value alone.  The parser names what is in a
map or in a tuple rightly, whatever was written as topics.  Of the topics it takes the first for the
airdrop and the second for the recipient, whichever event it is, and it drops the others; and it
gives a single value no name at all.  So the fields come back as they were written exactly when the
value is a map or a tuple, and no topic stands for a field that is neither (`fields_recovered_iff`).
-/
import SmartDrop.Indexer.Parser

namespace SmartDrop.Indexer

open JsonText

/-! ## 1. Encoded events -/

/-- How the fields that are no topics are written. -/
inductive Shape where
  | map
  | tuple
  | scalar
deriving DecidableEq

/-- A value that is neither a list nor a map. -/
def isScalar : Json → Bool
  | .arr _ | .obj _ => false
  | _ => true

/-- The fields of an event with their values. -/
def bindings (name : EventName) (values : List Json) : List (String × Json) :=
  (EVENT_FIELDS name).zip values

/-- The value of an event is that of all fields but the first `k`. -/
def Carries (name : EventName) (values : List Json) (k : ℕ) : Shape → Json → Prop
  | .map, value => ∃ fields, fields.Perm ((bindings name values).drop k) ∧ value = .obj fields
  | .tuple, value => value = .arr (values.drop k)
  | .scalar, value => values.drop k = [value] ∧ isScalar value

/-- An event that was written with the first `k` fields as topics. -/
structure Encodes (C : Codec) (name : EventName) (values : List Json) (k : ℕ) (shape : Shape)
    (event : RawEvent C.ScVal) : Prop where
  topics : event.topic.map C.decode = .str name.text :: values.take k
  value : Carries name values k shape (decodeScVal C event.value)

/-- Every field is bound to its value, and nothing else is bound. -/
structure Recovers (name : EventName) (values : List Json) (data : Json) : Prop where
  bound : ∀ f v, (f, v) ∈ bindings name values → data.get? f = some v
  only : ∀ key, (data.get? key).isSome → key ∈ EVENT_FIELDS name

/-! ## 2. The name -/

section Name

variable {C : Codec} {event : RawEvent C.ScVal} {name : EventName} {rest : List Json}

theorem normalizeEventName_text (name : EventName) :
    normalizeEventName (.str name.text) = some name := by
  cases name <;> decide

/-- An event whose first topic is a name is parsed as one of that name. -/
theorem parseContractEvent_of_topics (now : ℕ)
    (h : event.topic.map C.decode = .str name.text :: rest) :
    ∃ p, parseContractEvent C now event = some p ∧ p.event_name = name ∧
      p.data = .obj (hint (hint (spreadFields
        (dataFromValue name (decodeScVal C event.value) rest.length)) "airdrop_id" rest[0]?)
        "recipient" rest[1]?) := by
  have hname : eventName C event = some name := by
    rw [eventName, h, List.findSome?_cons, normalizeEventName_text]
  have hafter : (((.str name.text : Json) :: rest).dropWhile fun t =>
      !Json.isStr (some t) name.text).drop 1 = rest := by
    simp [Json.isStr]
  refine ⟨recordOf C now event name, by rw [parseContractEvent, hname]; rfl, rfl, ?_⟩
  simp only [recordOf, mergeTopicHints, h, hafter]

end Name

/-! ## 3. Fields that are written once -/

theorem get?_eq_some_iff {fields : List (String × Json)} (h : (fields.map Prod.fst).Nodup)
    {key : String} {v : Json} : (Json.obj fields).get? key = some v ↔ (key, v) ∈ fields := by
  have hof : Json.ofFields (fields.map fun f => (f.1, some f.2)) = .obj fields := by
    simp [Json.ofFields, List.filterMap_map]
  constructor
  · intro hget
    simp only [Json.get?, Option.map_eq_some_iff] at hget
    obtain ⟨f, hf, rfl⟩ := hget
    have hkey : f.1 = key := by simpa using List.find?_some hf
    rw [← hkey]
    exact List.mem_reverse.mp (List.mem_of_find?_eq_some hf)
  · intro hmem
    rw [← hof]
    exact Json.get?_ofFields (by simpa [Function.comp_def] using h)
      (List.mem_map_of_mem (f := fun f => (f.1, some f.2)) hmem)

/-- A field after a topic was taken for it. -/
theorem get?_hint (fields : List (String × Json)) (key : String) (topic : Option Json)
    (k : String) : (Json.obj (hint fields key topic)).get? k =
      if k = key ∧ isPresent ((Json.obj fields).get? key) = false ∧ isPresent topic = true then topic
      else (Json.obj fields).get? k := by
  rw [hint]
  cases hfield : isPresent ((Json.obj fields).get? key) with
  | true => simp
  | false =>
    cases htopic : isPresent topic with
    | false => simp
    | true =>
      obtain ⟨v, rfl⟩ : ∃ v, topic = some v := by
        cases topic with
        | none => cases htopic
        | some v => exact ⟨v, rfl⟩
      by_cases hk : k = key
      · subst hk
        simp [Json.get?_setField_self]
      · simp [hk, Json.get?_setField_of_ne hk]

variable {name : EventName} {values : List Json} {k : ℕ}

theorem nodup_fields (name : EventName) : (EVENT_FIELDS name).Nodup := by
  cases name <;> decide

theorem map_fst_bindings (hlen : values.length = (EVENT_FIELDS name).length) :
    (bindings name values).map Prod.fst = EVENT_FIELDS name :=
  List.map_fst_zip (by omega)

/-- A tuple is named by the fields that are left. -/
theorem zipIdx_elementOrNull (fields : List String) (values : List Json)
    (h : fields.length = values.length) :
    (fields.zipIdx.map fun f => (f.1, elementOrNull values f.2)) = fields.zip values := by
  refine List.ext_getElem (by simp [h]) fun n h₁ h₂ => ?_
  have hn : n < values.length := by simpa [h] using h₁
  simp [elementOrNull, List.getElem?_eq_getElem hn]

theorem drop_bindings (name : EventName) (values : List Json) (k : ℕ) :
    (bindings name values).drop k = ((EVENT_FIELDS name).drop k).zip (values.drop k) :=
  List.drop_zipWith

/-- **What a map or a tuple names**: the fields that are no topics. -/
theorem spread_dataFromValue (hlen : values.length = (EVENT_FIELDS name).length)
    (hk : k ≤ values.length) {shape : Shape} (hshape : shape ≠ .scalar) {value : Json}
    (h : Carries name values k shape value) :
    (spreadFields (dataFromValue name value k)).Perm ((bindings name values).drop k) := by
  cases shape with
  | scalar => exact absurd rfl hshape
  | map =>
    obtain ⟨fields, hperm, rfl⟩ := h
    exact hperm
  | tuple =>
    obtain rfl : value = .arr (values.drop k) := h
    have hfields : (if 0 < k ∧ (values.drop k).length < (EVENT_FIELDS name).length then
        (EVENT_FIELDS name).drop ((EVENT_FIELDS name).length - (values.drop k).length)
        else EVENT_FIELDS name) = (EVENT_FIELDS name).drop k := by
      rw [List.length_drop]
      split
      · congr 1
        omega
      · rename_i hnot
        obtain rfl : k = 0 := by omega
        rfl
    simp only [dataFromValue, spreadFields, hfields]
    rw [zipIdx_elementOrNull _ _ (by simp [hlen]), ← drop_bindings]

/-! ## 4. What is recovered -/

theorem head_fields (name : EventName) : (EVENT_FIELDS name)[0]? = some "airdrop_id" := by
  cases name <;> rfl

/-- Neither of the fields that topics are taken for. -/
def Unhinted (f : String) : Prop := f ≠ "airdrop_id" ∧ f ≠ "recipient"

theorem unhinted_second {f : String} (h : (EVENT_FIELDS name)[1]? = some f)
    (hf : f ≠ "recipient") : Unhinted f := by
  refine ⟨?_, hf⟩
  cases name <;> obtain rfl := Option.some.inj h <;> decide

theorem unhinted_third {f : String} (h : (EVENT_FIELDS name)[2]? = some f) : Unhinted f := by
  cases name with
  | airdrop_expired => cases h
  | _ =>
    obtain rfl := Option.some.inj h
    exact ⟨by decide, by decide⟩

theorem unhinted_last {f : String}
    (h : (EVENT_FIELDS name)[(EVENT_FIELDS name).length - 1]? = some f) : Unhinted f := by
  cases name <;> obtain rfl := Option.some.inj h <;> exact ⟨by decide, by decide⟩

/-- The value of a field. -/
theorem mem_bindings {f : String} {n : ℕ} (hlen : values.length = (EVENT_FIELDS name).length)
    (hn : (EVENT_FIELDS name)[n]? = some f) : ∃ v, values[n]? = some v ∧ (f, v) ∈ bindings name values := by
  have hlt := (List.getElem?_eq_some_iff.mp hn).1
  obtain ⟨v, hv⟩ : ∃ v, values[n]? = some v := ⟨_, List.getElem?_eq_getElem (by omega)⟩
  refine ⟨v, hv, List.mem_of_getElem? (i := n) ?_⟩
  rw [bindings, List.zip, List.getElem?_zipWith, hn, hv]

/-- A field that the spread value does not have, and that is not hinted at, is lost. -/
theorem not_recovers {fields : List (String × Json)} {first second : Option Json} {f : String}
    {n : ℕ} (hlen : values.length = (EVENT_FIELDS name).length)
    (hn : (EVENT_FIELDS name)[n]? = some f) (hf : Unhinted f) (hfields : f ∉ fields.map Prod.fst) :
    ¬ Recovers name values (.obj (hint (hint fields "airdrop_id" first) "recipient" second)) := by
  intro h
  obtain ⟨v, -, hmem⟩ := mem_bindings hlen hn
  have hget := h.bound f v hmem
  rw [get?_hint, if_neg fun hc => hf.2 hc.1, get?_hint, if_neg fun hc => hf.1 hc.1] at hget
  simp only [Json.get?, Option.map_eq_some_iff] at hget
  obtain ⟨e, he, -⟩ := hget
  have hkey : e.1 = f := by simpa using List.find?_some he
  refine hfields (hkey ▸ List.mem_map_of_mem (List.mem_reverse.mp (List.mem_of_find?_eq_some he)))

/-- A topic is none of the fields that are left. -/
theorem not_mem_drop {f : String} {n : ℕ} (hn : (EVENT_FIELDS name)[n]? = some f) (hk : n < k) :
    f ∉ (EVENT_FIELDS name).drop k := by
  intro hmem
  obtain ⟨m, hm⟩ := List.getElem?_of_mem hmem
  rw [List.getElem?_drop, ← hn] at hm
  have hlt := (List.getElem?_eq_some_iff.mp hn).1
  have := (List.getElem?_inj hlt (nodup_fields name)).mp hm.symm
  omega

/-- A single value is spread under numbers, if at all. -/
theorem digit_of_spread_scalar {value : Json} (h : isScalar value) {f : String}
    (hf : f ∈ (spreadFields value).map Prod.fst) : ∃ n : ℕ, f = toString n := by
  cases value with
  | str s =>
    simp only [spreadFields, List.map_map, List.mem_map] at hf
    obtain ⟨c, -, rfl⟩ := hf
    exact ⟨c.2, rfl⟩
  | arr | obj => cases h
  | _ => simp [spreadFields] at hf

/-- No field is named by a number. -/
theorem not_number (name : EventName) (n : ℕ) : toString n ∉ EVENT_FIELDS name := by
  have hfirst : ((EVENT_FIELDS name).all fun f => f.toList.any fun c => !isDigit c) = true := by
    cases name <;> rfl
  intro hmem
  obtain ⟨c, hc, hdigit⟩ := List.any_eq_true.mp (List.all_eq_true.mp hfirst _ hmem)
  have hall : isDigit c = true := isDigit_of_mem_toDigits (n := n) (by simpa [Nat.repr] using hc)
  rw [hall] at hdigit
  cases hdigit

/-- **When the fields are recovered**: where the value is a map or a tuple, and at most the airdrop
and the recipient were written as topics. -/
def Plain (name : EventName) (k : ℕ) (shape : Shape) : Prop :=
  shape ≠ .scalar ∧ (k ≤ 1 ∨ k = 2 ∧ (EVENT_FIELDS name)[1]? = some "recipient")

/-- A split that is not plain loses a field. -/
theorem plain_of_recovers (hlen : values.length = (EVENT_FIELDS name).length)
    (hk : k ≤ values.length) {shape : Shape} {value : Json} (h : Carries name values k shape value)
    {first second : Option Json} (hrec : Recovers name values (.obj (hint (hint
      (spreadFields (dataFromValue name value k)) "airdrop_id" first) "recipient" second))) :
    Plain name k shape := by
  by_cases hshape : shape = .scalar
  · subst hshape
    exfalso
    obtain ⟨hone, hscalar⟩ := h
    have hdata : dataFromValue name value k = value := by
      cases value <;> first | rfl | cases hscalar
    have hlast : 0 < (EVENT_FIELDS name).length := by cases name <;> decide
    obtain ⟨f, hf⟩ : ∃ f, (EVENT_FIELDS name)[(EVENT_FIELDS name).length - 1]? = some f :=
      ⟨_, List.getElem?_eq_getElem (by omega)⟩
    refine not_recovers hlen hf (unhinted_last hf) (fun hmem => ?_) hrec
    rw [hdata] at hmem
    obtain ⟨n, rfl⟩ := digit_of_spread_scalar hscalar hmem
    exact not_number name n (List.mem_of_getElem? hf)
  · refine ⟨hshape, ?_⟩
    have hspread := (spread_dataFromValue hlen hk hshape h).map Prod.fst
    rw [List.map_drop, map_fst_bindings hlen] at hspread
    -- a topic that is not hinted at is lost
    have hlost : ∀ {f : String} {n : ℕ}, (EVENT_FIELDS name)[n]? = some f → Unhinted f → ¬ n < k := by
      intro f n hn hf hlt
      exact not_recovers hlen hn hf (fun hmem => not_mem_drop hn hlt (hspread.mem_iff.mp hmem)) hrec
    by_contra hnot
    rw [not_or, not_and] at hnot
    have hlong : 2 ≤ (EVENT_FIELDS name).length := by cases name <;> decide
    by_cases htwo : k = 2
    · obtain ⟨f, hf⟩ : ∃ f, (EVENT_FIELDS name)[1]? = some f := ⟨_, List.getElem?_eq_getElem (by omega)⟩
      refine hlost hf (unhinted_second hf fun he => ?_) (by omega)
      exact hnot.2 htwo (he ▸ hf)
    · obtain ⟨f, hf⟩ : ∃ f, (EVENT_FIELDS name)[2]? = some f := ⟨_, List.getElem?_eq_getElem (by omega)⟩
      exact hlost hf (unhinted_third hf) (by omega)

/-- What a plain split binds, field by field. -/
theorem get?_of_plain (hlen : values.length = (EVENT_FIELDS name).length)
    (hnull : ∀ v ∈ values, v ≠ .null) {shape : Shape} (hplain : Plain name k shape)
    {fields : List (String × Json)} (hfields : fields.Perm ((bindings name values).drop k))
    {f : String} {v : Json} (hmem : (f, v) ∈ bindings name values) :
    (Json.obj (hint (hint fields "airdrop_id" (values.take k)[0]?) "recipient"
      (values.take k)[1]?)).get? f = some v := by
  have hkeys : (fields.map Prod.fst).Perm ((EVENT_FIELDS name).drop k) := by
    have := hfields.map Prod.fst
    rwa [List.map_drop, map_fst_bindings hlen] at this
  have hnodup : (fields.map Prod.fst).Nodup :=
    hkeys.nodup_iff.mpr ((nodup_fields name).sublist (List.drop_sublist _ _))
  obtain ⟨n, hn⟩ := List.getElem?_of_mem hmem
  obtain ⟨hf, hv⟩ : (EVENT_FIELDS name)[n]? = some f ∧ values[n]? = some v := by
    rw [bindings, List.zip, List.getElem?_zipWith] at hn
    cases hf : (EVENT_FIELDS name)[n]? <;> cases hv : values[n]? <;> simp_all
  have hpresent : isPresent (some v) = true := by
    have := hnull v (List.mem_of_getElem? hv)
    cases v <;> first | rfl | exact absurd rfl this
  by_cases hkn : k ≤ n
  · -- the value has it, and no topic replaces it
    have hget : (Json.obj fields).get? f = some v := by
      refine (get?_eq_some_iff hnodup).mpr (hfields.mem_iff.mpr ?_)
      refine List.mem_of_getElem? (i := n - k) ?_
      rw [List.getElem?_drop, Nat.add_sub_cancel' hkn, hn]
    have hfirst : (Json.obj (hint fields "airdrop_id" (values.take k)[0]?)).get? f = some v := by
      rw [get?_hint, if_neg, hget]
      rintro ⟨rfl, hnot, -⟩
      rw [hget, hpresent] at hnot
      cases hnot
    rw [get?_hint, if_neg, hfirst]
    rintro ⟨rfl, hnot, -⟩
    rw [hfirst, hpresent] at hnot
    cases hnot
  · have htopic : (values.take k)[n]? = some v := by
      rw [List.getElem?_take_of_lt (by omega), hv]
    have hnone : (Json.obj fields).get? f = none := by
      cases hget : (Json.obj fields).get? f with
      | none => rfl
      | some v' =>
        have hin := (get?_eq_some_iff hnodup).mp hget
        exact absurd (hkeys.mem_iff.mp (List.mem_map_of_mem hin)) (not_mem_drop hf (by omega))
    rcases Nat.eq_zero_or_pos n with rfl | hpos
    · -- the first topic is the airdrop
      obtain rfl : "airdrop_id" = f := Option.some.inj ((head_fields name).symm.trans hf)
      rw [get?_hint, if_neg fun hc => absurd hc.1 (by decide), get?_hint, htopic, hnone,
        if_pos ⟨rfl, rfl, hpresent⟩]
    · -- the second one is the recipient
      obtain ⟨-, hle | ⟨htwo, hrecipient⟩⟩ := hplain
      · omega
      obtain rfl : n = 1 := by omega
      obtain rfl : "recipient" = f := Option.some.inj (hrecipient.symm.trans hf)
      have hfirst : (Json.obj (hint fields "airdrop_id" (values.take k)[0]?)).get? "recipient" =
          none := by
        rw [get?_hint, if_neg fun hc => absurd hc.1 (by decide), hnone]
      rw [get?_hint, hfirst, htopic, if_pos ⟨rfl, rfl, hpresent⟩]

/-- A plain split is recovered. -/
theorem recovers_of_plain (hlen : values.length = (EVENT_FIELDS name).length)
    (hnull : ∀ v ∈ values, v ≠ .null) {shape : Shape} (hplain : Plain name k shape)
    {fields : List (String × Json)} (hfields : fields.Perm ((bindings name values).drop k)) :
    Recovers name values (.obj (hint (hint fields "airdrop_id" (values.take k)[0]?) "recipient"
      (values.take k)[1]?)) := by
  refine ⟨fun f v hmem => get?_of_plain hlen hnull hplain hfields hmem, fun key hkey => ?_⟩
  rw [get?_hint] at hkey
  split at hkey
  · -- a second topic that is taken for the recipient
    rename_i hc
    rw [hc.1]
    obtain ⟨-, hle | ⟨-, hrecipient⟩⟩ := hplain
    · rw [List.getElem?_eq_none (by simp only [List.length_take]; omega)] at hkey
      cases hkey
    · exact List.mem_of_getElem? hrecipient
  rw [get?_hint] at hkey
  split at hkey
  · rename_i hc
    rw [hc.1]
    exact List.mem_of_getElem? (head_fields name)
  · obtain ⟨v, hv⟩ := Option.isSome_iff_exists.mp hkey
    simp only [Json.get?, Option.map_eq_some_iff] at hv
    obtain ⟨e, he, -⟩ := hv
    have hname : e.1 = key := by simpa using List.find?_some he
    have hin := hfields.mem_iff.mp (List.mem_reverse.mp (List.mem_of_find?_eq_some he))
    have := List.mem_map_of_mem (f := Prod.fst) (List.mem_of_mem_drop hin)
    rwa [map_fst_bindings hlen, hname] at this

/-- **Field recovery.**  For every event, every values of its fields other than `null`, and every
way of writing the first `k` of them as topics and the others as a map, a tuple or a single value:
the parser binds every field to its value and nothing else if and only if the value is a map or a
tuple, and there is at most one topic, or two of which the second is the recipient. -/
theorem fields_recovered_iff (C : Codec) (now : ℕ) (name : EventName) {values : List Json}
    (hlen : values.length = (EVENT_FIELDS name).length) (hnull : ∀ v ∈ values, v ≠ .null)
    {k : ℕ} (hk : k ≤ values.length) {shape : Shape} {event : RawEvent C.ScVal}
    (h : Encodes C name values k shape event) :
    (∃ p, parseContractEvent C now event = some p ∧ p.event_name = name ∧
      Recovers name values p.data) ↔ Plain name k shape := by
  obtain ⟨p, hp, hname, hdata⟩ := parseContractEvent_of_topics now h.topics
  rw [List.length_take, Nat.min_eq_left hk] at hdata
  constructor
  · rintro ⟨p', hp', -, hrec⟩
    obtain rfl : p = p' := Option.some.inj (hp.symm.trans hp')
    rw [hdata] at hrec
    exact plain_of_recovers hlen hk h.value hrec
  · intro hplain
    refine ⟨p, hp, hname, ?_⟩
    rw [hdata]
    exact recovers_of_plain hlen hnull hplain (spread_dataFromValue hlen hk hplain.1 h.value)

/-- Values are JSON, and stand for themselves. -/
def jsonCodec : Codec where
  ScVal := Json
  decode v := v
  xdrBase64 _ := ""
  topicText _ := ""
  sha256 text := text

/-- An event of the given topics and value. -/
def encoded (topic : List Json) (value : Json) : RawEvent jsonCodec.ScVal where
  id := some "evt_1"
  type := "contract"
  ledger := 5
  ledgerClosedAt := none
  pagingToken := none
  contractId := none
  inSuccessfulContractCall := none
  topic
  value := some value

/-- The values of the fields of an airdrop that is created. -/
def createdValues : List Json :=
  [.str "drop_1", .str "GCREATOR", .str "USDC", .str "1000", .str "456"]

/-- A recipient whose id and airdrop are topics. -/
theorem fields_recovered_iff_sample :
    (∃ p, parseContractEvent jsonCodec 0 (encoded
        [.str "recipient_added", .str "drop_1", .str "GRECIPIENT"] (.arr [.str "250"])) = some p ∧
      p.event_name = .recipient_added ∧
      Recovers .recipient_added [.str "drop_1", .str "GRECIPIENT", .str "250"] p.data) ↔
    Plain .recipient_added 2 .tuple :=
  fields_recovered_iff jsonCodec 0 .recipient_added rfl (by simp) (by decide) ⟨rfl, rfl⟩

/-- The creator of an airdrop is taken for a recipient. -/
theorem creator_taken_for_recipient : ¬ ∀ (values : List Json) (k : ℕ)
    (event : RawEvent jsonCodec.ScVal), values.length = 5 → (∀ v ∈ values, v ≠ .null) → k ≤ 5 →
    Encodes jsonCodec .airdrop_created values k .tuple event →
    ∃ p, parseContractEvent jsonCodec 0 event = some p ∧ p.event_name = .airdrop_created ∧
      Recovers .airdrop_created values p.data := by
  intro hall
  have hevent : Encodes jsonCodec .airdrop_created createdValues 2 .tuple
      (encoded [.str "airdrop_created", .str "drop_1", .str "GCREATOR"]
        (.arr [.str "USDC", .str "1000", .str "456"])) := ⟨rfl, rfl⟩
  obtain ⟨p, hp, -, hrec⟩ := hall createdValues 2 _ rfl (by simp [createdValues]) (by decide) hevent
  obtain ⟨p', hp', -, hdata⟩ := parseContractEvent_of_topics 0 hevent.topics
  obtain rfl : p = p' := Option.some.inj (hp.symm.trans hp')
  rw [hdata] at hrec
  obtain ⟨-, hle | ⟨-, hrecipient⟩⟩ :=
    plain_of_recovers (k := 2) (by rfl) (by decide) hevent.value hrec
  · exact absurd hle (by decide)
  · exact absurd hrecipient (by decide)

end SmartDrop.Indexer
