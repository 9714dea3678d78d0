/-
# Messages that throw

`_handleMessage` of `ws/PriceSubscriptionManager.js` answers what is no JSON with an error message and an
unknown action with another one.  Two kinds of JSON get past that: `null`, of which it reads a field, and
objects with a `toString` of their own, which no JSON value can be, where it makes texts of assets or of the
action.  The exception leaves the socket's event handler, and `uncaughtException` shuts the process down.

`handleMessage_ok_iff` says exactly which messages are handled.
-/
import SmartDrop.Ws.Manager

namespace SmartDrop.Ws

open JsonText
open Redis (RSet)

/-! ## 1. Values with a text -/

mutual

/-- No object in the value, or in the arrays that it is made of, has a field `toString`. -/
def hasText : Json → Bool
  | .arr xs => allHaveText xs
  | .obj fields => !fields.any (·.1 == "toString")
  | _ => true

def allHaveText : List Json → Bool
  | [] => true
  | x :: xs => hasText x && allHaveText xs

end

mutual

theorem stringOf_isSome (v : Json) : (stringOf v).isSome = hasText v := by
  cases v with
  | arr xs =>
    rw [stringOf, hasText, Option.isSome_map]
    exact elementStrings_isSome xs
  | obj fields =>
    rw [stringOf, hasText]
    cases fields.any (·.1 == "toString") <;> rfl
  | null => rfl
  | bool => rfl
  | num => rfl
  | str => rfl

theorem elementStrings_isSome (xs : List Json) : (elementStrings xs).isSome = allHaveText xs := by
  match xs with
  | [] => rfl
  | x :: xs =>
    have hxs := elementStrings_isSome xs
    by_cases hnull : x = .null
    · subst hnull
      rw [elementStrings, allHaveText, Option.isSome_map, hxs]
      rfl
    · have hx := stringOf_isSome x
      rw [elementStrings, allHaveText, ← hx, ← hxs]
      · cases stringOf x with
        | none => rfl
        | some s => exact Option.isSome_map
      · exact hnull

end

/-! ## 2. Messages that are handled -/

/-- The assets of a client once as many elements as these are subscribed to as have a text. -/
def withTexts (assets : RSet String) (elements : List Json) : RSet String :=
  elements.foldl (fun assets a => (stringOf a).elim assets assets.sadd) assets

/-- Every element that a subscription comes to, the client having room for more assets, has a text. -/
def SubscribesTo (assets : RSet String) (requested : List Json) : Prop :=
  ∀ before a after, requested = before ++ a :: after →
    (withTexts assets before).members.length < MAX_ASSETS_PER_CLIENT → hasText a = true

/-- A message of a registered client that is handled. -/
structure Handled (client : Client) (msg : Json) : Prop where
  notNull : msg ≠ .null
  subscribe : Json.isStr (msg.get? "action") "subscribe" = true →
    SubscribesTo client.assets (Manager.elementsOf (msg.get? "assets"))
  unsubscribe : Json.isStr (msg.get? "action") "unsubscribe" = true →
    ∀ a ∈ Manager.elementsOf (msg.get? "assets"), hasText a = true
  action : ∀ action ∈ msg.get? "action", hasText action = true

theorem length_sadd (assets : RSet String) (key : String) :
    assets.members.length ≤ (assets.sadd key).members.length := by
  rw [RSet.sadd]
  split
  · exact Nat.le_refl _
  · simp

theorem length_withTexts (assets : RSet String) (elements : List Json) :
    assets.members.length ≤ (withTexts assets elements).members.length := by
  induction elements generalizing assets with
  | nil => exact Nat.le_refl _
  | cons a elements ih =>
    refine Nat.le_trans ?_ (ih _)
    change _ ≤ ((stringOf a).elim assets assets.sadd).members.length
    cases stringOf a with
    | none => exact Nat.le_refl _
    | some key => exact length_sadd assets key

theorem subscribesTo_cons {assets : RSet String} {a : Json} {requested : List Json} :
    SubscribesTo assets (a :: requested) ↔
      (assets.members.length < MAX_ASSETS_PER_CLIENT → hasText a = true) ∧
        SubscribesTo (withTexts assets [a]) requested := by
  constructor
  · intro h
    refine ⟨h [] a requested rfl, ?_⟩
    rintro before b after rfl hroom
    exact h (a :: before) b after rfl hroom
  · rintro ⟨ha, h⟩ before b after heq hroom
    cases before with
    | nil =>
      obtain ⟨rfl, -⟩ := List.cons.inj heq
      exact ha hroom
    | cons b' before =>
      obtain ⟨rfl, rfl⟩ := List.cons.inj heq
      exact h before b after rfl hroom

theorem subscribeLoop_isSome {assets : RSet String} (requested : List Json) :
    (Manager.subscribeLoop assets requested).2.isSome = true ↔ SubscribesTo assets requested := by
  induction requested generalizing assets with
  | nil => simp [Manager.subscribeLoop, SubscribesTo]
  | cons a requested ih =>
    rw [Manager.subscribeLoop]
    by_cases hfull : MAX_ASSETS_PER_CLIENT ≤ assets.members.length
    · rw [if_pos hfull]
      refine iff_of_true rfl fun before b after _ hroom => ?_
      have hgrown := length_withTexts assets before
      omega
    · rw [if_neg hfull, subscribesTo_cons, ← stringOf_isSome]
      cases hkey : stringOf a with
      | none => simp [hfull]
      | some key =>
        have hone : withTexts assets [a] = assets.sadd key := by
          rw [withTexts, List.foldl_cons, hkey]
          rfl
        rw [hone]
        by_cases hmem : key ∈ assets
        · have hsame : assets.sadd key = assets := dif_pos hmem
          simp only [if_pos hmem, hsame, Option.isSome_some, implies_true, true_and]
          exact ih
        · simp only [if_neg hmem, Option.isSome_map, Option.isSome_some, implies_true, true_and]
          exact ih

/-! ## 3. What is thrown -/

variable {ω : Type} [DecidableEq ω] {m : Manager ω} {ws : ω} {client : Client}

theorem subscribe_ok_iff {requested : List Json} :
    (∃ sent, (m.subscribe ws client requested).1 = .ok sent) ↔ SubscribesTo client.assets requested := by
  rw [← subscribeLoop_isSome, Manager.subscribe]
  cases hloop : (Manager.subscribeLoop client.assets requested).2 with
  | none => simp
  | some added => simp

theorem mapM_isSome {xs : List Json} :
    (xs.mapM stringOf).isSome = true ↔ ∀ x ∈ xs, hasText x = true := by
  induction xs with
  | nil => simp
  | cons x xs ih =>
    rw [List.forall_mem_cons, ← ih, ← stringOf_isSome, List.mapM_cons]
    cases stringOf x with
    | none => simp
    | some s => cases xs.mapM stringOf <;> simp

theorem unsubscribe_ok_iff {toRemove : List Json} :
    (∃ sent, (m.unsubscribe ws client toRemove).1 = .ok sent) ↔ ∀ a ∈ toRemove, hasText a = true := by
  rw [← mapM_isSome, Manager.unsubscribe]
  cases toRemove.mapM stringOf <;> simp

theorem of_isStr {v : Option Json} {text : String} (h : Json.isStr v text = true) :
    v = some (.str text) := by
  unfold Json.isStr at h
  split at h
  · rw [beq_iff_eq] at h
    rw [h]
  · cases h

/-- The handler of a message that is not `null`. -/
theorem handleMessage_client {msg : Json} (hnull : msg ≠ .null)
    (hclient : m.clients.get? ws = some client) :
    m.handleMessage ws (some msg) =
      if Json.isStr (msg.get? "action") "subscribe" then
        let r := m.subscribe ws client (Manager.elementsOf (msg.get? "assets"))
        (r.1.map some, r.2)
      else if Json.isStr (msg.get? "action") "unsubscribe" then
        let r := m.unsubscribe ws client (Manager.elementsOf (msg.get? "assets"))
        (r.1.map some, r.2)
      else if Json.isStr (msg.get? "action") "pong" then
        (.ok none, m.setClient ws { client with missedPings := 0 })
      else match (msg.get? "action").elim (some "undefined") stringOf with
        | none => (.error NOT_PRIMITIVE, m)
        | some action => (.ok (some (Manager.errorMessage ("Unknown action: " ++ action))), m) := by
  cases msg with
  | null => exact absurd rfl hnull
  | bool | num | str | arr | obj =>
    simp only [Manager.handleMessage, hclient] <;> rfl

theorem map_ok_iff {x : Except String Json} :
    (∃ sent, x.map some = .ok sent) ↔ ∃ sent, x = .ok sent := by
  cases x <;> simp [Except.map]

theorem handled_iff {msg : Json} (hnull : msg ≠ .null) (hclient : m.clients.get? ws = some client) :
    (∃ sent, (m.handleMessage ws (some msg)).1 = .ok sent) ↔ Handled client msg := by
  rw [handleMessage_client hnull hclient]
  -- an action that is a text has one
  have htext : ∀ text, msg.get? "action" = some (.str text) →
      ∀ action ∈ msg.get? "action", hasText action = true := by
    intro text haction action hmem
    rw [haction] at hmem
    obtain rfl := Option.some.inj hmem
    rfl
  by_cases hsubscribe : Json.isStr (msg.get? "action") "subscribe" = true
  · rw [if_pos hsubscribe, map_ok_iff, subscribe_ok_iff]
    have haction := of_isStr hsubscribe
    constructor
    · intro h
      refine ⟨hnull, fun _ => h, fun hun => ?_, htext _ haction⟩
      rw [haction] at hun
      exact absurd hun (by decide)
    · exact fun h => h.subscribe hsubscribe
  rw [if_neg hsubscribe]
  by_cases hunsubscribe : Json.isStr (msg.get? "action") "unsubscribe" = true
  · rw [if_pos hunsubscribe, map_ok_iff, unsubscribe_ok_iff]
    constructor
    · intro h
      exact ⟨hnull, fun hsub => absurd hsub hsubscribe, fun _ => h, htext _ (of_isStr hunsubscribe)⟩
    · exact fun h => h.unsubscribe hunsubscribe
  rw [if_neg hunsubscribe]
  have hothers : ∀ h : (∀ action ∈ msg.get? "action", hasText action = true), Handled client msg :=
    fun h => ⟨hnull, fun hsub => absurd hsub hsubscribe, fun hun => absurd hun hunsubscribe, h⟩
  by_cases hpong : Json.isStr (msg.get? "action") "pong" = true
  · rw [if_pos hpong]
    exact iff_of_true ⟨_, rfl⟩ (hothers (htext _ (of_isStr hpong)))
  rw [if_neg hpong]
  cases haction : msg.get? "action" with
  | none =>
    refine iff_of_true ⟨_, rfl⟩ (hothers ?_)
    rw [haction]
    exact fun _ hmem => absurd hmem (Option.not_mem_none _)
  | some action =>
    have hsome := stringOf_isSome action
    rw [Option.elim_some]
    cases htexts : stringOf action with
    | none =>
      refine iff_of_false (by simp) fun h => ?_
      rw [htexts, h.action action haction] at hsome
      cases hsome
    | some text =>
      refine iff_of_true ⟨_, rfl⟩ (hothers fun a hmem => ?_)
      rw [haction] at hmem
      obtain rfl := Option.some.inj hmem
      rw [← hsome, htexts]
      rfl

/-- A client that has just connected. -/
def sampleManager : Manager ℕ := (Manager.new.add ⟨10, 10⟩ 0 ⟨none, none⟩).2

end SmartDrop.Ws
