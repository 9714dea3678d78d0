/-
# The indexes of the subscription manager

What the manager keeps twice, it keeps in step (`Consistent`): the subscribers of an asset are the
sockets whose client has it, the count of an address is the number of its sockets, and the caps hold.

Two kinds of events break this, and no others (`consistent_iff`).  A subscription that throws in the
middle of its list has added assets to the client that the index does not get.  And a socket whose
address is the empty text is counted under that text but counted down under `unknown`.
-/
import SmartDrop.Lib.Run
import SmartDrop.Ws.Manager
import Mathlib.Data.List.Count

namespace SmartDrop.Ws

open Conc JsonText
open Redis (RSet)

namespace Manager

variable {ω : Type} [DecidableEq ω]

/-! ## 1. The index of the assets -/

/-- The index lists what `has` says, and no empty set. -/
structure Indexes (index : JsMap String (RSet ω)) (has : ω → String → Prop) : Prop where
  mem_iff : ∀ ws a, (∃ subs, index.get? a = some subs ∧ ws ∈ subs) ↔ has ws a
  ne_empty : ∀ a subs, index.get? a = some subs → subs.members ≠ []

section Indexes

variable {subs : JsMap String (RSet ω)} {has has' : ω → String → Prop} {ws : ω}

omit [DecidableEq ω] in
theorem Indexes.congr (h : Indexes subs has) (hh : ∀ w a, has' w a ↔ has w a) :
    Indexes subs has' :=
  ⟨fun w a => (h.mem_iff w a).trans (hh w a).symm, h.ne_empty⟩

theorem mem_unindex {asset b : String} {w : ω} :
    (∃ s, (unindex subs ws asset).get? b = some s ∧ w ∈ s) ↔
      (∃ s, subs.get? b = some s ∧ w ∈ s) ∧ ¬ (w = ws ∧ b = asset) := by
  rw [unindex]
  cases hget : subs.get? asset with
  | none =>
    refine ⟨fun ⟨s, hb, hw⟩ => ⟨⟨s, hb, hw⟩, ?_⟩, fun h => h.1⟩
    rintro ⟨-, rfl⟩
    rw [hget] at hb
    cases hb
  | some s =>
    by_cases hb : b = asset
    · subst hb
      dsimp only
      split
      · rename_i hnil
        have hgone : w ∉ s.srem ws := by simp [← Redis.RSet.mem_members, hnil]
        simp only [JsMap.get?_delete_self, hget, Option.some.injEq, exists_eq_left', reduceCtorEq,
          false_and, exists_false, false_iff, and_true, not_and, not_not]
        intro hw
        by_contra hne
        exact hgone (Redis.RSet.mem_srem.mpr ⟨hw, hne⟩)
      · simp [hget]
    · have hsame : ∀ t, (if (s.srem ws).members = [] then subs.delete asset
          else subs.set asset (s.srem ws)).get? b = some t ↔ subs.get? b = some t := by
        intro t
        split
        · rw [JsMap.get?_delete_of_ne hb]
        · rw [JsMap.get?_set_of_ne hb]
      simp only [hsame, hb, and_false, not_false_eq_true, and_true]

theorem Indexes.unindex (h : Indexes subs has) (asset : String) :
    Indexes (unindex subs ws asset) fun w b => has w b ∧ ¬ (w = ws ∧ b = asset) := by
  refine ⟨fun w b => by rw [mem_unindex, h.mem_iff], fun b s hs => ?_⟩
  rw [Manager.unindex] at hs
  split at hs
  · exact h.ne_empty b s hs
  split at hs
  · rw [JsMap.get?_delete] at hs
    split at hs
    · cases hs
    · exact h.ne_empty b s hs
  · rename_i hne
    rw [JsMap.get?_set] at hs
    split at hs
    · obtain rfl := Option.some.inj hs
      exact hne
    · exact h.ne_empty b s hs

theorem Indexes.removeFrom (h : Indexes subs has) (assets : List String) :
    Indexes (removeFromAssetIndex subs ws assets) fun w b => has w b ∧ ¬ (w = ws ∧ b ∈ assets) := by
  induction assets generalizing subs has with
  | nil => exact h.congr (by simp)
  | cons asset assets ih =>
    refine (ih (h.unindex asset)).congr fun w b => ?_
    simp only [List.mem_cons]
    tauto

theorem Indexes.index (h : Indexes subs has) (asset : String) :
    Indexes (Manager.index subs ws asset) fun w b => has w b ∨ (w = ws ∧ b = asset) := by
  refine ⟨fun w b => ?_, fun b s hs => ?_⟩
  · rw [← h.mem_iff, Manager.index]
    by_cases hb : b = asset
    · subst hb
      cases hget : subs.get? b <;> simp
    · simp [JsMap.get?_set_of_ne hb, hb]
  · rw [Manager.index, JsMap.get?_set] at hs
    split at hs
    · obtain rfl := Option.some.inj hs
      have hmem : ws ∈ ((subs.get? asset).getD .empty).sadd ws := by simp
      exact List.ne_nil_of_mem hmem
    · exact h.ne_empty b s hs

theorem Indexes.addTo (h : Indexes subs has) (assets : List String) :
    Indexes (addToAssetIndex subs ws assets) fun w b => has w b ∨ (w = ws ∧ b ∈ assets) := by
  induction assets generalizing subs has with
  | nil => exact h.congr (by simp)
  | cons asset assets ih =>
    refine (ih (h.index asset)).congr fun w b => ?_
    simp only [List.mem_cons]
    tauto

end Indexes

/-! ## 2. What is kept twice -/

/-- The client of the socket has the asset. -/
def Subscribed (m : Manager ω) (ws : ω) (asset : String) : Prop :=
  ∃ client, m.clients.get? ws = some client ∧ asset ∈ client.assets

/-- How many registered sockets are from an address. -/
def connectionsFrom (m : Manager ω) (ip : String) : ℕ :=
  m.clients.keys.countP fun ws => m.clientIpBySocket.get? ws = some ip

/-- The indexes and the counts agree with the clients, and the caps hold. -/
structure Consistent (config : Config) (m : Manager ω) : Prop where
  indexes : Indexes m.assetSubscribers m.Subscribed
  counts : ∀ ip, (m.connectionsByIp.get? ip).getD 0 = m.connectionsFrom ip
  no_zero : ∀ ip, m.connectionsByIp.get? ip ≠ some 0
  assets_le : ∀ ws client, m.clients.get? ws = some client →
    client.assets.members.length ≤ MAX_ASSETS_PER_CLIENT
  ip_le : ∀ ip, m.connectionsFrom ip ≤ config.maxConnectionsPerIp
  size_le : m.clients.size ≤ config.maxConnections

/-- Every registered socket has an address, and no other socket has. -/
def Registered (m : Manager ω) : Prop := m.clientIpBySocket.keys = m.clients.keys

variable {config : Config} {m : Manager ω} {ws : ω}

theorem Registered.isSome_iff (h : m.Registered) :
    (m.clientIpBySocket.get? ws).isSome ↔ (m.clients.get? ws).isSome := by
  rw [JsMap.get?_isSome, JsMap.get?_isSome, h]

theorem new_consistent : Consistent config (Manager.new : Manager ω) where
  indexes := ⟨fun ws a => by simp [Manager.new, Subscribed], fun a subs h => (nomatch h)⟩
  counts ip := rfl
  no_zero ip h := nomatch h
  assets_le ws client h := nomatch h
  ip_le ip := Nat.zero_le _
  size_le := Nat.zero_le _

/-! ## 3. Registering -/

theorem connectionsFrom_set (ip clientIp : String) (client : Client)
    (hws : ws ∉ m.clients.keys) (byIp : JsMap String ℕ) :
    connectionsFrom { m with
        clients := m.clients.set ws client
        clientIpBySocket := m.clientIpBySocket.set ws clientIp
        connectionsByIp := byIp } ip =
      m.connectionsFrom ip + if clientIp = ip then 1 else 0 := by
  have hold : m.clients.keys.countP (fun w => (m.clientIpBySocket.set ws clientIp).get? w = some ip) =
      m.connectionsFrom ip := by
    refine List.countP_congr fun w hw => ?_
    have hne : w ≠ ws := fun e => hws (e ▸ hw)
    rw [JsMap.get?_set_of_ne hne]
  simp only [connectionsFrom, JsMap.keys_set_of_not_mem hws, List.countP_append, hold]
  simp [List.countP_cons]

theorem add_consistent (h : Consistent config m) (hreg : m.Registered) (hws : ws ∉ m.clients.keys)
    (req : Request) :
    Consistent config (m.add config ws req).2 ∧ (m.add config ws req).2.Registered := by
  rw [add]
  split
  · exact ⟨h, hreg⟩
  dsimp only
  split
  · exact ⟨h, hreg⟩
  rename_i hroom
  generalize withoutMapping (getClientIp req) = clientIp at hroom ⊢
  obtain ⟨hsize, hip⟩ : m.clients.size < config.maxConnections ∧
      (m.connectionsByIp.get? clientIp).getD 0 < config.maxConnectionsPerIp := by
    simpa only [Bool.or_eq_true, decide_eq_true_eq, not_or, not_le] using hroom
  have hnone : m.clients.get? ws = none := JsMap.get?_eq_none.mpr hws
  have hcount := fun ip => connectionsFrom_set ip clientIp ⟨.empty, 0⟩ hws
      (m.connectionsByIp.set clientIp ((m.connectionsByIp.get? clientIp).getD 0 + 1))
  refine ⟨⟨?_, fun ip => ?_, fun ip hzero => ?_, fun w client hw => ?_, fun ip => ?_, ?_⟩, ?_⟩
  · refine h.indexes.congr fun w a => ?_
    by_cases hw : w = ws
    · subst hw
      simp [Subscribed, hnone]
    · simp [Subscribed, JsMap.get?_set_of_ne hw]
  · rw [hcount, ← h.counts]
    by_cases he : clientIp = ip
    · subst he
      simp
    · simp [JsMap.get?_set_of_ne (Ne.symm he), he]
  · rw [JsMap.get?_set] at hzero
    split at hzero
    · simp at hzero
    · exact h.no_zero ip hzero
  · rw [JsMap.get?_set] at hw
    split at hw
    · obtain rfl := Option.some.inj hw
      exact Nat.zero_le _
    · exact h.assets_le w client hw
  · rw [hcount, ← h.counts]
    by_cases he : clientIp = ip
    · subst he
      simpa using Nat.succ_le_of_lt hip
    · simpa [he, h.counts] using h.ip_le ip
  · simpa [JsMap.size_eq, JsMap.keys_set_of_not_mem hws] using Nat.succ_le_of_lt hsize
  · have hws' : ws ∉ m.clientIpBySocket.keys := hreg ▸ hws
    simp only [Registered, JsMap.keys_set_of_not_mem hws, JsMap.keys_set_of_not_mem hws']
    rw [hreg]

/-! ## 4. Removing -/

/-- The address under which a removed socket is counted down. -/
def countedDown (m : Manager ω) (ws : ω) : String :=
  ((m.clientIpBySocket.get? ws).filter (· ≠ "")).getD "unknown"

theorem countedDown_ne_empty : m.countedDown ws ≠ "" := by
  rw [countedDown]
  cases m.clientIpBySocket.get? ws with
  | none => simp
  | some ip =>
    by_cases hip : ip = ""
    · simp [Option.filter, hip]
    · simp [Option.filter, hip]

theorem remove_of_not_mem (h : ws ∉ m.clients.keys) : m.remove ws = m := by
  rw [remove, JsMap.get?_eq_none.mpr h]

theorem remove_eq {client : Client} (h : m.clients.get? ws = some client) :
    m.remove ws = { m with
      assetSubscribers := removeFromAssetIndex m.assetSubscribers ws client.assets.members
      clients := m.clients.delete ws
      clientIpBySocket := m.clientIpBySocket.delete ws
      connectionsByIp := countDown m.connectionsByIp (m.countedDown ws) } := by
  rw [remove, h]
  rfl

theorem get?_countDown {counts : JsMap String ℕ} {ip clientIp : String}
    (hzero : ∀ ip, counts.get? ip ≠ some 0) :
    ((countDown counts clientIp).get? ip).getD 0 =
      (counts.get? ip).getD 0 - if clientIp = ip then 1 else 0 := by
  have hvalue : ((counts.get? clientIp).filter (· ≠ 0)).getD 1 - 1 =
      (counts.get? clientIp).getD 0 - 1 := by
    cases hget : counts.get? clientIp with
    | none => rfl
    | some n =>
      have hn : n ≠ 0 := fun hn => hzero clientIp (hn ▸ hget)
      simp [Option.filter, hn]
  rw [countDown, hvalue]
  by_cases he : clientIp = ip
  · subst he
    split
    · rename_i hnil
      simp [hnil]
    · simp
  · have he' : ip ≠ clientIp := fun e => he e.symm
    split
    · simp [JsMap.get?_delete_of_ne he']
    · simp [JsMap.get?_set_of_ne he']

theorem countDown_no_zero {counts : JsMap String ℕ} {ip clientIp : String}
    (hzero : ∀ ip, counts.get? ip ≠ some 0) : (countDown counts clientIp).get? ip ≠ some 0 := by
  rw [countDown]
  split
  · rw [JsMap.get?_delete]
    split
    · simp
    · exact hzero ip
  · rename_i hne
    rw [JsMap.get?_set]
    split
    · simpa using hne
    · exact hzero ip

/-- A removed socket is no longer counted. -/
theorem connectionsFrom_remove (ip : String) (hws : ws ∈ m.clients.keys) :
    (m.remove ws).connectionsFrom ip =
      m.connectionsFrom ip - if m.clientIpBySocket.get? ws = some ip then 1 else 0 := by
  obtain ⟨client, hclient⟩ := Option.isSome_iff_exists.mp (JsMap.get?_isSome.mpr hws)
  rw [remove_eq hclient]
  have hcongr : (m.clients.keys.erase ws).countP
      (fun w => (m.clientIpBySocket.delete ws).get? w = some ip) =
        (m.clients.keys.erase ws).countP fun w => m.clientIpBySocket.get? w = some ip := by
    refine List.countP_congr fun w hw => ?_
    have hne : w ≠ ws := (m.clients.nodup_keys.mem_erase_iff.mp hw).1
    rw [JsMap.get?_delete_of_ne hne]
  simp only [connectionsFrom, JsMap.keys_delete, hcongr, List.countP_erase, hws, true_and,
    decide_eq_true_eq]

theorem remove_registered (h : m.Registered) : (m.remove ws).Registered := by
  by_cases hws : ws ∈ m.clients.keys
  · obtain ⟨client, hclient⟩ := Option.isSome_iff_exists.mp (JsMap.get?_isSome.mpr hws)
    rw [remove_eq hclient]
    simp only [Registered, JsMap.keys_delete]
    rw [h]
  · rwa [remove_of_not_mem hws]

/-- **Removing a socket keeps everything in step**, unless its address is the empty text. -/
theorem remove_consistent (h : Consistent config m) (hreg : m.Registered)
    (hip : m.clientIpBySocket.get? ws ≠ some "") : Consistent config (m.remove ws) := by
  by_cases hws : ws ∈ m.clients.keys
  · obtain ⟨client, hclient⟩ := Option.isSome_iff_exists.mp (JsMap.get?_isSome.mpr hws)
    obtain ⟨clientIp, hclientIp⟩ := Option.isSome_iff_exists.mp
      (hreg.isSome_iff.mpr (JsMap.get?_isSome.mpr hws))
    have hdown : m.countedDown ws = clientIp := by
      have hne : clientIp ≠ "" := fun e => hip (e ▸ hclientIp)
      simp [countedDown, hclientIp, Option.filter, hne]
    have hcount := fun ip => connectionsFrom_remove ip hws
    have hle : ∀ ip, (m.remove ws).connectionsFrom ip ≤ m.connectionsFrom ip := fun ip => by
      rw [hcount]
      exact Nat.sub_le _ _
    refine ⟨?_, fun ip => ?_, fun ip => ?_, fun w c hw => ?_, fun ip => (hle ip).trans (h.ip_le ip),
      ?_⟩
    · rw [remove_eq hclient]
      refine (h.indexes.removeFrom client.assets.members).congr fun w a => ?_
      by_cases hw : w = ws
      · subst hw
        simp [Subscribed, hclient]
      · simp [Subscribed, JsMap.get?_delete_of_ne hw, hw]
    · rw [hcount, remove_eq hclient]
      simp only [get?_countDown h.no_zero, h.counts, hdown, hclientIp, Option.some.injEq]
    · rw [remove_eq hclient]
      exact countDown_no_zero h.no_zero
    · rw [remove_eq hclient] at hw
      simp only [JsMap.get?_delete] at hw
      split at hw
      · cases hw
      · exact h.assets_le w c hw
    · refine le_trans ?_ h.size_le
      rw [remove_eq hclient, JsMap.size_eq, JsMap.size_eq, JsMap.keys_delete]
      exact List.length_erase_le
  · rwa [remove_of_not_mem hws]

/-- The count of the empty text is never touched by a removal. -/
theorem counted_empty_remove : (m.remove ws).connectionsByIp.get? "" = m.connectionsByIp.get? "" := by
  by_cases hws : ws ∈ m.clients.keys
  · obtain ⟨client, hclient⟩ := Option.isSome_iff_exists.mp (JsMap.get?_isSome.mpr hws)
    have hne : "" ≠ m.countedDown ws := countedDown_ne_empty.symm
    rw [remove_eq hclient]
    dsimp only [countDown]
    split
    · rw [JsMap.get?_delete_of_ne hne]
    · rw [JsMap.get?_set_of_ne hne]
  · rw [remove_of_not_mem hws]

theorem connectionsFrom_remove_le {ip : String} :
    (m.remove ws).connectionsFrom ip ≤ m.connectionsFrom ip := by
  by_cases hws : ws ∈ m.clients.keys
  · rw [connectionsFrom_remove _ hws]
    exact Nat.sub_le _ _
  · rw [remove_of_not_mem hws]

/-- The address of a socket that is still registered. -/
theorem get?_remove {w : ω} (h : m.Registered) : (m.remove ws).clientIpBySocket.get? w =
    if w = ws then none else m.clientIpBySocket.get? w := by
  by_cases hws : ws ∈ m.clients.keys
  · obtain ⟨client, hclient⟩ := Option.isSome_iff_exists.mp (JsMap.get?_isSome.mpr hws)
    rw [remove_eq hclient, JsMap.get?_delete]
  · rw [remove_of_not_mem hws]
    split
    · rename_i hw
      subst hw
      exact JsMap.get?_eq_none.mpr (h ▸ hws)
    · rfl

section RemoveAll

variable {sockets : List ω}

theorem removeAll_registered (h : m.Registered) : (m.removeAll sockets).Registered := by
  induction sockets generalizing m with
  | nil => exact h
  | cons w sockets ih => exact ih (remove_registered h)

theorem removeAll_consistent (h : Consistent config m) (hreg : m.Registered)
    (hip : ∀ ws ∈ sockets, m.clientIpBySocket.get? ws ≠ some "") :
    Consistent config (m.removeAll sockets) := by
  induction sockets generalizing m with
  | nil => exact h
  | cons w sockets ih =>
    obtain ⟨hw, hsockets⟩ := List.forall_mem_cons.mp hip
    refine ih (remove_consistent h hreg hw) (remove_registered hreg) fun ws hws => ?_
    rw [get?_remove hreg]
    split
    · simp
    · exact hsockets ws hws

theorem counted_empty_removeAll :
    (m.removeAll sockets).connectionsByIp.get? "" = m.connectionsByIp.get? "" := by
  induction sockets generalizing m with
  | nil => rfl
  | cons w sockets ih => exact (ih (m := m.remove w)).trans counted_empty_remove

theorem connectionsFrom_removeAll_le {ip : String} :
    (m.removeAll sockets).connectionsFrom ip ≤ m.connectionsFrom ip := by
  induction sockets generalizing m with
  | nil => exact le_refl _
  | cons w sockets ih => exact (ih (m := m.remove w)).trans connectionsFrom_remove_le

/-- Once a socket with the empty address is gone, fewer are connected than are counted. -/
theorem connectionsFrom_removeAll_lt (hreg : m.Registered)
    (hip : ∃ ws ∈ sockets, m.clientIpBySocket.get? ws = some "") :
    (m.removeAll sockets).connectionsFrom "" < m.connectionsFrom "" := by
  induction sockets generalizing m with
  | nil => simp at hip
  | cons w sockets ih =>
    by_cases hw : m.clientIpBySocket.get? w = some ""
    · have hmem : w ∈ m.clients.keys := hreg ▸ JsMap.mem_keys_of_get? hw
      have hpos : 0 < m.connectionsFrom "" := List.countP_pos_iff.mpr ⟨w, hmem, by simp [hw]⟩
      have hlt : (m.remove w).connectionsFrom "" < m.connectionsFrom "" := by
        rw [connectionsFrom_remove _ hmem, if_pos hw]
        omega
      exact (connectionsFrom_removeAll_le (m := m.remove w)).trans_lt hlt
    · obtain ⟨ws, hws, hempty⟩ := hip
      have hne : ws ≠ w := by
        rintro rfl
        exact hw hempty
      have hrest : ∃ ws ∈ sockets, (m.remove w).clientIpBySocket.get? ws = some "" := by
        refine ⟨ws, (List.mem_cons.mp hws).resolve_left hne, ?_⟩
        rw [get?_remove hreg, if_neg hne, hempty]
      exact (ih (remove_registered hreg) hrest).trans_le connectionsFrom_remove_le

variable (sockets) in
/-- **Removals keep everything in step exactly when no removed socket has the empty address.** -/
theorem removeAll_consistent_iff (h : Consistent config m) (hreg : m.Registered) :
    Consistent config (m.removeAll sockets) ↔
      ∀ ws ∈ sockets, m.clientIpBySocket.get? ws ≠ some "" := by
  refine ⟨fun hafter ws hws hempty => ?_, removeAll_consistent h hreg⟩
  have hlt := connectionsFrom_removeAll_lt hreg ⟨ws, hws, hempty⟩
  rw [← hafter.counts, counted_empty_removeAll, h.counts] at hlt
  exact lt_irrefl _ hlt

end RemoveAll

/-! ## 5. Subscribing -/

/-- What the loop of a subscription adds is new, and within the cap. -/
theorem subscribeLoop_spec {assets : RSet String} (requested : List Json)
    (h : assets.members.length ≤ MAX_ASSETS_PER_CLIENT) :
    (subscribeLoop assets requested).1.members.length ≤ MAX_ASSETS_PER_CLIENT ∧
      (∀ a ∈ assets, a ∈ (subscribeLoop assets requested).1) ∧
      ∀ added, (subscribeLoop assets requested).2 = some added →
        ∀ a, a ∈ (subscribeLoop assets requested).1 ↔ a ∈ assets ∨ a ∈ added := by
  induction requested generalizing assets with
  | nil => exact ⟨h, fun _ ha => ha, fun added hadded a => by
      obtain rfl : [] = added := Option.some.inj hadded
      simp [subscribeLoop]⟩
  | cons x requested ih =>
    rw [subscribeLoop]
    split
    · refine ⟨h, fun _ ha => ha, fun added hadded a => ?_⟩
      obtain rfl : [] = added := Option.some.inj hadded
      simp
    rename_i hroom
    split
    · exact ⟨h, fun _ ha => ha, fun added hadded => (nomatch hadded)⟩
    rename_i key hkey
    split
    · exact ih h
    · rename_i hnew
      have hlen : (assets.sadd key).members.length ≤ MAX_ASSETS_PER_CLIENT := by
        have hnew' : key ∉ assets.members := hnew
        simp only [RSet.sadd, hnew', dite_false, List.length_append, List.length_singleton]
        omega
      obtain ⟨hcap, hkeep, hadd⟩ := ih hlen
      refine ⟨hcap, fun a ha => hkeep a (Redis.RSet.mem_sadd.mpr (.inl ha)), fun added hadded a => ?_⟩
      obtain ⟨rest, hrest, rfl⟩ := Option.map_eq_some_iff.mp hadded
      rw [hadd rest hrest, Redis.RSet.mem_sadd, List.mem_cons, or_assoc]

/-- A changed client, with an index that follows. -/
theorem setClient_consistent {client client' : Client} (subs : JsMap String (RSet ω))
    (h : Consistent config m) (hclient : m.clients.get? ws = some client)
    (hlen : client'.assets.members.length ≤ MAX_ASSETS_PER_CLIENT)
    (hsubs : Indexes subs fun w a => if w = ws then a ∈ client'.assets else m.Subscribed w a) :
    Consistent config { m.setClient ws client' with assetSubscribers := subs } := by
  have hmem : ws ∈ m.clients.keys := JsMap.mem_keys_of_get? hclient
  have hkeys : (m.clients.set ws client').keys = m.clients.keys := JsMap.keys_set_of_mem hmem
  have hfrom : ∀ ip, connectionsFrom { m.setClient ws client' with assetSubscribers := subs } ip =
      m.connectionsFrom ip := fun ip => congrArg (List.countP _) hkeys
  refine ⟨hsubs.congr fun w a => ?_, fun ip => ?_, h.no_zero, fun w c hw => ?_, fun ip => ?_, ?_⟩
  · by_cases hw : w = ws
    · subst hw
      simp [Subscribed, setClient]
    · simp [Subscribed, setClient, JsMap.get?_set_of_ne hw, hw]
  · rw [hfrom, ← h.counts]
    rfl
  · simp only [setClient, JsMap.get?_set] at hw
    split at hw
    · obtain rfl := Option.some.inj hw
      exact hlen
    · exact h.assets_le w c hw
  · rw [hfrom]
    exact h.ip_le ip
  · simpa only [setClient, JsMap.size_eq, hkeys] using h.size_le

/-- The subscription stops in the middle: it has added an asset and then throws. -/
def StopsHalfway (client : Client) (requested : List Json) : Prop :=
  (subscribeLoop client.assets requested).2 = none ∧
    ∃ a ∈ (subscribeLoop client.assets requested).1.members, a ∉ client.assets

instance (client : Client) (requested : List Json) : Decidable (StopsHalfway client requested) :=
  inferInstanceAs (Decidable (_ ∧ _))

/-- **A subscription keeps everything in step exactly when it does not stop in the middle.** -/
theorem subscribe_consistent_iff {client : Client} {requested : List Json}
    (h : Consistent config m) (hclient : m.clients.get? ws = some client) :
    Consistent config (m.subscribe ws client requested).2 ↔ ¬ StopsHalfway client requested := by
  obtain ⟨hcap, hkeep, hadd⟩ := subscribeLoop_spec requested
    (h.assets_le ws client hclient)
  have hhas : ∀ a, m.Subscribed ws a ↔ a ∈ client.assets := fun a => by
    simp [Subscribed, hclient]
  rw [StopsHalfway, subscribe]
  generalize hloop : subscribeLoop client.assets requested = loop at hcap hkeep hadd ⊢
  cases hadded : loop.2 with
  | none =>
    dsimp only
    constructor
    · -- the index still says what it said before
      rintro hafter ⟨-, a, ha, hnew⟩
      refine hnew ?_
      have hsub : (m.setClient ws { client with assets := loop.1 }).Subscribed ws a := by
        simpa [Subscribed, setClient] using ha
      exact (hhas a).mp ((h.indexes.mem_iff ws a).mp ((hafter.indexes.mem_iff ws a).mpr hsub))
    · intro hnot
      refine setClient_consistent m.assetSubscribers h hclient hcap
        (h.indexes.congr fun w a => ?_)
      split
      · rename_i hw
        rw [hw, hhas]
        refine ⟨fun ha => ?_, hkeep a⟩
        by_contra hnew
        exact hnot ⟨rfl, a, ha, hnew⟩
      · rfl
  | some added =>
    refine iff_of_true (setClient_consistent _ h hclient hcap
      ((h.indexes.addTo added).congr fun w a => ?_)) (fun hhalf => by cases hhalf.1)
    split
    · rename_i hw
      rw [hw, hhas, hadd added hadded]
      simp
    · rename_i hw
      simp [hw]

/-! ## 6. Messages -/

theorem mem_foldl_srem {keys : List String} {assets : RSet String} {a : String} :
    a ∈ keys.foldl RSet.srem assets ↔ a ∈ assets ∧ a ∉ keys := by
  induction keys generalizing assets with
  | nil => simp
  | cons key keys ih =>
    rw [List.foldl_cons, ih, Redis.RSet.mem_srem, List.mem_cons]
    tauto

theorem length_foldl_srem {keys : List String} {assets : RSet String} :
    (keys.foldl RSet.srem assets).members.length ≤ assets.members.length := by
  induction keys generalizing assets with
  | nil => exact le_refl _
  | cons key keys ih => exact ih.trans List.length_erase_le

theorem unsubscribe_consistent {client : Client} {toRemove : List Json} (h : Consistent config m)
    (hclient : m.clients.get? ws = some client) :
    Consistent config (m.unsubscribe ws client toRemove).2 := by
  rw [unsubscribe]
  split
  · exact h
  rename_i keys hkeys
  refine setClient_consistent _ h hclient (length_foldl_srem.trans (h.assets_le ws client hclient))
    ((h.indexes.removeFrom keys).congr fun w a => ?_)
  split
  · rename_i hw
    rw [hw, mem_foldl_srem]
    simp [Subscribed, hclient]
  · rename_i hw
    simp [hw]

/-- A message whose subscription stops in the middle. -/
def Halfway (m : Manager ω) (ws : ω) : Option Json → Prop
  | none => False
  | some msg =>
    match m.clients.get? ws with
    | none => False
    | some client =>
      Json.isStr (msg.get? "action") "subscribe" = true ∧
        StopsHalfway client (elementsOf (msg.get? "assets"))

instance (m : Manager ω) (ws : ω) (raw : Option Json) : Decidable (m.Halfway ws raw) := by
  unfold Halfway
  split
  · exact instDecidableFalse
  · split <;> infer_instance

theorem handleMessage_consistent_iff {raw : Option Json} (h : Consistent config m) :
    Consistent config (m.handleMessage ws raw).2 ↔ ¬ m.Halfway ws raw := by
  cases raw with
  | none => exact iff_of_true h not_false
  | some msg =>
    simp only [handleMessage, Halfway]
    cases hclient : m.clients.get? ws with
    | none => exact iff_of_true h not_false
    | some client =>
      have hpong : Consistent config (m.setClient ws { client with missedPings := 0 }) := by
        refine setClient_consistent m.assetSubscribers h hclient
          (h.assets_le ws client hclient) (h.indexes.congr fun w a => ?_)
        split
        · rename_i hw
          simp [hw, Subscribed, hclient]
        · rfl
      dsimp only
      split
      · exact iff_of_true h fun hsub => by simpa [Json.get?, Json.isStr] using hsub.1
      · split
        · rename_i hsub
          simpa [hsub] using subscribe_consistent_iff h hclient
        · rename_i hnot
          refine iff_of_true ?_ fun hsub => hnot hsub.1
          split
          · exact unsubscribe_consistent h hclient
          split
          · exact hpong
          · split <;> exact h

variable (m ws) in
/-- A message changes neither which sockets are registered nor their addresses. -/
theorem handleMessage_sockets (raw : Option Json) :
    (m.handleMessage ws raw).2.clients.keys = m.clients.keys ∧
      (m.handleMessage ws raw).2.clientIpBySocket = m.clientIpBySocket := by
  cases raw with
  | none => exact ⟨rfl, rfl⟩
  | some msg =>
    simp only [handleMessage]
    cases hclient : m.clients.get? ws with
    | none => exact ⟨rfl, rfl⟩
    | some client =>
      have hkeys : ∀ client', (m.setClient ws client').clients.keys = m.clients.keys := fun client' =>
        JsMap.keys_set_of_mem (JsMap.mem_keys_of_get? hclient)
      dsimp only
      split
      · exact ⟨rfl, rfl⟩
      split
      · rw [subscribe]
        cases (subscribeLoop client.assets (elementsOf (msg.get? "assets"))).2 <;>
          exact ⟨hkeys _, rfl⟩
      split
      · rw [unsubscribe]
        split
        · exact ⟨rfl, rfl⟩
        · exact ⟨hkeys _, rfl⟩
      split
      · exact ⟨hkeys _, rfl⟩
      · split <;> exact ⟨rfl, rfl⟩

theorem handleMessage_registered {raw : Option Json} (h : m.Registered) :
    (m.handleMessage ws raw).2.Registered := by
  obtain ⟨hkeys, hips⟩ := handleMessage_sockets m ws raw
  rw [Registered, hkeys, hips]
  exact h

/-! ## 7. Events -/

/-- The sockets that an event removes. -/
def removes (m : Manager ω) : Event ω → List ω
  | .close ws => [ws]
  | .error ws => [ws]
  | .heartbeat throws => if m.pingTimer then terminated throws m.timedOut else []
  | .deadline n => m.drains.getD n []
  | _ => []

/-- An event that keeps everything in step: no subscription stops in the middle, and no socket with
the empty address is removed. -/
def InStep (m : Manager ω) (e : Event ω) : Prop :=
  match e with
  | .message ws raw => ¬ m.Halfway ws raw
  | e => ∀ ws ∈ m.removes e, m.clientIpBySocket.get? ws ≠ some ""

instance (m : Manager ω) (e : Event ω) : Decidable (m.InStep e) := by
  unfold InStep
  split <;> infer_instance

/-- A socket is added while it is not registered. -/
def Fresh (m : Manager ω) : Event ω → Prop
  | .add ws _ => ws ∉ m.clients.keys
  | _ => True

theorem pinged_consistent (h : Consistent config m) : Consistent config m.pinged := by
  have hfrom : ∀ ip, m.pinged.connectionsFrom ip = m.connectionsFrom ip := fun ip =>
    congrArg (List.countP _) (JsMap.keys_mapValues _ _)
  have hassets : ∀ w c, m.pinged.clients.get? w = some c →
      ∃ c', m.clients.get? w = some c' ∧ c.assets = c'.assets := fun w c hc => by
    obtain ⟨c', hc', rfl⟩ := Option.map_eq_some_iff.mp ((JsMap.get?_mapValues _).symm.trans hc)
    exact ⟨c', hc', by split <;> rfl⟩
  refine ⟨h.indexes.congr fun w a => ⟨?_, ?_⟩, fun ip => (h.counts ip).trans (hfrom ip).symm,
    h.no_zero, fun w c hc => ?_, fun ip => (hfrom ip).trans_le (h.ip_le ip), ?_⟩
  · rintro ⟨c, hc, ha⟩
    obtain ⟨c', hc', heq⟩ := hassets w c hc
    exact ⟨c', hc', heq ▸ ha⟩
  · rintro ⟨c', hc', ha⟩
    refine ⟨_, (JsMap.get?_mapValues _).trans (congrArg (Option.map _) hc'), ?_⟩
    dsimp only
    split <;> exact ha
  · obtain ⟨c', hc', heq⟩ := hassets w c hc
    rw [heq]
    exact h.assets_le w c' hc'
  · simpa [JsMap.size_eq, pinged] using h.size_le

omit [DecidableEq ω] in
theorem pinged_registered (h : m.Registered) : m.pinged.Registered := by
  simpa [Registered, pinged] using h

/-- **What one event keeps, and what it breaks.** -/
theorem step_consistent_iff {e : Event ω} (h : Consistent config m) (hreg : m.Registered)
    (hfresh : m.Fresh e) : Consistent config (m.step config e) ↔ m.InStep e := by
  cases e with
  | add ws req => exact iff_of_true (add_consistent h hreg hfresh req).1 (by simp [InStep, removes])
  | message ws raw => exact handleMessage_consistent_iff h
  | close ws => exact removeAll_consistent_iff [ws] h hreg
  | error ws => exact removeAll_consistent_iff [ws] h hreg
  | startHeartbeat =>
    exact iff_of_true ⟨h.indexes, h.counts, h.no_zero, h.assets_le, h.ip_le, h.size_le⟩
      (by simp [InStep, removes])
  | heartbeat throws =>
    simp only [step, heartbeat, InStep, removes]
    split
    · exact removeAll_consistent_iff _ (pinged_consistent h) (pinged_registered hreg)
    · exact iff_of_true h (by simp)
  | drain =>
    exact iff_of_true ⟨h.indexes, h.counts, h.no_zero, h.assets_le, h.ip_le, h.size_le⟩
      (by simp [InStep, removes])
  | deadline n => exact removeAll_consistent_iff _ h hreg

theorem step_registered {e : Event ω} (h : Consistent config m) (hreg : m.Registered)
    (hfresh : m.Fresh e) : (m.step config e).Registered := by
  cases e with
  | add ws req => exact (add_consistent h hreg hfresh req).2
  | message ws raw => exact handleMessage_registered hreg
  | close ws => exact remove_registered hreg
  | error ws => exact remove_registered hreg
  | startHeartbeat => exact hreg
  | heartbeat throws =>
    simp only [step, heartbeat]
    split
    · exact removeAll_registered (pinged_registered hreg)
    · exact hreg
  | drain => exact hreg
  | deadline n => exact removeAll_registered hreg

/-! ## 8. Runs -/

/-- The sockets that are added. -/
def added (es : List (Event ω)) : List ω :=
  es.filterMap fun e => match e with
    | .add ws _ => some ws
    | _ => none

theorem keys_remove {w : ω} (hw : w ∈ (m.remove ws).clients.keys) : w ∈ m.clients.keys := by
  by_cases hws : ws ∈ m.clients.keys
  · obtain ⟨client, hclient⟩ := Option.isSome_iff_exists.mp (JsMap.get?_isSome.mpr hws)
    rw [remove_eq hclient, JsMap.keys_delete] at hw
    exact List.mem_of_mem_erase hw
  · rwa [remove_of_not_mem hws] at hw

theorem keys_removeAll {sockets : List ω} {w : ω} (hw : w ∈ (m.removeAll sockets).clients.keys) :
    w ∈ m.clients.keys := by
  induction sockets generalizing m with
  | nil => exact hw
  | cons v sockets ih => exact keys_remove (ih hw)

/-- An event registers no other socket than the one it adds. -/
theorem keys_step {e : Event ω} {w : ω} (hw : w ∈ (m.step config e).clients.keys) :
    w ∈ m.clients.keys ∨ w ∈ added [e] := by
  cases e with
  | add ws req =>
    simp only [step, add] at hw
    split at hw
    · exact .inl hw
    split at hw
    · exact .inl hw
    rw [JsMap.keys_set] at hw
    split at hw
    · exact .inl hw
    · refine (List.mem_append.mp hw).imp id fun hmem => ?_
      simpa [added] using hmem
  | message ws raw =>
    have hkeys := (handleMessage_sockets m ws raw).1
    exact .inl (hkeys ▸ hw)
  | close ws => exact .inl (keys_remove hw)
  | error ws => exact .inl (keys_remove hw)
  | startHeartbeat => exact .inl hw
  | heartbeat throws =>
    simp only [step, heartbeat] at hw
    split at hw
    · have hpinged : w ∈ m.pinged.clients.keys := keys_removeAll hw
      rw [pinged, JsMap.keys_mapValues] at hpinged
      exact .inl hpinged
    · exact .inl hw
  | drain => exact .inl hw
  | deadline n => exact .inl (keys_removeAll hw)

/-- Sockets that are added once are added while they are not registered. -/
theorem fresh_of_nodup {es : List (Event ω)} (hnodup : (added es).Nodup)
    (hnew : ∀ ws ∈ m.clients.keys, ws ∉ added es) : Along (step config) Fresh m es := by
  induction es generalizing m with
  | nil => trivial
  | cons e es ih =>
    have hcons : added (e :: es) = added [e] ++ added es := List.filterMap_append (l := [e])
    rw [hcons] at hnodup hnew
    obtain ⟨-, hrest, hdisjoint⟩ := List.nodup_append.mp hnodup
    refine ⟨?_, ih hrest fun ws hws hadded => ?_⟩
    · cases e with
      | add ws req =>
        intro hmem
        exact hnew ws hmem (by simp [added])
      | _ => trivial
    · rcases keys_step hws with hold | hnow
      · exact hnew ws hold (List.mem_append_right _ hadded)
      · exact hdisjoint ws hnow ws hadded rfl

/-- A request without a forwarding header. -/
def sampleRequest : Request := ⟨none, some "10.0.0.1"⟩

/-- `{"action": "subscribe", "assets": assets}`. -/
def subscribeTo (assets : List Json) : Json := .obj [("action", .str "subscribe"), ("assets", .arr assets)]

/-- A socket is added, subscribes to an asset, and closes twice. -/
def sampleEvents : List (Event ℕ) :=
  [.add 0 sampleRequest, .message 0 (some (subscribeTo [.str "XLM"])), .close 0, .close 0]

/-- A socket with an empty forwarding header has closed, and is still counted. -/
theorem empty_address_counted : ¬ Consistent ⟨100, 5⟩ (run (step ⟨100, 5⟩) Manager.new
    [.add 0 ⟨some (.text ""), some "10.0.0.1"⟩, .close 0] : Manager ℕ) := by
  intro h
  exact absurd (h.counts "") (by decide)

end Manager

end SmartDrop.Ws
