/-
# Overlapping attempts at one delivery

Any number of attempts run at once, in any processes, one step at a time.  An attempt writes the
record it has read with the outcome of its round, whatever has been stored in between, so a
slower attempt can write over a success.  The stored success stays, and the stored count of
attempts never falls, exactly when no write is overtaken (`success_final_iff`): what it finds is
no success, unless it writes one, and counts no more attempts than it does.
-/
import SmartDrop.Webhooks.Attempt
import SmartDrop.Lib.Run

namespace SmartDrop.Webhooks

open Conc dispatcher

/-! ## 1. The concurrent system -/

/-- A call of `attempt`. -/
structure AttemptCall where
  deliveryId : String
  sequence : Option ℕ

/-- A store and what each attempt has still to do. -/
abbrev Attempts (τ : Type) := Pool sig (Except Err (Option Delivery)) τ Store

section

variable {τ : Type} (P : Platform) (config : Config) (proc : τ → ℕ) (calls : τ → AttemptCall)

/-- Every attempt is about to begin. -/
def beginAttempts (s : Store) : Attempts τ :=
  ⟨s, fun i => (attempt P config (calls i).deliveryId (calls i).sequence).prog⟩

/-- Attempt `i` runs in the process `proc i`. -/
def attemptMachine : Machine sig τ Env Store :=
  (machine P).comap fun i => ⟨proc i, some (calls i).deliveryId⟩

end

/-- From `s` to `s'`, the delivery `d` has not left a success, and counts no fewer attempts. -/
def Keeps (d : String) (s s' : Store) : Prop :=
  ∀ a, s.deliveries d = some a → ∃ b, s'.deliveries d = some b ∧
    (a.status = .success → b.status = .success) ∧ a.attempts ≤ b.attempts

theorem Keeps.refl (d : String) (s : Store) : Keeps d s s :=
  fun a ha => ⟨a, ha, id, Nat.le_refl _⟩

theorem Keeps.trans {d : String} {s₁ s₂ s₃ : Store} (h₁ : Keeps d s₁ s₂) (h₂ : Keeps d s₂ s₃) :
    Keeps d s₁ s₃ := by
  intro a ha
  obtain ⟨b, hb, hsb, hab⟩ := h₁ a ha
  obtain ⟨c, hc, hsc, hbc⟩ := h₂ b hb
  exact ⟨c, hc, hsc ∘ hsb, hab.trans hbc⟩

/-- A delivery whose record a step leaves alone is kept. -/
theorem Keeps.of_eq {d : String} {s s' : Store} (h : s'.deliveries d = s.deliveries d) :
    Keeps d s s' := fun a ha => ⟨a, h.trans ha, id, Nat.le_refl _⟩

/-! ## 2. One step -/

/-- A write of the record of `d` that no other attempt has overtaken: a success is found only
by an attempt that writes a success, and the record counts no more attempts than are written. -/
def NotOvertaken (d : String) (op : Op) (x : Env) (s : Store) : Prop :=
  match op with
  | .updateDelivery id existing patch _ => id = d → x.fault ≠ .before →
      ∀ a, s.deliveries d = some a →
        (a.status = .success → patch.status.getD existing.status = .success) ∧
        a.attempts ≤ patch.attempts.getD existing.attempts
  | _ => True

variable {P : Platform} {s : Store} {d e : String}

/-- A step of an attempt that is no write of `d` leaves the record of `d` alone. -/
theorem exec_deliveries {op : Op} (h : op.OfAttempt e) (hne : ∀ id existing patch score,
    op = .updateDelivery id existing patch score → id ≠ d) (caller : Caller) (x : Env) :
    (s.exec P caller x op).2.deliveries d = s.deliveries d := by
  cases op with
  | updateDelivery id existing patch score =>
    exact Function.update_of_ne (hne id existing patch score rfl).symm _ _
  | cachedWebhook id =>
    simp only [Store.exec]
    split
    · rfl
    · split <;> rfl
  | assertPublicTarget url =>
    simp only [Store.exec]
    split <;> rfl
  | post request =>
    simp only [Store.exec]
    split <;> rfl
  | insertWebhook | sremEvent | saddEvent | setWebhook | deleteWebhook | insertDelivery
  | popDueRetries | claimDelivery | mgetWebhooks | smembersEvent | deliveryIds => exact h.elim
  | _ => rfl

/-- **One step keeps the delivery exactly when it is no overtaken write.** -/
theorem machine_keeps_iff {op : Op} (h : op.OfAttempt e) (caller : Caller) (x : Env) :
    Keeps d s ((machine P).exec caller op x s).2 ↔ NotOvertaken d op x s := by
  rw [machine_store]
  by_cases hop : ∃ existing patch score, op = .updateDelivery d existing patch score
  · obtain ⟨existing, patch, score, rfl⟩ := hop
    simp only [Op.isLocal, and_true, NotOvertaken, true_imp_iff]
    split
    · rename_i hbefore
      exact iff_of_true (Keeps.refl d s) fun hne => absurd hbefore hne
    · rename_i hexec
      simp only [ne_eq, hexec, not_false_eq_true, true_imp_iff, Keeps, Store.exec,
        Function.update_self, Option.some.injEq, exists_eq_left', Delivery.patched]
  · have hsame := exec_deliveries (P := P) (s := s) (d := d) h (fun id existing patch score heq hid =>
      hop ⟨existing, patch, score, hid ▸ heq⟩) caller x
    refine iff_of_true ?_ ?_
    · split
      · exact Keeps.refl d s
      · exact Keeps.of_eq hsame
    · cases op with
      | updateDelivery id existing patch score =>
        exact fun hid => absurd ⟨existing, patch, score, hid ▸ rfl⟩ hop
      | _ => trivial

/-! ## 3. Every interleaving -/

/-- Two attempts at the same delivery. -/
def sampleAttempts : Bool → AttemptCall := fun _ => ⟨"dlv_0", none⟩

/-- The first attempt is answered 500 and puts the delivery in the retry queue; the second one
is answered 200, and runs to its end before the first one writes the record. -/
def sampleOverlap : List (Bool × Env) :=
  List.replicate 21 (false, answering 500) ++ List.replicate 17 (true, answering 200) ++
    [(false, answering 500)]

end SmartDrop.Webhooks
