/-
# The cursor

The key `indexer:last_ledger` holds a text.  `getLastLedger` parses it as JSON and takes its
number, and `ADVANCE_LAST_LEDGER_LUA` compares texts for equality and numbers for order.  On the
texts of whole numbers, which are all that the key ever holds, the two views agree, and the
script is the compare-and-set on numbers of the event store (`advance_eq`).

From it: however any number of pollers interleave their calls, each `advanceLastLedger` returns
`true` exactly when it wrote, it writes exactly when the cursor is what the poller has read and
does not go back, and so the cursor never decreases (`cursor_law`).
-/
import SmartDrop.Indexer.Store
import SmartDrop.Lib.NumberText
import SmartDrop.Lib.Run

namespace SmartDrop.Indexer

open Conc JsNumber JsonText

/-! ## 1. Numbers in the two languages -/

/-- A text. -/
abbrev Text := List Char

/-- `Number(value)` of a JSON value. -/
def numberOf : Json → Number
  | .null => .finite 0
  | .bool b => .finite (if b then 1 else 0)
  | .num n => read n.chars
  | .str s => read s.toList
  | value => read (templateText value).toList

/-- `tonumber` of a text that `String` of a number has written: a decimal literal, with or
without a sign, or the name of an infinity or of what is not a number. -/
def tonumber : Text → Option Number
  | '-' :: cs => unsigned true cs
  | cs => unsigned false cs
where
  unsigned (negative : Bool) (cs : Text) : Option Number :=
    if cs = "NaN".toList then some .nan
    else if cs = "Infinity".toList then some (.infinity negative)
    else (readDecimal cs).map fun q => ofRat (if negative then -q else q)

/-- `a < b`. -/
def Number.lt : Number → Number → Bool
  | .nan, _ => false
  | _, .nan => false
  | .infinity true, .infinity true => false
  | .infinity true, _ => true
  | .infinity false, _ => false
  | .finite _, .infinity negative => !negative
  | .finite a, .finite b => a < b

/-! ## 2. The calls -/

/-- `getLastLedger`, with what the key holds. -/
def getLastLedgerOf (defaultLedger : Option Number) (data : Option Text) : Option Number :=
  match data.filter (· ≠ []) >>= fun text => parse (String.ofList text) with
  | none | some .null => defaultLedger
  | some (.str "") => defaultLedger
  | some saved => match numberOf saved with
    | .finite q => some (.finite q)
    | _ => defaultLedger

/-- `ADVANCE_LAST_LEDGER_LUA`: what the script returns, and what it sets the key to, if it does. -/
def ADVANCE_LAST_LEDGER_LUA (cursor : Option Text) (expected nextValue : Text) :
    ℕ × Option Text :=
  if (if expected = [] then cursor ≠ none else cursor ≠ some expected) then (0, none)
  else match tonumber nextValue with
    | none => (0, none)
    | some nextNumber =>
      if cursor.any fun c => (tonumber c).any fun cursorNumber => Number.lt nextNumber cursorNumber
      then (0, none)
      else (1, some nextValue)

/-- The expected value as it is passed to the script. -/
def expectedText : Option Number → Text
  | none => []
  | some expectedLedger => write expectedLedger

/-- `advanceLastLedger`: what it returns, and what it sets the key to, if it does. -/
def advanceLastLedgerOf (cursor : Option Text) (expectedLedger : Option Number)
    (nextLedger : Number) : Bool × Option Text :=
  let applied := ADVANCE_LAST_LEDGER_LUA cursor (expectedText expectedLedger) (write nextLedger)
  (applied.1 == 1, applied.2)

/-! ## 3. Ledgers and their texts -/

/-- A ledger: a whole number that the language has. -/
structure Ledger where
  val : ℕ
  isWhole : IsWhole val
deriving DecidableEq

/-- A ledger as a number. -/
def Ledger.number (n : Ledger) : Number := .finite n.val

/-- A ledger as a text. -/
def Ledger.text (n : Ledger) : Text := write n.number

variable {n m : Ledger} {o expected : Option Ledger}

theorem Ledger.number_inj (h : n.number = m.number) : n = m := by
  obtain ⟨n, hn⟩ := n
  obtain ⟨m, hm⟩ := m
  simp only [Ledger.number, Number.finite.injEq, Nat.cast_inj] at h
  subst h
  rfl

/-- **`Number` of the text.** -/
theorem Ledger.read_text (n : Ledger) : read n.text = n.number := read_write n.isWhole

/-- Different ledgers have different texts. -/
theorem Ledger.text_inj (h : n.text = m.text) : n = m := by
  refine Ledger.number_inj ?_
  rw [← n.read_text, ← m.read_text, h]

theorem Ledger.text_ne_nil (n : Ledger) : n.text ≠ [] := by
  obtain ⟨q, htext, -⟩ := write_numberText n.isWhole
  obtain ⟨c, r, hcr, -⟩ := htext.head
  exact ne_of_eq_of_ne hcr (List.cons_ne_nil c r)

/-- `tonumber` of the text of a number without a sign. -/
theorem tonumber_of_numberText {cs : Text} {q : ℚ} (h : NumberText cs q) :
    tonumber cs = some (ofRat q) := by
  obtain ⟨c, r, rfl, hc⟩ := h.head
  have hne : ∀ d : Char, JsText.isDigit d = false → c ≠ d := by
    rintro d hd rfl
    rw [hd] at hc
    cases hc
  have hwords : ∀ d ds, JsText.isDigit d = false → c :: r ≠ d :: ds :=
    fun d ds hd heq => hne d hd (List.cons.inj heq).1
  unfold tonumber
  split
  · rename_i heq
    exact absurd heq (hwords _ _ (by decide))
  · unfold tonumber.unsigned
    have hnan : c :: r ≠ "NaN".toList := hwords 'N' _ (by decide)
    have hinfinity : c :: r ≠ "Infinity".toList := hwords 'I' _ (by decide)
    rw [if_neg hnan, if_neg hinfinity, h.reads]
    rfl

theorem parse_chars (l : Literal) : parse (String.ofList l.chars) = some (.num l) := by
  have h := parse_stringify (.num l)
  rwa [stringify, JsonText.write] at h

/-- `getLastLedger` of the text of a finite number. -/
theorem getLastLedgerOf_chars {l : Literal} {q : ℚ} (hne : l.chars ≠ [])
    (h : read l.chars = .finite q) (defaultLedger : Option Number) :
    getLastLedgerOf defaultLedger (some l.chars) = some (.finite q) := by
  have hdata : (some l.chars).filter (· ≠ []) = some l.chars :=
    Option.filter_some_pos (by simpa using hne)
  unfold getLastLedgerOf
  rw [hdata, Option.bind_eq_bind, Option.bind_some, parse_chars]
  dsimp only [numberOf]
  rw [h]

/-- **`tonumber` of the text of a ledger.** -/
theorem Ledger.tonumber_text (n : Ledger) : tonumber n.text = some n.number := by
  obtain ⟨q, htext, hq⟩ := write_numberText n.isWhole
  exact (tonumber_of_numberText htext).trans (congrArg some hq)

/-- **`getLastLedger` reads the ledger that is stored.** -/
theorem getLastLedgerOf_text (n : Ledger) (defaultLedger : Option Number) :
    getLastLedgerOf defaultLedger (some n.text) = some n.number := by
  have hliteral : isLiteral n.text = true := isLiteral_write n.isWhole
  have hread : read n.text = .finite n.val := n.read_text
  have hne := n.text_ne_nil
  unfold Ledger.number
  generalize n.text = cs at hliteral hread hne
  exact getLastLedgerOf_chars (l := ⟨cs, hliteral⟩) hne hread defaultLedger

theorem Number.lt_natCast (a b : ℕ) : Number.lt (.finite a) (.finite b) = decide (a < b) := by
  simp [Number.lt]

/-- The script, when the texts that it is given and finds are numbers. -/
theorem lua_eq {cursor expected : Option Text} {nextValue : Text} {c : Option ℕ} {n : ℕ}
    (hexpected : ∀ text ∈ expected, text ≠ [])
    (hcursor : cursor.map tonumber = c.map fun c : ℕ => some (.finite c))
    (hnext : tonumber nextValue = some (.finite n)) :
    ADVANCE_LAST_LEDGER_LUA cursor (expected.getD []) nextValue =
      if cursor = expected ∧ c.all (fun c => c ≤ n) then (1, some nextValue) else (0, none) := by
  have hguard : (if expected.getD [] = [] then cursor ≠ none
      else cursor ≠ some (expected.getD [])) ↔ cursor ≠ expected := by
    cases expected with
    | none => simp
    | some e =>
      rw [Option.getD_some, if_neg (hexpected e rfl)]
  have horder : (cursor.any fun text => (tonumber text).any fun cursorNumber =>
      Number.lt (.finite n) cursorNumber) = !c.all fun c => c ≤ n := by
    cases cursor with
    | none =>
      cases c with
      | none => rfl
      | some c => cases hcursor
    | some text =>
      cases c with
      | none => cases hcursor
      | some c =>
        have htext : tonumber text = some (.finite c) := Option.some.inj hcursor
        rw [Option.any_some, htext, Option.any_some, Number.lt_natCast, Option.all_some,
          ← decide_not]
        exact decide_eq_decide.mpr Nat.not_le.symm
  unfold ADVANCE_LAST_LEDGER_LUA
  rw [hnext]
  dsimp only
  rw [horder]
  by_cases hsame : cursor = expected
  · rw [if_neg fun h => hguard.mp h hsame]
    cases c.all fun c => decide (c ≤ n) with
    | true => simp [hsame]
    | false => simp
  · rw [if_pos (hguard.mpr hsame), if_neg fun h => hsame h.1]

/-- Ledgers are equal when their values are. -/
theorem Ledger.map_text_inj :
    o.map Ledger.text = expected.map Ledger.text ↔ o.map Ledger.val = expected.map Ledger.val := by
  constructor
  · intro h
    rw [Option.map_injective (fun _ _ => Ledger.text_inj) h]
  · intro h
    have hinj : Function.Injective Ledger.val := by
      rintro ⟨n, hn⟩ ⟨m, hm⟩ hnm
      obtain rfl : n = m := hnm
      rfl
    rw [Option.map_injective hinj h]

theorem expectedText_map (expected : Option Ledger) :
    expectedText (expected.map Ledger.number) = (expected.map Ledger.text).getD [] := by
  cases expected with
  | none => rfl
  | some e =>
    rw [Option.map_some, Option.map_some, Option.getD_some, expectedText, Ledger.text]

theorem text_ne_nil_of_mem {text : Text} (h : text ∈ expected.map Ledger.text) : text ≠ [] := by
  obtain ⟨e, -, he⟩ := Option.mem_map.mp h
  exact ne_of_eq_of_ne he.symm e.text_ne_nil

theorem map_tonumber (o : Option Ledger) : (o.map Ledger.text).map tonumber =
    (o.map Ledger.val).map fun c : ℕ => some (.finite c) := by
  cases o with
  | none => simp only [Option.map_none]
  | some n => exact congrArg some n.tonumber_text

/-- **The script is the compare-and-set of the event store**, on the texts of ledgers. -/
theorem advance_eq (o expected : Option Ledger) (next : Ledger) :
    advanceLastLedgerOf (o.map Ledger.text) (expected.map Ledger.number) next.number =
      if advances (o.map Ledger.val) (expected.map Ledger.val) next.val
      then (true, some next.text) else (false, none) := by
  have hexpected : ∀ text ∈ expected.map Ledger.text, text ≠ [] := fun _ => text_ne_nil_of_mem
  have hlua := lua_eq hexpected (map_tonumber o) next.tonumber_text
  rw [← expectedText_map] at hlua
  unfold advanceLastLedgerOf advances
  rw [show write next.number = next.text from rfl, hlua]
  by_cases hgo : o.map Ledger.text = expected.map Ledger.text ∧
      (o.map Ledger.val).all (fun c => c ≤ next.val) = true
  · have hvals := Ledger.map_text_inj.mp hgo.1
    rw [if_pos hgo, if_pos (by rw [decide_eq_true hvals, hgo.2, Bool.and_self])]
    rfl
  · rw [if_neg hgo, if_neg fun h => hgo ?_]
    · rfl
    · rw [Bool.and_eq_true, decide_eq_true_eq] at h
      exact ⟨Ledger.map_text_inj.mpr h.1, h.2⟩

/-! ## 4. Pollers -/

/-- What a poller calls. -/
inductive Call where
  | getLastLedger
  | advanceLastLedger (nextLedger : Ledger)

/-- The key, and what each poller has read last; `none` is a cursor that was unset. -/
structure Pollers (τ : Type) where
  cursor : Option Text
  read : τ → Option Number

variable {τ : Type}

/-- The cursor is unset. -/
def Pollers.init : Pollers τ := ⟨none, fun _ => none⟩

/-- What a call of `advanceLastLedger` returns, and what it writes, if it does. -/
def Pollers.advance (c : Pollers τ) (i : τ) (nextLedger : Ledger) : Bool × Option Text :=
  advanceLastLedgerOf c.cursor (c.read i) nextLedger.number

variable [DecidableEq τ]

/-- One poller makes a call: a single command of Redis. -/
def Pollers.step (c : Pollers τ) : τ × Call → Pollers τ
  | (i, .getLastLedger) =>
    { c with read := Function.update c.read i (getLastLedgerOf none c.cursor) }
  | (i, .advanceLastLedger nextLedger) =>
    { c with cursor := (c.advance i nextLedger).2.or c.cursor }

omit [DecidableEq τ] in
/-- The stored cursor is this ledger, or unset. -/
def Pollers.Stores (c : Pollers τ) (o : Option Ledger) : Prop := c.cursor = o.map Ledger.text

/-- A call does what it should: a read returns the stored cursor; an advance returns `true`
exactly when it wrote its ledger, it writes nothing else, and it writes exactly when the stored
cursor is what the poller has read and the new ledger is not smaller. -/
def Lawful (c : Pollers τ) : τ × Call → Prop
  | (i, .getLastLedger) =>
    ∃ o, c.Stores o ∧ (c.step (i, .getLastLedger)).read i = o.map Ledger.number
  | (i, .advanceLastLedger nextLedger) =>
    ∃ o, c.Stores o ∧
      ((c.advance i nextLedger).1 = true ↔ (c.advance i nextLedger).2 = some nextLedger.text) ∧
      (∀ text, (c.advance i nextLedger).2 = some text → text = nextLedger.text) ∧
      ((c.advance i nextLedger).2 = some nextLedger.text ↔
        c.read i = o.map Ledger.number ∧ ∀ n ∈ o, n.val ≤ nextLedger.val)

/-- The cursor has not decreased. -/
def NotDecreased (c c' : Pollers τ) : Prop :=
  ∀ n, c.Stores (some n) → ∃ n', c'.Stores (some n') ∧ n.val ≤ n'.val

/-- What the key holds and what the pollers have read are ledgers. -/
structure Pollers.Ok (c : Pollers τ) : Prop where
  stores : ∃ o, c.Stores o
  reads : ∀ i, ∃ e : Option Ledger, c.read i = e.map Ledger.number

omit [DecidableEq τ] in
theorem Pollers.Ok.init : (Pollers.init : Pollers τ).Ok := ⟨⟨none, rfl⟩, fun _ => ⟨none, rfl⟩⟩

variable {c : Pollers τ} {i : τ}

omit [DecidableEq τ] in
/-- An advance in terms of ledgers. -/
theorem Pollers.advance_eq (ho : c.Stores o) (he : c.read i = expected.map Ledger.number)
    (next : Ledger) : c.advance i next =
      if advances (o.map Ledger.val) (expected.map Ledger.val) next.val
      then (true, some next.text) else (false, none) := by
  unfold Pollers.advance
  rw [ho, he]
  exact Indexer.advance_eq o expected next

omit [DecidableEq τ] in
theorem getLastLedgerOf_stores (ho : c.Stores o) :
    getLastLedgerOf none c.cursor = o.map Ledger.number := by
  rw [ho]
  cases o with
  | none => rfl
  | some n => exact getLastLedgerOf_text n none

omit [DecidableEq τ] in
/-- When an advance is allowed. -/
theorem advances_iff (o expected : Option Ledger) (next : Ledger) :
    advances (o.map Ledger.val) (expected.map Ledger.val) next.val = true ↔
      expected.map Ledger.number = o.map Ledger.number ∧ ∀ n ∈ o, n.val ≤ next.val := by
  have hinj : o.map Ledger.val = expected.map Ledger.val ↔
      expected.map Ledger.number = o.map Ledger.number := by
    cases o <;> cases expected <;> simp [Ledger.number, eq_comm]
  unfold advances
  rw [Bool.and_eq_true, decide_eq_true_eq, hinj]
  cases o <;> simp

/-- One step: the call is lawful, and the cursor does not decrease. -/
theorem Pollers.Ok.step (h : c.Ok) (l : τ × Call) :
    (c.step l).Ok ∧ Lawful c l ∧ NotDecreased c (c.step l) := by
  obtain ⟨o, ho⟩ := h.stores
  obtain ⟨i, call⟩ := l
  cases call with
  | getLastLedger =>
    have hread : (c.step (i, .getLastLedger)).read i = o.map Ledger.number :=
      (Function.update_self ..).trans (getLastLedgerOf_stores ho)
    refine ⟨⟨⟨o, ho⟩, fun j => ?_⟩, ⟨o, ho, hread⟩, fun n hn => ⟨n, hn, le_rfl⟩⟩
    by_cases hj : j = i
    · subst hj
      exact ⟨o, hread⟩
    · obtain ⟨e, he⟩ := h.reads j
      exact ⟨e, (Function.update_of_ne hj ..).trans he⟩
  | advanceLastLedger next =>
    obtain ⟨expected, he⟩ := h.reads i
    have hadvance := Pollers.advance_eq ho he next
    have hiff := advances_iff o expected next
    have hcursor : (c.step (i, .advanceLastLedger next)).cursor =
        (c.advance i next).2.or c.cursor := rfl
    unfold Lawful
    by_cases hgo : advances (o.map Ledger.val) (expected.map Ledger.val) next.val = true
    · rw [if_pos hgo] at hadvance
      obtain ⟨hsame, hle⟩ := hiff.mp hgo
      have hnext : (c.step (i, .advanceLastLedger next)).Stores (some next) := by
        rw [hadvance] at hcursor
        exact hcursor
      refine ⟨⟨⟨some next, hnext⟩, h.reads⟩, ⟨o, ho, ?_, ?_, ?_⟩, fun n hn => ⟨next, hnext, ?_⟩⟩
      · rw [hadvance]
        exact ⟨fun _ => rfl, fun _ => rfl⟩
      · rw [hadvance]
        exact fun text htext => (Option.some.inj htext).symm
      · rw [hadvance, he]
        exact ⟨fun _ => ⟨hsame, hle⟩, fun _ => rfl⟩
      · have hon : o.map Ledger.text = (some n).map Ledger.text := ho.symm.trans hn
        cases o with
        | none => cases hon
        | some n' =>
          obtain rfl := Ledger.text_inj (Option.some.inj hon)
          exact hle n' rfl
    · rw [if_neg hgo] at hadvance
      have hstay : (c.step (i, .advanceLastLedger next)).cursor = c.cursor := by
        rw [hcursor, hadvance]
        rfl
      refine ⟨⟨⟨o, hstay.trans ho⟩, h.reads⟩, ⟨o, ho, ?_, ?_, ?_⟩,
        fun n hn => ⟨n, hstay.trans hn, le_rfl⟩⟩
      · rw [hadvance]
        exact ⟨fun h => (nomatch h), fun h => (nomatch h)⟩
      · rw [hadvance]
        exact fun text htext => (nomatch htext)
      · rw [hadvance, he]
        constructor
        · rintro ⟨⟩
        · exact fun hboth => absurd (hiff.mpr hboth) hgo

/-- **The law of the cursor.**  Any number of pollers interleave their calls in any order, from
an unset cursor.  Every call is lawful, and the stored cursor never decreases. -/
theorem cursor_law (ls : List (τ × Call)) :
    Along Pollers.step Lawful Pollers.init ls ∧
      ∀ l₁ l₂ l₃, ls = l₁ ++ l₂ ++ l₃ → NotDecreased (run Pollers.step Pollers.init l₁)
        (run Pollers.step Pollers.init (l₁ ++ l₂)) := by
  have hall : Along Pollers.step (fun c l => Lawful c l ∧ NotDecreased c (c.step l))
      (Pollers.init : Pollers τ) ls :=
    Along.of_inv (I := Pollers.Ok) (φ := fun _ _ => True) (fun c l hc _ => hc.step l)
      Pollers.Ok.init (Along.of_forall (fun _ _ => trivial) _ ls)
  refine ⟨hall.mono fun _ _ h => h.1, ?_⟩
  refine (forall_later_iff (fun c n hn => ⟨n, hn, le_rfl⟩) fun a b c hab hbc n hn => ?_).mpr
    (hall.mono fun _ _ h => h.2)
  obtain ⟨m, hm, hnm⟩ := hab n hn
  obtain ⟨k, hk, hmk⟩ := hbc m hm
  exact ⟨k, hk, hnm.trans hmk⟩

end SmartDrop.Indexer
