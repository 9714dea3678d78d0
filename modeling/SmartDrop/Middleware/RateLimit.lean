/-
# Rate limits

The two fixed-window limiters of `middleware/rateLimit.js`.  A request reads the clock, which gives its
window, counts itself with `INCR` under a key that has the number of the window, sets the expiry of a key
that is new, and is refused if the count is above the maximum.

The key lives for the length of a window after its `EXPIRE`, hence longer than its window.  But nothing
keeps an `INCR` from being late: a request that read the clock in the window and whose `INCR` gets to
Redis after the key has expired finds no key, and counts as the first.  `exact_run` says that this is all
that can go wrong, in any interleaving of any requests.
-/
import SmartDrop.Lib.JsText
import SmartDrop.Lib.RedisTypes
import SmartDrop.Lib.Run
import Mathlib.Data.List.Infix
import Mathlib.Tactic.IntervalCases

namespace SmartDrop.RateLimit

open Conc Redis JsText

/-! ## 1. Redis -/

/-- A key by the parts of its text. -/
structure Key where
  keyPrefix : String
  identifier : String
  bucket : ℕ
deriving DecidableEq

def Key.text (key : Key) : String :=
  "ratelimit:" ++ key.keyPrefix ++ ":" ++ key.identifier ++ ":" ++
    String.ofList (Nat.toDigits 10 key.bucket)

/-- The counters, by the text of their key. -/
abbrev Store := String → Option (Timed ℕ)

/-- What a request asks of the clock and of Redis. -/
inductive Op where
  | now
  | incr (key : Key)
  | expire (key : Key) (seconds : ℕ)
deriving DecidableEq

abbrev Op.Rep : Op → Type
  | .expire .. => Unit
  | _ => ℕ

abbrev sig : Sig := ⟨Op, Op.Rep⟩

def Store.exec (now : ℕ) (s : Store) : (op : Op) → op.Rep × Store
  | .now => (now, s)
  | .incr key =>
    let entry : Timed ℕ := match (s key.text).filter (·.LiveAt now) with
      | some e => { e with value := e.value + 1 }
      | none => ⟨1, none⟩
    (entry.value, Function.update s key.text (some entry))
  | .expire key seconds =>
    ((), match (s key.text).filter (·.LiveAt now) with
      | some e =>
        Function.update s key.text (some { e with expiresAt := some (now + seconds * 1000) })
      | none => s)

/-- A command that was executed. -/
structure Event (τ : Type) where
  who : τ
  op : Op
  time : ℕ
deriving DecidableEq

/-- Redis and the clock, with a record of what was executed. -/
def machine (τ : Type) : Machine sig τ ℕ (Store × List (Event τ)) :=
  Machine.observe ⟨fun _ op now s => s.exec now op⟩ fun i op now _ log => log ++ [⟨i, op, now⟩]

/-! ## 2. The limiters -/

/-- The options of `buildRateLimit`, which throws for others. -/
structure Options where
  windowSeconds : ℕ
  max : ℕ
  keyPrefix : String
  windowSeconds_pos : 0 < windowSeconds
  max_pos : 0 < max

/-- `config.apiKeyRateLimit`. -/
structure Config where
  windowSeconds : ℕ
  free : ℕ
  pro : ℕ
  admin : ℕ
  windowSeconds_pos : 0 < windowSeconds

def Config.tiers (config : Config) : String → Option ℕ
  | "free" => some config.free
  | "pro" => some config.pro
  | "admin" => some config.admin
  | _ => none

structure ApiKey where
  id : String
  tier : Option String

/-- What the limiters read of a request. -/
structure Request where
  ip : Option String := none
  remoteAddress : Option String := none
  apiKey : Option ApiKey := none

/-- The error of a refused request. -/
structure Refusal where
  message : String
  retryAfter : ℕ
deriving DecidableEq

/-- The headers of a reply, and the error of one that is not passed on. -/
structure Reply where
  limit : ℕ
  remaining : ℕ
  reset : ℕ
  tier : Option String
  refusal : Option Refusal
deriving DecidableEq

/-- `resolveTier`. -/
def resolveTier (config : Config) (apiKey : ApiKey) : String × ℕ :=
  match apiKey.tier with
  | some requested =>
    match config.tiers requested with
    | some max => (requested, max)
    | none => ("free", config.free)
  | none => ("free", config.free)

/-- What is replied to the request that has this count. -/
def replyTo (windowSeconds max bucket count now : ℕ) (tier : Option String) (message : String) :
    Reply :=
  let resetAt := (bucket + 1) * windowSeconds
  let retryAfterSeconds := Nat.max 1 (resetAt - now / 1000)
  { limit := max
    remaining := max - count
    reset := resetAt
    tier
    refusal := if max < count then some ⟨message, retryAfterSeconds⟩ else none }

def call (op : Op) : Prog sig op.Rep := Prog.call (S := sig) op

/-- What the two limiters share. -/
def limitBy (windowSeconds max : ℕ) (keyPrefix identifier : String) (tier : Option String)
    (message : String) : Prog sig Reply := do
  let now ← call .now
  let bucket := now / 1000 / windowSeconds
  let key : Key := ⟨keyPrefix, identifier, bucket⟩
  let count ← call (.incr key)
  (if count = 1 then call (.expire key windowSeconds) else return ())
  let now ← call .now
  return replyTo windowSeconds max bucket count now tier message

/-- A text that is not empty. -/
def given (text : Option String) : Option String := text.filter (· ≠ "")

/-- The identifier of a request without a key. -/
def address (req : Request) : String :=
  ((given req.ip).or (given req.remoteAddress)).getD "unknown"

/-- The rule that an error names. -/
def rule (windowSeconds max : ℕ) : String :=
  "Rate limit of " ++ toString max ++ " requests per " ++ toString windowSeconds ++ "s exceeded"

/-- `buildRateLimit`. -/
def rateLimit (options : Options) (req : Request) : Prog sig (Option Reply) := do
  let reply ← limitBy options.windowSeconds options.max options.keyPrefix (address req) none
    (rule options.windowSeconds options.max)
  return some reply

/-- `buildApiKeyRateLimit`.  A request without a key is passed on without a header. -/
def apiKeyRateLimit (config : Config) (keyPrefix : String) (req : Request) :
    Prog sig (Option Reply) :=
  match req.apiKey.filter (·.id ≠ "") with
  | none => return none
  | some apiKey => do
    let (tier, max) := resolveTier config apiKey
    let reply ← limitBy config.windowSeconds max keyPrefix apiKey.id (some tier)
      (rule config.windowSeconds max ++ " for the " ++ tier ++ " tier")
    return some reply

/-- Either limiter. -/
inductive Limiter where
  | rateLimit (options : Options)
  | apiKeyRateLimit (config : Config) (keyPrefix : String)

namespace Limiter

def middleware : Limiter → Request → Prog sig (Option Reply)
  | .rateLimit options => RateLimit.rateLimit options
  | .apiKeyRateLimit config keyPrefix => RateLimit.apiKeyRateLimit config keyPrefix

def windowSeconds : Limiter → ℕ
  | .rateLimit options => options.windowSeconds
  | .apiKeyRateLimit config _ => config.windowSeconds

def keyPrefix : Limiter → String
  | .rateLimit options => options.keyPrefix
  | .apiKeyRateLimit _ keyPrefix => keyPrefix

/-- Whose requests are counted together. -/
def identifier : Limiter → Request → Option String
  | .rateLimit _, req => some (address req)
  | .apiKeyRateLimit .., req => (req.apiKey.filter (·.id ≠ "")).map ApiKey.id

def max : Limiter → Request → ℕ
  | .rateLimit options, _ => options.max
  | .apiKeyRateLimit config _, req =>
    ((req.apiKey.filter (·.id ≠ "")).map fun apiKey => (resolveTier config apiKey).2).getD 0

theorem windowSeconds_pos (L : Limiter) : 0 < L.windowSeconds := by
  cases L with
  | rateLimit options => exact options.windowSeconds_pos
  | apiKeyRateLimit config _ => exact config.windowSeconds_pos

/-- Every request that is counted runs the shared code. -/
theorem middleware_eq (L : Limiter) (req : Request) {identifier : String}
    (h : L.identifier req = some identifier) :
    ∃ tier message, L.middleware req =
      (limitBy L.windowSeconds (L.max req) L.keyPrefix identifier tier message).bind fun reply =>
        .ret (some reply) := by
  cases L with
  | rateLimit options =>
    obtain rfl := Option.some.inj h
    exact ⟨_, _, rfl⟩
  | apiKeyRateLimit config keyPrefix =>
    simp only [Limiter.identifier, Option.map_eq_some_iff] at h
    obtain ⟨apiKey, hkey, rfl⟩ := h
    simp only [Limiter.middleware, RateLimit.apiKeyRateLimit, Limiter.max, hkey]
    exact ⟨_, _, rfl⟩

/-- Another one is passed on at once. -/
theorem middleware_none (L : Limiter) (req : Request) (h : L.identifier req = none) :
    L.middleware req = .ret none := by
  cases L with
  | rateLimit options => cases h
  | apiKeyRateLimit config keyPrefix =>
    simp only [Limiter.identifier, Option.map_eq_none_iff] at h
    simp only [Limiter.middleware, RateLimit.apiKeyRateLimit, h]
    rfl

end Limiter

/-! ## 3. What is asked of a reply -/

section Spec

variable {τ : Type}

/-- How often a key has been counted. -/
def number (log : List (Event τ)) (key : Key) : ℕ := log.countP fun e => e.op = .incr key

/-- The `n`-th time that the key was counted was for this request. -/
def Nth (log : List (Event τ)) (i : τ) (key : Key) (n : ℕ) : Prop :=
  ∃ before time, before ++ [⟨i, .incr key, time⟩] <+: log ∧ n = number before key + 1

/-- A request that began at `start` was answered at `later`, as the `n`-th of its identifier in the
window of `start`. -/
structure Answered (log : List (Event τ)) (L : Limiter) (i : τ) (req : Request) (reply : Reply)
    (start n later : ℕ) : Prop where
  started : ⟨i, .now, start⟩ ∈ log
  window : start / 1000 / L.windowSeconds * L.windowSeconds * 1000 ≤ start ∧
    start < (start / 1000 / L.windowSeconds + 1) * L.windowSeconds * 1000
  counted : ∃ identifier, L.identifier req = some identifier ∧
    Nth log i ⟨L.keyPrefix, identifier, start / 1000 / L.windowSeconds⟩ n
  answered : ⟨i, .now, later⟩ ∈ log
  remaining : reply.remaining = L.max req - n
  passed : reply.refusal = none ↔ n ≤ L.max req
  retry : ∀ refusal, reply.refusal = some refusal → 1 ≤ refusal.retryAfter ∧
    (start / 1000 / L.windowSeconds + 1) * L.windowSeconds * 1000 ≤ later + refusal.retryAfter * 1000

/-- The reply is as the place of the request in its window asks. -/
def Exact (log : List (Event τ)) (L : Limiter) (i : τ) (req : Request) (reply : Reply) : Prop :=
  ∃ start n later, Answered log L i req reply start n later

/-- Every count of a key is that of a request of this identifier which began in this window. -/
def Genuine (log : List (Event τ)) (L : Limiter) (reqs : τ → Request) : Prop :=
  ∀ e ∈ log, ∀ key, e.op = .incr key → key.keyPrefix = L.keyPrefix ∧
    L.identifier (reqs e.who) = some key.identifier ∧
    ∃ start, ⟨e.who, .now, start⟩ ∈ log ∧ key.bucket = start / 1000 / L.windowSeconds

/-- An `INCR` gets to Redis before the counter of its window has expired. -/
def InTime (op : Op) (now : ℕ) (s : Store × List (Event τ)) : Prop :=
  match op with
  | .incr key => ∀ e ∈ s.1 key.text, e.LiveAt now
  | _ => True

instance (op : Op) (now : ℕ) (s : Store × List (Event τ)) : Decidable (InTime op now s) :=
  match op with
  | .incr key => inferInstanceAs (Decidable (∀ e ∈ s.1 key.text, e.LiveAt now))
  | .now => isTrue trivial
  | .expire .. => isTrue trivial

/-- Requests that are about to begin. -/
def begin (L : Limiter) (reqs : τ → Request) (s : Store) :
    Pool sig (Option Reply) τ (Store × List (Event τ)) :=
  ⟨(s, []), fun i => L.middleware (reqs i)⟩

end Spec

/-! ## 4. Keys -/

/-- The text of a key has its parts. -/
theorem Key.text_inj {key key' : Key} (hpre : key.keyPrefix = key'.keyPrefix)
    (h : key.text = key'.text) : key = key' := by
  obtain ⟨keyPrefix, identifier, bucket⟩ := key
  obtain ⟨keyPrefix', identifier', bucket'⟩ := key'
  obtain rfl := hpre
  have hlist : identifier.toList ++ ':' :: Nat.toDigits 10 bucket =
      identifier'.toList ++ ':' :: Nat.toDigits 10 bucket' := by
    simpa [Key.text, List.append_assoc] using congrArg String.toList h
  have hcolon : ∀ n, ':' ∉ Nat.toDigits 10 n := fun n hmem =>
    absurd (Nat.isDigit_of_mem_toDigits (by decide) (by decide) hmem) (by decide)
  rcases append_cons_cases_last (hcolon bucket) hlist with ⟨hid, hdigits⟩ | ⟨more, -, hmore⟩
  · have hbucket := congrArg (Nat.ofDigitChars 10 · 0) hdigits
    simp only [Nat.ofDigitChars_ten_toDigits] at hbucket
    rw [String.toList_inj.mp hid, hbucket]
  · refine absurd ?_ (hcolon bucket')
    rw [← hmore]
    exact List.mem_append_right _ List.mem_cons_self

/-! ## 5. Counting -/

section Counting

variable {τ : Type} {L : Limiter} {reqs : τ → Request} {i : τ}
  {s : Store × List (Event τ)}

/-- The counters have what was counted. -/
structure Inv (L : Limiter) (reqs : τ → Request) (s : Store × List (Event τ)) : Prop where
  counts : ∀ key : Key, key.keyPrefix = L.keyPrefix →
    ((s.1 key.text).map (·.value)).getD 0 = number s.2 key
  genuine : Genuine s.2 L reqs

theorem number_append (log : List (Event τ)) (e : Event τ) (key : Key) :
    number (log ++ [e]) key = number log key + if e.op = .incr key then 1 else 0 := by
  simp [number, List.countP_append, List.countP_singleton]

theorem Genuine.append {log : List (Event τ)} (h : Genuine log L reqs) {e : Event τ}
    (he : ∀ key, e.op = .incr key → key.keyPrefix = L.keyPrefix ∧
      L.identifier (reqs e.who) = some key.identifier ∧
      ∃ start, ⟨e.who, .now, start⟩ ∈ log ∧ key.bucket = start / 1000 / L.windowSeconds) :
    Genuine (log ++ [e]) L reqs := by
  have hold : ∀ who start, (⟨who, .now, start⟩ : Event τ) ∈ log →
      (⟨who, .now, start⟩ : Event τ) ∈ log ++ [e] := fun _ _ => List.mem_append_left _
  intro e' he' key hop
  rcases List.mem_append.mp he' with he' | he'
  · obtain ⟨hpre, hid, start, hstart, hbucket⟩ := h e' he' key hop
    exact ⟨hpre, hid, start, hold _ _ hstart, hbucket⟩
  · obtain rfl := List.mem_singleton.mp he'
    obtain ⟨hpre, hid, start, hstart, hbucket⟩ := he key hop
    exact ⟨hpre, hid, start, hold _ _ hstart, hbucket⟩

/-- A command that counts nothing and changes no counter. -/
theorem Inv.still (h : Inv L reqs s) {s' : Store} {op : Op} {now : ℕ}
    (hop : ∀ key, op ≠ .incr key)
    (hvalue : ∀ text, (s' text).map (·.value) = (s.1 text).map (·.value)) :
    Inv L reqs (s', s.2 ++ [⟨i, op, now⟩]) := by
  refine ⟨fun key hpre => ?_, h.genuine.append fun key hkey => absurd hkey (hop key)⟩
  rw [number_append, if_neg (hop key), hvalue]
  exact h.counts key hpre

theorem Inv.expire (h : Inv L reqs s) (key : Key) (seconds now : ℕ) :
    Inv L reqs ((s.1.exec now (.expire key seconds)).2, s.2 ++ [⟨i, .expire key seconds, now⟩]) := by
  refine h.still (by simp) fun text => ?_
  simp only [Store.exec]
  cases hlive : (s.1 key.text).filter (fun e => decide (e.LiveAt now)) with
  | none => rfl
  | some e =>
    obtain ⟨he, -⟩ := Option.filter_eq_some_iff.mp hlive
    by_cases htext : text = key.text
    · subst htext
      rw [he]
      simp
    · simp [Function.update_of_ne htext]

/-- The value that an `INCR` in time answers, and leaves. -/
theorem incr_value (h : Inv L reqs s) {key : Key} (hpre : key.keyPrefix = L.keyPrefix) {now : ℕ}
    (htime : InTime (.incr key) now s) :
    ∃ e : Timed ℕ, s.1.exec now (.incr key) = (number s.2 key + 1,
      Function.update s.1 key.text (some e)) ∧ e.value = number s.2 key + 1 := by
  have hcount := h.counts key hpre
  simp only [Store.exec]
  cases hkey : s.1 key.text with
  | none =>
    rw [hkey] at hcount
    refine ⟨⟨1, none⟩, ?_, ?_⟩
    · simp [← hcount]
    · simp [← hcount]
  | some e =>
    rw [hkey] at hcount
    have hlive : Option.filter (fun e => decide (e.LiveAt now)) (some e) = some e :=
      Option.filter_eq_some_iff.mpr ⟨rfl, decide_eq_true (htime e hkey)⟩
    rw [hlive]
    simp only [Option.map_some, Option.getD_some] at hcount
    exact ⟨{ e with value := e.value + 1 }, by simp only [hcount], congrArg (· + 1) hcount⟩

/-- An `INCR` in time, of a request that has read the clock. -/
theorem Inv.incr (h : Inv L reqs s) {identifier : String}
    (hid : L.identifier (reqs i) = some identifier) {start : ℕ} (hstart : ⟨i, .now, start⟩ ∈ s.2)
    {key : Key} (hkey : key = ⟨L.keyPrefix, identifier, start / 1000 / L.windowSeconds⟩) {now : ℕ}
    (htime : InTime (.incr key) now s) :
    (s.1.exec now (.incr key)).1 = number s.2 key + 1 ∧
      Inv L reqs ((s.1.exec now (.incr key)).2, s.2 ++ [⟨i, .incr key, now⟩]) := by
  subst hkey
  obtain ⟨e, hexec, hvalue⟩ := incr_value h rfl htime
  rw [hexec]
  refine ⟨rfl, fun key hpre => ?_, h.genuine.append fun key hkey => ?_⟩
  · rw [number_append]
    by_cases hsame : key = ⟨L.keyPrefix, identifier, start / 1000 / L.windowSeconds⟩
    · subst hsame
      simp [hvalue]
    · have htext : key.text ≠ Key.text ⟨L.keyPrefix, identifier, start / 1000 / L.windowSeconds⟩ :=
        fun heq => hsame (Key.text_inj hpre heq)
      have hother : Op.incr ⟨L.keyPrefix, identifier, start / 1000 / L.windowSeconds⟩ ≠ .incr key :=
        fun hop => hsame (Op.incr.inj hop).symm
      simp only [Function.update_of_ne htext, if_neg hother]
      exact h.counts key hpre
  · obtain rfl := Op.incr.inj hkey
    exact ⟨rfl, hid, start, hstart, rfl⟩

end Counting

/-! ## 6. One request -/

section Request

variable {τ : Type} {L : Limiter} {reqs : τ → Request} {i : τ}

/-- The others only add to the record, and keep the counters right. -/
def keeping (L : Limiter) (reqs : τ → Request) : Contract sig ℕ (Store × List (Event τ)) where
  ok := InTime
  rely s s' := s.2 <+: s'.2 ∧ (Inv L reqs s → Inv L reqs s')
  guar s s' := s.2 <+: s'.2 ∧ (Inv L reqs s → Inv L reqs s')

/-- What is known of the record stays known when it grows. -/
def Monotone (Q : List (Event τ) → Prop) : Prop := ∀ ⦃log log'⦄, log <+: log' → Q log → Q log'

theorem Nth.mono {log log' : List (Event τ)} {key : Key} {n : ℕ} (hgrow : log <+: log')
    (h : Nth log i key n) : Nth log' i key n := by
  obtain ⟨before, time, hbefore, hn⟩ := h
  exact ⟨before, time, hbefore.trans hgrow, hn⟩

/-- One command. -/
theorem sat_call (op : Op) {R : List (Event τ) → Prop} {Q : op.Rep → List (Event τ) → Prop}
    (hQ : ∀ r, Monotone (Q r)) (h : ∀ now s, Inv L reqs s → R s.2 → InTime op now s →
      Inv L reqs ((s.1.exec now op).2, s.2 ++ [⟨i, op, now⟩]) ∧
        Q (s.1.exec now op).1 (s.2 ++ [⟨i, op, now⟩])) :
    Sat (machine τ) i (keeping L reqs) (call op) (fun s => Inv L reqs s ∧ R s.2)
      fun r s => Inv L reqs s ∧ Q r s.2 := by
  refine Sat.call (fun r s s' hs hrely => ⟨hrely.2 hs.1, hQ r hrely.1 hs.2⟩) fun now s hs htime => ?_
  obtain ⟨hinv, hq⟩ := h now s hs.1 hs.2 htime
  exact ⟨⟨List.prefix_append _ _, fun _ => hinv⟩, hinv, hq⟩

/-- The clock. -/
theorem sat_now {R : List (Event τ) → Prop} (hR : Monotone R) :
    Sat (machine τ) i (keeping L reqs) (call .now) (fun s => Inv L reqs s ∧ R s.2)
      fun now s => Inv L reqs s ∧ R s.2 ∧ ⟨i, .now, now⟩ ∈ s.2 := by
  refine sat_call .now (Q := fun now log => R log ∧ ⟨i, .now, now⟩ ∈ log)
    (fun now log log' hgrow hlog => ⟨hR hgrow hlog.1, hgrow.subset hlog.2⟩)
    fun now s hinv hr _ => ⟨?_, ?_, ?_⟩
  · exact hinv.still (by simp) fun _ => rfl
  · exact hR (List.prefix_append _ _) hr
  · exact List.mem_append_right _ (List.mem_singleton_self _)

/-- The count of a request is its place among those of its key. -/
theorem sat_incr {identifier : String} (hid : L.identifier (reqs i) = some identifier) (start : ℕ) :
    Sat (machine τ) i (keeping L reqs)
      (call (.incr ⟨L.keyPrefix, identifier, start / 1000 / L.windowSeconds⟩))
      (fun s => Inv L reqs s ∧ ⟨i, .now, start⟩ ∈ s.2)
      fun count s => Inv L reqs s ∧ ⟨i, .now, start⟩ ∈ s.2 ∧
        Nth s.2 i ⟨L.keyPrefix, identifier, start / 1000 / L.windowSeconds⟩ count := by
  refine sat_call (.incr _) (R := fun log => ⟨i, .now, start⟩ ∈ log)
    (Q := fun count log => ⟨i, .now, start⟩ ∈ log ∧
      Nth log i ⟨L.keyPrefix, identifier, start / 1000 / L.windowSeconds⟩ count) (fun count log log' hgrow hlog => ⟨hgrow.subset hlog.1, hlog.2.mono hgrow⟩)
    fun now s hinv hstart htime => ?_
  obtain ⟨hcount, hnext⟩ := hinv.incr hid hstart rfl htime
  exact ⟨hnext, List.mem_append_left _ hstart, s.2, now, List.prefix_rfl, hcount⟩

/-- The expiry of a new key. -/
theorem sat_expire (key : Key) (seconds count : ℕ) {R : List (Event τ) → Prop} (hR : Monotone R) :
    Sat (machine τ) i (keeping L reqs)
      (if count = 1 then call (.expire key seconds) else return ())
      (fun s => Inv L reqs s ∧ R s.2) fun _ s => Inv L reqs s ∧ R s.2 := by
  split
  · exact sat_call (.expire key seconds) (fun _ => hR) fun now s hinv hr _ =>
      ⟨hinv.expire key seconds now, hR (List.prefix_append _ _) hr⟩
  · exact fun _ hs => hs

/-- A time is in its window. -/
theorem window_bounds {windowSeconds : ℕ} (hpos : 0 < windowSeconds) (start : ℕ) :
    start / 1000 / windowSeconds * windowSeconds * 1000 ≤ start ∧
      start < (start / 1000 / windowSeconds + 1) * windowSeconds * 1000 := by
  have hlow := Nat.div_mul_le_self (start / 1000) windowSeconds
  have hhigh := Nat.lt_mul_of_div_lt (Nat.lt_succ_self (start / 1000 / windowSeconds)) hpos
  rw [Nat.succ_eq_add_one] at hhigh
  constructor <;> omega

/-- The seconds of a refusal reach the next window. -/
theorem retryAfter_enough (reset later : ℕ) :
    reset * 1000 ≤ later + Nat.max 1 (reset - later / 1000) * 1000 := by
  have hretry : reset - later / 1000 ≤ Nat.max 1 (reset - later / 1000) := Nat.le_max_right _ _
  calc reset * 1000 ≤ (later / 1000 + Nat.max 1 (reset - later / 1000)) * 1000 :=
        Nat.mul_le_mul_right _ (Nat.sub_le_iff_le_add'.mp hretry)
    _ = later / 1000 * 1000 + Nat.max 1 (reset - later / 1000) * 1000 := Nat.add_mul _ _ _
    _ ≤ later + Nat.max 1 (reset - later / 1000) * 1000 :=
        Nat.add_le_add_right (Nat.div_mul_le_self later 1000) _

/-- What the shared code replies. -/
theorem sat_limitBy {identifier : String} (hid : L.identifier (reqs i) = some identifier)
    (tier : Option String) (message : String) :
    Sat (machine τ) i (keeping L reqs)
      (limitBy L.windowSeconds (L.max (reqs i)) L.keyPrefix identifier tier message) (Inv L reqs)
      fun reply s => Exact s.2 L i (reqs i) reply := by
  rw [limitBy]
  refine Sat.bind ((sat_now (R := fun _ => True) fun _ _ _ _ => trivial).pre
    fun s hs => ⟨hs, trivial⟩) fun start => ?_
  refine Sat.bind ((sat_incr hid start).pre fun s hs => ⟨hs.1, hs.2.2⟩) fun count => ?_
  have hmono : Monotone fun log : List (Event τ) => ⟨i, .now, start⟩ ∈ log ∧
      Nth log i ⟨L.keyPrefix, identifier, start / 1000 / L.windowSeconds⟩ count :=
    fun log log' hgrow hlog => ⟨hgrow.subset hlog.1, hlog.2.mono hgrow⟩
  refine Sat.bind (sat_expire _ _ count hmono) fun _ => ?_
  refine Sat.bind (sat_now hmono) fun later => ?_
  rintro s ⟨-, ⟨hstart, hcount⟩, hlater⟩
  refine ⟨start, count, later, hstart, window_bounds L.windowSeconds_pos start,
    ⟨identifier, hid, hcount⟩, hlater, rfl, ?_, ?_⟩
  · simp only [replyTo]
    split <;> simp <;> omega
  · intro refusal hrefusal
    simp only [replyTo] at hrefusal
    split at hrefusal
    · obtain rfl := Option.some.inj hrefusal
      exact ⟨Nat.le_max_left _ _, retryAfter_enough _ later⟩
    · cases hrefusal

end Request

/-! ## 7. Every interleaving -/

/-- **Exactness.**  In any interleaving of any requests, at any times, in which every `INCR` gets to Redis
before the counter of its window has expired, a counter counts the requests of one identifier that began
in one window, and each request is answered by its place among them. -/
theorem exact_run {τ : Type} [DecidableEq τ] (L : Limiter) (reqs : τ → Request) (s : Store)
    (hnew : ∀ key : Key, key.keyPrefix = L.keyPrefix → s key.text = none) (ls : List (τ × ℕ))
    (hls : Along (Pool.step (machine τ)) (Pool.Issues InTime) (begin L reqs s) ls) :
    let c := run (Pool.step (machine τ)) (begin L reqs s) ls
    Genuine c.store.2 L reqs ∧
      ∀ i reply, c.prog i = .ret (some reply) → Exact c.store.2 L i (reqs i) reply := by
  have hstart : Inv L reqs ((s, []) : Store × List (Event τ)) := by
    refine ⟨fun key hpre => ?_, fun e he => absurd he List.not_mem_nil⟩
    simp [hnew key hpre, number]
  have hcompatible : Pool.Compatible fun _ : τ => keeping L reqs := fun _ _ _ _ _ h => h
  have hsafe : Pool.Safe (machine τ) (fun _ => keeping L reqs) (fun i result s =>
      ∀ reply, result = some reply → Exact s.2 L i (reqs i) reply) (begin L reqs s) := by
    intro i
    refine ⟨Inv L reqs, fun _ _ hs hrely => hrely.2 hs, hstart, ?_⟩
    show Sat _ _ _ (L.middleware (reqs i)) _ _
    cases hid : L.identifier (reqs i) with
    | none =>
      rw [L.middleware_none _ hid]
      rintro s - reply hreply
      cases hreply
    | some identifier =>
      obtain ⟨tier, message, hcode⟩ := L.middleware_eq _ hid
      rw [hcode]
      refine Sat.bind (sat_limitBy hid tier message) fun reply s hexact reply' hreply => ?_
      obtain rfl := Option.some.inj hreply
      exact hexact
  refine ⟨?_, fun i reply hreply => ?_⟩
  · have hinv : Stable (keeping L reqs).guar (Inv L reqs) := fun _ _ hs hguar => hguar.2 hs
    exact (hsafe.run_stable (fun _ => hinv) hcompatible hstart hls).genuine
  · exact (hsafe.run hcompatible hls).done hreply reply rfl

/-- One request in a second. -/
def sampleLimiter : Limiter := .rateLimit ⟨1, 1, "t", by decide, by decide⟩

/-- Requests from one unknown address. -/
def sampleRequests {τ : Type} (_ : τ) : Request := {}

/-- One request alone, at the start. -/
theorem exact_run_sample :
    let c := run (Pool.step (machine Unit)) (begin sampleLimiter sampleRequests fun _ => none)
      [((), 0), ((), 0), ((), 0), ((), 0)]
    Genuine c.store.2 sampleLimiter sampleRequests ∧ ∀ i reply, c.prog i = .ret (some reply) →
      Exact c.store.2 sampleLimiter i (sampleRequests i) reply :=
  exact_run sampleLimiter sampleRequests (fun _ => none) (fun _ _ => rfl)
    [((), 0), ((), 0), ((), 0), ((), 0)] (by decide +kernel)

/-- The first request is counted at once.  The second one reads the clock a millisecond before the window
ends, and its `INCR` comes a millisecond after the key has expired. -/
def sampleRun : Pool sig (Option Reply) Bool (Store × List (Event Bool)) :=
  run (Pool.step (machine Bool)) (begin sampleLimiter sampleRequests fun _ => none)
    [(false, 0), (false, 0), (false, 0), (false, 0), (true, 999), (true, 1001), (true, 1001),
      (true, 1001)]

/-- What is executed in that run. -/
def sampleLog : List (Event Bool) :=
  let key : Key := ⟨"t", "unknown", 0⟩
  [⟨false, .now, 0⟩, ⟨false, .incr key, 0⟩, ⟨false, .expire key 1, 0⟩, ⟨false, .now, 0⟩,
    ⟨true, .now, 999⟩, ⟨true, .incr key, 1001⟩, ⟨true, .expire key 1, 1001⟩, ⟨true, .now, 1001⟩]

/-- The second request counts as the second of its window. -/
theorem nth_sampleLog {key : Key} {n : ℕ} (h : Nth sampleLog true key n) : n = 2 := by
  obtain ⟨before, time, ⟨rest, hrest⟩, rfl⟩ := h
  have hat : sampleLog[before.length]? = some ⟨true, .incr key, time⟩ := by
    rw [← hrest]
    simp
  have hbefore : before = sampleLog.take before.length := by
    rw [← hrest]
    simp
  have hlt : before.length < 8 := (List.getElem?_eq_some_iff.mp hat).1
  rw [hbefore]
  generalize before.length = k at hat hlt
  interval_cases k <;> simp [sampleLog] at hat
  obtain ⟨rfl, -⟩ := hat
  rfl

/-- Both are passed on. -/
theorem late_passed : ¬ ∀ (L : Limiter) (reqs : Bool → Request) (ls : List (Bool × ℕ)) i reply,
    let c := run (Pool.step (machine Bool)) (begin L reqs fun _ => none) ls
    c.prog i = .ret (some reply) → Exact c.store.2 L i (reqs i) reply := by
  intro h
  have hlog : sampleRun.store.2 = sampleLog := by decide +kernel
  have hresult : (sampleRun.prog true).result? = some (some ⟨1, 0, 1, none, none⟩) := by
    decide +kernel
  have hprog : sampleRun.prog true = .ret (some ⟨1, 0, 1, none, none⟩) := by
    cases hret : sampleRun.prog true with
    | ret reply =>
      rw [hret] at hresult
      rw [Option.some.inj hresult]
    | cmd op k =>
      rw [hret] at hresult
      cases hresult
  obtain ⟨start, n, later, hanswered⟩ := h sampleLimiter sampleRequests _ true _ hprog
  obtain ⟨identifier, -, hnth⟩ := hanswered.counted
  have htwo : n = 2 := nth_sampleLog (hlog ▸ hnth)
  have hone := hanswered.passed.mp rfl
  rw [htwo] at hone
  exact absurd hone (by decide)

end SmartDrop.RateLimit
