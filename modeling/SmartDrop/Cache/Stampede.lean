/-
# What a cached value is read as

`fetchWithLock` in `cache/stampede.js` looks a value up in the cache at three places: at its beginning,
again inside the single flight, and again and again while it waits for the lock of another process.
What a fetcher has returned is stored as it is, or wrapped with its expiry (`backgroundRefresh`), and
`services/cache.js` turns it into JSON and back.

Each of the three places parses what it gets once more if it is a string, and takes an object with a
field `__stampede_meta` for a wrapper, whoever put the field there.  A wrapped value comes back
(`Transparent`); of the others strings and such objects do not.

Any number of calls run in any number of processes, one command at a time.
-/
import SmartDrop.Lib.JsonExtent
import SmartDrop.Lib.Once

namespace SmartDrop.Cache.Stampede

open Conc JsonText

/-! ## 1. Redis and the process -/

/-- The options of a call. -/
structure Options where
  ttlSeconds : ℕ := 60
  lockTtlMs : ℕ := 5000
  lockTimeoutMs : ℕ := 3000
  retryIntervalMs : ℕ := 50
  backgroundRefresh : Bool := false
  skipCache : Bool := false

/-- A key of Redis.  `writer` is a record that no command reads: the call that has stored a value. -/
structure Entry (τ : Type) where
  text : String
  expiresAt : Option ℕ
  writer : Option τ
deriving DecidableEq

/-- The keys and the clock.  The last two are records: which calls have called their fetchers, and what
those have returned when. -/
structure Store (τ : Type) where
  keys : String → Option (Entry τ)
  now : ℕ
  called : τ → Bool
  fetched : τ → Option (Json × ℕ)

/-- Before the first call. -/
def Store.init {τ : Type} : Store τ where
  keys _ := none
  now := 0
  called _ := false
  fetched _ := none

/-- An error that is thrown. -/
abbrev Err := String

/-- The atomic steps. -/
inductive Op where
  | get (key : String)
  | set (key text : String) (ttlSeconds : Option ℕ)
  | setNX (key token : String) (ttlMs : ℕ)
  | compareAndDelete (key token : String)
  | now
  | randomUUID
  | sleep (ms : ℕ)
  | fetch
  | join (key : String)
  | refresh

/-- What a step answers.  `join` asks for the flight of the key: if there is one, it answers with what
comes of it; what is returned may be `undefined`. -/
@[reducible] def Op.Ret : Op → Type
  | .get _ => Option String
  | .set .. => Unit
  | .setNX .. => Bool
  | .compareAndDelete .. => Bool
  | .now => ℕ
  | .randomUUID => String
  | .sleep _ => Unit
  | .fetch => Json
  | .join _ => Option (Except Err (Option Json))
  | .refresh => Unit

/-- The signature: a step may fail. -/
def sig : Sig where
  Op := Op
  Rep op := Except Err op.Ret

/-- How a command can fail: before it was executed, or after, its reply being lost. -/
inductive Fault where
  | none
  | before
  | after
deriving DecidableEq

/-- The time that a step takes, its fault, and what is answered by what is not modelled. -/
structure Env where
  elapsed : ℕ := 0
  fault : Fault := .none
  uuid : String := ""
  fetched : Except Err Json := .error "no fetcher"
  flight : Option (Except Err (Option Json)) := Option.none

section Machine

variable {τ : Type}

/-- The text of a key that has not expired. -/
def Store.live (s : Store τ) (key : String) : Option String :=
  match s.keys key with
  | none => none
  | some e =>
    match e.expiresAt with
    | none => some e.text
    | some t => if s.now < t then some e.text else none

/-- Time passes. -/
def Store.wait (s : Store τ) (elapsed : ℕ) : Store τ := { s with now := s.now + elapsed }

/-- A key is set or deleted. -/
def Store.put (s : Store τ) (key : String) (e : Option (Entry τ)) : Store τ :=
  { s with keys := Function.update s.keys key e }

variable [DecidableEq τ]

/-- What a step of a call answers and does when it is executed.  A timer takes a millisecond at
least. -/
def Store.exec (i : τ) (x : Env) (s : Store τ) : (op : Op) → Except Err op.Ret × Store τ
  | .get key => (.ok (s.live key), s)
  | .set key text ttlSeconds =>
    (.ok (), s.put key (some ⟨text, ttlSeconds.map fun ttl => s.now + ttl * 1000, some i⟩))
  | .setNX key token ttlMs =>
    if (s.live key).isSome then (.ok false, s)
    else (.ok true, s.put key (some ⟨token, some (s.now + ttlMs), none⟩))
  | .compareAndDelete key token =>
    if s.live key = some token then (.ok true, s.put key none) else (.ok false, s)
  | .now => (.ok s.now, s)
  | .randomUUID => (.ok x.uuid, s)
  | .sleep ms => (.ok (), s.wait (max 1 ms))
  | .fetch =>
    let s := { s with called := Function.update s.called i true }
    match x.fetched with
    | .error e => (.error e, s)
    | .ok v => (.ok v, { s with fetched := Function.update s.fetched i (some (v, s.now)) })
  | .join _ => (.ok x.flight, s)
  | .refresh => (.ok (), s)

/-- The commands of Redis, which can fail. -/
def Op.isCommand : Op → Bool
  | .get _ | .set .. | .setNX .. | .compareAndDelete .. => true
  | _ => false

/-- Redis and the processes. -/
def machine : Machine sig τ Env (Store τ) where
  exec i op x s :=
    let s := s.wait x.elapsed
    let r := s.exec i x op
    if op.isCommand && x.fault ≠ .none then
      (.error "command failed", if x.fault = .before then s else r.2)
    else r

end Machine

/-- A piece of a process. -/
abbrev Code := Throws sig Err

/-- One step. -/
def command (op : Op) : Code op.Ret := (Prog.call (S := sig) op : Prog sig (Except Err op.Ret))

/-! ## 2. `services/cache.js` -/

/-- What `get` makes of the text of a key; `null` stands for a missing key too. -/
def cached (text : Option String) : Json :=
  match text with
  | none => .null
  | some text => if text = "" then .null else (parse text).getD .null

/-- `get`. -/
def get (key : String) : Code Json := do
  let data ← command (.get key)
  return cached data

/-- `set`. -/
def set (key : String) (value : Json) (ttlSeconds : ℕ) : Code Unit :=
  command (.set key (stringify value) (if ttlSeconds = 0 then none else some ttlSeconds))

/-! ## 3. `cache/stampede.js` -/

/-- `acquireLock`. -/
def acquireLock (key : String) (lockTtlMs : ℕ) : Code (Option String) := do
  let token ← command .randomUUID
  tryCatch (do
    let result ← command (.setNX ("lock:" ++ key) token lockTtlMs)
    return if result then some token else none) fun _ => return some token

/-- `releaseLock`. -/
def releaseLock (key : String) (token : Option String) : Code Bool := do
  match token with
  | none => return false
  | some token => tryCatch (command (.compareAndDelete ("lock:" ++ key) token)) fun _ => return false

/-- `typeof cached === 'string' ? JSON.parse(cached) : cached`. -/
def reparse (cached : Json) : Code Json :=
  match cached with
  | .str text =>
    match parse text with
    | some v => return v
    | none => throw "SyntaxError"
  | v => return v

/-- `parsed && typeof parsed === 'object' && parsed.__stampede_meta`. -/
def isWrapper (parsed : Json) : Bool := Json.truthy (parsed.get? "__stampede_meta")

/-- The lookup inside the single flight and of a call that waits for the lock: what is to be returned,
if anything was found. -/
def lookUp (key : String) : Code (Option (Option Json)) :=
  tryCatch (do
    let cached ← get key
    if cached = .null then return none
    let parsed ← reparse cached
    if isWrapper parsed then return some (parsed.get? "value")
    return some (some parsed)) fun _ => return none

section Source

variable (coerced : ℕ → Option Json → Bool)

/-- `now >= expiresAt`; of anything but a whole number it is what `coerced` says. -/
def isDue (now : ℕ) (expiresAt : Option Json) : Bool :=
  match expiresAt.bind Json.toNat? with
  | some t => t ≤ now
  | none => coerced now expiresAt

/-- The lookup that a call begins with. -/
def lookUpFirst (key : String) (options : Options) : Code (Option (Option Json)) :=
  tryCatch (do
    let cached ← get key
    if cached = .null then return none
    let parsed ← reparse cached
    if isWrapper parsed then
      let now ← command .now
      if isDue coerced now (parsed.get? "expiresAt") && options.backgroundRefresh then
        command .refresh
        return some (parsed.get? "value")
      return some (parsed.get? "value")
    return some (some parsed)) fun _ => return none

/-- How the wait for the lock ends: with an answer, or with the lock or the timeout. -/
inductive Waited where
  | found (answer : Option Json)
  | lock (lockToken : Option String)

/-- The loop that waits for the lock.  Every round takes a millisecond at least, so that the fuel
suffices. -/
def waitForLock (key : String) (options : Options) (startTime : ℕ) : ℕ → Option String → Code Waited
  | 0, lockToken => return .lock lockToken
  | _ + 1, some token => return .lock (some token)
  | fuel + 1, none => do
    if (← command .now) - startTime < options.lockTimeoutMs then
      command (.sleep options.retryIntervalMs)
      match ← lookUp key with
      | some answer => return .found answer
      | none => waitForLock key options startTime fuel (← acquireLock key options.lockTtlMs)
    else return .lock none

/-- What is stored of a value that was fetched, `expiresAt` being its expiry. -/
def payload (backgroundRefresh : Bool) (freshData : Json) (expiresAt : ℕ) : Json :=
  if backgroundRefresh then
    .obj [("__stampede_meta", .bool true), ("value", freshData), ("expiresAt", .ofNat expiresAt)]
  else freshData

/-- The value is stored, wrapped or not. -/
def store (key : String) (backgroundRefresh : Bool) (ttlSeconds : ℕ) (freshData : Json) : Code Unit := do
  if backgroundRefresh then
    let now ← command .now
    set key (payload true freshData (now + ttlSeconds * 1000)) (ttlSeconds * 2)
  else set key (payload false freshData 0) ttlSeconds

/-- The fetcher is called, and what it returns is stored. -/
def refill (key : String) (options : Options) : Code (Option Json) := do
  let freshData ← command .fetch
  tryCatch (store key options.backgroundRefresh options.ttlSeconds freshData) fun _ => return ()
  return some freshData

/-- `try { body } finally { await releaseLock(key, lockToken); }`. -/
def andRelease {α : Type} (body : Code α) (key : String) (lockToken : Option String) : Code α :=
  (body.prog.bind fun r => (releaseLock key lockToken).prog.bind fun _ => .ret r :
    Prog sig (Except Err α))

/-- The function that is run inside the single flight. -/
def inFlight (key : String) (options : Options) : Code (Option Json) := do
  match ← lookUp key with
  | some answer => return answer
  | none =>
    let startTime ← command .now
    let lockToken ← acquireLock key options.lockTtlMs
    match ← waitForLock key options startTime (options.lockTimeoutMs + 1) lockToken with
    | .found answer => return answer
    | .lock lockToken => andRelease (refill key options) key lockToken

/-- `fetchWithLock`. -/
def fetchWithLock (key : String) (options : Options) : Code (Option Json) := do
  if options.skipCache then
    return some (← command .fetch)
  match ← lookUpFirst coerced key options with
  | some answer => return answer
  | none =>
    match ← command (.join key) with
    | some (.ok answer) => return answer
    | some (.error e) => throw e
    | none => inFlight key options

/-- What `triggerBackgroundRefresh` runs. -/
def backgroundRefresh (key : String) (options : Options) : Code (Option Json) := do
  match ← acquireLock key options.lockTtlMs with
  | none => return none
  | some lockToken =>
    andRelease (tryCatch (do
      let freshData ← command .fetch
      store key true options.ttlSeconds freshData
      return none) fun _ => return none) key (some lockToken)

/-- The calls: one, or the refresh that one has triggered. -/
inductive Call where
  | fetchWithLock (key : String) (options : Options)
  | backgroundRefresh (key : String) (options : Options)

namespace Call

/-- The program of a call. -/
def code : Call → Code (Option Json)
  | .fetchWithLock key options => Stampede.fetchWithLock coerced key options
  | .backgroundRefresh key options => Stampede.backgroundRefresh key options

/-- Whether a call wraps what it stores. -/
def wraps : Call → Bool
  | .fetchWithLock _ options => options.backgroundRefresh
  | .backgroundRefresh .. => true

/-- How long what it stores is fresh. -/
def ttlSeconds : Call → ℕ
  | .fetchWithLock _ options => options.ttlSeconds
  | .backgroundRefresh _ options => options.ttlSeconds

end Call

/-- What each call has still to do. -/
abbrev System (τ : Type) := Pool sig (Except Err (Option Json)) τ (Store τ)

/-- Every call is about to begin. -/
def begin {τ : Type} (calls : τ → Call) : System τ := ⟨.init, fun i => ((calls i).code coerced).prog⟩

end Source

/-! ## 4. What a lookup finds -/

/-- What a cached value is parsed as, if it is one and can be parsed. -/
def reparsed (cached : Json) : Option Json :=
  match cached with
  | .null => none
  | .str text => parse text
  | v => some v

/-- What is found under a key: nothing, a value, or a wrapped value with its expiry. -/
inductive Found where
  | nothing
  | plain (v : Json)
  | wrapped (value expiresAt : Option Json)

/-- What a parsed value is taken for. -/
def unwrap (parsed : Json) : Found :=
  if isWrapper parsed then .wrapped (parsed.get? "value") (parsed.get? "expiresAt") else .plain parsed

/-- What the reply to `GET` is taken for. -/
def found : Except Err (Option String) → Found
  | .ok text => ((reparsed (cached text)).map unwrap).getD .nothing
  | .error _ => .nothing

/-- What a lookup inside the single flight makes of it. -/
def Found.answer : Found → Option (Option Json)
  | .nothing => none
  | .plain v => some (some v)
  | .wrapped value _ => some value

/-- A value that cannot be parsed is as good as none. -/
theorem tryCatch_reparse (cached : Json) (after : Json → Code (Option (Option Json))) :
    (tryCatch (do
      if cached = .null then return none
      let parsed ← reparse cached
      after parsed) fun _ => return none : Code _) =
      match reparsed cached with
      | none => pure none
      | some parsed => tryCatch (after parsed) fun _ => pure none := by
  cases cached with
  | null =>
    rw [if_pos rfl]
    rfl
  | str text =>
    rw [if_neg (by simp)]
    simp only [reparse, reparsed]
    cases parse text <;> rfl
  | _ =>
    rw [if_neg (by simp)]
    rfl

theorem lookUp_prog (key : String) :
    (lookUp key).prog = .cmd (.get key) fun r => .ret (.ok (found r).answer) := by
  change Prog.cmd _ _ = _
  congr 1
  funext r
  cases r with
  | error e => rfl
  | ok text =>
    refine (congrArg Throws.prog (tryCatch_reparse (cached text) _)).trans ?_
    simp only [found]
    cases reparsed (cached text) with
    | none => rfl
    | some parsed =>
      simp only [Option.map_some, Option.getD_some, unwrap]
      cases isWrapper parsed <;> rfl

variable {coerced : ℕ → Option Json → Bool}

/-- What the first lookup of a call goes on with. -/
def goOn (coerced : ℕ → Option Json → Bool) (options : Options) :
    Found → Prog sig (Except Err (Option (Option Json)))
  | .nothing => .ret (.ok none)
  | .plain v => .ret (.ok (some (some v)))
  | .wrapped value expiresAt => .cmd .now fun
    | .error _ => .ret (.ok none)
    | .ok now =>
      if isDue coerced now expiresAt && options.backgroundRefresh then
        .cmd .refresh fun
          | .error _ => .ret (.ok none)
          | .ok _ => .ret (.ok (some value))
      else .ret (.ok (some value))

theorem lookUpFirst_prog (key : String) (options : Options) :
    (lookUpFirst coerced key options).prog =
      .cmd (.get key) fun r => goOn coerced options (found r) := by
  change Prog.cmd _ _ = _
  congr 1
  funext r
  cases r with
  | error e => rfl
  | ok text =>
    refine (congrArg Throws.prog (tryCatch_reparse (cached text) _)).trans ?_
    simp only [found]
    cases reparsed (cached text) with
    | none => rfl
    | some parsed =>
      simp only [Option.map_some, Option.getD_some, unwrap]
      cases isWrapper parsed with
      | false => rfl
      | true =>
        change Prog.cmd _ _ = Prog.cmd _ _
        congr 1
        funext now
        cases now with
        | error e => rfl
        | ok now =>
          change (Throws.prog (ite _ _ _)).bind _ = ite _ _ _
          cases isDue coerced now (parsed.get? "expiresAt") && options.backgroundRefresh with
          | false => rfl
          | true =>
            change Prog.cmd _ _ = Prog.cmd _ _
            congr 1
            funext r
            cases r <;> rfl

/-! ## 5. What comes back -/

/-- The values that a lookup gives back as they are. -/
def Transparent (wraps : Bool) (v : Json) : Prop :=
  wraps = true ∨ (∀ text, v ≠ .str text) ∧ isWrapper v = false

/-- A call that is about to return `v`, having looked at the clock first perhaps, before `deadline`. -/
def Answers (v : Json) (deadline : ℕ) : Prog sig (Except Err (Option Json)) → Prop
  | .ret r => r = .ok (some v)
  | .cmd .now k => ∀ now < deadline, k (.ok now) = .ret (.ok (some v))
  | .cmd _ _ => False

/-- `v` is found, or wrapped. -/
def Found.Gives (v : Json) : Found → Prop
  | .nothing => False
  | .plain w => w = v
  | .wrapped value _ => value = some v

section Stored

variable {wraps : Bool} {v : Json} {t deadline : ℕ}

@[simp] theorem cached_stringify (w : Json) : cached (some (stringify w)) = w := by
  simp [cached, stringify_ne_empty]

theorem found_wrapped (v : Json) (t : ℕ) :
    found (.ok (some (stringify (payload true v t)))) = .wrapped (some v) (some (.ofNat t)) := by
  simp only [found, cached_stringify]
  rfl

theorem found_plain (hv : v ≠ .null) (ht : Transparent false v) (t : ℕ) :
    found (.ok (some (stringify (payload false v t)))) = .plain v := by
  obtain ⟨hstr, hwrapper⟩ : (∀ text, v ≠ .str text) ∧ isWrapper v = false := by
    simpa [Transparent] using ht
  have hreparsed : reparsed v = some v := by
    cases v with
    | null => exact absurd rfl hv
    | str text => exact absurd rfl (hstr text)
    | _ => rfl
  simp only [found, payload, cached_stringify, Bool.false_eq_true, if_false, hreparsed,
    Option.map_some, Option.getD_some, unwrap, hwrapper]

/-- A string is not what is read from it, and no object is a field of itself. -/
theorem not_gives_of_not_transparent (ht : ¬ Transparent false v) (t : ℕ) :
    ¬ (found (.ok (some (stringify (payload false v t))))).Gives v := by
  simp only [found, payload, cached_stringify, Bool.false_eq_true, if_false]
  by_cases hstr : ∃ text, v = .str text
  · obtain ⟨text, rfl⟩ := hstr
    simp only [reparsed]
    cases hparse : parse text with
    | none => exact id
    | some w =>
      simp only [Option.map_some, Option.getD_some, unwrap]
      split
      · intro hvalue
        exact ne_of_parse hparse (Json.extent_get? hvalue) rfl
      · intro hw
        exact ne_of_parse hparse le_rfl hw
  · have hwrapper : isWrapper v = true := by
      by_contra hfalse
      exact ht (.inr ⟨fun text he => hstr ⟨text, he⟩, by simpa using hfalse⟩)
    have hreparsed : reparsed v = some v := by
      cases v with
      | null => cases hwrapper
      | str text => exact absurd ⟨text, rfl⟩ hstr
      | _ => rfl
    simp only [hreparsed, Option.map_some, Option.getD_some, unwrap, hwrapper, if_true]
    exact Json.get?_ne_self v "value"

/-- **What is stored comes back if and only if it is transparent.** -/
theorem gives_iff (hv : v ≠ .null) (t : ℕ) :
    (found (.ok (some (stringify (payload wraps v t))))).Gives v ↔ Transparent wraps v := by
  cases wraps with
  | true =>
    rw [found_wrapped]
    exact iff_of_true rfl (.inl rfl)
  | false =>
    by_cases ht : Transparent false v
    · rw [found_plain hv ht]
      exact iff_of_true rfl ht
    · exact iff_of_false (not_gives_of_not_transparent ht t) ht

end Stored

/-! ## 6. The lookups of a call -/

/-- A lookup whose reply is what a call has stored answers with it if and only if it is transparent. -/
def Faithful (k : Except Err (Option String) → Prog sig (Except Err (Option Json))) : Prop :=
  ∀ wraps v t deadline, v ≠ .null → 0 < deadline → deadline ≤ t →
    (Answers v deadline (k (.ok (some (stringify (payload wraps v t))))) ↔ Transparent wraps v)

/-- A program that does not answer right away. -/
def Silent (t : Prog sig (Except Err (Option Json))) : Prop :=
  ∀ v deadline, 0 < deadline → ¬ Answers v deadline t

theorem answers_ret {r : Option Json} {v : Json} {deadline : ℕ} :
    Answers v deadline (.ret (.ok r)) ↔ r = some v := by
  simp [Answers]

theorem faithful_lookUp {k : Except Err (Option String) → Prog sig (Except Err (Option Json))}
    {g : Except Err (Option (Option Json)) → Prog sig (Except Err (Option Json))}
    (hk : ∀ r, k r = g (.ok (found r).answer)) (hg : ∀ a, g (.ok (some a)) = .ret (.ok a))
    (hnone : Silent (g (.ok none))) : Faithful k := by
  intro wraps v t deadline hv hpos _
  rw [hk, ← gives_iff hv t]
  cases found (.ok (some (stringify (payload wraps v t)))) with
  | nothing => exact iff_of_false (hnone v deadline hpos) id
  | plain w =>
    rw [Found.answer, hg, answers_ret, Option.some.injEq]
    rfl
  | wrapped value expiresAt =>
    rw [Found.answer, hg, answers_ret]
    rfl

theorem not_isDue {now t : ℕ} (h : now < t) : isDue coerced now (some (.ofNat t)) = false := by
  simp [isDue, Json.toNat?_ofNat, h]

section First

variable {options : Options} {g : Except Err (Option (Option Json)) → Prog sig (Except Err (Option Json))}
  {v : Json} {deadline : ℕ}

/-- The first lookup of a call answers with what it has found only. -/
theorem gives_of_answers (hg : ∀ a, g (.ok (some a)) = .ret (.ok a)) (hnone : Silent (g (.ok none)))
    (hpos : 0 < deadline) {f : Found} (h : Answers v deadline ((goOn coerced options f).bind g)) :
    f.Gives v := by
  cases f with
  | nothing => exact hnone v deadline hpos h
  | plain w =>
    change Answers v deadline (g (.ok (some (some w)))) at h
    rw [hg, answers_ret] at h
    exact Option.some.inj h
  | wrapped value expiresAt =>
    have hzero := h 0 hpos
    simp only at hzero
    split at hzero
    · cases hzero
    · change g (.ok (some value)) = _ at hzero
      rw [hg] at hzero
      cases hzero
      rfl

theorem faithful_goOn {k : Except Err (Option String) → Prog sig (Except Err (Option Json))}
    (hk : ∀ r, k r = (goOn coerced options (found r)).bind g)
    (hg : ∀ a, g (.ok (some a)) = .ret (.ok a)) (hnone : Silent (g (.ok none))) : Faithful k := by
  intro wraps v t deadline hv hpos hle
  rw [hk]
  constructor
  · intro hanswers
    exact (gives_iff hv t).mp (gives_of_answers hg hnone hpos hanswers)
  intro ht
  cases wraps with
  | true =>
    rw [found_wrapped]
    intro now hnow
    simp only [not_isDue (hnow.trans_le hle)]
    exact hg (some v)
  | false =>
    rw [found_plain hv ht]
    change Answers v deadline (g (.ok (some (some v))))
    rw [hg, answers_ret]

end First

/-! ## 7. The programs -/

/-- The steps that neither look up nor store a value, nor fetch one. -/
def Plain : sig.Op → Prop
  | Op.get _ | Op.set .. | Op.fetch => False
  | _ => True

/-- The steps that are neither lookups nor calls of the fetcher. -/
def Calm : sig.Op → Prop
  | Op.get _ | Op.fetch => False
  | _ => True

theorem calm_of_plain (op : sig.Op) (h : Plain op) : Calm op := by
  cases op with
  | get key => cases h
  | fetch => cases h
  | _ => trivial

/-- What is true at every step of a call: a lookup is faithful, and what follows the fetcher's call is
calm. -/
def AtNode : (op : sig.Op) → (sig.Rep op → Prog sig (Except Err (Option Json))) → Prop
  | Op.get _, k => Faithful k
  | Op.fetch, k => ∀ r, (k r).Uses Calm
  | _, _ => True

theorem atNode_of_calm (op : sig.Op) (k : sig.Rep op → Prog sig (Except Err (Option Json)))
    (h : Calm op) : AtNode op k := by
  cases op with
  | get key => cases h
  | fetch => cases h
  | _ => trivial

/-- What is calm can come before anything. -/
theorem nodes_bind {β : Type} {t : Prog sig β} {f : β → Prog sig (Except Err (Option Json))}
    (ht : t.Uses Calm) (hf : ∀ b, (f b).Nodes AtNode) : (t.bind f).Nodes AtNode :=
  Prog.Nodes.bind (ht.nodes fun op _ h => atNode_of_calm op _ h) hf

section Uses

variable {φ : sig.Op → Prop}

theorem uses_command {op : Op} (h : φ op) : Throws.Uses φ (command op) := ⟨h, fun _ => trivial⟩

theorem uses_acquireLock (hφ : ∀ op, Plain op → φ op) (key : String) (lockTtlMs : ℕ) :
    Throws.Uses φ (acquireLock key lockTtlMs) := by
  refine Throws.Uses.bind (uses_command (hφ _ trivial)) fun token => ?_
  refine Throws.Uses.tryCatch ?_ fun _ => Throws.uses_pure _
  exact Throws.Uses.bind (uses_command (hφ _ trivial)) fun _ => Throws.uses_pure _

theorem uses_releaseLock (hφ : ∀ op, Plain op → φ op) (key : String) (token : Option String) :
    Throws.Uses φ (releaseLock key token) := by
  cases token with
  | none => exact Throws.uses_pure _
  | some token =>
    exact Throws.Uses.tryCatch (uses_command (hφ _ trivial)) fun _ => Throws.uses_pure _

theorem uses_goOn (options : Options) (f : Found) : (goOn coerced options f).Uses Plain := by
  cases f with
  | wrapped value expiresAt =>
    refine ⟨trivial, ?_⟩
    rintro (e | now)
    · trivial
    dsimp only
    split
    · refine ⟨trivial, ?_⟩
      rintro (e | u) <;> trivial
    · trivial
  | _ => trivial

end Uses

theorem uses_store (key : String) (wraps : Bool) (ttlSeconds : ℕ) (v : Json) :
    Throws.Uses Calm (store key wraps ttlSeconds v) := by
  unfold store
  split
  · exact Throws.Uses.bind (uses_command trivial) fun _ => uses_command trivial
  · exact uses_command trivial

theorem uses_release {α : Type} (key : String) (token : Option String) (r : Except Err α) :
    ((releaseLock key token).prog.bind fun _ => (.ret r : Prog sig (Except Err α))).Uses Calm :=
  Prog.Uses.bind (uses_releaseLock calm_of_plain key token) fun _ => trivial

/-- A program whose first step is the call of the fetcher, and that is calm from there. -/
def Fetches {β : Type} (t : Prog sig β) : Prop := ∃ k, t = .cmd Op.fetch k ∧ ∀ r, (k r).Uses Calm

theorem fetches_fetch : Fetches (command .fetch).prog := ⟨.ret, rfl, fun _ => trivial⟩

theorem Fetches.bind {β γ : Type} {t : Prog sig β} {f : β → Prog sig γ} (h : Fetches t)
    (hf : ∀ b, (f b).Uses Calm) : Fetches (t.bind f) := by
  obtain ⟨k, rfl, hk⟩ := h
  exact ⟨fun r => (k r).bind f, rfl, fun r => Prog.Uses.bind (hk r) hf⟩

theorem Fetches.andThen {β γ : Type} {t : Code β} {f : β → Code γ} (h : Fetches t.prog)
    (hf : ∀ b, Throws.Uses Calm (f b)) : Fetches (t >>= f).prog := by
  rw [Throws.prog_bind]
  refine h.bind ?_
  rintro (e | b)
  · trivial
  · exact hf b

theorem Fetches.nodes {t : Prog sig (Except Err (Option Json))} (h : Fetches t) : t.Nodes AtNode := by
  obtain ⟨k, rfl, hk⟩ := h
  exact ⟨hk, fun r => (hk r).nodes atNode_of_calm⟩

theorem fetches_refill (key : String) (options : Options) : Fetches (refill key options).prog := by
  refine fetches_fetch.andThen fun freshData => ?_
  refine Throws.Uses.bind ?_ fun _ => Throws.uses_pure _
  exact Throws.Uses.tryCatch (uses_store _ _ _ _) fun _ => Throws.uses_pure _

theorem nodes_lookUp (key : String)
    {g : Except Err (Option (Option Json)) → Prog sig (Except Err (Option Json))}
    (hg : ∀ a, g (.ok (some a)) = .ret (.ok a)) (hnone : Silent (g (.ok none)))
    (hnodes : ∀ r, (g r).Nodes AtNode) : ((lookUp key).prog.bind g).Nodes AtNode := by
  rw [lookUp_prog]
  exact ⟨faithful_lookUp (fun _ => rfl) hg hnone, fun _ => hnodes _⟩

theorem nodes_waitForLock (key : String) (options : Options) (startTime fuel : ℕ)
    (token : Option String) {g : Except Err Waited → Prog sig (Except Err (Option Json))}
    (hg : ∀ a, g (.ok (.found a)) = .ret (.ok a)) (hnodes : ∀ r, (g r).Nodes AtNode) :
    ((waitForLock key options startTime fuel token).prog.bind g).Nodes AtNode := by
  induction fuel generalizing token with
  | zero => exact hnodes _
  | succ fuel ih =>
    cases token with
    | some token => exact hnodes _
    | none =>
      unfold waitForLock
      rw [Throws.prog_bind, Prog.bind_assoc]
      refine nodes_bind (uses_command trivial) ?_
      rintro (e | now)
      · exact hnodes _
      rw [Throws.andThen_ok]
      split
      · rw [Throws.prog_bind, Prog.bind_assoc]
        refine nodes_bind (uses_command trivial) ?_
        rintro (e | u)
        · exact hnodes _
        rw [Throws.andThen_ok, Throws.prog_bind, Prog.bind_assoc]
        refine nodes_lookUp key hg (fun v deadline _ h => h) ?_
        rintro (e | none | answer)
        · exact hnodes _
        · rw [Throws.andThen_ok, Throws.prog_bind, Prog.bind_assoc]
          refine nodes_bind (uses_acquireLock calm_of_plain _ _) ?_
          rintro (e | token)
          · exact hnodes _
          · exact ih token
        · exact hnodes _
      · exact hnodes _

theorem nodes_inFlight (key : String) (options : Options) :
    (inFlight key options).prog.Nodes AtNode := by
  unfold inFlight
  rw [Throws.prog_bind]
  refine nodes_lookUp key (fun _ => rfl) (fun v deadline hpos h => ?_) ?_
  · cases h 0 hpos
  rintro (e | none | answer)
  · trivial
  · rw [Throws.andThen_ok, Throws.prog_bind]
    refine nodes_bind (uses_command trivial) ?_
    rintro (e | startTime)
    · trivial
    rw [Throws.andThen_ok, Throws.prog_bind]
    refine nodes_bind (uses_acquireLock calm_of_plain _ _) ?_
    rintro (e | lockToken)
    · trivial
    rw [Throws.andThen_ok, Throws.prog_bind]
    refine nodes_waitForLock _ _ _ _ _ (fun _ => rfl) ?_
    rintro (e | answer | lockToken)
    · trivial
    · trivial
    · exact ((fetches_refill key options).bind fun r => uses_release key _ r).nodes
  · trivial

theorem nodes_code (call : Call) : (call.code coerced).prog.Nodes AtNode := by
  cases call with
  | fetchWithLock key options =>
    change (Throws.prog (fetchWithLock coerced key options)).Nodes AtNode
    unfold fetchWithLock
    split
    · exact (fetches_fetch.andThen fun _ => Throws.uses_pure _).nodes
    rw [Throws.prog_bind, lookUpFirst_prog]
    refine ⟨faithful_goOn (fun _ => rfl) (fun _ => rfl) fun v deadline _ h => h, fun r => ?_⟩
    refine nodes_bind ((uses_goOn options _).mono calm_of_plain) ?_
    rintro (e | none | answer)
    · trivial
    · rw [Throws.andThen_ok, Throws.prog_bind]
      refine nodes_bind (uses_command trivial) ?_
      rintro (e | none | (e | answer))
      · trivial
      · exact nodes_inFlight key options
      · trivial
      · trivial
    · trivial
  | backgroundRefresh key options =>
    change (Throws.prog (backgroundRefresh key options)).Nodes AtNode
    unfold backgroundRefresh
    rw [Throws.prog_bind]
    refine nodes_bind (uses_acquireLock calm_of_plain _ _) ?_
    rintro (e | lockToken)
    · trivial
    cases lockToken with
    | none => trivial
    | some lockToken =>
      refine Fetches.nodes (Fetches.bind (t := Throws.prog (tryCatch _ _)) ?_ fun r => uses_release key _ r)
      rw [Throws.prog_tryCatch]
      refine Fetches.bind (fetches_fetch.andThen fun freshData => ?_) ?_
      · exact Throws.Uses.bind (uses_store _ _ _ _) fun _ => Throws.uses_pure _
      · rintro (e | v) <;> trivial

/-! ## 8. What is stored -/

section Stores

variable {τ : Type} {calls : τ → Call} {i : τ} {s s' : Store τ}

/-- Until when a value is fresh that the fetcher of the call has returned at `t₀`. -/
def freshUntil (calls : τ → Call) (i : τ) (t₀ : ℕ) : ℕ := t₀ + (calls i).ttlSeconds * 1000

/-- A key has what the fetcher of the call has returned, stored in the call's way. -/
def Written (calls : τ → Call) (i : τ) (e : Entry τ) (s : Store τ) : Prop :=
  ∃ v t₀ t, s.fetched i = some (v, t₀) ∧ freshUntil calls i t₀ ≤ t ∧
    e.text = stringify (payload (calls i).wraps v t) ∧
    ∀ z, e.expiresAt = some z → freshUntil calls i t₀ ≤ z

/-- So it is for every key that a call has stored a value under. -/
def Recorded (calls : τ → Call) (s : Store τ) : Prop :=
  ∀ key e i, s.keys key = some e → e.writer = some i → Written calls i e s

/-- What a step of the `i`-th call may do. -/
structure Moves (calls : τ → Call) (i : τ) (s s' : Store τ) : Prop where
  recorded : Recorded calls s → Recorded calls s'
  fetched : ∀ j, j ≠ i → s'.fetched j = s.fetched j
  clock : s.now ≤ s'.now

/-- A step that stores no value and fetches none. -/
structure Leaves (s s' : Store τ) : Prop where
  keys : ∀ key e i, s'.keys key = some e → e.writer = some i → s.keys key = some e
  fetched : s'.fetched = s.fetched
  clock : s.now ≤ s'.now

theorem Leaves.moves (calls : τ → Call) (i : τ) (h : Leaves s s') : Moves calls i s s' where
  recorded hs key e j he hj := by
    obtain ⟨v, t₀, t, hv, hrest⟩ := hs key e j (h.keys key e j he hj) hj
    exact ⟨v, t₀, t, by rw [h.fetched, hv], hrest⟩
  fetched j _ := by rw [h.fetched]
  clock := h.clock

theorem leaves_wait (s : Store τ) (elapsed : ℕ) : Leaves s (s.wait elapsed) :=
  ⟨fun _ _ _ he _ => he, rfl, Nat.le_add_right _ _⟩

theorem Leaves.trans {s'' : Store τ} (h : Leaves s s') (h' : Leaves s' s'') : Leaves s s'' where
  keys key e i he hi := h.keys key e i (h'.keys key e i he hi) hi
  fetched := h'.fetched.trans h.fetched
  clock := h.clock.trans h'.clock

/-- What is put under a key that no call has stored. -/
theorem leaves_put {key : String} {e : Option (Entry τ)} (he : ∀ e', e = some e' → e'.writer = none) :
    Leaves s (s.put key e) where
  keys key' e' i hput hi := by
    by_cases hkey : key' = key
    · subst hkey
      have hput' : Function.update s.keys key' e key' = some e' := hput
      rw [Function.update_self] at hput'
      rw [he e' hput'] at hi
      cases hi
    · have hput' : Function.update s.keys key e key' = some e' := hput
      rwa [Function.update_of_ne hkey] at hput'
  fetched := rfl
  clock := le_rfl

/-- The contract of the `i`-th call. -/
def contract (calls : τ → Call) (i : τ) : Contract sig Env (Store τ) where
  ok _ _ _ := True
  rely s s' := ∃ j, j ≠ i ∧ Moves calls j s s'
  guar := Moves calls i

theorem compatible : Pool.Compatible (contract calls) := by
  intro i j hij s s' h
  exact ⟨i, hij.symm, h⟩

/-- The fetcher of the call has returned nothing yet. -/
structure Before (calls : τ → Call) (i : τ) (s : Store τ) : Prop where
  recorded : Recorded calls s
  fetched : s.fetched i = none

/-- It has returned `v` at `t₀`. -/
structure After (calls : τ → Call) (i : τ) (v : Json) (t₀ : ℕ) (s : Store τ) : Prop where
  recorded : Recorded calls s
  fetched : s.fetched i = some (v, t₀)
  clock : t₀ ≤ s.now

theorem stable_before (i : τ) : Stable (contract calls i).rely (Before calls i) := by
  rintro s s' h ⟨j, hj, hm⟩
  exact ⟨hm.recorded h.recorded, by rw [hm.fetched i hj.symm, h.fetched]⟩

theorem stable_after (i : τ) (v : Json) (t₀ : ℕ) :
    Stable (contract calls i).rely (After calls i v t₀) := by
  rintro s s' h ⟨j, hj, hm⟩
  exact ⟨hm.recorded h.recorded, by rw [hm.fetched i hj.symm, h.fetched], h.clock.trans hm.clock⟩

variable [DecidableEq τ]

/-- The steps that neither store nor fetch a value. -/
def Passive : sig.Op → Prop
  | Op.set .. | Op.fetch => False
  | _ => True

theorem passive_of_plain (op : sig.Op) (h : Plain op) : Passive op := by
  cases op with
  | set key text ttlSeconds => cases h
  | fetch => cases h
  | _ => trivial

theorem leaves_exec (x : Env) {op : Op} (h : Passive op) : Leaves s (s.exec i x op).2 := by
  have hrefl : Leaves s s := leaves_wait s 0
  cases op with
  | set key text ttlSeconds => cases h
  | fetch => cases h
  | setNX key token ttlMs =>
    rw [Store.exec]
    split
    · exact hrefl
    · exact leaves_put fun e' he => by cases he; rfl
  | compareAndDelete key token =>
    rw [Store.exec]
    split
    · exact leaves_put fun e' he => by cases he
    · exact hrefl
  | sleep ms => exact leaves_wait s _
  | _ => exact hrefl

theorem machine_of_fault {x : Env} {op : Op} (h : (op.isCommand && x.fault ≠ .none) = true) :
    machine.exec i op x s = (.error "command failed",
      if x.fault = .before then s.wait x.elapsed else ((s.wait x.elapsed).exec i x op).2) := if_pos h

theorem machine_of_not_fault {x : Env} {op : Op} (h : ¬ (op.isCommand && x.fault ≠ .none) = true) :
    machine.exec i op x s = (s.wait x.elapsed).exec i x op := if_neg h

theorem leaves_machine (x : Env) {op : Op} (h : Passive op) :
    Leaves s (machine.exec i op x s).2 := by
  have hwait := leaves_wait s x.elapsed
  by_cases hfault : (op.isCommand && x.fault ≠ .none) = true
  · rw [machine_of_fault hfault]
    dsimp only
    split
    · exact hwait
    · exact hwait.trans (leaves_exec x h)
  · rw [machine_of_not_fault hfault]
    exact hwait.trans (leaves_exec x h)

/-- The rule of one step that may throw. -/
theorem satE_command {op : Op} {A : Store τ → Prop} {B : op.Ret → Store τ → Prop}
    (hst : ∀ r, Stable (contract calls i).rely (B r))
    (h : ∀ x s, A s → Moves calls i s (machine.exec i op x s).2 ∧
      ∀ r, (machine.exec i op x s).1 = .ok r → B r (machine.exec i op x s).2) :
    SatE machine i (contract calls i) (command op) A B fun _ _ => True := by
  intro x s hs _
  obtain ⟨hg, hb⟩ := h x s hs
  refine ⟨hg, fun s' => ∀ r, (machine.exec i op x s).1 = .ok r → B r s', ?_, hb, ?_⟩
  · intro s₁ s₂ h₁ hr r he
    exact hst r (h₁ r he) hr
  · intro s' hs'
    cases hr : (machine.exec i op x s).1 with
    | error e => trivial
    | ok r => exact hs' r hr

/-- A piece that neither stores nor fetches a value. -/
theorem satE_before {α : Type} {t : Code α} (h : Throws.Uses Passive t) :
    SatE machine i (contract calls i) t (Before calls i) (fun _ => Before calls i) fun _ _ => True := by
  refine SatE.mono (SatE.frame (stable_before i) (fun op hop x s hs _ => ?_) h) (fun _ hs => hs)
    (fun _ _ hs => hs) fun _ _ _ => trivial
  have hleaves : Leaves s (machine.exec i op x s).2 := leaves_machine x hop
  have hmoves := hleaves.moves calls i
  exact ⟨hmoves, hmoves.recorded hs.recorded, by rw [hleaves.fetched, hs.fetched]⟩

theorem sat_release {α : Type} (key : String) (token : Option String) (r : Except Err α) :
    Sat machine i (contract calls i) ((releaseLock key token).prog.bind fun _ => .ret r)
      (fun _ => True) fun _ _ => True := by
  have huses : ((releaseLock key token).prog.bind fun _ =>
      (.ret r : Prog sig (Except Err α))).Uses Passive :=
    Prog.Uses.bind (uses_releaseLock passive_of_plain key token) fun _ => trivial
  exact Sat.frame (fun _ _ _ _ => trivial)
    (fun op hop x s _ _ => ⟨(leaves_machine x hop).moves calls i, trivial⟩) huses

theorem satE_fetch : SatE machine i (contract calls i) (command .fetch) (Before calls i)
    (fun v s => ∃ t₀, After calls i v t₀ s) fun _ _ => True := by
  refine satE_command ?_ fun x s hs => ?_
  · rintro v s s' ⟨t₀, h⟩ hr
    exact ⟨t₀, stable_after i v t₀ h hr⟩
  have hwait := (leaves_wait s x.elapsed).moves calls i
  have hsafe : ¬ (Op.fetch.isCommand && x.fault ≠ .none) = true := by simp [Op.isCommand]
  rw [machine_of_not_fault hsafe, Store.exec]
  cases hx : x.fetched with
  | error e => exact ⟨⟨hwait.recorded, hwait.fetched, hwait.clock⟩, fun r hr => by cases hr⟩
  | ok v =>
    have hrecorded : Recorded calls { s.wait x.elapsed with
        called := Function.update s.called i true
        fetched := Function.update s.fetched i (some (v, (s.wait x.elapsed).now)) } := by
      intro key e j he hj
      obtain ⟨w, t₀, t, hw, hrest⟩ := hs.recorded key e j he hj
      have hne : j ≠ i := by
        rintro rfl
        rw [hs.fetched] at hw
        cases hw
      exact ⟨w, t₀, t, (Function.update_of_ne hne ..).trans hw, hrest⟩
    refine ⟨⟨fun _ => hrecorded, fun j hj => Function.update_of_ne hj .., hwait.clock⟩, ?_⟩
    intro r hr
    cases hr
    exact ⟨_, hrecorded, Function.update_self .., le_rfl⟩

/-- A value is stored in the call's way. -/
theorem satE_set {key text : String} {ttlSeconds : Option ℕ} {v : Json} {t₀ t : ℕ}
    (ht : freshUntil calls i t₀ ≤ t) (htext : text = stringify (payload (calls i).wraps v t))
    (httl : ∀ n, ttlSeconds = some n → (calls i).ttlSeconds ≤ n) :
    SatE machine i (contract calls i) (command (.set key text ttlSeconds)) (After calls i v t₀)
      (fun _ _ => True) fun _ _ => True := by
  refine satE_command (fun _ _ _ _ _ => trivial) fun x s hs => ⟨?_, fun _ _ => trivial⟩
  have hwait := (leaves_wait s x.elapsed).moves calls i
  have hset : Moves calls i s ((s.wait x.elapsed).exec i x (.set key text ttlSeconds)).2 := by
    refine ⟨fun _ key' e j he hj => ?_, hwait.fetched, hwait.clock⟩
    by_cases hkey : key' = key
    · subst hkey
      have he' : some _ = some e := (Function.update_self (f := s.keys) ..).symm.trans he
      cases he'
      cases hj
      refine ⟨v, t₀, t, hs.fetched, ht, htext, fun z hz => ?_⟩
      obtain ⟨n, hn, rfl⟩ := Option.map_eq_some_iff.mp hz
      have hle := httl n hn
      have hclock := hs.clock
      change t₀ + (calls i).ttlSeconds * 1000 ≤ s.now + x.elapsed + n * 1000
      omega
    · have he' : s.keys key' = some e := (Function.update_of_ne hkey ..).symm.trans he
      exact hs.recorded key' e j he' hj
  by_cases hfault : ((Op.set key text ttlSeconds).isCommand && x.fault ≠ .none) = true
  · rw [machine_of_fault hfault]
    dsimp only
    split
    · exact hwait
    · exact hset
  · rw [machine_of_not_fault hfault]
    exact hset

theorem satE_now {v : Json} {t₀ : ℕ} :
    SatE machine i (contract calls i) (command .now) (After calls i v t₀)
      (fun now s => t₀ ≤ now ∧ After calls i v t₀ s) fun _ _ => True := by
  refine satE_command ?_ fun x s hs => ?_
  · rintro now s s' ⟨hle, h⟩ hr
    exact ⟨hle, stable_after i v t₀ h hr⟩
  have hsafe : ¬ (Op.now.isCommand && x.fault ≠ .none) = true := by simp [Op.isCommand]
  rw [machine_of_not_fault hsafe, Store.exec]
  have hmoves := (leaves_wait s x.elapsed).moves calls i
  refine ⟨hmoves, fun now hnow => ?_⟩
  cases hnow
  have hle := hs.clock.trans hmoves.clock
  exact ⟨hle, hmoves.recorded hs.recorded, hs.fetched, hle⟩

theorem satE_store (calls : τ → Call) (i : τ) (key : String) (v : Json) (t₀ : ℕ) :
    SatE machine i (contract calls i) (store key (calls i).wraps (calls i).ttlSeconds v)
      (After calls i v t₀) (fun _ _ => True) fun _ _ => True := by
  have httl : ∀ ttl n : ℕ, (if ttl = 0 then none else some ttl) = some n → n = ttl := by
    intro ttl n h
    split at h
    · cases h
    · exact (Option.some.inj h).symm
  unfold store
  cases hwraps : (calls i).wraps with
  | true =>
    refine SatE.bind satE_now fun now => SatE.assume fun hle => ?_
    refine satE_set (t := now + (calls i).ttlSeconds * 1000) (Nat.add_le_add_right hle _)
      (by rw [hwraps]) fun n hn => ?_
    rw [httl _ _ hn]
    omega
  | false =>
    refine satE_set (t := freshUntil calls i t₀) le_rfl (by rw [hwraps]; rfl) fun n hn => ?_
    rw [httl _ _ hn]

/-- The fetcher is called and what it returns is stored, whatever is made of it then. -/
theorem satE_fetchThen {α : Type} {f : Json → Code α}
    (hf : ∀ v t₀, SatE machine i (contract calls i) (f v) (After calls i v t₀) (fun _ _ => True)
      fun _ _ => True) :
    SatE machine i (contract calls i) (command .fetch >>= f) (Before calls i) (fun _ _ => True)
      fun _ _ => True := by
  refine SatE.bind satE_fetch fun v => SatE.fix ?_
  rintro s ⟨t₀, hs⟩
  exact (hf v t₀).mono (fun _ he => he ▸ hs) (fun _ _ h => h) fun _ _ h => h

theorem satE_refill (key : String) (options : Options) (hwraps : (calls i).wraps = options.backgroundRefresh)
    (httl : (calls i).ttlSeconds = options.ttlSeconds) :
    SatE machine i (contract calls i) (refill key options) (Before calls i) (fun _ _ => True)
      fun _ _ => True := by
  refine satE_fetchThen fun v t₀ => ?_
  have hstore := satE_store calls i key v t₀
  rw [hwraps, httl] at hstore
  refine SatE.bind (Q := fun _ _ => True) ?_ fun _ => SatE.pure fun _ _ => trivial
  exact SatE.tryCatch hstore fun _ => SatE.pure fun _ _ => trivial

theorem uses_lookUp (key : String) : Throws.Uses Passive (lookUp key) := by
  rw [Throws.Uses, lookUp_prog]
  exact ⟨trivial, fun _ => trivial⟩

theorem uses_lookUpFirst (key : String) (options : Options) :
    Throws.Uses Passive (lookUpFirst coerced key options) := by
  rw [Throws.Uses, lookUpFirst_prog]
  exact ⟨trivial, fun _ => (uses_goOn options _).mono passive_of_plain⟩

theorem uses_waitForLock (key : String) (options : Options) (startTime fuel : ℕ)
    (token : Option String) : Throws.Uses Passive (waitForLock key options startTime fuel token) := by
  induction fuel generalizing token with
  | zero => exact Throws.uses_pure _
  | succ fuel ih =>
    cases token with
    | some token => exact Throws.uses_pure _
    | none =>
      refine Throws.Uses.bind (uses_command trivial) fun now => ?_
      split
      · refine Throws.Uses.bind (uses_command trivial) fun _ => ?_
        refine Throws.Uses.bind (uses_lookUp key) fun answer => ?_
        cases answer with
        | some answer => exact Throws.uses_pure _
        | none => exact Throws.Uses.bind (uses_acquireLock passive_of_plain _ _) fun token => ih token
      · exact Throws.uses_pure _

theorem sat_andRelease {α : Type} {body : Code α} (key : String) (token : Option String)
    (h : SatE machine i (contract calls i) body (Before calls i) (fun _ _ => True) fun _ _ => True) :
    SatE machine i (contract calls i) (andRelease body key token) (Before calls i) (fun _ _ => True)
      fun _ _ => True := by
  refine Sat.bind h fun r => (sat_release key token r).mono (fun _ _ => trivial) ?_
  rintro (e | a) _ _ <;> trivial

theorem code_spec (i : τ) :
    SatE machine i (contract calls i) ((calls i).code coerced) (Before calls i) (fun _ _ => True)
      fun _ _ => True := by
  cases hi : calls i with
  | fetchWithLock key options =>
    change SatE machine i (contract calls i) (fetchWithLock coerced key options) _ _ _
    unfold fetchWithLock
    split
    · exact satE_fetchThen fun _ _ => SatE.pure fun _ _ => trivial
    refine SatE.bind (satE_before (uses_lookUpFirst key options)) fun answer => ?_
    cases answer with
    | some answer => exact SatE.pure fun _ _ => trivial
    | none =>
      refine SatE.bind (satE_before (uses_command trivial)) ?_
      rintro (none | (e | answer))
      · refine SatE.bind (satE_before (uses_lookUp key)) fun answer => ?_
        cases answer with
        | some answer => exact SatE.pure fun _ _ => trivial
        | none =>
          refine SatE.bind (satE_before (uses_command trivial)) fun startTime => ?_
          refine SatE.bind (satE_before (uses_acquireLock passive_of_plain _ _)) fun lockToken => ?_
          refine SatE.bind (satE_before (uses_waitForLock _ _ _ _ _)) ?_
          rintro (answer | lockToken)
          · exact SatE.pure fun _ _ => trivial
          · exact sat_andRelease key lockToken
              (satE_refill key options (by rw [hi, Call.wraps]) (by rw [hi, Call.ttlSeconds]))
      · exact SatE.throw fun _ _ => trivial
      · exact SatE.pure fun _ _ => trivial
  | backgroundRefresh key options =>
    change SatE machine i (contract calls i) (backgroundRefresh key options) _ _ _
    refine SatE.bind (satE_before (uses_acquireLock passive_of_plain _ _)) fun lockToken => ?_
    cases lockToken with
    | none => exact SatE.pure fun _ _ => trivial
    | some lockToken =>
      refine sat_andRelease key (some lockToken) ?_
      refine SatE.tryCatch (E := fun _ _ => True) ?_ fun _ => SatE.pure fun _ _ => trivial
      refine satE_fetchThen fun v t₀ => ?_
      have hstore := satE_store calls i key v t₀
      rw [show (calls i).wraps = true by rw [hi, Call.wraps],
        show (calls i).ttlSeconds = options.ttlSeconds by rw [hi, Call.ttlSeconds]] at hstore
      exact SatE.bind hstore fun _ => SatE.pure fun _ _ => trivial

end Stores

/-! ## 9. Every run -/

section Runs

variable {τ : Type} [DecidableEq τ] {calls : τ → Call} {ls : List (τ × Env)} {i j : τ} {x : Env}

theorem recorded_run (coerced : ℕ → Option Json → Bool) (calls : τ → Call) (ls : List (τ × Env)) :
    Recorded calls (run (Pool.step machine) (begin coerced calls) ls).store := by
  have hinit : Recorded calls (Store.init : Store τ) := fun key e i he _ => by cases he
  have hsafe : (begin coerced calls).Safe machine (contract calls) fun _ _ _ => True := by
    intro i
    refine ⟨Before calls i, stable_before i, ⟨hinit, rfl⟩, ?_⟩
    refine Sat.mono (code_spec i) (fun _ h => h) fun _ _ _ => trivial
  have hkeep : ∀ i, Stable (contract calls i).guar (Recorded calls) :=
    fun i s s' hs hm => Moves.recorded hm hs
  refine hsafe.run_stable hkeep compatible hinit ?_
  exact Along.of_forall (fun c l => by unfold Pool.Issues; split <;> trivial) _ _

/-- A call is as `AtNode` says, and it looks nothing up once it has called its fetcher. -/
def Ordered (c : System τ) : Prop :=
  ∀ j, (c.prog j).Nodes AtNode ∧ (c.store.called j = false ∨ (c.prog j).Uses Calm)

/-- Only a call of its fetcher is recorded for a call. -/
theorem called_machine (x : Env) {s : Store τ} {op : sig.Op} (h : j ≠ i ∨ op ≠ Op.fetch) :
    (machine.exec i op x s).2.called j = s.called j := by
  have hexec : ((s.wait x.elapsed).exec i x op).2.called j = s.called j := by
    cases op with
    | setNX key token ttlMs =>
      rw [Store.exec]
      split <;> rfl
    | compareAndDelete key token =>
      rw [Store.exec]
      split <;> rfl
    | fetch =>
      have hne : j ≠ i := h.resolve_right fun hne => hne rfl
      rw [Store.exec]
      cases x.fetched <;> exact Function.update_of_ne hne ..
    | _ => rfl
  by_cases hfault : (Op.isCommand op && x.fault ≠ .none) = true
  · rw [machine_of_fault hfault]
    dsimp only
    split
    · rfl
    · exact hexec
  · rw [machine_of_not_fault hfault]
    exact hexec

theorem ordered_step (c : System τ) (l : τ × Env) (h : Ordered c) :
    Ordered (Pool.step machine c l) := by
  obtain ⟨i, x⟩ := l
  intro j
  obtain ⟨hnodes, hcalled⟩ := h j
  cases hp : c.prog i with
  | ret r =>
    rw [Pool.step_of_ret hp]
    exact ⟨hnodes, hcalled⟩
  | cmd op k =>
    have hstore : (Pool.step machine c (i, x)).store = (machine.exec i op x c.store).2 := by
      simp [Pool.step, hp, Prog.act]
    rw [hstore]
    by_cases hj : j = i
    · subst hj
      have hprog : (Pool.step machine c (j, x)).prog j = k (machine.exec j op x c.store).1 := by
        simp [Pool.step, hp, Prog.act]
      rw [hp] at hnodes hcalled
      rw [hprog]
      refine ⟨hnodes.2 _, ?_⟩
      by_cases hop : op = Op.fetch
      · subst hop
        exact .inr (hnodes.1 _)
      · rw [called_machine x (.inr hop)]
        exact hcalled.imp id fun huses => huses.2 _
    · rw [Pool.step_prog_of_ne hj, called_machine x (.inl hj)]
      exact ⟨hnodes, hcalled⟩

theorem ordered_run (coerced : ℕ → Option Json → Bool) (calls : τ → Call) (ls : List (τ × Env)) :
    Ordered (run (Pool.step machine) (begin coerced calls) ls) :=
  run_inv_of_step ordered_step fun j => ⟨nodes_code (calls j), .inl rfl⟩

/-- A call that `Answers` returns the value with its next step, if it has not returned it already. -/
theorem returns_of_answers {c : System τ} {v : Json} {deadline : ℕ}
    (h : Answers v deadline (c.prog j)) (hx : c.store.now + x.elapsed < deadline) :
    (Pool.step machine c (j, x)).prog j = .ret (.ok (some v)) ∧
      (Pool.step machine c (j, x)).store.called j = c.store.called j := by
  cases hp : c.prog j with
  | ret r =>
    rw [Pool.step_of_ret hp, hp]
    rw [hp] at h
    exact ⟨congrArg _ h, rfl⟩
  | cmd op k =>
    rw [hp] at h
    cases op with
    | now =>
      have hstep : (Pool.step machine c (j, x)).prog j = k (.ok (c.store.now + x.elapsed)) := by
        simp only [Pool.step, hp, Prog.act, Function.update_self]
        rfl
      refine ⟨hstep.trans (h _ hx), ?_⟩
      simp only [Pool.step, hp, Prog.act]
      exact called_machine x (.inr fun he => by cases he)
    | _ => cases h

/-- **What a lookup reads.**  In every run, a call that looks up a key while the value is fresh that
another call's fetcher has returned, and that was stored there last, has not called its own fetcher, and
it returns the value next if and only if the value is transparent. -/
theorem answers_iff (coerced : ℕ → Option Json → Bool) (calls : τ → Call) (ls : List (τ × Env))
    {key : String} {k : Except Err (Option String) → Prog sig (Except Err (Option Json))} {e : Entry τ}
    {v : Json} {t₀ : ℕ}
    (hget : (run (Pool.step machine) (begin coerced calls) ls).prog j = .cmd (Op.get key) k)
    (hfault : x.fault = .none)
    (hkey : (run (Pool.step machine) (begin coerced calls) ls).store.keys key = some e)
    (hwriter : e.writer = some i)
    (hfetched : (run (Pool.step machine) (begin coerced calls) ls).store.fetched i = some (v, t₀))
    (hv : v ≠ .null)
    (hfresh : (run (Pool.step machine) (begin coerced calls) ls).store.now + x.elapsed <
      freshUntil calls i t₀) :
    (run (Pool.step machine) (begin coerced calls) ls).store.called j = false ∧
      (Answers v (freshUntil calls i t₀)
        ((run (Pool.step machine) (begin coerced calls) (ls ++ [(j, x)])).prog j) ↔
        Transparent (calls i).wraps v) := by
  rw [run_append]
  have hrecorded := recorded_run coerced calls ls
  have hordered := ordered_run coerced calls ls j
  generalize run (Pool.step machine) (begin coerced calls) ls = c at *
  obtain ⟨w, t₁, t, hw, ht, htext, hexpires⟩ := hrecorded key e i hkey hwriter
  rw [hfetched] at hw
  cases hw
  obtain ⟨⟨hfaithful, -⟩, hcalled⟩ := hget ▸ hordered
  refine ⟨hcalled.resolve_right fun huses => huses.1, ?_⟩
  have hlive : (c.store.wait x.elapsed).live key = some e.text := by
    have hkey' : (c.store.wait x.elapsed).keys key = some e := hkey
    rw [Store.live, hkey']
    dsimp only
    cases hz : e.expiresAt with
    | none => rfl
    | some z => exact if_pos (hfresh.trans_le (hexpires z hz))
  have hexec : machine.exec j (Op.get key) x c.store =
      (.ok (some (stringify (payload (calls i).wraps v t))), c.store.wait x.elapsed) := by
    rw [machine_of_not_fault (by simp [hfault]), Store.exec, hlive, htext]
    rfl
  have hprog : (Pool.step machine c (j, x)).prog j =
      k (.ok (some (stringify (payload (calls i).wraps v t)))) := by
    simp only [Pool.step, hget, Prog.act, Function.update_self, hexec]
  change Answers v _ ((Pool.step machine c (j, x)).prog j) ↔ _
  rw [hprog]
  exact hfaithful _ _ _ _ hv (Nat.zero_lt_of_lt hfresh) ht

end Runs

/-- Calls for one key. -/
def sampleCalls : ℕ → Call := fun _ => .fetchWithLock "k" {}

/-- The `i`-th call takes so many steps, and its fetcher returns `v`. -/
def steps (i n : ℕ) (v : Json) : List (ℕ × Env) := List.replicate n (i, { fetched := .ok v })

/-- A value that is no string is stored by one call and read by another. -/
theorem answers_iff_sample :
    (run (Pool.step machine) (begin (fun _ _ => false) sampleCalls)
        (steps 0 9 (.bool true))).store.called 1 = false ∧
      (Answers (.bool true) (freshUntil sampleCalls 0 0)
        ((run (Pool.step machine) (begin (fun _ _ => false) sampleCalls)
          (steps 0 9 (.bool true) ++ [(1, ({} : Env))])).prog 1) ↔
        Transparent (sampleCalls 0).wraps (.bool true)) := by
  have hkey : (run (Pool.step machine) (begin (fun _ _ => false) sampleCalls)
      (steps 0 9 (.bool true))).store.keys "k" = some ⟨"true", some 60000, some 0⟩ := by decide +kernel
  have hprog : (run (Pool.step machine) (begin (fun _ _ => false) sampleCalls)
      (steps 0 9 (.bool true))).prog 1 = (begin (fun _ _ => false) sampleCalls).prog 1 :=
    Pool.run_prog_of_not_mem fun l hl => by simp [List.eq_of_mem_replicate hl]
  obtain ⟨k, hk⟩ : ∃ k, (begin (fun _ _ => false) sampleCalls).prog 1 = .cmd (Op.get "k") k :=
    ⟨_, rfl⟩
  have hfetched : (run (Pool.step machine) (begin (fun _ _ => false) sampleCalls)
      (steps 0 9 (.bool true))).store.fetched 0 = some (.bool true, 0) := by decide +kernel
  exact answers_iff (fun _ _ => false) sampleCalls (steps 0 9 (.bool true)) (hprog.trans hk) rfl hkey
    rfl hfetched (by decide) (by decide +kernel)

/-- A string that is no JSON text is stored, and within its time to live the next call for the key calls
its fetcher. -/
theorem string_refetched :
    let c := run (Pool.step machine) (begin (fun _ _ => false) sampleCalls)
      (steps 0 9 (.str "hello") ++ steps 1 7 (.str "hello"))
    c.store.fetched 0 = some (.str "hello", 0) ∧ c.store.now < freshUntil sampleCalls 0 0 ∧
      c.store.called 1 = true := by
  decide +kernel

end SmartDrop.Cache.Stampede
