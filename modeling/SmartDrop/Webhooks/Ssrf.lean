/-
# The guard against private targets

`services/ssrfGuard.js`.  At delivery time the host of a webhook's URL is resolved, every
address is tested, and a target pinned to the first one is returned.  The answer of the lookup
is an argument here; which address an HTTP client connects to when it is given a URL is
`connectAddress`: the literal in it, or what a lookup of its own finds.
-/
import SmartDrop.Webhooks.Crypto

namespace SmartDrop.Webhooks

open JsNumber JsText

/-- An error as it is thrown: its code and status if it has them, and its message. -/
structure Thrown where
  code : Option String := none
  message : String
  status : Option ℕ := none
deriving DecidableEq

/-! ## 1. Private addresses -/

/-- `isPrivateIpv4`. -/
def isPrivateIpv4 (ip : String) : Bool :=
  let parts := split ['.'] ip.toList
  if parts.length ≠ 4 then true
  else match parts.map read with
    | [.finite a, .finite b, .finite c, .finite d] =>
      if [a, b, c, d].any fun n => n < 0 || 255 < n then true
      else a = 10 || (a = 172 && 16 ≤ b && b ≤ 31) || (a = 192 && b = 168) || a = 127 ||
        (a = 169 && b = 254) || a = 0 || (a = 100 && 64 ≤ b && b ≤ 127) || 224 ≤ a
    | _ => true

/-- `isPrivateIpv6`. -/
def isPrivateIpv6 (ip : String) : Bool :=
  let lower := ip.toList.map Char.toLower
  lower = "::1".toList || lower = "::".toList || "fe80".toList.isPrefixOf lower ||
    "fc".toList.isPrefixOf lower || "fd".toList.isPrefixOf lower || "ff".toList.isPrefixOf lower

variable (P : Platform)

/-- `isPrivateIp`. -/
def isPrivateIp (ip : String) : Bool :=
  let addr := trim ip
  let mapped := String.ofList (addr.toList.drop 7)
  if "::ffff:".toList.isPrefixOf addr.toList && P.isIPv4 mapped then isPrivateIpv4 mapped
  else if P.isIPv4 addr then isPrivateIpv4 addr
  else if P.isIPv6 addr then isPrivateIpv6 addr
  else true

/-- `net.isIP(text) !== 0`. -/
def isIP (text : String) : Bool := P.isIPv4 text || P.isIPv6 text

/-! ## 2. Targets -/

/-- `normalizeHostname`: without the brackets of an IPv6 literal. -/
def normalizeHostname (hostname : String) : String :=
  let cs := hostname.toList
  let cs := if cs.head? = some '[' then cs.tail else cs
  String.ofList (if cs.getLast? = some ']' then cs.dropLast else cs)

/-- `resolveAddresses`, `lookup` being what `dns.lookup` answers. -/
def resolveAddresses (hostname : String) (lookup : Except Thrown (List String)) :
    Except Thrown (List String) :=
  if isIP P (normalizeHostname hostname) then .ok [normalizeHostname hostname] else lookup

/-- `assertProtocol`. -/
def assertProtocol (url : String) : Except Thrown URL :=
  match P.parseURL url with
  | none => .error ⟨some "INVALID_URL", "Webhook URL is not a valid URL", some 400⟩
  | some parsed =>
    if parsed.protocol ≠ "http:" ∧ parsed.protocol ≠ "https:" then
      .error ⟨some "INVALID_URL", "Webhook URL must use http or https", some 400⟩
    else .ok parsed

/-- What the guard returns: the URL with the address in place of the host, and the host header. -/
structure Target where
  targetUrl : URL
  host : Option String
deriving DecidableEq

/-- The checks of `assertPublicTarget` on what has been resolved. -/
def pinTarget (parsed : URL) (addresses : List String) : Except Thrown Target :=
  match addresses with
  | [] => .error ⟨some "WEBHOOK_TARGET_BLOCKED",
      "Webhook target could not be resolved to a public address", some 422⟩
  | chosen :: _ =>
    if addresses.any (isPrivateIp P) then
      .error ⟨some "WEBHOOK_TARGET_BLOCKED",
        "Webhook target must not point to a private or internal network address", some 422⟩
    else .ok {
      targetUrl := { parsed with hostname := if P.isIPv6 chosen then "[" ++ chosen ++ "]" else chosen }
      host := if isIP P (normalizeHostname parsed.hostname) then none else some parsed.hostname }

/-- `assertPublicTarget`: the target, with the addresses it was chosen from. -/
def assertPublicTarget (url : String) (lookup : Except Thrown (List String)) :
    Except Thrown (Target × List String) := do
  let parsed ← assertProtocol P url
  let addresses ← resolveAddresses P parsed.hostname lookup
  let target ← pinTarget P parsed addresses
  return (target, addresses)

/-- The host of a URL is an address itself. -/
def hostIsLiteral (url : String) : Bool :=
  (P.parseURL url).any fun parsed => isIP P (normalizeHostname parsed.hostname)

/-- The address an HTTP client connects to when it is given `url`: the literal in it, or what
its own `lookup` finds. -/
def connectAddress (url : String) (lookup : Except Thrown String) : Except Thrown String :=
  match P.parseURL url with
  | none => .error ⟨some "ERR_INVALID_URL", "Invalid URL", none⟩
  | some parsed =>
    if isIP P (normalizeHostname parsed.hostname) then .ok (normalizeHostname parsed.hostname)
    else lookup

/-! ## 3. The check at registration -/

/-- `1[6-9]|2\d|3[01]` and a dot. -/
def privateSecondOctet : List Char → Bool
  | a :: b :: '.' :: _ => (a = '1' && '6' ≤ b && b ≤ '9') || (a = '2' && JsText.isDigit b) ||
      (a = '3' && (b = '0' || b = '1'))
  | _ => false

/-- `[0-9a-f]`. -/
def isLowerHex (c : Char) : Bool := JsText.isDigit c || ('a' ≤ c && c ≤ 'f')

/-- What follows `f` in a private IPv6 address: `c`, `d` or a link-local `e`. -/
def privateIpv6Block : List Char → Bool
  | 'c' :: a :: b :: ':' :: _ => isLowerHex a && isLowerHex b
  | 'd' :: a :: b :: ':' :: _ => isLowerHex a && isLowerHex b
  | 'e' :: a :: b :: ':' :: _ => ['8', '9', 'a', 'b'].contains a && isLowerHex b
  | _ => false

/-- `PRIVATE_IP_RE`. -/
def matchesPrivateIp (host : List Char) : Bool :=
  (["127.", "10.", "192.168.", "169.254.", "0.0.0.0", "::1", "::ffff:0:", "::ffff:127.",
      "::ffff:10.", "::ffff:192.168.", "::ffff:169.254.", "0:0:0:0:0:ffff:",
      "0:0:0:0:0:0:0:0"].any fun start => start.toList.isPrefixOf host) ||
    ("172.".toList.isPrefixOf host && privateSecondOctet (host.drop 4)) ||
    ("::ffff:172.".toList.isPrefixOf host && privateSecondOctet (host.drop 11)) ||
    (host.head? = some 'f' && privateIpv6Block host.tail)

/-- `localhost` or a name that ends in `.local`. -/
def isLocalName (host : List Char) : Bool :=
  host = "localhost".toList || ".local".toList.isSuffixOf host

/-- The host without a port at its end. -/
def dropPort (host : List Char) : List Char :=
  let digits := host.reverse.takeWhile JsText.isDigit
  match host.reverse.dropWhile JsText.isDigit with
  | ':' :: rest => if digits.isEmpty then host else rest.reverse
  | _ => host

/-- `isPrivateTarget` of `validation/schemas.js`. -/
def isPrivateTarget (hostname : String) : Bool :=
  let lower := hostname.toList.map Char.toLower
  isLocalName lower || isLocalName (dropPort lower) || matchesPrivateIp hostname.toList

/-! ## 4. What the guard promises -/

section

variable {P}

/-- What a passing guard has done. -/
theorem assertPublicTarget_ok {url : String} {lookup : Except Thrown (List String)}
    {target : Target} {addresses : List String}
    (h : assertPublicTarget P url lookup = .ok (target, addresses)) :
    ∃ parsed, P.parseURL url = some parsed ∧ resolveAddresses P parsed.hostname lookup = .ok addresses ∧
      pinTarget P parsed addresses = .ok target := by
  rw [assertPublicTarget] at h
  cases hp : assertProtocol P url with
  | error e => simp [hp, bind, Except.bind] at h
  | ok parsed =>
    have hurl : P.parseURL url = some parsed := by
      rw [assertProtocol] at hp
      split at hp
      · cases hp
      · split at hp <;> simp_all
    refine ⟨parsed, hurl, ?_⟩
    cases hr : resolveAddresses P parsed.hostname lookup with
    | error e => simp [hp, hr, bind, Except.bind] at h
    | ok found =>
      cases ht : pinTarget P parsed found with
      | error e => simp [hp, hr, ht, bind, Except.bind] at h
      | ok pinned =>
        simp only [hp, hr, ht, bind, Except.bind, pure, Except.pure, Except.ok.injEq,
          Prod.mk.injEq] at h
        obtain ⟨rfl, rfl⟩ := h
        exact ⟨rfl, ht⟩

/-- **What the guard lets pass is not private.** -/
theorem addresses_public {url : String} {lookup : Except Thrown (List String)} {target : Target}
    {addresses : List String} (h : assertPublicTarget P url lookup = .ok (target, addresses)) :
    ∀ a ∈ addresses, isPrivateIp P a = false := by
  obtain ⟨parsed, -, -, hpin⟩ := assertPublicTarget_ok h
  cases addresses with
  | nil => simp
  | cons chosen rest =>
    rw [pinTarget] at hpin
    split at hpin
    · cases hpin
    · rename_i hany
      intro a ha
      by_contra hprivate
      exact hany (List.any_eq_true.mpr ⟨a, ha, by simpa using hprivate⟩)

/-- A literal host is what the guard has tested and what a client connects to. -/
theorem connectAddress_mem {url : String} {lookup : Except Thrown (List String)} {target : Target}
    {addresses : List String} (h : assertPublicTarget P url lookup = .ok (target, addresses))
    (hlit : hostIsLiteral P url) {found : Except Thrown String} {address : String}
    (hc : connectAddress P url found = .ok address) : address ∈ addresses := by
  obtain ⟨parsed, hurl, hresolve, -⟩ := assertPublicTarget_ok h
  have hip : isIP P (normalizeHostname parsed.hostname) := by
    simpa [hostIsLiteral, hurl] using hlit
  rw [resolveAddresses, if_pos hip, Except.ok.injEq] at hresolve
  simp only [connectAddress, hurl, hip, if_true, Except.ok.injEq] at hc
  rw [← hresolve, ← hc]
  exact List.mem_singleton_self _

end

end SmartDrop.Webhooks
