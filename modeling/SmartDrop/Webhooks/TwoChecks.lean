/-
# The check at registration and the guard

`isPrivateTarget` tests the hostname of a URL as the parser serialises it, and the guard tests
the address in it.  A literal of version 6 stands in brackets there, so no pattern of
`PRIVATE_IP_RE` ever matches it; for version 4 some blocks are missing from the pattern.
`checks_agree_iff` says on which addresses the two agree.
-/
import SmartDrop.Webhooks.PrivateAddresses

namespace SmartDrop.Webhooks

open IpAddress JsNumber JsText

/-- The hostname of a URL with this address in it. -/
def hostText : Address → String
  | .v4 ip => String.ofList ip.text
  | .v6 ip => String.ofList ('[' :: (ip.text ++ [']']))

/-- The addresses on which the two checks agree: no block that the pattern lacks, and no address of
version 6 that the guard rejects. -/
def Address.Alike : Address → Prop
  | .v4 ip => (ip.a.val = 0 → ip = ⟨0, 0, 0, 0⟩) ∧ ¬ (ip.a.val = 100 ∧ 64 ≤ ip.b.val ∧ ip.b.val ≤ 127) ∧
      ip.a.val < 224
  | .v6 ip => 1 < ip.value ∧ ip.first ≠ 0xfe80 ∧
      ∀ start ∈ [0xfc, 0xfd, 0xff], ip.first ≠ start ∧ ip.first / 16 ≠ start ∧ ip.first / 256 ≠ start

/-! ## 1. The pattern on a dotted quad -/

theorem toDigits_inj {m n : ℕ} (h : Nat.toDigits 10 m = Nat.toDigits 10 n) : m = n :=
  Option.some.inj ((readBase_toDigits m).symm.trans (h ▸ readBase_toDigits n))

/-- A text up to its first dot. -/
theorem prefix_dot {w part rest more : List Char} (hw : '.' ∉ w) (hpart : '.' ∉ part) :
    (w ++ '.' :: more) <+: (part ++ '.' :: rest) ↔ w = part ∧ more <+: rest := by
  constructor
  · rintro ⟨tail, h⟩
    rw [List.append_assoc, List.cons_append] at h
    rcases List.append_eq_append_iff.mp h with ⟨ms, rfl, hms⟩ | ⟨ms, rfl, hms⟩
    · cases ms with
      | nil => exact ⟨(List.append_nil w).symm, tail, (List.cons.inj hms).2⟩
      | cons m ms =>
        obtain ⟨rfl, -⟩ := List.cons.inj hms
        simp at hpart
    · cases ms with
      | nil => exact ⟨List.append_nil part, tail, (List.cons.inj hms).2.symm⟩
      | cons m ms =>
        obtain ⟨rfl, -⟩ := List.cons.inj hms
        simp at hw
  · rintro ⟨rfl, tail, rfl⟩
    exact ⟨tail, by simp⟩

/-- The pattern's octet, and ours. -/
theorem prefix_octet {k n : ℕ} {more rest : List Char} :
    (Nat.toDigits 10 k ++ '.' :: more) <+: (Nat.toDigits 10 n ++ '.' :: rest) ↔
      n = k ∧ more <+: rest := by
  have hdot : ∀ n, '.' ∉ Nat.toDigits 10 n := not_mem_octet (by decide)
  rw [prefix_dot (hdot k) (hdot n)]
  constructor
  · rintro ⟨h, hmore⟩
    exact ⟨(toDigits_inj h).symm, hmore⟩
  · rintro ⟨rfl, hmore⟩
    exact ⟨rfl, hmore⟩

theorem privateSecondOctet_append {ds : List Char} (h : '.' ∉ ds) (rest : List Char) :
    privateSecondOctet (ds ++ '.' :: rest) = privateSecondOctet (ds ++ ['.']) := by
  rcases ds with _ | ⟨x, _ | ⟨y, _ | ⟨z, ds⟩⟩⟩
  · rcases rest with _ | ⟨r, _ | ⟨r', rest⟩⟩
    · rfl
    · rfl
    · by_cases hr : r' = '.'
      · simp [privateSecondOctet, hr]
      · simp [privateSecondOctet, hr]
  · rcases rest with _ | ⟨r, rest⟩
    · rfl
    · by_cases hr : r = '.'
      · simp [privateSecondOctet, hr, JsText.isDigit]
      · simp [privateSecondOctet, hr]
  · rfl
  · have hz : z ≠ '.' := by
      rintro rfl
      simp at h
    simp [privateSecondOctet, hz]

/-- The second octet of 172.16/12. -/
theorem privateSecondOctet_iff (b : Fin 256) (rest : List Char) :
    privateSecondOctet (Nat.toDigits 10 b ++ '.' :: rest) = true ↔ 16 ≤ b.val ∧ b.val ≤ 31 := by
  have hall : ∀ b : Fin 256, privateSecondOctet (Nat.toDigits 10 b ++ ['.']) = true ↔
      16 ≤ b.val ∧ b.val ≤ 31 := by decide +kernel
  rw [privateSecondOctet_append (not_mem_octet (by decide) _), hall]

theorem matchesPrivateIp_text (ip : IPv4) : matchesPrivateIp ip.text = true ↔
    ip.a.val = 127 ∨ ip.a.val = 10 ∨ (ip.a.val = 192 ∧ ip.b.val = 168) ∨
      (ip.a.val = 169 ∧ ip.b.val = 254) ∨ ip = ⟨0, 0, 0, 0⟩ ∨
      (ip.a.val = 172 ∧ 16 ≤ ip.b.val ∧ ip.b.val ≤ 31) := by
  have hcolon : ∀ start : List Char, ':' ∈ start → ¬ start <+: ip.text :=
    fun start hs hp => colon_not_mem_quad ip (hp.subset hs)
  have h127 : "127.".toList <+: ip.text ↔ ip.a.val = 127 := by
    rw [show "127.".toList = Nat.toDigits 10 127 ++ '.' :: [] from rfl, IPv4.text, prefix_octet]
    simp
  have h10 : "10.".toList <+: ip.text ↔ ip.a.val = 10 := by
    rw [show "10.".toList = Nat.toDigits 10 10 ++ '.' :: [] from rfl, IPv4.text, prefix_octet]
    simp
  have h172 : "172.".toList <+: ip.text ↔ ip.a.val = 172 := by
    rw [show "172.".toList = Nat.toDigits 10 172 ++ '.' :: [] from rfl, IPv4.text, prefix_octet]
    simp
  have h192 : "192.168.".toList <+: ip.text ↔ ip.a.val = 192 ∧ ip.b.val = 168 := by
    rw [show "192.168.".toList = Nat.toDigits 10 192 ++ '.' :: (Nat.toDigits 10 168 ++ '.' :: [])
      from rfl, IPv4.text, prefix_octet, prefix_octet]
    simp
  have h169 : "169.254.".toList <+: ip.text ↔ ip.a.val = 169 ∧ ip.b.val = 254 := by
    rw [show "169.254.".toList = Nat.toDigits 10 169 ++ '.' :: (Nat.toDigits 10 254 ++ '.' :: [])
      from rfl, IPv4.text, prefix_octet, prefix_octet]
    simp
  have h0 : "0.0.0.0".toList <+: ip.text ↔ ip = ⟨0, 0, 0, 0⟩ := by
    have hlast : ∀ d : Fin 256, Nat.toDigits 10 0 <+: Nat.toDigits 10 d ↔ d.val = 0 := by
      decide +kernel
    rw [show "0.0.0.0".toList = Nat.toDigits 10 0 ++ '.' :: (Nat.toDigits 10 0 ++ '.' ::
      (Nat.toDigits 10 0 ++ '.' :: Nat.toDigits 10 0)) from rfl, IPv4.text, prefix_octet,
      prefix_octet, prefix_octet, hlast]
    obtain ⟨a, b, c, d⟩ := ip
    rw [IPv4.mk.injEq, Fin.ext_iff, Fin.ext_iff, Fin.ext_iff, Fin.ext_iff]
    exact Iff.rfl
  have hsecond : ip.a.val = 172 → (privateSecondOctet (ip.text.drop 4) = true ↔
      16 ≤ ip.b.val ∧ ip.b.val ≤ 31) := by
    intro ha
    have hdrop : ip.text.drop 4 = Nat.toDigits 10 ip.b ++ '.' ::
        (Nat.toDigits 10 ip.c ++ '.' :: Nat.toDigits 10 ip.d) := by
      rw [IPv4.text, ha]
      rfl
    rw [hdrop, privateSecondOctet_iff]
  have hhead : ip.text.head? ≠ some 'f' := by
    intro h
    have hf : 'f' ∈ ip.text := List.mem_of_mem_head? h
    rcases mem_quad hf with hd | hd
    · cases hd
    · cases hd
  simp only [matchesPrivateIp, Bool.or_eq_true, Bool.and_eq_true, List.any_eq_true,
    List.isPrefixOf_iff_prefix, List.mem_cons, List.not_mem_nil, or_false, exists_eq_or_imp,
    exists_eq_left, h127, h10, h192, h169, h0, h172, decide_eq_true_eq]
  rw [eq_false (hcolon "::1".toList (by decide)), eq_false (hcolon "::ffff:0:".toList (by decide)),
    eq_false (hcolon "::ffff:127.".toList (by decide)),
    eq_false (hcolon "::ffff:10.".toList (by decide)),
    eq_false (hcolon "::ffff:192.168.".toList (by decide)),
    eq_false (hcolon "::ffff:169.254.".toList (by decide)),
    eq_false (hcolon "0:0:0:0:0:ffff:".toList (by decide)),
    eq_false (hcolon "0:0:0:0:0:0:0:0".toList (by decide)),
    eq_false (hcolon "::ffff:172.".toList (by decide))]
  rw [and_congr_right hsecond]
  simp only [or_false, false_and, hhead, or_assoc]

/-! ## 2. The check at registration -/

/-- A name with an `l` in it is wanted. -/
theorem isLocalName_false {host : List Char} (h : 'l' ∉ host) : isLocalName host = false := by
  rw [isLocalName, Bool.or_eq_false_iff]
  constructor
  · refine decide_eq_false ?_
    rintro rfl
    exact h (by decide)
  · rw [Bool.eq_false_iff]
    intro hs
    rw [List.isSuffixOf_iff_suffix] at hs
    exact h (hs.subset (by decide))

theorem dropPort_subset (host : List Char) : dropPort host ⊆ host := by
  intro c hc
  simp only [dropPort] at hc
  split at hc
  · rename_i rest hrest
    split at hc
    · exact hc
    · have hmem : c ∈ host.reverse.dropWhile JsText.isDigit := by
        rw [hrest]
        exact List.mem_cons_of_mem _ (List.mem_reverse.mp hc)
      exact List.mem_reverse.mp ((List.dropWhile_sublist _).subset hmem)
  · exact hc

theorem isPrivateTarget_v4 (ip : IPv4) :
    isPrivateTarget (hostText (.v4 ip)) = true ↔ matchesPrivateIp ip.text = true := by
  have hl : 'l' ∉ ip.text.map Char.toLower := by
    intro h
    obtain ⟨c, hc, hlower⟩ := List.mem_map.mp h
    have hkeep : c.toLower = c := by
      rcases mem_quad hc with hd | rfl
      · simp only [JsText.isDigit, Bool.and_eq_true, decide_eq_true_eq] at hd
        have : c.toNat ≤ 57 := hd.2
        exact (toLower_eq_iff (by omega)).mpr rfl
      · rfl
    rw [hkeep] at hlower
    rcases mem_quad hc with hd | rfl
    · rw [hlower] at hd
      cases hd
    · cases hlower
  have hport : 'l' ∉ dropPort (ip.text.map Char.toLower) := fun h => hl (dropPort_subset _ h)
  simp only [isPrivateTarget, hostText, String.toList_ofList, isLocalName_false hl,
    isLocalName_false hport, Bool.false_or]

/-- **A bracket comes before every pattern.** -/
theorem isPrivateTarget_v6 (ip : IPv6) : isPrivateTarget (hostText (.v6 ip)) = false := by
  have hlower : ('[' :: (ip.text ++ [']'])).map Char.toLower =
      '[' :: (ip.text.map Char.toLower ++ [']']) := by simp
  have hname : ∀ cs : List Char, isLocalName ('[' :: (cs ++ [']'])) = false := by
    intro cs
    rw [isLocalName, Bool.or_eq_false_iff]
    constructor
    · exact decide_eq_false (by simp)
    · rw [Bool.eq_false_iff]
      intro hs
      obtain ⟨front, hfront⟩ := List.isSuffixOf_iff_suffix.mp hs
      have hlast := congrArg List.getLast? hfront
      rw [← List.cons_append, List.getLast?_concat, List.getLast?_append] at hlast
      cases hlast
  have hport : dropPort ('[' :: (ip.text.map Char.toLower ++ [']'])) =
      '[' :: (ip.text.map Char.toLower ++ [']']) := by
    simp [dropPort, JsText.isDigit]
  have hmatch : matchesPrivateIp ('[' :: (ip.text ++ [']'])) = false := by
    rfl
  simp only [isPrivateTarget, hostText, String.toList_ofList, hlower, hport, hname, hmatch,
    Bool.or_self]

/-! ## 3. The guard -/

section

variable {P : Platform}

/-- What the guard does with a literal. -/
theorem guard_literal {url : String} {parsed : URL} {lookup : Except Thrown (List String)}
    (hurl : P.parseURL url = some parsed)
    (hprotocol : parsed.protocol = "http:" ∨ parsed.protocol = "https:")
    (hip : isIP P (normalizeHostname parsed.hostname) = true) :
    (∃ e, assertPublicTarget P url lookup = .error e) ↔
      isPrivateIp P (normalizeHostname parsed.hostname) = true := by
  have hok : assertProtocol P url = .ok parsed := by
    rw [assertProtocol, hurl]
    refine if_neg ?_
    rintro ⟨hhttp, hhttps⟩
    rcases hprotocol with h | h
    · exact hhttp h
    · exact hhttps h
  have hresolve : resolveAddresses P parsed.hostname lookup =
      .ok [normalizeHostname parsed.hostname] := if_pos hip
  simp only [assertPublicTarget, hok, hresolve, bind, Except.bind, pinTarget, List.any_cons,
    List.any_nil, Bool.or_false]
  cases isPrivateIp P (normalizeHostname parsed.hostname) with
  | true => simp
  | false => simp [pure, Except.pure]

theorem normalizeHostname_v4 (ip : IPv4) :
    normalizeHostname (hostText (.v4 ip)) = String.ofList ip.text := by
  have hbracket : ∀ c ∈ ip.text, c ≠ '[' ∧ c ≠ ']' := by
    intro c hc
    rcases mem_quad hc with hd | rfl
    · constructor
      · rintro rfl
        cases hd
      · rintro rfl
        cases hd
    · decide
  have hhead : ip.text.head? ≠ some '[' := fun h => (hbracket _ (List.mem_of_mem_head? h)).1 rfl
  have hlast : ip.text.getLast? ≠ some ']' := fun h => (hbracket _ (List.mem_of_mem_getLast? h)).2 rfl
  simp only [normalizeHostname, hostText, String.toList_ofList, hhead, if_false, hlast]

theorem normalizeHostname_v6 (ip : IPv6) :
    normalizeHostname (hostText (.v6 ip)) = String.ofList ip.text := by
  simp [normalizeHostname, hostText]

variable (hP : Standard P)
include hP

theorem guard_v4 (ip : IPv4) : isIP P (normalizeHostname (hostText (.v4 ip))) = true ∧
    (isPrivateIp P (normalizeHostname (hostText (.v4 ip))) = true ↔ Blocked4 ip) := by
  rw [normalizeHostname_v4, isPrivateIp_quad hP]
  refine ⟨?_, isPrivateIpv4_text ip⟩
  simp [isIP, hP.isIPv4]

/-- A text of the URL's form has no dotted quad in it. -/
theorem guard_v6 (ip : IPv6) : isIP P (normalizeHostname (hostText (.v6 ip))) = true ∧
    (isPrivateIp P (normalizeHostname (hostText (.v6 ip))) = true ↔
      isPrivateIpv6 (String.ofList ip.text) = true) := by
  have hplain : ∀ q : IPv4, ip.text ≠ "::ffff:".toList ++ q.text := by
    intro q h
    refine dot_not_mem_text ip (h ▸ ?_)
    simp [IPv4.text]
  rw [normalizeHostname_v6, isPrivateIp_v6 hP (readIPv6_text ip) hplain]
  refine ⟨?_, Iff.rfl⟩
  simp [isIP, hP.isIPv6]

end

/-! ## 4. The text of an address of version 6 -/

theorem toDigits_hex_inj {m n : ℕ} (h : Nat.toDigits 16 m = Nat.toDigits 16 n) : m = n :=
  Option.some.inj ((readBase_hex m).symm.trans (h ▸ readBase_hex n))

/-- What a number in base sixteen starts with. -/
theorem prefix_hex {v n : ℕ} (hv : 16 ≤ v) : Nat.toDigits 16 v <+: Nat.toDigits 16 n ↔
    n = v ∨ (16 ≤ n ∧ Nat.toDigits 16 v <+: Nat.toDigits 16 (n / 16)) := by
  rcases Nat.lt_or_ge n 16 with hlt | hge
  · refine iff_of_false ?_ (by omega)
    intro hp
    have hlen := hp.length_le
    rw [Nat.toDigits_of_base_le (by omega) hv, Nat.toDigits_of_lt_base hlt] at hlen
    have := Nat.length_toDigits_pos (b := 16) (n := v / 16)
    simp at hlen
  · rw [Nat.toDigits_of_base_le (n := n) (by omega) hge, List.prefix_concat_iff,
      ← Nat.toDigits_of_base_le (by omega) hge]
    constructor
    · rintro (heq | hp)
      · exact .inl (toDigits_hex_inj heq).symm
      · exact .inr ⟨hge, hp⟩
    · rintro (rfl | ⟨-, hp⟩)
      · exact .inl rfl
      · exact .inr hp

/-- A group starts with two digits when it is them, or has one or two digits more. -/
theorem prefix_group {v n : ℕ} (hv : 16 ≤ v) (hn : n < 65536) :
    Nat.toDigits 16 v <+: Nat.toDigits 16 n ↔ n = v ∨ n / 16 = v ∨ n / 256 = v := by
  rw [prefix_hex hv, prefix_hex hv, prefix_hex hv, prefix_hex hv]
  omega

/-- The texts of the lowest two addresses. -/
theorem text_lowest (ip : IPv6) :
    (ip.text = "::".toList ∨ ip.text = "::1".toList) ↔ ip.value ≤ 1 := by
  constructor
  · exact value_of_short (readIPv6_text ip)
  · intro hle
    have hcases : ip.value = 0 ∨ ip.value = 1 := by omega
    rcases hcases with h | h
    · left
      obtain rfl : ip = ⟨List.replicate 8 0, rfl⟩ := value_injective (h.trans (by decide))
      decide
    · right
      obtain rfl : ip = ⟨List.replicate 7 0 ++ [1], rfl⟩ := value_injective (h.trans (by decide))
      decide

theorem first_lt (ip : IPv6) : ip.first < 65536 := by
  match hg : ip.groups with
  | [] =>
    have := ip.length_groups
    simp [hg] at this
  | g :: gs =>
    rw [first_eq hg]
    exact g.isLt

theorem map_toLower_hex (n : ℕ) : (Nat.toDigits 16 n).map Char.toLower = Nat.toDigits 16 n := by
  have hdigit : ∀ d < 16, d.digitChar.toLower = d.digitChar := by decide
  induction n using toDigits_induct with
  | hlow n hn => rw [List.map_singleton, hdigit n hn]
  | hstep n m hm ih => rw [List.map_append, ih, List.map_singleton, hdigit m hm]

/-- A short first group in the text of a URL. -/
theorem shortStart_text (ip : IPv6) : ShortStart ip.text ↔
    ip.first < 4096 ∧ ∃ start ∈ [0xfc, 0xfd, 0xff], ip.first = start ∨ ip.first / 16 = start := by
  have hlt := first_lt ip
  rcases text_start ip with ⟨rest, htext, hzero⟩ | hstart
  · refine iff_of_false ?_ (by simp [hzero])
    intro hs
    have := hs.first (readIPv6_text ip)
    omega
  · have hlen : (Nat.toDigits 16 ip.first).length < 4 ↔ ip.first < 4096 := by
      have := Nat.length_toDigits_le_iff (b := 16) (n := ip.first) (k := 3) (by omega) (by omega)
      omega
    have hc : "fc".toList = Nat.toDigits 16 0xfc := rfl
    have hd : "fd".toList = Nat.toDigits 16 0xfd := rfl
    have hf : "ff".toList = Nat.toDigits 16 0xff := rfl
    simp only [ShortStart, show firstGroup ip.text = Nat.toDigits 16 ip.first from hstart,
      map_toLower_hex, hlen, List.mem_cons, List.not_mem_nil, or_false, exists_eq_or_imp,
      exists_eq_left, hc, hd, hf]
    rw [prefix_group (by omega) hlt, prefix_group (by omega) hlt, prefix_group (by omega) hlt]
    omega

/-- What the guard tests in the text of an address, by its number. -/
theorem isPrivateIpv6_text (ip : IPv6) :
    isPrivateIpv6 (String.ofList ip.text) = true ↔ ¬ (Address.v6 ip).Alike := by
  have hlt := first_lt ip
  rw [isPrivateIpv6_iff (readIPv6_text ip), text_lowest, shortStart_text]
  simp only [Address.Alike, List.mem_cons, List.not_mem_nil, or_false, exists_eq_or_imp,
    exists_eq_left, forall_eq_or_imp, forall_eq]
  generalize ip.first = first at hlt
  generalize ip.value = value
  omega

/-! ## 5. The agreement -/

/-- **When the two checks agree**: exactly on these addresses, whatever a lookup would answer. -/
theorem checks_agree_iff {P : Platform} (hP : Standard P) {url : String} {parsed : URL} {a : Address}
    (hurl : P.parseURL url = some parsed)
    (hprotocol : parsed.protocol = "http:" ∨ parsed.protocol = "https:")
    (hhost : parsed.hostname = hostText a) (lookup : Except Thrown (List String)) :
    (isPrivateTarget parsed.hostname = true ↔ ∃ e, assertPublicTarget P url lookup = .error e) ↔
      a.Alike := by
  cases a with
  | v4 ip =>
    obtain ⟨hip, hguard⟩ := guard_v4 hP ip
    rw [← hhost] at hip hguard
    have hzero : ip = ⟨0, 0, 0, 0⟩ → ip.a.val = 0 := by
      rintro rfl
      rfl
    rw [guard_literal hurl hprotocol hip, hguard, hhost, isPrivateTarget_v4, matchesPrivateIp_text,
      blocked4_iff, Address.Alike]
    generalize ip.a.val = first at hzero
    generalize ip.b.val = second
    by_cases hip0 : ip = ⟨0, 0, 0, 0⟩
    · simp [hip0, hzero hip0]
    · simp only [hip0, imp_false]
      grind
  | v6 ip =>
    obtain ⟨hip, hguard⟩ := guard_v6 hP ip
    rw [← hhost] at hip hguard
    rw [guard_literal hurl hprotocol hip, hguard, hhost, isPrivateTarget_v6, isPrivateIpv6_text]
    simp

/-- A URL with a host and no more. -/
def urlOf (hostname : String) : URL := ⟨"http:", hostname, "/"⟩

/-- A parser that knows URLs with these two hosts. -/
def urlPlatform : Platform := { addressPlatform with
  parseURL := fun url =>
    if url = "http://93.184.216.34/" then some (urlOf "93.184.216.34")
    else if url = "http://[::1]/" then some (urlOf "[::1]")
    else none }

theorem standard_urlPlatform : Standard urlPlatform := ⟨fun _ => rfl, fun _ => rfl⟩

theorem checks_agree_iff_sample :
    (isPrivateTarget (urlOf "93.184.216.34").hostname = true ↔
      ∃ e, assertPublicTarget urlPlatform "http://93.184.216.34/" (.ok []) = .error e) ↔
      (Address.v4 ⟨93, 184, 216, 34⟩).Alike := by
  have hurl : urlPlatform.parseURL "http://93.184.216.34/" = some (urlOf "93.184.216.34") := by
    simp [urlPlatform]
  have hhost : (urlOf "93.184.216.34").hostname = hostText (.v4 ⟨93, 184, 216, 34⟩) :=
    String.toList_inj.mp (String.toList_ofList.trans ((by decide : _ = _).trans String.toList_ofList.symm))
  exact checks_agree_iff standard_urlPlatform hurl (.inl rfl) hhost (.ok [])

/-- The loopback address of version 6 passes at registration, and the guard rejects it. -/
theorem loopback_registers :
    Standard urlPlatform ∧ urlPlatform.parseURL "http://[::1]/" = some (urlOf "[::1]") ∧
      isPrivateTarget (urlOf "[::1]").hostname = false ∧
      ∃ e, assertPublicTarget urlPlatform "http://[::1]/" (.ok []) = .error e := by
  have hurl : urlPlatform.parseURL "http://[::1]/" = some (urlOf "[::1]") := by simp [urlPlatform]
  have hread : readIPv6 [':', ':', '1'] = some ⟨[0, 0, 0, 0, 0, 0, 0, 1], rfl⟩ := by decide
  have hbrackets : "[::1]".toList = ['[', ':', ':', '1', ']'] := String.toList_ofList
  have hname : normalizeHostname (urlOf "[::1]").hostname = String.ofList [':', ':', '1'] := by
    rw [normalizeHostname, urlOf, hbrackets]
    rfl
  have hip : isIP urlPlatform (normalizeHostname (urlOf "[::1]").hostname) = true := by
    rw [hname, isIP, standard_urlPlatform.isIPv6, String.toList_ofList, hread]
    exact Bool.or_true _
  have hprivate : isPrivateIp urlPlatform (normalizeHostname (urlOf "[::1]").hostname) = true := by
    rw [hname, isPrivateIp_v6 standard_urlPlatform hread (ne_mapped (by decide)), isPrivateIpv6,
      String.toList_ofList]
    decide +kernel
  have hregisters : isPrivateTarget (urlOf "[::1]").hostname = false := by
    rw [isPrivateTarget, urlOf, hbrackets]
    decide +kernel
  refine ⟨standard_urlPlatform, hurl, hregisters, ?_⟩
  exact (guard_literal hurl (.inl rfl) hip).mpr hprivate

end SmartDrop.Webhooks
