/-
# Which spellings of an address the guard knows

The guard tests the text of an address.  `Blocked4` and `Blocked6` are the ranges it is said to
block, as ranges of numbers.  For a dotted quad the two agree.  For an address of version 6 they
agree on the spellings that are `Plain`, and on no others (`isPrivateIp_exact_iff`): the lowest
two addresses have other texts than `::` and `::1`, only the first sixty-fourth of the link-local block
starts with `fe80`, a short first group can start with `fc`, `fd` or `ff`, and an address of
version 4 can be embedded in other ways than after `::ffff:`.
-/
import SmartDrop.Lib.IpAddress
import SmartDrop.Webhooks.Ssrf

namespace SmartDrop.Webhooks

open IpAddress JsNumber JsText

/-! ## 1. The blocked ranges -/

/-- The first `len` of the `width` bits of a number are those of `base`. -/
def InBlock (width base len value : ℕ) : Prop := value / 2 ^ (width - len) = base / 2 ^ (width - len)

/-- The number of `a.b.c.d`. -/
def quad (a b c d : ℕ) : ℕ := 2 ^ 24 * a + 2 ^ 16 * b + 2 ^ 8 * c + d

/-- 0/8, 10/8, 100.64/10, 127/8, 169.254/16, 172.16/12 and 192.168/16. -/
def blocks4 : List (ℕ × ℕ) :=
  [(quad 0 0 0 0, 8), (quad 10 0 0 0, 8), (quad 100 64 0 0, 10), (quad 127 0 0 0, 8),
    (quad 169 254 0 0, 16), (quad 172 16 0 0, 12), (quad 192 168 0 0, 16)]

/-- The blocked addresses of version 4: these blocks, and 224/4 and what is above it. -/
def Blocked4 (ip : IPv4) : Prop :=
  (∃ b ∈ blocks4, InBlock 32 b.1 b.2 ip.value) ∨ quad 224 0 0 0 ≤ ip.value

/-- `::`, `::1`, fc00::/7, fe80::/10 and ff00::/8. -/
def blocks6 : List (ℕ × ℕ) :=
  [(0, 128), (1, 128), (0xfc00 * 2 ^ 112, 7), (0xfe80 * 2 ^ 112, 10), (0xff00 * 2 ^ 112, 8)]

/-- The blocked addresses of version 6: these blocks, and the blocked addresses of version 4. -/
def Blocked6 (ip : IPv6) : Prop :=
  (∃ b ∈ blocks6, InBlock 128 b.1 b.2 ip.value) ∨ ∃ q : IPv4, Blocked4 q ∧ ip = q.mapped

/-- An address of either version. -/
inductive Address where
  | v4 (ip : IPv4)
  | v6 (ip : IPv6)
deriving DecidableEq

/-- The address that a text spells. -/
def readAddress (text : List Char) : Option Address :=
  ((readIPv4 text).map .v4).or ((readIPv6 text).map .v6)

def Address.Blocked : Address → Prop
  | .v4 ip => Blocked4 ip
  | .v6 ip => Blocked6 ip

/-- `net.isIPv4` and `net.isIPv6` follow the grammars of addresses. -/
structure Standard (P : Platform) : Prop where
  isIPv4 : ∀ text, P.isIPv4 text = (readIPv4 text.toList).isSome
  isIPv6 : ∀ text, P.isIPv6 text = (readIPv6 text.toList).isSome

/-! ## 2. Version 4 -/

/-- The ranges by the first two octets. -/
theorem blocked4_iff (ip : IPv4) : Blocked4 ip ↔
    ip.a.val = 0 ∨ ip.a.val = 10 ∨ (ip.a.val = 100 ∧ 64 ≤ ip.b.val ∧ ip.b.val ≤ 127) ∨
      ip.a.val = 127 ∨ (ip.a.val = 169 ∧ ip.b.val = 254) ∨
      (ip.a.val = 172 ∧ 16 ≤ ip.b.val ∧ ip.b.val ≤ 31) ∨ (ip.a.val = 192 ∧ ip.b.val = 168) ∨
      224 ≤ ip.a.val := by
  obtain ⟨⟨a, ha⟩, ⟨b, hb⟩, ⟨c, hc⟩, ⟨d, hd⟩⟩ := ip
  have hhalf : (2 ^ 24 * a + 2 ^ 16 * b + 2 ^ 8 * c + d) / 2 ^ 16 = 256 * a + b := by omega
  have hblock : ∀ a' b' k, k ≤ 16 → (InBlock 32 (quad a' b' 0 0) (16 - k)
      (2 ^ 24 * a + 2 ^ 16 * b + 2 ^ 8 * c + d) ↔ (256 * a + b) / 2 ^ k = (256 * a' + b') / 2 ^ k) := by
    intro a' b' k hk
    have hexp : 32 - (16 - k) = 16 + k := by omega
    have hbase : quad a' b' 0 0 / 2 ^ 16 = 256 * a' + b' := by
      rw [quad]
      omega
    rw [InBlock, hexp, pow_add, ← Nat.div_div_eq_div_mul, ← Nat.div_div_eq_div_mul, hhalf, hbase]
  have h0 := (hblock 0 0 8 (by omega)).trans (show _ ↔ a = 0 by omega)
  have h10 := (hblock 10 0 8 (by omega)).trans (show _ ↔ a = 10 by omega)
  have h100 := (hblock 100 64 6 (by omega)).trans (show _ ↔ a = 100 ∧ 64 ≤ b ∧ b ≤ 127 by omega)
  have h127 := (hblock 127 0 8 (by omega)).trans (show _ ↔ a = 127 by omega)
  have h169 := (hblock 169 254 0 (by omega)).trans (show _ ↔ a = 169 ∧ b = 254 by omega)
  have h172 := (hblock 172 16 4 (by omega)).trans (show _ ↔ a = 172 ∧ 16 ≤ b ∧ b ≤ 31 by omega)
  have h192 := (hblock 192 168 0 (by omega)).trans (show _ ↔ a = 192 ∧ b = 168 by omega)
  have h224 : quad 224 0 0 0 ≤ 2 ^ 24 * a + 2 ^ 16 * b + 2 ^ 8 * c + d ↔ 224 ≤ a := by
    rw [quad]
    omega
  simp only [Blocked4, blocks4, IPv4.value, List.mem_cons, List.not_mem_nil, or_false,
    exists_eq_or_imp, exists_eq_left]
  rw [h0, h10, h100, h127, h169, h172, h192, h224]
  simp only [or_assoc]

/-- **The test of a dotted quad is exact.** -/
theorem isPrivateIpv4_text (ip : IPv4) :
    isPrivateIpv4 (String.ofList ip.text) = true ↔ Blocked4 ip := by
  rw [blocked4_iff]
  obtain ⟨⟨a, ha⟩, ⟨b, hb⟩, ⟨c, hc⟩, ⟨d, hd⟩⟩ := ip
  have hread : ∀ n < 256, read (Nat.toDigits 10 n) = .finite n := fun n hn => read_toDigits (by omega)
  rw [isPrivateIpv4, String.toList_ofList, split_text]
  simp only [List.map_cons, List.map_nil, hread a ha, hread b hb, hread c hc, hread d hd]
  have hlow : ∀ n : ℕ, ¬ ((n : ℚ) < 0) := fun n => not_lt.mpr (Nat.cast_nonneg n)
  have hhigh : ∀ n : ℕ, n < 256 → ¬ (255 < (n : ℚ)) := by
    intro n hn
    exact_mod_cast Nat.not_lt.mpr (Nat.le_of_lt_succ hn)
  simp only [List.any_cons, List.any_nil, hlow, hhigh a ha, hhigh b hb, hhigh c hc, hhigh d hd]
  have heq : ∀ (n k : ℕ) [k.AtLeastTwo], (n : ℚ) = OfNat.ofNat k ↔ n = OfNat.ofNat k := by
    intro n k _
    rw [← Nat.cast_ofNat, Nat.cast_inj]
  simp [heq, or_assoc, and_assoc]
  grind

/-! ## 3. Version 6 -/

/-- The text before the first colon. -/
def firstGroup (text : List Char) : List Char := text.takeWhile (· ≠ ':')

/-- A first group of fewer than four digits that starts with `fc`, `fd` or `ff`. -/
def ShortStart (text : List Char) : Prop :=
  (firstGroup text).length < 4 ∧
    ∃ start ∈ ["fc", "fd", "ff"], start.toList <+: (firstGroup text).map Char.toLower

/-- A spelling on which the test is right. -/
structure Plain (text : List Char) (ip : IPv6) : Prop where
  lowest : ip.value ≤ 1 → text = "::".toList ∨ text = "::1".toList
  linkLocal : InBlock 128 (0xfe80 * 2 ^ 112) 10 ip.value → ip.first = 0xfe80
  start : ¬ ShortStart text
  embedded : ∀ q : IPv4, Blocked4 q → ip = q.mapped → text = "::ffff:".toList ++ q.text

/-- A block of at most sixteen bits is one of first groups. -/
theorem inBlock_first (ip : IPv6) (g : ℕ) {k : ℕ} (hk : k ≤ 16) :
    InBlock 128 (g * 2 ^ 112) (16 - k) ip.value ↔ ip.first / 2 ^ k = g / 2 ^ k := by
  have hexp : 128 - (16 - k) = 112 + k := by omega
  rw [InBlock, hexp, pow_add, ← Nat.div_div_eq_div_mul, ← Nat.div_div_eq_div_mul,
    Nat.mul_div_cancel g (by positivity), IPv6.first]

theorem linkLocal_iff (ip : IPv6) :
    InBlock 128 (0xfe80 * 2 ^ 112) 10 ip.value ↔ ip.first / 64 = 1018 :=
  inBlock_first ip 0xfe80 (show 6 ≤ 16 by omega)

/-- The ranges by the first group. -/
theorem blocked6_iff {ip : IPv6} : Blocked6 ip ↔
    ip.value ≤ 1 ∨ ip.first / 512 = 126 ∨ ip.first / 64 = 1018 ∨ ip.first / 256 = 255 ∨
      ∃ q : IPv4, Blocked4 q ∧ ip = q.mapped := by
  have hlowest : ∀ n, InBlock 128 n 128 ip.value ↔ ip.value = n := by
    intro n
    simp [InBlock]
  have hunique : InBlock 128 (0xfc00 * 2 ^ 112) 7 ip.value ↔ ip.first / 512 = 126 :=
    inBlock_first ip 0xfc00 (show 9 ≤ 16 by omega)
  have hmulticast : InBlock 128 (0xff00 * 2 ^ 112) 8 ip.value ↔ ip.first / 256 = 255 :=
    inBlock_first ip 0xff00 (show 8 ≤ 16 by omega)
  have hone : ip.value ≤ 1 ↔ ip.value = 0 ∨ ip.value = 1 := by omega
  simp only [Blocked6, blocks6, List.mem_cons, List.not_mem_nil, or_false, exists_eq_or_imp,
    exists_eq_left, or_assoc, hlowest, hunique, linkLocal_iff, hmulticast, hone]

/-- Lower case is the same as a sign or a digit only where the text has it. -/
theorem toLower_eq_iff {c d : Char} (hd : d.toNat < 65) : c.toLower = d ↔ c = d := by
  by_cases hupper : c.val ≥ 'A'.val ∧ c.val ≤ 'Z'.val
  · have hlower : c.toLower.val = c.val + 32 := congrArg Char.val (dif_pos hupper)
    have hge : 65 ≤ c.val.toNat := hupper.1
    have hle : c.val.toNat ≤ 90 := hupper.2
    constructor
    · intro h
      have hval : (c.val + 32).toNat = d.toNat := by rw [← hlower, h]; rfl
      rw [UInt32.toNat_add, show (32 : UInt32).toNat = 32 from rfl] at hval
      omega
    · rintro rfl
      exact absurd hd (Nat.not_lt.mpr hge)
  · have hlower : c.toLower = c := dif_neg hupper
    rw [hlower]

theorem map_toLower_eq_iff {text w : List Char} (hw : (w.all fun d => d.toNat < 65) = true) :
    text.map Char.toLower = w ↔ text = w := by
  induction text generalizing w with
  | nil => simp
  | cons c text ih =>
    cases w with
    | nil => simp
    | cons d w =>
      rw [List.all_cons, Bool.and_eq_true, decide_eq_true_eq] at hw
      rw [List.map_cons, List.cons.injEq, List.cons.injEq, toLower_eq_iff hw.1, ih hw.2]

/-- What a text starts with before a colon is what its first group starts with. -/
theorem prefix_firstGroup {start text : List Char} (h : ':' ∉ start) :
    start <+: text.map Char.toLower ↔ start <+: (firstGroup text).map Char.toLower := by
  constructor
  · rintro ⟨rest, hrest⟩
    have hfirst : (firstGroup text).map Char.toLower =
        (text.map Char.toLower).takeWhile (· ≠ ':') := by
      rw [List.takeWhile_map, firstGroup]
      congr 2
      funext c
      simp [toLower_eq_iff (show ':'.toNat < 65 by decide)]
    rw [hfirst, ← hrest, List.takeWhile_append_of_pos fun c hc => ?_]
    · exact List.prefix_append _ _
    · simpa using fun e : c = ':' => h (e ▸ hc)
  · intro hstart
    exact hstart.trans ((List.takeWhile_prefix _).map _)

/-- One of `fc`, `fd` and `ff`, by the digits. -/
theorem prefix_digits {ds : List ℕ} (h : ∀ d ∈ ds, d < 16) :
    (∃ start ∈ ["fc", "fd", "ff"], start.toList <+: ds.map Nat.digitChar) ↔
      ∃ b rest, ds = 15 :: b :: rest ∧ (b = 12 ∨ b = 13 ∨ b = 15) := by
  have hdigit : ∀ d < 16, (d.digitChar = 'f' ↔ d = 15) ∧ (d.digitChar = 'c' ↔ d = 12) ∧
      (d.digitChar = 'd' ↔ d = 13) := by decide
  rcases ds with _ | ⟨a, _ | ⟨b, rest⟩⟩
  · simp
  · simp
  · obtain ⟨haf, -, -⟩ := hdigit a (h a (by simp))
    obtain ⟨hbf, hbc, hbd⟩ := hdigit b (h b (by simp))
    have hc : "fc".toList = ['f', 'c'] := rfl
    have hd : "fd".toList = ['f', 'd'] := rfl
    have hf : "ff".toList = ['f', 'f'] := rfl
    simp only [List.mem_cons, List.not_mem_nil, or_false, exists_eq_or_imp, exists_eq_left,
      List.map_cons, hc, hd, hf, List.cons_prefix_cons, List.nil_prefix, and_true,
      eq_comm (b := a.digitChar), eq_comm (b := b.digitChar), haf, hbf, hbc, hbd]
    simp [← and_or_left]

/-- What the test asks of the start of a text, by the first group. -/
theorem isPrivateIpv6_start {text : List Char} {ip : IPv6} (h : readIPv6 text = some ip) :
    (("fe80".toList <+: text.map Char.toLower) ∨ (∃ start ∈ ["fc", "fd", "ff"],
      start.toList <+: text.map Char.toLower)) ↔
      ip.first = 0xfe80 ∨ ip.first / 512 = 126 ∨ ip.first / 256 = 255 ∨ ShortStart text := by
  have hfirst : (∃ start ∈ ["fc", "fd", "ff"], start.toList <+: text.map Char.toLower) ↔
      ∃ start ∈ ["fc", "fd", "ff"], start.toList <+: (firstGroup text).map Char.toLower := by
    have hcolon : ∀ start ∈ ["fc", "fd", "ff"], ':' ∉ start.toList := by decide
    exact exists_congr fun start => and_congr_right fun hs => prefix_firstGroup (hcolon start hs)
  rw [hfirst, prefix_firstGroup (by decide), ShortStart]
  rcases readIPv6_head h with ⟨right, rfl, hzero⟩ | ⟨g, hg, hfirst⟩
  · have hempty : firstGroup (':' :: ':' :: right) = [] := rfl
    rw [hempty, hzero]
    simp
  · obtain ⟨ds, hds, hlower, hlen, hne, hvalue⟩ := readGroup_digits hg
    have hcount : (firstGroup text).length = ds.length := by
      simpa [firstGroup] using congrArg List.length hlower
    rw [hcount, show (firstGroup text).map Char.toLower = ds.map Nat.digitChar from hlower,
      prefix_digits hds, hfirst, hvalue]
    have hfe : "fe80".toList = ['f', 'e', '8', '0'] := rfl
    have hdigit : ∀ d < 16, (d.digitChar = 'f' ↔ d = 15) ∧ (d.digitChar = 'e' ↔ d = 14) ∧
      (d.digitChar = '8' ↔ d = 8) ∧ (d.digitChar = '0' ↔ d = 0) := by decide
    rcases ds with _ | ⟨a, _ | ⟨b, _ | ⟨c, _ | ⟨d, _ | ⟨e, rest⟩⟩⟩⟩⟩
    · exact absurd rfl hne
    · have ha := hds a (by simp)
      simp [hfe]
      omega
    · have ha := hds a (by simp)
      have hb := hds b (by simp)
      simp [hfe]
      omega
    · have ha := hds a (by simp)
      have hb := hds b (by simp)
      have hc := hds c (by simp)
      simp [hfe]
      omega
    · have ha := hds a (by simp)
      have hb := hds b (by simp)
      have hc := hds c (by simp)
      have hd := hds d (by simp)
      have hlink : "fe80".toList <+: [a, b, c, d].map Nat.digitChar ↔
          a = 15 ∧ b = 14 ∧ c = 8 ∧ d = 0 := by
        simp [hfe, eq_comm (a := 'f'), eq_comm (a := 'e'), eq_comm (a := '8'), eq_comm (a := '0'),
          hdigit a ha, hdigit b hb, hdigit c hc, hdigit d hd]
      rw [hlink]
      simp
      omega
    · simp only [List.length_cons] at hlen
      omega

/-! ## 4. The whole test -/

/-- A text without a dot has no dotted quad in it. -/
theorem ne_mapped {text : List Char} (h : '.' ∉ text) (q : IPv4) :
    text ≠ "::ffff:".toList ++ q.text := by
  rintro rfl
  simp [IPv4.text] at h

theorem trim_address {text : List Char} (h : ∀ c ∈ text, digitValue c < 16 ∨ c = '.' ∨ c = ':') :
    trim (String.ofList text) = String.ofList text := by
  have hspace : ∀ c ∈ text, isSpace c = false := by
    intro c hc
    rcases h c hc with hd | rfl | rfl
    · exact noSpace_of_digitValue hd
    · decide
    · decide
  rw [← String.ofList_toList (s := trim (String.ofList text)), trim_noSpace hspace]

section

variable {P : Platform} (hP : Standard P)
include hP

theorem isPrivateIp_quad (q : IPv4) :
    isPrivateIp P (String.ofList q.text) = isPrivateIpv4 (String.ofList q.text) := by
  have htrim : trim (String.ofList q.text) = String.ofList q.text := by
    refine trim_address fun c hc => ?_
    rcases mem_quad hc with hd | hdot
    · exact .inl (hex_of_isDigit hd)
    · exact .inr (.inl hdot)
  have hpre : "::ffff:".toList.isPrefixOf q.text = false := by
    rw [Bool.eq_false_iff]
    intro hp
    rw [List.isPrefixOf_iff_prefix] at hp
    exact colon_not_mem_quad q (hp.subset (by decide))
  have h4 : P.isIPv4 (String.ofList q.text) = true := by simp [hP.isIPv4]
  simp only [isPrivateIp, htrim, String.toList_ofList, hpre, Bool.false_and, Bool.false_eq_true,
    if_false, h4, if_true]

theorem isPrivateIp_mapped (q : IPv4) :
    isPrivateIp P (String.ofList ("::ffff:".toList ++ q.text)) =
      isPrivateIpv4 (String.ofList q.text) := by
  have htrim : trim (String.ofList ("::ffff:".toList ++ q.text)) =
      String.ofList ("::ffff:".toList ++ q.text) :=
    trim_address fun c hc => mem_of_readIPv6 (readIPv6_mapped q) hc
  have hpre : "::ffff:".toList.isPrefixOf ("::ffff:".toList ++ q.text) = true := by
    rw [List.isPrefixOf_iff_prefix]
    exact List.prefix_append _ _
  have hdrop : ("::ffff:".toList ++ q.text).drop 7 = q.text := rfl
  have h4 : P.isIPv4 (String.ofList q.text) = true := by simp [hP.isIPv4]
  simp only [isPrivateIp, htrim, String.toList_ofList, hpre, hdrop, h4, Bool.and_self, if_true]

theorem isPrivateIp_v6 {text : List Char} {ip : IPv6} (h : readIPv6 text = some ip)
    (hplain : ∀ q : IPv4, text ≠ "::ffff:".toList ++ q.text) :
    isPrivateIp P (String.ofList text) = isPrivateIpv6 (String.ofList text) := by
  have htrim : trim (String.ofList text) = String.ofList text :=
    trim_address fun c hc => mem_of_readIPv6 h hc
  have hmapped : ("::ffff:".toList.isPrefixOf text && P.isIPv4 (String.ofList (text.drop 7))) =
      false := by
    rw [Bool.eq_false_iff]
    intro hand
    rw [Bool.and_eq_true, List.isPrefixOf_iff_prefix, hP.isIPv4, String.toList_ofList,
      Option.isSome_iff_exists] at hand
    obtain ⟨⟨rest, rfl⟩, q, hq⟩ := hand
    rw [String.toList_ofList] at hq
    exact hplain q (congrArg _ (readIPv4_eq_some.mp (show readIPv4 rest = some q from hq)))
  have h4 : P.isIPv4 (String.ofList text) = false := by
    rw [hP.isIPv4, String.toList_ofList, Option.isSome_eq_false_iff, Option.isNone_iff_eq_none]
    refine Option.eq_none_iff_forall_ne_some.mpr fun q hq => ?_
    obtain rfl := readIPv4_eq_some.mp hq
    rw [readIPv6_quad] at h
    cases h
  have h6 : P.isIPv6 (String.ofList text) = true := by
    rw [hP.isIPv6, String.toList_ofList, h]
    rfl
  simp only [isPrivateIp, htrim, String.toList_ofList, hmapped, h4, h6, Bool.false_eq_true, if_false,
    if_true]

end

theorem mapped_first (q : IPv4) : q.mapped.first = 0 := by
  rw [first_eq (show q.mapped.groups = 0 :: _ from rfl)]
  rfl

theorem mapped_value (q : IPv4) : 1 < q.mapped.value := by
  simp [IPv6.value, IPv4.mapped, IPv4.groups, Nat.ofDigits]
  omega

theorem mapped_inj {q q' : IPv4} (h : q.mapped = q'.mapped) : q = q' := by
  obtain ⟨a, b, c, d⟩ := q
  obtain ⟨a', b', c', d'⟩ := q'
  simp [IPv4.mapped, IPv4.groups] at h
  obtain ⟨hhigh, hlow⟩ := h
  simp only [IPv4.mk.injEq, Fin.ext_iff]
  omega

/-- What the test of version 6 answers, by the first group. -/
theorem isPrivateIpv6_iff {text : List Char} {ip : IPv6} (h : readIPv6 text = some ip) :
    isPrivateIpv6 (String.ofList text) = true ↔
      (text = "::".toList ∨ text = "::1".toList) ∨ ip.first = 0xfe80 ∨ ip.first / 512 = 126 ∨
        ip.first / 256 = 255 ∨ ShortStart text := by
  rw [← isPrivateIpv6_start h, isPrivateIpv6, String.toList_ofList]
  simp only [Bool.or_eq_true, decide_eq_true_eq, List.isPrefixOf_iff_prefix,
    map_toLower_eq_iff (show ("::".toList.all fun d => d.toNat < 65) = true from rfl),
    map_toLower_eq_iff (show ("::1".toList.all fun d => d.toNat < 65) = true from rfl), List.mem_cons,
    List.not_mem_nil, or_false, exists_eq_or_imp, exists_eq_left]
  grind

/-- A short first group is a small number, and not zero. -/
theorem ShortStart.first {text : List Char} {ip : IPv6} (hs : ShortStart text)
    (h : readIPv6 text = some ip) : 0 < ip.first ∧ ip.first < 4096 := by
  obtain ⟨hlen, hstart⟩ := hs
  rcases readIPv6_head h with ⟨right, rfl, -⟩ | ⟨g, hg, hfirst⟩
  · obtain ⟨start, hmem, hstart⟩ := hstart
    have hempty : firstGroup (':' :: ':' :: right) = [] := rfl
    rw [hempty, List.map_nil, List.prefix_nil] at hstart
    have hne : ∀ start ∈ ["fc", "fd", "ff"], start.toList ≠ [] := by decide
    exact absurd hstart (hne start hmem)
  · obtain ⟨ds, hds, hlower, -, -, hvalue⟩ := readGroup_digits hg
    have hcount : (firstGroup text).length = ds.length := by
      simpa [firstGroup] using congrArg List.length hlower
    rw [show (firstGroup text).map Char.toLower = ds.map Nat.digitChar from hlower,
      prefix_digits hds] at hstart
    obtain ⟨b, rest, rfl, -⟩ := hstart
    have hb := hds b (by simp)
    rw [hfirst, hvalue]
    rcases rest with _ | ⟨c, _ | ⟨d, rest⟩⟩
    · simp
      omega
    · have hc := hds c (by simp)
      simp
      omega
    · simp at hcount
      omega

theorem value_of_short {text : List Char} {ip : IPv6} (h : readIPv6 text = some ip)
    (ht : text = "::".toList ∨ text = "::1".toList) : ip.value ≤ 1 := by
  rcases ht with rfl | rfl
  · obtain rfl : ⟨List.replicate 8 0, rfl⟩ = ip := Option.some.inj h
    decide
  · obtain rfl : ⟨List.replicate 7 0 ++ [1], rfl⟩ = ip := Option.some.inj h
    decide

/-- **When the test is exact for a spelling of version 6.** -/
theorem isPrivateIp_v6_iff {P : Platform} (hP : Standard P) {text : List Char} {ip : IPv6}
    (h : readIPv6 text = some ip) :
    (isPrivateIp P (String.ofList text) = true ↔ Blocked6 ip) ↔ Plain text ip := by
  by_cases hmapped : ∃ q : IPv4, text = "::ffff:".toList ++ q.text
  · obtain ⟨q, rfl⟩ := hmapped
    obtain rfl : q.mapped = ip := Option.some.inj ((readIPv6_mapped q).symm.trans h)
    have hvalue := mapped_value q
    have hagree : Blocked6 q.mapped ↔ Blocked4 q := by
      rw [blocked6_iff, mapped_first]
      constructor
      · rintro (hle | hx | hx | hx | ⟨q', hq', heq⟩)
        · omega
        · cases hx
        · cases hx
        · cases hx
        · exact mapped_inj heq ▸ hq'
      · intro hq
        exact .inr (.inr (.inr (.inr ⟨q, hq, rfl⟩)))
    rw [isPrivateIp_mapped hP, isPrivateIpv4_text, hagree]
    refine iff_of_true Iff.rfl ⟨fun hle => by omega, ?_, ?_, ?_⟩
    · rw [linkLocal_iff, mapped_first]
      intro hx
      cases hx
    · rintro ⟨-, start, hstart, hx⟩
      have hempty : firstGroup ("::ffff:".toList ++ q.text) = [] := rfl
      rw [hempty, List.map_nil, List.prefix_nil] at hx
      have hne : ∀ start ∈ ["fc", "fd", "ff"], start.toList ≠ [] := by decide
      exact hne start hstart hx
    · intro q' _ heq
      rw [mapped_inj heq]
  · have hplain : ∀ q : IPv4, text ≠ "::ffff:".toList ++ q.text := fun q hq => hmapped ⟨q, hq⟩
    rw [isPrivateIp_v6 hP h hplain, isPrivateIpv6_iff h, blocked6_iff]
    have hlow : ip.value ≤ 1 → ip.first = 0 := by
      intro hle
      rw [IPv6.first]
      omega
    have htext := value_of_short h
    have hshort : ShortStart text → 0 < ip.first ∧ ip.first < 4096 := fun hs => hs.first h
    have hmap : ∀ q : IPv4, ip = q.mapped → ip.first = 0 ∧ 1 < ip.value := by
      rintro q rfl
      exact ⟨mapped_first q, mapped_value q⟩
    constructor
    · intro hexact
      refine ⟨fun hle => ?_, fun hlink => ?_, fun hs => ?_, fun q hq heq => ?_⟩
      · have := hlow hle
        rcases hexact.mpr (.inl hle) with ht | hx | hx | hx | hs
        · exact ht
        · omega
        · omega
        · omega
        · have := hshort hs
          omega
      · rw [linkLocal_iff] at hlink
        rcases hexact.mpr (.inr (.inr (.inl hlink))) with ht | hx | hx | hx | hs
        · have := hlow (htext ht)
          omega
        · exact hx
        · omega
        · omega
        · have := hshort hs
          omega
      · have := hshort hs
        rcases hexact.mp (.inr (.inr (.inr (.inr hs)))) with hle | hx | hx | hx | ⟨q, -, heq⟩
        · have := hlow hle
          omega
        · omega
        · omega
        · omega
        · have := hmap q heq
          omega
      · have := hmap q heq
        rcases hexact.mpr (.inr (.inr (.inr (.inr ⟨q, hq, heq⟩)))) with ht | hx | hx | hx | hs
        · have := htext ht
          omega
        · omega
        · omega
        · omega
        · have := hshort hs
          omega
    · intro hp
      constructor
      · rintro (ht | hx | hx | hx | hs)
        · exact .inl (htext ht)
        · exact .inr (.inr (.inl (by omega)))
        · exact .inr (.inl hx)
        · exact .inr (.inr (.inr (.inl hx)))
        · exact absurd hs hp.start
      · rintro (hle | hx | hx | hx | ⟨q, hq, heq⟩)
        · exact .inl (hp.lowest hle)
        · exact .inr (.inr (.inl hx))
        · exact .inr (.inl (hp.linkLocal ((linkLocal_iff ip).mpr hx)))
        · exact .inr (.inr (.inr (.inl hx)))
        · exact absurd (hp.embedded q hq heq) (hplain q)

/-- A spelling on which the test is right; for version 4 there is one. -/
def Address.Plain (text : List Char) : Address → Prop
  | .v4 _ => True
  | .v6 ip => Webhooks.Plain text ip

/-- **When the test is exact**: on every dotted quad, and on the plain spellings of version 6. -/
theorem isPrivateIp_exact_iff {P : Platform} (hP : Standard P) {text : String} {a : Address}
    (h : readAddress text.toList = some a) :
    (isPrivateIp P text = true ↔ a.Blocked) ↔ a.Plain text.toList := by
  rw [readAddress, Option.or_eq_some_iff, Option.map_eq_some_iff] at h
  rcases h with ⟨q, hq, rfl⟩ | ⟨-, h⟩
  · have htext : text = String.ofList q.text := by
      rw [← readIPv4_eq_some.mp hq, String.ofList_toList]
    rw [htext, isPrivateIp_quad hP]
    exact iff_of_true (isPrivateIpv4_text q) trivial
  · obtain ⟨ip, hip, rfl⟩ := Option.map_eq_some_iff.mp h
    have := isPrivateIp_v6_iff hP hip
    rwa [String.ofList_toList] at this

/-- A platform whose `net` follows the grammars. -/
def addressPlatform : Platform := { samplePlatform with
  isIPv4 := fun text => (readIPv4 text.toList).isSome
  isIPv6 := fun text => (readIPv6 text.toList).isSome }

theorem standard_addressPlatform : Standard addressPlatform := ⟨fun _ => rfl, fun _ => rfl⟩

theorem isPrivateIp_exact_iff_sample :
    (isPrivateIp addressPlatform "fe80::1" = true ↔
      (Address.v6 ⟨[0xfe80, 0, 0, 0, 0, 0, 0, 1], rfl⟩).Blocked) ↔
    (Address.v6 ⟨[0xfe80, 0, 0, 0, 0, 0, 0, 1], rfl⟩).Plain "fe80::1".toList :=
  isPrivateIp_exact_iff standard_addressPlatform (by decide)

/-- The loopback address of version 4, embedded the way a URL is serialised with it, passes. -/
theorem mapped_loopback_passes :
    readAddress "::ffff:7f00:1".toList = some (.v6 (⟨127, 0, 0, 1⟩ : IPv4).mapped) ∧
      (Address.v6 (⟨127, 0, 0, 1⟩ : IPv4).mapped).Blocked ∧
      Standard addressPlatform ∧ isPrivateIp addressPlatform "::ffff:7f00:1" = false := by
  have htext : "::ffff:7f00:1".toList =
      [':', ':', 'f', 'f', 'f', 'f', ':', '7', 'f', '0', '0', ':', '1'] := String.toList_ofList
  have hread : readIPv6 [':', ':', 'f', 'f', 'f', 'f', ':', '7', 'f', '0', '0', ':', '1'] =
      some (⟨127, 0, 0, 1⟩ : IPv4).mapped := by decide
  refine ⟨by rw [htext]; decide, ?_, standard_addressPlatform, ?_⟩
  · exact .inr ⟨⟨127, 0, 0, 1⟩, (blocked4_iff _).mpr (by decide), rfl⟩
  · refine (isPrivateIp_v6 standard_addressPlatform hread (ne_mapped (by decide))).trans ?_
    rw [isPrivateIpv6, String.toList_ofList]
    decide +kernel

end SmartDrop.Webhooks
