/-
# IP addresses

The addresses of both versions, their texts, and the blocks they are in.  `readIPv4` and
`readIPv6` follow the standard grammars.  An address of version 4 is four decimal octets without
leading zeros.  One of version 6 is eight groups of one to four hexadecimal digits; `::` stands
for a row of zero groups, and the last two groups can be written as an address of version 4.

So an address of version 4 has one text (`readIPv4_eq_some`), and one of version 6 has many.
`IPv6.text` is the one that a URL is serialised with, and `readIPv6_text` reads it back.
-/
import Mathlib.Data.Nat.Digits.Defs
import SmartDrop.Lib.NumberText

namespace IpAddress

open JsNumber

/-! ## 1. Version 4 -/

/-- An address of version 4. -/
structure IPv4 where
  a : Fin 256
  b : Fin 256
  c : Fin 256
  d : Fin 256
deriving DecidableEq

/-- Its number. -/
def IPv4.value (ip : IPv4) : ℕ := 2 ^ 24 * ip.a + 2 ^ 16 * ip.b + 2 ^ 8 * ip.c + ip.d

/-- Its dotted quad. -/
def IPv4.text (ip : IPv4) : List Char :=
  Nat.toDigits 10 ip.a ++ '.' :: (Nat.toDigits 10 ip.b ++ '.' ::
    (Nat.toDigits 10 ip.c ++ '.' :: Nat.toDigits 10 ip.d))

/-- A decimal octet, without leading zeros. -/
def readOctet (cs : List Char) : Option (Fin 256) :=
  match readBase 10 cs with
  | some n => if h : n < 256 then if Nat.toDigits 10 n = cs then some ⟨n, h⟩ else none else none
  | none => none

/-- The address that a dotted quad spells. -/
def readIPv4 (text : List Char) : Option IPv4 :=
  match (JsText.split ['.'] text).map readOctet with
  | [some a, some b, some c, some d] => some ⟨a, b, c, d⟩
  | _ => none

theorem readOctet_toDigits (n : Fin 256) : readOctet (Nat.toDigits 10 n) = some n := by
  simp [readOctet, readBase_toDigits]

theorem toDigits_of_readOctet {cs : List Char} {n : Fin 256} (h : readOctet cs = some n) :
    cs = Nat.toDigits 10 n := by
  rw [readOctet] at h
  split at h
  · split at h
    · split at h
      · rename_i hcs
        obtain rfl := Option.some.inj h
        exact hcs.symm
      · cases h
    · cases h
  · cases h

theorem not_mem_octet {s : Char} (h : JsText.isDigit s = false) (n : ℕ) : s ∉ Nat.toDigits 10 n := by
  intro hs
  rw [isDigit_of_mem_toDigits hs] at h
  cases h

theorem split_text (ip : IPv4) : JsText.split ['.'] ip.text =
    [Nat.toDigits 10 ip.a, Nat.toDigits 10 ip.b, Nat.toDigits 10 ip.c, Nat.toDigits 10 ip.d] := by
  have hdot : ∀ n, '.' ∉ Nat.toDigits 10 n := not_mem_octet (by decide)
  rw [IPv4.text, JsText.split_cons (hdot _), JsText.split_cons (hdot _), JsText.split_cons (hdot _),
    JsText.split_part (hdot _)]

@[simp] theorem readIPv4_text (ip : IPv4) : readIPv4 ip.text = some ip := by
  simp [readIPv4, split_text, readOctet_toDigits]

/-- **An address of version 4 has one text.** -/
theorem readIPv4_eq_some {text : List Char} {ip : IPv4} :
    readIPv4 text = some ip ↔ text = ip.text := by
  constructor
  · intro h
    have hjoin : ['.'].intercalate (JsText.split ['.'] text) = text := JsText.intercalate_split text
    rw [readIPv4] at h
    split at h
    · rename_i a b c d hparts
      obtain rfl := Option.some.inj h
      simp only [List.map_eq_cons_iff, List.map_eq_nil_iff] at hparts
      obtain ⟨ta, _, hsplit, ha, tb, _, rfl, hb, tc, _, rfl, hc, td, _, rfl, hd, rfl⟩ := hparts
      rw [hsplit, toDigits_of_readOctet ha, toDigits_of_readOctet hb, toDigits_of_readOctet hc,
        toDigits_of_readOctet hd] at hjoin
      rw [← hjoin]
      simp [IPv4.text, List.intercalate]
    · cases h
  · rintro rfl
    exact readIPv4_text ip

/-! ## 2. Version 6 -/

/-- An address of version 6. -/
structure IPv6 where
  groups : List (Fin 65536)
  length_groups : groups.length = 8
deriving DecidableEq

/-- Its number. -/
def IPv6.value (ip : IPv6) : ℕ := Nat.ofDigits 65536 (ip.groups.reverse.map Fin.val)

/-- Its first group. -/
def IPv6.first (ip : IPv6) : ℕ := ip.value / 2 ^ 112

/-- An address of version 4 as two groups. -/
def IPv4.groups (ip : IPv4) : List (Fin 65536) :=
  [⟨256 * ip.a + ip.b, by omega⟩, ⟨256 * ip.c + ip.d, by omega⟩]

/-- `::ffff:a.b.c.d`. -/
def IPv4.mapped (ip : IPv4) : IPv6 := ⟨[0, 0, 0, 0, 0, 0xffff] ++ ip.groups, rfl⟩

/-- The address of a list of groups, when there are eight. -/
def ofGroups (groups : List (Fin 65536)) : Option IPv6 :=
  if h : groups.length = 8 then some ⟨groups, h⟩ else none

/-- One to four hexadecimal digits. -/
def readGroup (cs : List Char) : Option (Fin 65536) :=
  if cs.length ≤ 4 then (readBase 16 cs).map (Fin.ofNat 65536) else none

/-- Groups, of which the last can be an address of version 4. -/
def readTail : List (List Char) → Option (List (Fin 65536))
  | [] => some []
  | [piece] => ((readIPv4 piece).map IPv4.groups).or ((readGroup piece).map fun g => [g])
  | piece :: pieces => do return (← readGroup piece) :: (← readTail pieces)

/-- What stands before the first `::`, and what follows it. -/
def cut : List Char → Option (List Char × List Char)
  | [] => none
  | [_] => none
  | a :: b :: cs =>
    if a = ':' ∧ b = ':' then some ([], cs)
    else (cut (b :: cs)).map fun (left, right) => (a :: left, right)

/-- The pieces between the colons of a text; none of an empty one. -/
def pieces (cs : List Char) : List (List Char) := if cs = [] then [] else JsText.split [':'] cs

/-- The address that a text spells. -/
def readIPv6 (text : List Char) : Option IPv6 :=
  match cut text with
  | none => (readTail (pieces text)).bind ofGroups
  | some (left, right) => do
    let ls ← (pieces left).mapM readGroup
    let rs ← readTail (pieces right)
    if ls.length + rs.length < 8 then
      ofGroups (ls ++ List.replicate (8 - (ls.length + rs.length)) 0 ++ rs)
    else none

/-! ### The first group -/

theorem first_eq {ip : IPv6} {g : Fin 65536} {gs : List (Fin 65536)} (h : ip.groups = g :: gs) :
    ip.first = g := by
  have hlen : gs.length = 7 := by
    have := ip.length_groups
    rw [h, List.length_cons] at this
    omega
  have hlow : Nat.ofDigits 65536 (gs.reverse.map Fin.val) < 65536 ^ 7 := by
    have := Nat.ofDigits_lt_base_pow_length (b := 65536) (l := gs.reverse.map Fin.val) (by omega)
      (by simp)
    simpa [hlen] using this
  have hvalue : ip.value = Nat.ofDigits 65536 (gs.reverse.map Fin.val) + 65536 ^ 7 * g := by
    rw [IPv6.value, h, List.reverse_cons, List.map_append, Nat.ofDigits_append]
    simp [hlen]
  rw [IPv6.first, hvalue]
  generalize Nat.ofDigits 65536 (gs.reverse.map Fin.val) = low at hlow
  omega

theorem eq_of_cut {text left right : List Char} (h : cut text = some (left, right)) :
    text = left ++ ':' :: ':' :: right := by
  fun_induction cut text generalizing left with
  | case1 => cases h
  | case2 => cases h
  | case3 a b cs hab =>
    obtain ⟨rfl, rfl⟩ := hab
    obtain ⟨rfl, rfl⟩ := Prod.mk.inj (Option.some.inj h)
    rfl
  | case4 a b cs hab ih =>
    obtain ⟨⟨l, r⟩, hcut, heq⟩ := Option.map_eq_some_iff.mp h
    obtain ⟨rfl, rfl⟩ := Prod.mk.inj heq
    rw [ih hcut]
    rfl

theorem ofGroups_eq_some {gs : List (Fin 65536)} {ip : IPv6} (h : ofGroups gs = some ip) :
    ip.groups = gs := by
  rw [ofGroups] at h
  split at h
  · rw [← Option.some.inj h]
  · cases h

/-- Groups that are more than an address of version 4 start with a group. -/
theorem readTail_cons {piece : List Char} {ps : List (List Char)} {gs : List (Fin 65536)}
    (h : readTail (piece :: ps) = some gs) (hlen : 2 < gs.length) :
    ∃ g rest, readGroup piece = some g ∧ gs = g :: rest := by
  cases ps with
  | nil =>
    simp only [readTail, Option.or_eq_some_iff, Option.map_eq_some_iff] at h
    rcases h with ⟨ip, -, rfl⟩ | ⟨-, g, -, rfl⟩
    · simp [IPv4.groups] at hlen
    · simp at hlen
  | cons next ps =>
    simp only [readTail, Option.bind_eq_bind, Option.bind_eq_some_iff, Option.pure_def,
      Option.some.injEq] at h
    obtain ⟨g, hg, rest, -, rfl⟩ := h
    exact ⟨g, rest, hg, rfl⟩

theorem pieces_of_ne_nil {cs : List Char} (h : cs ≠ []) :
    ∃ ps, pieces cs = cs.takeWhile (· ≠ ':') :: ps := by
  rw [pieces, if_neg h]
  exact JsText.split_eq_cons ':' cs

/-- The first group is the one that the text starts with, or zero if it starts with `::`. -/
theorem readIPv6_head {text : List Char} {ip : IPv6} (h : readIPv6 text = some ip) :
    (∃ right, text = ':' :: ':' :: right ∧ ip.first = 0) ∨
      ∃ g, readGroup (text.takeWhile (· ≠ ':')) = some g ∧ ip.first = g := by
  rw [readIPv6] at h
  split at h
  · -- eight pieces: the first of them is no address of version 4
    obtain ⟨gs, hgs, hip⟩ := Option.bind_eq_some_iff.mp h
    have hlen := ip.length_groups
    rw [ofGroups_eq_some hip] at hlen
    right
    rcases eq_or_ne text [] with rfl | hne
    · obtain rfl := Option.some.inj hgs
      cases hlen
    · obtain ⟨ps, hps⟩ := pieces_of_ne_nil hne
      rw [hps] at hgs
      obtain ⟨g, rest, hg, rfl⟩ := readTail_cons hgs (by omega)
      exact ⟨g, hg, first_eq (ofGroups_eq_some hip)⟩
  · rename_i left right hcut
    obtain rfl := eq_of_cut hcut
    simp only [Option.bind_eq_bind, Option.bind_eq_some_iff, Option.ite_none_right_eq_some] at h
    obtain ⟨ls, hls, rs, -, hlt, hip⟩ := h
    have hgroups := ofGroups_eq_some hip
    rcases eq_or_ne left [] with rfl | hne
    · left
      refine ⟨right, rfl, ?_⟩
      obtain rfl : [] = ls := Option.some.inj hls
      obtain ⟨n, hn⟩ : ∃ n, 8 - ([].length + rs.length) = n + 1 := Nat.exists_eq_succ_of_ne_zero (by omega)
      rw [hn, List.replicate_succ] at hgroups
      exact first_eq hgroups
    · right
      obtain ⟨ps, hps⟩ := pieces_of_ne_nil hne
      rw [hps, List.mapM_cons] at hls
      simp only [Option.bind_eq_bind, Option.bind_eq_some_iff, Option.pure_def,
        Option.some.injEq] at hls
      obtain ⟨g, hg, rest, -, rfl⟩ := hls
      have htake : (left ++ ':' :: ':' :: right).takeWhile (· ≠ ':') = left.takeWhile (· ≠ ':') := by
        rw [List.takeWhile_append]
        split
        · rename_i hall
          simpa using ((List.takeWhile_prefix _).eq_of_length hall).symm
        · rfl
      rw [htake]
      exact ⟨g, hg, first_eq hgroups⟩

/-! ### Spellings -/

theorem colon_not_mem_quad (ip : IPv4) : ':' ∉ ip.text := by
  intro h
  have hdigit : ∀ n, ':' ∉ Nat.toDigits 10 n := not_mem_octet (by decide)
  simp [IPv4.text, hdigit] at h

/-- A cut is looked for after what holds no colon. -/
theorem cut_append {part : List Char} (h : ':' ∉ part) (rest : List Char) :
    cut (part ++ rest) = (cut rest).map fun (left, right) => (part ++ left, right) := by
  induction part with
  | nil => simp
  | cons c part ih =>
    obtain ⟨hc, hpart⟩ : ':' ≠ c ∧ ':' ∉ part := by simpa using h
    have hcut : cut (c :: (part ++ rest)) =
        (cut (part ++ rest)).map fun (left, right) => (c :: left, right) := by
      cases part ++ rest with
      | nil => rfl
      | cons d cs => rw [cut, if_neg fun h => hc h.1.symm]
    rw [List.cons_append, hcut, ih hpart, Option.map_map]
    rfl

/-- A dotted quad is no address of version 6. -/
theorem readIPv6_quad (ip : IPv4) : readIPv6 ip.text = none := by
  have hcut : cut (ip.text ++ []) = none := by
    rw [cut_append (colon_not_mem_quad ip)]
    rfl
  have hne : ip.text ≠ [] := by simp [IPv4.text]
  rw [List.append_nil] at hcut
  rw [readIPv6, hcut]
  simp only [pieces, if_neg hne, JsText.split_part (colon_not_mem_quad ip), readTail, readIPv4_text,
    Option.map_some, Option.some_or, Option.bind_some]
  rfl

/-- An address of version 4 after `::ffff:` is embedded. -/
theorem readIPv6_mapped (ip : IPv4) :
    readIPv6 ("::ffff:".toList ++ ip.text) = some ip.mapped := by
  have hcut : cut ("::ffff:".toList ++ ip.text) = some ([], "ffff".toList ++ ':' :: ip.text) := rfl
  have hpieces : pieces ("ffff".toList ++ ':' :: ip.text) = ["ffff".toList, ip.text] := by
    rw [pieces, if_neg (by simp), JsText.split_cons (by decide),
      JsText.split_part (colon_not_mem_quad ip)]
  have hgroup : readGroup "ffff".toList = some 0xffff := by decide
  rw [readIPv6, hcut]
  simp only [hpieces, readTail, hgroup, readIPv4_text]
  rfl

/-- The characters of a piece. -/
theorem mem_of_readGroup {cs : List Char} {g : Fin 65536} (h : readGroup cs = some g) {c : Char}
    (hc : c ∈ cs) : digitValue c < 16 := by
  rw [readGroup, Option.ite_none_right_eq_some] at h
  obtain ⟨n, hn, -⟩ := Option.map_eq_some_iff.mp h.2
  rw [readBase] at hn
  split at hn
  · cases hn
  · rename_i hany
    simp only [Bool.or_eq_true, not_or, List.any_eq_true, not_exists, not_and, decide_eq_true_eq,
      Nat.not_le] at hany
    exact hany.2 c hc

theorem mem_quad {ip : IPv4} {c : Char} (hc : c ∈ ip.text) : JsText.isDigit c ∨ c = '.' := by
  simp only [IPv4.text, List.mem_append, List.mem_cons] at hc
  rcases hc with hc | rfl | hc | rfl | hc | rfl | hc
  · exact .inl (isDigit_of_mem_toDigits hc)
  · exact .inr rfl
  · exact .inl (isDigit_of_mem_toDigits hc)
  · exact .inr rfl
  · exact .inl (isDigit_of_mem_toDigits hc)
  · exact .inr rfl
  · exact .inl (isDigit_of_mem_toDigits hc)

theorem hex_of_isDigit {c : Char} (h : JsText.isDigit c) : digitValue c < 16 := by
  rw [digitValue_of_isDigit h]
  simp only [JsText.isDigit, Bool.and_eq_true, decide_eq_true_eq] at h
  have : c.toNat ≤ 57 := h.2
  omega

theorem mem_of_readTail {ps : List (List Char)} {gs : List (Fin 65536)}
    (h : readTail ps = some gs) {p : List Char} (hp : p ∈ ps) {c : Char} (hc : c ∈ p) :
    digitValue c < 16 ∨ c = '.' := by
  fun_induction readTail ps generalizing gs with
  | case1 => cases hp
  | case2 piece =>
    obtain rfl := List.mem_singleton.mp hp
    simp only [Option.or_eq_some_iff, Option.map_eq_some_iff] at h
    rcases h with ⟨ip, hip, -⟩ | ⟨-, g, hg, -⟩
    · obtain rfl := readIPv4_eq_some.mp hip
      exact (mem_quad hc).imp_left hex_of_isDigit
    · exact .inl (mem_of_readGroup hg hc)
  | case3 piece ps hps ih =>
    simp only [Option.bind_eq_bind, Option.bind_eq_some_iff, Option.pure_def] at h
    obtain ⟨g, hg, rest, hrest, -⟩ := h
    rcases List.mem_cons.mp hp with rfl | hp
    · exact .inl (mem_of_readGroup hg hc)
    · exact ih hrest hp

theorem mem_pieces {cs : List Char} {c : Char} (h : c ∈ cs) :
    c = ':' ∨ ∃ p ∈ pieces cs, c ∈ p := by
  have hjoin : ∀ ps : List (List Char), c ∈ [':'].intercalate ps → c = ':' ∨ ∃ p ∈ ps, c ∈ p := by
    intro ps
    induction ps with
    | nil => simp
    | cons p ps ih =>
      rcases eq_or_ne ps [] with rfl | hne
      · intro hc
        rw [List.intercalate_singleton] at hc
        exact .inr ⟨p, List.mem_cons_self, hc⟩
      · rw [List.intercalate_cons_of_ne_nil hne]
        intro hc
        rcases List.mem_append.mp hc with hc | hc
        · rcases List.mem_append.mp hc with hc | hc
          · exact .inr ⟨p, List.mem_cons_self, hc⟩
          · exact .inl (List.mem_singleton.mp hc)
        · rcases ih hc with rfl | ⟨q, hq, hcq⟩
          · exact .inl rfl
          · exact .inr ⟨q, List.mem_cons_of_mem _ hq, hcq⟩
  rw [pieces, if_neg (List.ne_nil_of_mem h)]
  refine hjoin _ ?_
  rw [JsText.intercalate_split]
  exact h

/-- The characters of an address. -/
theorem mem_of_readIPv6 {text : List Char} {ip : IPv6} (h : readIPv6 text = some ip) {c : Char}
    (hc : c ∈ text) : digitValue c < 16 ∨ c = '.' ∨ c = ':' := by
  have htail : ∀ {cs : List Char} {gs}, readTail (pieces cs) = some gs → c ∈ cs →
      digitValue c < 16 ∨ c = '.' ∨ c = ':' := by
    intro cs gs hgs hmem
    rcases mem_pieces hmem with rfl | ⟨p, hp, hcp⟩
    · exact .inr (.inr rfl)
    · rcases mem_of_readTail hgs hp hcp with hd | rfl
      · exact .inl hd
      · exact .inr (.inl rfl)
  have hgroups : ∀ {ps : List (List Char)} {gs}, ps.mapM readGroup = some gs → ∀ p ∈ ps, c ∈ p →
      digitValue c < 16 := by
    intro ps
    induction ps with
    | nil => simp
    | cons p ps ih =>
      intro gs hgs q hq hcq
      simp only [List.mapM_cons, Option.bind_eq_bind, Option.bind_eq_some_iff] at hgs
      obtain ⟨g, hg, rest, hrest, -⟩ := hgs
      rcases List.mem_cons.mp hq with rfl | hq
      · exact mem_of_readGroup hg hcq
      · exact ih hrest q hq hcq
  rw [readIPv6] at h
  split at h
  · obtain ⟨gs, hgs, -⟩ := Option.bind_eq_some_iff.mp h
    exact htail hgs hc
  · rename_i left right hcut
    simp only [Option.bind_eq_bind, Option.bind_eq_some_iff] at h
    obtain ⟨ls, hls, rs, hrs, -⟩ := h
    rw [eq_of_cut hcut] at hc
    simp only [List.mem_append, List.mem_cons] at hc
    rcases hc with hc | rfl | rfl | hc
    · rcases mem_pieces hc with rfl | ⟨p, hp, hcp⟩
      · exact .inr (.inr rfl)
      · exact .inl (hgroups hls p hp hcp)
    · exact .inr (.inr rfl)
    · exact .inr (.inr rfl)
    · exact htail hrs hc

theorem toNat_of_digitValue {c : Char} (h : digitValue c < 16) : c.toNat < 128 := by
  by_contra hge
  have h1 : JsText.isDigit c = false := by
    rw [JsText.isDigit, Bool.and_eq_false_iff]
    right
    exact decide_eq_false fun hle => hge (lt_of_le_of_lt (show c.toNat ≤ 57 from hle) (by omega))
  have h2 : ¬ c ≤ 'f' := fun hle => hge (lt_of_le_of_lt (show c.toNat ≤ 102 from hle) (by omega))
  have h3 : ¬ c ≤ 'F' := fun hle => hge (lt_of_le_of_lt (show c.toNat ≤ 70 from hle) (by omega))
  simp [digitValue, h1, h2, h3] at h

/-- A digit in lower case. -/
theorem toLower_of_digitValue {c : Char} (h : digitValue c < 16) :
    c.toLower = (digitValue c).digitChar := by
  have hall : ∀ n < 128, digitValue (Char.ofNat n) < 16 →
      (Char.ofNat n).toLower = (digitValue (Char.ofNat n)).digitChar := by decide
  have := hall c.toNat (toNat_of_digitValue h)
  rw [Char.ofNat_toNat] at this
  exact this h

theorem noSpace_of_digitValue {c : Char} (h : digitValue c < 16) : JsText.isSpace c = false := by
  have hall : ∀ n < 128, digitValue (Char.ofNat n) < 16 → JsText.isSpace (Char.ofNat n) = false := by
    decide
  have := hall c.toNat (toNat_of_digitValue h)
  rw [Char.ofNat_toNat] at this
  exact this h

/-- As many digits as these stay below that power. -/
theorem foldl_lt {ds : List ℕ} {n k : ℕ} (hds : ∀ d ∈ ds, d < 16) (hn : n < 16 ^ k) :
    ds.foldl (fun n d => n * 16 + d) n < 16 ^ (k + ds.length) := by
  induction ds generalizing n k with
  | nil => exact hn
  | cons d ds ih =>
    have hd := hds d List.mem_cons_self
    have hstep : n * 16 + d < 16 ^ (k + 1) := by
      rw [pow_succ]
      omega
    have := ih (fun e he => hds e (List.mem_cons_of_mem _ he)) hstep
    rwa [Nat.add_right_comm] at this

/-- The digits of a group, whatever their case, and the value they have. -/
theorem readGroup_digits {cs : List Char} {g : Fin 65536} (h : readGroup cs = some g) :
    ∃ ds : List ℕ, (∀ d ∈ ds, d < 16) ∧ cs.map Char.toLower = ds.map Nat.digitChar ∧
      ds.length ≤ 4 ∧ ds ≠ [] ∧ g.val = ds.foldl (fun n d => n * 16 + d) 0 := by
  have hdigit : ∀ c ∈ cs, digitValue c < 16 := fun c hc => mem_of_readGroup h hc
  rw [readGroup, Option.ite_none_right_eq_some] at h
  obtain ⟨hlen, h⟩ := h
  obtain ⟨n, hn, rfl⟩ := Option.map_eq_some_iff.mp h
  rw [readBase] at hn
  split at hn
  · cases hn
  · rename_i hany
    have hne : cs ≠ [] := by
      rintro rfl
      exact hany rfl
    refine ⟨cs.map digitValue, ?_, ?_, by simpa using hlen, by simpa using hne, ?_⟩
    · intro d hd
      obtain ⟨c, hc, rfl⟩ := List.mem_map.mp hd
      exact hdigit c hc
    · rw [List.map_map]
      exact List.map_congr_left fun c hc => toLower_of_digitValue (hdigit c hc)
    · have hdigits : ∀ d ∈ cs.map digitValue, d < 16 := by
        intro d hd
        obtain ⟨c, hc, rfl⟩ := List.mem_map.mp hd
        exact hdigit c hc
      have hlt : (cs.map digitValue).foldl (fun n d => n * 16 + d) 0 <
          16 ^ (0 + (cs.map digitValue).length) := foldl_lt hdigits (by simp)
      have hle : 16 ^ (0 + (cs.map digitValue).length) ≤ 16 ^ 4 :=
        Nat.pow_le_pow_right (by omega) (by simpa using hlen)
      obtain rfl := Option.some.inj hn
      rw [List.foldl_map] at hlt ⊢
      exact Nat.mod_eq_of_lt (lt_of_lt_of_le hlt hle)

/-! ### The text of a URL -/

/-- A group in lower case and without leading zeros. -/
def groupText (g : Fin 65536) : List Char := Nat.toDigits 16 g

/-- Groups with colons between them. -/
def joined (gs : List (Fin 65536)) : List Char := [':'].intercalate (gs.map groupText)

/-- Where the first of the longest rows of zero groups starts, and its length. -/
def longestRun : List (Fin 65536) → ℕ × ℕ
  | [] => (0, 0)
  | g :: gs =>
    let (i, n) := longestRun gs
    let zeros := ((g :: gs).takeWhile (· = 0)).length
    if n ≤ zeros then (0, zeros) else (i + 1, n)

/-- The text of an address in a URL: `::` for the first of the longest rows of two or more zero
groups. -/
def IPv6.text (ip : IPv6) : List Char :=
  let (i, n) := longestRun ip.groups
  if n < 2 then joined ip.groups
  else joined (ip.groups.take i) ++ ':' :: ':' :: joined (ip.groups.drop (i + n))

theorem digitValue_digitChar : ∀ n < 16, digitValue n.digitChar = n := by decide

/-- The digits of a number are those of its quotient and its last one. -/
theorem toDigits_induct {P : ℕ → List Char → Prop} (hlow : ∀ n < 16, P n [n.digitChar])
    (hstep : ∀ n m, m < 16 → P n (Nat.toDigits 16 n) →
      P (16 * n + m) (Nat.toDigits 16 n ++ [m.digitChar])) (n : ℕ) : P n (Nat.toDigits 16 n) := by
  induction n using Nat.strongRecOn with
  | ind n ih =>
    rcases Nat.lt_or_ge n 16 with hlt | hge
    · rw [Nat.toDigits_of_lt_base hlt]
      exact hlow n hlt
    · rw [Nat.toDigits_of_base_le (by omega) hge]
      have := hstep (n / 16) (n % 16) (by omega) (ih (n / 16) (by omega))
      rwa [Nat.div_add_mod] at this

theorem hex_of_mem_toDigits {n : ℕ} {c : Char} (hc : c ∈ Nat.toDigits 16 n) :
    digitValue c < 16 ∧ c ≠ ':' ∧ c ≠ '.' := by
  have hdigit : ∀ n < 16, digitValue n.digitChar < 16 ∧ n.digitChar ≠ ':' ∧ n.digitChar ≠ '.' := by
    decide
  induction n using toDigits_induct with
  | hlow n hn =>
    rw [List.mem_singleton.mp hc]
    exact hdigit n hn
  | hstep n m hm ih =>
    rcases List.mem_append.mp hc with hc | hc
    · exact ih hc
    · rw [List.mem_singleton.mp hc]
      exact hdigit m hm

theorem readBase_hex (n : ℕ) : readBase 16 (Nat.toDigits 16 n) = some n := by
  have hany : ((Nat.toDigits 16 n).any fun c => 16 ≤ digitValue c) = false := by
    refine List.any_eq_false.mpr fun c hc => ?_
    have := (hex_of_mem_toDigits hc).1
    simpa using this
  have hfold : (Nat.toDigits 16 n).foldl (fun n c => n * 16 + digitValue c) 0 = n := by
    clear hany
    induction n using toDigits_induct with
    | hlow n hn => simp [digitValue_digitChar n hn]
    | hstep n m hm ih =>
      rw [List.foldl_append, ih]
      simp [digitValue_digitChar m hm, Nat.mul_comm]
  rw [readBase, hany, Bool.or_false, List.isEmpty_eq_false_iff.mpr Nat.toDigits_ne_nil,
    if_neg (by decide), hfold]

@[simp] theorem readGroup_groupText (g : Fin 65536) : readGroup (groupText g) = some g := by
  have hlen : (Nat.toDigits 16 g).length ≤ 4 :=
    (Nat.length_toDigits_le_iff (by omega) (by omega)).mpr (by omega)
  rw [readGroup, groupText, if_pos hlen, readBase_hex]
  simp

theorem colon_not_mem (g : Fin 65536) : ':' ∉ groupText g := fun h => (hex_of_mem_toDigits h).2.1 rfl

theorem dot_not_mem (g : Fin 65536) : '.' ∉ groupText g := fun h => (hex_of_mem_toDigits h).2.2 rfl

@[simp] theorem joined_nil : joined [] = [] := rfl

@[simp] theorem joined_singleton (g : Fin 65536) : joined [g] = groupText g := by
  simp [joined, List.intercalate]

theorem joined_cons (g h : Fin 65536) (gs : List (Fin 65536)) :
    joined (g :: h :: gs) = groupText g ++ ':' :: joined (h :: gs) := by
  simp [joined, List.intercalate]

/-- Groups start with a digit. -/
theorem joined_head (g : Fin 65536) (gs : List (Fin 65536)) :
    ∃ c cs, joined (g :: gs) = c :: cs ∧ c ≠ ':' := by
  obtain ⟨c, cs, hcs⟩ : ∃ c cs, groupText g = c :: cs :=
    List.exists_cons_of_ne_nil Nat.toDigits_ne_nil
  have hc : c ≠ ':' := by
    rintro rfl
    exact colon_not_mem g (hcs ▸ List.mem_cons_self)
  cases gs with
  | nil => exact ⟨c, cs, by rw [joined_singleton, hcs], hc⟩
  | cons h gs => exact ⟨c, cs ++ ':' :: joined (h :: gs), by rw [joined_cons, hcs]; rfl, hc⟩

theorem pieces_joined (gs : List (Fin 65536)) :
    pieces (joined gs) = gs.map groupText := by
  cases gs with
  | nil => rfl
  | cons g gs =>
    have hne : joined (g :: gs) ≠ [] := by
      obtain ⟨c, cs, h, -⟩ := joined_head g gs
      rw [h]
      exact List.cons_ne_nil c cs
    rw [pieces, if_neg hne]
    clear hne
    induction gs generalizing g with
    | nil => rw [joined_singleton, JsText.split_part (colon_not_mem g)]; rfl
    | cons h gs ih => rw [joined_cons, JsText.split_cons (colon_not_mem g), ih h]; rfl

theorem readIPv4_groupText (g : Fin 65536) : readIPv4 (groupText g) = none := by
  simp [readIPv4, JsText.split_part (dot_not_mem g)]

theorem readGroups_hex (gs : List (Fin 65536)) :
    (gs.map groupText).mapM readGroup = some gs := by
  induction gs with
  | nil => rfl
  | cons g gs ih => simp [ih]

theorem readTail_hex (gs : List (Fin 65536)) :
    readTail (gs.map groupText) = some gs := by
  induction gs with
  | nil => rfl
  | cons g gs ih =>
    cases gs with
    | nil => simp [readTail, readIPv4_groupText]
    | cons h gs =>
      rw [List.map_cons] at ih
      rw [List.map_cons, List.map_cons, readTail, ih, readGroup_groupText]
      · rfl
      · simp

theorem cut_joined (gs : List (Fin 65536)) (rest : List Char) :
    cut (joined gs ++ rest) = (cut rest).map fun (left, right) => (joined gs ++ left, right) := by
  induction gs with
  | nil => simp
  | cons g gs ih =>
    cases gs with
    | nil => rw [joined_singleton, cut_append (colon_not_mem g)]
    | cons h gs =>
      have hcolon : cut (':' :: (joined (h :: gs) ++ rest)) =
          (cut (joined (h :: gs) ++ rest)).map fun (left, right) => (':' :: left, right) := by
        obtain ⟨c, cs, hcs, hc⟩ := joined_head h gs
        rw [hcs, List.cons_append, cut, if_neg fun h => hc h.2]
      rw [joined_cons, List.append_assoc, cut_append (colon_not_mem g), List.cons_append, hcolon, ih,
        Option.map_map, Option.map_map]
      congr 1
      funext ⟨left, right⟩
      simp

/-- The row it finds. -/
theorem longestRun_spec (gs : List (Fin 65536)) :
    ∃ front rest, front.length = (longestRun gs).1 ∧
      gs = front ++ (List.replicate (longestRun gs).2 0 ++ rest) := by
  induction gs with
  | nil => exact ⟨[], [], rfl, rfl⟩
  | cons g gs ih =>
    simp only [longestRun]
    split
    · have hzeros : List.replicate ((g :: gs).takeWhile (· = 0)).length 0 =
          (g :: gs).takeWhile (· = 0) := by
        refine (List.eq_replicate_of_mem fun x hx => ?_).symm
        simpa using List.mem_takeWhile_imp hx
      refine ⟨[], (g :: gs).dropWhile (· = 0), rfl, ?_⟩
      rw [List.nil_append, hzeros, List.takeWhile_append_dropWhile]
    · obtain ⟨front, rest, hlen, hgs⟩ := ih
      refine ⟨g :: front, rest, by rw [List.length_cons, hlen], ?_⟩
      rw [List.cons_append, ← hgs]

/-- **The text of an address is read back.** -/
@[simp] theorem readIPv6_text (ip : IPv6) : readIPv6 ip.text = some ip := by
  have hlen := ip.length_groups
  obtain ⟨front, rest, hfront, hgroups⟩ := longestRun_spec ip.groups
  rw [IPv6.text]
  generalize longestRun ip.groups = run at hfront hgroups
  obtain ⟨i, n⟩ := run
  obtain rfl : front.length = i := hfront
  simp only at hgroups ⊢
  split
  · have hcut : cut (joined ip.groups ++ []) = none := by
      rw [cut_joined]
      rfl
    rw [List.append_nil] at hcut
    rw [readIPv6, hcut]
    simp [pieces_joined, readTail_hex, ofGroups, hlen]
  · have htake : ip.groups.take front.length = front := by rw [hgroups, List.take_left]
    have hdrop : ip.groups.drop (front.length + n) = rest := by
      rw [← List.drop_drop, hgroups, List.drop_left, List.drop_left' List.length_replicate]
    have hcut : cut (joined front ++ ':' :: ':' :: joined rest) =
        some (joined front, joined rest) := by
      rw [cut_joined]
      simp [cut]
    have hcount : 8 - (front.length + rest.length) = n := by
      have := congrArg List.length hgroups
      simp only [hlen, List.length_append, List.length_replicate] at this
      omega
    rw [htake, hdrop, readIPv6, hcut]
    simp only [pieces_joined, readGroups_hex, readTail_hex, hcount, Option.bind_eq_bind,
      Option.bind_some]
    rw [if_pos (by omega), List.append_assoc, ← hgroups, ofGroups, dif_pos hlen]

theorem value_injective {ip ip' : IPv6} (h : ip.value = ip'.value) : ip = ip' := by
  have hlen : (ip.groups.reverse.map Fin.val).length = (ip'.groups.reverse.map Fin.val).length := by
    simp [ip.length_groups, ip'.length_groups]
  have hlt : ∀ gs : List (Fin 65536), ∀ n ∈ gs.map Fin.val, n < 65536 := by
    intro gs n hn
    obtain ⟨g, -, rfl⟩ := List.mem_map.mp hn
    exact g.isLt
  have hmap := Nat.ofDigits_inj_of_len_eq (by omega) hlen (hlt _) (hlt _) h
  have hgroups : ip.groups = ip'.groups :=
    List.reverse_injective (List.map_injective_iff.mpr (fun _ _ => Fin.ext) hmap)
  obtain ⟨groups, hg⟩ := ip
  cases hgroups
  rfl

theorem takeWhile_groupText (g : Fin 65536) (rest : List Char) :
    (groupText g ++ ':' :: rest).takeWhile (· ≠ ':') = groupText g := by
  rw [List.takeWhile_append_of_pos fun c hc => ?_]
  · simp
  · simpa using fun e : c = ':' => colon_not_mem g (e ▸ hc)

/-- The first group of the text, unless the text starts with `::`. -/
theorem text_start (ip : IPv6) : (∃ rest, ip.text = ':' :: ':' :: rest ∧ ip.first = 0) ∨
    ip.text.takeWhile (· ≠ ':') = Nat.toDigits 16 ip.first := by
  obtain ⟨front, rest, hfront, hgroups⟩ := longestRun_spec ip.groups
  rw [IPv6.text]
  have hlen := ip.length_groups
  generalize longestRun ip.groups = run at hfront hgroups
  obtain ⟨i, n⟩ := run
  simp only at hfront hgroups ⊢
  split
  · right
    match hg : ip.groups with
    | [] | [_] => simp [hg] at hlen
    | g :: h :: gs => rw [joined_cons, takeWhile_groupText, first_eq hg, groupText]
  · rename_i htwo
    cases front with
    | nil =>
      left
      obtain ⟨m, rfl⟩ : ∃ m, n = m + 1 := Nat.exists_eq_succ_of_ne_zero (by omega)
      obtain rfl := hfront
      exact ⟨_, rfl, first_eq hgroups⟩
    | cons g front =>
      right
      have htake : ip.groups.take i = g :: front := by rw [hgroups, ← hfront, List.take_left]
      rw [htake, first_eq hgroups, ← groupText]
      cases front with
      | nil => rw [joined_singleton, takeWhile_groupText]
      | cons h front =>
        rw [joined_cons, List.append_assoc, List.cons_append, takeWhile_groupText]

theorem dot_not_mem_joined (gs : List (Fin 65536)) : '.' ∉ joined gs := by
  induction gs with
  | nil => simp
  | cons g gs ih =>
    cases gs with
    | nil => simpa using dot_not_mem g
    | cons h gs => simp [joined_cons, dot_not_mem g, ih]

theorem dot_not_mem_text (ip : IPv6) : '.' ∉ ip.text := by
  rw [IPv6.text]
  generalize longestRun ip.groups = run
  obtain ⟨i, n⟩ := run
  simp only
  split
  · exact dot_not_mem_joined _
  · simp [dot_not_mem_joined]

end IpAddress
