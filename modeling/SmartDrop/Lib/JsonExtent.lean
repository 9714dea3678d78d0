/-
# How long a JSON text has to be

The strings of a value are shorter than every text that it is read from: each character of a string
takes up a character of the text at least, and its quotes take up two.  So a string is never the value
of its own text, nor is it in there.
-/
import SmartDrop.Lib.JsonRoundTrip

namespace JsonText

/-! ## 1. The extent of a value -/

mutual

/-- How much of a text the strings of a value take up, without their closing quotes. -/
def Json.extent : Json → ℕ
  | .str s => s.toList.length + 1
  | .arr xs => elemsExtent xs
  | .obj fields => fieldsExtent fields
  | _ => 0

def elemsExtent : List Json → ℕ
  | [] => 0
  | x :: xs => x.extent + elemsExtent xs

def fieldsExtent : List (String × Json) → ℕ
  | [] => 0
  | (_, v) :: fields => v.extent + fieldsExtent fields

end

theorem extent_le_of_mem {key : String} {v : Json} {fields : List (String × Json)}
    (h : (key, v) ∈ fields) : v.extent ≤ fieldsExtent fields := by
  induction fields with
  | nil => cases h
  | cons field fields ih =>
    obtain ⟨k, w⟩ := field
    simp only [fieldsExtent]
    rcases List.mem_cons.mp h with he | hmem
    · cases he
      omega
    · have := ih hmem
      omega

/-- A field that is read is one of the fields. -/
theorem Json.mem_of_get? {v w : Json} {key : String} (h : v.get? key = some w) :
    ∃ fields, v = .obj fields ∧ (key, w) ∈ fields := by
  cases v with
  | obj fields =>
    obtain ⟨⟨k, w'⟩, hfind, rfl⟩ := Option.map_eq_some_iff.mp h
    have hkey : k = key := by simpa using List.find?_some hfind
    exact ⟨fields, rfl, hkey ▸ List.mem_reverse.mp (List.mem_of_find?_eq_some hfind)⟩
  | _ => cases h

theorem Json.extent_get? {v w : Json} {key : String} (h : v.get? key = some w) :
    w.extent ≤ v.extent := by
  obtain ⟨fields, rfl, hmem⟩ := mem_of_get? h
  exact extent_le_of_mem hmem

/-- A field of a value is another value. -/
theorem Json.get?_ne_self (v : Json) (key : String) : v.get? key ≠ some v := by
  intro h
  obtain ⟨fields, hv, hmem⟩ := mem_of_get? h
  have hfield := List.sizeOf_lt_of_mem hmem
  have hvalue := congrArg sizeOf hv
  simp only [Json.obj.sizeOf_spec, Prod.mk.sizeOf_spec] at hfield hvalue
  omega

/-! ## 2. What is read -/

theorem skip_length_le (cs : List Char) : (skip cs).length ≤ cs.length :=
  (List.dropWhile_sublist _).length_le

/-- Each character of a string takes up one of the text at least, and the closing quote one more. -/
theorem readString_length {cs : List Char} {p : List Char × List Char} (h : readString cs = some p) :
    p.1.length + p.2.length < cs.length := by
  fun_induction readString cs generalizing p
  case case2 =>
    cases h
    simp
  case case4 | case6 | case8 | case14 =>
    rename_i ih
    obtain ⟨q, hq, rfl⟩ := Option.map_eq_some_iff.mp h
    have hlt := ih hq
    simp only [List.length_cons]
    omega
  all_goals cases h

theorem readNumber_length {cs : List Char} {p : Literal × List Char} (h : readNumber cs = some p) :
    p.2.length ≤ cs.length := by
  unfold readNumber at h
  split at h
  · cases h
    exact (List.dropWhile_sublist _).length_le
  · cases h

/-- What is read with so much fuel, and what is left, are together not longer than the text. -/
structure Fits (n : ℕ) : Prop where
  value : ∀ cs v r, readValue n cs = some (v, r) → v.extent + r.length ≤ cs.length
  elems : ∀ cs vs r, readElems n cs = some (vs, r) → elemsExtent vs + r.length ≤ cs.length
  fields : ∀ cs fs r, readFields n cs = some (fs, r) → fieldsExtent fs + r.length ≤ cs.length

section Step

variable {n : ℕ} {cs r : List Char}

theorem Fits.readValue (ih : Fits n) {v : Json} (h : readValue (n + 1) cs = some (v, r)) :
    v.extent + r.length ≤ cs.length := by
  have hskip := skip_length_le cs
  rw [JsonText.readValue] at h
  split at h
  case h_1 r' heq | h_2 r' heq | h_3 r' heq =>
    cases h
    simp only [heq, List.length_cons] at hskip
    simp only [Json.extent]
    omega
  case h_4 r' heq =>
    obtain ⟨p, hp, he⟩ := Option.map_eq_some_iff.mp h
    cases he
    have hlt := readString_length hp
    simp only [heq, List.length_cons] at hskip
    simp only [Json.extent, String.toList_ofList]
    omega
  case h_5 r' heq =>
    have hskip' := skip_length_le r'
    simp only [heq, List.length_cons] at hskip
    split at h
    · rename_i r₁ heq'
      cases h
      simp only [heq', List.length_cons] at hskip'
      simp only [Json.extent, elemsExtent]
      omega
    · obtain ⟨p, hp, he⟩ := Option.map_eq_some_iff.mp h
      cases he
      have helems := ih.elems r' p.1 p.2 hp
      simp only [Json.extent]
      omega
  case h_6 r' heq =>
    have hskip' := skip_length_le r'
    simp only [heq, List.length_cons] at hskip
    split at h
    · rename_i r₁ heq'
      cases h
      simp only [heq', List.length_cons] at hskip'
      simp only [Json.extent, fieldsExtent]
      omega
    · obtain ⟨p, hp, he⟩ := Option.map_eq_some_iff.mp h
      cases he
      have hfields := ih.fields r' p.1 p.2 hp
      simp only [Json.extent]
      omega
  case h_7 =>
    obtain ⟨p, hp, he⟩ := Option.map_eq_some_iff.mp h
    cases he
    have hlt := readNumber_length hp
    simp only [Json.extent]
    omega

theorem Fits.readElems (ih : Fits n) {vs : List Json} (h : readElems (n + 1) cs = some (vs, r)) :
    elemsExtent vs + r.length ≤ cs.length := by
  rw [JsonText.readElems] at h
  cases hv : JsonText.readValue n cs with
  | none => simp [hv] at h
  | some p =>
    have hvalue := ih.value cs p.1 p.2 hv
    have hskip := skip_length_le p.2
    simp only [hv] at h
    split at h
    case h_1 r' heq =>
      obtain ⟨q, hq, he⟩ := Option.map_eq_some_iff.mp h
      cases he
      have helems := ih.elems r' q.1 q.2 hq
      simp only [heq, List.length_cons] at hskip
      simp only [elemsExtent]
      omega
    case h_2 r' heq =>
      cases h
      simp only [heq, List.length_cons] at hskip
      simp only [elemsExtent]
      omega
    case h_3 => cases h

theorem Fits.readFields (ih : Fits n) {fs : List (String × Json)}
    (h : readFields (n + 1) cs = some (fs, r)) : fieldsExtent fs + r.length ≤ cs.length := by
  have hskip := skip_length_le cs
  rw [JsonText.readFields] at h
  split at h
  case h_2 => cases h
  case h_1 r' heq =>
    simp only [heq, List.length_cons] at hskip
    cases hk : readString r' with
    | none => simp [hk] at h
    | some p =>
      have hkey := readString_length hk
      have hcolon := skip_length_le p.2
      simp only [hk] at h
      split at h
      case h_2 => cases h
      case h_1 r₂ heq₁ =>
        simp only [heq₁, List.length_cons] at hcolon
        cases hv : JsonText.readValue n r₂ with
        | none => simp [hv] at h
        | some q =>
          have hvalue := ih.value r₂ q.1 q.2 hv
          have hcomma := skip_length_le q.2
          simp only [hv] at h
          split at h
          case h_1 r₄ heq₂ =>
            obtain ⟨z, hz, he⟩ := Option.map_eq_some_iff.mp h
            cases he
            have hfields := ih.fields r₄ z.1 z.2 hz
            simp only [heq₂, List.length_cons] at hcomma
            simp only [fieldsExtent]
            omega
          case h_2 r₄ heq₂ =>
            cases h
            simp only [heq₂, List.length_cons] at hcomma
            simp only [fieldsExtent]
            omega
          case h_3 => cases h

end Step

theorem fits (n : ℕ) : Fits n := by
  induction n with
  | zero =>
    constructor
    all_goals
      intro _ _ _ h
      cases h
  | succ n ih => exact ⟨fun _ _ _ => ih.readValue, fun _ _ _ => ih.readElems, fun _ _ _ => ih.readFields⟩

/-- **The strings of a value are not longer than the text that it is read from.** -/
theorem extent_parse {text : String} {v : Json} (h : parse text = some v) :
    v.extent ≤ text.toList.length := by
  unfold parse at h
  split at h
  · rename_i w r hread
    have hfits := (fits _).value _ _ _ hread
    split at h
    · cases h
      omega
    · cases h
  · cases h

/-- A text is no string of the value that is read from it. -/
theorem ne_of_parse {text : String} {v w : Json} (h : parse text = some v)
    (hw : w.extent ≤ v.extent) : w ≠ .str text := by
  rintro rfl
  have hle := extent_parse h
  simp only [Json.extent] at hw
  omega

end JsonText
