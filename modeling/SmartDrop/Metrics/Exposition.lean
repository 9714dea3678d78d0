/-
# The metrics page is well formed

Of the samples that `serialize` emits no two may have one name and one label set, since a scraper rejects the page
then.  The samples of a metric are told apart by the JSON texts of their label objects, and these say more than the
label sets do: the order of the keys, `1` and `'1'`, `null` and `''`.  A histogram sets the label `le` of its
buckets over one that the object has, and emits names of its own, which another metric can have.

`run_wellFormed` says that nothing else goes wrong: as long as every operation is clear of these (`Clear`), the
page is well formed.  The bucket counts and the escaping are right in any case (`run_counted`,
`readValue_escape`).
-/
import SmartDrop.Metrics.Registry
import SmartDrop.Lib.Run

namespace SmartDrop.Metrics

open JsNumber Conc

/-! ## 1. Escaping -/

/-- The value of a label up to its closing quote, and what follows. -/
def readValue : List Char → Option (List Char × List Char)
  | [] => none
  | '"' :: cs => some ([], cs)
  | '\\' :: '\\' :: cs => (readValue cs).map fun p => ('\\' :: p.1, p.2)
  | '\\' :: '"' :: cs => (readValue cs).map fun p => ('"' :: p.1, p.2)
  | '\\' :: 'n' :: cs => (readValue cs).map fun p => ('\n' :: p.1, p.2)
  | c :: cs => if c = '\\' ∨ c = '\n' then none else (readValue cs).map fun p => (c :: p.1, p.2)

/-- A character of a label's value. -/
def escapeChar (c : Char) : List Char :=
  if c = '\\' then ['\\', '\\'] else if c = '"' then ['\\', '"'] else if c = '\n' then ['\\', 'n'] else [c]

theorem escapeLabelValue_eq (val : LabelValue) : escapeLabelValue val = val.shown.flatMap escapeChar := by
  rw [escapeLabelValue, replaceAll, replaceAll, replaceAll, List.flatMap_assoc, List.flatMap_assoc]
  refine congrArg (List.flatMap · val.shown) (funext fun c => ?_)
  rw [escapeChar]
  by_cases hslash : c = '\\'
  · rw [if_pos hslash, if_pos hslash]
    decide
  · rw [if_neg hslash, if_neg hslash, List.flatMap_singleton]
    by_cases hquote : c = '"'
    · rw [if_pos hquote, if_pos hquote]
      decide
    · rw [if_neg hquote, if_neg hquote, List.flatMap_singleton]

/-- **Escaping is undone**, and the value ends where its quotes do. -/
theorem readValue_escape (val : LabelValue) (rest : List Char) :
    readValue (escapeLabelValue val ++ '"' :: rest) = some (val.shown, rest) := by
  rw [escapeLabelValue_eq]
  induction val.shown with
  | nil => rfl
  | cons c cs ih =>
    rw [List.flatMap_cons, List.append_assoc, escapeChar]
    by_cases hslash : c = '\\'
    · rw [if_pos hslash, hslash]
      change (readValue (cs.flatMap escapeChar ++ '"' :: rest)).map _ = _
      rw [ih]
      rfl
    · rw [if_neg hslash]
      by_cases hquote : c = '"'
      · rw [if_pos hquote, hquote]
        change (readValue (cs.flatMap escapeChar ++ '"' :: rest)).map _ = _
        rw [ih]
        rfl
      · rw [if_neg hquote]
        by_cases hbreak : c = '\n'
        · rw [if_pos hbreak, hbreak]
          change (readValue (cs.flatMap escapeChar ++ '"' :: rest)).map _ = _
          rw [ih]
          rfl
        · rw [if_neg hbreak, List.singleton_append, readValue, if_neg (by simp [hslash, hbreak]), ih]
          · rfl
          · exact hquote
          · exact fun _ h => absurd h hslash
          · exact fun _ h => absurd h hslash
          · exact fun _ h => absurd h hslash

/-! ## 2. Bucket counts -/

/-- What the buckets of an entry are like: they have the histogram's bounds, the counts do not decrease and are at
most that of `+Inf`, which is the number of observations. -/
structure Cumulative (buckets : Buckets) (entry : Entry) : Prop where
  bounds : entry.bucketCounts.map Prod.fst = buckets.bounds
  sorted : (entry.bucketCounts.map Prod.snd).Pairwise (· ≤ ·)
  le_inf : ∀ b ∈ entry.bucketCounts, b.2 ≤ entry.inf
  inf_eq : entry.inf = entry.count

/-- What is in a bucket is in every greater one. -/
theorem atMost_of_less {val a b : Number} (h : atMost val a = true) (hab : a.less b = true) :
    atMost val b = true := by
  cases val with
  | nan => cases h
  | infinity negative =>
    cases a with
    | nan => cases h
    | infinity negative' => cases b <;> cases negative <;> cases negative' <;> simp_all [atMost, Number.less]
    | finite q => cases b <;> cases negative <;> simp_all [atMost, Number.less]
  | finite v =>
    cases a with
    | nan => cases h
    | infinity negative => cases b <;> cases negative <;> simp_all [atMost, Number.less]
    | finite q =>
      cases b with
      | nan => cases hab
      | infinity negative => cases negative <;> simp_all [atMost, Number.less]
      | finite r =>
        simp only [atMost, Number.less, Bool.not_eq_true', decide_eq_false_iff_not, not_lt,
          decide_eq_true_eq] at h hab ⊢
        exact h.trans hab.le

theorem cumulative_newEntry (buckets : Buckets) (labels : Labels) :
    Cumulative buckets (newEntry buckets labels) := by
  have hzero : ∀ b ∈ (newEntry buckets labels).bucketCounts, b.2 = 0 := by
    intro b hb
    obtain ⟨_, -, rfl⟩ := List.mem_map.mp hb
    rfl
  constructor
  · rw [newEntry, List.map_map]
    exact List.map_id _
  · refine List.pairwise_map.mpr (List.pairwise_of_forall_mem_list fun a ha b hb => ?_)
    rw [hzero a ha, hzero b hb]
  · exact fun b hb => (hzero b hb).le
  · rfl

theorem Cumulative.observe {buckets : Buckets} {entry : Entry} (h : Cumulative buckets entry) (val : Number) :
    Cumulative buckets (entry.observe val) := by
  have hless : entry.bucketCounts.Pairwise fun a b => a.1.less b.1 = true :=
    List.pairwise_map.mp (h.bounds ▸ buckets.ascending)
  constructor
  · rw [← h.bounds, Entry.observe, List.map_map]
    refine List.map_congr_left fun b _ => ?_
    rw [Function.comp_apply]
    split <;> rfl
  · rw [Entry.observe, List.pairwise_map, List.pairwise_map]
    refine (hless.and (List.pairwise_map.mp h.sorted)).imp fun {a b} hab => ?_
    split
    · rename_i hval
      rw [if_pos (atMost_of_less hval hab.1)]
      exact Nat.succ_le_succ hab.2
    · split
      · exact Nat.le_succ_of_le hab.2
      · exact hab.2
  · intro b hb
    obtain ⟨a, ha, rfl⟩ := List.mem_map.mp hb
    have hle := h.le_inf a ha
    split
    · exact Nat.succ_le_succ hle
    · exact Nat.le_succ_of_le hle
  · exact congrArg (· + 1) h.inf_eq

/-! ## 3. Label sets -/

/-- Two label objects have one label set: the same names with the same texts. -/
def Same (a b : Labels) : Prop := ∀ k, (a.get? k).map LabelValue.shown = (b.get? k).map LabelValue.shown

/-- They have, but for the label `le`. -/
def SameApart (a b : Labels) : Prop :=
  ∀ k, k ≠ "le" → (a.get? k).map LabelValue.shown = (b.get? k).map LabelValue.shown

/-- The label objects that a metric keeps, each with its JSON text. -/
def Data.kept : Data → List (String × Labels)
  | .counter values | .gauge values => values.entries.map fun e => (e.1, e.2.labels)
  | .histogram _ entries => entries.entries.map fun e => (e.1, e.2.labels)

def Data.isHistogram : Data → Bool
  | .histogram _ _ => true
  | _ => false

/-- The samples for two label objects would be the same. -/
def Data.Alike (data : Data) (a b : Labels) : Prop := if data.isHistogram then SameApart a b else Same a b

/-- No label object that the metric keeps under another JSON text has the same label set. -/
def Data.Fresh (data : Data) (labels : Labels) (key : String) : Prop :=
  ∀ a ∈ data.kept, a.1 ≠ key → ¬ data.Alike a.2 labels

/-- A label object's JSON text is known, or it is fresh. -/
def Data.Accepts (data : Data) (labels : Labels) : Prop :=
  ∀ key, stringify labels = some key → key ∈ data.kept.map Prod.fst ∨ data.Fresh labels key

theorem Same.symm {a b : Labels} (h : Same a b) : Same b a := fun k => (h k).symm

theorem SameApart.symm {a b : Labels} (h : SameApart a b) : SameApart b a := fun k hk => (h k hk).symm

theorem Data.alike_symm {data : Data} {a b : Labels} (h : data.Alike a b) : data.Alike b a := by
  by_cases hist : data.isHistogram = true
  · rw [Data.Alike, if_pos hist] at h ⊢
    exact h.symm
  · rw [Data.Alike, if_neg hist] at h ⊢
    exact h.symm

/-! ## 4. One operation -/

/-- The buckets of a histogram are right. -/
def Data.Counted (data : Data) : Prop :=
  ∀ buckets entries, data = .histogram buckets entries → ∀ e ∈ entries.entries, Cumulative buckets e.2

/-- What a metric's data are like: no two label objects would give the same samples, each was given to an operation,
and the buckets are right. -/
structure Data.Good (given : Labels → Prop) (data : Data) : Prop where
  nodup : (data.kept.map Prod.fst).Nodup
  apart : data.kept.Pairwise fun a b => ¬ data.Alike a.2 b.2
  from_given : ∀ a ∈ data.kept, given a.2
  counts : data.Counted

variable {data data' : Data} {labels : Labels} {value : Number} {key : String} {given given' : Labels → Prop}

theorem alike_iff_of_kind (h : data'.isHistogram = data.isHistogram) (a b : Labels) :
    data'.Alike a b ↔ data.Alike a b := by
  rw [Data.Alike, Data.Alike, h]

/-- A map of which an entry is replaced, with the same label object or the new one. -/
theorem map_set_labels {ν : Type} (f : ν → Labels) (m : JsMap String ν) (key : String) (new : ν → ν) (v : ν)
    (hnew : ∀ w, f (new w) = f w) (hv : f v = labels) :
    (m.set key (new ((m.get? key).getD v))).entries.map (fun e => (e.1, f e.2)) =
      if key ∈ (m.entries.map fun e => (e.1, f e.2)).map Prod.fst then m.entries.map fun e => (e.1, f e.2)
      else JsMap.put key labels (m.entries.map fun e => (e.1, f e.2)) := by
  have hfst : (m.entries.map fun e => (e.1, f e.2)).map Prod.fst = m.entries.map Prod.fst := by
    rw [List.map_map]
    rfl
  change (JsMap.put key _ m.entries).map _ = _
  rw [JsMap.map_put_snd, hnew, hfst]
  cases hget : m.get? key with
  | none =>
    have hout : key ∉ m.entries.map Prod.fst := JsMap.get?_eq_none.mp hget
    rw [if_neg hout, Option.getD_none, hv]
  | some w =>
    have hin : key ∈ m.entries.map Prod.fst := JsMap.mem_keys_of_get? hget
    rw [if_pos hin, Option.getD_some]
    refine JsMap.put_of_find ?_
    rw [JsMap.find_map_snd]
    exact congrArg (Option.map f) hget

/-- The label objects of a metric after it has taken one: it is kept if its JSON text is new. -/
def kept_take (data : Data) (labels : Labels) (key : String) : List (String × Labels) :=
  if key ∈ data.kept.map Prod.fst then data.kept else JsMap.put key labels data.kept

theorem kept_add {values values' : JsMap String Value} (h : add values labels value = some values') :
    ∃ key, stringify labels = some key ∧
      (values'.entries.map fun e => (e.1, e.2.labels)) = kept_take (.counter values) labels key := by
  obtain ⟨key, hkey, rfl⟩ := Option.map_eq_some_iff.mp h
  refine ⟨key, hkey, ?_⟩
  exact map_set_labels Value.labels values key (fun v => { v with value := v.value.add value })
    { labels, value := .finite 0 } (fun _ => rfl) rfl

/-- `inc` does nothing to the data, or takes the label object. -/
theorem inc_cases (h : data.inc labels value = some data') : data'.isHistogram = false ∧
    data.isHistogram = false ∧ (data' = data ∧ data.type = "counter" ∧ value.less (.finite 0) = true ∨
      ∃ key, stringify labels = some key ∧ data'.kept = kept_take data labels key) := by
  cases data with
  | counter values =>
    rw [Data.inc] at h
    split at h
    · rename_i hneg
      cases h
      exact ⟨rfl, rfl, Or.inl ⟨rfl, rfl, hneg⟩⟩
    · obtain ⟨values', hadd, rfl⟩ := Option.map_eq_some_iff.mp h
      exact ⟨rfl, rfl, Or.inr (kept_add hadd)⟩
  | gauge values =>
    obtain ⟨values', hadd, rfl⟩ := Option.map_eq_some_iff.mp h
    exact ⟨rfl, rfl, Or.inr (kept_add hadd)⟩
  | histogram buckets entries => cases h

theorem dec_cases (h : data.dec labels value = some data') : data'.isHistogram = false ∧
    data.isHistogram = false ∧
      ∃ key, stringify labels = some key ∧ data'.kept = kept_take data labels key := by
  cases data with
  | gauge values =>
    obtain ⟨values', hadd, rfl⟩ := Option.map_eq_some_iff.mp h
    exact ⟨rfl, rfl, kept_add hadd⟩
  | counter values => cases h
  | histogram buckets entries => cases h

theorem set_cases (h : data.set labels value = some data') : data'.isHistogram = false ∧
    data.isHistogram = false ∧ ∃ key, stringify labels = some key ∧
      data'.kept = JsMap.put key labels data.kept := by
  cases data with
  | gauge values =>
    obtain ⟨key, hkey, rfl⟩ := Option.map_eq_some_iff.mp h
    exact ⟨rfl, rfl, key, hkey, JsMap.map_put_snd Value.labels⟩
  | counter values => cases h
  | histogram buckets entries => cases h

theorem observe_cases (h : data.observe labels value = some data') : ∃ buckets entries entries' key,
    data = .histogram buckets entries ∧ data' = .histogram buckets entries' ∧ stringify labels = some key ∧
      data'.kept = kept_take data labels key ∧
      entries' = entries.set key (((entries.get? key).getD (newEntry buckets labels)).observe value) := by
  cases data with
  | histogram buckets entries =>
    obtain ⟨key, hkey, rfl⟩ := Option.map_eq_some_iff.mp h
    refine ⟨buckets, entries, _, key, rfl, rfl, hkey, ?_, rfl⟩
    exact map_set_labels Entry.labels entries key (·.observe value) (newEntry buckets labels)
      (fun _ => rfl) rfl
  | counter values => cases h
  | gauge values => cases h

namespace Data.Good

theorem put (h : data.Good given) (hkind : data'.isHistogram = data.isHistogram)
    (hkept : data'.kept = JsMap.put key labels data.kept) (hfresh : data.Fresh labels key) (hgiven : given labels)
    (hcounts : data'.Counted) : data'.Good given := by
  constructor
  · rw [hkept]
    exact (JsMap.set ⟨data.kept, h.nodup⟩ key labels).nodup
  · rw [hkept]
    refine List.Pairwise.imp (fun {a b} hab => (alike_iff_of_kind hkind _ _).not.mpr hab) ?_
    exact JsMap.pairwise_put (fun a b hab hba => hab (Data.alike_symm hba)) h.nodup h.apart hfresh
  · intro a ha
    rcases JsMap.mem_put (hkept ▸ ha) with rfl | ha
    · exact hgiven
    · exact h.from_given a ha
  · exact hcounts

/-- A metric that takes a label object which it accepts. -/
theorem take (h : data.Good given) (hkind : data'.isHistogram = data.isHistogram)
    (hkey : stringify labels = some key) (hkept : data'.kept = kept_take data labels key)
    (haccepts : data.Accepts labels) (hgiven : given labels)
    (hcounts : data'.Counted) : data'.Good given := by
  rw [kept_take] at hkept
  split at hkept
  · constructor
    · rw [hkept]
      exact h.nodup
    · rw [hkept]
      exact h.apart.imp fun {a b} hab => (alike_iff_of_kind hkind _ _).not.mpr hab
    · rw [hkept]
      exact h.from_given
    · exact hcounts
  · rename_i hout
    exact h.put hkind hkept ((haccepts key hkey).resolve_left hout) hgiven hcounts

end Data.Good

/-- A metric that is no histogram has no buckets. -/
theorem counted_of_plain (h : data.isHistogram = false) : data.Counted := by
  rintro buckets entries rfl
  cases h

theorem counted_empty (h : data.kept = []) : data.Counted := by
  rintro buckets entries rfl e he
  have hentries : entries.entries = [] := List.map_eq_nil_iff.mp h
  rw [hentries] at he
  cases he

theorem good_empty (h : data.kept = []) : data.Good given := by
  constructor
  · rw [h]
    exact List.nodup_nil
  · rw [h]
    exact List.Pairwise.nil
  · rw [h]
    exact fun a ha => absurd ha List.not_mem_nil
  · exact counted_empty h

theorem good_inc (h : data.Good given) (hinc : data.inc labels value = some data') (hgiven : given labels)
    (hclear : data.type = "counter" ∧ value.less (.finite 0) = true ∨ data.Accepts labels) :
    data'.Good given := by
  obtain ⟨hplain', hplain, ⟨rfl, -, -⟩ | ⟨key, hkey, hkept⟩⟩ := inc_cases hinc
  · exact h
  rcases hclear with ⟨hcounter, hneg⟩ | haccepts
  · -- a counter does not take a negative number
    cases data with
    | counter values =>
      rw [Data.inc, if_pos hneg] at hinc
      cases hinc
      exact h
    | gauge values => simp [Data.type] at hcounter
    | histogram buckets entries => simp [Data.type] at hcounter
  · exact h.take (hplain'.trans hplain.symm) hkey hkept haccepts hgiven (counted_of_plain hplain')

theorem good_dec (h : data.Good given) (hdec : data.dec labels value = some data') (hgiven : given labels)
    (haccepts : data.Accepts labels) : data'.Good given := by
  obtain ⟨hplain', hplain, key, hkey, hkept⟩ := dec_cases hdec
  exact h.take (hplain'.trans hplain.symm) hkey hkept haccepts hgiven (counted_of_plain hplain')

theorem good_set (h : data.Good given) (hset : data.set labels value = some data') (hgiven : given labels)
    (hfresh : ∀ key, stringify labels = some key → data.Fresh labels key) : data'.Good given := by
  obtain ⟨hplain', hplain, key, hkey, hkept⟩ := set_cases hset
  exact h.put (hplain'.trans hplain.symm) hkept (hfresh key hkey) hgiven (counted_of_plain hplain')

theorem counted_observe (h : data.Counted) (hobserve : data.observe labels value = some data') :
    data'.Counted := by
  obtain ⟨buckets, entries, entries', key, rfl, rfl, -, -, hentries⟩ := observe_cases hobserve
  rintro _ _ ⟨⟩ e he
  rw [hentries] at he
  rcases JsMap.mem_put he with rfl | he
  · refine Cumulative.observe ?_ value
    cases hget : entries.get? key with
    | none => exact cumulative_newEntry buckets labels
    | some entry => exact h buckets entries rfl _ (JsMap.mem_of_find hget)
  · exact h buckets entries rfl e he

theorem good_observe (h : data.Good given) (hobserve : data.observe labels value = some data')
    (hgiven : given labels) (haccepts : data.Accepts labels) : data'.Good given := by
  have hcounted := counted_observe h.counts hobserve
  obtain ⟨buckets, entries, entries', key, rfl, rfl, hkey, hkept, -⟩ := observe_cases hobserve
  exact h.take rfl hkey hkept haccepts hgiven hcounted

/-! ## 5. The registry -/

/-- What a histogram puts after its name. -/
def SUFFIXES : List String := ["_bucket", "_sum", "_count"]

/-- The registry's metrics are good, and no counter or gauge has a name that a histogram emits. -/
structure Inv (given : Labels → Prop) (R : Registry) : Prop where
  good : ∀ e ∈ R.entries, e.2.data.Good given
  names : ∀ e ∈ R.entries, ∀ e' ∈ R.entries, e.2.data.isHistogram = false →
    e'.2.data.isHistogram = true → ∀ suffix ∈ SUFFIXES, e.1 ≠ e'.1 ++ suffix

/-- The label object of an operation. -/
def Op.brings : Op → Option Labels
  | .inc _ labels _ | .dec _ labels _ | .set _ labels _ | .observe _ labels _ => some labels
  | _ => none

/-- An operation brings no label object for which the metric keeps another one with the same label set, and no
metric whose name, or a name that it emits, another one has. -/
def Clear (R : Registry) : Op → Prop
  | .counter name _ | .gauge name _ => name ∈ R.keys ∨
    ∀ e ∈ R.entries, e.2.data.isHistogram = true → ∀ suffix ∈ SUFFIXES, name ≠ e.1 ++ suffix
  | .histogram name _ _ => name ∈ R.keys ∨
    ∀ e ∈ R.entries, e.2.data.isHistogram = false → ∀ suffix ∈ SUFFIXES, e.1 ≠ name ++ suffix
  | .inc name labels value => ∀ metric, R.get? name = some metric →
    metric.data.type = "counter" ∧ value.less (.finite 0) = true ∨ metric.data.Accepts labels
  | .dec name labels _ | .observe name labels _ => ∀ metric, R.get? name = some metric →
    metric.data.Accepts labels
  | .set name labels _ => ∀ metric, R.get? name = some metric →
    ∀ key, stringify labels = some key → metric.data.Fresh labels key
  | .resetMetric _ | .reset => True

variable {R R' : Registry} {name : String} {metric : Metric} {f : Data → Option Data} {op : Op}

/-- The metrics keep their names and kinds. -/
theorem Inv.of_kinds (h : Inv given R) (hgood : ∀ e ∈ R'.entries, e.2.data.Good given)
    (hkinds : ∀ e ∈ R'.entries, ∃ d ∈ R.entries, d.1 = e.1 ∧ d.2.data.isHistogram = e.2.data.isHistogram) :
    Inv given R' := by
  refine ⟨hgood, fun e he e' he' hplain hist => ?_⟩
  obtain ⟨d, hd, hname, hkind⟩ := hkinds e he
  obtain ⟨d', hd', hname', hkind'⟩ := hkinds e' he'
  rw [← hname, ← hname']
  exact h.names d hd d' hd' (hkind.trans hplain) (hkind'.trans hist)

theorem inv_change (h : Inv given R) (hkind : ∀ metric data', R.get? name = some metric →
      f metric.data = some data' → data'.isHistogram = metric.data.isHistogram)
    (hgood : ∀ metric data', R.get? name = some metric → metric.data.Good given → f metric.data = some data' →
      data'.Good given) : Inv given (change R name f) := by
  rw [change]
  split
  · exact h
  · rename_i metric hget
    have hmem : (name, metric) ∈ R.entries := JsMap.mem_of_find hget
    split
    · exact h
    · rename_i data' hf
      refine h.of_kinds (fun e he => ?_) fun e he => ?_
      · rcases JsMap.mem_put he with rfl | he
        · exact hgood metric data' hget (h.good _ hmem) hf
        · exact h.good e he
      · rcases JsMap.mem_put he with rfl | he
        · exact ⟨_, hmem, rfl, (hkind metric data' hget hf).symm⟩
        · exact ⟨e, he, rfl, rfl⟩

theorem inv_create (h : Inv given R) (hempty : metric.data.kept = [])
    (hplain : metric.data.isHistogram = false →
      name ∈ R.keys ∨ ∀ e ∈ R.entries, e.2.data.isHistogram = true → ∀ suffix ∈ SUFFIXES, name ≠ e.1 ++ suffix)
    (hist : metric.data.isHistogram = true →
      name ∈ R.keys ∨ ∀ e ∈ R.entries, e.2.data.isHistogram = false → ∀ suffix ∈ SUFFIXES, e.1 ≠ name ++ suffix) :
    Inv given (create R name metric) := by
  rw [create]
  split
  · exact h
  · rename_i hout
    constructor
    · intro e he
      rcases JsMap.mem_put he with rfl | he
      · exact good_empty hempty
      · exact h.good e he
    · intro e he e' he' hkind hkind'
      rcases JsMap.mem_put he with rfl | he
      · rcases JsMap.mem_put he' with rfl | he'
        · rw [hkind] at hkind'
          cases hkind'
        · exact (hplain hkind).resolve_left hout e' he' hkind'
      · rcases JsMap.mem_put he' with rfl | he'
        · exact (hist hkind').resolve_left hout e he hkind
        · exact h.names e he e' he' hkind hkind'

theorem reset_kind (data : Data) : data.reset.isHistogram = data.isHistogram := by
  cases data <;> rfl

theorem kept_reset (data : Data) : data.reset.kept = [] := by
  cases data <;> rfl

/-- **One operation** that is clear. -/
theorem Inv.step (h : Inv given R) (hclear : Clear R op)
    (hgiven : ∀ labels, op.brings = some labels → given labels) : Inv given (step R op) := by
  cases op with
  | counter name help =>
    exact inv_create h rfl (fun _ => hclear) fun hist => by cases hist
  | gauge name help =>
    exact inv_create h rfl (fun _ => hclear) fun hist => by cases hist
  | histogram name help buckets =>
    refine inv_create h rfl (fun hplain => ?_) fun _ => hclear
    cases hplain
  | inc name labels value =>
    change Inv given (change R name fun data => data.inc labels value)
    refine inv_change h (fun metric data' _ hinc => ?_) fun metric data' hget hgood hinc => ?_
    · obtain ⟨hplain', hplain, -⟩ := inc_cases hinc
      exact hplain'.trans hplain.symm
    · exact good_inc hgood hinc (hgiven labels rfl) (hclear metric hget)
  | dec name labels value =>
    change Inv given (change R name fun data => data.dec labels value)
    refine inv_change h (fun metric data' _ hdec => ?_) fun metric data' hget hgood hdec => ?_
    · obtain ⟨hplain', hplain, -⟩ := dec_cases hdec
      exact hplain'.trans hplain.symm
    · exact good_dec hgood hdec (hgiven labels rfl) (hclear metric hget)
  | set name labels value =>
    change Inv given (change R name fun data => data.set labels value)
    refine inv_change h (fun metric data' _ hset => ?_) fun metric data' hget hgood hset => ?_
    · obtain ⟨hplain', hplain, -⟩ := set_cases hset
      exact hplain'.trans hplain.symm
    · exact good_set hgood hset (hgiven labels rfl) (hclear metric hget)
  | observe name labels value =>
    change Inv given (change R name fun data => data.observe labels value)
    refine inv_change h (fun metric data' _ hobserve => ?_) fun metric data' hget hgood hobserve => ?_
    · obtain ⟨buckets, entries, entries', key, hdata, rfl, -⟩ := observe_cases hobserve
      rw [hdata]
      rfl
    · exact good_observe hgood hobserve (hgiven labels rfl) (hclear metric hget)
  | resetMetric name =>
    change Inv given (change R name fun data => some data.reset)
    refine inv_change h (fun metric data' _ hreset => ?_) fun metric data' _ _ hreset => ?_
    · cases hreset
      exact reset_kind _
    · cases hreset
      exact good_empty (kept_reset _)
  | reset =>
    refine h.of_kinds (fun e he => ?_) fun e he => ?_
    · obtain ⟨d, hd, rfl⟩ := List.mem_map.mp he
      exact good_empty (kept_reset _)
    · obtain ⟨d, hd, rfl⟩ := List.mem_map.mp he
      exact ⟨d, hd, rfl, (reset_kind _).symm⟩

theorem counted_change (h : ∀ e ∈ R.entries, e.2.data.Counted)
    (hf : ∀ data data', data.Counted → f data = some data' → data'.Counted) :
    ∀ e ∈ (change R name f).entries, e.2.data.Counted := by
  rw [change]
  split
  · exact h
  · rename_i metric hget
    split
    · exact h
    · rename_i data' hdata'
      intro e he
      rcases JsMap.mem_put he with rfl | he
      · exact hf _ _ (h _ (JsMap.mem_of_find hget)) hdata'
      · exact h e he

theorem counted_create (h : ∀ e ∈ R.entries, e.2.data.Counted) (hempty : metric.data.kept = []) :
    ∀ e ∈ (create R name metric).entries, e.2.data.Counted := by
  rw [create]
  split
  · exact h
  · intro e he
    rcases JsMap.mem_put he with rfl | he
    · exact counted_empty hempty
    · exact h e he

theorem counted_step (h : ∀ e ∈ R.entries, e.2.data.Counted) (op : Op) :
    ∀ e ∈ (step R op).entries, e.2.data.Counted := by
  cases op with
  | counter name help => exact counted_create h rfl
  | gauge name help => exact counted_create h rfl
  | histogram name help buckets => exact counted_create h rfl
  | inc name labels value => exact counted_change h fun _ _ _ hinc => counted_of_plain (inc_cases hinc).1
  | dec name labels value => exact counted_change h fun _ _ _ hdec => counted_of_plain (dec_cases hdec).1
  | set name labels value => exact counted_change h fun _ _ _ hset => counted_of_plain (set_cases hset).1
  | observe name labels value => exact counted_change h fun _ _ hcounted => counted_observe hcounted
  | resetMetric name =>
    refine counted_change h fun data data' _ hreset => ?_
    cases hreset
    exact counted_empty (kept_reset _)
  | reset =>
    intro e he
    obtain ⟨d, -, rfl⟩ := List.mem_map.mp he
    exact counted_empty (kept_reset _)

/-- **Bucket counts**, whatever the operations are. -/
theorem run_counted (ops : List Op) : ∀ e ∈ (run step JsMap.empty ops).entries, e.2.data.Counted := by
  have hstart : ∀ e ∈ (JsMap.empty : Registry).entries, e.2.data.Counted :=
    fun _ he => absurd he List.not_mem_nil
  exact run_inv_of_step (I := fun R : Registry => ∀ e ∈ R.entries, e.2.data.Counted)
    (fun _ op h => counted_step h op) hstart

/-- The label objects that some operations bring. -/
def Given (ops : List Op) (labels : Labels) : Prop := ∃ op ∈ ops, op.brings = some labels

/-- **All operations.** -/
theorem inv_run {ops all : List Op} (hsub : ∀ op ∈ ops, op ∈ all) (h : Inv (Given all) R)
    (hclear : Along step Clear R ops) : Inv (Given all) (run step R ops) := by
  induction ops generalizing R with
  | nil => exact h
  | cons op ops ih =>
    obtain ⟨hop, hrest⟩ := hclear
    refine ih (fun o ho => hsub o (List.mem_cons_of_mem _ ho)) ?_ hrest
    exact h.step hop fun labels hlabels => ⟨op, hsub op List.mem_cons_self, hlabels⟩

/-! ## 6. Samples -/

/-- Two samples are of one series. -/
def SameSeries (s t : Sample) : Prop := s.name = t.name ∧ Same s.labels t.labels

/-- No two suffixes end alike. -/
theorem suffix_inj {a b s t : String} (hs : s ∈ SUFFIXES) (ht : t ∈ SUFFIXES) (h : a ++ s = b ++ t) :
    a = b ∧ s = t := by
  have hlists : a.toList ++ s.toList = b.toList ++ t.toList := by
    rw [← String.toList_append, h, String.toList_append]
  have hend : s = t := by
    have hrev := congrArg (fun cs => cs.reverse.take 2) hlists
    simp only [List.reverse_append] at hrev
    have htake : ∀ u ∈ SUFFIXES, ∀ cs : List Char,
        (u.toList.reverse ++ cs).take 2 = u.toList.reverse.take 2 := by
      intro u hu cs
      refine List.take_append_of_le_length ?_
      revert u
      decide
    rw [htake s hs, htake t ht] at hrev
    have hinj : ∀ u ∈ SUFFIXES, ∀ w ∈ SUFFIXES,
        u.toList.reverse.take 2 = w.toList.reverse.take 2 → u = w := by
      decide
    exact hinj s hs t ht hrev
  rw [hend] at hlists
  exact ⟨String.toList_inj.mp (List.append_cancel_right hlists), hend⟩

/-- The names of a metric's samples. -/
theorem name_of_sample {s : Sample} (hs : s ∈ data.samples name) :
    data.isHistogram = false ∧ s.name = name ∨
      data.isHistogram = true ∧ ∃ suffix ∈ SUFFIXES, s.name = name ++ suffix := by
  have hplain : ∀ values, s ∈ plainSamples name values → s.name = name := by
    intro values hs
    rw [plainSamples] at hs
    split at hs
    · rw [List.mem_singleton.mp hs]
    · obtain ⟨e, -, rfl⟩ := List.mem_map.mp hs
      rfl
  cases data with
  | counter values => exact Or.inl ⟨rfl, hplain values hs⟩
  | gauge values => exact Or.inl ⟨rfl, hplain values hs⟩
  | histogram buckets entries =>
    refine Or.inr ⟨rfl, ?_⟩
    rw [Data.samples, histogramSamples] at hs
    split at hs
    · rcases List.mem_cons.mp hs with rfl | hs
      · exact ⟨"_count", by decide, rfl⟩
      · rw [List.mem_singleton.mp hs]
        exact ⟨"_sum", by decide, rfl⟩
    · obtain ⟨e, -, hs⟩ := List.mem_flatMap.mp hs
      rcases List.mem_append.mp hs with hs | hs
      · obtain ⟨b, -, rfl⟩ := List.mem_map.mp hs
        exact ⟨"_bucket", by decide, rfl⟩
      · rcases List.mem_cons.mp hs with rfl | hs
        · exact ⟨"_bucket", by decide, rfl⟩
        · rcases List.mem_cons.mp hs with rfl | hs
          · exact ⟨"_sum", by decide, rfl⟩
          · rw [List.mem_singleton.mp hs]
            exact ⟨"_count", by decide, rfl⟩

/-- The label object of a histogram's sample, but for `le`. -/
theorem labels_of_entrySample {entry : Entry} {s : Sample} (hs : s ∈ entrySamples name entry) :
    s.labels = entry.labels ∨ ∃ le, s.labels = entry.labels.set "le" (.string le) := by
  rcases List.mem_append.mp hs with hs | hs
  · obtain ⟨b, -, rfl⟩ := List.mem_map.mp hs
    exact Or.inr ⟨_, rfl⟩
  · rcases List.mem_cons.mp hs with rfl | hs
    · exact Or.inr ⟨_, rfl⟩
    · rcases List.mem_cons.mp hs with rfl | hs
      · exact Or.inl rfl
      · rw [List.mem_singleton.mp hs]
        exact Or.inl rfl

theorem sameApart_of_entrySamples {entry entry' : Entry} {s t : Sample} (hs : s ∈ entrySamples name entry)
    (ht : t ∈ entrySamples name entry') (h : Same s.labels t.labels) : SameApart entry.labels entry'.labels := by
  have hget : ∀ {e : Entry} {u : Sample}, u ∈ entrySamples name e → ∀ k, k ≠ "le" →
      u.labels.get? k = e.labels.get? k := by
    intro e u hu k hk
    rcases labels_of_entrySample hu with heq | ⟨le, heq⟩
    · rw [heq]
    · rw [heq, JsMap.get?_set_of_ne hk]
  intro k hk
  rw [← hget hs k hk, ← hget ht k hk]
  exact h k

/-- Two buckets have different labels. -/
theorem not_same_le {labels : Labels} {s t : String} (hne : s ≠ t) :
    ¬ Same (labels.set "le" (.string s)) (labels.set "le" (.string t)) := by
  intro h
  have hle := h "le"
  rw [JsMap.get?_set_self, JsMap.get?_set_self] at hle
  exact hne (String.toList_inj.mp (Option.some.inj hle))

theorem less_irrefl (a : Number) : a.less a = false := by
  cases a with
  | nan => rfl
  | infinity negative => cases negative <;> rfl
  | finite q => exact decide_eq_false (lt_irrefl q)

/-- The samples of a histogram for one label object. -/
theorem pairwise_entrySamples {buckets : Buckets} {entry : Entry} (h : Cumulative buckets entry) :
    (entrySamples name entry).Pairwise fun s t => ¬ SameSeries s t := by
  have hbucket : ∀ t : String, t ∈ SUFFIXES → t ≠ "_bucket" → name ++ "_bucket" ≠ name ++ t := by
    intro t ht hne heq
    exact hne (suffix_inj (by decide) ht heq).2.symm
  have hless : entry.bucketCounts.Pairwise fun a b => a.1.less b.1 = true :=
    List.pairwise_map.mp (h.bounds ▸ buckets.ascending)
  have hdouble : ∀ b ∈ entry.bucketCounts, b.1.IsDouble := fun b hb =>
    buckets.double b.1 (h.bounds ▸ List.mem_map_of_mem hb)
  rw [entrySamples, List.pairwise_append]
  refine ⟨?_, ?_, ?_⟩
  · rw [List.pairwise_map]
    refine hless.imp_of_mem fun {a b} ha hb hab hsame => not_same_le ?_ hsame.2
    intro heq
    have := Number.write_injective (hdouble a ha) (hdouble b hb) (String.ofList_injective heq)
    rw [this, less_irrefl] at hab
    cases hab
  · refine List.pairwise_cons.mpr ⟨fun t ht hsame => ?_, List.pairwise_pair.mpr fun hsame => ?_⟩
    · rcases List.mem_cons.mp ht with rfl | ht
      · exact hbucket "_sum" (by decide) (by decide) hsame.1
      · rw [List.mem_singleton.mp ht] at hsame
        exact hbucket "_count" (by decide) (by decide) hsame.1
    · have := (suffix_inj (by decide) (by decide) hsame.1).2
      exact absurd this (by decide)
  · intro s hs t ht hsame
    obtain ⟨b, hb, rfl⟩ := List.mem_map.mp hs
    rcases List.mem_cons.mp ht with rfl | ht
    · refine not_same_le ?_ hsame.2
      intro heq
      exact Number.write_ne_plusInf (hdouble b hb) (by rw [← String.toList_ofList (l := write b.1), heq])
    · rcases List.mem_cons.mp ht with rfl | ht
      · exact hbucket "_sum" (by decide) (by decide) hsame.1
      · rw [List.mem_singleton.mp ht] at hsame
        exact hbucket "_count" (by decide) (by decide) hsame.1

theorem pairwise_plainSamples {values : JsMap String Value}
    (h : (values.entries.map fun e => (e.1, e.2.labels)).Pairwise fun a b => ¬ Same a.2 b.2) :
    (plainSamples name values).Pairwise fun s t => ¬ SameSeries s t := by
  rw [plainSamples]
  split
  · exact List.pairwise_singleton _ _
  · rw [List.pairwise_map] at h ⊢
    exact h.imp fun hab hsame => hab hsame.2

theorem pairwise_histogramSamples {buckets : Buckets} {entries : JsMap String Entry}
    (h : (entries.entries.map fun e => (e.1, e.2.labels)).Pairwise fun a b => ¬ SameApart a.2 b.2)
    (hcounts : ∀ e ∈ entries.entries, Cumulative buckets e.2) :
    (histogramSamples name entries).Pairwise fun s t => ¬ SameSeries s t := by
  rw [histogramSamples]
  split
  · refine List.pairwise_pair.mpr fun hsame => ?_
    have := (suffix_inj (by decide) (by decide) hsame.1).2
    exact absurd this (by decide)
  · rw [List.pairwise_flatMap]
    refine ⟨fun e he => pairwise_entrySamples (hcounts e he), ?_⟩
    rw [List.pairwise_map] at h
    exact h.imp fun hab s hs t ht hsame => hab (sameApart_of_entrySamples hs ht hsame.2)

theorem Data.Good.pairwise_samples (h : data.Good given) :
    (data.samples name).Pairwise fun s t => ¬ SameSeries s t := by
  have hapart := h.apart
  cases data with
  | counter values => exact pairwise_plainSamples hapart
  | gauge values => exact pairwise_plainSamples hapart
  | histogram buckets entries => exact pairwise_histogramSamples hapart (h.counts buckets entries rfl)

/-- No two samples of the registry are of one series. -/
theorem Inv.pairwise_samples (h : Inv given R) : (samples R).Pairwise fun s t => ¬ SameSeries s t := by
  rw [samples, List.pairwise_flatMap]
  refine ⟨fun e he => (h.good e he).pairwise_samples, ?_⟩
  have hnames : R.entries.Pairwise fun e e' => e.1 ≠ e'.1 := List.pairwise_map.mp R.nodup
  refine hnames.imp_of_mem fun {e e'} he he' hne s hs t ht hsame => ?_
  have hname := hsame.1
  rcases name_of_sample hs with ⟨hplain, hs⟩ | ⟨hist, suffix, hsuffix, hs⟩
  · rcases name_of_sample ht with ⟨hplain', ht⟩ | ⟨hist', suffix', hsuffix', ht⟩
    · exact hne (hs.symm.trans (hname.trans ht))
    · exact h.names e he e' he' hplain hist' suffix' hsuffix' (hs.symm.trans (hname.trans ht))
  · rcases name_of_sample ht with ⟨hplain', ht⟩ | ⟨hist', suffix', hsuffix', ht⟩
    · exact h.names e' he' e he hplain' hist suffix hsuffix (ht.symm.trans (hname.symm.trans hs))
    · exact hne (suffix_inj hsuffix hsuffix' (hs.symm.trans (hname.trans ht))).1

/-- The label object of a sample is one that the metric keeps, with or without `le`, or empty. -/
theorem labels_of_sample {s : Sample} (hs : s ∈ data.samples name) : s.labels = .empty ∨
    ∃ a ∈ data.kept, s.labels = a.2 ∨ ∃ le, s.labels = a.2.set "le" (.string le) := by
  have hplain : ∀ values : JsMap String Value, s ∈ plainSamples name values → s.labels = .empty ∨
      ∃ a ∈ values.entries.map fun e => (e.1, e.2.labels),
        s.labels = a.2 ∨ ∃ le, s.labels = a.2.set "le" (.string le) := by
    intro values hs
    rw [plainSamples] at hs
    split at hs
    · rw [List.mem_singleton.mp hs]
      exact Or.inl rfl
    · obtain ⟨e, he, rfl⟩ := List.mem_map.mp hs
      exact Or.inr ⟨_, List.mem_map_of_mem he, Or.inl rfl⟩
  cases data with
  | counter values => exact hplain values hs
  | gauge values => exact hplain values hs
  | histogram buckets entries =>
    rw [Data.samples, histogramSamples] at hs
    split at hs
    · rcases List.mem_cons.mp hs with rfl | hs
      · exact Or.inl rfl
      · rw [List.mem_singleton.mp hs]
        exact Or.inl rfl
    · obtain ⟨e, he, hs⟩ := List.mem_flatMap.mp hs
      exact Or.inr ⟨_, List.mem_map_of_mem he, labels_of_entrySample hs⟩

/-- What the page is to be like after some operations. -/
structure WellFormed (ops : List Op) (R : Registry) : Prop where
  unique : (samples R).Pairwise fun s t => ¬ SameSeries s t
  labels : ∀ s ∈ samples R, s.labels = .empty ∨
    ∃ labels, Given ops labels ∧ (s.labels = labels ∨ ∃ le, s.labels = labels.set "le" (.string le))
  values : ∀ s ∈ samples R, ∀ field ∈ s.labels.entries, ∀ rest,
    readValue (escapeLabelValue field.2 ++ '"' :: rest) = some (field.2.shown, rest)
  counts : ∀ e ∈ R.entries, e.2.data.Counted

/-- **The page is well formed** after operations that are clear, each one in the state that it meets. -/
theorem run_wellFormed (ops : List Op) (hclear : Along step Clear JsMap.empty ops) :
    WellFormed ops (run step JsMap.empty ops) := by
  have hempty : Inv (Given ops) JsMap.empty :=
    ⟨fun e he => absurd he List.not_mem_nil, fun e he => absurd he List.not_mem_nil⟩
  have h := inv_run (fun _ hop => hop) hempty hclear
  constructor
  · exact h.pairwise_samples
  · intro s hs
    obtain ⟨e, he, hs⟩ := List.mem_flatMap.mp hs
    refine (labels_of_sample hs).imp id ?_
    rintro ⟨a, ha, hlabels⟩
    exact ⟨a.2, (h.good e he).from_given a ha, hlabels⟩
  · exact fun _ _ field _ rest => readValue_escape field.2 rest
  · exact fun e he => (h.good e he).counts

/-- A label object of two fields. -/
def pair (k : String) (v : LabelValue) (k' : String) (v' : LabelValue) : Labels :=
  (JsMap.empty.set k v).set k' v'

/-- A counter with two label sets. -/
def twoSets : List Op :=
  [.counter "hits" "Hits", .inc "hits" (pair "route" (.string "/a") "code" (.string "200")) (.finite 1),
    .inc "hits" (pair "route" (.string "/b") "code" (.string "200")) (.finite 1)]

/-- The same fields in two orders. -/
def twoOrders : List Op :=
  [.counter "hits" "Hits", .inc "hits" (pair "route" (.string "/a") "code" (.string "200")) (.finite 1),
    .inc "hits" (pair "code" (.string "200") "route" (.string "/a")) (.finite 1)]

theorem clear_twoSets : Along step Clear JsMap.empty twoSets := by
  refine ⟨?_, ?_, ?_, trivial⟩
  · exact Or.inr fun e he => absurd he List.not_mem_nil
  · intro metric hget
    cases hget
    exact Or.inr fun key _ => Or.inr fun a ha => absurd ha List.not_mem_nil
  · intro metric hget
    cases hget
    refine Or.inr fun key _ => Or.inr fun a ha _ hsame => ?_
    cases List.mem_singleton.mp ha
    exact absurd (hsame "route") (by decide)

theorem run_wellFormed_twoSets : WellFormed twoSets (run step JsMap.empty twoSets) :=
  run_wellFormed twoSets clear_twoSets

theorem same_pair {k k' : String} (hne : k ≠ k') (v v' : LabelValue) :
    Same (pair k v k' v') (pair k' v' k v) := by
  intro l
  rw [pair, pair, JsMap.get?_set, JsMap.get?_set, JsMap.get?_set, JsMap.get?_set]
  by_cases hk : l = k
  · rw [if_pos hk, if_pos hk, if_neg (hk ▸ hne)]
  · rw [if_neg hk, if_neg hk]

/-- Two orders of the same fields are two samples of one series. -/
theorem twoOrders_not_wellFormed : ¬ WellFormed twoOrders (run step JsMap.empty twoOrders) := by
  intro h
  have hpair : ∀ s t, samples (run step JsMap.empty twoOrders) = [s, t] → ¬ SameSeries s t := by
    intro s t hsamples
    have hunique := h.unique
    rw [hsamples] at hunique
    exact List.pairwise_pair.mp hunique
  exact hpair _ _ rfl ⟨rfl, same_pair (by decide) _ _⟩

end SmartDrop.Metrics
