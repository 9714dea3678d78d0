/-
# The metrics registry

`Counter`, `Gauge`, `Histogram` and `Registry` of `metrics/registry.js`, and the text that they serialise to.

A metric keeps its samples in a map whose keys are the JSON texts of the label objects, each with the object it
came with first (for `Gauge.set`, last).  A label object is a value here: whoever gave it does not change it
afterwards.  A histogram keeps the counts of its buckets in their order.
-/
import SmartDrop.Lib.DistinctTexts
import SmartDrop.Lib.JsMap
import SmartDrop.Lib.Json

namespace SmartDrop.Metrics

open JsNumber

/-! ## 1. Labels -/

/-- What `JSON.stringify` makes of a value: a text, nothing (the field is dropped), or it throws. -/
inductive Encoded where
  | text (s : String)
  | dropped
  | thrown
deriving DecidableEq

/-- The value of a label; of what is not a primitive, JSON and `String` make what they make. -/
inductive LabelValue where
  | undefined
  | null
  | bool (b : Bool)
  | number (n : Number)
  | string (s : String)
  | other (json : Encoded) (text : String)
deriving DecidableEq

/-- A label object. -/
abbrev Labels := JsMap String LabelValue

/-- `JSON.stringify` of a value of a field. -/
def LabelValue.json : LabelValue → Encoded
  | undefined => .dropped
  | null => .text "null"
  | bool b => .text (if b then "true" else "false")
  | number (.finite q) => .text (String.ofList (write (.finite q)))
  | number _ => .text "null"
  | string s => .text (String.ofList (JsonText.quote s))
  | other json _ => json

/-- The text of a value, empty for a missing one. -/
def LabelValue.shown : LabelValue → List Char
  | undefined | null => []
  | bool b => (if b then "true" else "false").toList
  | number n => write n
  | string s => s.toList
  | other _ text => text.toList

/-- A field of a JSON object. -/
def jsonField (field : String × LabelValue) : Option (List Char) :=
  match field.2.json with
  | .text s => some (JsonText.quote field.1 ++ ':' :: s.toList)
  | _ => none

/-- `JSON.stringify(labels)`, if it does not throw. -/
def stringify (labels : Labels) : Option String :=
  if labels.entries.any fun field => field.2.json = .thrown then none
  else some (String.ofList ('\x7b' :: [','].intercalate (labels.entries.filterMap jsonField) ++ ['\x7d']))

/-- `text.replace(/c/g, by)`. -/
def replaceAll (c : Char) (replacement : List Char) (text : List Char) : List Char :=
  text.flatMap fun d => if d = c then replacement else [d]

/-- `escapeLabelValue`. -/
def escapeLabelValue (val : LabelValue) : List Char :=
  replaceAll '\n' ['\\', 'n'] (replaceAll '"' ['\\', '"'] (replaceAll '\\' ['\\', '\\'] val.shown))

/-- `formatLabels`. -/
def formatLabels (labels : Labels) : List Char :=
  if labels.entries.isEmpty then []
  else '\x7b' :: [','].intercalate (labels.entries.map fun field =>
    field.1.toList ++ '=' :: '"' :: escapeLabelValue field.2 ++ ['"']) ++ ['\x7d']

/-! ## 2. Metrics -/

/-- The bounds of a histogram's buckets: numbers in ascending order. -/
structure Buckets where
  bounds : List Number
  ascending : bounds.Pairwise fun a b => a.less b = true
  double : ∀ b ∈ bounds, b.IsDouble

/-- What a counter or a gauge keeps for a label object. -/
structure Value where
  labels : Labels
  value : Number

/-- What a histogram keeps for one; `inf` is the count of the bucket `+Inf`. -/
structure Entry where
  labels : Labels
  sum : Number
  count : ℕ
  bucketCounts : List (Number × ℕ)
  inf : ℕ

inductive Data where
  | counter (values : JsMap String Value)
  | gauge (values : JsMap String Value)
  | histogram (buckets : Buckets) (entries : JsMap String Entry)

/-- `-a`. -/
def negate : Number → Number
  | .nan => .nan
  | .infinity negative => .infinity !negative
  | .finite q => .finite (-q)

/-- `a <= b`. -/
def atMost : Number → Number → Bool
  | .nan, _ | _, .nan => false
  | a, b => !b.less a

/-- `inc` of a gauge, and of a counter by a number that is not negative. -/
def add (values : JsMap String Value) (labels : Labels) (value : Number) : Option (JsMap String Value) :=
  (stringify labels).map fun key =>
    let current := (values.get? key).getD { labels, value := .finite 0 }
    values.set key { current with value := current.value.add value }

/-- `inc`; a histogram has none. -/
def Data.inc : Data → Labels → Number → Option Data
  | .counter values, labels, value =>
    if value.less (.finite 0) then some (.counter values) else (add values labels value).map .counter
  | .gauge values, labels, value => (add values labels value).map .gauge
  | .histogram _ _, _, _ => none

/-- `dec` of a gauge. -/
def Data.dec : Data → Labels → Number → Option Data
  | .gauge values, labels, value => (add values labels (negate value)).map .gauge
  | _, _, _ => none

/-- `set` of a gauge. -/
def Data.set : Data → Labels → Number → Option Data
  | .gauge values, labels, value =>
    (stringify labels).map fun key => .gauge (values.set key { labels, value })
  | _, _, _ => none

/-- An entry without observations. -/
def newEntry (buckets : Buckets) (labels : Labels) : Entry :=
  { labels, sum := .finite 0, count := 0, bucketCounts := buckets.bounds.map fun b => (b, 0), inf := 0 }

def Entry.observe (entry : Entry) (val : Number) : Entry :=
  { entry with
    sum := entry.sum.add val
    count := entry.count + 1
    bucketCounts := entry.bucketCounts.map fun b => if atMost val b.1 then (b.1, b.2 + 1) else b
    inf := entry.inf + 1 }

/-- `observe` of a histogram. -/
def Data.observe : Data → Labels → Number → Option Data
  | .histogram buckets entries, labels, val =>
    (stringify labels).map fun key =>
      .histogram buckets (entries.set key (((entries.get? key).getD (newEntry buckets labels)).observe val))
  | _, _, _ => none

/-- `reset`. -/
def Data.reset : Data → Data
  | .counter _ => .counter .empty
  | .gauge _ => .gauge .empty
  | .histogram buckets _ => .histogram buckets .empty

structure Metric where
  help : String
  data : Data

/-- The metrics by their names. -/
abbrev Registry := JsMap String Metric

/-! ## 3. Operations -/

/-- `DEFAULT_BUCKETS`. -/
def DEFAULT_BOUNDS : List Number :=
  [5 / 1000, 1 / 100, 25 / 1000, 5 / 100, 1 / 10, 25 / 100, 5 / 10, 1, 25 / 10, 5, 10].map fun q =>
    .finite (Binary64.nearest q)

theorem ascending_default : DEFAULT_BOUNDS.Pairwise fun a b => a.less b = true := by decide +kernel

theorem double_default : ∀ b ∈ DEFAULT_BOUNDS, b.IsDouble := by
  intro b hb
  obtain ⟨q, -, rfl⟩ := List.mem_map.mp hb
  exact Binary64.nearest_nearest q

def DEFAULT_BUCKETS : Buckets := ⟨DEFAULT_BOUNDS, ascending_default, double_default⟩

/-- A call of the registry, or of a metric by its name. -/
inductive Op where
  | counter (name help : String)
  | gauge (name help : String)
  | histogram (name help : String) (buckets : Option Buckets)
  | inc (name : String) (labels : Labels) (value : Number)
  | dec (name : String) (labels : Labels) (value : Number)
  | set (name : String) (labels : Labels) (value : Number)
  | observe (name : String) (labels : Labels) (value : Number)
  | resetMetric (name : String)
  | reset

/-- A metric is registered unless there is one of its name. -/
def create (R : Registry) (name : String) (metric : Metric) : Registry :=
  if name ∈ R.keys then R else R.set name metric

/-- A metric's data are changed, unless the call throws. -/
def change (R : Registry) (name : String) (f : Data → Option Data) : Registry :=
  match R.get? name with
  | none => R
  | some metric =>
    match f metric.data with
    | none => R
    | some data => R.set name { metric with data }

/-- One operation. -/
def step (R : Registry) : Op → Registry
  | .counter name help => create R name { help, data := .counter .empty }
  | .gauge name help => create R name { help, data := .gauge .empty }
  | .histogram name help buckets =>
    create R name { help, data := .histogram (buckets.getD DEFAULT_BUCKETS) .empty }
  | .inc name labels value => change R name (·.inc labels value)
  | .dec name labels value => change R name (·.dec labels value)
  | .set name labels value => change R name (·.set labels value)
  | .observe name labels value => change R name (·.observe labels value)
  | .resetMetric name => change R name fun data => some data.reset
  | .reset => R.mapValues fun _ metric => { metric with data := metric.data.reset }

/-! ## 4. The text -/

/-- A line with a sample. -/
structure Sample where
  name : String
  labels : Labels
  value : List Char

/-- `Number(sum.toFixed(6))`. -/
def toSix : Number → Number
  | .finite q =>
    if 10 ^ 21 ≤ |q| then .finite q
    else
      let n : ℚ := ⌊|q| * 10 ^ 6 + 1 / 2⌋
      ofRat (if q < 0 then -(n / 10 ^ 6) else n / 10 ^ 6)
  | x => x

/-- The samples of a counter or a gauge. -/
def plainSamples (name : String) (values : JsMap String Value) : List Sample :=
  if values.size = 0 then [{ name, labels := .empty, value := ['0'] }]
  else values.entries.map fun e => { name, labels := e.2.labels, value := write e.2.value }

/-- The samples of a histogram for one label object. -/
def entrySamples (name : String) (entry : Entry) : List Sample :=
  (entry.bucketCounts.map fun b =>
    { name := name ++ "_bucket"
      labels := entry.labels.set "le" (.string (String.ofList (write b.1)))
      value := Nat.toDigits 10 b.2 }) ++
  [{ name := name ++ "_bucket", labels := entry.labels.set "le" (.string "+Inf")
     value := Nat.toDigits 10 entry.inf },
   { name := name ++ "_sum", labels := entry.labels, value := write (toSix entry.sum) },
   { name := name ++ "_count", labels := entry.labels, value := Nat.toDigits 10 entry.count }]

def histogramSamples (name : String) (entries : JsMap String Entry) : List Sample :=
  if entries.size = 0 then
    [{ name := name ++ "_count", labels := .empty, value := ['0'] },
     { name := name ++ "_sum", labels := .empty, value := ['0'] }]
  else entries.entries.flatMap fun e => entrySamples name e.2

/-- The samples of a metric. -/
def Data.samples (name : String) : Data → List Sample
  | .counter values | .gauge values => plainSamples name values
  | .histogram _ entries => histogramSamples name entries

/-- The samples that `serialize` emits, in order. -/
def samples (R : Registry) : List Sample := R.entries.flatMap fun e => e.2.data.samples e.1

def Sample.render (s : Sample) : List Char := s.name.toList ++ formatLabels s.labels ++ ' ' :: s.value

def Data.type : Data → String
  | .counter _ => "counter"
  | .gauge _ => "gauge"
  | .histogram _ _ => "histogram"

/-- `serialize` of a metric. -/
def Metric.serialize (name : String) (metric : Metric) : List Char :=
  ['\n'].intercalate (("# HELP " ++ name ++ " " ++ metric.help).toList ::
    ("# TYPE " ++ name ++ " " ++ metric.data.type).toList :: (metric.data.samples name).map Sample.render)

/-- `serialize` of the registry. -/
def serialize (R : Registry) : List Char :=
  ['\n'].intercalate (R.entries.map fun e => e.2.serialize e.1) ++ ['\n']

end SmartDrop.Metrics
