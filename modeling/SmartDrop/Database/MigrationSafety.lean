/-
# The migration scanner

`db/migrationSafety.js`.  `findDestructiveOperations` strips the comments of a SQL text by two passes of
regular expressions and looks for phrases in what is left: "it errs toward flagging, because a false
positive costs one confirmation flag while a false negative costs a table".

The passes know nothing of each other and of quoted text.  A slash and an asterisk in a line comment, or
two hyphens in a string, begin a comment for them that is none, and what it reaches over is not scanned
(`lineComment_hides`).  A phrase is reported if it stands in the code before that can happen
(`findDestructiveOperations_common`).
-/
import SmartDrop.Lib.SqlText

namespace SmartDrop.MigrationSafety

open SqlText

/-! ## 1. The scanner -/

/-- An entry of `DESTRUCTIVE_PATTERNS`: the words of the pattern, with `\s+` between them and `\b` around
them, and for some a second phrase that follows within eighty characters. -/
structure Pattern where
  operation : String
  words : List String
  follow : Option (List String)

def DESTRUCTIVE_PATTERNS : List Pattern :=
  [⟨"DROP TABLE", ["DROP", "TABLE"], none⟩,
    ⟨"DROP COLUMN", ["DROP", "COLUMN"], none⟩,
    ⟨"DROP SCHEMA", ["DROP", "SCHEMA"], none⟩,
    ⟨"DROP DATABASE", ["DROP", "DATABASE"], none⟩,
    ⟨"DROP INDEX", ["DROP", "INDEX"], none⟩,
    ⟨"DROP CONSTRAINT", ["DROP", "CONSTRAINT"], none⟩,
    ⟨"TRUNCATE", ["TRUNCATE"], none⟩,
    ⟨"DELETE FROM", ["DELETE", "FROM"], none⟩,
    ⟨"ALTER COLUMN TYPE", ["ALTER", "COLUMN"], some ["TYPE"]⟩,
    ⟨"SET NOT NULL", ["SET", "NOT", "NULL"], none⟩,
    ⟨"RENAME COLUMN", ["RENAME", "COLUMN"], none⟩,
    ⟨"RENAME TABLE", ["ALTER", "TABLE"], some ["RENAME", "TO"]⟩]

/-- The words of a phrase, as lists of their characters. -/
def spelled (words : List String) : List (List Char) := words.map String.toList

/-- Both passes. -/
def stripComments (sql : List Char) : List Char := stripLines false (stripBlocks false sql)

/-- Something is found here or after so many code units, and not after a character that it would
continue. -/
def soon (found : List Char → Bool) : ℕ → Bool → List Char → Bool
  | _, _, [] => false
  | budget, continued, c :: cs =>
    let units := if c.toNat < 0x10000 then 1 else 2
    (!continued && found (c :: cs)) || (units ≤ budget && soon found (budget - units) (isWord c) cs)

/-- The pattern matches here. -/
def Pattern.matchAt (pattern : Pattern) (cs : List Char) : Bool :=
  match pattern.follow with
  | none => wholeAt JsText.isSpace isWord (spelled pattern.words) cs
  | some words =>
    match phraseAt JsText.isSpace (spelled pattern.words) cs with
    | some rest =>
      !rest.head?.any isWord && soon (wholeAt JsText.isSpace isWord (spelled words)) 80 true rest
    | none => false

/-- `pattern.test(text)`. -/
def Pattern.test (pattern : Pattern) (text : List Char) : Bool :=
  occurs pattern.matchAt isWord false text

def findDestructiveOperations (sql : String) : List String :=
  let cleaned := stripComments sql.toList
  (DESTRUCTIVE_PATTERNS.filter (Pattern.test · cleaned)).map Pattern.operation

/-- What is known of a migration. -/
structure Inspected where
  file : String
  destructive : List String

/-- `inspectMigrationFile`, of a file with this text. -/
def inspectMigrationFile (file source : String) : Inspected :=
  ⟨file, findDestructiveOperations source⟩

/-- `NODE_ENV` counts where no environment is given. -/
def isProductionEnv (env NODE_ENV : Option String) : Bool :=
  match env with
  | none => NODE_ENV == some "production"
  | some env => if env = "" then NODE_ENV == some "production" else env == "production"

/-- `DESTRUCTIVE_MIGRATION_BLOCKED`. -/
structure Blocked where
  message : String
  destructive : List Inspected

/-- The migrations to warn of, or the refusal. -/
def assertMigrationAllowed (inspected : List Inspected) (env NODE_ENV : Option String)
    (allowDestructive : Bool) : Except Blocked (List Inspected) :=
  let risky := inspected.filter fun entry => !entry.destructive.isEmpty
  if risky.isEmpty then .ok []
  else if !isProductionEnv env NODE_ENV then .ok risky
  else if allowDestructive then .ok risky
  else
    let summary := "; ".intercalate
      (risky.map fun entry => entry.file ++ " (" ++ ", ".intercalate entry.destructive ++ ")")
    .error
      { message := "Refusing to run destructive migration(s) against production: " ++ summary ++
          ". Re-run with --allow-destructive if this is intended."
        destructive := risky }

/-! ## 2. What is reported -/

theorem capitals_of_pattern {pattern : Pattern} (h : pattern ∈ DESTRUCTIVE_PATTERNS) :
    spelled pattern.words ≠ [] ∧ ∀ word ∈ spelled pattern.words, isCapitals word = true := by
  have hall : (DESTRUCTIVE_PATTERNS.all fun pattern =>
      !(spelled pattern.words).isEmpty && (spelled pattern.words).all isCapitals) = true := by
    decide +kernel
  have hpattern := List.all_eq_true.mp hall pattern h
  rw [Bool.and_eq_true, Bool.not_eq_true', List.isEmpty_eq_false_iff, List.all_eq_true] at hpattern
  exact hpattern

/-- The phrase of this pattern stands in the code of the text, by the rules of SQL. -/
def Stands (pattern : Pattern) (sql : String) : Prop :=
  Occurs (spelled pattern.words) (codeOf .code sql.toList)

/-- It stands there before the passes can have gone astray. -/
def StandsCommon (pattern : Pattern) (sql : String) : Prop :=
  Occurs (spelled pattern.words) (commonOf .code sql.toList)

instance (pattern : Pattern) (sql : String) : Decidable (Stands pattern sql) :=
  inferInstanceAs (Decidable (Occurs _ _))

instance (pattern : Pattern) (sql : String) : Decidable (StandsCommon pattern sql) :=
  inferInstanceAs (Decidable (Occurs _ _))

theorem test_common {pattern : Pattern} {sql : String} (hpattern : pattern ∈ DESTRUCTIVE_PATTERNS)
    (hplain : pattern.follow = none) (h : StandsCommon pattern sql) :
    pattern.test (stripComments sql.toList) = true := by
  obtain ⟨hne, hwords⟩ := capitals_of_pattern hpattern
  have hmatch : pattern.matchAt = wholeAt JsText.isSpace isWord (spelled pattern.words) := by
    funext cs
    rw [Pattern.matchAt, hplain]
  rw [Pattern.test, hmatch]
  exact (shows_common sql.toList).occurs hne hwords id h

/-- **A migration is refused** where it destroys something in production and nobody has opted in. -/
theorem assertMigrationAllowed_error {inspected : List Inspected} {env NODE_ENV : Option String}
    {allowDestructive : Bool} :
    (∃ e, assertMigrationAllowed inspected env NODE_ENV allowDestructive = .error e) ↔
      (∃ entry ∈ inspected, entry.destructive ≠ []) ∧ isProductionEnv env NODE_ENV = true ∧
        allowDestructive = false := by
  have hrisky : (inspected.filter fun entry => !entry.destructive.isEmpty).isEmpty = false ↔
      ∃ entry ∈ inspected, entry.destructive ≠ [] := by
    rw [List.isEmpty_eq_false_iff, ne_eq, List.filter_eq_nil_iff]
    simp
  rw [← hrisky, assertMigrationAllowed]
  cases (inspected.filter fun entry => !entry.destructive.isEmpty).isEmpty with
  | true => simp
  | false => cases isProductionEnv env NODE_ENV <;> cases allowDestructive <;> simp

/-- What stands in the code of a migration keeps it out of production. -/
theorem refused_of_stands {pattern : Pattern} (hpattern : pattern ∈ DESTRUCTIVE_PATTERNS)
    (hplain : pattern.follow = none) {file source : String} (h : StandsCommon pattern source)
    {inspected : List Inspected} (hfile : inspectMigrationFile file source ∈ inspected)
    (NODE_ENV : Option String) :
    ∃ e, assertMigrationAllowed inspected (some "production") NODE_ENV false = .error e := by
  refine assertMigrationAllowed_error.mpr ⟨⟨_, hfile, ?_⟩, rfl, rfl⟩
  have hop : pattern.operation ∈ findDestructiveOperations source := List.mem_map.mpr
    ⟨pattern, List.mem_filter.mpr ⟨hpattern, test_common hpattern hplain h⟩, rfl⟩
  exact List.ne_nil_of_mem hop

end SmartDrop.MigrationSafety
