import LayoutLint.Preset
import LayoutLint.Toml.Parse

/-! # Configuration

What a configuration says about the preset, the files to check and the single rules.
-/

namespace LayoutLint

/-- What a configuration says about one rule. -/
structure RuleConfig where
  enabled : Option Bool := none
  severity : Option Severity := none
  /-- All other entries. -/
  options : List (String × Toml.Value) := []
  deriving Inhabited

namespace RuleConfig

/-- A whole number among the options, or a default. -/
def int (c : RuleConfig) (key : String) (default : Int) : Int :=
  ((c.options.lookup key).bind Toml.Value.toInt?).getD default

/-- The strings of an array among the options; other values count as none. -/
def strings (c : RuleConfig) (key : String) : List String :=
  (((c.options.lookup key).bind Toml.Value.toList?).getD []).filterMap Toml.Value.toString?

/-- Options of the separator rule. A width that is not positive and an empty list of test
prefixes leave the default. -/
def separatorOptions (c : RuleConfig) : Separator.Options :=
  let width := c.int "width" 0
  let testPrefixes := c.strings "test_prefixes"
  let standard : Separator.Options := {}
  { width := if 0 < width then width.toNat else standard.width
    testPrefixes := if testPrefixes.isEmpty then standard.testPrefixes else testPrefixes }

end RuleConfig

/-- Which files are checked. -/
structure FileConfig where
  root : String := "."
  exclude : List String := []
  respectGitignore : Bool := true
  /-- The number of files that may be checked at once. -/
  parallelism : Option Nat := none
  deriving DecidableEq, Repr, Inhabited

/-- The choice without any configuration: vendored files and test data are left out. -/
def FileConfig.standard : FileConfig :=
  { exclude := ["**/vendor/**", "**/testdata/**"] }

structure Config where
  preset : Option String := none
  files : FileConfig := .standard
  rules : List (String × RuleConfig) := []
  deriving Inhabited

namespace Config

def rule? (c : Config) (name : String) : Option RuleConfig := c.rules.lookup name

def isEnabled (c : Config) (name : String) : Bool :=
  ((c.rule? name).bind RuleConfig.enabled).getD true

/-- The severity that replaces a rule's own. -/
def severity? (c : Config) (name : String) : Option Severity :=
  (c.rule? name).bind RuleConfig.severity

def separatorOptions (c : Config) : Separator.Options :=
  ((c.rule? (Check.separatorGroups {}).name).map RuleConfig.separatorOptions).getD {}

/-- The preset that the configuration names, the recommended one if it names none. -/
def preset? (c : Config) : Option Preset :=
  match c.preset with
  | none => some .recommended
  | some name => Preset.ofName? name

/-- The rules of a preset with the options of the configuration. -/
def rulesOf (c : Config) (p : Preset) : List Rule := p.rules c.separatorOptions

/-! ## Reading -/

/-- An optional entry: `some none` if it is missing, `none` if it is not what it should be. -/
def setting? (entries : List (String × Toml.Value)) (key : String)
    (read : Toml.Value → Option α) : Option (Option α) :=
  match entries.lookup key with
  | none => some none
  | some v => (read v).map some

def severityOf? (v : Toml.Value) : Option Severity := v.toTag?.bind Severity.ofName?

def stringsOf? (v : Toml.Value) : Option (List String) :=
  v.toList?.bind fun items => items.mapM Toml.Value.toString?

def ruleConfigOf? (v : Toml.Value) : Option RuleConfig := do
  let entries ← v.toEntries?
  return {
    enabled := ← setting? entries "enabled" Toml.Value.toBool?
    severity := ← setting? entries "severity" severityOf?
    options := entries.filter fun e => e.1 ≠ "enabled" && e.1 ≠ "severity" }

/-- A table of its own starts from an empty list of excluded paths. -/
def fileConfigOf? (v : Toml.Value) : Option FileConfig := do
  let entries ← v.toFields? ["root", "exclude", "respect_gitignore", "parallelism"]
  let empty : FileConfig := {}
  return {
    root := (← setting? entries "root" Toml.Value.toString?).getD empty.root
    exclude := (← setting? entries "exclude" stringsOf?).getD empty.exclude
    respectGitignore :=
      (← setting? entries "respect_gitignore" Toml.Value.toBool?).getD empty.respectGitignore
    parallelism := ← setting? entries "parallelism" Toml.Value.toNat? }

def rulesOf? (v : Toml.Value) : Option (List (String × RuleConfig)) := do
  (← v.toEntries?).mapM fun (name, v) => do return (name, ← ruleConfigOf? v)

/-- Other entries mean nothing. -/
def ofEntries? (entries : List (String × Toml.Value)) : Option Config := do
  return {
    preset := ← setting? entries "preset" Toml.Value.toString?
    files := (← setting? entries "analyzer" fileConfigOf?).getD .standard
    rules := (← setting? entries "rules" rulesOf?).getD [] }

/-- The configuration in a TOML document. -/
def parse? (text : String) : Option Config :=
  (Toml.parse? text.toList).bind ofEntries?

end Config

end LayoutLint
