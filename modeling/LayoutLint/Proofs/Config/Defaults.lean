import LayoutLint.Config
import LayoutLint.Proofs.Steps

/-! # What a configuration leaves open

A document makes a configuration exactly if each key that means something has a value of its kind.
What it says about the files to check is then kept, and what it leaves open is as without any
document, with one exception: a document that says anything at all about the files starts from an
empty list of patterns.
-/

namespace LayoutLint

/-! ## Kinds of values -/

namespace Toml.Value

theorem toString?_eq_some_iff {v : Value} {s : String} : v.toString? = some s ↔ v = .string s := by
  cases v <;> simp [toString?]

theorem toBool?_eq_some_iff {v : Value} {b : Bool} : v.toBool? = some b ↔ v = .boolean b := by
  cases v <;> simp [toBool?]

theorem toNat?_eq_some_iff {v : Value} {n : Nat} : v.toNat? = some n ↔ v = .integer n := by
  cases v with
  | integer k =>
    cases k with
    | ofNat k =>
      rw [toNat?, Option.some.injEq, integer.injEq]
      exact Int.ofNat_inj.symm
    | negSucc k =>
      constructor
      · intro h
        cases h
      · intro h
        cases h
  | _ => simp [toNat?]

theorem toEntries?_eq_some_iff {v : Value} {entries : List (String × Value)} :
    v.toEntries? = some entries ↔ v = .table entries := by
  cases v <;> simp [toEntries?]

inductive IsTag (name : String) : Value → Prop where
  | string : IsTag name (.string name)
  | array : IsTag name (.table [(name, .array [])])
  | table : IsTag name (.table [(name, .table [])])

theorem toTag?_eq_some_iff {v : Value} {name : String} : v.toTag? = some name ↔ IsTag name v := by
  constructor
  · intro h
    unfold toTag? at h
    split at h <;> cases h
    · exact .string
    · exact .array
    · exact .table
  · rintro (_ | _ | _) <;> rfl

end Toml.Value

namespace Config

open Toml (Value)

variable {α β : Type} {entries : List (String × Value)} {key : String}

theorem stringsOf?_eq_some_iff {v : Value} {ss : List String} :
    stringsOf? v = some ss ↔ v = .array (ss.map .string) := by
  cases v with
  | array items =>
    simp only [stringsOf?, Value.toList?, Option.bind_some, mapM_eq_some_iff,
      Value.toString?_eq_some_iff, Value.array.injEq]
    rw [← List.forall₂_map_right_iff, List.forall₂_eq_eq_eq]
  | _ => simp [stringsOf?, Value.toList?]

theorem severityOf?_eq_some_iff {v : Value} {s : Severity} :
    severityOf? v = some s ↔ ∃ name, v.IsTag name ∧ Severity.ofName? name = some s := by
  simp only [severityOf?, Option.bind_eq_some_iff, Value.toTag?_eq_some_iff]

/-! ## Single keys -/

/-- The value that is given, or the built-in one where none is given. -/
inductive Settles (kind : Value → α → Prop) (builtIn : α) : Option Value → α → Prop where
  | given {v : Value} {a : α} (h : kind v a) : Settles kind builtIn (some v) a
  | unset : Settles kind builtIn none builtIn

@[simp]
theorem settles_some_iff {kind : Value → α → Prop} {builtIn a : α} {v : Value} :
    Settles kind builtIn (some v) a ↔ kind v a :=
  ⟨fun h => by cases h; assumption, .given⟩

@[simp]
theorem settles_none_iff {kind : Value → α → Prop} {builtIn a : α} :
    Settles kind builtIn none a ↔ a = builtIn :=
  ⟨fun h => by cases h; rfl, fun h => h ▸ .unset⟩

/-- A value that is given is of the kind. -/
def Fits (kind : Value → Prop) (given : Option Value) : Prop := ∀ v, given = some v → kind v

section Entry

variable {read : Value → Option α} {found : Option α}

theorem setting?_eq_some_iff :
    setting? entries key read = some found ↔ entries.lookup key = none ∧ found = none ∨
      ∃ v a, entries.lookup key = some v ∧ read v = some a ∧ found = some a := by
  rw [setting?]
  cases entries.lookup key with
  | none => simp [eq_comm]
  | some v => simp [Option.map_eq_some_iff, eq_comm]

theorem settles_of_setting? {kind : Value → β → Prop} (make : Option α → β)
    (hkind : ∀ {v a}, read v = some a → kind v (make (some a)))
    (h : setting? entries key read = some found) :
    Settles kind (make none) (entries.lookup key) (make found) := by
  obtain ⟨hnone, rfl⟩ | ⟨v, a, hv, ha, rfl⟩ := setting?_eq_some_iff.mp h
  · rw [hnone]
    exact .unset
  · rw [hv]
    exact .given (hkind ha)

theorem exists_setting?_iff {kind : Value → Prop} (hkind : ∀ v, (∃ a, read v = some a) ↔ kind v) :
    (∃ found, setting? entries key read = some found) ↔ Fits kind (entries.lookup key) := by
  rw [setting?, Fits]
  cases entries.lookup key with
  | none => simp
  | some v => simp [Option.map_eq_some_iff, ← hkind]

end Entry

/-! ## The files to check -/

def fileKeys : List String := ["root", "exclude", "respect_gitignore", "parallelism"]

def fileValue? (entries : List (String × Value)) (key : String) : Option Value :=
  ((entries.lookup "analyzer").bind (Value.toFields? fileKeys)).bind (List.lookup key)

def IsString (v : Value) (s : String) : Prop := v = .string s

def IsStrings (v : Value) (ss : List String) : Prop := v = .array (ss.map .string)

def IsBool (v : Value) (b : Bool) : Prop := v = .boolean b

def IsCount (v : Value) (n : Nat) : Prop := v = .integer n

/-- Every key that is given has the value that is given, and every other key has that of
`builtIn`. -/
structure KeepsUnset (builtIn : FileConfig) (given : String → Option Value) (c : FileConfig) :
    Prop where
  root : Settles IsString builtIn.root (given "root") c.root
  exclude : Settles IsStrings builtIn.exclude (given "exclude") c.exclude
  respectGitignore :
    Settles IsBool builtIn.respectGitignore (given "respect_gitignore") c.respectGitignore
  parallelism : Settles (fun v n => ∃ count, IsCount v count ∧ n = some count)
    builtIn.parallelism (given "parallelism") c.parallelism

/-- Every key about the files that is given has a value of its kind. -/
@[mk_iff]
structure FilesFit (given : String → Option Value) : Prop where
  root : Fits (∃ s, IsString · s) (given "root")
  exclude : Fits (∃ ss, IsStrings · ss) (given "exclude")
  respectGitignore : Fits (∃ b, IsBool · b) (given "respect_gitignore")
  parallelism : Fits (∃ n, IsCount · n) (given "parallelism")

def IsFileConfig (v : Value) : Prop :=
  ∃ fields, v.toFields? fileKeys = some fields ∧ FilesFit (List.lookup · fields)

theorem fileConfigOf?_eq_some_iff {v : Value} {c : FileConfig} :
    fileConfigOf? v = some c ↔ ∃ fields, v.toFields? fileKeys = some fields ∧
      ∃ root, setting? fields "root" Value.toString? = some root ∧
      ∃ exclude, setting? fields "exclude" stringsOf? = some exclude ∧
      ∃ respect, setting? fields "respect_gitignore" Value.toBool? = some respect ∧
      ∃ count, setting? fields "parallelism" Value.toNat? = some count ∧
        ⟨root.getD ".", exclude.getD [], respect.getD true, count⟩ = c := by
  simp only [fileConfigOf?, bind, pure, Option.bind_eq_some_iff, Option.some.injEq]
  rfl

theorem keepsUnset_of_fileConfigOf? {v : Value} {c : FileConfig}
    {fields : List (String × Value)} (hv : v.toFields? fileKeys = some fields)
    (h : fileConfigOf? v = some c) : KeepsUnset {} (List.lookup · fields) c := by
  obtain ⟨_, hfields, root, hroot, exclude, hexclude, respect, hrespect, count, hcount, rfl⟩ :=
    fileConfigOf?_eq_some_iff.mp h
  obtain rfl := Option.some.inj (hv.symm.trans hfields)
  constructor
  case root => exact settles_of_setting? (·.getD ".") Value.toString?_eq_some_iff.mp hroot
  case exclude => exact settles_of_setting? (·.getD []) stringsOf?_eq_some_iff.mp hexclude
  case respectGitignore =>
    exact settles_of_setting? (·.getD true) Value.toBool?_eq_some_iff.mp hrespect
  case parallelism =>
    exact settles_of_setting? id (fun h => ⟨_, Value.toNat?_eq_some_iff.mp h, rfl⟩) hcount

theorem exists_fileConfigOf?_iff (v : Value) :
    (∃ c, fileConfigOf? v = some c) ↔ IsFileConfig v := by
  simp only [fileConfigOf?_eq_some_iff, IsFileConfig, filesFit_iff, IsString, IsStrings, IsBool,
    IsCount, ← exists_setting?_iff fun _ => exists_congr fun _ => Value.toString?_eq_some_iff,
    ← exists_setting?_iff fun _ => exists_congr fun _ => stringsOf?_eq_some_iff,
    ← exists_setting?_iff fun _ => exists_congr fun _ => Value.toBool?_eq_some_iff,
    ← exists_setting?_iff fun _ => exists_congr fun _ => Value.toNat?_eq_some_iff]
  constructor
  · rintro ⟨-, fields, hfields, root, hroot, exclude, hexclude, respect, hrespect, count, hcount, -⟩
    exact ⟨fields, hfields, ⟨root, hroot⟩, ⟨exclude, hexclude⟩, ⟨respect, hrespect⟩, count, hcount⟩
  · rintro ⟨fields, hfields, ⟨root, hroot⟩, ⟨exclude, hexclude⟩, ⟨respect, hrespect⟩, count, hcount⟩
    exact ⟨_, fields, hfields, root, hroot, exclude, hexclude, respect, hrespect, count, hcount,
      rfl⟩

/-! ## Documents -/

def IsSeverity (v : Value) (s : Severity) : Prop :=
  ∃ name, v.IsTag name ∧ Severity.ofName? name = some s

def IsRuleConfig (v : Value) : Prop :=
  ∃ entries, v = .table entries ∧ Fits (∃ b, IsBool · b) (entries.lookup "enabled") ∧
    Fits (∃ s, IsSeverity · s) (entries.lookup "severity")

def IsRulesConfig (v : Value) : Prop :=
  ∃ rules, v = .table rules ∧ ∀ rule ∈ rules, IsRuleConfig rule.2

/-- Every key that means something has a value of its kind. -/
@[mk_iff]
structure WellTyped (entries : List (String × Value)) : Prop where
  preset : Fits (∃ s, IsString · s) (entries.lookup "preset")
  analyzer : Fits IsFileConfig (entries.lookup "analyzer")
  rules : Fits IsRulesConfig (entries.lookup "rules")

theorem exists_ruleConfigOf?_iff (v : Value) :
    (∃ c, ruleConfigOf? v = some c) ↔ IsRuleConfig v := by
  simp only [IsRuleConfig, IsBool, IsSeverity,
    ← exists_setting?_iff fun _ => exists_congr fun _ => Value.toBool?_eq_some_iff,
    ← exists_setting?_iff fun _ => exists_congr fun _ => severityOf?_eq_some_iff,
    ← Value.toEntries?_eq_some_iff, ruleConfigOf?, bind, pure, Option.bind_eq_some_iff,
    Option.some.injEq]
  constructor
  · rintro ⟨-, entries, hentries, enabled, henabled, severity, hseverity, -⟩
    exact ⟨entries, hentries, ⟨enabled, henabled⟩, severity, hseverity⟩
  · rintro ⟨entries, hentries, ⟨enabled, henabled⟩, severity, hseverity⟩
    exact ⟨_, entries, hentries, enabled, henabled, severity, hseverity, rfl⟩

theorem exists_rulesOf?_iff (v : Value) :
    (∃ rules, rulesOf? v = some rules) ↔ IsRulesConfig v := by
  simp only [rulesOf?, bind, Option.bind_eq_some_iff, Value.toEntries?_eq_some_iff,
    mapM_eq_some_iff, IsRulesConfig, ← exists_ruleConfigOf?_iff]
  rw [exists_comm]
  refine exists_congr fun rules => ?_
  rw [exists_and_left, exists_forall₂_iff]
  refine and_congr_right fun _ => forall₂_congr fun rule _ => ?_
  exact ⟨fun ⟨_, c, hc, _⟩ => ⟨c, hc⟩, fun ⟨c, hc⟩ => ⟨_, c, hc, rfl⟩⟩

theorem ofEntries?_eq_some_iff {c : Config} :
    ofEntries? entries = some c ↔
      ∃ preset, setting? entries "preset" Value.toString? = some preset ∧
      ∃ files, setting? entries "analyzer" fileConfigOf? = some files ∧
      ∃ rules, setting? entries "rules" rulesOf? = some rules ∧
        ⟨preset, files.getD .standard, rules.getD []⟩ = c := by
  simp only [ofEntries?, bind, pure, Option.bind_eq_some_iff, Option.some.injEq]

theorem exists_ofEntries?_iff : (∃ c, ofEntries? entries = some c) ↔ WellTyped entries := by
  simp only [ofEntries?_eq_some_iff, wellTyped_iff, IsString,
    ← exists_setting?_iff exists_fileConfigOf?_iff, ← exists_setting?_iff exists_rulesOf?_iff,
    ← exists_setting?_iff fun _ => exists_congr fun _ => Value.toString?_eq_some_iff]
  constructor
  · rintro ⟨-, preset, hpreset, files, hfiles, rules, hrules, -⟩
    exact ⟨⟨preset, hpreset⟩, ⟨files, hfiles⟩, rules, hrules⟩
  · rintro ⟨⟨preset, hpreset⟩, ⟨files, hfiles⟩, rules, hrules⟩
    exact ⟨_, preset, hpreset, files, hfiles, rules, hrules, rfl⟩

/-! ## Keys that are left open -/

/-- What a document starts from: without patterns if it says anything about the files, and else
from the built-in choice. -/
def start (entries : List (String × Value)) : FileConfig :=
  if (entries.lookup "analyzer").isSome then { ({} : Config).files with exclude := [] }
  else ({} : Config).files

theorem keepsUnset_of_ofEntries? {c : Config} (h : ofEntries? entries = some c) :
    KeepsUnset (start entries) (fileValue? entries) c.files := by
  obtain ⟨_, -, files, hfiles, _, -, rfl⟩ := ofEntries?_eq_some_iff.mp h
  obtain ⟨hnone, rfl⟩ | ⟨v, f, hv, hf, rfl⟩ := setting?_eq_some_iff.mp hfiles
  · have hentry : fileValue? entries = fun _ => none := by
      funext key
      rw [fileValue?, hnone]
      rfl
    rw [start, hentry, hnone]
    exact ⟨.unset, .unset, .unset, .unset⟩
  · obtain ⟨fields, hfields, -⟩ := fileConfigOf?_eq_some_iff.mp hf
    have hentry : fileValue? entries = (List.lookup · fields) := by
      funext key
      rw [fileValue?, hv, Option.bind_some, hfields, Option.bind_some]
    rw [start, hentry, hv]
    exact keepsUnset_of_fileConfigOf? hfields hf

/-- A document that says something about the files, but gives no patterns, loses the built-in
ones. -/
theorem keepsUnset_standard_iff {c : Config} (h : ofEntries? entries = some c) :
    KeepsUnset ({} : Config).files (fileValue? entries) c.files ↔
      entries.lookup "analyzer" = none ∨ (fileValue? entries "exclude").isSome := by
  have hstart := keepsUnset_of_ofEntries? h
  cases hanalyzer : entries.lookup "analyzer" with
  | none =>
    rw [start, hanalyzer] at hstart
    simpa using hstart
  | some v =>
    rw [start, hanalyzer] at hstart
    cases hexclude : fileValue? entries "exclude" with
    | none =>
      have hempty : c.files.exclude = [] := by simpa [hexclude] using hstart.exclude
      simp only [reduceCtorEq, Option.isSome_none, Bool.false_eq_true, or_self, iff_false]
      intro hkeeps
      have hbuiltIn := hkeeps.exclude
      rw [hexclude, settles_none_iff, hempty] at hbuiltIn
      exact absurd hbuiltIn (by decide)
    | some w =>
      simp only [Option.isSome_some, or_true, iff_true]
      refine ⟨hstart.root, ?_, hstart.respectGitignore, hstart.parallelism⟩
      have hgiven := hstart.exclude
      rwa [hexclude, settles_some_iff] at hgiven ⊢

/-- A document makes a configuration if and only if its keys have values of their kinds. The
configuration has what the document says about the files, and where the document leaves a key open
it has the built-in value, except for the patterns of a document that says something else about the
files. -/
theorem parse?_keepsUnset (text : String) {entries : List (String × Value)}
    (hdocument : Toml.parse? text.toList = some entries) :
    ((∃ c, parse? text = some c) ↔ WellTyped entries) ∧
      ∀ c, parse? text = some c →
        KeepsUnset (start entries) (fileValue? entries) c.files ∧
        (KeepsUnset ({} : Config).files (fileValue? entries) c.files ↔
          entries.lookup "analyzer" = none ∨ (fileValue? entries "exclude").isSome) := by
  have hparse : parse? text = ofEntries? entries := by rw [parse?, hdocument, Option.bind_some]
  rw [hparse]
  refine ⟨exists_ofEntries?_iff, fun c hc => ?_⟩
  exact ⟨keepsUnset_of_ofEntries? hc, keepsUnset_standard_iff hc⟩

def rootOnly : String := "[analyzer]\nroot = \"internal\"\n"

theorem exists_rootOnly :
    ∃ entries c, Toml.parse? rootOnly.toList = some entries ∧ ofEntries? entries = some c ∧
      (entries.lookup "analyzer").isSome ∧ fileValue? entries "exclude" = none := by
  have hread : ((Toml.parse? rootOnly.toList).any fun entries => (ofEntries? entries).isSome &&
      (entries.lookup "analyzer").isSome && (fileValue? entries "exclude").isNone) = true := by
    decide +kernel
  obtain ⟨entries, hentries, hread⟩ := (Option.any_eq_true _ _).mp hread
  simp only [Bool.and_eq_true, Option.isNone_iff_eq_none] at hread
  obtain ⟨⟨hc, hanalyzer⟩, hexclude⟩ := hread
  obtain ⟨c, hc⟩ := Option.isSome_iff_exists.mp hc
  exact ⟨entries, c, hentries, hc, hanalyzer, hexclude⟩

theorem parse?_keepsUnset_rootOnly :
    ∃ entries c, Toml.parse? rootOnly.toList = some entries ∧ WellTyped entries ∧
      parse? rootOnly = some c ∧
      KeepsUnset { ({} : Config).files with exclude := [] } (fileValue? entries) c.files ∧
      ¬ KeepsUnset ({} : Config).files (fileValue? entries) c.files := by
  obtain ⟨entries, c, hdocument, hc, hanalyzer, hexclude⟩ := exists_rootOnly
  have hparse : parse? rootOnly = some c := by rw [parse?, hdocument, Option.bind_some, hc]
  obtain ⟨htyped, hkeeps⟩ := parse?_keepsUnset rootOnly hdocument
  obtain ⟨hstart, hstandard⟩ := hkeeps c hparse
  refine ⟨entries, c, hdocument, htyped.mp ⟨c, hparse⟩, hparse, ?_, ?_⟩
  · rwa [start, if_pos hanalyzer] at hstart
  · rw [hstandard, hexclude, ← Option.isNone_iff_eq_none, Option.isNone_eq_false_iff.mpr hanalyzer]
    decide

/-- Not every key that a document leaves open keeps its built-in value. -/
theorem not_forall_parse?_keepsUnset :
    ¬ ∀ text entries, Toml.parse? text.toList = some entries → WellTyped entries →
      ∃ c, parse? text = some c ∧
        KeepsUnset ({} : Config).files (fileValue? entries) c.files := by
  intro h
  obtain ⟨entries, c, hdocument, hc, hanalyzer, hexclude⟩ := exists_rootOnly
  obtain ⟨c', hparse, hkeeps⟩ :=
    h rootOnly entries hdocument (exists_ofEntries?_iff.mp ⟨c, hc⟩)
  rw [parse?, hdocument, Option.bind_some] at hparse
  rcases (keepsUnset_standard_iff hparse).mp hkeeps with hnone | hsome
  · rw [hnone] at hanalyzer
    cases hanalyzer
  · rw [hexclude] at hsome
    cases hsome

end Config

end LayoutLint
