import LayoutLint.Proofs.Steps
import LayoutLint.Report.Json
import Mathlib.Data.List.Nodup

/-! # Reading a report back

A relation says which values a report may be read from: in what forms, which of its parts may be
left out and what they are then. Reading agrees with it. What is written is one of these forms, so
each report is read back as it was written.
-/

namespace LayoutLint

/-! ## Values -/

namespace Json

def isStructure (names : List String) : Json → Bool
  | obj _ => true
  | arr items => items.length ≤ names.length
  | _ => false

/-- The part of a structure with a name: by its key in an object, by its place in an array. -/
def part? (names : List String) (name : String) : Json → Option Json
  | obj fields => fields.lookup name
  | arr items => items[names.idxOf name]?
  | _ => none

inductive IsTag (name : String) : Json → Prop where
  | string : IsTag name (.str name)
  | object : IsTag name (.obj [(name, .null)])

theorem map_some_append_replicate {names : List String} (h : names.Nodup) {items : List Json}
    (hle : items.length ≤ names.length) :
    items.map some ++ List.replicate (names.length - items.length) none =
      names.map fun name => items[names.idxOf name]? := by
  apply List.ext_getElem
  · simp only [List.length_append, List.length_map, List.length_replicate]
    omega
  · intro i hi hi'
    rw [List.length_map] at hi'
    rw [List.getElem_map, h.idxOf_getElem i hi', List.getElem_append]
    split
    case isTrue hlt =>
      rw [List.length_map] at hlt
      rw [List.getElem_map, List.getElem?_eq_getElem hlt]
    case isFalse hge =>
      rw [List.length_map, Nat.not_lt] at hge
      rw [List.getElem_replicate, List.getElem?_eq_none hge]

theorem toFields?_eq {names : List String} (h : names.Nodup) (j : Json) :
    j.toFields? names =
      if j.isStructure names then some (names.map fun name => j.part? names name) else none := by
  cases j with
  | obj fields => rfl
  | arr items =>
    rw [toFields?, isStructure]
    by_cases hle : items.length ≤ names.length
    · rw [if_pos hle, if_pos (decide_eq_true hle), map_some_append_replicate h hle]
      rfl
    · rw [if_neg hle, if_neg (by simpa using hle)]
  | _ => rfl

theorem bind_toFields?_eq_some_iff {α : Type} {names : List String} (h : names.Nodup) {j : Json}
    {read : List (Option Json) → Option α} {a : α} :
    (j.toFields? names).bind read = some a ↔
      j.isStructure names = true ∧ read (names.map fun name => j.part? names name) = some a := by
  rw [toFields?_eq h]
  split
  case isTrue hj => simp [hj]
  case isFalse hj => simp [hj]

theorem toString?_eq_some_iff {j : Json} {s : String} : j.toString? = some s ↔ j = .str s := by
  cases j <;> simp [toString?]

theorem toList?_eq_some_iff {j : Json} {items : List Json} :
    j.toList? = some items ↔ j = .arr items := by
  cases j <;> simp [toList?]

theorem toWord?_eq_some_iff {j : Json} {n : Nat} :
    j.toWord? = some n ↔ j = .ofNat n ∧ n < Word.count := by
  cases j with
  | int k =>
    rw [toWord?, ofNat, int.injEq]
    split
    case isTrue h =>
      simp only [Bool.and_eq_true, decide_eq_true_eq] at h
      rw [Option.some.injEq]
      omega
    case isFalse h =>
      simp only [Bool.and_eq_true, decide_eq_true_eq] at h
      constructor
      · intro h
        cases h
      · rintro ⟨rfl, hn⟩
        omega
  | _ => simp [toWord?, ofNat]

theorem toTag?_eq_some_iff {j : Json} {name : String} : j.toTag? = some name ↔ IsTag name j := by
  constructor
  · intro h
    unfold toTag? at h
    split at h <;> cases h
    · exact .string
    · exact .object
  · rintro (_ | _) <;> rfl

end Json

theorem Severity.ofName?_eq_some_iff {name : String} {s : Severity} :
    ofName? name = some s ↔ name = s.name := by
  constructor
  · intro h
    have hname := List.find?_some h
    exact (beq_iff_eq.mp hname).symm
  · rintro rfl
    cases s <;> decide

theorem Category.ofName?_eq_some_iff {name : String} {c : Category} :
    ofName? name = some c ↔ name = c.name := by
  constructor
  · intro h
    have hname := List.find?_some h
    exact (beq_iff_eq.mp hname).symm
  · rintro rfl
    cases c <;> decide

open Json

/-! ## Locations -/

namespace Location

def fieldNames : List String := ["file", "line", "column", "offset", "length"]

structure InWords (l : Location) : Prop where
  line : l.line < Word.count
  column : l.column < Word.count
  offset : l.offset < Word.count
  length : l.length < Word.count

/-- The value is a form of the location. -/
structure Reads (j : Json) (l : Location) : Prop where
  isStructure : j.isStructure fieldNames = true
  file : j.part? fieldNames "file" = some (.str l.file)
  line : j.part? fieldNames "line" = some (.ofNat l.line)
  column : j.part? fieldNames "column" = some (.ofNat l.column)
  offset : j.part? fieldNames "offset" = some (.ofNat l.offset)
  length : j.part? fieldNames "length" = some (.ofNat l.length)
  inWords : l.InWords

theorem ofJson?_eq_some_iff {j : Json} {l : Location} : ofJson? j = some l ↔ Reads j l := by
  rw [ofJson?, ← fieldNames, Option.bind_eq_bind, bind_toFields?_eq_some_iff (by decide)]
  simp only [fieldNames, List.map_cons, List.map_nil, Option.bind_eq_bind, Option.pure_def,
    Option.bind_eq_some_iff, toString?_eq_some_iff, toWord?_eq_some_iff, Option.some.injEq]
  constructor
  · rintro ⟨hj, _, hfile, _, rfl, _, hline, _, ⟨rfl, wline⟩, _, hcolumn, _, ⟨rfl, wcolumn⟩, _,
      hoffset, _, ⟨rfl, woffset⟩, _, hlength, _, ⟨rfl, wlength⟩, rfl⟩
    exact ⟨hj, hfile, hline, hcolumn, hoffset, hlength, wline, wcolumn, woffset, wlength⟩
  · rintro ⟨hj, hfile, hline, hcolumn, hoffset, hlength, wline, wcolumn, woffset, wlength⟩
    exact ⟨hj, _, hfile, _, rfl, _, hline, _, ⟨rfl, wline⟩, _, hcolumn, _, ⟨rfl, wcolumn⟩, _,
      hoffset, _, ⟨rfl, woffset⟩, _, hlength, _, ⟨rfl, wlength⟩, rfl⟩

theorem reads_toJson {l : Location} (h : l.InWords) : Reads l.toJson l :=
  ⟨rfl, rfl, rfl, rfl, rfl, rfl, h⟩

theorem Reads.part?_ne_none {j : Json} {l : Location} (h : Reads j l) {name : String}
    (hname : name ∈ fieldNames) : j.part? fieldNames name ≠ none := by
  simp only [fieldNames, List.mem_cons, List.not_mem_nil, or_false] at hname
  rcases hname with rfl | rfl | rfl | rfl | rfl
  · simp [h.file]
  · simp [h.line]
  · simp [h.column]
  · simp [h.offset]
  · simp [h.length]

end Location

/-! ## Violations -/

namespace Violation

def fieldNames : List String :=
  ["code", "rule", "category", "severity", "location", "message", "suggestion"]

/-- What a suggestion is read from: it may be missing or null, and is then none. -/
inductive SuggestionReads : Option Json → Option String → Prop where
  | missing : SuggestionReads none none
  | null : SuggestionReads (some .null) none
  | given {j : Json} {help : String} (isStructure : j.isStructure ["message"] = true)
      (message : j.part? ["message"] "message" = some (.str help)) :
      SuggestionReads (some j) (some help)

structure Reads (j : Json) (v : Violation) : Prop where
  isStructure : j.isStructure fieldNames = true
  code : j.part? fieldNames "code" = some (.str v.code)
  rule : j.part? fieldNames "rule" = some (.str v.rule)
  category : ∃ tag, j.part? fieldNames "category" = some tag ∧ IsTag v.category.name tag
  severity : ∃ tag, j.part? fieldNames "severity" = some tag ∧ IsTag v.severity.name tag
  location : ∃ place, j.part? fieldNames "location" = some place ∧ v.location.Reads place
  message : j.part? fieldNames "message" = some (.str v.message)
  suggestion : SuggestionReads (j.part? fieldNames "suggestion") v.suggestion

theorem suggestionOfJson?_eq_some_iff {given : Option Json} {help : Option String} :
    suggestionOfJson? given = some help ↔ SuggestionReads given help := by
  unfold suggestionOfJson?
  split
  case h_1 =>
    rw [Option.some.injEq, eq_comm]
    exact ⟨fun h => h ▸ .missing, fun h => by cases h; rfl⟩
  case h_2 =>
    rw [Option.some.injEq, eq_comm]
    constructor
    · rintro rfl
      exact .null
    · intro h
      cases h with
      | null => rfl
      | given hj => cases hj
  case h_3 j hnull =>
    rw [Option.bind_eq_bind, bind_toFields?_eq_some_iff (by decide)]
    simp only [List.map_cons, List.map_nil, Option.bind_eq_bind, Option.pure_def,
      Option.bind_eq_some_iff, toString?_eq_some_iff, Option.some.injEq]
    constructor
    · rintro ⟨hj, _, hmessage, _, rfl, rfl⟩
      exact .given hj hmessage
    · intro h
      cases h with
      | null => exact absurd rfl hnull
      | given hj hmessage => exact ⟨hj, _, hmessage, _, rfl, rfl⟩

theorem ofJson?_eq_some_iff {j : Json} {v : Violation} : ofJson? j = some v ↔ Reads j v := by
  rw [ofJson?, ← fieldNames, Option.bind_eq_bind, bind_toFields?_eq_some_iff (by decide)]
  simp only [fieldNames, List.map_cons, List.map_nil, Option.bind_eq_bind, Option.pure_def,
    Option.bind_eq_some_iff, toString?_eq_some_iff, toTag?_eq_some_iff, Option.some.injEq,
    Category.ofName?_eq_some_iff, Severity.ofName?_eq_some_iff, Location.ofJson?_eq_some_iff,
    suggestionOfJson?_eq_some_iff]
  constructor
  · rintro ⟨hj, _, hcode, _, rfl, _, hrule, _, rfl, _, hcategory, _, hctag, _, rfl, _, hseverity, _,
      hstag, _, rfl, _, hlocation, _, hplace, _, hmessage, _, rfl, _, hsuggestion, rfl⟩
    exact ⟨hj, hcode, hrule, ⟨_, hcategory, hctag⟩, ⟨_, hseverity, hstag⟩, ⟨_, hlocation, hplace⟩,
      hmessage, hsuggestion⟩
  · rintro ⟨hj, hcode, hrule, ⟨_, hcategory, hctag⟩, ⟨_, hseverity, hstag⟩,
      ⟨_, hlocation, hplace⟩, hmessage, hsuggestion⟩
    exact ⟨hj, _, hcode, _, rfl, _, hrule, _, rfl, _, hcategory, _, hctag, _, rfl, _, hseverity, _,
      hstag, _, rfl, _, hlocation, _, hplace, _, hmessage, _, rfl, _, hsuggestion, rfl⟩

theorem reads_toJson {v : Violation} (h : v.location.InWords) : Reads v.toJson v := by
  obtain ⟨code, rule, category, severity, location, message, suggestion⟩ := v
  have hlocation := Location.reads_toJson h
  cases suggestion with
  | none =>
    exact ⟨rfl, rfl, rfl, ⟨_, rfl, .string⟩, ⟨_, rfl, .string⟩, ⟨_, rfl, hlocation⟩, rfl, .missing⟩
  | some help =>
    exact ⟨rfl, rfl, rfl, ⟨_, rfl, .string⟩, ⟨_, rfl, .string⟩, ⟨_, rfl, hlocation⟩, rfl,
      .given rfl rfl⟩

/-- A part that has no default is missing, here or in the location or the suggestion, or a category
or a severity has none of the known names. -/
inductive Flawed (j : Json) : Prop where
  | part {name : String} (hname : name ∈ ["code", "rule", "category", "severity", "location",
      "message"]) (hpart : j.part? fieldNames name = none)
  | category {tag : Json} (hpart : j.part? fieldNames "category" = some tag)
      (htag : ∀ c : Category, ¬ IsTag c.name tag)
  | severity {tag : Json} (hpart : j.part? fieldNames "severity" = some tag)
      (htag : ∀ s : Severity, ¬ IsTag s.name tag)
  | location {place : Json} {name : String} (hpart : j.part? fieldNames "location" = some place)
      (hname : name ∈ Location.fieldNames) (hplace : place.part? Location.fieldNames name = none)
  | suggestion {given : Json} (hpart : j.part? fieldNames "suggestion" = some given)
      (hgiven : given ≠ .null) (hmessage : given.part? ["message"] "message" = none)

theorem Reads.part?_ne_none {j : Json} {v : Violation} (h : Reads j v) {name : String}
    (hname : name ∈ ["code", "rule", "category", "severity", "location", "message"]) :
    j.part? fieldNames name ≠ none := by
  obtain ⟨_, hcategory, -⟩ := h.category
  obtain ⟨_, hseverity, -⟩ := h.severity
  obtain ⟨_, hlocation, -⟩ := h.location
  simp only [List.mem_cons, List.not_mem_nil, or_false] at hname
  rcases hname with rfl | rfl | rfl | rfl | rfl | rfl
  · simp [h.code]
  · simp [h.rule]
  · simp [hcategory]
  · simp [hseverity]
  · simp [hlocation]
  · simp [h.message]

theorem Reads.not_flawed {j : Json} {v : Violation} (h : Reads j v) : ¬ Flawed j := by
  intro hflawed
  cases hflawed with
  | part hname hpart => exact h.part?_ne_none hname hpart
  | category hpart htag =>
    obtain ⟨tag, hcategory, hv⟩ := h.category
    obtain rfl := Option.some.inj (hcategory.symm.trans hpart)
    exact htag v.category hv
  | severity hpart htag =>
    obtain ⟨tag, hseverity, hv⟩ := h.severity
    obtain rfl := Option.some.inj (hseverity.symm.trans hpart)
    exact htag v.severity hv
  | location hpart hname hplace =>
    obtain ⟨place, hlocation, hv⟩ := h.location
    obtain rfl := Option.some.inj (hlocation.symm.trans hpart)
    exact hv.part?_ne_none hname hplace
  | suggestion hpart hgiven hmessage =>
    have hv := h.suggestion
    rw [hpart] at hv
    generalize v.suggestion = help at hv
    cases hv with
    | null => exact hgiven rfl
    | given _ hhelp =>
      rw [hmessage] at hhelp
      cases hhelp

end Violation

/-! ## Files that could not be analyzed -/

namespace Failure

def fieldNames : List String := ["path", "message"]

structure Reads (j : Json) (f : Failure) : Prop where
  isStructure : j.isStructure fieldNames = true
  path : j.part? fieldNames "path" = some (.str f.path)
  message : j.part? fieldNames "message" = some (.str f.message)

theorem ofJson?_eq_some_iff {j : Json} {f : Failure} : ofJson? j = some f ↔ Reads j f := by
  rw [ofJson?, ← fieldNames, Option.bind_eq_bind, bind_toFields?_eq_some_iff (by decide)]
  simp only [fieldNames, List.map_cons, List.map_nil, Option.bind_eq_bind, Option.pure_def,
    Option.bind_eq_some_iff, toString?_eq_some_iff, Option.some.injEq]
  constructor
  · rintro ⟨hj, _, hpath, _, rfl, _, hmessage, _, rfl, rfl⟩
    exact ⟨hj, hpath, hmessage⟩
  · rintro ⟨hj, hpath, hmessage⟩
    exact ⟨hj, _, hpath, _, rfl, _, hmessage, _, rfl, rfl⟩

theorem reads_toJson (f : Failure) : Reads f.toJson f := ⟨rfl, rfl, rfl⟩

theorem Reads.part?_ne_none {j : Json} {f : Failure} (h : Reads j f) {name : String}
    (hname : name ∈ fieldNames) : j.part? fieldNames name ≠ none := by
  simp only [fieldNames, List.mem_cons, List.not_mem_nil, or_false] at hname
  rcases hname with rfl | rfl
  · simp [h.path]
  · simp [h.message]

end Failure

/-! ## Reports -/

namespace Report

def fieldNames : List String := ["violations", "files_checked", "failures"]

structure InWords (r : Report) : Prop where
  filesChecked : r.filesChecked < Word.count
  locations : ∀ v ∈ r.violations, v.location.InWords

/-- What the failures are read from: they may be missing, and are then none. -/
inductive FailuresRead : Option Json → List Failure → Prop where
  | missing : FailuresRead none []
  | given {items : List Json} {fs : List Failure} (h : List.Forall₂ Failure.Reads items fs) :
      FailuresRead (some (.arr items)) fs

structure Reads (j : Json) (r : Report) : Prop where
  isStructure : j.isStructure fieldNames = true
  violations : ∃ items, j.part? fieldNames "violations" = some (.arr items) ∧
    List.Forall₂ Violation.Reads items r.violations
  filesChecked : j.part? fieldNames "files_checked" = some (.ofNat r.filesChecked)
  inWord : r.filesChecked < Word.count
  failures : FailuresRead (j.part? fieldNames "failures") r.failures

theorem failuresOfJson?_eq_some_iff {given : Option Json} {fs : List Failure} :
    failuresOfJson? given = some fs ↔ FailuresRead given fs := by
  cases given with
  | none =>
    rw [failuresOfJson?, Option.some.injEq, eq_comm]
    exact ⟨fun h => h ▸ .missing, fun h => by cases h; rfl⟩
  | some j =>
    simp only [failuresOfJson?, Option.bind_eq_bind, Option.bind_eq_some_iff, toList?_eq_some_iff,
      mapM_eq_some_iff, Failure.ofJson?_eq_some_iff]
    constructor
    · rintro ⟨items, rfl, h⟩
      exact .given h
    · intro h
      cases h with
      | given h => exact ⟨_, rfl, h⟩

theorem ofJson?_eq_some_iff {j : Json} {r : Report} : ofJson? j = some r ↔ Reads j r := by
  rw [ofJson?, ← fieldNames, Option.bind_eq_bind, bind_toFields?_eq_some_iff (by decide)]
  simp only [fieldNames, List.map_cons, List.map_nil, Option.bind_eq_bind, Option.pure_def,
    Option.bind_eq_some_iff, toList?_eq_some_iff, toWord?_eq_some_iff, Option.some.injEq,
    mapM_eq_some_iff, Violation.ofJson?_eq_some_iff, failuresOfJson?_eq_some_iff]
  constructor
  · rintro ⟨hj, _, hviolations, _, rfl, _, hreads, _, hchecked, _, ⟨rfl, hword⟩, _, hfailures, rfl⟩
    exact ⟨hj, ⟨_, hviolations, hreads⟩, hchecked, hword, hfailures⟩
  · rintro ⟨hj, ⟨_, hviolations, hreads⟩, hchecked, hword, hfailures⟩
    exact ⟨hj, _, hviolations, _, rfl, _, hreads, _, hchecked, _, ⟨rfl, hword⟩, _, hfailures, rfl⟩

theorem reads_toJson {r : Report} (h : r.InWords) : Reads r.toJson r := by
  have hviolations : List.Forall₂ Violation.Reads (r.violations.map Violation.toJson)
      r.violations := by
    rw [List.forall₂_map_left_iff, List.forall₂_same]
    exact fun v hv => Violation.reads_toJson (h.locations v hv)
  have hfailures : List.Forall₂ Failure.Reads (r.failures.map Failure.toJson) r.failures := by
    rw [List.forall₂_map_left_iff, List.forall₂_same]
    exact fun f _ => f.reads_toJson
  exact ⟨rfl, ⟨_, rfl, hviolations⟩, rfl, h.filesChecked, .given hfailures⟩

theorem Reads.inWords {j : Json} {r : Report} (h : Reads j r) : r.InWords where
  filesChecked := h.inWord
  locations v hv := by
    obtain ⟨items, -, hreads⟩ := h.violations
    obtain ⟨item, hitem⟩ := exists_forall₂_iff.mp ⟨items, hreads.flip⟩ v hv
    obtain ⟨place, -, hplace⟩ := Violation.Reads.location hitem
    exact hplace.inWords

/-- A part that has no default is missing, here or in a violation or a failure, or a violation has
an unknown category or severity. -/
inductive Flawed (j : Json) : Prop where
  | part {name : String} (hname : name ∈ ["violations", "files_checked"])
      (hpart : j.part? fieldNames name = none)
  | violation {items : List Json} {item : Json}
      (hpart : j.part? fieldNames "violations" = some (.arr items)) (hitem : item ∈ items)
      (hflawed : Violation.Flawed item)
  | failure {items : List Json} {item : Json} {name : String}
      (hpart : j.part? fieldNames "failures" = some (.arr items)) (hitem : item ∈ items)
      (hname : name ∈ Failure.fieldNames) (hmissing : item.part? Failure.fieldNames name = none)

theorem Reads.not_flawed {j : Json} {r : Report} (h : Reads j r) : ¬ Flawed j := by
  obtain ⟨items, hitems, hreads⟩ := h.violations
  intro hflawed
  cases hflawed with
  | part hname hpart =>
    simp only [List.mem_cons, List.not_mem_nil, or_false] at hname
    rcases hname with rfl | rfl
    · simp [hitems] at hpart
    · simp [h.filesChecked] at hpart
  | violation hpart hitem hflawed =>
    rw [hitems] at hpart
    cases hpart
    obtain ⟨v, hv⟩ := exists_forall₂_iff.mp ⟨r.violations, hreads⟩ _ hitem
    exact hv.not_flawed hflawed
  | failure hpart hitem hname hmissing =>
    have hfailures := h.failures
    rw [hpart] at hfailures
    generalize r.failures = fs at hfailures
    cases hfailures with
    | given hreads =>
      obtain ⟨f, hf⟩ := exists_forall₂_iff.mp ⟨fs, hreads⟩ _ hitem
      exact hf.part?_ne_none hname hmissing

theorem ofJson?_toJson {r : Report} (h : r.InWords) : ofJson? r.toJson = some r :=
  ofJson?_eq_some_iff.mpr (reads_toJson h)

/-- A report is read back as it was written, and what is read from any value is read again from what
is written of it. A value is read exactly if it is a form of a report; a suggestion that is missing
or null is then none and a missing list of failures is empty, but no other part may be missing and
no category or severity unknown. -/
theorem json_roundTrip :
    (∀ r : Report, r.InWords → ofJson? r.toJson = some r) ∧
      (∀ j r, ofJson? j = some r → ofJson? r.toJson = some r) ∧
      (∀ j r, ofJson? j = some r ↔ Reads j r) ∧
      ∀ j, Flawed j → ofJson? j = none := by
  refine ⟨fun r h => ofJson?_toJson h, fun j r h => ?_, fun j r => ofJson?_eq_some_iff,
    fun j hflawed => ?_⟩
  · exact ofJson?_toJson (ofJson?_eq_some_iff.mp h).inWords
  · refine Option.eq_none_iff_forall_ne_some.mpr fun r h => ?_
    exact (ofJson?_eq_some_iff.mp h).not_flawed hflawed

def mixedReport : Report where
  violations :=
    [⟨"NBS001", "brace-line-breaks", .lineBreaks, .error, ⟨"a.go", 3, 1, 20, 1⟩, "m", some "help"⟩,
      ⟨"NBS004", "separator-groups", .separator, .info,
        ⟨"b.go", 1, 1, Word.count - 1, 0⟩, "m", none⟩]
  filesChecked := 2
  failures := [⟨"c.go", "unreadable"⟩]

/-- A report with one violation, given as an array without failures: the violation has its category
under the name `category`, and null for a suggestion. -/
def bareForm (category : String) : Json :=
  .arr [.arr [.obj [("code", .str "c"), ("rule", .str "r"), ("category", .str category),
    ("severity", .obj [("warning", .null)]),
    ("location", .arr [.str "a.go", .int 1, .int 1, .int 0, .int 0]), ("message", .str "m"),
    ("suggestion", .null)]], .int 1]

def bareReport : Report where
  violations := [⟨"c", "r", .separator, .warning, ⟨"a.go", 1, 1, 0, 0⟩, "m", none⟩]
  filesChecked := 1

theorem json_roundTrip_mixedReport :
    mixedReport.InWords ∧ ofJson? mixedReport.toJson = some mixedReport ∧
      ofJson? (bareForm "separator") = some bareReport ∧
      ofJson? bareReport.toJson = some bareReport ∧ Reads (bareForm "separator") bareReport ∧
      Flawed (bareForm "style") ∧ ofJson? (bareForm "style") = none := by
  obtain ⟨hwritten, hagain, hreads, hflawed⟩ := json_roundTrip
  have hwords : mixedReport.InWords := by
    refine ⟨by decide, fun v hv => ?_⟩
    simp only [mixedReport, List.mem_cons, List.not_mem_nil, or_false] at hv
    rcases hv with rfl | rfl
    · exact ⟨by decide, by decide, by decide, by decide⟩
    · exact ⟨by decide, by decide, by decide, by decide⟩
  have hbare : ofJson? (bareForm "separator") = some bareReport := by decide +kernel
  have hstyle : Flawed (bareForm "style") := by
    refine .violation rfl (List.mem_singleton_self _) (.category rfl fun c htag => ?_)
    have hname : "style" = c.name := Option.some.inj (toTag?_eq_some_iff.mpr htag)
    cases c <;> exact absurd hname (by decide)
  exact ⟨hwords, hwritten _ hwords, hbare, hagain _ _ hbare, (hreads _ _).mp hbare, hstyle,
    hflawed _ hstyle⟩

end Report

end LayoutLint
