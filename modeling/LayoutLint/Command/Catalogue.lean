import LayoutLint.Preset

/-! # The list of rules

What is printed about the rules and presets that there are.
-/

namespace LayoutLint.Command

/-- The text with blanks after it up to a width. -/
def padRight (width : Nat) (text : String) : String :=
  text ++ String.ofList (List.replicate (width - text.length) ' ')

/-- A line of the table; the last two columns stand one after the other. -/
def ruleLine (r : Rule) : String :=
  s!"{padRight 8 r.code} {padRight 20 r.name} {r.check.category.name} {r.check.description}"

def presetLine (p : Preset) : String :=
  s!"  {padRight 12 p.name} - " ++ ", ".intercalate (p.rules.map Rule.code)

def catalogue : List String :=
  ["Available rules:", "",
    padRight 9 "Code" ++ padRight 21 "Name" ++ padRight 13 "Category" ++ "Description",
    String.ofList (List.replicate 80 '-')] ++
  (Preset.recommended.rules).map ruleLine ++
  ["", "Presets:"] ++ Preset.all.map presetLine ++
  ["", "Use --rules to filter specific rules, e.g.:",
    "  nbs-lint check --rules brace-line-breaks,defer-placement",
    "  nbs-lint check --rules NBS001,NBS004"]

end LayoutLint.Command
