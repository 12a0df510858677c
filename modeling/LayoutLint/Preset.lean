import LayoutLint.Rule

/-! # Presets

Sets of rules that a configuration can name.
-/

namespace LayoutLint

inductive Preset where
  | recommended
  | lineBreaks
  | separators
  deriving DecidableEq, Repr

namespace Preset

def name : Preset → String
  | recommended => "recommended"
  | lineBreaks => "line-breaks"
  | separators => "separators"

def all : List Preset := [recommended, lineBreaks, separators]

def ofName? (s : String) : Option Preset := all.find? (·.name == s)

def lineBreakChecks : List Check := [.closingBrace, .deferPlacement, .signatureGap]

def checks (options : Separator.Options) : Preset → List Check
  | recommended => lineBreakChecks ++ [.separatorGroups options]
  | lineBreaks => lineBreakChecks
  | separators => [.separatorGroups options]

def rules (p : Preset) (options : Separator.Options := {}) : List Rule :=
  (p.checks options).map ({ check := · })

end Preset

end LayoutLint
