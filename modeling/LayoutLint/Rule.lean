import LayoutLint.Rules.ClosingBrace
import LayoutLint.Rules.DeferPlacement
import LayoutLint.Rules.Separator.Check
import LayoutLint.Rules.SignatureGap
import LayoutLint.Violation

/-! # Rules

A rule is a check with a severity. Rules share nothing: what one reports depends on the text
and the outline only.
-/

namespace LayoutLint

inductive Check where
  | closingBrace
  | deferPlacement
  | signatureGap
  | separatorGroups (options : Separator.Options)
  deriving DecidableEq, Repr

namespace Check

def name : Check → String
  | closingBrace => "brace-line-breaks"
  | deferPlacement => "defer-placement"
  | signatureGap => "signature-gap"
  | separatorGroups _ => "separator-groups"

def code : Check → String
  | closingBrace => "NBS001"
  | deferPlacement => "NBS002"
  | signatureGap => "NBS003"
  | separatorGroups _ => "NBS004"

def category : Check → Category
  | separatorGroups _ => .separator
  | _ => .lineBreaks

def description : Check → String
  | closingBrace => "Requires a line break after and forbids one before a closing brace"
  | deferPlacement => "Forbids an empty line before a defer statement"
  | signatureGap => "Requires one empty line after a multi-line function signature"
  | separatorGroups _ => "Checks separator comments and the declaration groups they delimit"

def findings (c : Check) (t : SourceText) (o : Outline) : List Finding :=
  match c with
  | closingBrace => ClosingBrace.findings t o
  | deferPlacement => DeferPlacement.findings t o
  | signatureGap => SignatureGap.findings t o
  | separatorGroups options => Separator.findings t options o

end Check

structure Rule where
  check : Check
  severity : Severity := .error
  deriving DecidableEq, Repr

namespace Rule

def name (r : Rule) : String := r.check.name

def code (r : Rule) : String := r.check.code

def reportAt (r : Rule) (location : Location) (f : Finding) : Violation where
  code := r.code
  rule := r.name
  category := r.check.category
  severity := r.severity
  location
  message := f.message
  suggestion := f.suggestion

def report (r : Rule) (t : SourceText) (file : String) (f : Finding) : Violation :=
  r.reportAt (t.location file f.span) f

/-- What the rule reports about a text with its outline. -/
def violations (r : Rule) (t : SourceText) (file : String) (o : Outline) : List Violation :=
  (r.check.findings t o).map (r.report t file)

end Rule

end LayoutLint
