/-! # A first configuration

The configuration file that a project may start from.
-/

namespace LayoutLint.Command

def initialFileName : String := "nbs-lint.toml"

def initialConfig : String := "# nbs-lint configuration

# Rule set: recommended | line-breaks | separators
preset = \"recommended\"

[analyzer]
# Root directory to analyze (default: current directory)
# root = \"./internal\"

# Glob patterns to exclude from analysis
exclude = [
    \"**/vendor/**\",
    \"**/testdata/**\",
]

# Respect .gitignore files
respect_gitignore = true

# Number of worker threads (default: one per CPU)
# parallelism = 4

# Rule configurations
# Each rule can be enabled/disabled and have its severity overridden

[rules.brace-line-breaks]
enabled = true

[rules.defer-placement]
enabled = true

[rules.signature-gap]
enabled = true
# severity = \"warning\"  # Override default severity

[rules.separator-groups]
enabled = true
width = 80
test_prefixes = [\"Test\"]
"

def initialSteps : List String :=
  [s!"Created {initialFileName}", "", "Next steps:",
    s!"  1. Edit {initialFileName} to configure rules", "  2. Run: nbs-lint check"]

end LayoutLint.Command
