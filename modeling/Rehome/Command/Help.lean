import Rehome.Text.Basic

/-!
# Help

What the program tells about itself.
-/

namespace Rehome

namespace Help

/-- The name of the program and its version. -/
def version : Text :=
  "typemove 0.1.0\n".toList

/-- Lines as a text. -/
def ofLines (lines : List String) : Text :=
  lines.flatMap fun line => line.toList ++ ['\n']

/-- The options with a line for each. -/
def short : Text :=
  ofLines
    ["Move named type imports from storage modules into a shared types module",
      "",
      "Usage: typemove [OPTIONS] [ROOTS]...",
      "",
      "Arguments:",
      "  [ROOTS]...  Directories to rewrite (default: app and components)",
      "",
      "Options:",
      "      --map <FILE>            JSON relocation map to use instead of the built-in table",
      "      --destination <MODULE>  Module that relocated types are imported from",
      "  -n, --dry-run               Report what would change without writing any file",
      "  -l, --list                  Print one line per modified file",
      "      --json                  Print the summary as JSON",
      "      --color <WHEN>          Control color output: auto, always, never [default: auto] [possible values: auto, always, never]",
      "  -v, --verbose               Log every rewritten import",
      "  -q, --quiet                 Only log errors",
      "  -h, --help                  Print help (see more with '--help')",
      "  -V, --version               Print version"]

/-- The options with a paragraph for each. -/
def long : Text :=
  ofLines
    ["Move named type imports from storage modules into a shared types module",
      "",
      "Usage: typemove [OPTIONS] [ROOTS]...",
      "",
      "Arguments:",
      "  [ROOTS]...",
      "          Directories to rewrite (default: app and components)",
      "",
      "Options:",
      "      --map <FILE>",
      "          JSON relocation map to use instead of the built-in table",
      "",
      "      --destination <MODULE>",
      "          Module that relocated types are imported from",
      "",
      "  -n, --dry-run",
      "          Report what would change without writing any file",
      "",
      "  -l, --list",
      "          Print one line per modified file",
      "",
      "      --json",
      "          Print the summary as JSON",
      "",
      "      --color <WHEN>",
      "          Control color output: auto, always, never",
      "",
      "          Possible values:",
      "          - auto:   Auto-detect based on terminal and environment",
      "          - always: Always use colors",
      "          - never:  Never use colors",
      "          ",
      "          [default: auto]",
      "",
      "  -v, --verbose",
      "          Log every rewritten import",
      "",
      "  -q, --quiet",
      "          Only log errors",
      "",
      "  -h, --help",
      "          Print help (see a summary with '-h')",
      "",
      "  -V, --version",
      "          Print version"]

end Help

end Rehome
