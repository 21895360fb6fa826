/-!
# Usage

The texts that tell how the program is called.

## Main definitions

* `usage`: the short text, which stands in front of usage errors
* `help`: the long text
-/

namespace Lox.CommandLine

/-- How the program is called. -/
def usage : List String :=
  ["usage: lox [-h] [-i] [--parse] [--tokens] [--debug]",
    "           [--recursion-limit RECURSION_LIMIT] [--version]",
    "           [script ...]"]

/-- How the program is called and what its options do. -/
def help : List String :=
  usage ++
    ["",
      "Lox Programming Language - tree-walking interpreter",
      "",
      "positional arguments:",
      "  script                Lox script file to execute",
      "",
      "options:",
      "  -h, --help            show this help message and exit",
      "  -i, --interactive     Start interactive mode",
      "  --parse               Parse file and show the AST (for debugging)",
      "  --tokens              Scan file and show the tokens (for debugging)",
      "  --debug               Enable debug output for all stages",
      "  --recursion-limit RECURSION_LIMIT",
      "                        Host recursion limit, bounds Lox call depth (default:",
      "                        10000)",
      "  --version             show program's version number and exit",
      "",
      "Examples:",
      "  lox script.lox             # Run a Lox script",
      "  lox                        # Interactive mode",
      "  lox --parse script.lox     # Parse and show the AST",
      "  lox --tokens script.lox    # Scan and show the tokens",
      "  lox --debug script.lox     # Run with debug output",
      "        "]

end Lox.CommandLine
