/-!
# Exit codes

How the program tells its caller what became of a command line.

## Main definitions

* `ExitCode.ok`, `ExitCode.usage`, `ExitCode.dataError`, `ExitCode.noInput`, `ExitCode.software`,
  `ExitCode.uncaught`
-/

namespace Lox.ExitCode

/-- Nothing went wrong. -/
def ok : Nat := 0

/-- The command line has a mistake. -/
def usage : Nat := 64

/-- The source has an error, or its run ended with one. -/
def dataError : Nat := 65

/-- The script cannot be read. -/
def noInput : Nat := 66

/-- The program gave up, as on a recursion that is too deep. -/
def software : Nat := 70

/-- The host has stopped the program with a report of its own. -/
def uncaught : Nat := 1

end Lox.ExitCode
