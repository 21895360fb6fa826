/-!
# Diagnostics

The reports of errors that are found before a program runs.

## Main definitions

* `Diagnostic`: a report, with the place in the source that it is about
* `Diagnostic.text d`: the report in one line
-/

namespace Lox

/-- A report about a line of a source: where in the line, what is wrong, and the number of
characters before the place, if it is known. -/
structure Diagnostic where
  line : Int
  location : String
  message : String
  offset : Option Int
  deriving DecidableEq, Repr

/-- The report in one line. -/
def Diagnostic.text (d : Diagnostic) : String :=
  s!"[line {d.line}] Error {d.location}: {d.message}"

end Lox
