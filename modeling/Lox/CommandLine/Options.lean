import Lox.Text.Integer
import Lox.Text.Quoted

/-!
# Options

The reading of a command line: options and the names of scripts, in any order.

A long option may be shortened as long as no other one starts in the same way, and takes its value
after an equals sign or as the next argument. Short options may be joined behind one dash. After
two dashes no argument is an option. The names of the scripts stand together: those that come after
a later option are not recognized.

## Main definitions

* `Flag`: the options
* `UsageError`: what is wrong with a command line
* `Argument.ofText text`: what an argument is by its form
* `Settings`: what the options and the scripts of a command line say
* `Invocation.ofArguments args`: what a command line asks for
-/

namespace Lox.CommandLine

/-! ## Options and errors -/

/-- The options. -/
inductive Flag where
  | help | interactive | parse | tokens | debug | recursionLimit | version
  deriving DecidableEq, Repr

namespace Flag

/-- All options, in the order of the usage. -/
def all : List Flag :=
  [help, interactive, parse, tokens, debug, recursionLimit, version]

/-- The letter of the short form of an option. -/
def letter? : Flag → Option Char
  | help => some 'h'
  | interactive => some 'i'
  | _ => none

/-- The long form of an option. -/
def long : Flag → String
  | help => "--help"
  | interactive => "--interactive"
  | parse => "--parse"
  | tokens => "--tokens"
  | debug => "--debug"
  | recursionLimit => "--recursion-limit"
  | version => "--version"

/-- The forms of an option, as messages name it. -/
def title (f : Flag) : String :=
  match f.letter? with
  | some c => "-" ++ String.singleton c ++ "/" ++ f.long
  | none => f.long

/-- The option with this letter. -/
def ofLetter? (c : Char) : Option Flag :=
  all.find? (·.letter? == some c)

/-- The option with this long form. -/
def ofLong? (text : String) : Option Flag :=
  all.find? (·.long == text)

/-- The options whose long form starts with these characters. -/
def startingWith (start : List Char) : List Flag :=
  all.filter fun f => start.isPrefixOf f.long.toList

end Flag

/-- What is wrong with a command line. -/
inductive UsageError where
  | ambiguous (text : String) (candidates : List Flag)
  | ignoredValue (flag : Flag) (value : String)
  | missingValue (flag : Flag)
  | invalidInteger (flag : Flag) (value : String)
  | unrecognized (texts : List String)

/-- The message for a usage error. -/
def UsageError.message : UsageError → String
  | ambiguous text candidates =>
    s!"ambiguous option: {text} could match " ++ ", ".intercalate (candidates.map Flag.long)
  | ignoredValue flag value =>
    s!"argument {flag.title}: ignored explicit argument {Text.quoted value}"
  | missingValue flag => s!"argument {flag.title}: expected one argument"
  | invalidInteger flag value =>
    s!"argument {flag.title}: invalid int value: {Text.quoted value}"
  | unrecognized texts => "unrecognized arguments: " ++ " ".intercalate texts

/-! ## Arguments -/

/-- An argument by its form. -/
inductive Argument where
  /-- two dashes, after which no argument is an option -/
  | separator
  | operand (text : String)
  /-- an option in its long form, with the value after its equals sign -/
  | long (flag : Flag) (value : Option String)
  /-- an option in its short form, with the characters behind its letter -/
  | short (flag : Flag) (tail : Option (List Char))
  /-- something in the form of an option -/
  | unknown (text : String)

/-- The text before the first equals sign, and the text after it if there is one. -/
def splitAtEqual (cs : List Char) : List Char × Option String :=
  match cs.dropWhile (· ≠ '=') with
  | [] => (cs, none)
  | _ :: value => (cs.takeWhile (· ≠ '='), some (String.ofList value))

/-- Digits of any script, at least one of them or at least one after a point. -/
def isUnsignedNumber (cs : List Char) : Bool :=
  let isDigit (c : Char) : Bool := (Text.digitValue? c).isSome
  match cs.dropWhile isDigit with
  | [] => !cs.isEmpty
  | '.' :: fraction => !fraction.isEmpty && fraction.all isDigit
  | _ => false

/-- A minus sign and a decimal number after it; a newline at its end does not matter. -/
def isNegativeNumber : List Char → Bool
  | '-' :: cs => isUnsignedNumber (if cs.getLast? = some '\n' then cs.dropLast else cs)
  | _ => false

/-- What is in the form of an option but is none. -/
def Argument.ofUnknown (text : String) : Argument :=
  if isNegativeNumber text.toList || text.toList.contains ' ' then operand text else unknown text

/-- What an argument is by its form. -/
def Argument.ofText (text : String) : Except UsageError Argument :=
  match text.toList with
  | '-' :: '-' :: _ =>
    let (name, value) := splitAtEqual text.toList
    match Flag.ofLong? (String.ofList name), Flag.startingWith name with
    | some flag, _ => .ok (long flag value)
    | none, [flag] => .ok (long flag value)
    | none, [] => .ok (ofUnknown text)
    | none, candidates => .error (.ambiguous text candidates)
  | ['-'] => .ok (operand text)
  | '-' :: c :: tail =>
    match Flag.ofLetter? c, tail with
    | some flag, [] => .ok (short flag none)
    | some flag, '=' :: tail => .ok (short flag (some tail))
    | some flag, tail => .ok (short flag (some tail))
    | none, _ => .ok (ofUnknown text)
  | _ => .ok (operand text)

/-- What the arguments of a command line are by their form. -/
def Argument.ofTexts : List String → Except UsageError (List Argument)
  | [] => .ok []
  | text :: texts =>
    if text = "--" then .ok (separator :: texts.map operand)
    else do
      let argument ← ofText text
      return argument :: (← ofTexts texts)

/-! ## Settings -/

/-- What the options and the scripts of a command line say. The limit of the recursion is passed to
the host; the calls that may be nested in each other are bounded in any case. -/
structure Settings where
  scripts : List String := []
  interactive : Bool := false
  parse : Bool := false
  tokens : Bool := false
  debug : Bool := false
  recursionLimit : Int := 10000

/-- The limit of the recursion that the host is asked for. -/
def Settings.hostLimit (s : Settings) : Int :=
  max s.recursionLimit 1000

/-- The largest limit of the recursion that the host accepts. -/
def largestHostLimit : Int := 2147483647

/-- What a command line asks for. -/
inductive Invocation where
  | help
  | version
  | run (settings : Settings)

/-- Where the names of the scripts are: still to come, being read, or behind. -/
inductive Operands where
  | ahead | here | behind
  deriving DecidableEq, Repr

/-- A command line that is read in part: what it says so far, where its scripts are, and what was
not recognized, the newest one first. -/
structure Reading where
  settings : Settings := {}
  operands : Operands := .ahead
  extras : List String := []

namespace Reading

/-- The next argument is no operand. -/
def endOperands (r : Reading) : Reading :=
  match r.operands with
  | .here => { r with operands := .behind }
  | _ => r

/-- Reads an operand. -/
def operand (text : String) (r : Reading) : Reading :=
  match r.operands with
  | .behind => { r with extras := text :: r.extras }
  | _ =>
    { r with
      operands := .here
      settings := { r.settings with scripts := r.settings.scripts ++ [text] } }

/-- Reads two dashes. -/
def separator (r : Reading) : Reading :=
  match r.operands with
  | .behind => { r with extras := "--" :: r.extras }
  | _ => { r with operands := .here }

/-- Reads something that is not recognized. -/
def unknown (text : String) (r : Reading) : Reading :=
  { r with extras := text :: r.extras }

/-- Changes what the command line says. -/
def set (change : Settings → Settings) (r : Reading) : Reading :=
  { r with settings := change r.settings }

/-- What the whole command line asks for. -/
def finish (r : Reading) : Except UsageError Invocation :=
  if r.extras.isEmpty then .ok (.run r.settings) else .error (.unrecognized r.extras.reverse)

end Reading

/-- The options that are joined behind a dash: one, and those with the letters after it. -/
def joined (flag : Flag) : List Char → Except UsageError (List Flag)
  | [] => .ok [flag]
  | c :: cs =>
    match Flag.ofLetter? c with
    | some next => return flag :: (← joined next cs)
    | none => .error (.ignoredValue flag (String.ofList (c :: cs)))

/-- The limit that a text says. -/
def limit? (text : String) : Except UsageError Int :=
  match Text.integer? text with
  | some n => .ok n
  | none => .error (.invalidInteger .recursionLimit text)

/-- Takes options without values from left to right. The help and the version end the reading. -/
def takeFlags (r : Reading) : List Flag → Reading ⊕ Invocation
  | [] => .inl r
  | .help :: _ => .inr .help
  | .version :: _ => .inr .version
  | .interactive :: flags => takeFlags (r.set fun s => { s with interactive := true }) flags
  | .parse :: flags => takeFlags (r.set fun s => { s with parse := true }) flags
  | .tokens :: flags => takeFlags (r.set fun s => { s with tokens := true }) flags
  | .debug :: flags => takeFlags (r.set fun s => { s with debug := true }) flags
  | .recursionLimit :: flags => takeFlags r flags

/-- Sets the limit of the recursion. -/
def takeLimit (r : Reading) (text : String) : Except UsageError Reading := do
  let n ← limit? text
  return r.set fun s => { s with recursionLimit := n }

/-- The flags of an option, if it is one without a value. -/
def flagsOf : Argument → Except UsageError (List Flag)
  | .short flag none => .ok [flag]
  | .short flag (some []) => .error (.ignoredValue flag "")
  | .short flag (some tail) => joined flag tail
  | .long flag none => .ok [flag]
  | .long flag (some value) => .error (.ignoredValue flag value)
  | _ => .ok []

/-- Reads arguments from left to right. -/
def readArguments (r : Reading) : List Argument → Except UsageError Invocation
  | [] => r.finish
  | .separator :: arguments => readArguments r.separator arguments
  | .operand text :: arguments => readArguments (r.operand text) arguments
  | .unknown text :: arguments => readArguments (r.endOperands.unknown text) arguments
  | .long .recursionLimit (some text) :: arguments => do
    readArguments (← takeLimit r.endOperands text) arguments
  | .long .recursionLimit none :: .operand text :: arguments => do
    readArguments (← takeLimit r.endOperands text) arguments
  | .long .recursionLimit none :: _ => .error (.missingValue .recursionLimit)
  | argument :: arguments => do
    match takeFlags r.endOperands (← flagsOf argument) with
    | .inl r => readArguments r arguments
    | .inr invocation => return invocation

/-- What a command line asks for. -/
def Invocation.ofArguments (texts : List String) : Except UsageError Invocation := do
  readArguments {} (← Argument.ofTexts texts)

end Lox.CommandLine
