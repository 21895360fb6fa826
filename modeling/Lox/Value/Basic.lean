import Lox.Fault
import Lox.Number.Layout
import Lox.Text.Quoted

/-!
# Values

The values of the language, what they are shown as, and when they are true and equal.

A function is known by its identity: two functions are equal only if one declaration, run once, made
both.

## Main definitions

* `Value`: the values
* `Value.isTruthy v`: `v` counts as true in a condition
* `Value.isEqual v w`: `v == w` in the language
* `Value.display v`: the text that `print` writes
* `Value.inspect v`: the text that a listing shows
-/

namespace Lox

/-- A function that a declaration made: its identity and what a call has to know. -/
structure FunctionRef where
  id : Nat
  name : String
  arity : Nat
  deriving DecidableEq, Repr

/-- A function of the host: the clock, or one that answers nil. -/
inductive Native where
  | clock
  | silent (id : Nat) (name : String) (arity : Nat)
  deriving DecidableEq, Repr

namespace Native

/-- The name under which a host function is known. -/
def name : Native → String
  | clock => "clock"
  | silent _ name _ => name

/-- The number of arguments of a host function. -/
def arity : Native → Nat
  | clock => 0
  | silent _ _ arity => arity

end Native

/-- The values of the language, and the integers of the host, which are none. -/
inductive Value where
  | nil
  | bool (b : Bool)
  | number (x : Float)
  | string (s : String)
  | function (f : FunctionRef)
  | native (f : Native)
  | foreign (n : Int)

namespace Value

/-- A number, and nothing that could be read as one. -/
def isNumber : Value → Bool
  | number _ => true
  | _ => false

/-- Only nil and false are false in a condition. -/
def isTruthy : Value → Bool
  | nil => false
  | bool b => b
  | _ => true

/-- Equality without conversions: values of different types are never equal, and numbers compare as
IEEE 754 says. -/
def isEqual : Value → Value → Bool
  | nil, nil => true
  | bool a, bool b => a == b
  | number x, number y => x == y
  | string s, string t => s == t
  | function f, function g => f.id == g.id
  | native f, native g => f == g
  | foreign m, foreign n => m == n
  | _, _ => false

/-- The text that `print` writes for a value. -/
def display : Value → Except Fault String
  | nil => .ok "nil"
  | bool true => .ok "true"
  | bool false => .ok "false"
  | number x => .ok (Number.displayText x)
  | string s => .ok s
  | function f => .ok s!"<fn {f.name}>"
  | native _ => .ok "<native fn>"
  | foreign n => .error (.notAValue n)

/-- The text that a listing shows for a value. -/
def inspect : Value → String
  | nil => "None"
  | bool true => "True"
  | bool false => "False"
  | number x => Number.literalText x
  | string s => Text.quoted s
  | function f => s!"LoxFunction({Text.quoted f.name})"
  | native f => s!"NativeFunction({Text.quoted f.name}, {f.arity})"
  | foreign n => toString n

end Value

end Lox
