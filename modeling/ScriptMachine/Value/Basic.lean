import ScriptMachine.Code.Executable
import ScriptMachine.Number.Reading
import ScriptMachine.Value.Rope

/-!
# Values

The values of scripts and the operators on them. Scopes double as objects. Functions, host
functions, generators and objects are compared by identity, strings by their text.

An operator that looks at the text of a string flattens it, so operators are computations that
may change which ropes are flat.
-/

namespace ScriptMachine

/-- A function that the host provides. -/
structure HostFunction where
  id : Id .hostFunction
  name : String
  deriving DecidableEq, Repr

/-- A suspended, running or finished activation of a generator function. -/
structure Generator where
  id : Id .generator
  body : Executable

/-- A script value. -/
inductive Value where
  | undefined
  | null
  | bool (b : Bool)
  | number (x : Float)
  | string (s : Rope)
  | object (scope : Id .scope)
  | executable (e : Executable)
  | hostFunction (f : HostFunction)
  | generator (g : Generator)
  deriving Inhabited

namespace Value

/-- A flat string. -/
abbrev text (s : String) : Value := .string (.flat s)

/-- The name of the type, as scripts know it. -/
def typeName : Value → String
  | .undefined => "undefined"
  | .null | .object _ | .generator _ => "object"
  | .bool _ => "boolean"
  | .number _ => "number"
  | .string _ => "string"
  | .executable _ | .hostFunction _ => "function"

/-- Whether the value is undefined. -/
def isUndefined : Value → Bool
  | .undefined => true
  | _ => false

/-- Whether the value is a string. -/
def isString : Value → Bool
  | .string _ => true
  | _ => false

/-- Whether the value can be called. -/
def isCallable : Value → Bool
  | .executable _ | .hostFunction _ => true
  | _ => false

/-- Whether a condition with this value holds. -/
def isTruthy : Value → Bool
  | .undefined | .null => false
  | .bool b => b
  | .number x => x != 0.0 && !x.isNaN
  | .string s => !s.isEmpty
  | _ => true

/-- The text of a value that is no string. -/
def plainText : Value → String
  | .undefined => "undefined"
  | .null => "null"
  | .bool b => if b then "true" else "false"
  | .number x => Number.render x
  | .string s => s.text
  | .object _ => "[object Object]"
  | .executable e => "function " ++ e.name ++ "() \x7b [interpreted] \x7d"
  | .hostFunction f => "function " ++ f.name ++ "() \x7b [native code] \x7d"
  | .generator _ => "[object Generator]"

/-- The text of a value. A string is flattened. -/
def display : Value → Flattening String
  | .string s => s.flatten
  | v => pure v.plainText

/-- The number that a value stands for. A string is flattened and read. -/
def toNumber : Value → Flattening Float
  | .null => pure 0.0
  | .bool b => pure (if b then 1.0 else 0.0)
  | .number x => pure x
  | .string s => do return Number.read (← s.flatten)
  | _ => pure (0.0 / 0.0)

/-- The number, if the value is one. -/
def number? : Value → Option Float
  | .number x => some x
  | _ => none

/-- The string with the text of a value; strings stay as they are. -/
def toRope : Value → Rope
  | .string s => s
  | v => .flat v.plainText

/-- A flat string in place of a concatenation. -/
def flatten : Value → Flattening Value
  | .string s => do return .text (← s.flatten)
  | v => pure v

/-- The concatenation of the texts of two values. -/
def concat (v w : Value) : Flattening Value := do
  return .string (← v.toRope.concat w.toRope)

/-- The operator `+`: concatenation if one operand is a string, else the sum. -/
def add (v w : Value) : Flattening Value := do
  if v.isString || w.isString then v.concat w
  else return .number ((← v.toNumber) + (← w.toNumber))

/-- The operator `===`. -/
def strictEquals (v w : Value) : Flattening Bool :=
  match v, w with
  | .undefined, .undefined | .null, .null => pure true
  | .bool a, .bool b => pure (a == b)
  | .number a, .number b => pure (a == b)
  | .string a, .string b => do return (← a.flatten) == (← b.flatten)
  | .object a, .object b => pure (a == b)
  | .executable a, .executable b => pure (a.id == b.id)
  | .hostFunction a, .hostFunction b => pure (a.id == b.id)
  | .generator a, .generator b => pure (a.id == b.id)
  | _, _ => pure false

/-- Equality of values as the host sees it: `===`, except that a number which is not a number
equals itself. -/
def equals (v w : Value) : Flattening Bool :=
  match v, w with
  | .number a, .number b => pure (a == b || (a.isNaN && b.isNaN))
  | v, w => v.strictEquals w

/-- Apply an operator. The right operand of an arithmetic operator is turned into a number
first. -/
def applyBinary (op : BinaryOp) (v w : Value) : Flattening Value :=
  let onNumbers (f : Float → Float → Value) : Flattening Value := do
    let y ← w.toNumber
    let x ← v.toNumber
    return f x y
  match op with
  | .add => v.add w
  | .sub => onNumbers fun x y => .number (x - y)
  | .mul => onNumbers fun x y => .number (x * y)
  | .div => onNumbers fun x y => .number (x / y)
  | .lt => do
    let x ← v.toNumber
    let y ← w.toNumber
    return .bool (x < y)
  | .strictEq => return .bool (← v.strictEquals w)

end Value

end ScriptMachine
