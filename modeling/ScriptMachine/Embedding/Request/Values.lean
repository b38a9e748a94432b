import ScriptMachine.Embedding.Answer

/-!
# Requests about values
-/

namespace ScriptMachine.Embedding

/-- How a chain of additions grows. -/
inductive ChainSide where
  | right
  | left
  | double

/-- A request about values. A result is kept under a name, if one is given. -/
inductive ValueRequest where
  | give (v : ValueSpec) (keep : Option String)
  | flatten (v : ValueSpec) (keep : Option String)
  | add (v w : ValueSpec) (keep : Option String)
  | equality (v w : ValueSpec)
  | report (v : ValueSpec)
  /-- Add again and again. -/
  | chain (v w : ValueSpec) (count : Nat) (side : ChainSide) (keep : Option String)
  | inspect (v : ValueSpec)

namespace ValueRequest

open Attempt

/-- Ask a query about values. -/
def query (q : ValueQuery) : Attempt q.Reply := ask (.value q)

/-- What there is to know about a value. Whether a rope is flat is looked at first. -/
def reportOn (v : Value) : Attempt ValueReport := do
  let join ← match v with
    | .string r =>
      if r.isJoin then pure (some (r.byteLength, r.isEmpty, ← query (.isFlattened r)))
      else pure none
    | _ => pure none
  return {
    typeName := v.typeName
    text := ← query (.display v)
    truthy := v.isTruthy
    toNumber := ← query (.number v)
    number? := v.number?
    isString := v.isString
    isUndefined := v.isUndefined
    isCallable := v.isCallable
    join }

/-- The sum of a chain of additions. -/
def chained (w : Value) (side : ChainSide) : Nat → Value → Attempt Value
  | 0, sum => return sum
  | n + 1, sum => do
    let sum ← match side with
      | .right => query (.add sum w)
      | .left => query (.add w sum)
      | .double => query (.add sum sum)
    chained w side n sum

/-- The length of a rope, if the value is a concatenation. -/
def ropeLength? : Value → Option UInt64
  | .string r => if r.isJoin then some r.byteLength else none
  | _ => none

/-- Number of characters that are shown of a chain. -/
def headLength : Nat := 12

/-- Carry out the request. -/
def perform : ValueRequest → Attempt (Answer Record)
  | give v keep => do Attempt.give keep (← evaluate v)
  | flatten v keep => do Attempt.give keep (← query (.flatten (← evaluate v)))
  | add v w keep => do
    let v ← evaluate v
    let w ← evaluate w
    Attempt.give keep (← query (.add v w))
  | equality v w => do
    let v ← evaluate v
    let w ← evaluate w
    let strict ← query (.strictEquals v w)
    return .equality strict (← query (.equals v w))
  | report v => do return .valueReport (← reportOn (← evaluate v))
  | chain v w count side keep => do
    let v ← evaluate v
    let w ← evaluate w
    let sum ← chained w side count v
    let text ← query (.display sum)
    keepValue keep sum
    return .chain text.utf8ByteSize (String.ofList (text.toList.take headLength)) (ropeLength? sum)
  | inspect v => do
    let v ← evaluate v
    return .text (← ask (.inspect v))

end ValueRequest

end ScriptMachine.Embedding
