import ScriptMachine.Embedding.Request
import ScriptMachine.Proofs.Safety.Run
import ScriptMachine.Proofs.Tree.Execution
import ScriptMachine.Proofs.Capture.Once
import ScriptMachine.Proofs.Capture.Held
import ScriptMachine.Proofs.Coroutine.Driven
import ScriptMachine.Proofs.Generators.LifeCycle
import ScriptMachine.Proofs.Outermost.Hook
import ScriptMachine.Proofs.Unwinding.Uncatchable
import ScriptMachine.Proofs.Binding.History
import ScriptMachine.Proofs.Binding.Bracket
import ScriptMachine.Proofs.Forwarding.Agreement
import ScriptMachine.Proofs.Ropes.Activation
import ScriptMachine.Proofs.Ropes.Machine
import ScriptMachine.Proofs.Ropes.Run
import ScriptMachine.Proofs.Loader.Precedence
import ScriptMachine.Proofs.Machine.Settings
import ScriptMachine.Proofs.Observation.Cadence
import ScriptMachine.Proofs.FrameLimit.Bound
import ScriptMachine.Proofs.Generators.Abandoned
import ScriptMachine.Proofs.Ropes.Length
import ScriptMachine.Proofs.Ropes.Flattening
import ScriptMachine.Proofs.Number.Numeral
import ScriptMachine.Proofs.Scope.Erased
import ScriptMachine.Proofs.Tree.OwnNames
import ScriptMachine.Proofs.Tree.Acceptance
import ScriptMachine.Proofs.Tree.Operands
import ScriptMachine.Proofs.Tree.Bindings
import ScriptMachine.Proofs.Returns.Run
import ScriptMachine.Proofs.Scope.Layers
import ScriptMachine.Proofs.Tree.Preorder
import ScriptMachine.Proofs.Callers.Undisturbed
import ScriptMachine.Proofs.Factory.Listening
import ScriptMachine.Proofs.Lifecycle.Events
import ScriptMachine.Proofs.Security.Provenance
import ScriptMachine.Proofs.Code.Labels
import ScriptMachine.Proofs.Code.Declarations
import ScriptMachine.Proofs.Settings.RoundTrip
import ScriptMachine.Proofs.Unwinding.Leftover
