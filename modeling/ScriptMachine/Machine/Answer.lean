import ScriptMachine.Machine.Program
import ScriptMachine.Store.Inspect

/-!
# Answering queries

The reply of the store to each query. No other code runs; of the host only the answers of
controllers and feature queries are needed, which are functions of its state.
-/

namespace ScriptMachine

variable {σ : Type}

/-- Make an executable for the context that the running thread is bound to. The domain is what
the controller of the context answers for the static domain; without a controller there must not
be one. -/
def Store.createExecutable (host : Host σ) (thread : Id .thread) (m : Store σ)
    (kind : RoutineKind) (r : SharedRoutine) (domain : Option Payload) :
    Except Fault Executable × Store σ :=
  if r.routine.kind ≠ kind then
    (.error (.invalidArgument (.kindMismatch kind r.routine.kind)), m)
  else
    match h : r.routine.defect? with
    | some d => (.error (.invalidArgument (.build (.defect d))), m)
    | none =>
      match m.current? thread with
      | none => (.error (.illegalState .noCurrentContext), m)
      | some c =>
        match (m.context c).controller with
        | some controller =>
          let (domain, state) := host.resolve controller domain m.host
          let (id, m) := { m with host := state }.fresh .executable
          (.ok { id, shared := r, security := some ⟨controller, domain⟩, valid := h }, m)
        | none =>
          if domain.isSome then (.error (.invalidArgument .domainWithoutController), m)
          else
            let (id, m) := m.fresh .executable
            (.ok { id, shared := r, security := none, valid := h }, m)

/-- Whether a context has a feature, as the policy of its factory answers. -/
def Store.hasFeature (host : Host σ) (m : Store σ) (c : Id .context) (f : Feature) : Bool :=
  match (m.factoryOf c).policy with
  | .standard => f.enabledByDefault
  | .planned plan => plan.hasFeature f
  | .custom p => host.hasFeature p c f m.host

/-- The reply to a query about contexts. -/
def ContextQuery.perform (host : Host σ) (thread : Id .thread) (m : Store σ) :
    (q : ContextQuery) → q.Reply × Store σ
  | create factory => m.newContext factory
  | state c => (m.context c, m)
  | current => (m.current? thread, m)
  | setVersion c version => ((), m.modifyContext c fun cx => { cx with version })
  | setThreshold c threshold => ((), m.modifyContext c (·.setThreshold threshold))
  | setFrameLimit c limit => ((), m.modifyContext c (·.setFrameLimit limit))
  | setCountsGenerated c counts =>
    ((), m.modifyContext c fun cx => { cx with countsGenerated := counts })
  | setController c controller =>
    if (m.context c).controller.isSome then (.error (.illegalState .controllerInstalled), m)
    else (.ok (), m.modifyContext c fun cx => { cx with controller := some controller })
  | setExtension c extension =>
    ((), m.modifyContext c fun cx => { cx with extension := some extension })
  | hasFeature c f => (m.hasFeature host c f, m)
  | requestCapture c =>
    match m.requestCapture c with
    | .ok (p, m) => (.ok p, m)
    | .error cause => (.error (.illegalState cause), m)

/-- The reply to a query about code. -/
def CodeQuery.perform (host : Host σ) (thread : Id .thread) (m : Store σ) :
    (q : CodeQuery) → q.Reply × Store σ
  | share r =>
    let (build, m) := m.fresh .routine
    (⟨⟨build, []⟩, r⟩, m)
  | create kind r domain => m.createExecutable host thread kind r domain
  | nested e index =>
    let (id, m) := m.fresh .executable
    match e.nested? id index with
    | some f => (.ok f, m)
    | none => (.error (.invalidArgument (.noNestedRoutine index)), m)

/-- The reply to a query, and the store afterwards. -/
def Query.perform (host : Host σ) (thread : Id .thread) (m : Store σ) :
    (q : Query σ) → q.Reply × Store σ
  | scope q =>
    let (reply, scopes) := q.perform m.scopes
    (reply, { m with scopes })
  | value q => m.flattening q.perform
  | context q => q.perform host thread m
  | factory q =>
    let (reply, factories) := q.perform m.factories
    (reply, { m with factories })
  | code q => q.perform host thread m
  | loader q =>
    let (reply, loaders) := q.perform m.loaders
    (reply, { m with loaders })
  | generator g => (m.generators.get g.id, m)
  | continuation k => (m.continuations.get k, m)
  | inspect v => (v.inspect m, m)
  | newHostFunction name =>
    let (id, m) := m.fresh .hostFunction
    (⟨id, name⟩, m)
  | newPolicy => m.fresh .policy
  | newListener => m.fresh .listener
  | newController => m.fresh .controller
  | newTree => m.fresh .tree
  | .host => (m.host, m)
  | setHost s => ((), { m with host := s })

end ScriptMachine
