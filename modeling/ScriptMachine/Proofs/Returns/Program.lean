import ScriptMachine.Machine.Answer
import ScriptMachine.Proofs.Returns.Activation

/-!
# Host code that cannot tell returns apart

Host code is given values and hands values on. `Program.Matches U S p p'` says that `p'` does with
explicit returns what `p` does: it asks the same queries and performs the same actions, with
explicit returns in the code that it hands over, shares or looks at, and it goes on so whatever it
is told, up to the counts of instructions. `Host.Matches` says so of all code of two hosts.
-/

namespace ScriptMachine

variable {σ : Type} (U : Units) (S : σ → σ → Prop)

/-! ## Results, actions and queries -/

/-- The step with explicit returns in its value. -/
def GeneratorStep.explicit (s : GeneratorStep) : GeneratorStep where
  value := s.value.explicit U
  done := s.done

/-- The result with explicit returns in the code that it holds. -/
def explicitResult : (κ : Kind) → κ.Result → κ.Result
  | .completion, o => explicitEnd U (Value.explicit U) o
  | .exit, e => explicitEnd U (Exit.explicit U) e
  | .step, e => explicitEnd U (GeneratorStep.explicit U) e
  | .entered, x => x
  | .left, x => x
  | .made, x => x
  | .verdict, x => x
  | .guarded, x => x
  | .done, x => x

/-- The same action with explicit returns, and how its results on both sides are related. -/
inductive Action.Matches : (a b : Action) → (a.kind.Result → b.kind.Result → Prop) → Prop
  | call (f : Callable) (site : CallSite) :
      Action.Matches (.call f site) (.call (f.explicit U) (site.explicit U))
        fun x y => y = explicitResult U .completion x
  | callOutermost (f : Callable) (site : CallSite) (isStrict : Bool) :
      Action.Matches (.callOutermost f site isStrict)
        (.callOutermost (f.explicit U) (site.explicit U) isStrict)
        fun x y => y = explicitResult U .completion x
  | execute (e : Executable) (c : Id .context) (s : Id .scope) :
      Action.Matches (.execute e c s) (.execute (e.explicit U) c s)
        fun x y => y = explicitResult U .completion x
  | executeCapturing (e : Executable) (c : Id .context) (s : Id .scope) :
      Action.Matches (.executeCapturing e c s) (.executeCapturing (e.explicit U) c s)
        fun x y => y = explicitResult U .completion x
  | callCapturing (e : Executable) (c : Id .context) (s : Id .scope) (args : List Value) :
      Action.Matches (.callCapturing e c s args)
        (.callCapturing (e.explicit U) c s (args.map (Value.explicit U)))
        fun x y => y = explicitResult U .completion x
  | resume (k : Id .continuation) (c : Id .context) (s : Id .scope) (v : Value) :
      Action.Matches (.resume k c s v) (.resume k c s (v.explicit U))
        fun x y => y = explicitResult U .completion x
  | step (via : Executable) (g : Generator) (op : GeneratorOp) (c : Id .context) (s : Id .scope)
      (v : Value) :
      Action.Matches (.step via g op c s v)
        (.step (via.explicit U) (g.explicit U) op c s (v.explicit U))
        fun x y => y = explicitResult U .step x
  | enter (f : Id .factory) (requested : Option (Id .context)) :
      Action.Matches (.enter f requested) (.enter f requested) fun x y => y = x
  | exit : Action.Matches .exit .exit fun x y => y = x
  | makeContext (f : Id .factory) :
      Action.Matches (.makeContext f) (.makeContext f) fun x y => y = x

/-- A query that no code goes into, and neither code nor a count comes out of. -/
def Query.IsCodeless : Query σ → Prop
  | .scope (.create _) | .scope (.has _ _) | .value (.isFlattened _) => True
  | .context (.state _) => False
  | .context _ | .factory _ | .loader _ => True
  | .newHostFunction _ | .newPolicy | .newListener | .newController | .newTree => True
  | _ => False

/-- The same query with explicit returns, and how its replies on both sides are related. -/
inductive Query.Matches : (q p : Query σ) → (q.Reply → p.Reply → Prop) → Prop
  | codeless {q : Query σ} (h : q.IsCodeless) : Query.Matches q q fun x y => y = x
  | scopeState (s : Id .scope) :
      Query.Matches (.scope (.state s)) (.scope (.state s)) fun x y => y = x.explicit U
  | find (s : Id .scope) (name : String) :
      Query.Matches (.scope (.find s name)) (.scope (.find s name))
        fun x y => y = x.map (Value.explicit U)
  | put (s : Id .scope) (name : String) (v : Value) :
      Query.Matches (.scope (.put s name v)) (.scope (.put s name (v.explicit U)))
        fun x y => y = x
  | define (s : Id .scope) (name : String) (v : Value) :
      Query.Matches (.scope (.define s name v)) (.scope (.define s name (v.explicit U)))
        fun x y => y = x
  | delete (s : Id .scope) (name : String) :
      Query.Matches (.scope (.delete s name)) (.scope (.delete s name))
        fun x y => y = x.map (Value.explicit U)
  | display (v : Value) :
      Query.Matches (.value (.display v)) (.value (.display (v.explicit U))) fun x y => y = x
  | number (v : Value) :
      Query.Matches (.value (.number v)) (.value (.number (v.explicit U))) fun x y => y = x
  | add (v w : Value) :
      Query.Matches (.value (.add v w)) (.value (.add (v.explicit U) (w.explicit U)))
        fun x y => y = x
  | concat (v w : Value) :
      Query.Matches (.value (.concat v w)) (.value (.concat (v.explicit U) (w.explicit U)))
        fun x y => y = x
  | strictEquals (v w : Value) :
      Query.Matches (.value (.strictEquals v w))
        (.value (.strictEquals (v.explicit U) (w.explicit U))) fun x y => y = x
  | equals (v w : Value) :
      Query.Matches (.value (.equals v w)) (.value (.equals (v.explicit U) (w.explicit U)))
        fun x y => y = x
  | flatten (v : Value) :
      Query.Matches (.value (.flatten v)) (.value (.flatten (v.explicit U)))
        fun x y => y = x.explicit U
  | message (e : Abrupt) :
      Query.Matches (.value (.message e)) (.value (.message (e.explicit U))) fun x y => y = x
  | contextState (c : Id .context) :
      Query.Matches (.context (.state c)) (.context (.state c))
        fun x y => y.uncounted = x.uncounted
  | share (r : Routine) :
      Query.Matches (.code (.share r)) (.code (.share (r.explicit U)))
        fun x y => y = x.explicit U
  | create (kind : RoutineKind) (r : SharedRoutine) (domain : Option Payload) :
      Query.Matches (.code (.create kind r domain)) (.code (.create kind (r.explicit U) domain))
        fun x y => y = x.map (Executable.explicit U)
  | nested (e : Executable) (index : Nat) :
      Query.Matches (.code (.nested e index)) (.code (.nested (e.explicit U) index))
        fun x y => y = x.map (Executable.explicit U)
  | generator (g : Generator) :
      Query.Matches (.generator g) (.generator (g.explicit U)) fun x y => y = x.explicit U
  | continuation (k : Id .continuation) :
      Query.Matches (.continuation k) (.continuation k) fun x y => y = x.explicit U
  | inspect (v : Value) :
      Query.Matches (.inspect v) (.inspect (v.explicit U)) fun x y => y = x
  | host : Query.Matches .host .host S
  | setHost {s t : σ} (h : S s t) : Query.Matches (.setHost s) (.setHost t) fun x y => y = x

/-! ## Programs and hosts -/

/-- The second program does with explicit returns what the first one does. -/
inductive Program.Matches : {κ : Kind} → Program σ κ → Program σ κ → Prop
  | finish {κ : Kind} {x y : κ.Result} (h : y = explicitResult U κ x) :
      Program.Matches (.finish x) (.finish y)
  | panic {κ : Kind} : Program.Matches (.panic (κ := κ)) .panic
  | ask {κ : Kind} {q q' : Query σ} {R : q.Reply → q'.Reply → Prop} {k : q.Reply → Program σ κ}
      {k' : q'.Reply → Program σ κ} (hq : q.Matches U S q' R)
      (hk : ∀ x y, R x y → Program.Matches (k x) (k' y)) :
      Program.Matches (.ask q k) (.ask q' k')
  | act {κ : Kind} {a a' : Action} {R : a.kind.Result → a'.kind.Result → Prop}
      {k : a.kind.Result → Program σ κ} {k' : a'.kind.Result → Program σ κ}
      (ha : a.Matches U a' R) (hk : ∀ x y, R x y → Program.Matches (k x) (k' y)) :
      Program.Matches (.act a k) (.act a' k')
  | bracket {κ : Kind} (f : Id .factory) {body body' : Id .context → Program σ .done}
      {k k' : Except Fault Unit → Program σ κ} (hbody : ∀ c, Program.Matches (body c) (body' c))
      (hk : ∀ x, Program.Matches (k x) (k' x)) :
      Program.Matches (.bracket f body k) (.bracket f body' k')
  | guard {κ : Kind} {body body' : Program σ .done} {k k' : Bool → Program σ κ}
      (hbody : Program.Matches body body') (hk : ∀ x, Program.Matches (k x) (k' x)) :
      Program.Matches (.guard body k) (.guard body' k')

/-- The code of the second host does with explicit returns what that of the first one does. The
states of the hosts may hold code, so there is a relation between them. -/
structure Host.Matches (host host' : Host σ) : Prop where
  run : ∀ f site, (host.run f site).Matches U S (host'.run f (site.explicit U))
  makeContext : ∀ p f, (host.makeContext p f).Matches U S (host'.makeContext p f)
  outermost : ∀ p f site, (host.outermost p f site).Matches U S
    (host'.outermost p (f.explicit U) (site.explicit U))
  observe : ∀ p c n, (host.observe p c n).Matches U S (host'.observe p c n)
  hasFeature : ∀ p c f s s', S s s' → host'.hasFeature p c f s' = host.hasFeature p c f s
  notify : ∀ l event c, (host.notify l event c).Matches U S (host'.notify l event c)
  resolve : ∀ controller domain s s', S s s' →
    (host'.resolve controller domain s').1 = (host.resolve controller domain s).1 ∧
      S (host.resolve controller domain s).2 (host'.resolve controller domain s').2

/-! ## Making executables -/

namespace Store

variable {m : Store σ} {kind : RoutineKind} {r : SharedRoutine}

/-- Make an executable of valid code of the kind that was asked for. -/
def makeExecutable (host : Host σ) (thread : Id .thread) (m : Store σ) (r : SharedRoutine)
    (valid : r.routine.Valid) (domain : Option Payload) : Except Fault Executable × Store σ :=
  match m.current? thread with
  | none => (.error (.illegalState .noCurrentContext), m)
  | some c =>
    match (m.context c).controller with
    | some controller =>
      let (domain, state) := host.resolve controller domain m.host
      let (id, m) := { m with host := state }.fresh .executable
      (.ok { id, shared := r, security := some ⟨controller, domain⟩, valid }, m)
    | none =>
      if domain.isSome then (.error (.invalidArgument .domainWithoutController), m)
      else
        let (id, m) := m.fresh .executable
        (.ok { id, shared := r, security := none, valid }, m)

variable (host : Host σ) (thread : Id .thread) (domain : Option Payload)

theorem createExecutable_of_valid (hkind : ¬ r.routine.kind ≠ kind) (hr : r.routine.Valid) :
    m.createExecutable host thread kind r domain = m.makeExecutable host thread r hr domain := by
  unfold createExecutable
  rw [if_neg hkind]
  split
  · next d hd => cases hr.symm.trans hd
  · rfl

theorem createExecutable_of_defect (hkind : ¬ r.routine.kind ≠ kind) {d : Defect}
    (hd : r.routine.defect? = some d) :
    m.createExecutable host thread kind r domain =
      (.error (.invalidArgument (.build (.defect d))), m) := by
  unfold createExecutable
  rw [if_neg hkind]
  split
  · next e he =>
    obtain rfl := Option.some.inj (hd.symm.trans he)
    rfl
  · next hvalid => cases hd.symm.trans hvalid

end Store

/-! ## Queries -/

namespace Store.Matches

variable {U S} {host host' : Host σ} {m m' : Store σ}

theorem makeExecutable (hm : m.Matches U S m') (hhost : host.Matches U S host')
    (thread : Id .thread) (r : SharedRoutine) (hr : r.routine.Valid) (domain : Option Payload) :
    (m'.makeExecutable host' thread (r.explicit U) (hr.explicit U) domain).1 =
        (m.makeExecutable host thread r hr domain).1.map (Executable.explicit U) ∧
      (m.makeExecutable host thread r hr domain).2.Matches U S
        (m'.makeExecutable host' thread (r.explicit U) (hr.explicit U) domain).2 := by
  obtain ⟨hid, hfresh⟩ := hm.fresh .executable
  unfold Store.makeExecutable
  rw [hm.current]
  cases m.current? thread with
  | none => exact ⟨rfl, hm⟩
  | some c =>
    dsimp only
    rw [hm.controller]
    cases (m.context c).controller with
    | none =>
      dsimp only
      split
      · exact ⟨rfl, hm⟩
      · rw [hid]
        exact ⟨rfl, hfresh⟩
    | some controller =>
      obtain ⟨hdomain, hstate⟩ := hhost.resolve controller domain _ _ hm.host
      have hm₁ : Store.Matches U S { m with host := (host.resolve controller domain m.host).2 }
          { m' with host := (host'.resolve controller domain m'.host).2 } :=
        { hm with host := hstate }
      obtain ⟨hid, hm₂⟩ := hm₁.fresh .executable
      dsimp only
      rw [hid, hdomain]
      exact ⟨rfl, hm₂⟩

theorem createExecutable (hm : m.Matches U S m') (hhost : host.Matches U S host')
    (thread : Id .thread) (kind : RoutineKind) (r : SharedRoutine) (domain : Option Payload) :
    (m'.createExecutable host' thread kind (r.explicit U) domain).1 =
        (m.createExecutable host thread kind r domain).1.map (Executable.explicit U) ∧
      (m.createExecutable host thread kind r domain).2.Matches U S
        (m'.createExecutable host' thread kind (r.explicit U) domain).2 := by
  have hkind : (r.explicit U).routine.kind = r.routine.kind := Routine.kind_explicit U r.routine
  have hdefect : (r.explicit U).routine.defect? = r.routine.defect? :=
    Routine.defect?_explicit U r.routine
  by_cases hk : r.routine.kind ≠ kind
  · rw [Store.createExecutable, if_pos (hkind ▸ hk), Store.createExecutable, if_pos hk, hkind]
    exact ⟨rfl, hm⟩
  have hk' : ¬ (r.explicit U).routine.kind ≠ kind := hkind ▸ hk
  rcases Option.eq_none_or_eq_some r.routine.defect? with hd | ⟨d, hd⟩
  · rw [Store.createExecutable_of_valid host thread domain hk hd,
      Store.createExecutable_of_valid host' thread domain hk' (hdefect.trans hd)]
    exact hm.makeExecutable hhost thread r hd domain
  · rw [Store.createExecutable_of_defect host thread domain hk hd,
      Store.createExecutable_of_defect host' thread domain hk' (hdefect.trans hd)]
    exact ⟨rfl, hm⟩

theorem hasFeature (hm : m.Matches U S m') (hhost : host.Matches U S host') (c : Id .context)
    (f : Feature) : m'.hasFeature host' c f = m.hasFeature host c f := by
  unfold Store.hasFeature
  rw [hm.factoryOf]
  split
  · rfl
  · rfl
  · exact hhost.hasFeature _ c f _ _ hm.host

/-- A query about contexts, other than for the state of one. -/
theorem ask_context (hm : m.Matches U S m') (hhost : host.Matches U S host') (thread : Id .thread)
    {q : ContextQuery} (hq : ∀ c, q ≠ .state c) :
    (q.perform host' thread m').1 = (q.perform host thread m).1 ∧
      (q.perform host thread m).2.Matches U S (q.perform host' thread m').2 := by
  cases q with
  | create f => exact hm.newContext f
  | state c => exact absurd rfl (hq c)
  | current => exact ⟨hm.current thread, hm⟩
  | setController c controller =>
    simp only [ContextQuery.perform, hm.controller]
    split
    · exact ⟨rfl, hm⟩
    · exact ⟨rfl, hm.modifyContext _ _⟩
  | hasFeature c f => exact ⟨hm.hasFeature hhost c f, hm⟩
  | requestCapture c =>
    have hreply := hm.requestCapture c
    simp only [ContextQuery.perform]
    revert hreply
    generalize m.requestCapture c = x, m'.requestCapture c = y
    intro hreply
    cases hreply with
    | ok hm' => exact ⟨rfl, hm'⟩
    | error e => exact ⟨rfl, hm⟩
  | setVersion | setThreshold | setFrameLimit | setCountsGenerated | setExtension =>
    exact ⟨rfl, hm.modifyContext _ _⟩

theorem ask_codeless (hm : m.Matches U S m') (hhost : host.Matches U S host')
    (thread : Id .thread) {q : Query σ} (hq : q.IsCodeless) :
    (q.perform host' thread m').1 = (q.perform host thread m).1 ∧
      (q.perform host thread m).2.Matches U S (q.perform host' thread m').2 := by
  cases q with
  | scope q =>
    cases q with
    | create parent =>
      have hcreate := Scopes.create_explicit U m.scopes parent
      simp only [Query.perform, ScopeQuery.perform, hm.scopes, hcreate]
      exact ⟨trivial, { hm with scopes := rfl }⟩
    | has s name =>
      simp only [Query.perform, ScopeQuery.perform, hm.scopes, Scopes.has_explicit]
      exact ⟨trivial, { hm with scopes := rfl }⟩
    | state | find | put | define | delete => cases hq
  | value q =>
    cases q with
    | isFlattened r => exact hm.flattening _
    | display | number | add | concat | strictEquals | equals | flatten | message => cases hq
  | context q =>
    refine hm.ask_context hhost thread ?_
    rintro c rfl
    cases hq
  | factory q =>
    simp only [Query.perform, hm.factories]
    exact ⟨trivial, { hm with factories := rfl }⟩
  | loader q =>
    simp only [Query.perform, hm.loaders]
    exact ⟨trivial, { hm with loaders := rfl }⟩
  | newHostFunction name =>
    obtain ⟨hid, hm'⟩ := hm.fresh .hostFunction
    exact ⟨congrArg (HostFunction.mk · name) hid, hm'⟩
  | newPolicy => exact hm.fresh .policy
  | newListener => exact hm.fresh .listener
  | newController => exact hm.fresh .controller
  | newTree => exact hm.fresh .tree
  | code | generator | continuation | inspect | host | setHost => cases hq

/-- What a developer sees of a value. -/
theorem inspect (hm : m.Matches U S m') (v : Value) :
    (v.explicit U).inspect m' = v.inspect m := by
  cases v with
  | string r => exact congrArg r.inspect hm.texts
  | object s =>
    have hs : (m'.scopes.get s).inspect = (m.scopes.get s).inspect := by
      rw [hm.scopes, Scopes.get_explicit, Scope.inspect_explicit]
    exact congrArg (fun text => "Object(" ++ text ++ ")") hs
  | executable e => exact congrArg (fun text => "Function(" ++ text ++ ")") (e.inspect_explicit U)
  | generator g =>
    have hg : (m'.generators.get g.id).inspect (g.explicit U) =
        (m.generators.get g.id).inspect g := by
      rw [hm.generator, GeneratorState.inspect_explicit]
    exact congrArg (fun text => "Generator(" ++ text ++ ")") hg
  | undefined | null | bool | number | hostFunction => rfl

/-- The same query has the same reply. -/
theorem ask (hm : m.Matches U S m') (hhost : host.Matches U S host') (thread : Id .thread)
    {q p : Query σ} {R : q.Reply → p.Reply → Prop} (hqp : q.Matches U S p R) :
    R (q.perform host thread m).1 (p.perform host' thread m').1 ∧
      (q.perform host thread m).2.Matches U S (p.perform host' thread m').2 := by
  cases hqp with
  | codeless hq => exact hm.ask_codeless hhost thread hq
  | scopeState s =>
    simp only [Query.perform, ScopeQuery.perform, hm.scopes]
    exact ⟨Scopes.get_explicit U m.scopes s, { hm with scopes := rfl }⟩
  | find s name =>
    simp only [Query.perform, ScopeQuery.perform, hm.scopes]
    exact ⟨Scopes.find?_explicit U m.scopes s name, { hm with scopes := rfl }⟩
  | put s name v =>
    simp only [Query.perform, ScopeQuery.perform, hm.scopes]
    exact ⟨trivial, { hm with scopes := Scopes.put_explicit U m.scopes s name v }⟩
  | define s name v =>
    simp only [Query.perform, ScopeQuery.perform, hm.scopes]
    exact ⟨trivial, { hm with scopes := Scopes.define_explicit U m.scopes s name v }⟩
  | delete s name =>
    simp only [Query.perform, ScopeQuery.perform, hm.scopes, Scopes.delete_explicit]
    exact ⟨trivial, { hm with scopes := rfl }⟩
  | display v =>
    simp only [Query.perform, ValueQuery.perform, Value.display_explicit]
    exact hm.flattening _
  | number v =>
    simp only [Query.perform, ValueQuery.perform, Value.toNumber_explicit]
    exact hm.flattening _
  | add v w =>
    simp only [Query.perform, ValueQuery.perform, Value.add_explicit]
    exact hm.flattening _
  | concat v w =>
    simp only [Query.perform, ValueQuery.perform, Value.concat_explicit]
    exact hm.flattening _
  | strictEquals v w =>
    simp only [Query.perform, ValueQuery.perform, Value.strictEquals_explicit]
    exact hm.flattening _
  | equals v w =>
    simp only [Query.perform, ValueQuery.perform, Value.equals_explicit]
    exact hm.flattening _
  | flatten v => exact hm.flatten v
  | message e =>
    simp only [Query.perform, ValueQuery.perform, Abrupt.message_explicit]
    exact hm.flattening _
  | contextState c => exact ⟨hm.context c, hm⟩
  | share r =>
    obtain ⟨hid, hm'⟩ := hm.fresh .routine
    exact ⟨congrArg (fun build => SharedRoutine.mk ⟨build, []⟩ (r.explicit U)) hid, hm'⟩
  | create kind r domain => exact hm.createExecutable hhost thread kind r domain
  | nested e index =>
    obtain ⟨hid, hm'⟩ := hm.fresh .executable
    simp only [Query.perform, CodeQuery.perform, hid, Executable.nested?_explicit]
    cases e.nested? (m.fresh .executable).1 index with
    | none => exact ⟨rfl, hm'⟩
    | some f => exact ⟨rfl, hm'⟩
  | generator g => exact ⟨hm.generator g.id, hm⟩
  | continuation k => exact ⟨hm.continuation k, hm⟩
  | inspect v => exact ⟨hm.inspect v, hm⟩
  | host => exact ⟨hm.host, hm⟩
  | setHost h => exact ⟨rfl, { hm with host := h }⟩

end Store.Matches

end ScriptMachine
