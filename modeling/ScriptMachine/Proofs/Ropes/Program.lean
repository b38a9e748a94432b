import ScriptMachine.Machine.Answer
import ScriptMachine.Proofs.Ropes.Activation

/-!
# Host code that cannot tell strings apart

Host code is given values and hands values on. `Program.Alike` says that two programs that are
given alike values all the way ask alike queries, perform alike actions and end alike. Nothing is
promised of the replies to two queries that look at how a string is made: what a developer sees
of a string, and whether the text of a rope is remembered. `Host.Indifferent` says that all code
of a host does the same for alike values.

The relation is indexed by labellings, and what comes after a reply is to be alike under every
labelling that has grown in the meantime.
-/

namespace ScriptMachine

variable {σ : Type} {S : Labellings → σ → σ → Prop} {W W' : Labellings}

/-! ## Results, actions and queries -/

/-- Alike values, with the same flag. -/
structure GeneratorStep.Alike (W : Labellings) (s t : GeneratorStep) : Prop where
  value : s.value.Alike W t.value
  done : s.done = t.done

/-- Results that are the same but for the form of strings. -/
def ResultAlike (W : Labellings) : (κ : Kind) → κ.Result → κ.Result → Prop
  | .completion, o, o' => EndsAlike W (Value.Alike W) o o'
  | .exit, e, e' => EndsAlike W (Exit.Alike W) e e'
  | .step, e, e' => EndsAlike W (GeneratorStep.Alike W) e e'
  | .entered, x, y => x = y
  | .left, x, y => x = y
  | .made, x, y => x = y
  | .verdict, x, y => x = y
  | .guarded, x, y => x = y
  | .done, x, y => x = y

/-- The same action with alike values, and how its results on both sides are related. -/
inductive Action.Alike (W : Labellings) :
    (a b : Action) → (Labellings → a.kind.Result → b.kind.Result → Prop) → Prop
  | call {f g : Callable} {s t : CallSite} (hf : f.Alike W g) (hs : s.Alike W t) :
      Action.Alike W (.call f s) (.call g t) fun W => ResultAlike W .completion
  | callOutermost {f g : Callable} {s t : CallSite} (hf : f.Alike W g) (hs : s.Alike W t)
      (isStrict : Bool) :
      Action.Alike W (.callOutermost f s isStrict) (.callOutermost g t isStrict)
        fun W => ResultAlike W .completion
  | execute (e : Executable) (c : Id .context) (s : Id .scope) :
      Action.Alike W (.execute e c s) (.execute e c s) fun W => ResultAlike W .completion
  | executeCapturing (e : Executable) (c : Id .context) (s : Id .scope) :
      Action.Alike W (.executeCapturing e c s) (.executeCapturing e c s)
        fun W => ResultAlike W .completion
  | callCapturing (e : Executable) (c : Id .context) (s : Id .scope) {args args' : List Value}
      (h : ValuesAlike W args args') :
      Action.Alike W (.callCapturing e c s args) (.callCapturing e c s args')
        fun W => ResultAlike W .completion
  | resume (k : Id .continuation) (c : Id .context) (s : Id .scope) {v w : Value}
      (h : v.Alike W w) :
      Action.Alike W (.resume k c s v) (.resume k c s w) fun W => ResultAlike W .completion
  | step (via : Executable) (g : Generator) (op : GeneratorOp) (c : Id .context) (s : Id .scope)
      {v w : Value} (h : v.Alike W w) :
      Action.Alike W (.step via g op c s v) (.step via g op c s w)
        fun W => ResultAlike W .step
  | enter (f : Id .factory) (requested : Option (Id .context)) :
      Action.Alike W (.enter f requested) (.enter f requested) fun W => ResultAlike W .entered
  | exit : Action.Alike W .exit .exit fun W => ResultAlike W .left
  | makeContext (f : Id .factory) :
      Action.Alike W (.makeContext f) (.makeContext f) fun W => ResultAlike W .made

/-- A query that no value goes into, with a reply that has no value in it. -/
def Query.IsPlain : Query σ → Prop
  | .scope (.create _) | .scope (.has _ _) => True
  | .context _ | .factory _ | .code _ | .loader _ => True
  | .newHostFunction _ | .newPolicy | .newListener | .newController | .newTree => True
  | _ => False

/-- The same query with alike values, and how its replies on both sides are related. -/
inductive Query.Alike (S : Labellings → σ → σ → Prop) (W : Labellings) :
    (q p : Query σ) → (Labellings → q.Reply → p.Reply → Prop) → Prop
  | plain {q : Query σ} (h : q.IsPlain) : Query.Alike S W q q fun _ => Eq
  | scopeState (s : Id .scope) :
      Query.Alike S W (.scope (.state s)) (.scope (.state s)) Scope.Alike
  | find (s : Id .scope) (name : String) :
      Query.Alike S W (.scope (.find s name)) (.scope (.find s name))
        fun W => Option.Rel (Value.Alike W)
  | put (s : Id .scope) (name : String) {v w : Value} (h : v.Alike W w) :
      Query.Alike S W (.scope (.put s name v)) (.scope (.put s name w)) fun _ => Eq
  | define (s : Id .scope) (name : String) {v w : Value} (h : v.Alike W w) :
      Query.Alike S W (.scope (.define s name v)) (.scope (.define s name w)) fun _ => Eq
  | delete (s : Id .scope) (name : String) :
      Query.Alike S W (.scope (.delete s name)) (.scope (.delete s name))
        fun W => Option.Rel (Value.Alike W)
  | display {v w : Value} (h : v.Alike W w) :
      Query.Alike S W (.value (.display v)) (.value (.display w)) fun _ => Eq
  | number {v w : Value} (h : v.Alike W w) :
      Query.Alike S W (.value (.number v)) (.value (.number w)) fun _ => Eq
  | add {v v' w w' : Value} (hv : v.Alike W v') (hw : w.Alike W w') :
      Query.Alike S W (.value (.add v w)) (.value (.add v' w')) Value.Alike
  | concat {v v' w w' : Value} (hv : v.Alike W v') (hw : w.Alike W w') :
      Query.Alike S W (.value (.concat v w)) (.value (.concat v' w')) Value.Alike
  | strictEquals {v v' w w' : Value} (hv : v.Alike W v') (hw : w.Alike W w') :
      Query.Alike S W (.value (.strictEquals v w)) (.value (.strictEquals v' w')) fun _ => Eq
  | equals {v v' w w' : Value} (hv : v.Alike W v') (hw : w.Alike W w') :
      Query.Alike S W (.value (.equals v w)) (.value (.equals v' w')) fun _ => Eq
  | flatten {v w : Value} (h : v.Alike W w) :
      Query.Alike S W (.value (.flatten v)) (.value (.flatten w)) Value.Alike
  | isFlattened {r s : Rope} (h : r.Alike W s) :
      Query.Alike S W (.value (.isFlattened r)) (.value (.isFlattened s)) fun _ _ _ => True
  | message {e e' : Abrupt} (h : e.Alike W e') :
      Query.Alike S W (.value (.message e)) (.value (.message e')) fun _ => Eq
  | generator (g : Generator) :
      Query.Alike S W (.generator g) (.generator g) GeneratorState.Alike
  | continuation (k : Id .continuation) :
      Query.Alike S W (.continuation k) (.continuation k) CaptureState.Alike
  | inspect {v w : Value} (h : v.Alike W w) :
      Query.Alike S W (.inspect v) (.inspect w) fun _ x y => v.isString = false → x = y
  | host : Query.Alike S W .host .host S
  | setHost {s t : σ} (h : S W s t) : Query.Alike S W (.setHost s) (.setHost t) fun _ => Eq

/-! ## Programs and hosts -/

/-- Programs that do the same with alike values, as long as they are given alike values. -/
inductive Program.Alike (S : Labellings → σ → σ → Prop) :
    Labellings → {κ : Kind} → Program σ κ → Program σ κ → Prop
  | finish {W : Labellings} {κ : Kind} {r r' : κ.Result} (h : ResultAlike W κ r r') :
      Program.Alike S W (.finish r) (.finish r')
  | panic {W : Labellings} {κ : Kind} : Program.Alike S W (.panic (κ := κ)) .panic
  | ask {W : Labellings} {κ : Kind} {q q' : Query σ}
      {R : Labellings → q.Reply → q'.Reply → Prop} {k : q.Reply → Program σ κ}
      {k' : q'.Reply → Program σ κ} (hq : q.Alike S W q' R)
      (hk : ∀ W', W ≤ W' → ∀ r r', R W' r r' → Program.Alike S W' (k r) (k' r')) :
      Program.Alike S W (.ask q k) (.ask q' k')
  | act {W : Labellings} {κ : Kind} {a a' : Action}
      {R : Labellings → a.kind.Result → a'.kind.Result → Prop} {k : a.kind.Result → Program σ κ}
      {k' : a'.kind.Result → Program σ κ} (ha : a.Alike W a' R)
      (hk : ∀ W', W ≤ W' → ∀ r r', R W' r r' → Program.Alike S W' (k r) (k' r')) :
      Program.Alike S W (.act a k) (.act a' k')
  | bracket {W : Labellings} {κ : Kind} (f : Id .factory)
      {body body' : Id .context → Program σ .done} {k k' : Except Fault Unit → Program σ κ}
      (hbody : ∀ W', W ≤ W' → ∀ c, Program.Alike S W' (body c) (body' c))
      (hk : ∀ W', W ≤ W' → ∀ r, Program.Alike S W' (k r) (k' r)) :
      Program.Alike S W (.bracket f body k) (.bracket f body' k')
  | guard {W : Labellings} {κ : Kind} {body body' : Program σ .done} {k k' : Bool → Program σ κ}
      (hbody : Program.Alike S W body body')
      (hk : ∀ W', W ≤ W' → ∀ r, Program.Alike S W' (k r) (k' r)) :
      Program.Alike S W (.guard body k) (.guard body' k')

/-- A host whose code does the same for alike values: it does not tell a rope from the flat
string with the same text. Its own state may hold values, so it comes with a relation of what is
alike for it, which lasts when more concatenations are labelled. -/
structure Host.Indifferent (S : Labellings → σ → σ → Prop) (host : Host σ) : Prop where
  monotone : Monotone S
  run : ∀ W f site site', site.Alike W site' →
    (host.run f site).Alike S W (host.run f site')
  makeContext : ∀ W p f, (host.makeContext p f).Alike S W (host.makeContext p f)
  outermost : ∀ W p f f' site site', f.Alike W f' → site.Alike W site' →
    (host.outermost p f site).Alike S W (host.outermost p f' site')
  observe : ∀ W p c n, (host.observe p c n).Alike S W (host.observe p c n)
  hasFeature : ∀ W p c f s s', S W s s' → host.hasFeature p c f s = host.hasFeature p c f s'
  notify : ∀ W l event c, (host.notify l event c).Alike S W (host.notify l event c)
  resolve : ∀ W controller domain s s', S W s s' →
    (host.resolve controller domain s).1 = (host.resolve controller domain s').1 ∧
      S W (host.resolve controller domain s).2 (host.resolve controller domain s').2

/-! ## Queries -/

/-- The reply to a query, with a flat string in place of a concatenation by `+`. -/
def Query.performEager (host : Host σ) (thread : Id .thread) (m : Store σ) :
    (q : Query σ) → q.Reply × Store σ
  | .value (.add v w) => m.flattening (v.addEager w)
  | q => q.perform host thread m

/-- The text of the concatenation that a query makes, if it makes one. -/
def Query.joined? : Query σ → Option String
  | .value (.add v w) => v.joined? w
  | .value (.concat v w) => some (v.plainText ++ w.plainText)
  | _ => none

variable {host : Host σ} {m m' : Store σ}

namespace Store.Alike

theorem createExecutable (hm : m.Alike S W m') (hhost : host.Indifferent S) (thread : Id .thread)
    (kind : RoutineKind) (r : SharedRoutine) (domain : Option Payload) :
    (m.createExecutable host thread kind r domain).1 =
        (m'.createExecutable host thread kind r domain).1 ∧
      (m.createExecutable host thread kind r domain).2.Alike S W
        (m'.createExecutable host thread kind r domain).2 := by
  obtain ⟨hid, hfresh⟩ := hm.fresh .executable
  unfold Store.createExecutable
  rw [← hm.current]
  split
  · exact ⟨rfl, hm⟩
  · split
    · exact ⟨rfl, hm⟩
    · split
      · exact ⟨rfl, hm⟩
      · next c _ =>
        rw [← hm.context]
        split
        · next controller _ =>
          obtain ⟨hdomain, hstate⟩ := hhost.resolve W controller domain _ _ hm.host
          have hm₁ : Store.Alike S W { m with host := (host.resolve controller domain m.host).2 }
              { m' with host := (host.resolve controller domain m'.host).2 } :=
            { hm with host := hstate }
          obtain ⟨hid, hm₂⟩ := hm₁.fresh .executable
          dsimp only
          rw [hid, hdomain]
          exact ⟨rfl, hm₂⟩
        · split
          · exact ⟨rfl, hm⟩
          · dsimp only
            rw [hid]
            exact ⟨rfl, hfresh⟩

theorem hasFeature (hm : m.Alike S W m') (hhost : host.Indifferent S) (c : Id .context)
    (f : Feature) : m.hasFeature host c f = m'.hasFeature host c f := by
  unfold Store.hasFeature
  rw [← hm.factoryOf]
  split
  · rfl
  · rfl
  · exact hhost.hasFeature W _ c f _ _ hm.host

theorem ask_context (hm : m.Alike S W m') (hhost : host.Indifferent S) (thread : Id .thread)
    (q : ContextQuery) : (q.perform host thread m).1 = (q.perform host thread m').1 ∧
      (q.perform host thread m).2.Alike S W (q.perform host thread m').2 := by
  cases q with
  | create f => exact hm.newContext f
  | state c => exact ⟨hm.context c, hm⟩
  | current => exact ⟨hm.current thread, hm⟩
  | setController c controller =>
    simp only [ContextQuery.perform, ← hm.context]
    split
    · exact ⟨rfl, hm⟩
    · exact ⟨rfl, hm.modifyContext _ _⟩
  | hasFeature c f => exact ⟨hm.hasFeature hhost c f, hm⟩
  | requestCapture c =>
    have hreply := hm.requestCapture c
    simp only [ContextQuery.perform]
    revert hreply
    generalize m.requestCapture c = x, m'.requestCapture c = y
    intro hreply
    cases hreply with
    | ok hp hm' => exact ⟨congrArg Except.ok hp, hm'⟩
    | error e => exact ⟨rfl, hm⟩
  | setVersion | setThreshold | setFrameLimit | setCountsGenerated | setExtension =>
    exact ⟨rfl, hm.modifyContext _ _⟩

theorem ask_plain (hm : m.Alike S W m') (hhost : host.Indifferent S) (thread : Id .thread)
    {q : Query σ} (hq : q.IsPlain) : (q.perform host thread m).1 = (q.perform host thread m').1 ∧
      (q.perform host thread m).2.Alike S W (q.perform host thread m').2 := by
  cases q with
  | scope q =>
    cases q with
    | create parent =>
      obtain ⟨hid, hscopes⟩ := Scopes.alike_create hm.scopes parent
      exact ⟨hid, { hm with scopes := hscopes }⟩
    | has s name => exact ⟨Scopes.has_eq hm.scopes s name, hm⟩
    | state | find | put | define | delete => cases hq
  | context q => exact hm.ask_context hhost thread q
  | factory q =>
    simp only [Query.perform, hm.factories]
    exact ⟨trivial, { hm with factories := rfl }⟩
  | code q =>
    cases q with
    | share r =>
      obtain ⟨hid, hm'⟩ := hm.fresh .routine
      exact ⟨congrArg (fun build => SharedRoutine.mk ⟨build, []⟩ r) hid, hm'⟩
    | create kind r domain => exact hm.createExecutable hhost thread kind r domain
    | nested e index =>
      obtain ⟨hid, hm'⟩ := hm.fresh .executable
      simp only [Query.perform, CodeQuery.perform, ← hid]
      split
      · exact ⟨rfl, hm'⟩
      · exact ⟨rfl, hm'⟩
  | loader q =>
    simp only [Query.perform, hm.loaders]
    exact ⟨trivial, { hm with loaders := rfl }⟩
  | newHostFunction name =>
    obtain ⟨hid, hm'⟩ := hm.fresh .hostFunction
    exact ⟨congrArg (HostFunction.mk · name) hid, hm'⟩
  | newPolicy => exact hm.fresh .policy
  | newListener => exact hm.fresh .listener
  | newController => exact hm.fresh .controller
  | newTree => exact hm.fresh .tree
  | value | generator | continuation | inspect | host | setHost => cases hq

/-- What a developer sees of a value that is no string. -/
theorem inspect_eq (hm : m.Alike S W m') {v : Value} (hv : v.isString = false) :
    v.inspect m = v.inspect m' := by
  unfold Value.inspect
  split
  case h_5 => cases hv
  case h_6 s =>
    have hs := Scopes.alike_get hm.scopes s
    unfold Scope.inspect Scope.parent?
    rw [hs.names, hs.ancestors]
  case h_9 g =>
    have hg := hm.generator g.id
    unfold GeneratorState.inspect
    rw [hg.started, hg.finished]
  all_goals rfl

/-- Alike queries have related replies, also when one side makes a flat string in place of a
concatenation. -/
theorem ask (hm : m.Alike S W m') (hhost : host.Indifferent S) (thread : Id .thread)
    {q p : Query σ} {R : Labellings → q.Reply → p.Reply → Prop} (hqp : q.Alike S W p R)
    (hshort : ∀ s, q.joined? = some s → IsShort s) :
    ∃ W', W ≤ W' ∧ R W' (q.perform host thread m).1 (p.performEager host thread m').1 ∧
      (q.perform host thread m).2.Alike S W' (p.performEager host thread m').2 := by
  cases hqp with
  | plain hq =>
    have heager : q.performEager host thread m' = q.perform host thread m' := by
      unfold Query.performEager
      split
      · cases hq
      · rfl
    rw [heager]
    exact ⟨W, le_rfl, hm.ask_plain hhost thread hq⟩
  | scopeState s => exact ⟨W, le_rfl, Scopes.alike_get hm.scopes s, hm⟩
  | find s name => exact ⟨W, le_rfl, Scopes.alike_find hm.scopes s name, hm⟩
  | put s name h =>
    exact ⟨W, le_rfl, rfl, { hm with scopes := Scopes.alike_put hm.scopes s name h }⟩
  | define s name h =>
    exact ⟨W, le_rfl, rfl, { hm with scopes := Scopes.alike_define hm.scopes s name h }⟩
  | delete s name =>
    obtain ⟨hv, hscopes⟩ := Scopes.alike_delete hm.scopes s name
    exact ⟨W, le_rfl, hv, { hm with scopes := hscopes }⟩
  | display h => exact ⟨W, le_rfl, hm.flattening h.display⟩
  | number h => exact ⟨W, le_rfl, hm.flattening h.toNumber⟩
  | add hv hw => exact hm.flatteningLater hhost.monotone (hv.add hw hshort)
  | concat hv hw =>
    exact hm.flatteningLater hhost.monotone (hv.concat hw (hshort _ rfl))
  | strictEquals hv hw => exact ⟨W, le_rfl, hm.flattening (hv.strictEquals hw)⟩
  | equals hv hw => exact ⟨W, le_rfl, hm.flattening (hv.equals hw)⟩
  | flatten h => exact ⟨W, le_rfl, hm.flattening h.flatten⟩
  | isFlattened h => exact ⟨W, le_rfl, trivial, hm⟩
  | message h => exact ⟨W, le_rfl, hm.flattening h.message⟩
  | generator g => exact ⟨W, le_rfl, hm.generator g.id, hm⟩
  | continuation k => exact ⟨W, le_rfl, hm.continuation k, hm⟩
  | inspect h =>
    refine ⟨W, le_rfl, ?_, hm⟩
    intro hplain
    cases h with
    | string h => cases hplain
    | plain h => exact hm.inspect_eq h
  | host => exact ⟨W, le_rfl, hm.host, hm⟩
  | setHost h => exact ⟨W, le_rfl, rfl, { hm with host := h }⟩

end Store.Alike

end ScriptMachine
