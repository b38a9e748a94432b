import ScriptMachine.Proofs.Machine.World
import ScriptMachine.Proofs.Returns.Frame

/-!
# Stores over code with explicit returns

`Store.Matches U S m m'` says that `m'` is `m` with explicit returns in all code that is held, up to
the counts of instructions; the states of the host are related by `S`. What the library does to
one store it does to the other.
-/

namespace ScriptMachine

/-! ## Tables -/

namespace Table

variable {noun : Noun} {α β : Type} (f : α → β) (t : Table noun α)

/-- The table with every state mapped. -/
def map : Table noun β := ⟨t.entries.map f⟩

@[simp] theorem get?_map (id : Id noun) : (t.map f).get? id = (t.get? id).map f :=
  Array.getElem?_map

theorem get_map [Inhabited α] [Inhabited β] (hf : f default = default) (id : Id noun) :
    (t.map f).get id = f (t.get id) := by
  rw [get, get?_map, get]
  cases t.get? id with
  | none => exact hf.symm
  | some a => rfl

@[simp] theorem next_map : (t.map f).next = t.next := congrArg Id.mk Array.size_map

theorem insert_map (a : α) :
    (t.map f).insert (f a) = ((t.insert a).1, (t.insert a).2.map f) := by
  simp only [insert, next_map, Prod.mk.injEq, true_and]
  exact congrArg mk Array.map_push.symm

variable {f}

theorem modify_map {g : α → α} {k : β → β} (hgk : ∀ a, k (f a) = f (g a)) (id : Id noun) :
    (t.map f).modify id k = (t.modify id g).map f := by
  refine congrArg Table.mk (Array.ext_getElem? fun i => ?_)
  simp only [map, modify, Array.getElem?_modify, Array.getElem?_map]
  split
  · rw [Option.map_map, Option.map_map]
    exact congrArg (Option.map · _) (funext hgk)
  · rfl

theorem set_map (id : Id noun) (a : α) : (t.map f).set id (f a) = (t.set id a).map f :=
  modify_map (f := f) t (fun _ => rfl) id

end Table

variable (U : Units)

/-! ## Scopes -/

namespace Scope

/-- The scope with explicit returns in the code that it binds. -/
def explicit (s : Scope) : Scope where
  bindings := s.bindings.map fun b => (b.1, b.2.explicit U)
  ancestors := s.ancestors

variable (s : Scope) (name : String) (v : Value)

theorem find?_explicit : (s.explicit U).find? name = (s.find? name).map (Value.explicit U) := by
  have hlookup : ∀ l : List (String × Value),
      (l.map fun b => (b.1, b.2.explicit U)).lookup name =
        (l.lookup name).map (Value.explicit U) := by
    intro l
    induction l with
    | nil => rfl
    | cons b rest ih =>
      rw [List.map_cons, List.lookup_cons, List.lookup_cons, ih]
      split <;> rfl
  exact hlookup s.bindings

theorem has_explicit : (s.explicit U).has name = s.has name := by
  simp only [has, explicit, List.any_map]
  rfl

theorem define_explicit :
    (s.explicit U).define name (v.explicit U) = (s.define name v).explicit U := by
  have hassign : ∀ l : List (String × Value),
      assign name (v.explicit U) (l.map fun b => (b.1, b.2.explicit U)) =
        (assign name v l).map fun b => (b.1, b.2.explicit U) := by
    intro l
    induction l with
    | nil => rfl
    | cons b rest ih =>
      rw [List.map_cons, assign, assign, ih]
      split <;> rfl
  exact congrArg (Scope.mk · s.ancestors) (hassign s.bindings)

theorem delete_explicit : (s.explicit U).delete name = (s.delete name).explicit U := by
  simp only [delete, explicit, List.filter_map]
  rfl

theorem inspect_explicit : (s.explicit U).inspect = s.inspect := by
  have hnames : (s.explicit U).names = s.names := by
    rw [names, explicit, List.map_map, names]
    rfl
  have hparent : (s.explicit U).parent? = s.parent? := rfl
  unfold inspect
  rw [hnames, hparent]

end Scope

namespace Scopes

/-- The scopes with explicit returns in the code that they bind. -/
def explicit (t : Scopes) : Scopes := t.map (Scope.explicit U)

variable (t : Scopes) (s : Id .scope) (name : String) (v : Value)

theorem get_explicit : (explicit U t).get s = (t.get s).explicit U := Table.get_map _ t rfl s

theorem chain_explicit : chain (explicit U t) s = chain t s := by
  rw [chain, get_explicit, chain]
  rfl

theorem find?_explicit :
    find? (explicit U t) s name = (find? t s name).map (Value.explicit U) := by
  rw [find?, chain_explicit, find?, List.map_findSome?]
  refine congrArg (List.findSome? · _) (funext fun owner => ?_)
  rw [get_explicit, Scope.find?_explicit]
  rfl

theorem owner?_explicit : owner? (explicit U t) s name = owner? t s name := by
  rw [owner?, chain_explicit, owner?]
  refine congrArg (List.find? · _) (funext fun owner => ?_)
  rw [get_explicit, Scope.has_explicit]

theorem has_explicit : has (explicit U t) s name = has t s name := by
  rw [has, owner?_explicit, has]

theorem define_explicit :
    define (explicit U t) s name (v.explicit U) = explicit U (define t s name v) :=
  Table.modify_map t (fun s => s.define_explicit U name v) s

theorem put_explicit :
    put (explicit U t) s name (v.explicit U) = explicit U (put t s name v) := by
  rw [put, owner?_explicit, define_explicit, put]

theorem delete_explicit : delete (explicit U t) s name =
    ((delete t s name).1.map (Value.explicit U), explicit U (delete t s name).2) := by
  rw [delete, get_explicit, Scope.find?_explicit, delete]
  exact congrArg (Prod.mk _) (Table.modify_map t (fun s => s.delete_explicit U name) s)

theorem create_explicit (parent : Option (Id .scope)) :
    create (explicit U t) parent = ((create t parent).1, explicit U (create t parent).2) := by
  cases parent with
  | none => exact Table.insert_map (Scope.explicit U) t { ancestors := [] }
  | some p =>
    simp only [create, get_explicit]
    exact Table.insert_map (Scope.explicit U) t { ancestors := p :: (t.get p).ancestors }

end Scopes

/-! ## Suspended computations -/

/-- The generator with explicit returns in its frame. -/
def GeneratorState.explicit (s : GeneratorState) : GeneratorState where
  frame := s.frame.map (Frame.explicit U)
  started := s.started
  finished := s.finished

theorem GeneratorState.inspect_explicit (s : GeneratorState) (g : Generator) :
    (s.explicit U).inspect (g.explicit U) = s.inspect g := by
  have hname : (g.explicit U).body.name = g.body.name := g.body.name_explicit U
  have hstarted : (s.explicit U).started = s.started := rfl
  have hfinished : (s.explicit U).finished = s.finished := rfl
  unfold inspect
  rw [hname, hstarted, hfinished]

namespace CaptureState

/-- The continuation with explicit returns in its frames. -/
def explicit : CaptureState → CaptureState
  | .captured frames => .captured (frames.map (Frame.explicit U))
  | s => s

variable (s : CaptureState)

@[simp] theorem isResumable_explicit : (s.explicit U).isResumable = s.isResumable := by
  cases s <;> rfl

@[simp] theorem isCaptured_explicit : (s.explicit U).isCaptured = s.isCaptured := by
  cases s <;> rfl

@[simp] theorem isStrict_explicit : (s.explicit U).isStrict = s.isStrict := by
  cases s with
  | captured frames =>
    simp only [isStrict, explicit, CaptureState.frames, List.getLast?_map, Option.any_map]
    refine congrArg (Option.any · _) (funext fun f => ?_)
    exact f.body.routine.isStrict_explicit U
  | _ => rfl

end CaptureState

/-- The resumption with explicit returns in the value that it keeps. -/
def Resumption.explicit (r : Resumption) : Resumption where
  value := r.value.map (Value.explicit U)
  done := r.done

/-! ## Contexts -/

/-- The context before it has counted an instruction. -/
def Context.uncounted (c : Context) : Context := { c with instructionCount := 0 }

/-! ## Stores -/

/-- The world with explicit returns in all code that it holds. -/
def World.explicit (w : World) : World where
  scopes := w.scopes.explicit U
  texts := w.texts
  generators := w.generators.map (GeneratorState.explicit U)
  supply := w.supply

variable {σ : Type}

/-- The same store with explicit returns in all code that it holds; counts of instructions may
differ, and the states of the host are related. -/
structure Store.Matches (S : σ → σ → Prop) (m m' : Store σ) : Prop where
  scopes : m'.scopes = m.scopes.explicit U
  texts : m'.texts = m.texts
  generators : m'.generators = m.generators.map (GeneratorState.explicit U)
  continuations : m'.continuations = m.continuations.map (CaptureState.explicit U)
  resumptions : m'.resumptions = m.resumptions.map (Resumption.explicit U)
  contexts : m'.contexts.map Context.uncounted = m.contexts.map Context.uncounted
  factories : m'.factories = m.factories
  loaders : m'.loaders = m.loaders
  bindings : m'.bindings = m.bindings
  supply : m'.supply = m.supply
  host : S m.host m'.host

/-- Results of the same operation on two stores, which may be refused. -/
inductive Store.RepliesMatch (S : σ → σ → Prop) {ε β : Type} (f : β → β) :
    Except ε (β × Store σ) → Except ε (β × Store σ) → Prop
  | ok {b : β} {m m' : Store σ} (hm : m.Matches U S m') :
      RepliesMatch S f (.ok (b, m)) (.ok (f b, m'))
  | error (e : ε) : RepliesMatch S f (.error e) (.error e)

theorem Store.matches_initial {U : Units} {S : σ → σ → Prop} {s s' : σ} (h : S s s') :
    (Store.initial s).Matches U S (Store.initial s') where
  scopes := by simp [initial, Scopes.explicit, Table.map]
  texts := rfl
  generators := by simp [initial, Table.map]
  continuations := by simp [initial, Table.map]
  resumptions := by simp [initial, Table.map]
  contexts := rfl
  factories := rfl
  loaders := rfl
  bindings := rfl
  supply := rfl
  host := h

namespace Store.Matches

variable {U} {S : σ → σ → Prop} {m m' : Store σ}

theorem world (h : m.Matches U S m') : m'.world = m.world.explicit U := by
  rw [Store.world, h.scopes, h.texts, h.generators, h.supply]
  rfl

theorem setWorld (h : m.Matches U S m') (w : World) :
    (m.setWorld w).Matches U S (m'.setWorld (w.explicit U)) :=
  { h with scopes := rfl, texts := rfl, generators := rfl, supply := rfl }

theorem flattening (h : m.Matches U S m') {α : Type} (c : Flattening α) :
    (m'.flattening c).1 = (m.flattening c).1 ∧
      (m.flattening c).2.Matches U S (m'.flattening c).2 := by
  unfold Store.flattening
  rw [h.texts]
  exact ⟨rfl, { h with texts := rfl }⟩

/-- A value made flat. -/
theorem flatten (h : m.Matches U S m') (v : Value) :
    (m'.flattening (v.explicit U).flatten).1 = (m.flattening v.flatten).1.explicit U ∧
      (m.flattening v.flatten).2.Matches U S (m'.flattening (v.explicit U).flatten).2 := by
  unfold Store.flattening
  rw [h.texts, Value.flatten_explicit]
  exact ⟨rfl, { h with texts := rfl }⟩

theorem fresh (h : m.Matches U S m') (noun : Noun) :
    (m'.fresh noun).1 = (m.fresh noun).1 ∧ (m.fresh noun).2.Matches U S (m'.fresh noun).2 :=
  ⟨congrArg Id.mk h.supply, { h with supply := congrArg (· + 1) h.supply }⟩

/-- A context is the same but for its count. -/
theorem context (h : m.Matches U S m') (c : Id .context) :
    (m'.context c).uncounted = (m.context c).uncounted := by
  have hget := fun m : Store σ => Table.get_map Context.uncounted m.contexts rfl c
  rw [Store.context, Store.context, ← hget, ← hget, h.contexts]

theorem topCall (h : m.Matches U S m') (c : Id .context) :
    (m'.context c).topCall = (m.context c).topCall := (congrArg Context.topCall (h.context c) :)

theorem acceptsCaptures (h : m.Matches U S m') (c : Id .context) :
    (m'.context c).acceptsCaptures = (m.context c).acceptsCaptures :=
  (congrArg Context.acceptsCaptures (h.context c) :)

theorem depth (h : m.Matches U S m') (c : Id .context) :
    (m'.context c).depth = (m.context c).depth := (congrArg Context.depth (h.context c) :)

theorem frameLimit (h : m.Matches U S m') (c : Id .context) :
    (m'.context c).frameLimit = (m.context c).frameLimit :=
  (congrArg Context.frameLimit (h.context c) :)

theorem controller (h : m.Matches U S m') (c : Id .context) :
    (m'.context c).controller = (m.context c).controller :=
  (congrArg Context.controller (h.context c) :)

theorem boundTo (h : m.Matches U S m') (c : Id .context) :
    (m'.context c).boundTo = (m.context c).boundTo := (congrArg Context.boundTo (h.context c) :)

theorem enterCount (h : m.Matches U S m') (c : Id .context) :
    (m'.context c).enterCount = (m.context c).enterCount :=
  (congrArg Context.enterCount (h.context c) :)

theorem observerThreshold (h : m.Matches U S m') (c : Id .context) :
    (m'.context c).observerThreshold = (m.context c).observerThreshold :=
  (congrArg Context.observerThreshold (h.context c) :)

theorem factoryOf (h : m.Matches U S m') (c : Id .context) : m'.factoryOf c = m.factoryOf c := by
  have hfactory : (m'.context c).factory = (m.context c).factory :=
    (congrArg Context.factory (h.context c) :)
  rw [Store.factoryOf, h.factories, hfactory, Store.factoryOf]

theorem current (h : m.Matches U S m') (thread : Id .thread) :
    m'.current? thread = m.current? thread := by
  rw [Store.current?, h.bindings, Store.current?]

/-- A context is changed on both sides. -/
theorem modifyContexts (h : m.Matches U S m') (c : Id .context) {f g : Context → Context}
    (hfg : ∀ a b, b.uncounted = a.uncounted → (g b).uncounted = (f a).uncounted) :
    (m.modifyContext c f).Matches U S (m'.modifyContext c g) := by
  -- The tables agree only up to the counts, so what is changed is compared entry by entry.
  have hget? : ∀ i : Nat, (m'.contexts.entries[i]?).map Context.uncounted =
      (m.contexts.entries[i]?).map Context.uncounted := by
    intro i
    have hcontexts := congrArg (fun t : Table .context Context => t.entries[i]?) h.contexts
    simpa only [Table.map, Array.getElem?_map] using hcontexts
  have hcontexts : (m'.contexts.modify c g).map Context.uncounted =
      (m.contexts.modify c f).map Context.uncounted := by
    refine congrArg Table.mk (Array.ext_getElem? fun i => ?_)
    simp only [Table.modify, Array.getElem?_map, Array.getElem?_modify]
    have hi := hget? i
    split
    · revert hi
      generalize m'.contexts.entries[i]? = x, m.contexts.entries[i]? = y
      intro hi
      cases x with
      | none => cases y with
        | none => rfl
        | some a => cases hi
      | some b => cases y with
        | none => cases hi
        | some a => exact congrArg some (hfg a b (Option.some.inj hi))
    · exact hi
  exact { h with contexts := hcontexts }

/-- A change of a context that does not look at the count. -/
theorem modifyContext (h : m.Matches U S m') (c : Id .context) (f : Context → Context)
    (hf : ∀ a, (f a.uncounted).uncounted = (f a).uncounted := by exact fun _ => rfl) :
    (m.modifyContext c f).Matches U S (m'.modifyContext c f) := by
  refine h.modifyContexts c fun a b hab => ?_
  rw [← hf b, hab, hf a]

/-- A context is set to what it was changed to, by a change that does not look at the count. -/
theorem setContext (h : m.Matches U S m') (c : Id .context) (f : Context → Context)
    (hf : ∀ a, (f a.uncounted).uncounted = (f a).uncounted := by exact fun _ => rfl) :
    (m.modifyContext c fun _ => f (m.context c)).Matches U S
      (m'.modifyContext c fun _ => f (m'.context c)) := by
  refine h.modifyContexts c fun _ _ _ => ?_
  rw [← hf, h.context, hf]

theorem rebind (h : m.Matches U S m')
    (f : List (Id .thread × Id .context) → List (Id .thread × Id .context)) :
    { m with bindings := f m.bindings }.Matches U S { m' with bindings := f m'.bindings } :=
  { h with bindings := congrArg f h.bindings }

/-- A new context. -/
theorem insertContext (h : m.Matches U S m') (cx : Context) :
    (m'.contexts.insert cx).1 = (m.contexts.insert cx).1 ∧
      { m with contexts := (m.contexts.insert cx).2 }.Matches U S
        { m' with contexts := (m'.contexts.insert cx).2 } := by
  have hinsert := fun m : Store σ => Table.insert_map Context.uncounted m.contexts cx
  have hsame := congrArg (·.insert cx.uncounted) h.contexts
  have heq := (hinsert m').symm.trans (hsame.trans (hinsert m))
  exact ⟨(congrArg Prod.fst heq :), { h with contexts := (congrArg Prod.snd heq :) }⟩

theorem newContext (h : m.Matches U S m') (f : Id .factory) :
    (m'.newContext f).1 = (m.newContext f).1 ∧
      (m.newContext f).2.Matches U S (m'.newContext f).2 := h.insertContext _

theorem plannedContext (h : m.Matches U S m') (f : Id .factory) (plan : ContextPlan) :
    (m'.plannedContext f plan).1 = (m.plannedContext f plan).1 ∧
      (m.plannedContext f plan).2.Matches U S (m'.plannedContext f plan).2 := h.insertContext _

theorem newGenerator (h : m.Matches U S m') (f : Frame) :
    (m'.newGenerator (f.explicit U)).1 = (m.newGenerator f).1.explicit U ∧
      (m.newGenerator f).2.Matches U S (m'.newGenerator (f.explicit U)).2 := by
  have hinsert := Table.insert_map (GeneratorState.explicit U) m.generators { frame := some f }
  unfold Store.newGenerator
  rw [h.generators]
  exact ⟨congrArg (Generator.mk · _) (congrArg Prod.fst hinsert :),
    { h with generators := (congrArg Prod.snd hinsert :) }⟩

theorem generator (h : m.Matches U S m') (g : Id .generator) :
    m'.generators.get g = (m.generators.get g).explicit U := by
  rw [h.generators]
  exact Table.get_map (GeneratorState.explicit U) _ rfl g

theorem setGenerator (h : m.Matches U S m') (g : Id .generator) (s : GeneratorState) :
    { m with generators := m.generators.set g s }.Matches U S
      { m' with generators := m'.generators.set g (s.explicit U) } := by
  rw [h.generators]
  exact { h with generators := Table.set_map _ g s }

theorem modifyGenerator (h : m.Matches U S m') (g : Id .generator)
    {f k : GeneratorState → GeneratorState} (hfk : ∀ s, k (s.explicit U) = (f s).explicit U) :
    { m with generators := m.generators.modify g f }.Matches U S
      { m' with generators := m'.generators.modify g k } := by
  rw [h.generators]
  exact { h with generators := Table.modify_map _ hfk g }

theorem continuation (h : m.Matches U S m') (k : Id .continuation) :
    m'.continuations.get k = (m.continuations.get k).explicit U := by
  rw [h.continuations]
  exact Table.get_map (CaptureState.explicit U) _ rfl k

theorem setContinuation (h : m.Matches U S m') (k : Id .continuation) (s : CaptureState) :
    { m with continuations := m.continuations.set k s }.Matches U S
      { m' with continuations := m'.continuations.set k (s.explicit U) } := by
  rw [h.continuations]
  exact { h with continuations := Table.set_map _ k s }

theorem resumption (h : m.Matches U S m') (r : Id .resumption) :
    m'.resumptions.get r = (m.resumptions.get r).explicit U := by
  rw [h.resumptions]
  exact Table.get_map (Resumption.explicit U) _ rfl r

theorem modifyResumption (h : m.Matches U S m') (r : Id .resumption) {f k : Resumption → Resumption}
    (hfk : ∀ s, k (s.explicit U) = (f s).explicit U) :
    { m with resumptions := m.resumptions.modify r f }.Matches U S
      { m' with resumptions := m'.resumptions.modify r k } := by
  rw [h.resumptions]
  exact { h with resumptions := Table.modify_map _ hfk r }

theorem insertResumption (h : m.Matches U S m') (r : Resumption) :
    (m'.resumptions.insert (r.explicit U)).1 = (m.resumptions.insert r).1 ∧
      { m with resumptions := (m.resumptions.insert r).2 }.Matches U S
        { m' with resumptions := (m'.resumptions.insert (r.explicit U)).2 } := by
  have hinsert := Table.insert_map (Resumption.explicit U) m.resumptions r
  rw [h.resumptions]
  exact ⟨(congrArg Prod.fst hinsert :), { h with resumptions := (congrArg Prod.snd hinsert :) }⟩

theorem takeFrames (h : m.Matches U S m') (k : Id .continuation) :
    RepliesMatch U S (List.map (Frame.explicit U)) (m.takeFrames k) (m'.takeFrames k) := by
  unfold Store.takeFrames
  rw [h.continuation]
  cases m.continuations.get k with
  | pending => exact .error _
  | captured frames => exact .ok (h.setContinuation k .resumed)
  | resumed => exact .error _

theorem requestCapture (h : m.Matches U S m') (c : Id .context) :
    RepliesMatch U S id (m.requestCapture c) (m'.requestCapture c) := by
  have hinsert := Table.insert_map (CaptureState.explicit U) m.continuations .pending
  unfold Store.requestCapture
  dsimp only
  rw [h.depth, h.acceptsCaptures, h.continuations]
  split
  · exact .error _
  · split
    · exact .error _
    · split
      · exact .error _
      · have hid : ((m.continuations.map (CaptureState.explicit U)).insert .pending).1 =
            (m.continuations.insert .pending).1 := (congrArg Prod.fst hinsert :)
        rw [hid]
        exact .ok { h with continuations := (congrArg Prod.snd hinsert :) }

end Store.Matches

end ScriptMachine
