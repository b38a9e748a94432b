import Mathlib.Order.Monotone.Defs
import ScriptMachine.Proofs.Ropes.Frame
import ScriptMachine.Store.Basic

/-!
# Stores up to the form of their strings

Stores are alike if they know the same scopes, generators, continuations and so on, with alike
values, and remember right texts for the concatenations that those are made of. What is
remembered may differ. The state of the host is related by a relation of the host's own.
-/

namespace ScriptMachine

variable {W W' : Labellings} {noun : Noun} {α : Type}

/-! ## Tables -/

/-- The same identities were given out, and what they stand for is related. -/
structure Table.Alike (R : α → α → Prop) (t u : Table noun α) : Prop where
  next : t.next = u.next
  get? : ∀ id, Option.Rel R (t.get? id) (u.get? id)

namespace Table.Alike

variable {R T : α → α → Prop} {t u : Table noun α}

theorem mono (h : t.Alike R u) (hRT : ∀ a b, R a b → T a b) : t.Alike T u :=
  ⟨h.next, fun id => rel_mono hRT (h.get? id)⟩

theorem get [Inhabited α] (h : t.Alike R u) (hd : R default default) (id : Id noun) :
    R (t.get id) (u.get id) := rel_getD (h.get? id) hd

theorem insert (h : t.Alike R u) {a b : α} (hab : R a b) :
    (t.insert a).1 = (u.insert b).1 ∧ (t.insert a).2.Alike R (u.insert b).2 := by
  refine ⟨h.next, ?_, ?_⟩
  · have hsize : t.entries.size = u.entries.size := congrArg Id.index h.next
    simp [Table.insert, Table.next, hsize]
  · intro id
    rw [Table.get?_insert, Table.get?_insert, h.next]
    split
    · exact .some hab
    · exact h.get? id

theorem modify (h : t.Alike R u) (id : Id noun) {f g : α → α}
    (hfg : ∀ a b, R a b → R (f a) (g b)) : (t.modify id f).Alike R (u.modify id g) := by
  constructor
  · have hsize : t.entries.size = u.entries.size := congrArg Id.index h.next
    simp [Table.modify, Table.next, hsize]
  · intro other
    rw [Table.get?_modify, Table.get?_modify]
    split
    · exact rel_map hfg (h.get? other)
    · exact h.get? other

theorem set (h : t.Alike R u) (id : Id noun) {a b : α} (hab : R a b) :
    (t.set id a).Alike R (u.set id b) := h.modify id fun _ _ _ => hab

end Table.Alike

/-! ## Scopes -/

/-- The same name, with alike values. -/
def BindingAlike (W : Labellings) (b c : String × Value) : Prop := b.1 = c.1 ∧ b.2.Alike W c.2

/-- The same names with alike values, and the same ancestors. -/
structure Scope.Alike (W : Labellings) (s t : Scope) : Prop where
  bindings : List.Forall₂ (BindingAlike W) s.bindings t.bindings
  ancestors : s.ancestors = t.ancestors

theorem Scope.alike_default : (default : Scope).Alike W default := ⟨.nil, rfl⟩

namespace Scope.Alike

variable {s t : Scope}

theorem mono (h : s.Alike W t) (hle : W ≤ W') : s.Alike W' t :=
  ⟨h.bindings.imp fun _ _ h => ⟨h.1, h.2.mono hle⟩, h.ancestors⟩

theorem find (h : s.Alike W t) (name : String) :
    Option.Rel (Value.Alike W) (s.find? name) (t.find? name) := by
  have hlookup : ∀ l k, List.Forall₂ (BindingAlike W) l k →
      Option.Rel (Value.Alike W) (l.lookup name) (k.lookup name) := by
    intro l k hlk
    induction hlk with
    | nil => exact .none
    | @cons b c l k hbc _ ih =>
      obtain ⟨n, v⟩ := b
      obtain ⟨n', w⟩ := c
      obtain ⟨rfl, hvw⟩ : n = n' ∧ v.Alike W w := hbc
      rw [List.lookup_cons, List.lookup_cons]
      split
      · exact .some hvw
      · exact ih
  exact hlookup _ _ h.bindings

theorem has (h : s.Alike W t) (name : String) : s.has name = t.has name := by
  have hany : ∀ l k, List.Forall₂ (BindingAlike W) l k →
      l.any (·.1 == name) = k.any (·.1 == name) := by
    intro l k hlk
    induction hlk with
    | nil => rfl
    | cons hbc _ ih => rw [List.any_cons, List.any_cons, hbc.1, ih]
  exact hany _ _ h.bindings

theorem define (h : s.Alike W t) (name : String) {v w : Value} (hv : v.Alike W w) :
    (s.define name v).Alike W (t.define name w) := by
  have hassign : ∀ l k, List.Forall₂ (BindingAlike W) l k →
      List.Forall₂ (BindingAlike W) (Scope.assign name v l) (Scope.assign name w k) := by
    intro l k hlk
    induction hlk with
    | nil => exact .cons ⟨rfl, hv⟩ .nil
    | cons hbc hrest ih =>
      unfold Scope.assign
      rw [hbc.1]
      split
      · exact .cons ⟨rfl, hv⟩ hrest
      · exact .cons hbc ih
  exact ⟨hassign _ _ h.bindings, h.ancestors⟩

theorem delete (h : s.Alike W t) (name : String) : (s.delete name).Alike W (t.delete name) := by
  have hfilter : ∀ l k, List.Forall₂ (BindingAlike W) l k →
      List.Forall₂ (BindingAlike W) (l.filter (·.1 != name)) (k.filter (·.1 != name)) := by
    intro l k hlk
    induction hlk with
    | nil => exact .nil
    | cons hbc _ ih =>
      rw [List.filter_cons, List.filter_cons, hbc.1]
      split
      · exact .cons hbc ih
      · exact ih
  exact ⟨hfilter _ _ h.bindings, h.ancestors⟩

theorem names (h : s.Alike W t) : s.names = t.names := by
  have hmap : ∀ l k, List.Forall₂ (BindingAlike W) l k → l.map (·.1) = k.map (·.1) := by
    intro l k hlk
    induction hlk with
    | nil => rfl
    | cons hbc _ ih => rw [List.map_cons, List.map_cons, hbc.1, ih]
  exact hmap _ _ h.bindings

end Scope.Alike

namespace Scopes

/-- The same scopes, with alike values. -/
protected abbrev Alike (W : Labellings) (t u : Scopes) : Prop := Table.Alike (Scope.Alike W) t u

variable {t u : Scopes}

theorem alike_get (h : Scopes.Alike W t u) (s : Id .scope) : (t.get s).Alike W (u.get s) :=
  Table.Alike.get h Scope.alike_default s

theorem chain_eq (h : Scopes.Alike W t u) (s : Id .scope) : t.chain s = u.chain s := by
  unfold chain
  rw [(alike_get h s).ancestors]

theorem alike_find (h : Scopes.Alike W t u) (s : Id .scope) (name : String) :
    Option.Rel (Value.Alike W) (t.find? s name) (u.find? s name) := by
  unfold find?
  rw [chain_eq h]
  induction u.chain s with
  | nil => exact .none
  | cons owner rest ih =>
    have howner := (alike_get h owner).find name
    rw [List.findSome?_cons, List.findSome?_cons]
    revert howner
    generalize (t.get owner).find? name = x, (u.get owner).find? name = y
    rintro (hv | _)
    · exact .some hv
    · exact ih

theorem owner_eq (h : Scopes.Alike W t u) (s : Id .scope) (name : String) :
    t.owner? s name = u.owner? s name := by
  unfold owner?
  rw [chain_eq h]
  exact congrArg (List.find? · _) (funext fun owner => (alike_get h owner).has name)

theorem has_eq (h : Scopes.Alike W t u) (s : Id .scope) (name : String) :
    t.has s name = u.has s name := by
  unfold has
  rw [owner_eq h]

theorem alike_define (h : Scopes.Alike W t u) (s : Id .scope) (name : String) {v w : Value}
    (hv : v.Alike W w) : Scopes.Alike W (t.define s name v) (u.define s name w) :=
  Table.Alike.modify h s fun _ _ hs => hs.define name hv

theorem alike_put (h : Scopes.Alike W t u) (s : Id .scope) (name : String) {v w : Value}
    (hv : v.Alike W w) : Scopes.Alike W (t.put s name v) (u.put s name w) := by
  unfold put
  rw [owner_eq h]
  exact alike_define h _ name hv

theorem alike_delete (h : Scopes.Alike W t u) (s : Id .scope) (name : String) :
    Option.Rel (Value.Alike W) (t.delete s name).1 (u.delete s name).1 ∧
      Scopes.Alike W (t.delete s name).2 (u.delete s name).2 :=
  ⟨(alike_get h s).find name, Table.Alike.modify h s fun _ _ hs => hs.delete name⟩

theorem alike_create (h : Scopes.Alike W t u) (parent : Option (Id .scope)) :
    (t.create parent).1 = (u.create parent).1 ∧
      Scopes.Alike W (t.create parent).2 (u.create parent).2 := by
  cases parent with
  | none => exact Table.Alike.insert h ⟨.nil, rfl⟩
  | some p =>
    exact Table.Alike.insert h ⟨.nil, congrArg (p :: ·) (alike_get h p).ancestors⟩

end Scopes

/-! ## Suspended computations -/

/-- Frames one by one. -/
abbrev FramesAlike (W : Labellings) : List Frame → List Frame → Prop :=
  List.Forall₂ (Frame.Alike W)

theorem FramesAlike.mono {l k : List Frame} (h : FramesAlike W l k) (hle : W ≤ W') :
    FramesAlike W' l k := h.imp fun _ _ h => h.mono hle

/-- The same phase, with alike frames. -/
structure GeneratorState.Alike (W : Labellings) (s t : GeneratorState) : Prop where
  frame : Option.Rel (Frame.Alike W) s.frame t.frame
  started : s.started = t.started
  finished : s.finished = t.finished

/-- The same phase, with alike frames. -/
inductive CaptureState.Alike (W : Labellings) : CaptureState → CaptureState → Prop
  | pending : CaptureState.Alike W .pending .pending
  | captured {l k : List Frame} (h : FramesAlike W l k) :
      CaptureState.Alike W (.captured l) (.captured k)
  | resumed : CaptureState.Alike W .resumed .resumed

/-- Alike values are kept aside. -/
structure Resumption.Alike (W : Labellings) (r s : Resumption) : Prop where
  value : Option.Rel (Value.Alike W) r.value s.value
  done : r.done = s.done

theorem GeneratorState.Alike.mono {s t : GeneratorState} (h : s.Alike W t) (hle : W ≤ W') :
    s.Alike W' t :=
  ⟨rel_mono (fun _ _ h => h.mono hle) h.frame, h.started, h.finished⟩

theorem GeneratorState.alike_default : (default : GeneratorState).Alike W default :=
  ⟨.none, rfl, rfl⟩

theorem CaptureState.alike_default : (default : CaptureState).Alike W default := .resumed

theorem Resumption.alike_default : (default : Resumption).Alike W default := ⟨.none, rfl⟩

theorem Resumption.Alike.mono {r s : Resumption} (h : r.Alike W s) (hle : W ≤ W') :
    r.Alike W' s :=
  ⟨rel_mono (fun _ _ h => h.mono hle) h.value, h.done⟩

namespace CaptureState.Alike

variable {s t : CaptureState}

theorem mono (h : s.Alike W t) (hle : W ≤ W') : s.Alike W' t := by
  cases h with
  | pending => exact .pending
  | captured h => exact .captured (h.mono hle)
  | resumed => exact .resumed

theorem isResumable (h : s.Alike W t) : s.isResumable = t.isResumable := by
  cases h <;> rfl

theorem isCaptured (h : s.Alike W t) : s.isCaptured = t.isCaptured := by
  cases h <;> rfl

theorem isStrict (h : s.Alike W t) : s.isStrict = t.isStrict := by
  cases h with
  | pending => rfl
  | resumed => rfl
  | @captured l k h =>
    have hlast := rel_getElem? h (k.length - 1)
    show l.getLast?.any (·.body.routine.isStrict) = k.getLast?.any (·.body.routine.isStrict)
    rw [List.getLast?_eq_getElem?, List.getLast?_eq_getElem?, h.length_eq]
    revert hlast
    generalize l[k.length - 1]? = x, k[k.length - 1]? = y
    rintro (h | _)
    · exact congrArg (·.routine.isStrict) h.body
    · rfl

end CaptureState.Alike

/-! ## Stores -/

variable {σ : Type} {S : Labellings → σ → σ → Prop} {m m' : Store σ}

/-- The same store but for the form of strings and what is remembered of them. -/
structure Store.Alike (S : Labellings → σ → σ → Prop) (W : Labellings) (m m' : Store σ) :
    Prop where
  scopes : Scopes.Alike W m.scopes m'.scopes
  texts : FlatTexts.Sound W.1 m.texts
  texts' : FlatTexts.Sound W.2 m'.texts
  generators : m.generators.Alike (GeneratorState.Alike W) m'.generators
  continuations : m.continuations.Alike (CaptureState.Alike W) m'.continuations
  resumptions : m.resumptions.Alike (Resumption.Alike W) m'.resumptions
  contexts : m.contexts = m'.contexts
  factories : m.factories = m'.factories
  loaders : m.loaders = m'.loaders
  bindings : m.bindings = m'.bindings
  supply : m.supply = m'.supply
  host : S W m.host m'.host

namespace Store.Alike

/-- A computation on ropes. -/
theorem flattening (h : m.Alike S W m') {β γ : Type} {R : β → γ → Prop} {c : Flattening β}
    {d : Flattening γ} (hcd : Flattening.Alike W R c d) :
    R (m.flattening c).1 (m'.flattening d).1 ∧
      (m.flattening c).2.Alike S W (m'.flattening d).2 := by
  obtain ⟨hr, ht, hu⟩ := hcd m.texts m'.texts h.texts h.texts'
  exact ⟨hr, { h with texts := ht, texts' := hu }⟩

/-- A computation on ropes that may make concatenations. -/
theorem flatteningLater (h : m.Alike S W m') (hS : Monotone S)
    {β γ : Type} {R : Labellings → β → γ → Prop} {c : Flattening β} {d : Flattening γ}
    (hcd : Flattening.AlikeLater W R c d) :
    ∃ W', W ≤ W' ∧ R W' (m.flattening c).1 (m'.flattening d).1 ∧
      (m.flattening c).2.Alike S W' (m'.flattening d).2 := by
  obtain ⟨W', hle, hr, ht, hu⟩ := hcd m.texts m'.texts h.texts h.texts'
  refine ⟨W', hle, hr, ?_⟩
  exact { scopes := h.scopes.mono fun _ _ h => h.mono hle
          texts := ht
          texts' := hu
          generators := h.generators.mono fun _ _ h => h.mono hle
          continuations := h.continuations.mono fun _ _ h => h.mono hle
          resumptions := h.resumptions.mono fun _ _ h => h.mono hle
          contexts := h.contexts
          factories := h.factories
          loaders := h.loaders
          bindings := h.bindings
          supply := h.supply
          host := hS hle _ _ h.host }

theorem fresh (h : m.Alike S W m') (noun : Noun) :
    (m.fresh noun).1 = (m'.fresh noun).1 ∧ (m.fresh noun).2.Alike S W (m'.fresh noun).2 :=
  ⟨congrArg Id.mk h.supply, { h with supply := congrArg (· + 1) h.supply }⟩

theorem context (h : m.Alike S W m') (c : Id .context) : m.context c = m'.context c := by
  unfold Store.context
  rw [h.contexts]

theorem factoryOf (h : m.Alike S W m') (c : Id .context) : m.factoryOf c = m'.factoryOf c := by
  unfold Store.factoryOf
  rw [h.context, h.factories]

theorem current (h : m.Alike S W m') (thread : Id .thread) :
    m.current? thread = m'.current? thread := by
  unfold Store.current?
  rw [h.bindings]

theorem modifyContext (h : m.Alike S W m') (c : Id .context) (f : Context → Context) :
    (m.modifyContext c f).Alike S W (m'.modifyContext c f) :=
  { h with contexts := congrArg (·.modify c f) h.contexts }

theorem rebind (h : m.Alike S W m')
    (f : List (Id .thread × Id .context) → List (Id .thread × Id .context)) :
    { m with bindings := f m.bindings }.Alike S W { m' with bindings := f m'.bindings } :=
  { h with bindings := congrArg f h.bindings }

theorem newContext (h : m.Alike S W m') (f : Id .factory) :
    (m.newContext f).1 = (m'.newContext f).1 ∧
      (m.newContext f).2.Alike S W (m'.newContext f).2 := by
  unfold Store.newContext
  rw [h.contexts]
  exact ⟨rfl, { h with contexts := rfl }⟩

theorem plannedContext (h : m.Alike S W m') (f : Id .factory) (plan : ContextPlan) :
    (m.plannedContext f plan).1 = (m'.plannedContext f plan).1 ∧
      (m.plannedContext f plan).2.Alike S W (m'.plannedContext f plan).2 := by
  unfold Store.plannedContext
  rw [h.contexts]
  exact ⟨rfl, { h with contexts := rfl }⟩

theorem newGenerator (h : m.Alike S W m') {f g : Frame} (hfg : f.Alike W g) :
    (m.newGenerator f).1 = (m'.newGenerator g).1 ∧
      (m.newGenerator f).2.Alike S W (m'.newGenerator g).2 := by
  obtain ⟨hid, hinsert⟩ := h.generators.insert (a := { frame := some f })
    (b := { frame := some g }) ⟨.some hfg, rfl, rfl⟩
  exact ⟨congrArg₂ Generator.mk hid hfg.body, { h with generators := hinsert }⟩

theorem generator (h : m.Alike S W m') (g : Id .generator) :
    (m.generators.get g).Alike W (m'.generators.get g) :=
  h.generators.get GeneratorState.alike_default g

theorem continuation (h : m.Alike S W m') (k : Id .continuation) :
    (m.continuations.get k).Alike W (m'.continuations.get k) :=
  h.continuations.get CaptureState.alike_default k

theorem resumption (h : m.Alike S W m') (r : Id .resumption) :
    (m.resumptions.get r).Alike W (m'.resumptions.get r) :=
  h.resumptions.get Resumption.alike_default r

end Store.Alike

/-- Results of the same operation on alike stores, which may be refused. -/
inductive Store.RepliesAlike (S : Labellings → σ → σ → Prop) (W : Labellings) {ε β : Type}
    (R : β → β → Prop) : Except ε (β × Store σ) → Except ε (β × Store σ) → Prop
  | ok {b c : β} {m m' : Store σ} (hr : R b c) (hm : m.Alike S W m') :
      RepliesAlike S W R (.ok (b, m)) (.ok (c, m'))
  | error (e : ε) : RepliesAlike S W R (.error e) (.error e)

namespace Store.Alike

theorem takeFrames (h : m.Alike S W m') (k : Id .continuation) :
    RepliesAlike S W (FramesAlike W) (m.takeFrames k) (m'.takeFrames k) := by
  have hk := h.continuation k
  unfold Store.takeFrames
  revert hk
  generalize m.continuations.get k = s, m'.continuations.get k = s'
  rintro (_ | hframes | _)
  · exact .error _
  · exact .ok hframes { h with continuations := h.continuations.set k .resumed }
  · exact .error _

theorem requestCapture (h : m.Alike S W m') (c : Id .context) :
    RepliesAlike S W Eq (m.requestCapture c) (m'.requestCapture c) := by
  unfold Store.requestCapture
  rw [h.context]
  dsimp only
  split
  · exact .error _
  · split
    · exact .error _
    · split
      · exact .error _
      · obtain ⟨hid, hinsert⟩ := h.continuations.insert CaptureState.Alike.pending
        have hp : Pending.mk (m.continuations.insert .pending).1 none =
            ⟨(m'.continuations.insert .pending).1, none⟩ := by rw [hid]
        exact .ok hp { h with continuations := hinsert }

end Store.Alike

end ScriptMachine
