import Mathlib.Data.List.Induction
import ScriptMachine.Proofs.Lists
import ScriptMachine.Proofs.Unwinding.Routing

/-!
# Finally blocks that a throw leaves behind

A throw or a return abandons the finally blocks of the try statements it leaves, but only those on
top of the others. A normal exit can put a block of fewer handlers on top of one of more, if code
leaves a try statement in the middle of a finally block inside it; the block below is then out of
reach. `FrameMove.passed_of_remaining` says that this is the only way.
-/

namespace ScriptMachine

/-- A return goes no further than a handler with a finally block. -/
def Handler.stopsReturn (h : Handler) : Bool := h.finallyAt.isSome

/-- The handlers outside of the first one that stops a throw or a return. -/
def Handler.outside (stops : Handler → Bool) : List Handler → List Handler
  | [] => []
  | h :: outer => if stops h then outer else outside stops outer

/-! ## Leaving handlers -/

theorem Handler.length_outside_le (stops : Handler → Bool) (handlers : List Handler) :
    (outside stops handlers).length ≤ handlers.length := by
  induction handlers with
  | nil => exact Nat.le_refl _
  | cons h outer ih =>
    rw [outside]
    split
    · exact Nat.le_succ _
    · exact Nat.le_succ_of_le ih

namespace Frame

variable {f g : Frame} {h : Handler} {outer : List Handler} {cleanups : List Cleanup} {v : Value}

/-- What a throw or a return makes of the try statements of a frame. Of the handlers the outer ones
are left, perhaps with the finally block of the one that was reached. Cleanups with more handlers
than that are dropped from the top, and one may have begun. -/
structure Unwound (cleanups : List Cleanup) (outer : List Handler) (g : Frame) : Prop where
  handlers : outer <:+ g.handlers
  cleanups : ∃ begun, g.cleanups = begun ++ cleanups.dropWhile (outer.length < ·.depth) ∧
    ∀ c ∈ begun, c.depth = outer.length

theorem Unwound.of_dropWhile {count : Nat} (hcount : outer.length ≤ count)
    (h : Unwound (cleanups.dropWhile (count < ·.depth)) outer g) : Unwound cleanups outer g := by
  obtain ⟨begun, hcleanups, hbegun⟩ := h.cleanups
  have hdrop : (cleanups.dropWhile (count < ·.depth)).dropWhile (outer.length < ·.depth) =
      cleanups.dropWhile (outer.length < ·.depth) := by
    refine dropWhile_dropWhile (fun c hc => ?_) cleanups
    rw [decide_eq_true_eq] at hc ⊢
    exact Nat.lt_of_le_of_lt hcount hc
  exact ⟨h.handlers, begun, hdrop ▸ hcleanups, hbegun⟩

/-- Handlers are passed by one after another, and what they abandon adds up. -/
theorem unwound_of_passes {stops : Handler → Bool} (route : Frame → List Handler → Frame)
    (hnil : ∀ f, route f [] = { f with handlers := [] })
    (hstops : ∀ f h outer, stops h → Unwound f.cleanups outer (route f (h :: outer)))
    (hpasses : ∀ f h outer, stops h = false → ∃ f' : Frame,
      f'.cleanups = f.cleanups.dropWhile (outer.length < ·.depth) ∧
        route f (h :: outer) = route f' outer) (f : Frame) (h : Handler) (outer : List Handler) :
    Unwound f.cleanups (Handler.outside stops (h :: outer)) (route f (h :: outer)) := by
  induction outer generalizing f h with
  | nil =>
    rw [Handler.outside]
    split
    · next hh => exact hstops f h [] hh
    · next hh =>
      obtain ⟨f', hf', hroute⟩ := hpasses f h [] (by simpa using hh)
      rw [hroute, hnil]
      exact ⟨List.suffix_refl _, [], hf', nofun⟩
  | cons inner outer ih =>
    rw [Handler.outside]
    split
    · next hh => exact hstops f h _ hh
    · next hh =>
      obtain ⟨f', hf', hroute⟩ := hpasses f h _ (by simpa using hh)
      rw [hroute]
      exact .of_dropWhile (Handler.length_outside_le ..) (hf' ▸ ih f' inner)

theorem Caught.unwound (hg : f.Caught h outer v g) : Unwound f.cleanups outer g where
  handlers := ⟨_, hg.handlers.symm⟩
  cleanups := by
    refine ⟨_, hg.cleanups, fun c hc => ?_⟩
    split at hc
    · cases hc
    · rw [List.mem_singleton.mp hc]

theorem unwound_routeThrow (hf : f.handlers ≠ []) (v : Value) :
    Unwound f.cleanups (Handler.outside Handler.stopsThrow f.handlers) (f.routeThrow v).2 := by
  obtain ⟨h, outer, hhandlers⟩ := List.exists_cons_of_ne_nil hf
  rw [routeThrow, hhandlers]
  refine unwound_of_passes (fun f handlers => (routeThrowThrough v f handlers).2)
    (fun _ => rfl) ?_ ?_ f h outer
  case refine_1 =>
    intro f h outer hstops
    obtain ⟨g, hroute, hg⟩ : ∃ g, routeThrowThrough v f (h :: outer) = (true, g) ∧
        f.Caught h outer v g := caught_routeThrowThrough hstops
    exact hroute ▸ hg.unwound
  case refine_2 =>
    rintro f ⟨catchAt, finallyAt, height⟩ outer hpasses
    obtain ⟨rfl, rfl⟩ : catchAt = none ∧ finallyAt = none := by
      simpa [Handler.stopsThrow] using hpasses
    exact ⟨_, rfl, rfl⟩

theorem unwound_routeReturn (hf : f.handlers ≠ []) (v : Value) :
    Unwound f.cleanups (Handler.outside Handler.stopsReturn f.handlers) (f.routeReturn v).2 := by
  obtain ⟨h, outer, hhandlers⟩ := List.exists_cons_of_ne_nil hf
  rw [routeReturn, hhandlers]
  refine unwound_of_passes (fun f handlers => (routeReturnThrough v f handlers).2)
    (fun _ => rfl) ?_ ?_ f h outer
  case refine_1 =>
    rintro f ⟨catchAt, finallyAt, height⟩ outer hstops
    obtain ⟨target, rfl⟩ := Option.isSome_iff_exists.mp hstops
    exact ⟨List.suffix_refl _, [_], rfl, fun c hc => by rw [List.mem_singleton.mp hc]; rfl⟩
  case refine_2 =>
    rintro f ⟨catchAt, finallyAt, height⟩ outer hpasses
    obtain rfl : finallyAt = none := by simpa [Handler.stopsReturn] using hpasses
    exact ⟨_, rfl, rfl⟩

theorem endCleanup_snd (f : Frame) :
    f.endCleanup.2 = { f with cleanups := f.cleanups.tail } := by
  obtain ⟨body, position, operands, locals, handlers, cleanups, scope, receiver⟩ := f
  cases cleanups <;> rfl

theorem popHandler_of_nil (hf : f.handlers = []) : f.popHandler = f := by
  rw [popHandler, hf]

/-- A normal exit leaves the innermost handler and may begin a cleanup. -/
theorem exists_popHandler (hf : f.handlers = h :: outer) :
    ∃ begun, f.popHandler = { f with handlers := outer, cleanups := begun ++ f.cleanups } ∧
      ∀ c ∈ begun, c.depth = outer.length := by
  rw [popHandler, hf]
  dsimp only
  split
  · exact ⟨[⟨.normal, outer.length⟩], rfl, by simp⟩
  · exact ⟨[], rfl, nofun⟩

end Frame

/-! ## Nested cleanups -/

namespace Cleanup

/-- With so many handlers active, cleanups are nested, except for those that something is known of:
a cleanup was entered with no more handlers than are active, and with no more than the cleanups on
top of it. -/
def Nested (known : Cleanup → List Cleanup → Prop) (active : Nat) (cleanups : List Cleanup) :
    Prop :=
  ∀ above c below, cleanups = above ++ c :: below →
    known c below ∨ (c.depth ≤ active ∧ ∀ x ∈ above, c.depth ≤ x.depth)

namespace Nested

variable {known known' : Cleanup → List Cleanup → Prop} {active : Nat}
  {begun cleanups : List Cleanup}

theorem nil (known : Cleanup → List Cleanup → Prop) (active : Nat) : Nested known active [] := by
  intro above c below h
  simp at h

theorem imp (h : Nested known active cleanups)
    (himp : ∀ c below, c :: below <:+ cleanups → known c below → known' c below) :
    Nested known' active cleanups := fun above c below hsplit =>
  (h above c below hsplit).imp_left (himp c below ⟨above, hsplit.symm⟩)

theorem of_le {more : Nat} (hle : active ≤ more) (h : Nested known active cleanups) :
    Nested known more cleanups := fun above c below hsplit =>
  (h above c below hsplit).imp_right fun ⟨hdepth, habove⟩ => ⟨Nat.le_trans hdepth hle, habove⟩

theorem of_cons {x : Cleanup} (h : Nested known active (x :: cleanups)) :
    Nested known active cleanups := fun above c below hsplit =>
  (h (x :: above) c below (congrArg (x :: ·) hsplit)).imp_right fun ⟨hdepth, habove⟩ =>
    ⟨hdepth, fun y hy => habove y (List.mem_cons_of_mem x hy)⟩

theorem tail (h : Nested known active cleanups) : Nested known active cleanups.tail := by
  cases cleanups with
  | nil => exact h
  | cons x cleanups => exact h.of_cons

theorem of_append (h : Nested known active (begun ++ cleanups)) : Nested known active cleanups := by
  induction begun with
  | nil => exact h
  | cons x begun ih => exact ih h.of_cons

/-- Cleanups begin with as many handlers as are active. -/
theorem append (hbegun : ∀ c ∈ begun, c.depth = active) (h : Nested known active cleanups) :
    Nested known active (begun ++ cleanups) := by
  induction begun with
  | nil => exact h
  | cons x begun ih =>
    obtain ⟨hx, hbegun⟩ := List.forall_mem_cons.mp hbegun
    intro above c below hsplit
    cases above with
    | nil =>
      obtain ⟨rfl, -⟩ := List.cons.inj hsplit
      exact .inr ⟨Nat.le_of_eq hx, nofun⟩
    | cons y above =>
      rw [List.cons_append, List.cons_append] at hsplit
      obtain ⟨rfl, hrest⟩ := List.cons.inj hsplit
      refine (ih hbegun above c below hrest).imp_right fun ⟨hdepth, habove⟩ => ?_
      exact ⟨hdepth, List.forall_mem_cons.mpr ⟨hx ▸ hdepth, habove⟩⟩

/-- The cleanup on top that is not abandoned keeps all below it within its own depth. -/
theorem dropWhile (h : Nested known active cleanups) (left : Nat) :
    Nested known left (cleanups.dropWhile (left < ·.depth)) := by
  have hkept : Nested known active (cleanups.dropWhile (left < ·.depth)) := by
    rw [← List.takeWhile_append_dropWhile (p := (left < ·.depth)) (l := cleanups)] at h
    exact h.of_append
  intro above c below hsplit
  refine (hkept above c below hsplit).imp_right fun ⟨_, habove⟩ => ⟨?_, habove⟩
  have hhead : ∀ x rest, cleanups.dropWhile (left < ·.depth) = x :: rest → x.depth ≤ left := by
    intro x rest hx
    have hne : cleanups.dropWhile (left < ·.depth) ≠ [] := by simp [hx]
    simpa [hx] using List.head_dropWhile_not (fun c : Cleanup => decide (left < c.depth)) hne
  cases above with
  | nil => exact hhead c below hsplit
  | cons x above =>
    exact Nat.le_trans (habove x List.mem_cons_self) (hhead x _ hsplit)

/-- One handler fewer is active; then it is known of a cleanup that it was entered with all of
them. -/
theorem of_succ (h : Nested known (active + 1) cleanups)
    (himp : ∀ c below, c :: below <:+ cleanups →
      known c below ∨ c.depth = active + 1 → known' c below) : Nested known' active cleanups := by
  intro above c below hsplit
  have hsuffix : c :: below <:+ cleanups := ⟨above, hsplit.symm⟩
  obtain hknown | ⟨hdepth, habove⟩ := h above c below hsplit
  · exact .inl (himp c below hsuffix (.inl hknown))
  · obtain hle | heq := Nat.le_or_eq_of_le_succ hdepth
    · exact .inr ⟨hle, habove⟩
    · exact .inl (himp c below hsuffix (.inr heq))

end Nested

end Cleanup

/-! ## Moves -/

/-- What code does to the operands and the try statements of its frame. -/
inductive FrameMove where
  | push (v : Value)
  | pop
  | pushHandler (catchAt finallyAt : Option Nat)
  | popHandler
  | endCleanup
  | throw (v : Value)
  | return (v : Value)

namespace FrameMove

/-- The frame behind a move. -/
def perform (f : Frame) : FrameMove → Frame
  | .push v => f.push v
  | .pop => f.pop.2
  | .pushHandler catchAt finallyAt => f.pushHandler catchAt finallyAt
  | .popHandler => f.popHandler
  | .endCleanup => f.endCleanup.2
  | .throw v => (f.routeThrow v).2
  | .return v => (f.routeReturn v).2

/-- The frame behind several moves. -/
def after (start : Frame) (moves : List FrameMove) : Frame := moves.foldl perform start

/-- The handlers that a throw or a return does not come to. -/
def outer? (f : Frame) : FrameMove → Option (List Handler)
  | .throw _ => some (Handler.outside Handler.stopsThrow f.handlers)
  | .return _ => some (Handler.outside Handler.stopsReturn f.handlers)
  | _ => none

variable {start f : Frame} {moves : List FrameMove} {move : FrameMove} {outer : List Handler}
  {c : Cleanup} {below : List Cleanup}

theorem after_concat (start : Frame) (moves : List FrameMove) (move : FrameMove) :
    after start (moves ++ [move]) = move.perform (after start moves) := by
  rw [after, List.foldl_append]
  rfl

theorem unwound_of_outer? (hmove : move.outer? f = some outer) (hf : f.handlers ≠ []) :
    Frame.Unwound f.cleanups outer (move.perform f) := by
  cases move with
  | throw v =>
    cases hmove
    exact Frame.unwound_routeThrow hf v
  | «return» v =>
    cases hmove
    exact Frame.unwound_routeReturn hf v
  | _ => cases hmove

/-! ## Cleanups passed by -/

/-- A normal exit passed a cleanup by: it left the innermost try statement that was active when the
cleanup was entered, while the cleanup was under way, and the cleanup has been under way since. -/
def Passed (start : Frame) (moves : List FrameMove) (c : Cleanup) (below : List Cleanup) : Prop :=
  ∃ before later, moves = before ++ popHandler :: later ∧
    (after start before).handlers.length = c.depth ∧ 0 < c.depth ∧
    c :: below <:+ (after start before).cleanups ∧
    ∀ middle, middle <+: later →
      c :: below <:+ (after start (before ++ popHandler :: middle)).cleanups

theorem Passed.concat (h : Passed start moves c below)
    (hstays : c :: below <:+ (move.perform (after start moves)).cleanups) :
    Passed start (moves ++ [move]) c below := by
  obtain ⟨before, later, rfl, hdepth, hpos, hthere, hsince⟩ := h
  refine ⟨before, later ++ [move], by simp, hdepth, hpos, hthere, fun middle hmiddle => ?_⟩
  obtain rfl | hmiddle := List.prefix_concat_iff.mp hmiddle
  · rw [← after_concat] at hstays
    simpa using hstays
  · exact hsince middle hmiddle

/-- What a throw or a return leaves of nested cleanups is nested within the handlers it does not
come to. -/
theorem nested_of_unwound {known : Cleanup → List Cleanup → Prop} {active : Nat} {g : Frame}
    (h : Cleanup.Nested known active f.cleanups) (hg : Frame.Unwound f.cleanups outer g) :
    Cleanup.Nested known outer.length g.cleanups := by
  obtain ⟨begun, hcleanups, hbegun⟩ := hg.cleanups
  rw [hcleanups]
  exact (h.dropWhile outer.length).append hbegun

/-- Apart from normal exits, every move keeps cleanups nested. -/
theorem nested_perform {known : Cleanup → List Cleanup → Prop} (hmove : move ≠ popHandler)
    (h : Cleanup.Nested known f.handlers.length f.cleanups) :
    Cleanup.Nested known (move.perform f).handlers.length (move.perform f).cleanups := by
  have hunwound {outer : List Handler} (houter : move.outer? f = some outer)
      (hf : f.handlers ≠ []) :
      Cleanup.Nested known (move.perform f).handlers.length (move.perform f).cleanups := by
    have hg := unwound_of_outer? houter hf
    exact (nested_of_unwound h hg).of_le hg.handlers.length_le
  cases move with
  | push v => exact h
  | pop => exact h
  | pushHandler catchAt finallyAt => exact h.of_le (Nat.le_succ _)
  | popHandler => exact absurd rfl hmove
  | endCleanup =>
    rw [perform, Frame.endCleanup_snd]
    exact h.tail
  | throw v =>
    by_cases hf : f.handlers = []
    · rw [perform, Frame.routeThrow, hf, Frame.routeThrowThrough]
      exact hf ▸ h
    · exact hunwound rfl hf
  | «return» v =>
    by_cases hf : f.handlers = []
    · rw [perform, Frame.routeReturn, hf, Frame.routeReturnThrough]
      exact hf ▸ h
    · exact hunwound rfl hf

/-- A normal exit keeps cleanups nested, except for those that were entered with all handlers. -/
theorem nested_popHandler {known known' : Cleanup → List Cleanup → Prop}
    (h : Cleanup.Nested known f.handlers.length f.cleanups)
    (himp : ∀ c below, c :: below <:+ f.cleanups →
      known c below ∨ (f.handlers.length = c.depth ∧ 0 < c.depth) → known' c below) :
    Cleanup.Nested known' f.popHandler.handlers.length f.popHandler.cleanups := by
  cases hf : f.handlers with
  | nil =>
    rw [Frame.popHandler_of_nil hf]
    exact h.imp fun c below hsuffix hknown => himp c below hsuffix (.inl hknown)
  | cons handler outer =>
    obtain ⟨begun, hexit, hbegun⟩ := Frame.exists_popHandler hf
    rw [hf] at h himp
    rw [hexit]
    refine Cleanup.Nested.append hbegun (h.of_succ fun c below hsuffix hknown => ?_)
    refine himp c below hsuffix (hknown.imp_right fun hdepth => ⟨hdepth.symm, ?_⟩)
    exact hdepth ▸ Nat.succ_pos _

/-- A normal exit begins cleanups and ends none. -/
theorem suffix_popHandler (f : Frame) : f.cleanups <:+ f.popHandler.cleanups := by
  cases hf : f.handlers with
  | nil => exact (Frame.popHandler_of_nil hf).symm ▸ List.suffix_refl _
  | cons handler outer =>
    obtain ⟨begun, hexit, -⟩ := Frame.exists_popHandler hf
    rw [hexit]
    exact List.suffix_append begun f.cleanups

/-- The cleanups of code are nested, except for those passed by. -/
theorem nested_after (hstart : start.cleanups = []) (moves : List FrameMove) :
    Cleanup.Nested (Passed start moves) (after start moves).handlers.length
      (after start moves).cleanups := by
  induction moves using List.reverseRecOn with
  | nil =>
    have hnone : (after start []).cleanups = [] := hstart
    exact hnone ▸ Cleanup.Nested.nil _ _
  | append_singleton moves move ih =>
    rw [after_concat]
    by_cases hmove : move = popHandler
    · subst hmove
      refine nested_popHandler ih fun c below hthere hknown => ?_
      have hstays : c :: below <:+ (after start (moves ++ [popHandler])).cleanups := by
        rw [after_concat]
        exact hthere.trans (suffix_popHandler _)
      obtain hpassed | ⟨hdepth, hpos⟩ := hknown
      · exact hpassed.concat (after_concat start moves popHandler ▸ hstays)
      · refine ⟨moves, [], rfl, hdepth, hpos, hthere, fun middle hmiddle => ?_⟩
        rwa [List.prefix_nil.mp hmiddle]
    · refine (nested_perform hmove ih).imp ?_
      exact fun c below hstays hpassed => hpassed.concat hstays

/-- A throw or a return abandons every finally block of the try statements it leaves, however far
down, except for those that a normal exit passed by. -/
theorem passed_of_remaining (body : Executable) (scope : Id .scope) (receiver : Value)
    (args : List Value) (moves : List FrameMove)
    (hmove : move.outer? (after (Frame.enter body scope receiver args) moves) = some outer)
    (hhandlers : (after (Frame.enter body scope receiver args) moves).handlers ≠ [])
    (hremains : c :: below <:+
      (move.perform (after (Frame.enter body scope receiver args) moves)).cleanups)
    (hdepth : outer.length < c.depth) :
    Passed (Frame.enter body scope receiver args) moves c below := by
  obtain ⟨above, hsplit⟩ := hremains
  have hstart : (Frame.enter body scope receiver args).cleanups = [] := rfl
  have hleft := nested_of_unwound (nested_after hstart moves) (unwound_of_outer? hmove hhandlers)
  obtain hpassed | ⟨hle, -⟩ := hleft above c below hsplit.symm
  · exact hpassed
  · exact absurd hle (Nat.not_le_of_gt hdepth)

/-! ## A block that is out of reach -/

/-- In a try statement, a finally block that a throw led into leaves both. A later try statement has
its finally block begun, and inside it one more try statement is entered. -/
def leaving : List FrameMove :=
  [.pushHandler (some 15) none, .pushHandler none (some 6), .throw .null, .popHandler,
    .pushHandler none (some 9), .popHandler, .pushHandler (some 12) none]

/-- The frame behind that. -/
def leavingFrame : Frame :=
  after (Frame.enter Activation.guardingExecutable ⟨0⟩ .undefined []) leaving

/-- The first finally block is beneath the second, which was entered with fewer handlers. -/
theorem passed_of_leaving :
    (throw (.bool true)).outer? leavingFrame = some [] ∧ leavingFrame.handlers ≠ [] ∧
    [⟨.throw .null, 1⟩] <:+ ((throw (.bool true)).perform leavingFrame).cleanups ∧
    Passed (Frame.enter Activation.guardingExecutable ⟨0⟩ .undefined []) leaving
      ⟨.throw .null, 1⟩ [] := by
  have houter : (throw (.bool true)).outer? leavingFrame = some [] := rfl
  have hhandlers : leavingFrame.handlers ≠ [] := List.cons_ne_nil _ _
  have hremains : [⟨.throw .null, 1⟩] <:+ ((throw (.bool true)).perform leavingFrame).cleanups :=
    List.suffix_append [Cleanup.mk .normal 0] _
  exact ⟨houter, hhandlers, hremains, passed_of_remaining Activation.guardingExecutable ⟨0⟩
    .undefined [] leaving houter hhandlers hremains Nat.one_pos⟩

/-- A throw leaves all handlers there, but not the finally block of the first try statement. Once
the second block has ended, the old throw is taken up again. -/
theorem leaving_left_behind :
    leavingFrame.handlers ≠ [] ∧ (throw (.bool true)).outer? leavingFrame = some [] ∧
    (∃ c ∈ ((throw (.bool true)).perform leavingFrame).cleanups, 0 < c.depth) ∧
    ((throw (.bool true)).perform leavingFrame).endCleanup.2.endCleanup.1 = .throw .null :=
  ⟨List.cons_ne_nil _ _, rfl, ⟨⟨.throw .null, 1⟩, List.mem_cons_of_mem _ List.mem_cons_self,
    Nat.one_pos⟩, rfl⟩

end FrameMove

end ScriptMachine
