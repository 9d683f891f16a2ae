import Substrate.Proofs.Control.Allocation
import Substrate.Proofs.Control.Operations

/-!
# Simulation of the direct semantics

`Simulates` relates an operation of the machine to a meaning in the direct semantics. Every control
operation keeps this relation: an operation around bodies that simulate some meanings simulates the
meaning around these. Programs are simulated by induction, from the inside to the outside, and calls
by induction on how deep they may be nested.
-/

namespace Substrate

open Machine ControlStack

/-- How the outcome of an operation corresponds to an ending; `c` is the control stack on entry. -/
inductive Agrees (c : ControlStack) :
    EStateM.Result Fault (Machine Journal) (Outcome Value) → Ending → Prop where
  | value {m : Machine Journal} (value : Value) (restored : c.Restored m.running.control)
      (sound : m.running.control.Sound) (pending : m.running.control.pending = none) :
      Agrees c (.ok (.ok value) m) (.value value)
  /-- The exit is under way to the catch frame that has `level` frames around it. -/
  | exit {m : Machine Journal} {target level : Nat} {tag : Value} (values : List Value)
      (restored : c.Restored m.running.control) (sound : m.running.control.Sound)
      (established : c.frames[level]? = some ⟨target, .catching tag⟩)
      (pending : m.running.control.pending = some ⟨target, values⟩) :
      Agrees c (.ok (.error (.exit target)) m) (.exit level values)
  | error {m : Machine Journal} (error : Error) (restored : c.Restored m.running.control)
      (sound : m.running.control.Sound) (pending : m.running.control.pending = none) :
      Agrees c (.ok (.error (.error error)) m) (.error error)
  | uncaught {m : Machine Journal} {id : Nat} (tag : Value) (shown : String)
      (thread : m.running.id = id) :
      Agrees c (.error (noCatchFrame shown id) m) (.uncaught tag shown)
  | fault {m : Machine Journal} (fault : Fault) : Agrees c (.error fault m) (.fault fault)

/-- The machine after an operation. -/
def after {α : Type} : EStateM.Result Fault (Machine Journal) α → Machine Journal
  | .ok _ m => m
  | .error _ m => m

/-- A machine on which a program can start that has `calls` nested calls left. -/
structure Ready (calls : Nat) (m : Machine Journal) : Prop where
  sound : m.running.control.Sound
  pending : m.running.control.pending = none
  calls : m.running.control.callsLeft = calls

/-- The operation ended as an evaluation says and left the store that it says. What the allocations
found is the first part of what the evaluation is told to find. -/
def Matches (c : ControlStack) (r : EStateM.Result Fault (Machine Journal) (Outcome Value))
    (evaluation : List Hidden → Evaluation) : Prop :=
  ∃ used ending, Agrees c r ending ∧
    ∀ rest, evaluation (used ++ rest) = ⟨ending, (after r).store rest⟩

/-- Wherever a program can start, the operation does what the meaning says. -/
def Simulates (calls : Nat) (x : Op Journal (Outcome Value)) (y : Context → Store → Evaluation) :
    Prop :=
  ∀ m, Ready calls m → Matches m.running.control (x m) fun found =>
    y m.running.control.context (m.store found)

variable {calls : Nat} {x x' : Op Journal (Outcome Value)} {y y' : Context → Store → Evaluation}
  {c c' : ControlStack} {m m' : Machine Journal} {evaluation : List Hidden → Evaluation}
  {r : EStateM.Result Fault (Machine Journal) (Outcome Value)} {ending : Ending}

/-! ## Contexts and stores -/

namespace ControlStack

theorem Restored.context (h : c.Restored c') : c'.context = c.context := by
  have hbindings : c'.bindingAt = c.bindingAt := funext h.bindingAt
  simp only [ControlStack.context, h.frames, h.frameLimit, h.invocationLimit, hbindings]

theorem context_pushed (c : ControlStack) (kind : FrameKind) :
    (c.pushed kind).context = { c.context with scopes := kind.tag? :: c.context.scopes } := by
  simp only [context, pushed, Array.toList_push, List.map_append, List.map_cons, List.map_nil,
    List.reverse_append, List.reverse_cons, List.reverse_nil, List.nil_append, List.singleton_append]
  rfl

theorem context_bound (c : ControlStack) (symbol : Value) (index : Nat) (value : Value) :
    (c.bound symbol index value).context
      = ({ c.context with scopes := none :: c.context.scopes } : Context).bind index value := by
  have hscopes := congrArg Context.scopes
    (context_pushed (c.reserve index) (.binding symbol index (c.bindingAt index)))
  have hbindings := bindingAt_bound c symbol index value
  simp only [context, Context.bind, hbindings]
  exact congrArg (Context.mk · _ _ _) hscopes

@[simp] theorem length_scopes (c : ControlStack) : c.context.scopes.length = c.frames.size := by
  simp [context]

theorem findCatch?_eq (c : ControlStack) (tag : Value) :
    c.findCatch? tag = c.frames.toList.reverse.findSome? fun frame =>
      if frame.kind = .catching tag then some frame.serial else none := by
  rw [findCatch?, Array.findSomeRev?_eq_findSome?_reverse, ← Array.findSome?_toList,
    Array.toList_reverse]
  refine congrArg (List.findSome? · _) (funext ?_)
  rintro ⟨serial, kind⟩
  cases kind <;> simp

theorem tag?_eq_some {kind : FrameKind} {tag : Value} :
    kind.tag? = some tag ↔ kind = .catching tag := by
  cases kind <;> simp [FrameKind.tag?]

/-- The search from the innermost frame outwards finds the frame that `catcher?` counts to. -/
theorem findSome?_of_catcher? {tag : Value} {level : Nat} {frames : List Frame}
    (h : catcher? tag (frames.map (·.kind.tag?)) = some level) :
    ∃ target, frames.reverse[level]? = some ⟨target, .catching tag⟩ ∧
      (frames.findSome? fun frame =>
        if frame.kind = .catching tag then some frame.serial else none) = some target := by
  induction frames with
  | nil => cases h
  | cons frame outer ih =>
    rw [List.map_cons, catcher?] at h
    rw [List.findSome?_cons, List.reverse_cons]
    split at h
    · rename_i htag
      have hkind := tag?_eq_some.mp htag
      cases h
      refine ⟨frame.serial, ?_, by rw [if_pos hkind]⟩
      rw [List.length_map, List.getElem?_append_right (by simp), List.length_reverse, Nat.sub_self,
        ← hkind]
      rfl
    · rename_i htag
      obtain ⟨target, hframe, hfind⟩ := ih h
      refine ⟨target, ?_, ?_⟩
      · rw [List.getElem?_append_left (List.getElem?_eq_some_iff.mp hframe).1, hframe]
      · rw [if_neg fun hkind => htag (tag?_eq_some.mpr hkind)]
        exact hfind

theorem findSome?_of_catcher?_eq_none {tag : Value} {frames : List Frame}
    (h : catcher? tag (frames.map (·.kind.tag?)) = none) :
    (frames.findSome? fun frame =>
      if frame.kind = .catching tag then some frame.serial else none) = none := by
  induction frames with
  | nil => rfl
  | cons frame outer ih =>
    rw [List.map_cons, catcher?] at h
    split at h
    · cases h
    · rename_i htag
      rw [List.findSome?_cons, if_neg fun hkind => htag (tag?_eq_some.mpr hkind)]
      exact ih h

/-- The exit of a tag goes to the frame that the direct semantics says. -/
theorem findCatch?_of_catcher? {tag : Value} {level : Nat}
    (h : catcher? tag c.context.scopes = some level) :
    ∃ target, c.frames[level]? = some ⟨target, .catching tag⟩ ∧
      c.findCatch? tag = some target := by
  rw [context, ← List.map_reverse] at h
  obtain ⟨target, hframe, hfind⟩ := findSome?_of_catcher? h
  rw [List.reverse_reverse, Array.getElem?_toList] at hframe
  exact ⟨target, hframe, (findCatch?_eq c tag).trans hfind⟩

theorem findCatch?_eq_none {tag : Value} (h : catcher? tag c.context.scopes = none) :
    c.findCatch? tag = none := by
  rw [context, ← List.map_reverse] at h
  exact (findCatch?_eq c tag).trans (findSome?_of_catcher?_eq_none h)

end ControlStack

theorem store_under {m : Machine Journal} {hidden : Hidden}
    (h : hidden.control.values = m.running.control.values) (found : List Hidden) :
    (m.under hidden).store found = m.store found :=
  congrArg (Store.mk m.world · found) h

theorem store_abandon (m : Machine Journal) (scope : Scope) (found : List Hidden) :
    (m.withControl (m.running.control.abandon scope)).store found = m.store found := by
  have hvalues : (⟨m.running.control.abandon scope, m.log⟩ : Hidden).control.values
      = m.running.control.values := values_abandon _ scope
  exact store_under hvalues found

/-! ## Agreement -/

namespace Agrees

theorem restored (h : c.Restored c') (hagrees : Agrees c' r ending) : Agrees c r ending := by
  cases hagrees with
  | value value restored sound pending => exact .value value (h.trans restored) sound pending
  | exit values restored sound established pending =>
    exact .exit values (h.trans restored) sound (h.frames ▸ established) pending
  | error error restored sound pending => exact .error error (h.trans restored) sound pending
  | uncaught tag shown thread => exact .uncaught tag shown thread
  | fault fault => exact .fault fault

theorem of_ok {result : Outcome Value} (h : Agrees c (.ok result m) ending) :
    c.Restored m.running.control ∧ m.running.control.Sound ∧ ending.stops = false := by
  cases h with
  | value _ restored sound => exact ⟨restored, sound, rfl⟩
  | exit _ restored sound => exact ⟨restored, sound, rfl⟩
  | error _ restored sound => exact ⟨restored, sound, rfl⟩

/-- The outcome of a body stands for what is around it, if its exits do. -/
theorem outwards {result : Outcome Value} (h : Agrees c' (.ok result m) ending)
    (hframes : ∀ (level target : Nat) (tag : Value),
      c'.frames[level]? = some ⟨target, .catching tag⟩ →
      c.frames[level]? = some ⟨target, .catching tag⟩)
    (restored : c.Restored m'.running.control) (sound : m'.running.control.Sound)
    (hpending : m'.running.control.pending = m.running.control.pending) :
    Agrees c (.ok result m') ending := by
  cases h with
  | value value _ _ pending => exact .value value restored sound (hpending.trans pending)
  | exit values _ _ established pending =>
    exact .exit values restored sound (hframes _ _ _ established) (hpending.trans pending)
  | error error _ _ pending => exact .error error restored sound (hpending.trans pending)

theorem of_error {fault : Fault} (h : Agrees c' (.error fault m) ending)
    (hthread : m'.running.id = m.running.id) : Agrees c (.error fault m') ending := by
  cases h with
  | uncaught tag shown thread => exact .uncaught tag shown (hthread.trans thread)
  | fault fault => exact .fault fault

theorem stops {fault : Fault} (h : Agrees c (.error fault m) ending) : ending.stops = true := by
  cases h with
  | uncaught | fault => rfl

end Agrees

theorem Matches.congr {other : List Hidden → Evaluation} (h : Matches c r evaluation)
    (heq : ∀ found, other found = evaluation found) : Matches c r other := by
  obtain ⟨used, ending, hagrees, heval⟩ := h
  exact ⟨used, ending, hagrees, fun rest => (heq _).trans (heval rest)⟩

/-- A fault of the machine's own is the ending of the meaning, too. -/
theorem matches_of_fails {fault : Fault} (h : Fails x m fault) :
    Matches c (x m) fun found => ⟨.fault fault, m.store found⟩ := by
  obtain ⟨hidden, hrun, hvalues⟩ := h
  rw [hrun]
  refine ⟨[], .fault fault, .fault fault, fun found => ?_⟩
  exact congrArg (Evaluation.mk _) (store_under hvalues found).symm

/-- A look at the heap, and what is done with the answer. -/
theorem matches_looking {α : Type} {look : Op Journal α} {answer : Except Fault α}
    {next : α → Op Journal (Outcome Value)} {meaning : α → List Hidden → Evaluation}
    (hlooks : Looks look m answer) (hnext : ∀ a, Matches c (next a m) (meaning a)) :
    Matches c ((look >>= next) m) fun found =>
      (m.store found).looking answer fun a => meaning a found := by
  cases answer with
  | ok a =>
    rw [bind_of_ok hlooks]
    exact hnext a
  | error fault => exact matches_of_fails (Fails.bind hlooks next)

/-! ## Simple programs -/

theorem simulates_result (value : Value) :
    Simulates calls (return .ok value) fun _ s => ⟨.value value, s⟩ :=
  fun _ hm => ⟨[], _, .value value (.refl _) hm.sound hm.pending, fun _ => rfl⟩

theorem simulates_fail (error : Error) :
    Simulates calls (return .error (.error error)) fun _ s => ⟨.error error, s⟩ :=
  fun _ hm => ⟨[], _, .error error (.refl _) hm.sound hm.pending, fun _ => rfl⟩

theorem simulates_setValues (values : List Value) :
    Simulates calls (do setValues values; return .ok .nil)
      fun _ s => ⟨.value .nil, { s with values }⟩ := by
  intro m hm
  have hrestored := (Restored.refl m.running.control).update m.running.control.pending values
  exact ⟨[], _, .value .nil hrestored (hm.sound.update _ _ values _) hm.pending, fun _ => rfl⟩

theorem simulates_lookup (symbol : Value) :
    Simulates calls (do return .ok (← symbolValue symbol))
      fun ctx s => s.looking (s.symbolValue ctx.bindings symbol) fun value => ⟨.value value, s⟩ :=
  fun m hm => matches_looking (looks_symbolValue (m := m) [] symbol) fun value =>
    ⟨[], _, .value value (.refl _) hm.sound hm.pending, fun _ => rfl⟩

theorem simulates_exit (tag : Value) (values : List Value) :
    Simulates calls (exitTo tag values) fun ctx s =>
      match catcher? tag ctx.scopes with
      | some level => ⟨.exit level values, s⟩
      | none => s.uncaught tag := by
  intro m hm
  dsimp only
  cases hcatcher : catcher? tag m.running.control.context.scopes with
  | some level =>
    obtain ⟨target, hframe, htarget⟩ := findCatch?_of_catcher? hcatcher
    obtain ⟨log, hrun⟩ := startExit_some values htarget hm.pending
    rw [exitTo, bind_of_ok hrun]
    have hrestored := (Restored.refl m.running.control).update (some ⟨target, values⟩)
      m.running.control.values
    exact ⟨[], _, .exit values hrestored (hm.sound.update _ _ _ _) hframe rfl, fun _ => rfl⟩
  | none =>
    have hlooks := startExit_none values (findCatch?_eq_none hcatcher)
    have hmeaning : ∀ found, (m.store found).uncaught tag = (m.store found).looking
        (m.heap.space.render m.mode tag) fun shown => ⟨.uncaught tag shown, m.store found⟩ :=
      fun _ => rfl
    cases hshown : m.heap.space.render m.mode tag with
    | ok shown =>
      rw [hshown] at hlooks
      obtain ⟨hidden, hrun, hvalues⟩ := hlooks
      rw [exitTo, bind_of_error hrun]
      refine ⟨[], .uncaught tag shown, .uncaught tag shown rfl, fun found => ?_⟩
      dsimp only
      rw [hmeaning, hshown]
      exact congrArg (Evaluation.mk _) (store_under hvalues found).symm
    | error fault =>
      rw [hshown] at hlooks
      refine (matches_of_fails (Fails.bind hlooks _)).congr fun found => ?_
      rw [hmeaning, hshown]
      rfl

/-! ## Sequences -/

theorem Ready.restored (hm : Ready calls m)
    (restored : m.running.control.Restored m'.running.control) (sound : m'.running.control.Sound)
    (pending : m'.running.control.pending = none) : Ready calls m' := by
  refine ⟨sound, pending, ?_⟩
  rw [callsLeft, restored.invocationLimit, restored.history]
  exact hm.calls

/-- Goes on where the stack was restored. -/
theorem Simulates.resume (hx : Simulates calls x y) (hm : Ready calls m)
    (restored : m.running.control.Restored m'.running.control) (sound : m'.running.control.Sound)
    (pending : m'.running.control.pending = none) :
    Matches m.running.control (x m') fun found => y m.running.control.context (m'.store found) := by
  obtain ⟨used, ending, hagrees, heval⟩ := hx m' (hm.restored restored sound pending)
  rw [restored.context] at heval
  exact ⟨used, ending, hagrees.restored restored, heval⟩

/-- What is done with the outcome of a body: `next` on the machine, `finish` in the direct
semantics. A fault of the body is not for them. -/
theorem Simulates.followed {next : Outcome Value → Op Journal (Outcome Value)}
    {finish : Evaluation → Evaluation} (hx : Simulates calls x y) (hm : Ready calls m)
    (hstops : ∀ r, r.ending.stops = true → finish r = r)
    (hnext : ∀ {result m' ending}, Agrees m.running.control (.ok result m') ending →
      Matches c (next result m') fun found => finish ⟨ending, m'.store found⟩) :
    Matches c ((x >>= next) m) fun found =>
      finish (y m.running.control.context (m.store found)) := by
  obtain ⟨used, ending, hagrees, heval⟩ := hx m hm
  cases hr : x m with
  | ok result m' =>
    rw [hr] at hagrees heval
    obtain ⟨used', ending', hagrees', heval'⟩ := hnext hagrees
    rw [bind_of_ok hr]
    refine ⟨used ++ used', ending', hagrees', fun rest => ?_⟩
    rw [List.append_assoc]
    exact (congrArg finish (heval (used' ++ rest))).trans (heval' rest)
  | error fault m' =>
    rw [hr] at hagrees heval
    rw [bind_of_error hr]
    refine ⟨used, ending, hagrees.of_error rfl, fun rest => ?_⟩
    exact (congrArg finish (heval rest)).trans (hstops _ hagrees.stops)

namespace Evaluation

theorem andThen_of_stops {r : Evaluation} (h : r.ending.stops = true)
    (next : Value → Store → Evaluation) : r.andThen next = r := by
  obtain ⟨ending, s⟩ := r
  cases ending with
  | uncaught | fault => rfl
  | value | exit | error => cases h

theorem handled_of_stops {r : Evaluation} (h : r.ending.stops = true)
    (handler : Error → Store → Evaluation) : r.handled handler = r := by
  obtain ⟨ending, s⟩ := r
  cases ending with
  | uncaught | fault => rfl
  | value | exit | error => cases h

theorem delivered_of_stops {r : Evaluation} (h : r.ending.stops = true) (level : Nat) :
    r.delivered level = r := by
  obtain ⟨ending, s⟩ := r
  cases ending with
  | uncaught | fault => rfl
  | value | exit | error => cases h

end Evaluation

theorem Simulates.andThen {next : Value → Op Journal (Outcome Value)}
    {meaning : Value → Context → Store → Evaluation} (hx : Simulates calls x y)
    (hnext : ∀ value, Simulates calls (next value) (meaning value)) :
    Simulates calls (Machine.andThen x next) fun ctx s =>
      (y ctx s).andThen fun value s => meaning value ctx s := by
  intro m hm
  refine hx.followed hm (fun _ h => Evaluation.andThen_of_stops h _) fun hagrees => ?_
  cases hagrees with
  | value value restored sound pending => exact (hnext value).resume hm restored sound pending
  | exit values restored sound established pending =>
    exact ⟨[], _, .exit values restored sound established pending, fun _ => rfl⟩
  | error error restored sound pending =>
    exact ⟨[], _, .error error restored sound pending, fun _ => rfl⟩

theorem Simulates.handling {handler : Error → Op Journal (Outcome Value)}
    {meaning : Error → Context → Store → Evaluation} (hx : Simulates calls x y)
    (hhandler : ∀ error, Simulates calls (handler error) (meaning error)) :
    Simulates calls (Machine.handling x handler) fun ctx s =>
      (y ctx s).handled fun error s => meaning error ctx s := by
  intro m hm
  refine hx.followed hm (fun _ h => Evaluation.handled_of_stops h _) fun hagrees => ?_
  cases hagrees with
  | error error restored sound pending => exact (hhandler error).resume hm restored sound pending
  | value value restored sound pending =>
    exact ⟨[], _, .value value restored sound pending, fun _ => rfl⟩
  | exit values restored sound established pending =>
    exact ⟨[], _, .exit values restored sound established pending, fun _ => rfl⟩

/-- A scope that is abandoned is out of the meaning's sight. -/
theorem Simulates.guarded (hx : Simulates calls x y) (scope : Scope) :
    Simulates calls (guarded scope x) y := by
  intro m hm
  obtain ⟨used, ending, hagrees, heval⟩ := hx m hm
  cases hr : x m with
  | ok result m' =>
    rw [hr] at hagrees heval
    rw [guarded_of_ok hr]
    exact ⟨used, ending, hagrees, heval⟩
  | error fault m' =>
    rw [hr] at hagrees heval
    rw [guarded_of_error hr]
    refine ⟨used, ending, hagrees.of_error rfl, fun rest => (heval rest).trans ?_⟩
    exact congrArg _ (store_abandon m' scope rest).symm

/-! ## Catch frames -/

theorem within_full (h : c.frameLimit ≤ c.frames.size) (tag? : Option Value) (s : Store)
    (body : Context → Evaluation) :
    c.context.within tag? s body = ⟨.error (.frameStackOverflow c.frameLimit), s⟩ := by
  rw [Context.within, if_pos (by rwa [length_scopes])]
  rfl

theorem within_pushed (h : ¬c.frameLimit ≤ c.frames.size) (kind : FrameKind) (s : Store)
    (body : Context → Evaluation) :
    c.context.within kind.tag? s body = body (c.pushed kind).context := by
  rw [Context.within, if_neg (by rwa [length_scopes]), context_pushed]

theorem Ready.pushed {m : Machine Journal} (hm : Ready calls m) (kind : FrameKind) :
    Ready calls (m.withControl (m.running.control.pushed kind)) :=
  ⟨hm.sound.pushed kind, hm.pending, hm.calls⟩

theorem onTop_pushed {kind : FrameKind} (h : (c.pushed kind).Restored c')
    (hkind : ∀ symbol index previous, kind ≠ .binding symbol index previous) :
    OnTop c' c.scope kind c.frames :=
  ⟨h.frames, fun symbol index previous heq => absurd heq (hkind symbol index previous)⟩

/-- The frames around a scope's own are those that were there before. -/
theorem established_pushed {kind : FrameKind} {level : Nat} {frame : Frame}
    (h : (c.pushed kind).frames[level]? = some frame) :
    (level = c.frames.size ∧ frame = ⟨c.nextSerial, kind⟩) ∨
      (level ≠ c.frames.size ∧ c.frames[level]? = some frame) := by
  rw [ControlStack.pushed, Array.getElem?_push] at h
  split at h
  · rename_i hlevel
    cases h
    exact .inl ⟨hlevel, rfl⟩
  · rename_i hlevel
    exact .inr ⟨hlevel, h⟩

theorem Agrees.leaveCatch {tag : Value} {result : Outcome Value} (hc : c.Sound)
    (h : Agrees (c.pushed (.catching tag)) (.ok result m) ending) :
    Matches c (leaveCatch c.scope result m) fun found =>
      Evaluation.delivered c.frames.size ⟨ending, m.store found⟩ := by
  obtain ⟨restored, sound, -⟩ := h.of_ok
  have hon := onTop_pushed restored (by simp)
  have hrestored := restored.lower
  have hsound := sound.lower restored.frames
  cases h with
  | value value _ _ pending =>
    rw [leaveCatch_value hon pending]
    exact ⟨[], _, .value value (hrestored.update _ _) (hsound.update _ _ _ _) pending, fun _ => rfl⟩
  | @exit _ target level _ values _ _ established pending =>
    obtain ⟨rfl, hown⟩ | ⟨hlevel, hframe⟩ := established_pushed established
    · cases hown
      have hrun : Machine.leaveCatch c.scope (.error (.exit c.nextSerial)) m = _ :=
        leaveCatch_own hon pending
      rw [hrun]
      refine ⟨[], .value (values.headD .nil), ?_, fun _ => if_pos rfl⟩
      exact .value _ (hrestored.update _ _) (hsound.update _ _ _ _) rfl
    · have hserial := hc.serials _ (Array.mem_of_getElem? hframe)
      rw [leaveCatch_other hon (Nat.ne_of_lt hserial)]
      refine ⟨[], .exit level values, ?_, fun _ => if_neg hlevel⟩
      exact .exit values hrestored hsound hframe pending
  | error error _ _ pending =>
    rw [leaveCatch_error hon pending]
    exact ⟨[], _, .error error hrestored hsound pending, fun _ => rfl⟩

theorem Simulates.catching (hx : Simulates calls x y) (tag : Value) :
    Simulates calls (catching tag x) fun ctx s =>
      ctx.within (some tag) s fun inner => (y inner s).delivered ctx.scopes.length := by
  intro m hm
  by_cases hfull : m.running.control.frameLimit ≤ m.running.control.frames.size
  · rw [catching_full hfull]
    exact ⟨[], _, .error _ (.refl _) hm.sound hm.pending, fun _ => within_full hfull _ _ _⟩
  · rw [catching_entered hfull]
    have hbody := (hx.guarded m.running.control.scope).followed (hm.pushed (.catching tag))
      (fun _ h => Evaluation.delivered_of_stops h _) (Agrees.leaveCatch hm.sound)
    refine hbody.congr fun found => (within_pushed hfull (.catching tag) _ _).trans ?_
    rw [length_scopes]
    rfl

/-! ## Protected bodies -/

theorem Simulates.record (hx : Simulates calls x y) (event : CleanupEvent) :
    Simulates calls (do record event; x) fun ctx s => y ctx (s.record event) :=
  fun m hm => hx { m with client := m.client ++ [event] } ⟨hm.sound, hm.pending, hm.calls⟩

namespace Evaluation

theorem resumed_of_stops {r : Evaluation} (h : r.ending.stops = true) (ending : Ending)
    (values : List Value) : r.resumed ending values = r := by
  obtain ⟨ending', s⟩ := r
  cases ending' with
  | uncaught | fault => rfl
  | value | exit | error => cases h

theorem cleanedUp_of_stops {r : Evaluation} (h : r.ending.stops = true)
    (cleanup : Store → Evaluation) : r.cleanedUp cleanup = r :=
  if_pos h

theorem cleanedUp_eq_resumed {r : Evaluation} (h : r.ending.stops = false)
    (cleanup : Store → Evaluation) :
    r.cleanedUp cleanup
      = (cleanup { r.store with values := [] }).resumed r.ending r.store.values :=
  if_neg (by simp [h])

end Evaluation

/-- No exit is aimed at a frame that is no catch frame. -/
theorem established_lower {kind : FrameKind} (hkind : kind.tag? = none) (level target : Nat)
    (tag : Value) (h : (c.pushed kind).frames[level]? = some ⟨target, .catching tag⟩) :
    c.frames[level]? = some ⟨target, .catching tag⟩ := by
  obtain ⟨_, hown⟩ | ⟨_, hframe⟩ := established_pushed h
  · cases hown
    cases hkind
  · exact hframe

/-- The cleanup has come back on `m'`; `m` is what the body left. -/
theorem Agrees.unsuspend {result cleaned : Outcome Value} {ending' : Ending}
    (h : Agrees (c.pushed .protecting) (.ok result m) ending)
    (h' : Agrees (cleaning m.running.control c.frames) (.ok cleaned m') ending') :
    Matches c (unsuspend (m.running.control.suspended.length + 1) result cleaned m') fun found =>
      Evaluation.resumed ⟨ending', m'.store found⟩ ending m.running.control.values := by
  obtain ⟨restored, -, -⟩ := h.of_ok
  obtain ⟨restored', sound', -⟩ := h'.of_ok
  -- the rest of the stack is what it was before the body
  have hback : c.Restored { m'.running.control with suspended := m.running.control.suspended } :=
    restored.lower.trans ⟨restored'.frames, restored'.history, rfl, restored'.bindings,
      restored'.frameLimit, restored'.invocationLimit⟩
  cases h' with
  | value value =>
    rw [unsuspend_value value restored'.suspended]
    exact ⟨[], ending, h.outwards (established_lower rfl) (hback.update _ _)
      (sound'.update _ _ _ _) rfl, fun _ => rfl⟩
  | exit values _ _ established' pending' =>
    obtain ⟨log, hrun⟩ := unsuspend_unwind (.exit _) restored'.suspended
    rw [hrun]
    exact ⟨[], _, .exit values hback (sound'.update _ _ _ _) established' pending', fun _ => rfl⟩
  | error error _ _ pending' =>
    obtain ⟨log, hrun⟩ := unsuspend_unwind (.error error) restored'.suspended
    rw [hrun]
    exact ⟨[], _, .error error hback (sound'.update _ _ _ _) pending', fun _ => rfl⟩

theorem Simulates.leaveProtect (hx : Simulates calls x y) (hm : Ready calls m)
    {result : Outcome Value}
    (h : Agrees (m.running.control.pushed .protecting) (.ok result m') ending) :
    Matches m.running.control (leaveProtect x m.running.control.scope result m') fun found =>
      Evaluation.cleanedUp ⟨ending, m'.store found⟩ (y m.running.control.context) := by
  obtain ⟨restored, sound, hgoes⟩ := h.of_ok
  have hready : Ready calls
      (m'.withControl (cleaning m'.running.control m.running.control.frames)) := by
    refine ⟨(sound.lower restored.frames).update _ _ _ _, rfl, ?_⟩
    rw [← hm.calls]
    exact congrArg₂ (· - ·.size) restored.invocationLimit restored.history
  have hcontext : (cleaning m'.running.control m.running.control.frames).context
      = m.running.control.context := restored.lower.context
  rw [leaveProtect_apply (onTop_pushed restored (by simp))]
  have hcleanup := hx.followed hready
    (fun _ hstops => Evaluation.resumed_of_stops hstops ending m'.running.control.values)
    h.unsuspend
  refine hcleanup.congr fun found => ?_
  rw [Evaluation.cleanedUp_eq_resumed hgoes, control_withControl, hcontext]
  rfl

theorem Simulates.unwindProtect (hx : Simulates calls x y) (hx' : Simulates calls x' y') :
    Simulates calls (unwindProtect x x') fun ctx s =>
      ctx.within none s fun inner => (y inner s).cleanedUp (y' ctx) := by
  intro m hm
  by_cases hfull : m.running.control.frameLimit ≤ m.running.control.frames.size
  · rw [unwindProtect_full hfull]
    exact ⟨[], _, .error _ (.refl _) hm.sound hm.pending, fun _ => within_full hfull _ _ _⟩
  · rw [unwindProtect_entered hfull]
    have hbody := (hx.guarded m.running.control.scope).followed (hm.pushed .protecting)
      (fun _ h => Evaluation.cleanedUp_of_stops h _) (hx'.leaveProtect hm)
    exact hbody.congr fun _ => within_pushed hfull .protecting _ _

/-! ## Blocks -/

section Blocks

variable {next : Value → Store → Evaluation}

theorem allocating_ok {tag : Value} (h : cons .nil .nil m = .ok tag m')
    (hcontrol : m'.running.control = m.running.control) (found : List Hidden) :
    (m.store (m.hidden :: found)).allocating next = next tag (m'.store found) := by
  have hcons : cons .nil .nil (m.world.under m.hidden) = .ok tag m' := h
  simp only [Store.allocating, Machine.store, List.headD_cons, List.tail_cons, hcons, hcontrol]

theorem allocating_error {fault : Fault} (h : cons .nil .nil m = .error fault m')
    (hcontrol : m'.running.control = m.running.control) (found : List Hidden) :
    (m.store (m.hidden :: found)).allocating next = ⟨.fault fault, m'.store found⟩ := by
  have hcons : cons .nil .nil (m.world.under m.hidden) = .error fault m' := h
  simp only [Store.allocating, Machine.store, List.headD_cons, List.tail_cons, hcons, hcontrol]

theorem Simulates.block {body : Value → Op Journal (Outcome Value)}
    {meaning : Value → Context → Store → Evaluation}
    (hx : ∀ tag, Simulates calls (body tag) (meaning tag)) :
    Simulates calls (block body) fun ctx s => s.allocating fun tag s =>
      ctx.within (some tag) s fun inner => (meaning tag inner s).delivered ctx.scopes.length := by
  intro m hm
  have hcons : Contained m.heap.actions m (cons .nil .nil m) :=
    confined_cons .nil .nil m (List.Subset.refl _)
  rw [Machine.block]
  cases hr : cons .nil .nil m with
  | ok tag m' =>
    rw [hr] at hcons
    have hcontrol := hcons.control
    have hready : Ready calls m' :=
      ⟨hcontrol ▸ hm.sound, hcontrol ▸ hm.pending, hcontrol ▸ hm.calls⟩
    obtain ⟨used, ending, hagrees, heval⟩ := (hx tag).catching tag m' hready
    rw [bind_of_ok hr, ← hcontrol]
    refine ⟨m.hidden :: used, ending, hagrees, fun rest => ?_⟩
    exact (allocating_ok hr hcontrol (used ++ rest)).trans (heval rest)
  | error fault m' =>
    rw [hr] at hcons
    rw [bind_of_error hr]
    refine ⟨[m.hidden], .fault fault, .fault fault, fun rest => ?_⟩
    exact allocating_error hr hcons.1 rest

end Blocks

/-! ## Bindings -/

theorem Agrees.leaveBinding {symbol value : Value} {index : Nat} {result : Outcome Value}
    (h : Agrees (c.bound symbol index value) (.ok result m) ending) :
    Matches c (leaveBinding c.scope result m) fun found => ⟨ending, m.store found⟩ := by
  obtain ⟨restored, sound, -⟩ := h.of_ok
  have hon : OnTop m.running.control c.scope (.binding symbol index (c.bindingAt index))
      c.frames := by
    refine ⟨restored.frames, fun _ _ _ heq => ?_⟩
    cases heq
    exact restored.lt_size_unbind
  have hlower : ({ m.running.control with frames := c.frames } : ControlStack).Sound :=
    sound.lower restored.frames
  rw [Machine.leaveBinding, bind_of_ok (leave_apply hon)]
  refine ⟨[], ending, ?_, fun _ => rfl⟩
  exact h.outwards (established_lower rfl) restored.unbind
    (hlower.undo (.binding symbol index (c.bindingAt index))) rfl

theorem within_bound (h : ¬c.frameLimit ≤ c.frames.size) (symbol : Value) (index : Nat)
    (value : Value) (s : Store) (body : Context → Evaluation) :
    (c.context.within none s fun inner => body (inner.bind index value))
      = body (c.bound symbol index value).context := by
  rw [Context.within, if_neg (by rwa [length_scopes]), context_bound]

theorem Simulates.binding (hx : Simulates calls x y) (symbol value : Value) :
    Simulates calls (binding symbol value x) fun ctx s =>
      s.binding ctx symbol value fun inner => y inner s := by
  intro m hm
  -- what is found does not matter for a look
  have hsame : ∀ found, (m.store found).bindingIndex? symbol = (m.store []).bindingIndex? symbol :=
    fun _ => rfl
  cases hindex : (m.store []).bindingIndex? symbol with
  | error fault =>
    refine (matches_of_fails (binding_error hm.sound hindex)).congr fun found => ?_
    dsimp only [Store.binding]
    rw [hsame, hindex]
    rfl
  | ok index? =>
    cases index? with
    | none =>
      rw [binding_none hindex]
      refine (hx m hm).congr fun found => ?_
      dsimp only [Store.binding]
      rw [hsame, hindex]
      rfl
    | some index =>
      obtain ⟨hkind, hsymbol, hroom⟩ := bindingIndex?_some hindex
      have hwithin : ∀ found, (m.store found).binding m.running.control.context symbol value
            (fun inner => y inner (m.store found))
          = m.running.control.context.within none (m.store found) fun inner =>
            y (inner.bind index value) (m.store found) := by
        intro found
        rw [Store.binding, hsame, hindex]
        rfl
      by_cases hfull : m.running.control.frameLimit ≤ m.running.control.frames.size
      · rw [binding_of_refused hkind (enterBinding_full hsymbol (reserveBinding_ok hroom) value hfull)]
        refine ⟨[], _, .error _ (restored_reserve _ index) (hm.sound.reserve hroom) hm.pending,
          fun found => ?_⟩
        exact (hwithin found).trans (within_full hfull _ _ _)
      · rw [binding_of_entered hkind (enterBinding_bound hsymbol (reserveBinding_ok hroom) value hfull)]
        have hready : Ready calls (m.withControl (m.running.control.bound symbol index value)) :=
          ⟨hm.sound.bound symbol value hroom, hm.pending, hm.calls⟩
        have hbody := (hx.guarded m.running.control.scope).followed hready (fun r _ => Eq.refl r)
          Agrees.leaveBinding
        refine hbody.congr fun found => (hwithin found).trans ?_
        exact within_bound hfull symbol index value _ fun inner => y inner (m.store found)

/-! ## Calls -/

theorem simulates_recorded_full (closure : Value) :
    Simulates 0 (recorded closure x) fun ctx s =>
      ⟨.error (.invocationOverflow ctx.invocationLimit), s⟩ := by
  intro m hm
  rw [recorded_full (Nat.sub_eq_zero_iff_le.mp hm.calls)]
  exact ⟨[], _, .error _ (.refl _) hm.sound hm.pending, fun _ => rfl⟩

theorem Simulates.recorded (hx : Simulates calls x y) (closure : Value) :
    Simulates (calls + 1) (recorded closure x) y := by
  intro m hm
  have hcalls : m.running.control.invocationLimit - m.running.control.history.size = calls + 1 :=
    hm.calls
  have hbelow : ¬m.running.control.invocationLimit ≤ m.running.control.history.size := by omega
  have hready : Ready calls (m.withControl (calling m.running.control closure)) := by
    refine ⟨hm.sound.update _ _ _ _, hm.pending, ?_⟩
    simp only [control_withControl, callsLeft, calling, Array.size_push]
    omega
  obtain ⟨used, ending, hagrees, heval⟩ := hx _ hready
  generalize hr : x (m.withControl (calling m.running.control closure)) = r at hagrees heval
  cases r with
  | ok result m' =>
    obtain ⟨restored, sound, _⟩ := hagrees.of_ok
    rw [recorded_ok hbelow hr restored.history]
    refine ⟨used, ending, hagrees.outwards (fun _ _ _ h => h) ?_ (sound.update _ _ _ _) rfl, heval⟩
    exact ⟨restored.frames, rfl, restored.suspended, restored.bindings, restored.frameLimit,
      restored.invocationLimit⟩
  | error fault m' =>
    rw [recorded_error hbelow hr]
    exact ⟨used, ending, hagrees.of_error rfl, heval⟩

theorem simulates_call {run : Word → Value → List Value → Op Journal (Outcome Value)}
    {meaning : Word → Context → Store → Evaluation} {closure : Value} {args : List Value}
    (h : ∀ entry, Simulates calls (recorded closure (run entry closure args)) (meaning entry)) :
    Simulates calls (call run closure args) fun ctx s =>
      s.calling closure fun entry => meaning entry ctx s := by
  intro m hm
  refine (matches_looking (looks_entryOf? (m := m) [] closure) fun code? => ?_).congr fun _ => rfl
  cases code? with
  | none => exact ⟨[], _, .value .nil (.refl _) hm.sound hm.pending, fun _ => rfl⟩
  | some entry => exact h entry m hm

/-! ## Programs -/

theorem simulates_performWith {run : Word → Value → List Value → Op Journal (Outcome Value)}
    {callee : Word → Value → List Value → Context → Store → Evaluation}
    (hcall : ∀ closure args entry,
      Simulates calls (recorded closure (run entry closure args)) (callee entry closure args))
    (p : Program) : Simulates calls (p.performWith run) (p.evaluateWith callee) := by
  induction p with
  | result value => exact simulates_result value
  | setValues values => exact simulates_setValues values
  | exit tag values => exact simulates_exit tag values
  | fail error => exact simulates_fail error
  | catching tag body ih => exact ih.catching tag
  | block body ih => exact Simulates.block ih
  | protect label body cleanup ihbody ihcleanup =>
    exact (ihbody.record (.established label)).unwindProtect (ihcleanup.record (.cleaned label))
  | bind symbol value body ih => exact ih.binding symbol value
  | lookup symbol => exact simulates_lookup symbol
  | call closure args => exact simulates_call (hcall closure args)
  | andThen first next ihfirst ihnext => exact ihfirst.andThen ihnext
  | handling body handler ihbody ihhandler => exact ihbody.handling ihhandler

/-- Deeper nesting than the calls that are left makes no difference. -/
theorem simulates_performWithin (code : Code) {depth : Nat} (h : calls ≤ depth) (p : Program) :
    Simulates calls (p.performWithin code depth) (p.evaluate code calls) := by
  induction calls generalizing depth p with
  | zero =>
    cases depth with
    | zero => exact simulates_performWith (fun closure _ _ => simulates_recorded_full closure) p
    | succ depth =>
      exact simulates_performWith (fun closure _ _ => simulates_recorded_full closure) p
  | succ calls ih =>
    obtain ⟨depth, rfl⟩ := Nat.exists_eq_add_one_of_ne_zero (Nat.ne_zero_of_lt h)
    exact simulates_performWith
      (fun closure args entry => (ih (Nat.le_of_succ_le_succ h) (code entry closure args)).recorded
        closure) p

end Substrate
