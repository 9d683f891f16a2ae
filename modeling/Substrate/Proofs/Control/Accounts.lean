import Substrate.Proofs.Control.Containment
import Substrate.Proofs.Control.Retention

/-!
# Accounts of exits

An exit that was started is under way until its frame stops it. A protected body may drop it on the way:
its cleanup takes the place of what the body left under way if the cleanup unwinds, and what the cleanup
itself left under way is replaced if it does not.

`ExitEvent`s say which exits a run starts and which of them it drops. They are read off the run, one
construct at a time, whatever its bodies come back with. An exit to a frame that was there before is
under way after the run if it is after these events: `Accounts`.
-/

namespace Substrate

/-! ## Events -/

/-- What happens to exits. -/
inductive ExitEvent where
  | started (exit : PendingExit)
  /-- A protected body has dropped it. -/
  | dropped (exit : PendingExit)
  deriving DecidableEq

/-- The exit is under way after the events, if it is before them in case of `held`. -/
def Remains (exit : PendingExit) (held : Prop) : List ExitEvent → Prop
  | [] => held
  | .started other :: events => Remains exit (held ∨ other = exit) events
  | .dropped other :: events => Remains exit (held ∧ other ≠ exit) events

section Remains

variable {exit : PendingExit} {held held' : Prop} {events : List ExitEvent}

theorem Remains.mono (himp : held → held') (h : Remains exit held events) :
    Remains exit held' events := by
  induction events generalizing held held' with
  | nil => exact himp h
  | cons event events ih =>
    cases event with
    | started other => exact ih (Or.imp_left himp) h
    | dropped other => exact ih (And.imp_left himp) h

theorem remains_append (exit : PendingExit) (held : Prop) (events later : List ExitEvent) :
    Remains exit held (events ++ later) ↔ Remains exit (Remains exit held events) later := by
  induction events generalizing held with
  | nil => rfl
  | cons event events ih => cases event <;> exact ih _

theorem remains_of_held (hheld : held) (hdropped : .dropped exit ∉ events) :
    Remains exit held events := by
  induction events generalizing held with
  | nil => exact hheld
  | cons event events ih =>
    rw [List.mem_cons, not_or] at hdropped
    cases event with
    | started other => exact ih (.inl hheld) hdropped.2
    | dropped other => exact ih ⟨hheld, fun heq => hdropped.1 (heq ▸ rfl)⟩ hdropped.2

/-- An exit that was started and has not been dropped since is under way. -/
theorem remains_of_started (before after : List ExitEvent) (hdropped : .dropped exit ∉ after) :
    Remains exit held (before ++ .started exit :: after) := by
  rw [remains_append]
  change Remains exit (Remains exit held before ∨ exit = exit) after
  exact remains_of_held (.inr rfl) hdropped

end Remains

/-! ## Acts and exits -/

namespace Act

variable {mode : Mode} {s : Space} {c c' : ControlStack} {act : Act}

/-- Whether an act leaves the exit under way alone. -/
def isCalm : Act → Bool
  | leaveCatch _ _ | startCleanup _ | endCleanup _ _ _ | abandon _ | startExit _ _ => false
  | _ => true

/-- Taking a frame away changes nothing but frames and bindings. -/
theorem dropTop_eq (c : ControlStack) :
    ∃ frames bindings, c.dropTop = { c with frames, bindings } := by
  unfold ControlStack.dropTop
  split
  next frame _ => cases hkind : frame.kind <;> exact ⟨_, _, rfl⟩
  next => exact ⟨c.frames, c.bindings, rfl⟩

theorem nextSerial_dropFrames (count : Nat) (c : ControlStack) :
    (c.dropFrames count).nextSerial = c.nextSerial := by
  induction count generalizing c with
  | zero => rfl
  | succ count ih =>
    obtain ⟨frames, bindings, heq⟩ := dropTop_eq c
    rw [ControlStack.dropFrames, ih, heq]

/-- Serial numbers are not used again. -/
theorem Turns.nextSerial_le (h : act.Turns mode s c c') : c.nextSerial ≤ c'.nextSerial := by
  obtain ⟨frames, bindings, hdrop⟩ := dropTop_eq c
  cases h with
  | entered | bound => exact Nat.le_succ c.nextSerial
  | abandoned scope => exact Nat.le_of_eq (nextSerial_dropFrames _ c).symm
  | left | returned | caught | uncaught | suspended =>
    simp only [ControlStack.setAside, hdrop, Nat.le_refl]
  | _ => exact Nat.le_refl _

theorem Turns.pending_eq (h : act.Turns mode s c c') (hcalm : act.isCalm = true) :
    c'.pending = c.pending := by
  obtain ⟨frames, bindings, hdrop⟩ := dropTop_eq c
  cases h with
  | left => rw [hdrop]
  | returned | caught | uncaught | suspended | resumed | superseded | abandoned | exiting =>
    cases hcalm
  | _ => rfl

end Act

namespace Machine

variable {γ α : Type} {m m' : Machine γ} {exit : PendingExit}

/-- On the way to its result the operation leaves the exit under way alone. -/
structure Calm (x : Op γ α) : Prop where
  pending : ∀ {m a m'}, x m = .ok a m' → m'.running.control.pending = m.running.control.pending
  serial : ∀ {m a m'}, x m = .ok a m' →
    m.running.control.nextSerial ≤ m'.running.control.nextSerial

theorem calm_of_turns {x : Op γ α} (act : Act) (hcalm : act.isCalm = true)
    (hturns : ∀ m, ∃ c, Turned m c (ending (x m)) ∧
      act.Turns m.mode m.heap.space m.running.control c) : Calm x := by
  have hturned : ∀ {m a m'}, x m = .ok a m' →
      act.Turns m.mode m.heap.space m.running.control m'.running.control := by
    intro m a m' hrun
    obtain ⟨c, ⟨log, hend⟩, hturn⟩ := hturns m
    rw [hrun] at hend
    obtain rfl : m' = _ := hend
    exact hturn
  constructor
  · intro m a m' hrun
    exact (hturned hrun).pending_eq hcalm
  · intro m a m' hrun
    exact (hturned hrun).nextSerial_le

theorem calm_of_confined {x : Op γ α} (hx : ∀ allowed, Confined allowed x) : Calm x := by
  have hsame : ∀ {m a m'}, x m = .ok a m' → m'.running.control = m.running.control := by
    intro m a m' hrun
    have hkeeps := hx m.heap.actions m (List.Subset.refl _)
    rw [hrun] at hkeeps
    exact hkeeps.control
  constructor
  · intro m a m' hrun
    exact congrArg _ (hsame hrun)
  · intro m a m' hrun
    exact Nat.le_of_eq (congrArg _ (hsame hrun).symm)

theorem calm_pure (a : α) : Calm (pure a : Op γ α) :=
  calm_of_confined fun _ => confined_pure a

theorem calm_get : Calm (get : Op γ (Machine γ)) :=
  calm_of_confined fun _ => confined_get

theorem Calm.bind {β : Type} {x : Op γ α} {f : α → Op γ β} (hx : Calm x) (hf : ∀ a, Calm (f a)) :
    Calm (x >>= f) := by
  constructor
  · intro m b m' hrun
    obtain ⟨a, m₁, hfirst, hrest⟩ := exists_of_bind_ok hrun
    exact ((hf a).pending hrest).trans (hx.pending hfirst)
  · intro m b m' hrun
    obtain ⟨a, m₁, hfirst, hrest⟩ := exists_of_bind_ok hrun
    exact Nat.le_trans (hx.serial hfirst) ((hf a).serial hrest)

theorem calm_enter {kind : FrameKind} (act : Act) (hframe : act.frame? = some kind)
    (hcalm : act.isCalm = true) : Calm (enter kind : Op γ (Outcome ControlStack.Scope)) :=
  calm_of_turns act hcalm fun m => turns_enter hframe m

theorem calm_leave (scope : ControlStack.Scope) : Calm (leave scope : Op γ Unit) :=
  calm_of_turns (.leaveBinding scope) rfl fun m => turns_leaveBinding scope m

/-! ## Traces -/

/-- The events of what comes next, if the operation comes back. -/
def following (x : Op γ α) (next : α → Machine γ → List ExitEvent) (m : Machine γ) :
    List ExitEvent :=
  match x m with
  | .ok a m' => next a m'
  | .error _ _ => []

theorem following_of_ok {x : Op γ α} {next : α → Machine γ → List ExitEvent} {a : α}
    (h : x m = .ok a m') : following x next m = next a m' := by
  rw [following, h]

theorem following_guarded (scope : ControlStack.Scope) (x : Op γ α)
    (next : α → Machine γ → List ExitEvent) :
    following (guarded scope x) next = following x next := by
  funext m
  cases hx : x m with
  | ok a m₁ => rw [following_of_ok (guarded_of_ok hx), following_of_ok hx]
  | error fault m₁ => rw [following, guarded_of_error hx, following, hx]

/-- The events inside a scope, if it is entered. -/
def inside (enter : Op γ (Outcome α)) (events : α → Machine γ → List ExitEvent) :
    Machine γ → List ExitEvent :=
  following enter fun entered =>
    match entered with
    | .ok scope => events scope
    | .error _ => fun _ => []

/-- What happens to the exit under way, if there is one. -/
def underWay (event : PendingExit → ExitEvent) (m : Machine γ) : List ExitEvent :=
  m.running.control.pending.toList.map event

theorem of_remains_underWay {held : Prop} (h : Remains exit held (underWay .dropped m)) : held := by
  rw [underWay] at h
  cases hexit : m.running.control.pending with
  | none => rwa [hexit] at h
  | some other =>
    rw [hexit] at h
    exact h.1

/-- What is dropped is not under way any more. -/
theorem not_remains_underWay (m : Machine γ) :
    ¬Remains exit (m.running.control.pending = some exit) (underWay .dropped m) := by
  rw [underWay]
  cases m.running.control.pending with
  | none => exact fun h => nomatch h
  | some other => exact fun h => h.2 (Option.some.inj h.1)

/-- An exit is started if none is under way. -/
def exitEvents (tag : Value) (values : List Value) : Machine γ → List ExitEvent :=
  following (startExit tag values) fun _ => underWay .started

/-- A cleanup that unwinds drops what was set aside for it. One that comes back normally drops what it
has left under way itself. -/
def cleanupEvents (cleanup : Op γ (Outcome Value)) (events : Machine γ → List ExitEvent)
    (scope : ControlStack.Scope) (m : Machine γ) : List ExitEvent :=
  following (startCleanup scope) (fun _ m₁ => following cleanup (fun cleaned m₂ =>
    match cleaned with
    | .ok _ => events m₁ ++ underWay .dropped m₂
    | .error _ => underWay .dropped m ++ events m₁) m₁) m

def protectEvents (body cleanup : Op γ (Outcome Value)) (bodyEvents events : Machine γ → List ExitEvent) :
    Machine γ → List ExitEvent :=
  inside (enter .protecting) fun scope m =>
    bodyEvents m ++ following body (fun _ => cleanupEvents cleanup events scope) m

def bindingEvents (symbol value : Value) (events : Machine γ → List ExitEvent) :
    Machine γ → List ExitEvent :=
  following get fun m =>
    if m.heap.space.isKind symbol .symbol then inside (enterBinding symbol value) fun _ => events
    else events

def callEvents (events : Word → Value → List Value → Machine γ → List ExitEvent) (closure : Value)
    (args : List Value) : Machine γ → List ExitEvent :=
  following (entryOf? closure) fun entry? =>
    match entry? with
    | none => fun _ => []
    | some entry => inside (startCall closure) fun _ => events entry closure args

/-! ## Accounts of exits -/

/-- The events account for what an operation leaves under way: an exit to a frame that was there before is
under way after a run that comes back, if it is after these events. -/
structure Accounts (events : Machine γ → List ExitEvent) (x : Op γ α) : Prop where
  serial : ∀ {m a m'}, x m = .ok a m' →
    m.running.control.nextSerial ≤ m'.running.control.nextSerial
  remains : ∀ {m a m' exit}, x m = .ok a m' → exit.target < m.running.control.nextSerial →
    Remains exit (m.running.control.pending = some exit) (events m) →
      m'.running.control.pending = some exit

theorem Calm.accounts {x : Op γ α} (hx : Calm x) : Accounts (fun _ => []) x :=
  ⟨hx.serial, fun hrun _ hheld => (hx.pending hrun).trans hheld⟩

section Accounts

variable {β : Type} {events : Machine γ → List ExitEvent} {later : α → Machine γ → List ExitEvent}
  {x : Op γ α} {f : α → Op γ β} {body : Op γ (Outcome Value)}

theorem Accounts.bind (hx : Accounts events x) (hf : ∀ a, Accounts (later a) (f a)) :
    Accounts (fun m => events m ++ following x later m) (x >>= f) := by
  constructor
  · intro m b m' hrun
    obtain ⟨a, m₁, hfirst, hrest⟩ := exists_of_bind_ok hrun
    exact Nat.le_trans (hx.serial hfirst) ((hf a).serial hrest)
  · intro m b m' exit hrun hexit hremains
    obtain ⟨a, m₁, hfirst, hrest⟩ := exists_of_bind_ok hrun
    rw [following_of_ok hfirst, remains_append] at hremains
    exact (hf a).remains hrest (Nat.lt_of_lt_of_le hexit (hx.serial hfirst))
      (hremains.mono (hx.remains hfirst hexit))

theorem Calm.before (hx : Calm x) (hf : ∀ a, Accounts (later a) (f a)) :
    Accounts (following x later) (x >>= f) :=
  hx.accounts.bind hf

theorem Calm.after (hf : ∀ a, Calm (f a)) (hx : Accounts events x) : Accounts events (x >>= f) := by
  constructor
  · intro m b m' hrun
    obtain ⟨a, m₁, hfirst, hrest⟩ := exists_of_bind_ok hrun
    exact Nat.le_trans (hx.serial hfirst) ((hf a).serial hrest)
  · intro m b m' exit hrun hexit hremains
    obtain ⟨a, m₁, hfirst, hrest⟩ := exists_of_bind_ok hrun
    exact ((hf a).pending hrest).trans (hx.remains hfirst hexit hremains)

/-- The inside of a scope is all that there is to account for, if entering the scope is calm. -/
theorem Calm.scope {enter : Op γ (Outcome α)} {f : Outcome α → Op γ (Outcome β)}
    (henter : Calm enter) (hrefused : ∀ unwind, f (.error unwind) = pure (.error unwind))
    (hentered : ∀ a, Accounts (later a) (f (.ok a))) :
    Accounts (inside enter later) (enter >>= f) := by
  refine henter.before fun entered => ?_
  cases entered with
  | error unwind => exact hrefused unwind ▸ (calm_pure _).accounts
  | ok scope => exact hentered scope

theorem Accounts.guarded (hx : Accounts events x) (scope : ControlStack.Scope) :
    Accounts events (guarded scope x) :=
  ⟨fun hrun => hx.serial (of_guarded hrun), fun hrun => hx.remains (of_guarded hrun)⟩

/-- An exit starts to a frame that is there, and only if no exit is under way. -/
theorem of_startExit {tag : Value} {values : List Value} {unwind : Unwind}
    (hrun : startExit tag values m = .ok unwind m') :
    ∃ target, m.running.control.findCatch? tag = some target ∧ unwind = .exit target ∧
      m.running.control.pending = none ∧
      m'.running.control = { m.running.control with pending := some ⟨target, values⟩ } := by
  rw [startExit, bind_of_ok (control_apply _)] at hrun
  cases htarget : m.running.control.findCatch? tag with
  | none =>
    simp only [htarget] at hrun
    obtain ⟨shown, m₁, -, hrest⟩ := exists_of_bind_ok hrun
    obtain ⟨_, m₂, -, hraise⟩ := exists_of_bind_ok hrest
    exact (raise_ne_ok hraise).elim
  | some target =>
    simp only [htarget] at hrun
    rw [pendingExit, bind_of_ok (control_apply _)] at hrun
    cases hexit : m.running.control.pending with
    | some exit =>
      simp only [hexit] at hrun
      exact (raise_ne_ok hrun).elim
    | none =>
      simp only [hexit] at hrun
      cases hrun
      exact ⟨target, rfl, rfl, rfl, rfl⟩

theorem accounts_exit (tag : Value) (values : List Value) :
    Accounts (exitEvents tag values) (exitTo tag values : Op γ (Outcome Value)) := by
  constructor
  · intro m outcome m' hrun
    obtain ⟨unwind, m₁, hstart, hpure⟩ := exists_of_bind_ok hrun
    obtain ⟨target, -, -, -, hcontrol⟩ := of_startExit hstart
    cases hpure
    exact Nat.le_of_eq (congrArg ControlStack.nextSerial hcontrol).symm
  · intro m outcome m' exit hrun _ hremains
    obtain ⟨unwind, m₁, hstart, hpure⟩ := exists_of_bind_ok hrun
    obtain ⟨target, -, -, hnone, hcontrol⟩ := of_startExit hstart
    cases hpure
    rw [exitEvents, following_of_ok hstart, underWay, hcontrol, hnone] at hremains
    obtain hnever | rfl := hremains
    · cases hnever
    · exact congrArg ControlStack.pending hcontrol

/-! ### Catch frames -/

/-- The frame of a scope is new. -/
theorem serial_of_enter {kind : FrameKind} {scope : ControlStack.Scope}
    (hrun : enter kind m = .ok (.ok scope) m') : scope.serial = m.running.control.nextSerial := by
  by_cases hfull : m.running.control.frameLimit ≤ m.running.control.frames.size
  · rw [enter_full hfull] at hrun
    cases hrun
  · rw [enter_pushed hfull] at hrun
    cases hrun
    rfl

/-- A catch frame that comes back leaves exits to other frames under way. -/
theorem pending_of_leaveCatch {scope : ControlStack.Scope} {result outcome : Outcome Value}
    (hrun : leaveCatch scope result m = .ok outcome m') :
    m.running.control.nextSerial ≤ m'.running.control.nextSerial ∧
      ∀ exit, m.running.control.pending = some exit → exit.target ≠ scope.serial →
        m'.running.control.pending = some exit := by
  constructor
  · obtain ⟨c, ⟨log, hend⟩, hturn⟩ := turns_leaveCatch scope result m
    rw [hrun] at hend
    obtain rfl : m' = _ := hend
    exact hturn.nextSerial_le
  · intro exit hexit hne
    unfold leaveCatch at hrun
    obtain ⟨_, m₁, hleave, hrest⟩ := exists_of_bind_ok hrun
    have hpending := ((calm_leave scope).pending hleave).trans hexit
    rcases result with (target | error) | value
    · dsimp only at hrest
      split at hrest
      · obtain ⟨pending, m₂, htake, hrest⟩ := exists_of_bind_ok hrest
        rw [onControl_apply, hpending] at htake
        cases htake
        simp only [Option.filter, beq_eq_false_iff_ne.mpr hne] at hrest
        exact (raise_ne_ok hrest).elim
      · cases hrest
        exact hpending
    all_goals
      obtain ⟨pending, m₂, hlook, hrest⟩ := exists_of_bind_ok hrest
      rw [pendingExit, control_apply, hpending] at hlook
      cases hlook
      exact (raise_ne_ok hrest).elim

theorem Accounts.catching (hbody : Accounts events body) (tag : Value) :
    Accounts (inside (enter (.catching tag)) fun _ => events) (catching tag body) := by
  have hcalm : Calm (enter (.catching tag) : Op γ (Outcome ControlStack.Scope)) :=
    calm_enter (.enterCatch tag) rfl rfl
  constructor
  · intro m outcome m' hrun
    obtain ⟨entered, m₀, henter, hrest⟩ := exists_of_bind_ok hrun
    have hserial := hcalm.serial henter
    cases entered with
    | error unwind =>
      cases hrest
      exact hserial
    | ok scope =>
      obtain ⟨result, m₁, hguarded, hleave⟩ := exists_of_bind_ok hrest
      have hbodySerial := hbody.serial (of_guarded hguarded)
      exact Nat.le_trans hserial (Nat.le_trans hbodySerial (pending_of_leaveCatch hleave).1)
  · intro m outcome m' exit hrun hexit hremains
    obtain ⟨entered, m₀, henter, hrest⟩ := exists_of_bind_ok hrun
    have hserial := hcalm.serial henter
    rw [inside, following_of_ok henter, ← hcalm.pending henter] at hremains
    cases entered with
    | error unwind =>
      cases hrest
      exact hremains
    | ok scope =>
      obtain ⟨result, m₁, hguarded, hleave⟩ := exists_of_bind_ok hrest
      have hbodyPending := hbody.remains (of_guarded hguarded)
        (Nat.lt_of_lt_of_le hexit hserial) hremains
      refine (pending_of_leaveCatch hleave).2 _ hbodyPending ?_
      -- the frame is newer than all frames that were there before
      rw [serial_of_enter henter]
      exact Nat.ne_of_lt hexit

theorem Accounts.block {body : Value → Op γ (Outcome Value)}
    {events : Value → Machine γ → List ExitEvent}
    (hbody : ∀ tag, Accounts (events tag) (body tag)) :
    Accounts (following (cons .nil .nil) fun tag => inside (enter (.catching tag)) fun _ => events tag)
      (block body) := by
  have hcons : Calm (cons .nil .nil : Op γ Value) :=
    calm_of_confined fun _ => confined_cons .nil .nil
  exact hcons.before fun tag => (hbody tag).catching tag

/-! ### Protected bodies -/

theorem of_startCleanup {scope : ControlStack.Scope} {expected : Nat}
    (hrun : startCleanup scope m = .ok expected m') :
    m' = m.withControl m.running.control.dropTop.setAside ∧
      expected = m.running.control.dropTop.suspended.length + 1 := by
  obtain ⟨_, m₁, hleave, hrest⟩ := exists_of_bind_ok hrun
  obtain ⟨-, fault, m₂, hfault, -⟩ | ⟨-, hleft | ⟨fault, m₂, hfault, -⟩⟩ := leave_cases scope m
  · cases hleave.symm.trans hfault
  · cases hleave.symm.trans hleft
    cases hrest
    exact ⟨rfl, rfl⟩
  · cases hleave.symm.trans hfault

theorem nextSerial_of_startCleanup {scope : ControlStack.Scope} {expected : Nat}
    (hrun : startCleanup scope m = .ok expected m') :
    m.running.control.nextSerial ≤ m'.running.control.nextSerial := by
  obtain ⟨frames, bindings, hdrop⟩ := Act.dropTop_eq m.running.control
  obtain ⟨rfl, -⟩ := of_startCleanup hrun
  exact Nat.le_of_eq (congrArg ControlStack.nextSerial hdrop).symm

/-- Nothing else may be set aside any more when a cleanup is over. -/
theorem length_of_unsuspend {expected : Nat} {result cleaned outcome : Outcome Value}
    (hrun : unsuspend expected result cleaned m = .ok outcome m') :
    m.running.control.suspended.length = expected := by
  rw [unsuspend, bind_of_ok (control_apply _)] at hrun
  split at hrun
  · obtain ⟨_, m₁, hraise, -⟩ := exists_of_bind_ok hrun
    exact (raise_ne_ok hraise).elim
  next hlength => exact not_not.mp hlength

/-- What is under way after a cleanup is what was set aside, if the cleanup came back normally, and
otherwise what the cleanup left under way. -/
theorem pending_of_cleanup {cleanup : Op γ (Outcome Value)} {scope : ControlStack.Scope}
    {result outcome : Outcome Value} (hcleanup : Layered (fun _ _ => True) cleanup)
    (hrun : leaveProtect cleanup scope result m = .ok outcome m') :
    ∃ expected m₁ cleaned m₂, startCleanup scope m = .ok expected m₁ ∧
      cleanup m₁ = .ok cleaned m₂ ∧
      m'.running.control.nextSerial = m₂.running.control.nextSerial ∧
      m'.running.control.pending = match cleaned with
        | .ok _ => m.running.control.pending
        | .error _ => m₂.running.control.pending := by
  rw [leaveProtect_eq] at hrun
  obtain ⟨expected, m₁, hstart, hrest⟩ := exists_of_bind_ok hrun
  obtain ⟨cleaned, m₂, hclean, hend⟩ := exists_of_bind_ok hrest
  refine ⟨expected, m₁, cleaned, m₂, hstart, hclean, ?_⟩
  obtain ⟨frames, bindings, hdrop⟩ := Act.dropTop_eq m.running.control
  obtain ⟨rfl, rfl⟩ := of_startCleanup hstart
  have hlength := length_of_unsuspend hend
  -- the cleanup has left what was set aside where it was
  have hsuspended := (hcleanup.ok hclean).control.suspended.eq_of_length hlength.symm
  rw [control_withControl, ControlStack.setAside] at hsuspended
  cases cleaned with
  | ok value =>
    rw [unsuspend_value value hsuspended.symm] at hend
    cases hend
    refine ⟨rfl, ?_⟩
    change m.running.control.dropTop.pending = m.running.control.pending
    rw [hdrop]
  | error unwind =>
    obtain ⟨log, hunwound⟩ := unsuspend_unwind unwind hsuspended.symm
    rw [hunwound] at hend
    cases hend
    exact ⟨rfl, rfl⟩

/-- What is under way when a protected body comes back is what the body left, less what its cleanup drops,
or what the cleanup left. -/
theorem Accounts.leaveProtect {cleanup : Op γ (Outcome Value)}
    (hlayered : Layered (fun _ _ => True) cleanup) (hcleanup : Accounts events cleanup)
    (scope : ControlStack.Scope) (result : Outcome Value) :
    Accounts (cleanupEvents cleanup events scope) (leaveProtect cleanup scope result) := by
  constructor
  · intro m outcome m' hrun
    obtain ⟨expected, m₁, cleaned, m₂, hstart, hclean, hserial, -⟩ :=
      pending_of_cleanup hlayered hrun
    rw [hserial]
    exact Nat.le_trans (nextSerial_of_startCleanup hstart) (hcleanup.serial hclean)
  · intro m outcome m' exit hrun hexit hremains
    obtain ⟨expected, m₁, cleaned, m₂, hstart, hclean, -, hafter⟩ :=
      pending_of_cleanup hlayered hrun
    rw [cleanupEvents, following_of_ok hstart, following_of_ok hclean] at hremains
    -- an exit that the cleanup's own events make one under way is what the cleanup leaves under way
    have hleft : ∀ held, ¬held → Remains exit held (events m₁) →
        m₂.running.control.pending = some exit := by
      intro held hnot h
      have hinside := Nat.lt_of_lt_of_le hexit (nextSerial_of_startCleanup hstart)
      exact hcleanup.remains hclean hinside (h.mono fun hheld => absurd hheld hnot)
    rw [hafter]
    cases cleaned with
    | ok value =>
      -- what the cleanup left is dropped, so the exit is the one that was set aside
      dsimp only at hremains ⊢
      by_contra hne
      rw [remains_append] at hremains
      have hpending := hleft _ hne (of_remains_underWay hremains)
      rw [underWay, hpending] at hremains
      exact hremains.2 rfl
    | error unwind =>
      dsimp only at hremains ⊢
      rw [remains_append] at hremains
      exact hleft _ (not_remains_underWay m) hremains

theorem Accounts.unwindProtect {cleanup : Op γ (Outcome Value)}
    {cleanupEvents : Machine γ → List ExitEvent} (hbody : Accounts events body)
    (hlayered : Layered (fun _ _ => True) cleanup) (hcleanup : Accounts cleanupEvents cleanup) :
    Accounts (protectEvents body cleanup events cleanupEvents) (unwindProtect body cleanup) := by
  refine (calm_enter .enterProtect rfl rfl).scope (fun _ => rfl) fun scope => ?_
  rw [← following_guarded scope]
  exact (hbody.guarded scope).bind (hcleanup.leaveProtect hlayered scope)

/-! ### Bindings and calls -/

/-- A broken contract that is passed over leaves everything as it was. -/
theorem of_expect_false {message : Unit → Op γ String} {u : Unit}
    (hrun : expect false message m = .ok u m') : m' = m := by
  cases hmode : m.mode with
  | debug =>
    obtain ⟨fault, m₁, hfault⟩ := faults_expect hmode message
    cases hfault.symm.trans hrun
  | release =>
    rw [expect, if_neg Bool.false_ne_true, bind_of_ok get_apply, hmode] at hrun
    cases hrun
    rfl

theorem Accounts.binding (hbody : Accounts events body) (symbol value : Value) :
    Accounts (bindingEvents symbol value events) (binding symbol value body) := by
  refine calm_get.before fun m₀ => ?_
  split
  · have henter : Calm (enterBinding symbol value : Op γ (Outcome ControlStack.Scope)) :=
      calm_of_turns (.enterBinding symbol value) rfl fun m => turns_enterBinding symbol value m
    refine henter.scope (fun _ => rfl) fun scope => ?_
    refine Calm.after (fun result => ?_) (hbody.guarded scope)
    exact (calm_leave scope).bind fun _ => calm_pure result
  · constructor
    · intro m outcome m' hrun
      obtain ⟨u, m₁, hpassed, hrest⟩ := exists_of_bind_ok hrun
      obtain rfl := of_expect_false hpassed
      exact hbody.serial hrest
    · intro m outcome m' exit hrun
      obtain ⟨u, m₁, hpassed, hrest⟩ := exists_of_bind_ok hrun
      obtain rfl := of_expect_false hpassed
      exact hbody.remains hrest

theorem Accounts.call {run : Word → Value → List Value → Op γ (Outcome Value)}
    {events : Word → Value → List Value → Machine γ → List ExitEvent}
    (hrun : ∀ entry closure args, Accounts (events entry closure args) (run entry closure args))
    (closure : Value) (args : List Value) :
    Accounts (callEvents events closure args) (call run closure args) := by
  refine (calm_of_confined fun _ => confined_entryOf? closure).before fun entry? => ?_
  cases entry? with
  | none => exact (calm_pure _).accounts
  | some entry =>
    dsimp only
    rw [recorded_eq]
    have hstart : Calm (startCall closure : Op γ (Outcome Nat)) :=
      calm_of_turns (.startCall closure) rfl fun m => turns_startCall closure m
    refine hstart.scope (fun _ => rfl) fun expected => ?_
    refine Calm.after (fun result => ?_) (hrun entry closure args)
    have hend : Calm (endCall expected : Op γ Unit) :=
      calm_of_turns (.endCall expected) rfl fun m => turns_endCall expected m
    exact hend.bind fun _ => calm_pure result

theorem Accounts.toplevel (hbody : Accounts events body) : Accounts events (toplevel body) := by
  refine Calm.after (fun outcome => ?_) hbody
  rcases outcome with (target | error) | value
  · exact ⟨fun hrun => (raise_ne_ok hrun).elim, fun hrun => (raise_ne_ok hrun).elim⟩
  · exact calm_pure _
  · exact calm_pure _

end Accounts

end Machine

end Substrate
