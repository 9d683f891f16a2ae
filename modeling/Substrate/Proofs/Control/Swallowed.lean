import Substrate.Proofs.Control.Accounts

/-!
# Swallowed exits

Whoever starts an exit has to come back with it, so that it gets to its frame. A `Routine` may as well
drop it, keep it for later or come back with something else. An exit that was started and not dropped by
a protected body since is still under way, so that a catch frame notices exits that were swallowed inside
it: `Routine.swallowed_exit_noticed`.

A protected body that returns normally does not look for an exit that is under way, and one that its
cleanup swallowed goes unnoticed: `Routine.swallowed_exit_unnoticed`.
-/

namespace Substrate

namespace Machine

variable {γ α : Type} {m : Machine γ} {exit : PendingExit}

theorem confined_blocked {allowed : List Action} :
    Confined allowed (throw .blocked : Op γ α) :=
  confined_throw (by trivial)

/-- A catch frame that an exit is under way to can only be left with that exit. -/
theorem leaveCatch_swallowed {scope : ControlStack.Scope} {tag : Value} {lower : Array Frame}
    {result : Outcome Value} (htop : OnTop m.running.control scope (.catching tag) lower)
    (hpending : m.running.control.pending = some exit)
    (hresult : ∀ target, result ≠ .error (.exit target)) :
    ∃ message m', leaveCatch scope result m = .error (.fatal .controlIntegrity message) m' := by
  rcases result with (target | error) | value
  · exact (hresult target rfl).elim
  all_goals
    rw [leaveCatch, bind_of_ok (leave_apply htop)]
    dsimp only
    rw [pendingExit, bind_of_ok (control_apply _)]
    simp only [control_withControl, ControlStack.undo, hpending]
    obtain ⟨m', hraise, -⟩ := raise_turned (α := Outcome Value) (.fatal .controlIntegrity _) _
    exact ⟨_, m', hraise⟩

end Machine

/-! ## Routines -/

/-- What bodies, cleanups and entries are made of. What comes next is given whatever the first part comes
back with, an unwind too, and may depend on the machine, so also on what was kept in the state of the
client. -/
inductive Routine (γ : Type) where
  /-- Anything that leaves frames and the exit under way alone. -/
  | act (x : Op γ (Outcome Value)) (hlayered : Machine.Layered (fun _ _ => True) x)
      (hcalm : Machine.Calm x)
  | exit (tag : Value) (values : List Value)
  | andThen (first : Routine γ) (next : Outcome Value → Routine γ)
  | choose (choice : Machine γ → Routine γ)
  | catching (tag : Value) (body : Routine γ)
  | block (body : Value → Routine γ)
  | protect (body cleanup : Routine γ)
  | bind (symbol value : Value) (body : Routine γ)
  | call (closure : Value) (args : List Value)
  | toplevel (body : Routine γ)

namespace Routine

/-- What the entries of closures stand for, given the closure and its arguments. -/
abbrev Code (γ : Type) : Type := Word → Value → List Value → Routine γ

open Machine (following)

variable {γ : Type}

/-- A routine that does nothing. -/
def result (outcome : Outcome Value) : Routine γ :=
  act (pure outcome) (Machine.layered_pure outcome) (Machine.calm_pure outcome)

/-- Runs a routine; `run` is what the entries of closures stand for. -/
def performWith (run : Word → Value → List Value → Op γ (Outcome Value)) :
    Routine γ → Op γ (Outcome Value)
  | act x _ _ => x
  | exit tag values => Machine.exitTo tag values
  | andThen first next => performWith run first >>= fun outcome => performWith run (next outcome)
  | choose choice => get >>= fun m => performWith run (choice m)
  | catching tag body => Machine.catching tag (performWith run body)
  | block body => Machine.block fun tag => performWith run (body tag)
  | protect body cleanup => Machine.unwindProtect (performWith run body) (performWith run cleanup)
  | bind symbol value body => Machine.binding symbol value (performWith run body)
  | call closure args => Machine.call run closure args
  | toplevel body => (ScopeOp.toplevel (performWith run body)).perform

/-- Runs a routine whose calls are nested at most `depth` deep. -/
def performWithin (code : Code γ) : Nat → Routine γ → Op γ (Outcome Value)
  | 0 => performWith fun _ _ _ => throw .blocked
  | depth + 1 =>
    performWith fun entry closure args => performWithin code depth (code entry closure args)

/-- The exits that a routine starts and drops, in order. -/
def eventsWith (run : Word → Value → List Value → Op γ (Outcome Value))
    (called : Word → Value → List Value → Machine γ → List ExitEvent) :
    Routine γ → Machine γ → List ExitEvent
  | act _ _ _ => fun _ => []
  | exit tag values => Machine.exitEvents tag values
  | andThen first next => fun m => eventsWith run called first m ++
      following (performWith run first) (fun outcome => eventsWith run called (next outcome)) m
  | choose choice => following get fun m => eventsWith run called (choice m)
  | catching tag body =>
    Machine.inside (Machine.enter (.catching tag)) fun _ => eventsWith run called body
  | block body => following (Machine.cons .nil .nil) fun tag =>
      Machine.inside (Machine.enter (.catching tag)) fun _ => eventsWith run called (body tag)
  | protect body cleanup =>
    Machine.protectEvents (performWith run body) (performWith run cleanup)
      (eventsWith run called body) (eventsWith run called cleanup)
  | bind symbol value body => Machine.bindingEvents symbol value (eventsWith run called body)
  | call closure args => Machine.callEvents called closure args
  | toplevel body => eventsWith run called body

def events (code : Code γ) : Nat → Routine γ → Machine γ → List ExitEvent
  | 0 => eventsWith (fun _ _ _ => throw .blocked) fun _ _ _ _ => []
  | depth + 1 => eventsWith
      (fun entry closure args => performWithin code depth (code entry closure args))
      fun entry closure args => events code depth (code entry closure args)

section Accounts

variable {run : Word → Value → List Value → Op γ (Outcome Value)}
  {called : Word → Value → List Value → Machine γ → List ExitEvent}

theorem layered_performWith
    (hrun : ∀ entry closure args, Machine.Layered (fun _ _ => True) (run entry closure args))
    (r : Routine γ) : Machine.Layered (fun _ _ => True) (r.performWith run) := by
  induction r with
  | act x hlayered hcalm => exact hlayered
  | exit tag values => exact Machine.layered_exitTo tag values
  | andThen first next ihfirst ihnext => exact Machine.layered_bind ihfirst ihnext
  | choose choice ih => exact Machine.layered_bind Machine.layered_get ih
  | catching tag body ih => exact ih.catching tag
  | block body ih => exact Machine.Layered.block ih
  | protect body cleanup ihbody ihcleanup => exact ihbody.unwindProtect ihcleanup
  | bind symbol value body ih => exact ih.binding symbol value
  | call closure args => exact Machine.Layered.call hrun closure args
  | toplevel body ih => exact ScopeOp.Layered.perform ih

theorem accounts_performWith
    (hlayered : ∀ entry closure args, Machine.Layered (fun _ _ => True) (run entry closure args))
    (hrun : ∀ entry closure args,
      Machine.Accounts (called entry closure args) (run entry closure args))
    (r : Routine γ) : Machine.Accounts (r.eventsWith run called) (r.performWith run) := by
  induction r with
  | act x hx hcalm => exact hcalm.accounts
  | exit tag values => exact Machine.accounts_exit tag values
  | andThen first next ihfirst ihnext => exact ihfirst.bind ihnext
  | choose choice ih => exact Machine.calm_get.before ih
  | catching tag body ih => exact ih.catching tag
  | block body ih => exact Machine.Accounts.block ih
  | protect body cleanup ihbody ihcleanup =>
    exact ihbody.unwindProtect (layered_performWith hlayered cleanup) ihcleanup
  | bind symbol value body ih => exact ih.binding symbol value
  | call closure args => exact Machine.Accounts.call hrun closure args
  | toplevel body ih =>
    refine Machine.Calm.after (fun outcome => ?_) ih.toplevel
    cases outcome <;> exact Machine.calm_pure _

end Accounts

variable (code : Code γ) (depth : Nat)

theorem layered_performWithin (r : Routine γ) :
    Machine.Layered (fun _ _ => True) (r.performWithin code depth) := by
  induction depth generalizing r with
  | zero =>
    exact layered_performWith
      (fun _ _ _ => Machine.layered_of_confined fun _ => Machine.confined_blocked) r
  | succ depth ih => exact layered_performWith (fun entry closure args => ih _) r

theorem accounts_performWithin (r : Routine γ) :
    Machine.Accounts (r.events code depth) (r.performWithin code depth) := by
  induction depth generalizing r with
  | zero =>
    exact accounts_performWith
      (fun _ _ _ => Machine.layered_of_confined fun _ => Machine.confined_blocked)
      (fun _ _ _ => (Machine.calm_of_confined fun _ => Machine.confined_blocked).accounts) r
  | succ depth ih =>
    exact accounts_performWith (fun entry closure args => layered_performWithin code depth _)
      (fun entry closure args => ih _) r

/-- If an exit to a catch frame was started inside it and no protected body has dropped the exit since,
the frame comes back with a value only if its body came back with this exit. If the body came back with
a value or an error instead, that is a fatal error; if it came back with some other exit, the frame hands
that one on while the exit to itself is still under way. -/
theorem swallowed_exit_noticed (tag : Value) (body : Routine γ) {m m₁ : Machine γ}
    {outcome : Outcome Value} {values : List Value} {before after : List ExitEvent}
    (hroom : m.running.control.frames.size < m.running.control.frameLimit)
    (hrun : body.performWithin code depth
      (m.withControl (m.running.control.pushed (.catching tag))) = .ok outcome m₁)
    (hevents : body.events code depth (m.withControl (m.running.control.pushed (.catching tag)))
      = before ++ .started ⟨m.running.control.nextSerial, values⟩ :: after)
    (hdropped : .dropped ⟨m.running.control.nextSerial, values⟩ ∉ after) :
    (∀ value m', (catching tag body).performWithin code depth m = .ok (.ok value) m' →
      outcome = .error (.exit m.running.control.nextSerial) ∧ value = values.headD .nil) ∧
    ((∀ target, outcome ≠ .error (.exit target)) →
      ∃ message m', (catching tag body).performWithin code depth m
        = .error (.fatal .controlIntegrity message) m') ∧
    ∀ target, outcome = .error (.exit target) → target ≠ m.running.control.nextSerial →
      ∃ m', (catching tag body).performWithin code depth m = .ok outcome m' ∧
        m'.running.control.pending = some ⟨m.running.control.nextSerial, values⟩ := by
  have hpending : m₁.running.control.pending = some ⟨m.running.control.nextSerial, values⟩ := by
    refine (accounts_performWithin code depth body).remains hrun (Nat.lt_succ_self _) ?_
    rw [hevents]
    exact remains_of_started before after hdropped
  have htop := (Machine.inside_catching m tag).onTop (by simp)
    ((layered_performWithin code depth body).ok hrun)
  have hframe : (catching tag body).performWithin code depth m
      = Machine.leaveCatch m.running.control.scope outcome m₁ := by
    have hunfold : (catching tag body).performWithin code depth
        = Machine.catching tag (body.performWithin code depth) := by cases depth <;> rfl
    rw [hunfold, Machine.catching_entered (Nat.not_le.mpr hroom),
      Machine.bind_of_ok (Machine.guarded_of_ok hrun)]
  have hfatal : (∀ target, outcome ≠ .error (.exit target)) →
      ∃ message m', (catching tag body).performWithin code depth m
        = .error (.fatal .controlIntegrity message) m' := by
    intro houtcome
    rw [hframe]
    exact Machine.leaveCatch_swallowed htop hpending houtcome
  have hother : ∀ target, outcome = .error (.exit target) → target ≠ m.running.control.nextSerial →
      ∃ m', (catching tag body).performWithin code depth m = .ok outcome m' ∧
        m'.running.control.pending = some ⟨m.running.control.nextSerial, values⟩ := by
    intro target houtcome hne
    subst houtcome
    exact ⟨_, hframe.trans (Machine.leaveCatch_other htop hne), hpending⟩
  refine ⟨fun value m' hvalue => ?_, hfatal, hother⟩
  rcases outcome with (target | error) | returned
  · by_cases hown : target = m.running.control.nextSerial
    · subst hown
      have hleft := hframe.trans (Machine.leaveCatch_own htop hpending)
      cases hvalue.symm.trans hleft
      exact ⟨rfl, rfl⟩
    · obtain ⟨m₂, hleft, -⟩ := hother target rfl hown
      cases hvalue.symm.trans hleft
  all_goals
    obtain ⟨message, m₂, hleft⟩ := hfatal fun target heq => nomatch heq
    cases hvalue.symm.trans hleft

/-- Every closure gives the empty list. -/
def idle : Code Journal := fun _ _ _ => result (.ok .nil)

/-- Comes back with a value instead of the exit that it starts. -/
def swallowing (tag : Value) (values : List Value) : Routine Journal :=
  andThen (exit tag values) fun _ => result (.ok .nil)

/-- What a run comes back with. -/
def returned? : EStateM.Result Fault (Machine Journal) (Outcome Value) → Option (Outcome Value)
  | .ok outcome _ => some outcome
  | .error _ _ => none

theorem exists_of_returned? {r : EStateM.Result Fault (Machine Journal) (Outcome Value)}
    {outcome : Outcome Value} (h : returned? r = some outcome) : ∃ m, r = .ok outcome m := by
  cases r with
  | ok a m =>
    cases h
    exact ⟨m, rfl⟩
  | error fault m => cases h

/-- A cleanup that comes back normally keeps the exit that the protected body swallowed. -/
theorem swallowed_exit_noticed_cleanup :
    ∃ message m', (catching .t (protect (swallowing .t [.t]) (result (.ok .nil)))).performWithin
      idle 0 narrowMachine = .error (.fatal .controlIntegrity message) m' := by
  obtain ⟨m₁, hrun⟩ : ∃ m₁, (protect (swallowing .t [.t]) (result (.ok .nil))).performWithin idle 0
      (narrowMachine.withControl (narrowMachine.running.control.pushed (.catching .t)))
      = .ok (.ok .nil) m₁ := exists_of_returned? (by decide +kernel)
  have hevents : (protect (swallowing .t [.t]) (result (.ok .nil))).events idle 0
      (narrowMachine.withControl (narrowMachine.running.control.pushed (.catching .t)))
      = [] ++ .started ⟨narrowMachine.running.control.nextSerial, [.t]⟩ :: [] := by decide +kernel
  obtain ⟨-, hfatal, -⟩ := swallowed_exit_noticed idle 0 .t
    (protect (swallowing .t [.t]) (result (.ok .nil))) (by decide) hrun hevents List.not_mem_nil
  exact hfatal fun target heq => nomatch heq

/-- An exit that is started inside a catch frame to it, in a body that comes back with a value, goes
unnoticed: it was started in a cleanup that came back normally. -/
theorem swallowed_exit_unnoticed :
    ¬∀ (code : Code Journal) (depth : Nat) (tag : Value) (body : Routine Journal)
      (m m₁ : Machine Journal) (value : Value) (values : List Value),
      m.running.control.frames.size < m.running.control.frameLimit →
      body.performWithin code depth (m.withControl (m.running.control.pushed (.catching tag)))
        = .ok (.ok value) m₁ →
      .started ⟨m.running.control.nextSerial, values⟩ ∈ body.events code depth
        (m.withControl (m.running.control.pushed (.catching tag))) →
      ∀ value m', (catching tag body).performWithin code depth m ≠ .ok (.ok value) m' := by
  intro hall
  obtain ⟨m₁, hrun⟩ : ∃ m₁, (protect (result (.ok .t)) (swallowing .t [.t])).performWithin idle 0
      (narrowMachine.withControl (narrowMachine.running.control.pushed (.catching .t)))
      = .ok (.ok .t) m₁ := exists_of_returned? (by decide +kernel)
  obtain ⟨m', hleft⟩ : ∃ m', (catching .t
      (protect (result (.ok .t)) (swallowing .t [.t]))).performWithin idle 0 narrowMachine
        = .ok (.ok .t) m' := exists_of_returned? (by decide +kernel)
  exact hall idle 0 .t (protect (result (.ok .t)) (swallowing .t [.t]))
    narrowMachine m₁ .t [.t] (by decide) hrun (by decide +kernel) .t m' hleft

end Routine

end Substrate
