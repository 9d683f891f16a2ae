import Substrate.Proofs.Control.Layers
import Substrate.Proofs.Control.Refinement

/-!
# What a fault leaves on the control stack

A fault is recovered from if it starts before the scope is entered, or in its guarded body. Cleanups
and called closures run without a guard of their own, and the operations look after exits once the
guard is gone. A fault that starts there is never recovered from: what the operation itself put on
top stays until a scope further out is left by a fault.
-/

namespace Substrate

namespace Machine

variable {γ α : Type} {written : Nat → Value → Prop} {m m' : Machine γ}
  {body cleanup : Op γ (Outcome Value)}

/-! ## Where a fault starts -/

/-- The operation ends in a fault. -/
def Faults (x : Op γ α) (m : Machine γ) : Prop := ∃ fault m', x m = .error fault m'

theorem Inside.onTop {m₀ m₁ : Machine γ} {kind : FrameKind} (h : Inside written m m₀ kind)
    (hkind : ∀ symbol index previous, kind ≠ .binding symbol index previous)
    (hbeneath : Beneath written m₀ m₁) :
    OnTop m₁.running.control m.running.control.scope kind m.running.control.frames :=
  ⟨hbeneath.control.frames.trans h.frames, fun symbol index previous heq =>
    absurd heq (hkind symbol index previous)⟩

section Faults

variable {fault : Fault} {tag : Value}

theorem recovered_catching (hbody : Layered written body)
    (hfaults : Faults body (m.withControl (m.running.control.pushed (.catching tag))))
    (h : catching tag body m = .error fault m') : Recovered written m m' := by
  obtain ⟨fault₁, m₁, hrun⟩ := hfaults
  obtain ⟨m₂, hguarded, hrecovered⟩ := (inside_catching m tag).guarded hbody hrun
  by_cases hfull : m.running.control.frameLimit ≤ m.running.control.frames.size
  · rw [catching_full hfull] at h
    cases h
  · rw [catching_entered hfull, bind_of_error hguarded] at h
    cases h
    exact hrecovered

theorem recovered_unwindProtect (hbody : Layered written body)
    (hfaults : Faults body (m.withControl (m.running.control.pushed .protecting)))
    (h : unwindProtect body cleanup m = .error fault m') : Recovered written m m' := by
  obtain ⟨fault₁, m₁, hrun⟩ := hfaults
  obtain ⟨m₂, hguarded, hrecovered⟩ := (inside_protecting m).guarded hbody hrun
  by_cases hfull : m.running.control.frameLimit ≤ m.running.control.frames.size
  · rw [unwindProtect_full hfull] at h
    cases h
  · rw [unwindProtect_entered hfull, bind_of_error hguarded] at h
    cases h
    exact hrecovered

theorem recovered_binding (hbody : Layered written body) {symbol value : Value}
    {scope : ControlStack.Scope} {m₀ : Machine γ}
    (hkind : m.heap.space.isKind symbol .symbol = true)
    (henter : enterBinding symbol value m = .ok (.ok scope) m₀) (hfaults : Faults body m₀)
    (h : binding symbol value body m = .error fault m') : Recovered written m m' := by
  obtain ⟨index, hentered⟩ | ⟨unwind, m₁, hrefused, -⟩ | ⟨fault₁, m₁, hfault, -⟩ :=
    enterBinding_cases written m symbol value
  · rw [henter] at hentered
    cases hentered
    obtain ⟨fault₁, m₁, hrun⟩ := hfaults
    obtain ⟨m₂, hguarded, hrecovered⟩ := (inside_bound m symbol index value).guarded hbody hrun
    rw [binding_of_entered hkind henter, bind_of_error hguarded] at h
    cases h
    exact hrecovered
  · rw [henter] at hrefused
    cases hrefused
  · rw [henter] at hfault
    cases hfault

/-- A debug build does not get past a broken contract. -/
theorem faults_expect (hmode : m.mode = .debug) (message : Unit → Op γ String) :
    Faults (expect false message) m := by
  have hexpect : expect false message m
      = (message () >>= fun text => raiseFatal .contractViolation text) m := by
    rw [expect, if_neg Bool.false_ne_true, bind_of_ok get_apply, hmode]
  rw [Faults, hexpect]
  cases hrun : message () m with
  | ok text m₁ =>
    rw [bind_of_ok hrun]
    exact ⟨_, _, rfl⟩
  | error fault m₁ => exact ⟨fault, m₁, bind_of_error hrun⟩

/-- In a debug build a binding of something else than a symbol does not get to its body. -/
theorem unmoved_binding {symbol value : Value} (hmode : m.mode = .debug)
    (hkind : ¬m.heap.space.isKind symbol .symbol = true)
    (h : binding symbol value body m = .error fault m') : Unmoved written m m' := by
  obtain ⟨fault₁, m₁, hrun⟩ := faults_expect hmode fun _ => do
    return "binding a non-symbol " ++ (← view fun mode space => space.render mode symbol)
  rw [binding_of_other hkind, bind_of_error hrun] at h
  cases h
  exact unmoved_of_confined (fun _ => confined_misuse _ symbol) hrun

/-- A fault in a cleanup leaves what was set aside for it. -/
theorem length_suspended_unwindProtect (hbody : Layered written body)
    (hcleanup : Layered written cleanup) {result : Outcome Value} {m₁ : Machine γ}
    (hrun : body (m.withControl (m.running.control.pushed .protecting)) = .ok result m₁)
    (hfaults : Faults cleanup
      (m₁.withControl (cleaning m₁.running.control m.running.control.frames)))
    (h : unwindProtect body cleanup m = .error fault m') :
    m.running.control.suspended.length < m'.running.control.suspended.length := by
  obtain ⟨fault₁, m₂, hcleaned⟩ := hfaults
  have hfirst := (hbody.ok hrun).control.suspended.length_le
  have hsecond := (hcleanup.error hcleaned).control.suspended.length_le
  have htop := (inside_protecting m).onTop (by simp) (hbody.ok hrun)
  by_cases hfull : m.running.control.frameLimit ≤ m.running.control.frames.size
  · rw [unwindProtect_full hfull] at h
    cases h
  · rw [unwindProtect_entered hfull, bind_of_ok (guarded_of_ok hrun), leaveProtect_apply htop,
      bind_of_error hcleaned] at h
    cases h
    exact Nat.lt_of_lt_of_le (Nat.lt_succ_of_le hfirst) hsecond

/-- A fault in a called closure leaves the closure in the history. -/
theorem size_history_call {run : Word → Value → List Value → Op γ (Outcome Value)}
    (hrun : ∀ entry closure args, Layered written (run entry closure args)) {closure : Value}
    {args : List Value} {entry : Word} (hentry : entryOf? closure m = .ok (some entry) m)
    (hfaults : Faults (run entry closure args)
      (m.withControl (calling m.running.control closure)))
    (h : call run closure args m = .error fault m') :
    m.running.control.history.size < m'.running.control.history.size := by
  obtain ⟨fault₁, m₁, hcalled⟩ := hfaults
  have hlength := ((hrun entry closure args).error hcalled).control.history.length_le
  rw [call, bind_of_ok hentry] at h
  dsimp only at h
  by_cases hfull : m.running.control.invocationLimit ≤ m.running.control.history.size
  · rw [recorded_full hfull] at h
    cases h
  · rw [recorded_error hfull hcalled] at h
    cases h
    simp only [control_withControl, calling, Array.length_toList, Array.size_push] at hlength
    exact hlength

/-- A catch frame that finds an exit under way which is not its own leaves it under way. -/
theorem pending_leaveCatch {scope : ControlStack.Scope} {lower : Array Frame}
    {result : Outcome Value} (htop : OnTop m.running.control scope (.catching tag) lower)
    (hresult : result ≠ .error (.exit scope.serial))
    (h : leaveCatch scope result m = .error fault m') :
    m'.running.control.pending = m.running.control.pending := by
  cases hpending : m.running.control.pending with
  | none =>
    rcases result with (target | error) | value
    · rw [leaveCatch_other htop fun heq => hresult (by rw [heq])] at h
      cases h
    · rw [leaveCatch_error htop hpending] at h
      cases h
    · rw [leaveCatch_value htop hpending] at h
      cases h
  | some exit =>
    rcases result with (target | error) | value
    · rw [leaveCatch_other htop fun heq => hresult (by rw [heq])] at h
      cases h
    all_goals
      rw [leaveCatch, bind_of_ok (leave_apply htop)] at h
      dsimp only at h
      rw [pendingExit, bind_of_ok (control_apply _)] at h
      simp only [control_withControl, ControlStack.undo, hpending] at h
      cases h
      rfl

/-- A body came back inside a catch frame of `m` while an exit that the frame does not stop was
under way. -/
def Forgets (body : Op γ (Outcome Value)) (tag : Value) (m : Machine γ) : Prop :=
  ∃ result m₁, body (m.withControl (m.running.control.pushed (.catching tag))) = .ok result m₁ ∧
    m₁.running.control.pending ≠ none ∧ result ≠ .error (.exit m.running.control.nextSerial)

theorem pending_catching (hbody : Layered written body) (hforgets : Forgets body tag m)
    (h : catching tag body m = .error fault m') : m'.running.control.pending ≠ none := by
  obtain ⟨result, m₁, hrun, hpending, hresult⟩ := hforgets
  have htop := (inside_catching m tag).onTop (by simp) (hbody.ok hrun)
  by_cases hfull : m.running.control.frameLimit ≤ m.running.control.frames.size
  · rw [catching_full hfull] at h
    cases h
  · rw [catching_entered hfull, bind_of_ok (guarded_of_ok hrun)] at h
    rwa [pending_leaveCatch htop hresult h]

/-- An exit that gets to the top level is a fault, and stays under way. -/
theorem toplevel_exit {target : Nat} {m₁ : Machine γ}
    (hrun : body m = .ok (.error (.exit target)) m₁) :
    ∃ fault m', toplevel body m = .error fault m' ∧ m'.running.control = m₁.running.control := by
  rw [toplevel, bind_of_ok hrun]
  exact ⟨_, _, rfl, rfl⟩

end Faults

end Machine

/-! ## Scope operations -/

/-- The operations that establish a scope, with the bodies, cleanups and entries given to them. -/
inductive ScopeOp (γ : Type) where
  | catching (tag : Value) (body : Op γ (Outcome Value))
  | block (body : Value → Op γ (Outcome Value))
  | protect (body cleanup : Op γ (Outcome Value))
  | bind (symbol value : Value) (body : Op γ (Outcome Value))
  | call (run : Word → Value → List Value → Op γ (Outcome Value)) (closure : Value)
      (args : List Value)
  | toplevel (body : Op γ (Outcome Value))

namespace ScopeOp

open Machine (Faults Forgets)

variable {γ : Type} {written : Nat → Value → Prop} {m m' : Machine γ}

def perform : ScopeOp γ → Op γ (Outcome Value)
  | catching tag body => Machine.catching tag body
  | block body => Machine.block body
  | protect body cleanup => Machine.unwindProtect body cleanup
  | bind symbol value body => Machine.binding symbol value body
  | call run closure args => Machine.call run closure args
  | toplevel body => do
    match ← Machine.toplevel body with
    | .ok value => return .ok value
    | .error error => return .error (.error error)

/-- What the operation is given is layered. -/
def Layered (written : Nat → Value → Prop) : ScopeOp γ → Prop
  | catching _ body | bind _ _ body | toplevel body => Machine.Layered written body
  | block body => ∀ tag, Machine.Layered written (body tag)
  | protect body cleanup => Machine.Layered written body ∧ Machine.Layered written cleanup
  | call run _ _ => ∀ entry closure args, Machine.Layered written (run entry closure args)

/-- The fault starts before the scope is entered. -/
def FaultsBefore (m : Machine γ) : ScopeOp γ → Prop
  | block _ => Faults (Machine.cons .nil .nil) m
  | bind symbol value _ =>
    if m.heap.space.isKind symbol .symbol then Faults (Machine.enterBinding symbol value) m
    else m.mode = .debug
  | call _ closure _ => Faults (Machine.entryOf? closure) m
  | catching _ _ | protect _ _ | toplevel _ => False

/-- The fault starts in the body, while the scope is guarded. -/
def FaultsInside (m : Machine γ) : ScopeOp γ → Prop
  | catching tag body => Faults body (m.withControl (m.running.control.pushed (.catching tag)))
  | block body => ∃ tag m₁, Machine.cons .nil .nil m = .ok tag m₁ ∧
      Faults (body tag) (m₁.withControl (m₁.running.control.pushed (.catching tag)))
  | protect body _ => Faults body (m.withControl (m.running.control.pushed .protecting))
  | bind symbol value body => ∃ scope m₁, m.heap.space.isKind symbol .symbol = true ∧
      Machine.enterBinding symbol value m = .ok (.ok scope) m₁ ∧ Faults body m₁
  | call _ _ _ | toplevel _ => False

/-- The fault starts where no guard stands: in a cleanup, in a called closure, or in the operation
itself because its body forgot about an exit. -/
def FaultsPast (m : Machine γ) : ScopeOp γ → Prop
  | catching tag body => Forgets body tag m
  | block body => ∃ tag m₁, Machine.cons .nil .nil m = .ok tag m₁ ∧ Forgets (body tag) tag m₁
  | protect body cleanup => ∃ result m₁,
      body (m.withControl (m.running.control.pushed .protecting)) = .ok result m₁ ∧
      Faults cleanup
        (m₁.withControl (Machine.cleaning m₁.running.control m.running.control.frames))
  | bind _ _ _ => False
  | call run closure args => ∃ entry, Machine.entryOf? closure m = .ok (some entry) m ∧
      Faults (run entry closure args)
        (m.withControl (Machine.calling m.running.control closure))
  | toplevel body => ∃ target m₁, body m = .ok (.error (.exit target)) m₁ ∧
      m₁.running.control.pending ≠ none

theorem Layered.perform {op : ScopeOp γ} (h : op.Layered written) :
    Machine.Layered written op.perform := by
  cases op with
  | catching tag body => exact Machine.Layered.catching h tag
  | block body => exact Machine.Layered.block h
  | protect body cleanup => exact Machine.Layered.unwindProtect h.1 h.2
  | bind symbol value body => exact Machine.Layered.binding h symbol value
  | call run closure args => exact Machine.Layered.call h closure args
  | toplevel body =>
    refine Machine.layered_bind (Machine.Layered.toplevel h) fun result => ?_
    split <;> exact Machine.layered_pure _

variable {op : ScopeOp γ} {fault : Fault}

theorem unmoved_of_faultsBefore (hbefore : op.FaultsBefore m)
    (h : op.perform m = .error fault m') : m.Unmoved written m' := by
  cases op with
  | catching | protect | toplevel => exact hbefore.elim
  | block body =>
    obtain ⟨fault₁, m₁, hcons⟩ := hbefore
    have hsame : EStateM.Result.error fault₁ m₁ = .error fault m' :=
      (Machine.bind_of_error hcons).symm.trans h
    cases hsame
    exact Machine.unmoved_of_confined (fun _ => Machine.confined_cons .nil .nil) hcons
  | bind symbol value body =>
    simp only [FaultsBefore] at hbefore
    split at hbefore
    · rename_i hkind
      obtain ⟨fault₁, m₁, henter⟩ := hbefore
      have hsame := (Machine.binding_of_faulted hkind henter).symm.trans h
      cases hsame
      obtain ⟨index, hentered⟩ | ⟨unwind, m₂, hrefused, -⟩ | ⟨fault₂, m₂, hfault, hunmoved⟩ :=
        Machine.enterBinding_cases written m symbol value
      · cases hentered.symm.trans henter
      · cases hrefused.symm.trans henter
      · cases hfault.symm.trans henter
        exact hunmoved
    · rename_i hkind
      exact Machine.unmoved_binding hbefore hkind h
  | call run closure args =>
    obtain ⟨fault₁, m₁, hentry⟩ := hbefore
    have hsame : EStateM.Result.error fault₁ m₁ = .error fault m' :=
      (Machine.bind_of_error hentry).symm.trans h
    cases hsame
    exact Machine.unmoved_of_confined (fun _ => Machine.confined_entryOf? closure) hentry

theorem recovered_of_faultsInside (hop : op.Layered written) (hinside : op.FaultsInside m)
    (h : op.perform m = .error fault m') : m.Recovered written m' := by
  cases op with
  | catching tag body => exact Machine.recovered_catching hop hinside h
  | block body =>
    obtain ⟨tag, m₁, hcons, hfaults⟩ := hinside
    have hkeeps := Machine.confined_cons .nil .nil m (List.Subset.refl _)
    rw [hcons] at hkeeps
    have hcatching : Machine.catching tag (body tag) m₁ = .error fault m' :=
      (Machine.bind_of_ok hcons).symm.trans h
    have hrecovered := Machine.recovered_catching (hop tag) hfaults hcatching
    refine ⟨hrecovered.mode.trans hkeeps.mode, ?_⟩
    rw [← hkeeps.control, ← hkeeps.mode]
    exact hrecovered.control
  | protect body cleanup => exact Machine.recovered_unwindProtect hop.1 hinside h
  | bind symbol value body =>
    obtain ⟨scope, m₁, hkind, henter, hfaults⟩ := hinside
    exact Machine.recovered_binding hop hkind henter hfaults h
  | call run closure args => exact hinside.elim
  | toplevel body => exact hinside.elim

theorem not_recovered_of_faultsPast (hop : op.Layered written) (hpast : op.FaultsPast m)
    (h : op.perform m = .error fault m') : ¬m.Recovered written m' := by
  intro hrecovered
  cases op with
  | catching tag body =>
    exact Machine.pending_catching hop hpast h hrecovered.control.pending
  | block body =>
    obtain ⟨tag, m₁, hcons, hforgets⟩ := hpast
    have hcatching : Machine.catching tag (body tag) m₁ = .error fault m' :=
      (Machine.bind_of_ok hcons).symm.trans h
    exact Machine.pending_catching (hop tag) hforgets hcatching hrecovered.control.pending
  | protect body cleanup =>
    obtain ⟨result, m₁, hrun, hfaults⟩ := hpast
    have hlonger := Machine.length_suspended_unwindProtect hop.1 hop.2 hrun hfaults h
    rw [hrecovered.control.sameSuspended] at hlonger
    exact Nat.lt_irrefl _ hlonger
  | bind symbol value body => exact hpast.elim
  | call run closure args =>
    obtain ⟨entry, hentry, hfaults⟩ := hpast
    have hlonger := Machine.size_history_call hop hentry hfaults h
    rw [hrecovered.control.sameHistory] at hlonger
    exact Nat.lt_irrefl _ hlonger
  | toplevel body =>
    obtain ⟨target, m₁, hrun, hpending⟩ := hpast
    obtain ⟨escaped, m₂, htoplevel, hcontrol⟩ := Machine.toplevel_exit hrun
    have hsame : EStateM.Result.error escaped m₂ = .error fault m' :=
      (Machine.bind_of_error htoplevel).symm.trans h
    cases hsame
    exact hpending (hcontrol ▸ hrecovered.control.pending)

/-- What a fault of a scope operation leaves, whatever its bodies, cleanups and entries are made of.
The frames are those on entry and no binding of the operation is in effect; whatever else stays goes
with the next fault of a body around it. If the fault started before the scope was entered or in its
guarded body, nothing stays, so that what follows finds the same context. If it started in a
cleanup, in a called closure or in a scope whose body forgot about an exit, something always
stays. -/
theorem fault_containment (op : ScopeOp γ) (hop : op.Layered written)
    (hpending : m.running.control.pending = none) (h : op.perform m = .error fault m') :
    m.Beneath written m' ∧
      m.running.control.Recovered m.mode written
        (m'.running.control.abandon m.running.control.scope) ∧
      (op.FaultsBefore m ∨ op.FaultsInside m → m.Recovered written m' ∧
        (m.mode = .debug → (∀ index value, ¬written index value) →
          m'.running.control.context = m.running.control.context ∧
            m'.running.control.callsLeft = m.running.control.callsLeft)) ∧
      (op.FaultsPast m → ¬m.Recovered written m') := by
  have hbeneath := hop.perform.error h
  refine ⟨hbeneath, hbeneath.control.abandon, fun hwhere => ?_,
    fun hpast => not_recovered_of_faultsPast hop hpast h⟩
  have hrecovered : m.Recovered written m' := by
    rcases hwhere with hbefore | hinside
    · exact (unmoved_of_faultsBefore hbefore h).recovered hpending
    · exact recovered_of_faultsInside hop hinside h
  exact ⟨hrecovered, fun hmode => (hmode ▸ hrecovered.control).context⟩

/-- A body without a catch frame to exit to. -/
def strandedBody : ScopeOp Journal := .catching .t (Machine.exitTo .nil [])

/-- A cleanup without a catch frame to exit to. -/
def strandedCleanup : ScopeOp Journal := .protect (pure (.ok .nil)) (Machine.exitTo .t [])

theorem layered_strandedBody : strandedBody.Layered (fun _ _ => False) :=
  Machine.layered_exitTo .nil []

theorem layered_strandedCleanup : strandedCleanup.Layered (fun _ _ => False) :=
  ⟨Machine.layered_pure _, Machine.layered_exitTo .t []⟩

theorem fault_containment_stranded :
    (∃ fault m', strandedBody.perform narrowMachine = .error fault m' ∧
      narrowMachine.Recovered (fun _ _ => False) m' ∧
      m'.running.control.context = narrowMachine.running.control.context) ∧
    ∃ fault m', strandedCleanup.perform narrowMachine = .error fault m' ∧
      ¬narrowMachine.Recovered (fun _ _ => False) m' := by
  constructor
  · obtain ⟨fault, m', h⟩ : ∃ fault m', strandedBody.perform narrowMachine = .error fault m' :=
      ⟨_, _, rfl⟩
    obtain ⟨-, -, hinside, -⟩ := fault_containment strandedBody layered_strandedBody rfl h
    obtain ⟨hrecovered, hcontext⟩ := hinside (.inr ⟨_, _, rfl⟩)
    exact ⟨fault, m', h, hrecovered, (hcontext rfl fun _ _ h => h).1⟩
  · obtain ⟨fault, m', h⟩ : ∃ fault m', strandedCleanup.perform narrowMachine = .error fault m' :=
      ⟨_, _, rfl⟩
    obtain ⟨-, -, -, hpast⟩ := fault_containment strandedCleanup layered_strandedCleanup rfl h
    exact ⟨fault, m', h, hpast ⟨_, _, rfl, _, _, rfl⟩⟩

/-- No exit is under way, and yet a fault is not recovered from: it started in a cleanup. -/
theorem fault_not_contained :
    ¬∀ (op : ScopeOp Journal) (m : Machine Journal), op.Layered (fun _ _ => False) →
      m.running.control.Reachable → m.running.control.pending = none →
      ∀ fault m', op.perform m = .error fault m' → m.Recovered (fun _ _ => False) m' := by
  intro hall
  obtain ⟨fault, m', h⟩ : ∃ fault m', strandedCleanup.perform narrowMachine = .error fault m' :=
    ⟨_, _, rfl⟩
  exact not_recovered_of_faultsPast layered_strandedCleanup ⟨_, _, rfl, _, _, rfl⟩ h
    (hall strandedCleanup narrowMachine layered_strandedCleanup (.new 3 1) rfl fault m' h)

end ScopeOp

end Substrate
