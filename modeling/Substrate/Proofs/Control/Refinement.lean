import Substrate.Proofs.Control.Simulation

/-!
# Control refines the direct semantics

Established bodies and their cleanups are nested like brackets in the journal of an evaluation that
goes on: every body that was established is cleaned up exactly once, and those established inside it
are cleaned up before. The main statement carries this over to the machine, together with the ending,
the values register and all else that the direct semantics says.
-/

namespace Substrate

open Machine ControlStack

/-- Journals in which every established body is cleaned up once, the innermost first. The cleanup
itself may establish further bodies. -/
inductive Nested : Journal → Prop where
  | nil : Nested []
  | protect {body rest : Journal} (label : Nat) (hbody : Nested body) (hrest : Nested rest) :
      Nested (.established label :: (body ++ .cleaned label :: rest))

theorem Nested.append {first second : Journal} (h : Nested first) (h' : Nested second) :
    Nested (first ++ second) := by
  induction h with
  | nil => exact h'
  | @protect body rest label hbody _ _ ih =>
    have hsplit : (.established label :: (body ++ .cleaned label :: rest)) ++ second
        = .established label :: (body ++ .cleaned label :: (rest ++ second)) := by simp
    rw [hsplit]
    exact .protect label hbody ih

/-! ## Evaluations -/

/-- What holds of every evaluation that starts with `s`: if it goes on, then its journal is nested
and no finalizers but the `allowed` ones are there, and only those make it fail in a way that
concerns control. -/
structure Orderly (allowed : List Action) (s : Store) (r : Evaluation) : Prop where
  journal : r.ending.stops = false →
    ∃ events, r.store.world.client = s.world.client ++ events ∧ Nested events
  actions : r.ending.stops = false → r.store.world.heap.actions ⊆ allowed
  fault : ∀ fault, r.ending = .fault fault → fault.Tame ∨ .fail fault ∈ allowed

variable {allowed : List Action} {s s' : Store} {r : Evaluation}

/-- Evaluations that change nothing but the values register. -/
theorem orderly_still {ending : Ending} (hs : s.world.heap.actions ⊆ allowed)
    (hworld : s'.world = s.world)
    (hfault : ∀ fault, ending = .fault fault → fault.Tame) : Orderly allowed s ⟨ending, s'⟩ := by
  refine ⟨fun _ => ⟨[], ?_, .nil⟩, fun _ => ?_, fun fault h => .inl (hfault fault h)⟩
  · rw [List.append_nil, hworld]
  · rwa [hworld]

/-- What comes after an evaluation that goes on. -/
theorem Orderly.trans {r' : Evaluation} (h : Orderly allowed s r) (hstops : r.ending.stops = false)
    (h' : Orderly allowed r.store r') : Orderly allowed s r' := by
  refine ⟨fun hgoes => ?_, h'.actions, h'.fault⟩
  obtain ⟨events, hevents, hnested⟩ := h.journal hstops
  obtain ⟨events', hevents', hnested'⟩ := h'.journal hgoes
  exact ⟨events ++ events', by rw [hevents', hevents, List.append_assoc], hnested.append hnested'⟩

theorem Orderly.andThen (h : Orderly allowed s r) {next : Value → Store → Evaluation}
    (hnext : ∀ value s, s.world.heap.actions ⊆ allowed → Orderly allowed s (next value s)) :
    Orderly allowed s (r.andThen next) := by
  unfold Evaluation.andThen
  split
  · rename_i value hending
    have hstops : r.ending.stops = false := by rw [hending]; rfl
    exact h.trans hstops (hnext value _ (h.actions hstops))
  · exact h

theorem Orderly.handled (h : Orderly allowed s r) {handler : Error → Store → Evaluation}
    (hhandler : ∀ error s, s.world.heap.actions ⊆ allowed → Orderly allowed s (handler error s)) :
    Orderly allowed s (r.handled handler) := by
  unfold Evaluation.handled
  split
  · rename_i error hending
    have hstops : r.ending.stops = false := by rw [hending]; rfl
    exact h.trans hstops (hhandler error _ (h.actions hstops))
  · exact h

theorem Orderly.delivered (h : Orderly allowed s r) (level : Nat) :
    Orderly allowed s (r.delivered level) := by
  have hvalue : ∀ {value values}, r.ending.stops = false →
      Orderly allowed s ⟨.value value, { r.store with values }⟩ := fun hstops =>
    h.trans hstops (orderly_still (h.actions hstops) rfl (by simp))
  unfold Evaluation.delivered
  split
  · rename_i hending
    exact hvalue (by rw [hending]; rfl)
  · rename_i hending
    split
    · exact hvalue (by rw [hending]; rfl)
    · exact h
  · exact h

theorem Orderly.congr (h : Orderly allowed s' r) (hclient : s'.world.client = s.world.client) :
    Orderly allowed s r :=
  ⟨fun hgoes => hclient ▸ h.journal hgoes, h.actions, h.fault⟩

/-- The cleanup runs once, after everything that was established in the body. -/
theorem Orderly.cleanedUp {label : Nat} (h : Orderly allowed (s.record (.established label)) r)
    {cleanup : Store → Evaluation}
    (hcleanup : ∀ s, s.world.heap.actions ⊆ allowed →
      Orderly allowed (s.record (.cleaned label)) (cleanup s)) :
    Orderly allowed s (r.cleanedUp cleanup) := by
  unfold Evaluation.cleanedUp
  split
  · rename_i hstops
    refine ⟨fun hgoes => ?_, h.actions, h.fault⟩
    rw [hstops] at hgoes
    cases hgoes
  · rename_i hgoes
    have hstops : r.ending.stops = false := by simpa using hgoes
    have hq := hcleanup { r.store with values := [] } (h.actions hstops)
    generalize cleanup { r.store with values := [] } = q at hq
    have hjournal : q.ending.stops = false → ∃ events,
        q.store.world.client = s.world.client ++ events ∧ Nested events := by
      intro hq'
      obtain ⟨events, hevents, hnested⟩ := h.journal hstops
      obtain ⟨events', hevents', hnested'⟩ := hq.journal hq'
      refine ⟨_, ?_, .protect label hnested hnested'⟩
      have hrecord : q.store.world.client
          = (r.store.world.client ++ [.cleaned label]) ++ events' := hevents'
      have hbody : r.store.world.client
          = (s.world.client ++ [.established label]) ++ events := hevents
      rw [hrecord, hbody]
      simp
    unfold Evaluation.resumed
    split
    · rename_i value hvalue
      have hq' : q.ending.stops = false := by rw [hvalue]; rfl
      exact ⟨fun _ => hjournal hq', fun _ => hq.actions hq', h.fault⟩
    · exact ⟨hjournal, hq.actions, hq.fault⟩

theorem orderly_within (hs : s.world.heap.actions ⊆ allowed) (ctx : Context) (tag? : Option Value)
    {body : Context → Evaluation} (hbody : ∀ inner, Orderly allowed s (body inner)) :
    Orderly allowed s (ctx.within tag? s body) := by
  unfold Context.within
  split
  · exact orderly_still hs rfl (by simp)
  · exact hbody _

theorem orderly_looking {α : Type} (hs : s.world.heap.actions ⊆ allowed)
    {answer : Except Fault α} (hanswer : Tame answer) {next : α → Evaluation}
    (hnext : ∀ a, Orderly allowed s (next a)) : Orderly allowed s (s.looking answer next) := by
  cases answer with
  | ok a => exact hnext a
  | error fault =>
    refine orderly_still hs rfl fun fault' h => ?_
    cases h
    exact hanswer

theorem orderly_allocating (hs : s.world.heap.actions ⊆ allowed) {next : Value → Store → Evaluation}
    (hnext : ∀ tag s, s.world.heap.actions ⊆ allowed → Orderly allowed s (next tag s)) :
    Orderly allowed s (s.allocating next) := by
  have hcons : Contained allowed (s.world.under (s.found.headD ⟨.new 0 0, #[]⟩))
      (cons .nil .nil (s.world.under (s.found.headD ⟨.new 0 0, #[]⟩))) :=
    confined_cons .nil .nil _ hs
  unfold Store.allocating
  split
  · rename_i tag m hrun
    rw [hrun] at hcons
    exact (hnext tag _ hcons.actions).congr hcons.client
  · rename_i fault m hrun
    rw [hrun] at hcons
    have hstops : (Ending.fault fault).stops ≠ false := by simp [Ending.stops]
    refine ⟨fun h => absurd h hstops, fun h => absurd h hstops, fun fault' h => ?_⟩
    cases h
    exact hcons.2.2

/-! ## Looks at the heap -/

theorem tame_roomFor (mode : Mode) (index : Nat) : Tame (roomFor mode index) := by
  unfold roomFor
  repeat' split
  all_goals trivial

namespace Store

theorem tame_misuse (s : Store) (message : String → String) (v : Value) :
    Tame (s.misuse message v) := by
  unfold misuse
  split
  · exact tame_bind (Space.tame_render _ _ v) fun _ => trivial
  · exact tame_ok ()

theorem tame_symbolBindingIndex (s : Store) (symbol : Value) :
    Tame (s.space.symbolBindingIndex s.mode symbol) :=
  tame_map _ (Space.tame_rawWord _ _ symbol _ _)

theorem tame_bindingIndex? (s : Store) (symbol : Value) : Tame (s.bindingIndex? symbol) :=
  tame_ite
    (tame_bind (s.tame_symbolBindingIndex symbol) fun index =>
      tame_bind (tame_roomFor s.mode index) fun _ => tame_ok _)
    (tame_bind (s.tame_misuse _ symbol) fun _ => tame_ok _)

theorem tame_symbolValue (s : Store) (bindings : Nat → Value) (symbol : Value) :
    Tame (s.symbolValue bindings symbol) :=
  tame_bind (s.tame_symbolBindingIndex symbol) fun _ =>
    tame_ite (Space.tame_fieldGet _ _ symbol _) (tame_ok _)

theorem tame_codeOf? (s : Store) (closure : Value) : Tame (s.codeOf? closure) :=
  tame_ite
    (tame_bind (Space.tame_rawWord _ _ closure _ _) fun _ =>
      tame_ite (tame_bind (s.tame_misuse _ closure) fun _ => tame_ok _) (tame_ok _))
    (tame_bind (s.tame_misuse _ closure) fun _ => tame_ok _)

end Store

/-! ## Programs -/

theorem orderly_evaluateWith
    {callee : Word → Value → List Value → Context → Store → Evaluation}
    (hcallee : ∀ entry closure args ctx s, s.world.heap.actions ⊆ allowed →
      Orderly allowed s (callee entry closure args ctx s))
    (p : Program) (ctx : Context) (s : Store) (hs : s.world.heap.actions ⊆ allowed) :
    Orderly allowed s (p.evaluateWith callee ctx s) := by
  induction p generalizing ctx s with
  | result | setValues | fail => exact orderly_still hs rfl (by simp)
  | exit tag values =>
    rw [Program.evaluateWith]
    split
    · exact orderly_still hs rfl (by simp)
    · exact orderly_looking hs (Space.tame_render _ _ tag) fun _ => orderly_still hs rfl (by simp)
  | catching tag body ih =>
    exact orderly_within hs ctx _ fun inner => (ih inner s hs).delivered _
  | block body ih =>
    exact orderly_allocating hs fun tag s hs =>
      orderly_within hs ctx _ fun inner => (ih tag inner s hs).delivered _
  | protect label body cleanup ihbody ihcleanup =>
    exact orderly_within hs ctx _ fun inner =>
      (ihbody inner (s.record (.established label)) hs).cleanedUp fun s hs =>
        ihcleanup ctx (s.record (.cleaned label)) hs
  | bind symbol value body ih =>
    refine orderly_looking hs (s.tame_bindingIndex? symbol) fun index? => ?_
    cases index? with
    | some index => exact orderly_within hs ctx _ fun inner => ih _ s hs
    | none => exact ih ctx s hs
  | lookup symbol =>
    exact orderly_looking hs (s.tame_symbolValue _ symbol) fun _ => orderly_still hs rfl (by simp)
  | call closure args =>
    refine orderly_looking hs (s.tame_codeOf? closure) fun code? => ?_
    cases code? with
    | some entry => exact hcallee entry closure args ctx s hs
    | none => exact orderly_still hs rfl (by simp)
  | andThen first next ihfirst ihnext =>
    exact (ihfirst ctx s hs).andThen fun value s hs => ihnext value ctx s hs
  | handling body handler ihbody ihhandler =>
    exact (ihbody ctx s hs).handled fun error s hs => ihhandler error ctx s hs

theorem orderly_evaluate (code : Code) (calls : Nat) (p : Program) (ctx : Context) (s : Store)
    (hs : s.world.heap.actions ⊆ allowed) : Orderly allowed s (p.evaluate code calls ctx s) := by
  induction calls generalizing p ctx s with
  | zero =>
    exact orderly_evaluateWith (fun _ _ _ _ _ hs => orderly_still hs rfl (by simp)) p ctx s hs
  | succ calls ih =>
    exact orderly_evaluateWith (fun entry closure args => ih (code entry closure args)) p ctx s hs

/-- A run of a program ends as the direct semantics says, with the same heap, journal and values
register, whatever its allocations find. If it is not cut off by a fault, the control stack is
restored and every protected body that was established has been cleaned up once, the innermost
first. Control itself is at fault only if an exit finds no catch frame: finalizers, which allocation
may run, are the client's own. -/
theorem Program.perform_refines_evaluate (code : Code) (p : Program) {m : Machine Journal}
    (hreach : m.running.control.Reachable) (hpending : m.running.control.pending = none) :
    ∃ found ending,
      p.evaluate code m.running.control.callsLeft m.running.control.context (m.store found)
        = ⟨ending, (after (p.perform code m)).store []⟩ ∧
      Agrees m.running.control (p.perform code m) ending ∧
      (ending.stops = false → ∃ events,
        (after (p.perform code m)).client = m.client ++ events ∧ Nested events) ∧
      ∀ message m', p.perform code m = .error (.fatal .controlIntegrity message) m' →
        (∃ tag shown, ending = .uncaught tag shown) ∨
          .fail (.fatal .controlIntegrity message) ∈ m.heap.actions := by
  have hcalls : m.running.control.callsLeft ≤ m.running.control.invocationLimit := Nat.sub_le _ _
  obtain ⟨found, ending, hagrees, heval⟩ :=
    simulates_performWithin code hcalls p m ⟨hreach.sound, hpending, rfl⟩
  have hresult := heval []
  simp only [List.append_nil] at hresult
  have horderly := orderly_evaluate code m.running.control.callsLeft p m.running.control.context
    (m.store found) (List.Subset.refl _)
  rw [hresult] at horderly
  refine ⟨found, ending, hresult, hagrees, horderly.journal, fun message m' hfault => ?_⟩
  have hcut : p.performWithin code m.running.control.invocationLimit m
      = .error (.fatal .controlIntegrity message) m' := hfault
  rw [hcut] at hagrees
  cases hagrees with
  | uncaught tag shown => exact .inl ⟨tag, shown, rfl⟩
  | fault fault => exact .inr ((horderly.fault _ rfl).resolve_left id)

/-- An exit through two protected bodies. The cleanup of the inner one gets over an error of its
own. -/
def nestedExit : Program :=
  .catching .t
    (.protect 1
      (.protect 2 (.exit .t [.t, .nil])
        (.handling (.fail .alreadyAttached) fun _ => .result .nil))
      (.setValues []))

/-- A machine with room for three frames and one call. -/
def narrowMachine : Machine Journal where
  mode := .debug
  options := .default
  heap := .vacant
  roots := .empty
  memory := .empty
  symbols := .empty
  running := ⟨1, .running, .new 3 1⟩
  waiting := []
  nextThread := 2
  nextBinding := 0
  collecting := false
  held := []
  weak := #[]
  log := #[]
  reports := []
  client := []

theorem Program.perform_refines_evaluate_nestedExit :
    narrowMachine.running.control.Reachable ∧ narrowMachine.running.control.pending = none ∧
      (after (nestedExit.perform (fun _ _ _ => .result .nil) narrowMachine)).client
        = [.established 1, .established 2, .cleaned 2, .cleaned 1] ∧
      ∃ found, nestedExit.evaluate (fun _ _ _ => .result .nil) 1
          narrowMachine.running.control.context (narrowMachine.store found)
        = ⟨.value .t,
            (after (nestedExit.perform (fun _ _ _ => .result .nil) narrowMachine)).store []⟩ ∧
        Agrees narrowMachine.running.control
          (nestedExit.perform (fun _ _ _ => .result .nil) narrowMachine) (.value .t) := by
  obtain ⟨found, ending, heval, hagrees, -⟩ := Program.perform_refines_evaluate
    (fun _ _ _ => .result .nil) nestedExit (m := narrowMachine) (.new 3 1) rfl
  have hending : ending = .value .t := (congrArg Evaluation.ending heval).symm.trans rfl
  subst hending
  exact ⟨.new 3 1, rfl, by decide +kernel, found, heval, hagrees⟩

end Substrate
