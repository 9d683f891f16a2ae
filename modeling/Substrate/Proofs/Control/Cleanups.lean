import Substrate.Proofs.Collection.Sparing
import Substrate.Proofs.Construct.Fields
import Substrate.Proofs.Control.Layers

/-!
# What outlives a cleanup

While a cleanup runs, the exit under way and the values register are set aside, and collections mark from
there. So what an exit delivers later, and what the values register gets back, is there afterwards with
the contents that it had, whatever the cleanup allocates and however often it collects:
`Secure.cleanup_delivers`.

The value that the protected body came back with is set aside nowhere. It is there afterwards if
something else refers to it whenever a collection begins, and it may be gone if nothing does:
`unwindProtect_reclaimed`.
-/

namespace Substrate

/-- The object is one that a value of the list leads to. -/
def Space.LedTo (s : Space) (vs : List Value) : Nat → Prop :=
  s.Reaches fun a => ∃ v ∈ vs, v.RefersTo a

/-- The values that are set aside together. -/
def Suspended.held (saved : Suspended) : List Value :=
  saved.exit.toList.flatMap (·.values) ++ saved.values

/-! ## The bottom of what is set aside -/

namespace ControlStack

theorem suspended_undo (c : ControlStack) (kind : FrameKind) :
    (c.undo kind).suspended = c.suspended := by
  cases kind <;> rfl

theorem suspended_dropTop (c : ControlStack) : c.dropTop.suspended = c.suspended := by
  unfold dropTop
  split
  · exact suspended_undo _ _
  · rfl

theorem suspended_dropFrames (count : Nat) (c : ControlStack) :
    (c.dropFrames count).suspended = c.suspended := by
  induction count generalizing c with
  | zero => rfl
  | succ count ih => rw [dropFrames, ih, suspended_dropTop]

theorem mem_references_of_suspended {c : ControlStack} {saved : Suspended} {v : Value}
    (hsaved : saved ∈ c.suspended) (hv : v ∈ saved.held) : v ∈ c.references := by
  have hheld : v ∈ c.suspended.reverse.flatMap Suspended.held :=
    List.mem_flatMap.mpr ⟨saved, List.mem_reverse.mpr hsaved, hv⟩
  simp only [references, List.mem_append]
  exact .inl (.inl (.inl (.inr hheld)))

end ControlStack

namespace Act

variable {mode : Mode} {s : Space} {c c' : ControlStack} {act : Act} {base : List Suspended}

/-- The act does not reach down to `base`: it ends only a cleanup that was started on top of that, and it
abandons only scopes that were entered on top of it. -/
def Above (base : List Suspended) (c : ControlStack) : Act → Prop
  | endCleanup _ _ _ => base.length < c.suspended.length
  | abandon scope => base.length ≤ scope.suspended
  | _ => True

/-- What is set aside at the bottom stays there. -/
theorem Turns.bottom (h : act.Turns mode s c c') (habove : act.Above base c)
    (hbase : base <:+ c.suspended) : base <:+ c'.suspended := by
  have htail : base.length < c.suspended.length → base <:+ c.suspended.tail := by
    intro hlt
    refine List.suffix_of_suffix_length_le hbase (List.tail_suffix _) ?_
    rw [List.length_tail]
    exact Nat.le_sub_one_of_lt hlt
  cases h with
  | left | returned | caught | uncaught => rwa [← c.suspended_dropTop] at hbase
  | suspended =>
    rw [← c.suspended_dropTop] at hbase
    exact hbase.trans (List.suffix_cons _ _)
  | resumed | superseded => exact htail habove
  | abandoned scope =>
    have hcut : (c.abandon scope).suspended
        = c.suspended.drop (c.suspended.length - scope.suspended) := by
      simp only [ControlStack.abandon, ControlStack.suspended_dropFrames]
    rw [hcut]
    refine List.suffix_of_suffix_length_le hbase (List.drop_suffix _ _) ?_
    have habove : base.length ≤ scope.suspended := habove
    have hle := hbase.length_le
    rw [List.length_drop]
    omega
  | _ => exact hbase

end Act

namespace Machine

variable {γ : Type} {m m₁ m' : Machine γ} {base : List Suspended} {kept : List Value}
  {spared : Nat → Prop} {stats : Stats}

/-! ## While a cleanup runs -/

/-- Some thread has this set aside. -/
def SetAside (base : List Suspended) (m : Machine γ) : Prop :=
  ∃ thread ∈ m.threads, base <:+ thread.control.suspended

/-- One step of what goes on while a cleanup runs for which `base` was set aside. Nothing is written to
the spared objects, and the values of `kept` are among the roots whenever a collection begins. Otherwise
this is any step at all, of any thread, that does not reach down to `base`. -/
inductive Cleans (base : List Suspended) (kept : List Value) (spared : Nat → Prop) :
    Machine γ → Machine γ → Prop where
  | act {m : Machine γ} (act : Act) (hpassed : ∀ v ∈ act.passed, m.heap.space.Accepts v)
      (habove : base <:+ m.running.control.suspended → act.Above base m.running.control)
      (hspared : ∀ symbol value, act = .setSymbolValue symbol value → ¬ spared symbol.address) :
      Cleans base kept spared m (m.after act)
  | collect {m m' : Machine γ} {stats : Stats} (ht : m.heap.space.Traceable)
      (hroots : ∀ location ∈ m.roots.locations, m.heap.space.Accepts ⟨m.memory.read location⟩)
      (hkept : ∀ v ∈ kept, RootCall.value v ∈ m.rootCalls) (hrun : collectLocked m = .ok stats m') :
      Cleans base kept spared m m'
  | attach {m m' : Machine γ} (hrun : Machine.attach m = .ok () m') : Cleans base kept spared m m'
  | detach {m m' : Machine γ} (hother : ¬ base <:+ m.running.control.suspended)
      (hrun : Machine.detach m = .ok () m') : Cleans base kept spared m m'
  | switch {m m' : Machine γ} (hthreads : m'.threads.Perm m.threads)
      (hrest : m' = { m with running := m'.running, waiting := m'.waiting }) :
      Cleans base kept spared m m'
  | work {m m' : Machine γ} (hmode : m'.mode = m.mode)
      (hheap : m'.heap = m.heap ∨ Heap.Spares spared m.heap m'.heap)
      (hcontrol : m'.threads.map (·.control) = m.threads.map (·.control))
      (hsymbols : ∀ symbol ∈ m'.symbols.symbols,
        symbol ∈ m.symbols.symbols ∨ m'.heap.space.Accepts symbol) : Cleans base kept spared m m'

theorem Cleans.step (h : Cleans base kept spared m m') : Step m m' := by
  cases h with
  | act act hpassed => exact .act act hpassed
  | collect ht hroots _ hrun => exact .collect ht hroots hrun
  | attach hrun => exact .attach hrun
  | detach _ hrun => exact .detach hrun
  | switch hthreads hrest => exact .switch hthreads hrest
  | work hmode hheap hcontrol hsymbols =>
    exact .work hmode (hheap.imp_right Heap.Spares.work) hcontrol hsymbols

/-- A thread that is detached leaves those that wait. -/
theorem waiting_of_detach (hrun : Machine.detach m = .ok () m') {thread : Thread}
    (hthread : thread ∈ m.waiting) : thread ∈ m'.threads := by
  obtain ⟨log, hnote⟩ : ∃ log, noteDetached m = .ok () { m with log } := ⟨_, rfl⟩
  unfold Machine.detach at hrun
  rw [bind_of_ok hnote] at hrun
  cases hrun
  dsimp only
  cases hwaiting : m.waiting with
  | nil => rw [hwaiting] at hthread; cases hthread
  | cons next rest =>
    rw [hwaiting] at hthread
    simpa [threads, or_comm] using hthread

/-- What is set aside for the cleanup stays set aside. -/
theorem SetAside.step (h : SetAside base m) (hstep : Cleans base kept spared m m') :
    SetAside base m' := by
  obtain ⟨thread, hthread, hbase⟩ := h
  cases hstep with
  | act act hpassed habove _ =>
    obtain ⟨c, ⟨log, heq⟩, hturns⟩ | ⟨_, _, _, _, -, -, -, -, heq⟩ := after_cases act m
    · rw [heq]
      obtain hwaiting | hrunning := List.mem_append.mp hthread
      · exact ⟨thread, List.mem_append_left _ hwaiting, hbase⟩
      · obtain rfl := List.mem_singleton.mp hrunning
        exact ⟨_, List.mem_append_right _ List.mem_cons_self, hturns.bottom (habove hbase) hbase⟩
    · rw [heq]
      exact ⟨thread, hthread, hbase⟩
  | collect _ _ _ hrun =>
    obtain ⟨_, collection, heap, m₁, hcollect, hlocked, hbeside, rfl, -⟩ | ⟨_, _, _, -, herror, -⟩ :=
      (poised_of_collectLocked hrun).collectLocked_cases
    · cases hrun.symm.trans hlocked
      refine ⟨thread, ?_, hbase⟩
      rwa [threads, hbeside.running, hbeside.waiting]
    · cases hrun.symm.trans herror
  | attach hrun =>
    cases hrun
    refine ⟨thread, List.mem_append_left _ ?_, hbase⟩
    rwa [List.reverse_cons]
  | detach hother hrun =>
    obtain hwaiting | hrunning := List.mem_append.mp hthread
    · exact ⟨thread, waiting_of_detach hrun (List.mem_reverse.mp hwaiting), hbase⟩
    · obtain rfl := List.mem_singleton.mp hrunning
      exact absurd hbase hother
  | switch hthreads => exact ⟨thread, hthreads.mem_iff.mpr hthread, hbase⟩
  | work _ _ hcontrol =>
    have hmem : thread.control ∈ m'.threads.map (·.control) :=
      hcontrol ▸ List.mem_map_of_mem hthread
    obtain ⟨same, hsame, heq⟩ := List.mem_map.mp hmem
    exact ⟨same, hsame, heq ▸ hbase⟩

/-! ## What is kept -/

/-- What holds as long as a cleanup runs: it is all there, and what the values led to at the beginning
(in the space `s`) holds what it held. -/
structure Keeping (s : Space) (base : List Suspended) (vs : List Value) (m : Machine γ) : Prop where
  secure : Secure m
  aside : SetAside base m
  similar : ∀ a cell, s.LedTo vs a → s.object? a = some cell →
    ∃ cell', m.heap.space.object? a = some cell' ∧ cell.Similar cell'

variable {s : Space} {saved : Suspended} {rest : List Suspended}

/-- What is kept is reached from the roots of a collection. -/
theorem Keeping.reaches (h : Keeping s (saved :: rest) (saved.held ++ kept) m)
    (hkept : ∀ v ∈ kept, RootCall.value v ∈ m.rootCalls) {a : Nat}
    (ha : s.LedTo (saved.held ++ kept) a) :
    m.heap.space.Reaches (m.heap.Rooted m.rootCalls) a := by
  obtain ⟨thread, hthread, hbase⟩ := h.aside
  have hcalls : ∀ v ∈ saved.held ++ kept, RootCall.value v ∈ m.rootCalls := by
    intro v hv
    obtain hheld | hv := List.mem_append.mp hv
    · have hreference := ControlStack.mem_references_of_suspended
        (hbase.subset List.mem_cons_self) hheld
      simp only [rootCalls, List.mem_append, List.mem_map, List.mem_flatMap]
      exact .inr (.inr (.inl ⟨v, ⟨thread, hthread, hreference⟩, rfl⟩))
    · exact hkept v hv
  induction ha with
  | root hroot =>
    obtain ⟨v, hv, href⟩ := hroot
    exact .root (.inl ⟨_, hcalls v hv, href⟩)
  | @step b c cell hb hcell href ih =>
    obtain ⟨cell', hcell', hsim⟩ := h.similar b cell hb hcell
    exact .step ih hcell' (hsim.refersTo.mpr href)

theorem Keeping.step (h : Keeping s (saved :: rest) (saved.held ++ kept) m)
    (hstep : Cleans (saved :: rest) kept (s.LedTo (saved.held ++ kept)) m m') :
    Keeping s (saved :: rest) (saved.held ++ kept) m' := by
  refine ⟨h.secure.step hstep.step, h.aside.step hstep, fun a cell ha hcell => ?_⟩
  obtain ⟨cell₁, hcell₁, hsim⟩ := h.similar a cell ha hcell
  suffices hkept : ∃ cell', m'.heap.space.object? a = some cell' ∧ cell₁.Similar cell' by
    obtain ⟨cell', hcell', hsim'⟩ := hkept
    exact ⟨cell', hcell', hsim.trans hsim'⟩
  cases hstep with
  | act act hpassed _ hspared =>
    obtain ⟨c, ⟨log, heq⟩, -⟩ | ⟨symbol, value, _, word, hact, -, -, hfield, heq⟩ := after_cases act m
    · rw [heq]
      exact ⟨cell₁, hcell₁, .refl _⟩
    · have hsymbol := hspared symbol value hact
      obtain ⟨href, -⟩ := Space.locate_some hfield
      have hlive : m.heap.space.Accepts symbol :=
        hpassed symbol (by rw [hact]; exact List.mem_cons_self)
      obtain ⟨other, hother⟩ := Option.isSome_iff_exists.mp (hlive href)
      have hne : a ≠ symbol.address := by
        rintro rfl
        exact hsymbol ha
      rw [heq]
      refine ⟨cell₁, ?_, .refl _⟩
      rw [h.secure.heap.valid.object?_setWord hother, if_neg hne, hcell₁]
  | collect ht hroots hroot hrun =>
    obtain ⟨hsurvives, -, -⟩ := survives_of_collectLocked h.secure.heap h.secure.mode ht
      (h.secure.permitted hroots) hrun
    have hreaches := h.reaches hroot ha
    obtain ⟨cell', hcell'⟩ := Option.isSome_iff_exists.mp
      ((hsurvives.live a).mpr (hreaches.mono fun _ hroot => .root (.inl hroot)))
    obtain ⟨old, hold, hsim'⟩ := hsurvives.contents a cell' hcell'
    obtain rfl : cell₁ = old := Option.some.inj (hcell₁.symm.trans hold)
    exact ⟨cell', hcell', hsim'⟩
  | attach hrun =>
    cases hrun
    exact ⟨cell₁, hcell₁, .refl _⟩
  | detach _ hrun =>
    obtain ⟨-, hrest⟩ := detach_threads hrun
    rw [hrest]
    exact ⟨cell₁, hcell₁, .refl _⟩
  | switch _ hrest =>
    rw [hrest]
    exact ⟨cell₁, hcell₁, .refl _⟩
  | work _ hheap =>
    obtain heq | hspares := hheap
    · rw [heq]
      exact ⟨cell₁, hcell₁, .refl _⟩
    · exact hspares.similar h.secure.heap ha hcell₁

theorem Keeping.steps (h : Keeping s (saved :: rest) (saved.held ++ kept) m)
    (hsteps : Relation.ReflTransGen
      (Cleans (saved :: rest) kept (s.LedTo (saved.held ++ kept))) m m') :
    Keeping s (saved :: rest) (saved.held ++ kept) m' := by
  induction hsteps with
  | refl => exact h
  | tail _ hstep ih => exact ih.step hstep

/-! ## Delivery -/

/-- What a protected body with a cleanup comes back with. `m₁` is the machine at the end of the body. -/
structure Delivers (m₁ : Machine γ) (result : Outcome Value) (kept : List Value) (m' : Machine γ) :
    Prop where
  pending : m'.running.control.pending = m₁.running.control.pending
  values : m'.running.control.values = m₁.running.control.values
  /-- The exit, the values register and the values of `kept` refer to live objects. -/
  live : ∀ v ∈ (Suspended.mk m₁.running.control.pending m₁.running.control.values).held ++ kept,
    v.isHeapRef = true → m'.heap.isLive v = true
  /-- These objects, and all that they lead to, hold what they held. -/
  similar : ∀ a cell, m₁.heap.space.LedTo
      ((Suspended.mk m₁.running.control.pending m₁.running.control.values).held ++ kept) a →
    m₁.heap.space.object? a = some cell →
      ∃ cell', m'.heap.space.object? a = some cell' ∧ cell.Similar cell'
  /-- The catch frame that the exit is aimed at delivers its values. -/
  delivered : ∀ (scope : ControlStack.Scope) (tag : Value) (lower : Array Frame) (values : List Value),
    result = .error (.exit scope.serial) →
    OnTop m'.running.control scope (.catching tag) lower →
    m₁.running.control.pending = some ⟨scope.serial, values⟩ →
      ∃ m'', leaveCatch scope result m' = .ok (.ok (values.headD .nil)) m'' ∧
        m''.running.control.values = values ∧ m''.heap = m'.heap

/-- Delivered values outlive cleanups. The body of `unwindProtect` comes back at `m₁`, with a value or an
error or because of an exit, and the cleanup comes back with a value after any steps. Then
`unwindProtect` comes back with what its body came back with; the exit and the values register are what
they were, and so are all objects that they lead to. The same holds of the values of `kept`, to which
something else refers whenever a collection begins: the value of the body has to be among them. -/
theorem Secure.cleanup_delivers {body cleanup : Op γ (Outcome Value)} {m m₀ m₁ m₃ : Machine γ}
    {scope : ControlStack.Scope} {lower : Array Frame} {result : Outcome Value} {cleaned : Value}
    (hs : Secure m₁) (hkept : ∀ v ∈ kept, m₁.heap.space.Accepts v)
    (henter : enter .protecting m = .ok (.ok scope) m₀) (hbody : body m₀ = .ok result m₁)
    (htop : OnTop m₁.running.control scope .protecting lower)
    (hcleanup : cleanup (m₁.withControl (cleaning m₁.running.control lower)) = .ok (.ok cleaned) m₃)
    (hsteps : Relation.ReflTransGen (Cleans (cleaning m₁.running.control lower).suspended kept
        (m₁.heap.space.LedTo
          ((Suspended.mk m₁.running.control.pending m₁.running.control.values).held ++ kept)))
      (m₁.withControl (cleaning m₁.running.control lower)) m₃)
    (hlevel : m₃.running.control.suspended = (cleaning m₁.running.control lower).suspended) :
    ∃ m', unwindProtect body cleanup m = .ok result m' ∧ m'.heap = m₃.heap ∧
      Delivers m₁ result kept m' := by
  have hbegun : m₁.after (.startCleanup scope) = m₁.withControl (cleaning m₁.running.control lower) := by
    rw [after, startCleanup, bind_of_ok (leave_apply htop)]
    rfl
  have hstart : Keeping m₁.heap.space (cleaning m₁.running.control lower).suspended
      ((Suspended.mk m₁.running.control.pending m₁.running.control.values).held ++ kept)
      (m₁.withControl (cleaning m₁.running.control lower)) :=
    ⟨hbegun ▸ hs.act (List.forall_mem_nil _),
      ⟨_, List.mem_append_right _ List.mem_cons_self, List.suffix_refl _⟩,
      fun a cell _ hcell => ⟨cell, hcell, .refl cell⟩⟩
  have hend := hstart.steps hsteps
  have hrun : unwindProtect body cleanup m = .ok result (m₃.withControl
      { m₃.running.control with
        suspended := m₁.running.control.suspended
        pending := m₁.running.control.pending
        values := m₁.running.control.values }) := by
    rw [unwindProtect, bind_of_ok henter]
    dsimp only
    rw [bind_of_ok (guarded_of_ok hbody), leaveProtect_apply htop, bind_of_ok hcleanup,
      unsuspend_value cleaned hlevel]
  refine ⟨_, hrun, rfl, rfl, rfl, fun v hv href => ?_, hend.similar,
    fun target tag below values hresult hcatch hpending => ?_⟩
  · have haccepts : m₁.heap.space.Accepts v := by
      obtain hheld | hv := List.mem_append.mp hv
      · obtain hexit | hvalue := List.mem_append.mp hheld
        · obtain ⟨exit, hexit, hv⟩ := List.mem_flatMap.mp hexit
          exact hs.running.pending exit (Option.mem_toList.mp hexit) v hv
        · exact hs.running.values v hvalue
      · exact hkept v hv
    obtain ⟨cell, hcell⟩ := Option.isSome_iff_exists.mp (haccepts href)
    obtain ⟨cell', hcell', -⟩ := hend.similar _ cell (.root ⟨v, hv, href, rfl⟩) hcell
    exact isLive_of_object hend.secure.heap.valid href (Option.isSome_of_eq_some hcell')
  · rw [hresult]
    exact ⟨_, leaveCatch_own hcatch hpending, rfl, rfl⟩

/-! ## Cleanups that collect -/

/-- A collection that queues nothing is a step of a cleanup, and the thread goes on as it was. -/
theorem cleans_collect (ht : m.heap.space.Traceable)
    (hroots : ∀ location ∈ m.roots.locations, m.heap.space.Accepts ⟨m.memory.read location⟩)
    (hkept : ∀ v ∈ kept, RootCall.value v ∈ m.rootCalls)
    (hquiet : ∀ m', withLock .heap collectLocked m = .ok stats m' → m'.heap.pending = [])
    (hrun : Machine.collect m = .ok stats m') :
    Relation.ReflTransGen (Cleans base kept spared) m m' ∧ m'.running = m.running := by
  obtain ⟨_, m₁, hlocked, hrest⟩ := exists_of_bind_ok hrun
  obtain ⟨_, m₂, hfinalize, hpure⟩ := exists_of_bind_ok hrest
  cases hpure
  have hplain : Host.plain.runFinalizers [] m₁ = .ok () m' := by
    rwa [Host.plain_runFinalizers]
  obtain rfl := Host.runFinalizers_of_empty (hquiet _ hlocked) hplain
  obtain ⟨-, m₂, hcollected, rfl⟩ := of_withLock hlocked
  have hbefore : Cleans base kept spared m { m with held := .heap :: m.held } :=
    .work rfl (.inl rfl) rfl fun _ => .inl
  have hcollect : Cleans base kept spared { m with held := .heap :: m.held } m₂ :=
    .collect ht hroots hkept hcollected
  have hafter : Cleans base kept spared m₂ { m₂ with held := m₂.held.erase .heap } :=
    .work rfl (.inl rfl) rfl fun _ => .inl
  refine ⟨.tail (.tail (.single hbefore) hcollect) hafter, ?_⟩
  obtain ⟨_, _, _, m₃, -, hlocked', hbeside, -⟩ | ⟨_, _, _, -, herror, -⟩ :=
    (poised_of_collectLocked hcollected).collectLocked_cases
  · cases hcollected.symm.trans hlocked'
    exact hbeside.running
  · cases hcollected.symm.trans herror

/-- A cleanup that collects. -/
def collectingCleanup : Op γ (Outcome Value) := do
  let _ ← Machine.collect
  return .ok .nil

/-- A protected body that does nothing but start an exit comes back with it. -/
theorem exit_protected (tag : Value) (target : Nat) (values : List Value)
    (hroom : ¬m.running.control.frameLimit ≤ m.running.control.frames.size)
    (htarget : (m.running.control.pushed .protecting).findCatch? tag = some target)
    (hpending : m.running.control.pending = none) :
    ∃ m₁, (m.after .enterProtect).after (.startExit tag values) = m₁ ∧
      enter .protecting m = .ok (.ok m.running.control.scope) (m.after .enterProtect) ∧
      exitTo (α := Value) tag values (m.after .enterProtect) = .ok (.error (.exit target)) m₁ ∧
      OnTop m₁.running.control m.running.control.scope .protecting m.running.control.frames ∧
      m₁.running.control.pending = some ⟨target, values⟩ ∧ m₁.heap = m.heap ∧ m₁.roots = m.roots := by
  have henter : enter .protecting m = .ok (.ok m.running.control.scope)
      (m.withControl (m.running.control.pushed .protecting)) := enter_pushed hroom
  have hbegun : m.after .enterProtect = m.withControl (m.running.control.pushed .protecting) := by
    rw [after, henter]
    rfl
  obtain ⟨log, hstarted⟩ := startExit_some (m := m.withControl (m.running.control.pushed .protecting))
    values htarget hpending
  rw [hbegun, after, hstarted]
  exact ⟨_, rfl, henter, bind_of_ok hstarted, ⟨rfl, fun symbol index previous h => by cases h⟩, rfl,
    rfl, rfl⟩

/-- The vector that an exit delivers is there after a collection by a cleanup on its way. -/
theorem Secure.cleanup_delivers_exit : ∃ m' : Machine Unit,
    unwindProtect (exitTo .t [Value.ofAddress 0x7f0000000000]) collectingCleanup
      (vectorMachine.after (.enterCatch .t)) = .ok (.error (.exit 1)) m' ∧
    m'.heap.collections = 1 ∧
    m'.running.control.pending = some ⟨1, [Value.ofAddress 0x7f0000000000]⟩ ∧
    m'.heap.isLive (Value.ofAddress 0x7f0000000000) = true := by
  obtain ⟨hreach, hw⟩ := reachable_vectorMachine
  have htag : vectorMachine.heap.space.Accepts .t := fun href => by cases href
  have hcatch := hreach.step (.act (.enterCatch .t) (List.forall_mem_singleton.mpr htag))
  have hprotect := hcatch.step (.act .enterProtect (List.forall_mem_nil _))
  have hexit := hprotect.step (.act (.startExit .t [Value.ofAddress 0x7f0000000000])
    (List.forall_mem_cons.mpr ⟨htag, List.forall_mem_singleton.mpr accepts_vectorMachine⟩))
  have hsame : (vectorMachine.after (.enterCatch .t)).heap = vectorMachine.heap ∧
      (vectorMachine.after (.enterCatch .t)).roots.locations = [] := ⟨rfl, rfl⟩
  generalize hm : vectorMachine.after (.enterCatch .t) = m at *
  obtain ⟨m₁, hended, henter, hbody, htop, hpending, hheap, hroots⟩ :=
    exit_protected (m := m) .t 1 [Value.ofAddress 0x7f0000000000] (by rw [← hm]; decide +kernel)
      (by rw [← hm]; decide +kernel) (by rw [← hm]; rfl)
  rw [hended] at hexit
  generalize hm₂ : m₁.withControl (cleaning m₁.running.control m.running.control.frames) = m₂
  have htraceable : m₂.heap.space.Traceable := by
    rw [← hm₂]
    exact (hheap.trans hsame.1) ▸ hw.traceable
  have hlocations : m₂.roots.locations = [] := by
    rw [← hm₂]
    exact (congrArg (·.locations) hroots).trans hsame.2
  have hcollected : returns (fun _ m' => m'.heap.collections == 1) (Machine.collect m₂) = true := by
    rw [← hm₂, ← hended, ← hm]
    decide +kernel
  have hquiet : returns (fun _ m' => m'.heap.pending.isEmpty) (withLock .heap collectLocked m₂)
      = true := by
    rw [← hm₂, ← hended, ← hm]
    decide +kernel
  obtain ⟨stats, m₃, hrun, hcount⟩ := exists_of_returns hcollected
  have hcleanup : collectingCleanup m₂ = .ok (.ok .nil) m₃ := by
    rw [collectingCleanup, bind_of_ok hrun]
    rfl
  obtain ⟨hsteps, hrunning⟩ := cleans_collect htraceable (by simp [hlocations])
    (List.forall_mem_nil _) (fun m' hlocked => by
      rw [hlocked] at hquiet
      exact List.isEmpty_iff.mp hquiet) hrun
  subst hm₂
  obtain ⟨m', hprotected, hheap', hdelivers⟩ := hexit.secure.cleanup_delivers
    (List.forall_mem_nil _) henter hbody htop hcleanup hsteps (by rw [hrunning]; rfl)
  refine ⟨m', hprotected, ?_, hdelivers.pending.trans hpending, hdelivers.live _ ?_ (by decide)⟩
  · rw [hheap']
    exact beq_iff_eq.mp hcount
  · rw [hpending]
    exact List.mem_cons_self

/-- The value of a body goes away if nothing else refers to it and the cleanup collects. -/
theorem unwindProtect_reclaimed : ∃ (v : Value) (m' : Machine Unit),
    vectorMachine.heap.isLive v = true ∧
    unwindProtect (return .ok v) collectingCleanup vectorMachine = .ok (.ok v) m' ∧
    v.isHeapRef = true ∧ m'.heap.isLive v = false := by
  have hrun : returns (fun outcome m' => outcome == .ok (Value.ofAddress 0x7f0000000000) &&
      !m'.heap.isLive (Value.ofAddress 0x7f0000000000))
      (unwindProtect (return .ok (Value.ofAddress 0x7f0000000000)) collectingCleanup vectorMachine)
      = true := by
    decide +kernel
  obtain ⟨outcome, m', hreturned, hcheck⟩ := exists_of_returns hrun
  simp only [Bool.and_eq_true, beq_iff_eq, Bool.not_eq_true'] at hcheck
  obtain ⟨rfl, hdead⟩ := hcheck
  exact ⟨_, m', by decide +kernel, hreturned, by decide, hdead⟩

end Machine

end Substrate
