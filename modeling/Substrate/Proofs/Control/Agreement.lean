import Substrate.Proofs.Control.Dynamic
import Substrate.Proofs.Control.Symbols
import Substrate.Proofs.Machine.Roots

/-!
# Tables in step with deep stacks

Symbols have numbers of their own, so that each thread can have a table with the current values of all
symbols. `Dynamic.Run` are the runs of a machine beside the deep state that it stands for: threads enter
and leave scopes and assign to symbols, symbols are numbered, threads come and go, objects are built and
the heap is collected. `Dynamic.Agrees` is the invariant of such runs, with one lemma for each step.
-/

namespace Substrate

namespace Machine

variable {γ α : Type} {m m' : Machine γ}

/-! ## Making symbols -/

/-- Fills in the fields of a symbol that was allocated. -/
def fillSymbol (symbol name : Value) : Op γ Unit := do
  setField symbol .symbolName name
  setField symbol .symbolValue .unbound
  setField symbol .symbolFunction .unbound
  setField symbol .symbolPlist .nil
  setField symbol .symbolPackage .nil

/-- Gives a symbol the next number. -/
def numberSymbol (symbol : Value) : Op γ Unit := do
  let index ← freshBinding
  onSpace fun mode =>
    Space.setRawWord mode symbol .symbol At.symbolBindingIndex (UInt64.ofNat index)

theorem makeSymbolWith_eq (finalize : Op γ Unit) (text : String) :
    makeSymbolWith finalize text = (do
      let name ← makeStringWith finalize text
      let symbol ← allocateWith finalize .symbol (Layout.of .symbol).fixedWords
      fillSymbol symbol name
      numberSymbol symbol
      return symbol) := by
  simp only [makeSymbolWith, fillSymbol, numberSymbol, setField, bind_assoc]

theorem numberSymbol_apply {symbol : Value} {cell : Cell}
    (h : m.heap.space.SymbolAt symbol cell) :
    numberSymbol symbol m = .ok () { m with
      nextBinding := m.nextBinding + 1
      heap := { m.heap with
        space := m.heap.space.setWord symbol.address At.symbolBindingIndex
          (UInt64.ofNat m.nextBinding) } } := by
  have hset : Space.setRawWord m.mode symbol .symbol At.symbolBindingIndex
      (UInt64.ofNat m.nextBinding) m.heap.space = .ok () (m.heap.space.setWord symbol.address
        At.symbolBindingIndex (UInt64.ofNat m.nextBinding)) := by
    rw [Space.setRawWord, h.checkWord]
  have hfresh : freshBinding m = .ok m.nextBinding { m with nextBinding := m.nextBinding + 1 } := rfl
  rw [numberSymbol, bind_of_ok hfresh]
  simp only [onSpace, onHeap, Heap.onSpace, hset]

/-! ## Assignments -/

theorem setSymbolValue_own {symbol value : Value} {index : Nat}
    (hindex : m.heap.space.symbolBindingIndex m.mode symbol = .ok index)
    (hown : (m.running.control.bindingAt index).isEmpty = false) :
    setSymbolValue symbol value m
      = .ok () (m.withControl (m.running.control.setBinding index value)) := by
  rw [setSymbolValue, bind_of_ok (bindingIndex_ok hindex), bind_of_ok (control_apply _), hown]
  rfl

theorem setSymbolValue_global {symbol value : Value} {index word : Nat}
    (hindex : m.heap.space.symbolBindingIndex m.mode symbol = .ok index)
    (hown : (m.running.control.bindingAt index).isEmpty = true)
    (hfield : m.heap.space.locate m.mode symbol .symbolValue = .ok (some word)) :
    setSymbolValue symbol value m = .ok () { m with heap := { m.heap with
      space := m.heap.space.setWord symbol.address word value.bits } } := by
  rw [setSymbolValue, bind_of_ok (bindingIndex_ok hindex), bind_of_ok (control_apply _), hown]
  simp only [if_true, setField, onSpace, onHeap, Heap.onSpace, Space.fieldSet, hfield]

end Machine

namespace Dynamic

open Machine (collectLocked rootCalls)

variable {γ α : Type}

/-! ## Runs -/

/-- Runs of a machine beside the deep state that it stands for. `symbols` are those that were made and
are still in use.

There are fewer than 2 ^ 64 symbols: what a table can have an entry for is less than that. -/
inductive Run : Machine γ → List Value → State → Prop where
  | start {mode : Mode} {options : Options} {client : γ} {m : Machine γ}
      (hrun : Machine.start mode options client = .ok m) (globals : Value → Value) :
      Run m [] ⟨globals, fun _ => .new options.frameLimit⟩
  /-- An act of the running thread. -/
  | act {m : Machine γ} {symbols : List Value} {d : State} (h : Run m symbols d) (act : Act)
      (hproper : Proper symbols act)
      (hok : ∀ symbol value, act = .enterBinding symbol value →
        ∃ entered m', Machine.enterBinding symbol value m = .ok entered m') :
      Run (m.after act) symbols (d.act m.running.id act)
  /-- A table cannot have an entry for every word. -/
  | unbindable {m m' : Machine γ} {symbols : List Value} {d : State} {symbol value : Value}
      {fault : Fault} (h : Run m symbols d) (hsymbol : symbol ∈ symbols)
      (hrun : Machine.enterBinding symbol value m = .error fault m') : Run m' symbols d
  /-- The last part of making a symbol. -/
  | number {m m' : Machine γ} {symbols : List Value} {d : State} {symbol : Value} {cell : Cell}
      (h : Run m symbols d) (hsymbol : m.heap.space.SymbolAt symbol cell) (hnew : symbol ∉ symbols)
      (hcount : m.nextBinding + 1 < wordLimit) (hrun : Machine.numberSymbol symbol m = .ok () m') :
      Run m' (symbol :: symbols)
        { d with globals := Function.update d.globals symbol ⟨cell.word 1⟩ }
  /-- Symbols that are not bound go out of use. -/
  | forget {m : Machine γ} {symbols symbols' : List Value} {d : State} (h : Run m symbols d)
      (hkept : ∀ symbol ∈ symbols', symbol ∈ symbols)
      (hbound : ∀ thread ∈ m.threads, ∀ symbol ∈ boundSymbols (d.threads thread.id).scopes,
        symbol ∈ symbols') : Run m symbols' d
  | collect {m m' : Machine γ} {symbols : List Value} {d : State} {stats : Stats}
      (h : Run m symbols d) (ht : m.heap.space.Traceable)
      (hcalls : ∀ call ∈ rootCalls m, call.Permitted m.heap.space)
      (hkept : ∀ symbol ∈ symbols, m'.heap.space.Accepts symbol)
      (hrun : collectLocked m = .ok stats m') : Run m' symbols d
  | attach {m m' : Machine γ} {symbols : List Value} {d : State} (h : Run m symbols d)
      (hrun : Machine.attach m = .ok () m') : Run m' symbols
        { d with threads := Function.update d.threads m.nextThread (.new m.options.frameLimit) }
  | detach {m m' : Machine γ} {symbols : List Value} {d : State} (h : Run m symbols d)
      (hrun : Machine.detach m = .ok () m') : Run m' symbols d
  | switch {m m' : Machine γ} {symbols : List Value} {d : State} (h : Run m symbols d)
      (hthreads : m'.threads.Perm m.threads)
      (hrest : m' = { m with running := m'.running, waiting := m'.waiting }) : Run m' symbols d
  /-- Whatever goes on while something is built, as long as it leaves the symbols as they are. -/
  | keep {m m' : Machine γ} {symbols : List Value} {d : State} (h : Run m symbols d)
      (hrested : m'.heap.Rested) (hmode : m'.heap.mode = m'.mode)
      (hthreads : m'.threads.map (fun thread => (thread.id, thread.control))
        = m.threads.map fun thread => (thread.id, thread.control))
      (hnext : m'.nextThread = m.nextThread) (hcount : m.nextBinding ≤ m'.nextBinding)
      (hkept : ∀ symbol ∈ symbols, ∀ cell, m.heap.space.SymbolAt symbol cell →
        ∃ cell', m'.heap.space.SymbolAt symbol cell' ∧ cell.Similar cell') : Run m' symbols d
  /-- Anything else. It may change global values, but not the numbers of symbols. -/
  | work {m m' : Machine γ} {symbols : List Value} {d : State} {globals : Value → Value}
      (h : Run m symbols d) (hmode : m'.mode = m.mode)
      (hheap : m'.heap = m.heap ∨ Heap.Work m.heap m'.heap)
      (hthreads : m'.threads.map (fun thread => (thread.id, thread.control))
        = m.threads.map fun thread => (thread.id, thread.control))
      (hnext : m'.nextThread = m.nextThread) (hcount : m.nextBinding ≤ m'.nextBinding)
      (hnumbers : ∀ symbol ∈ symbols, m'.heap.space.word symbol.address At.symbolBindingIndex
        = m.heap.space.word symbol.address At.symbolBindingIndex)
      (hglobals : ∀ symbol ∈ symbols, globals symbol = ⟨m'.heap.space.word symbol.address 1⟩) :
      Run m' symbols { d with globals }

/-! ## Agreement -/

/-- The machine stands for the deep state: symbols are told apart by their numbers, and the control stack
of every thread mirrors its deep stack. -/
structure Agrees (key : Value → Nat) (m : Machine γ) (symbols : List Value) (d : State) : Prop where
  heap : m.heap.Rested
  mode : m.heap.mode = m.mode
  symbol : ∀ symbol ∈ symbols, ∃ cell, m.heap.space.SymbolAt symbol cell ∧
    (cell.word At.symbolBindingIndex).toNat = key symbol ∧ ⟨cell.word 1⟩ = d.globals symbol
  fresh : ∀ symbol ∈ symbols, key symbol < m.nextBinding
  word : ∀ symbol ∈ symbols, key symbol + 1 < wordLimit
  distinct : ∀ a ∈ symbols, ∀ b ∈ symbols, key a = key b → a = b
  threads : ∀ thread ∈ m.threads, Mirrors symbols key thread.control (d.threads thread.id)
  ids : (m.threads.map (·.id)).Nodup
  next : ∀ thread ∈ m.threads, thread.id < m.nextThread

namespace Agrees

variable {key : Value → Nat} {m m' : Machine γ} {symbols : List Value} {d : State}
  {symbol value : Value} {thread : Thread}

theorem index_eq (h : Agrees key m symbols d) (hsymbol : symbol ∈ symbols) :
    m.heap.space.symbolBindingIndex m.mode symbol = .ok (key symbol) := by
  obtain ⟨cell, hcell, hkey, -⟩ := h.symbol symbol hsymbol
  rw [hcell.symbolBindingIndex, hkey]

theorem global_eq (h : Agrees key m symbols d) (hsymbol : symbol ∈ symbols) :
    m.heap.space.fieldGet m.mode symbol .symbolValue = .ok (d.globals symbol) := by
  obtain ⟨cell, hcell, -, hglobal⟩ := h.symbol symbol hsymbol
  rw [hcell.fieldGet, hglobal]

/-- What a thread finds for a symbol is what it is bound to. -/
theorem symbolValue_eq (h : Agrees key m symbols d) (hthread : thread ∈ m.threads)
    (hsymbol : symbol ∈ symbols) :
    Machine.symbolValue symbol { m with running := thread }
      = .ok (d.value thread.id symbol) { m with running := thread } := by
  have hlookup := (h.threads thread hthread).lookup_eq h.distinct hsymbol
  have hindex : Machine.bindingIndex symbol { m with running := thread }
      = .ok (key symbol) { m with running := thread } := Machine.bindingIndex_ok (h.index_eq hsymbol)
  rw [Machine.symbolValue, Machine.bind_of_ok hindex, Machine.bind_of_ok (Machine.control_apply _),
    State.value, State.innermost, hlookup]
  split
  · have hview : Machine.view (fun mode space => space.fieldGet mode symbol .symbolValue)
        { m with running := thread } = .ok (d.globals symbol) { m with running := thread } := by
      rw [Machine.view]
      simp only [h.global_eq hsymbol]
      rfl
    exact hview
  · rfl

theorem isBound_eq (h : Agrees key m symbols d) (hthread : thread ∈ m.threads)
    (hsymbol : symbol ∈ symbols) :
    Machine.isBound symbol { m with running := thread }
      = .ok (d.value thread.id symbol != .unbound) { m with running := thread } := by
  rw [Machine.isBound, Machine.bind_of_ok (h.symbolValue_eq hthread hsymbol)]
  rfl

/-! ### Acts -/

theorem running_mem (m : Machine γ) : m.running ∈ m.threads :=
  List.mem_append_right _ List.mem_cons_self

/-- Threads are told apart by their numbers. -/
theorem waiting_ne (h : Agrees key m symbols d) (hthread : thread ∈ m.waiting) :
    thread.id ≠ m.running.id := by
  have hids := h.ids
  rw [Machine.threads, List.map_append, List.nodup_append] at hids
  refine hids.2.2 thread.id ?_ m.running.id List.mem_cons_self
  exact List.mem_map_of_mem (List.mem_reverse.mpr hthread)

/-- The running thread gets another control stack. -/
theorem turned {c : ControlStack} {env : Environment} (h : Agrees key m symbols d)
    (hturned : Machine.Turned m c m') (hc : Mirrors symbols key c env) :
    Agrees key m' symbols { d with threads := Function.update d.threads m.running.id env } := by
  obtain ⟨log, rfl⟩ := hturned
  refine ⟨h.heap, h.mode, h.symbol, h.fresh, h.word, h.distinct, fun thread hthread => ?_, ?_,
    fun thread hthread => ?_⟩
  · rcases List.mem_append.mp hthread with hwaiting | hrunning
    · have hne := h.waiting_ne (List.mem_reverse.mp hwaiting)
      simp only [Function.update_of_ne hne]
      exact h.threads thread (List.mem_append_left _ hwaiting)
    · obtain rfl := List.mem_singleton.mp hrunning
      change Mirrors symbols key c (Function.update d.threads m.running.id env m.running.id)
      rwa [Function.update_self]
  · have hids := h.ids
    rw [Machine.threads, List.map_append] at hids ⊢
    exact hids
  · rcases List.mem_append.mp hthread with hwaiting | hrunning
    · exact h.next thread (List.mem_append_left _ hwaiting)
    · obtain rfl := List.mem_singleton.mp hrunning
      exact h.next m.running (running_mem m)

/-- The threads stay as they are, and so do the numbers of symbols. -/
theorem change {globals : Value → Value} (h : Agrees key m symbols d) (hheap : m'.heap.Rested)
    (hmode : m'.heap.mode = m'.mode)
    (hsymbol : ∀ symbol ∈ symbols, ∃ cell, m'.heap.space.SymbolAt symbol cell ∧
      (cell.word At.symbolBindingIndex).toNat = key symbol ∧ ⟨cell.word 1⟩ = globals symbol)
    (hthreads : m'.threads.map (fun thread => (thread.id, thread.control))
      = m.threads.map fun thread => (thread.id, thread.control))
    (hnext : m'.nextThread = m.nextThread) (hcount : m.nextBinding ≤ m'.nextBinding) :
    Agrees key m' symbols { d with globals } := by
  have hold : ∀ thread ∈ m'.threads, ∃ old ∈ m.threads,
      old.id = thread.id ∧ old.control = thread.control := by
    intro thread hthread
    have hmem := List.mem_map_of_mem (f := fun thread : Thread => (thread.id, thread.control)) hthread
    rw [hthreads] at hmem
    obtain ⟨old, hmem, heq⟩ := List.mem_map.mp hmem
    exact ⟨old, hmem, Prod.mk.inj heq⟩
  refine ⟨hheap, hmode, hsymbol, fun symbol hs => Nat.lt_of_lt_of_le (h.fresh symbol hs) hcount,
    h.word, h.distinct, fun thread hthread => ?_, ?_, fun thread hthread => ?_⟩
  · obtain ⟨old, hmem, hid, hcontrol⟩ := hold thread hthread
    rw [← hid, ← hcontrol]
    exact h.threads old hmem
  · have hids := congrArg (List.map Prod.fst) hthreads
    simp only [List.map_map, Function.comp_def] at hids
    rw [hids]
    exact h.ids
  · obtain ⟨old, hmem, hid, -⟩ := hold thread hthread
    rw [← hid, hnext]
    exact h.next old hmem

theorem enterBinding (h : Agrees key m symbols d) (hsymbol : symbol ∈ symbols)
    (hvalue : value ≠ .empty) {entered : Outcome ControlStack.Scope}
    (hrun : Machine.enterBinding symbol value m = .ok entered m') :
    Agrees key m' symbols (d.act m.running.id (.enterBinding symbol value)) := by
  have hmirrors := h.threads m.running (running_mem m)
  obtain ⟨hfull, hrefused⟩ | ⟨hroom, hbound⟩ | ⟨_, _, _, herror, -⟩ :=
    Machine.enterBinding_of_index (h.index_eq hsymbol) value
  · cases hrun.symm.trans hrefused
    have hagrees := h.turned (Machine.turned_withControl m _) (hmirrors.reserve (key symbol))
    rw [State.act_refused (hmirrors.full_iff.mpr hfull)]
    rwa [Function.update_eq_self] at hagrees
  · cases hrun.symm.trans hbound
    rw [@State.act_eq d m.running.id (.enterBinding symbol value) nofun]
    exact h.turned (Machine.turned_withControl m _) (hmirrors.bound hsymbol hvalue hroom)
  · cases hrun.symm.trans herror

theorem innermost_eq (h : Agrees key m symbols d) (hsymbol : symbol ∈ symbols) :
    d.innermost m.running.id symbol = none ↔
      (m.running.control.bindingAt (key symbol)).isEmpty = true := by
  rw [State.innermost, (h.threads m.running (running_mem m)).lookup_eq h.distinct hsymbol]
  split <;> simp_all

theorem setSymbolValue (h : Agrees key m symbols d) (hsymbol : symbol ∈ symbols)
    (hvalue : value ≠ .empty) : ∃ m', Machine.setSymbolValue symbol value m = .ok () m' ∧
      Agrees key m' symbols (d.act m.running.id (.setSymbolValue symbol value)) := by
  have hinnermost := h.innermost_eq hsymbol
  cases hown : (m.running.control.bindingAt (key symbol)).isEmpty with
  | false =>
    rw [hown] at hinnermost
    refine ⟨_, Machine.setSymbolValue_own (h.index_eq hsymbol) hown, ?_⟩
    rw [State.act_assigned_own (by simp [hinnermost])]
    exact h.turned (Machine.turned_withControl m _)
      ((h.threads m.running (running_mem m)).setBinding h.distinct hsymbol hvalue hown)
  | true =>
    obtain ⟨written, hwritten, -⟩ := h.symbol symbol hsymbol
    refine ⟨_, Machine.setSymbolValue_global (h.index_eq hsymbol) hown (hwritten.locate m.mode), ?_⟩
    rw [State.act_assigned_global (hinnermost.mpr hown)]
    refine h.change (h.heap.write hwritten.object 1 value.bits).rested h.mode (fun other hother => ?_)
      rfl rfl (Nat.le_refl _)
    obtain ⟨cell, hcell, hkey, hglobal⟩ := h.symbol other hother
    refine ⟨_, hcell.setWord h.heap.valid hwritten.object 1 value.bits, ?_⟩
    by_cases heq : other = symbol
    · subst heq
      rw [if_pos rfl, Cell.word_setWord, Cell.word_setWord, if_neg (by decide), if_pos rfl,
        Function.update_self]
      exact ⟨hkey, rfl⟩
    · rw [if_neg fun haddress => heq (Value.eq_of_address haddress), Function.update_of_ne heq]
      exact ⟨hkey, hglobal⟩

/-- Every act does to the machine what it does to the deep state. -/
theorem act (h : Agrees key m symbols d) {act : Act} (hproper : Proper symbols act)
    (hok : ∀ symbol value, act = .enterBinding symbol value →
      ∃ entered m', Machine.enterBinding symbol value m = .ok entered m') :
    Agrees key (m.after act) symbols (d.act m.running.id act) := by
  by_cases hbinding : ∃ symbol value, act = .enterBinding symbol value
  · obtain ⟨symbol, value, rfl⟩ := hbinding
    obtain ⟨entered, m', hrun⟩ := hok symbol value rfl
    rw [Machine.after, hrun]
    exact h.enterBinding hproper.1 hproper.2 hrun
  by_cases hassignment : ∃ symbol value, act = .setSymbolValue symbol value
  · obtain ⟨symbol, value, rfl⟩ := hassignment
    obtain ⟨m', hrun, hagrees⟩ := h.setSymbolValue hproper.1 hproper.2
    rw [Machine.after, hrun]
    exact hagrees
  rw [State.act_eq fun symbol value heq => hassignment ⟨symbol, value, heq⟩]
  obtain ⟨c, hturned, hturns⟩ | ⟨symbol, value, _, _, heq, -⟩ := Machine.after_cases act m
  · refine h.turned hturned ((h.threads m.running (running_mem m)).turns h.distinct
      (fun symbol hsymbol => h.index_eq hsymbol) (fun symbol hsymbol => ?_) hproper
      (fun symbol value heq => hbinding ⟨symbol, value, heq⟩) hturns)
    obtain ⟨cell, hcell, -⟩ := h.symbol symbol hsymbol
    exact ⟨1, hcell.locate m.mode⟩
  · exact absurd ⟨symbol, value, heq⟩ hassignment

/-- A symbol that the table cannot have an entry for is not bound. -/
theorem unbindable (h : Agrees key m symbols d) (hsymbol : symbol ∈ symbols) {fault : Fault}
    (hrun : Machine.enterBinding symbol value m = .error fault m') : Agrees key m' symbols d := by
  obtain ⟨-, hok⟩ | ⟨-, hok⟩ | ⟨_, _, c, herror, hturned, hcontrol⟩ :=
    Machine.enterBinding_of_index (h.index_eq hsymbol) value
  · cases hrun.symm.trans hok
  · cases hrun.symm.trans hok
  · cases hrun.symm.trans herror
    obtain ⟨rfl, -⟩ | ⟨-, hlarge⟩ := hcontrol
    · have hagrees := h.turned hturned (h.threads m.running (running_mem m))
      rwa [Function.update_eq_self] at hagrees
    · exact absurd (h.word symbol hsymbol) (Nat.not_lt.mpr hlarge)

/-! ### Symbols -/

theorem number (h : Agrees key m symbols d) {cell : Cell} (hcell : m.heap.space.SymbolAt symbol cell)
    (hnew : symbol ∉ symbols) (hcount : m.nextBinding + 1 < wordLimit)
    (hrun : Machine.numberSymbol symbol m = .ok () m') :
    Agrees (Function.update key symbol m.nextBinding) m' (symbol :: symbols)
      { d with globals := Function.update d.globals symbol ⟨cell.word 1⟩ } := by
  cases hrun.symm.trans (Machine.numberSymbol_apply hcell)
  have hword : m.nextBinding < UInt64.size := Nat.lt_of_succ_lt hcount
  have hold : ∀ other ∈ symbols, other ≠ symbol := fun other hother heq => hnew (heq ▸ hother)
  have hkey : ∀ other ∈ symbols, Function.update key symbol m.nextBinding other = key other :=
    fun other hother => Function.update_of_ne (hold other hother) ..
  have hself : Function.update key symbol m.nextBinding symbol = m.nextBinding :=
    Function.update_self ..
  refine ⟨(h.heap.write hcell.object _ _).rested, h.mode, fun other hother => ?_,
    fun other hother => ?_, fun other hother => ?_, fun a ha b hb heq => ?_,
    fun thread hthread => ?_, h.ids, h.next⟩
  · rcases List.mem_cons.mp hother with rfl | hother
    · refine ⟨_, hcell.setWord h.heap.valid hcell.object _ _, ?_⟩
      rw [if_pos rfl, Cell.word_setWord, Cell.word_setWord, if_pos rfl, if_neg (by decide), hself]
      have hglobal : Function.update d.globals other ⟨cell.word 1⟩ other = ⟨cell.word 1⟩ :=
        Function.update_self ..
      exact ⟨UInt64.toNat_ofNat_of_lt' hword, hglobal.symm⟩
    · obtain ⟨cell', hcell', hkey', hglobal⟩ := h.symbol other hother
      refine ⟨_, hcell'.setWord h.heap.valid hcell.object _ _, ?_⟩
      rw [if_neg fun haddress => hold other hother (Value.eq_of_address haddress), hkey other hother]
      exact ⟨hkey', hglobal.trans (Function.update_of_ne (hold other hother) ..).symm⟩
  · rcases List.mem_cons.mp hother with rfl | hother
    · rw [hself]
      exact Nat.lt_succ_self _
    · rw [hkey other hother]
      exact Nat.lt_succ_of_lt (h.fresh other hother)
  · rcases List.mem_cons.mp hother with rfl | hother
    · rwa [hself]
    · rw [hkey other hother]
      exact h.word other hother
  · rcases List.mem_cons.mp ha with rfl | hold_a <;> rcases List.mem_cons.mp hb with rfl | hold_b
    · rfl
    · rw [hself, hkey b hold_b] at heq
      exact absurd heq (Nat.ne_of_gt (h.fresh b hold_b))
    · rw [hself, hkey a hold_a] at heq
      exact absurd heq (Nat.ne_of_lt (h.fresh a hold_a))
    · rw [hkey a hold_a, hkey b hold_b] at heq
      exact h.distinct a hold_a b hold_b heq
  · exact (h.threads thread hthread).rekey fun other _ hother =>
      ⟨List.mem_cons_of_mem _ hother, hkey other hother⟩

theorem forget (h : Agrees key m symbols d) {symbols' : List Value}
    (hkept : ∀ symbol ∈ symbols', symbol ∈ symbols)
    (hbound : ∀ thread ∈ m.threads, ∀ symbol ∈ boundSymbols (d.threads thread.id).scopes,
      symbol ∈ symbols') : Agrees key m symbols' d :=
  ⟨h.heap, h.mode, fun symbol hs => h.symbol symbol (hkept symbol hs),
    fun symbol hs => h.fresh symbol (hkept symbol hs),
    fun symbol hs => h.word symbol (hkept symbol hs),
    fun a ha b hb => h.distinct a (hkept a ha) b (hkept b hb),
    fun thread hthread => (h.threads thread hthread).rekey fun symbol hs _ =>
      ⟨hbound thread hthread symbol hs, rfl⟩, h.ids, h.next⟩

/-! ### Heap and threads -/

theorem collect (h : Agrees key m symbols d) (ht : m.heap.space.Traceable)
    (hcalls : ∀ call ∈ rootCalls m, call.Permitted m.heap.space)
    (hkept : ∀ symbol ∈ symbols, m'.heap.space.Accepts symbol) {stats : Stats}
    (hrun : collectLocked m = .ok stats m') : Agrees key m' symbols d := by
  obtain ⟨hsurvives, hbeside, hmode⟩ :=
    Machine.survives_of_collectLocked h.heap h.mode ht hcalls hrun
  refine h.change hsurvives.wellFormed.rested ?_ (fun symbol hsymbol => ?_) ?_ hbeside.nextThread
    (Nat.le_of_eq hbeside.nextBinding.symm)
  · rw [hmode, h.mode, hbeside.mode]
  · obtain ⟨cell, hcell, hkey, hglobal⟩ := h.symbol symbol hsymbol
    obtain ⟨cell', hcell'⟩ := Option.isSome_iff_exists.mp (hkept symbol hsymbol hcell.ref)
    obtain ⟨old, hold, hsim⟩ := hsurvives.contents _ cell' hcell'
    cases hcell.object.symm.trans hold
    refine ⟨cell', ⟨hcell.ref, hcell', hsim.kind.trans hcell.kind, hsim.words ▸ hcell.words⟩, ?_, ?_⟩
    · rw [hsim.word, hkey]
    · rw [hsim.word, hglobal]
  · rw [Machine.threads, Machine.threads, hbeside.running, hbeside.waiting]

theorem attach (h : Agrees key m symbols d) (hrun : Machine.attach m = .ok () m') :
    Agrees key m' symbols
      { d with threads := Function.update d.threads m.nextThread (.new m.options.frameLimit) } := by
  cases hrun
  have hnew : ∀ thread ∈ m.threads, thread.id ≠ m.nextThread := fun thread hthread =>
    Nat.ne_of_lt (h.next thread hthread)
  have hold : ∀ thread ∈ (m.running :: m.waiting).reverse, thread ∈ m.threads := fun thread hthread => by
    rwa [List.reverse_cons] at hthread
  refine ⟨h.heap, h.mode, h.symbol, h.fresh, h.word, h.distinct, fun thread hthread => ?_, ?_,
    fun thread hthread => ?_⟩
  · rcases List.mem_append.mp hthread with hwaiting | hrunning
    · have hmem := hold thread hwaiting
      simp only [Function.update_of_ne (hnew thread hmem)]
      exact h.threads thread hmem
    · obtain rfl := List.mem_singleton.mp hrunning
      simp only [Function.update_self]
      exact mirrors_new symbols key _ _
  · change (((m.running :: m.waiting).reverse ++ [_]).map Thread.id).Nodup
    rw [List.reverse_cons, List.map_append]
    refine List.Nodup.append h.ids (List.nodup_singleton _) ?_
    rw [List.map_singleton, List.disjoint_singleton]
    intro hmem
    obtain ⟨thread, hthread, heq⟩ := List.mem_map.mp hmem
    exact hnew thread hthread heq
  · rcases List.mem_append.mp hthread with hwaiting | hrunning
    · exact Nat.lt_succ_of_lt (h.next thread (hold thread hwaiting))
    · obtain rfl := List.mem_singleton.mp hrunning
      exact Nat.lt_succ_self _

/-- Other threads run and wait. -/
theorem rearrange (h : Agrees key m symbols d)
    (hrest : m' = { m with running := m'.running, waiting := m'.waiting, log := m'.log })
    (hthreads : ∀ thread ∈ m'.threads, thread ∈ m.threads) (hids : (m'.threads.map (·.id)).Nodup) :
    Agrees key m' symbols d := by
  have hheap : m'.heap = m.heap := by rw [hrest]
  have hmode : m'.mode = m.mode := by rw [hrest]
  have hbinding : m'.nextBinding = m.nextBinding := by rw [hrest]
  have hthread : m'.nextThread = m.nextThread := by rw [hrest]
  exact ⟨hheap ▸ h.heap, by rw [hheap, hmode, h.mode], hheap ▸ h.symbol, hbinding ▸ h.fresh, h.word,
    h.distinct, fun thread hmem => h.threads thread (hthreads thread hmem), hids,
    fun thread hmem => hthread ▸ h.next thread (hthreads thread hmem)⟩

theorem detach (h : Agrees key m symbols d) (hrun : Machine.detach m = .ok () m') :
    Agrees key m' symbols d := by
  obtain ⟨hthreads, hrest⟩ := Machine.detach_threads hrun
  exact h.rearrange hrest (fun thread hthread => hthreads.subset hthread)
    (h.ids.sublist (hthreads.map _))

theorem keep (h : Agrees key m symbols d) (hrested : m'.heap.Rested)
    (hmode : m'.heap.mode = m'.mode)
    (hthreads : m'.threads.map (fun thread => (thread.id, thread.control))
      = m.threads.map fun thread => (thread.id, thread.control))
    (hnext : m'.nextThread = m.nextThread) (hcount : m.nextBinding ≤ m'.nextBinding)
    (hkept : ∀ symbol ∈ symbols, ∀ cell, m.heap.space.SymbolAt symbol cell →
      ∃ cell', m'.heap.space.SymbolAt symbol cell' ∧ cell.Similar cell') :
    Agrees key m' symbols d := by
  refine h.change hrested hmode (fun symbol hsymbol => ?_) hthreads hnext hcount
  obtain ⟨cell, hcell, hkey, hglobal⟩ := h.symbol symbol hsymbol
  obtain ⟨cell', hcell', hsim⟩ := hkept symbol hsymbol cell hcell
  exact ⟨cell', hcell', by rw [hsim.word, hkey], by rw [hsim.word, hglobal]⟩

theorem work (h : Agrees key m symbols d) {globals : Value → Value} (hmode : m'.mode = m.mode)
    (hheap : m'.heap = m.heap ∨ Heap.Work m.heap m'.heap)
    (hthreads : m'.threads.map (fun thread => (thread.id, thread.control))
      = m.threads.map fun thread => (thread.id, thread.control))
    (hnext : m'.nextThread = m.nextThread) (hcount : m.nextBinding ≤ m'.nextBinding)
    (hnumbers : ∀ symbol ∈ symbols, m'.heap.space.word symbol.address At.symbolBindingIndex
      = m.heap.space.word symbol.address At.symbolBindingIndex)
    (hglobals : ∀ symbol ∈ symbols, globals symbol = ⟨m'.heap.space.word symbol.address 1⟩) :
    Agrees key m' symbols { d with globals } := by
  have hkeeps : m.heap.Keeps m'.heap := by
    obtain heq | hwork := hheap
    · rw [heq]
      exact h.heap.keeps
    · exact h.heap.work hwork
  refine h.change hkeeps.rested (hkeeps.mode.trans (h.mode.trans hmode.symm))
    (fun symbol hsymbol => ?_) hthreads hnext hcount
  obtain ⟨cell, hcell, hkey, -⟩ := h.symbol symbol hsymbol
  obtain ⟨cell', hcell'⟩ := hcell.retained hkeeps.objects
  have hnumber := hnumbers symbol hsymbol
  rw [Space.word_of_object? hcell'.object, Space.word_of_object? hcell.object] at hnumber
  refine ⟨cell', hcell', by rw [hnumber, hkey], ?_⟩
  rw [hglobals symbol hsymbol, Space.word_of_object? hcell'.object]

end Agrees

/-- Every run keeps the tables in step with the deep stacks. -/
theorem Run.agrees {m : Machine γ} {symbols : List Value} {d : State} (h : Run m symbols d) :
    ∃ key, Agrees key m symbols d := by
  induction h with
  | @start mode options client m hrun globals =>
    obtain ⟨hmode, hheap, -, hnext, hthreads⟩ := Machine.start_ok hrun
    refine ⟨fun _ => 0, ?_, ?_, List.forall_mem_nil _, List.forall_mem_nil _, List.forall_mem_nil _,
      List.forall_mem_nil _, fun thread hthread => ?_, ?_, fun thread hthread => ?_⟩
    · rw [hheap]
      exact (Heap.wellFormed_new mode options.heap).rested
    · rw [hheap, hmode]
      rfl
    · rw [hthreads] at hthread
      obtain rfl := List.mem_singleton.mp hthread
      exact mirrors_new [] _ _ _
    · rw [hthreads]
      exact List.nodup_singleton _
    · rw [hthreads] at hthread
      obtain rfl := List.mem_singleton.mp hthread
      rw [hnext]
      exact Nat.lt_succ_self 1
  | act _ act hproper hok ih =>
    obtain ⟨key, ih⟩ := ih
    exact ⟨key, ih.act hproper hok⟩
  | unbindable _ hsymbol hrun ih =>
    obtain ⟨key, ih⟩ := ih
    exact ⟨key, ih.unbindable hsymbol hrun⟩
  | number _ hsymbol hnew hcount hrun ih =>
    obtain ⟨key, ih⟩ := ih
    exact ⟨_, ih.number hsymbol hnew hcount hrun⟩
  | forget _ hkept hbound ih =>
    obtain ⟨key, ih⟩ := ih
    exact ⟨key, ih.forget hkept hbound⟩
  | collect _ ht hcalls hkept hrun ih =>
    obtain ⟨key, ih⟩ := ih
    exact ⟨key, ih.collect ht hcalls hkept hrun⟩
  | attach _ hrun ih =>
    obtain ⟨key, ih⟩ := ih
    exact ⟨key, ih.attach hrun⟩
  | detach _ hrun ih =>
    obtain ⟨key, ih⟩ := ih
    exact ⟨key, ih.detach hrun⟩
  | switch _ hthreads hrest ih =>
    obtain ⟨key, ih⟩ := ih
    refine ⟨key, ih.rearrange ?_ (fun thread hthread => hthreads.mem_iff.mp hthread) ?_⟩
    · exact hrest.trans (by rw [hrest])
    · exact (hthreads.map _).nodup_iff.mpr ih.ids
  | keep _ hrested hmode hthreads hnext hcount hkept ih =>
    obtain ⟨key, ih⟩ := ih
    exact ⟨key, ih.keep hrested hmode hthreads hnext hcount hkept⟩
  | work _ hmode hheap hthreads hnext hcount hnumbers hglobals ih =>
    obtain ⟨key, ih⟩ := ih
    exact ⟨key, ih.work hmode hheap hthreads hnext hcount hnumbers hglobals⟩

end Dynamic

end Substrate
