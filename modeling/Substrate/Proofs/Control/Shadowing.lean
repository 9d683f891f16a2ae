import Substrate.Proofs.Control.DeepBinding
import Substrate.Proofs.Control.Layers

/-!
# What a binding hides

While a thread binds a symbol, it finds and changes the value that it bound, and the global value stays
what it is. The binding table has no other mark for a missing entry than the empty value. So a symbol
that is bound or assigned to the empty value shows its global value again, and then it is the global
value that assignments change.

`Shadow` is what a thread sees of one symbol, whatever the values are. `Machine.Within` are the machines
that a thread gets to while a certain binding is in effect: it assigns to the symbol and binds it again,
enters and leaves other scopes, and leaves the symbol alone otherwise. `Machine.Within.sees` says that
they see what `Shadow.run` tells, and `Machine.binding_shadows` what this means for a binding as a whole.
-/

namespace Substrate

/-! ## Seeing one symbol -/

/-- What a thread sees of a symbol from a certain binding of it on: for every scope since then, the
innermost one first, the value that the scope binds the symbol to, if it does; and the global value. -/
structure Shadow where
  scopes : List (Option Value)
  global : Value
  deriving DecidableEq, Repr

namespace Shadow

/-- What a thread does that has to do with a symbol: it assigns to it or binds it again, enters a scope
that does not bind it, or leaves the innermost scope. -/
inductive Deed where
  | assign (value : Value)
  | bind (value : Value)
  | enter
  | leave
  deriving DecidableEq, Repr

/-- The value that the innermost scope binds the symbol to. -/
def own (s : Shadow) : Value := (s.scopes.findSome? id).getD .empty

/-- What the thread finds for the symbol: an empty value does not hide the global one. -/
def value (s : Shadow) : Value := if s.own.isEmpty then s.global else s.own

/-- Another value for the innermost scope that has one. -/
def replace (value : Value) : List (Option Value) → List (Option Value)
  | [] => []
  | some _ :: outer => some value :: outer
  | none :: outer => none :: replace value outer

def after (s : Shadow) : Deed → Shadow
  | .assign value =>
    if s.own.isEmpty then { s with global := value }
    else { s with scopes := replace value s.scopes }
  | .bind value => { s with scopes := some value :: s.scopes }
  | .enter => { s with scopes := none :: s.scopes }
  | .leave => { s with scopes := s.scopes.tail }

def run (s : Shadow) (deeds : List Deed) : Shadow := deeds.foldl after s

/-- The value that a deed is about is not the empty one. -/
def Deed.Proper : Deed → Prop
  | assign value | bind value => value ≠ .empty
  | enter | leave => True

/-- No scope binds the symbol to the empty value. -/
def Hiding (s : Shadow) : Prop := ∀ value, some value ∈ s.scopes → value ≠ .empty

variable {s : Shadow} {value : Value} {scopes : List (Option Value)}

@[simp] theorem run_nil (s : Shadow) : s.run [] = s := rfl

@[simp] theorem run_concat (s : Shadow) (deeds : List Deed) (deed : Deed) :
    s.run (deeds ++ [deed]) = (s.run deeds).after deed := by
  simp [run]

theorem isEmpty_iff : value.isEmpty = true ↔ value = .empty := by
  obtain ⟨bits⟩ := value
  simp [Value.isEmpty, Value.empty]

theorem value_of_own (h : s.own ≠ .empty) : s.value = s.own :=
  if_neg (mt isEmpty_iff.mp h)

theorem findSome?_replace {old : Value} (h : scopes.findSome? id = some old) :
    (replace value scopes).findSome? id = some value := by
  fun_induction replace value scopes with
  | case1 => cases h
  | case2 => rfl
  | case3 outer ih => exact ih h

theorem mem_replace {other : Value} (h : some other ∈ replace value scopes) :
    other = value ∨ some other ∈ scopes := by
  fun_induction replace value scopes with
  | case1 => cases h
  | case2 old outer =>
    obtain heq | hmem := List.mem_cons.mp h
    · exact .inl (Option.some.inj heq)
    · exact .inr (List.mem_cons_of_mem _ hmem)
  | case3 outer ih =>
    obtain heq | hmem := List.mem_cons.mp h
    · cases heq
    · exact (ih hmem).imp_right (List.mem_cons_of_mem _)

/-- A thread finds what it has just assigned. -/
theorem value_assign (hvalue : value ≠ .empty) : (s.after (.assign value)).value = value := by
  unfold after
  dsimp only
  split
  next hown => exact if_pos hown
  next hown =>
    have hfound : ∃ old, s.scopes.findSome? id = some old := by
      cases hfind : s.scopes.findSome? id with
      | none => simp [own, hfind, isEmpty_iff] at hown
      | some old => exact ⟨old, rfl⟩
    obtain ⟨old, hold⟩ := hfound
    have hnew : ({ s with scopes := replace value s.scopes } : Shadow).own = value := by
      rw [own, findSome?_replace hold, Option.getD_some]
    have hhides : ({ s with scopes := replace value s.scopes } : Shadow).own ≠ .empty := by rwa [hnew]
    rw [value_of_own hhides, hnew]

/-- Where no scope binds the symbol to the empty value, none does after a proper deed. -/
theorem Hiding.after {deed : Deed} (h : s.Hiding) (hproper : deed.Proper) :
    (s.after deed).Hiding := by
  intro other hother
  cases deed with
  | assign value =>
    rw [Shadow.after] at hother
    split at hother
    · exact h other hother
    · obtain rfl | hmem := mem_replace hother
      · exact hproper
      · exact h other hmem
  | bind value =>
    obtain heq | hmem := List.mem_cons.mp hother
    · obtain rfl := Option.some.inj heq
      exact hproper
    · exact h other hmem
  | enter =>
    obtain heq | hmem := List.mem_cons.mp hother
    · cases heq
    · exact h other hmem
  | leave => exact h other (List.mem_of_mem_tail hother)

end Shadow

/-! ## Frames and scopes -/

namespace Shadow

/-- A frame of the control stack that does not bind the symbol with this index. -/
def Foreign (index : Nat) (frame : Frame) : Prop :=
  ∀ other previous, frame.kind ≠ .binding other index previous

/-- The frames since a certain binding, the innermost one first, stand for the scopes: `current` is what
the table has for the index. Each frame of a binding gives the table back what it had before. -/
inductive Covers (index : Nat) (entry : List Frame) :
    List Frame → Value → List (Option Value) → Prop where
  | entered (current : Value) : Covers index entry entry current [some current]
  | foreign {frame : Frame} {frames : List Frame} {current : Value} {scopes : List (Option Value)}
      (hforeign : Foreign index frame) (h : Covers index entry frames current scopes) :
      Covers index entry (frame :: frames) current (none :: scopes)
  | bound {serial : Nat} {other previous current : Value} {frames : List Frame}
      {scopes : List (Option Value)} (h : Covers index entry frames previous scopes) :
      Covers index entry (⟨serial, .binding other index previous⟩ :: frames) current
        (some current :: scopes)

variable {index : Nat} {entry frames : List Frame} {current : Value} {scopes : List (Option Value)}

namespace Covers

theorem findSome?_eq (h : Covers index entry frames current scopes) :
    scopes.findSome? id = some current := by
  induction h with
  | entered | bound => rfl
  | foreign _ _ ih => exact ih

theorem assign (h : Covers index entry frames current scopes) (value : Value) :
    Covers index entry frames value (replace value scopes) := by
  induction h with
  | entered => exact .entered value
  | foreign hforeign _ ih => exact .foreign hforeign ih
  | bound hrest _ => exact .bound hrest

/-- Scopes that were entered since then can be left. -/
theorem lower {frame : Frame} (h : Covers index entry (frame :: frames) current scopes)
    (hlength : entry.length ≤ frames.length) :
    Foreign index frame ∧ Covers index entry frames current scopes.tail ∨
      ∃ other previous, frame.kind = .binding other index previous ∧
        Covers index entry frames previous scopes.tail := by
  cases h with
  | entered =>
    rw [List.length_cons] at hlength
    omega
  | foreign hforeign hrest => exact .inl ⟨hforeign, hrest⟩
  | bound hrest => exact .inr ⟨_, _, rfl, hrest⟩

end Covers

end Shadow

/-! ## Within a binding -/

namespace Machine

open Shadow (Covers Foreign Deed)

variable {γ : Type} {m m₁ m' : Machine γ} {symbol value : Value} {index : Nat} {cell : Cell}

/-- A binding is entered if it is not refused. -/
theorem of_enterBinding {scope : ControlStack.Scope}
    (hindex : m.heap.space.symbolBindingIndex m.mode symbol = .ok index)
    (hrun : enterBinding symbol value m = .ok (.ok scope) m') :
    m' = m.withControl (m.running.control.bound symbol index value) := by
  obtain ⟨-, hcase⟩ | ⟨-, hcase⟩ | ⟨_, _, _, hcase, -⟩ := enterBinding_of_index hindex value
  · cases hrun.symm.trans hcase
  · cases hrun.symm.trans hcase
    rfl
  · cases hrun.symm.trans hcase

theorem frames_bound (c : ControlStack) (symbol value : Value) (index : Nat) :
    (c.bound symbol index value).frames.toList.reverse
      = ⟨c.nextSerial, .binding symbol index (c.bindingAt index)⟩ :: c.frames.toList.reverse := by
  simp [ControlStack.bound, ControlStack.pushed, ControlStack.setBinding, ControlStack.reserve]

theorem bindingAt_bound_self (c : ControlStack) (symbol value : Value) (index : Nat) :
    (c.bound symbol index value).bindingAt index = value := by
  rw [ControlStack.bindingAt_bound, Function.update_self]

/-- The thread has gone on, and for the symbol nothing has changed: it is the symbol that it was, with the
same global value, and the table has the same value for it. -/
structure Aside (symbol : Value) (index : Nat) (m m' : Machine γ) : Prop where
  mode : m'.mode = m.mode
  valid : m'.heap.space.Valid
  symbol : ∀ cell, m.heap.space.SymbolAt symbol cell → ∃ cell', m'.heap.space.SymbolAt symbol cell' ∧
    cell'.word At.symbolBindingIndex = cell.word At.symbolBindingIndex ∧ cell'.word 1 = cell.word 1
  current : m'.running.control.bindingAt index = m.running.control.bindingAt index
  table : m.running.control.bindings.size ≤ m'.running.control.bindings.size

/-- What a thread gets to from a machine on which it has just bound the symbol, as long as this binding is
in effect, and what it has done to the symbol on the way. -/
inductive Within (symbol : Value) (index : Nat) (m : Machine γ) : List Deed → Machine γ → Prop where
  | entered : Within symbol index m [] m
  | assign {deeds : List Deed} {m₁ m₂ : Machine γ} {value : Value}
      (h : Within symbol index m deeds m₁) (hrun : setSymbolValue symbol value m₁ = .ok () m₂) :
      Within symbol index m (deeds ++ [.assign value]) m₂
  | bind {deeds : List Deed} {m₁ m₂ : Machine γ} {value : Value} {scope : ControlStack.Scope}
      (h : Within symbol index m deeds m₁)
      (hrun : enterBinding symbol value m₁ = .ok (.ok scope) m₂) :
      Within symbol index m (deeds ++ [.bind value]) m₂
  /-- Any other scope is entered, such as the binding of another symbol. -/
  | enter {deeds : List Deed} {m₁ m₂ : Machine γ} {frame : Frame}
      (h : Within symbol index m deeds m₁) (haside : Aside symbol index m₁ m₂)
      (hforeign : Foreign index frame)
      (hframes : m₂.running.control.frames = m₁.running.control.frames.push frame) :
      Within symbol index m (deeds ++ [.enter]) m₂
  /-- The innermost scope is left, in the regular way or by a fault that unwinds through it. -/
  | leave {deeds : List Deed} {m₁ : Machine γ} (h : Within symbol index m deeds m₁)
      (hinside : m.running.control.frames.size < m₁.running.control.frames.size) :
      Within symbol index m (deeds ++ [.leave]) (m₁.withControl m₁.running.control.dropTop)
  | aside {deeds : List Deed} {m₁ m₂ : Machine γ} (h : Within symbol index m deeds m₁)
      (haside : Aside symbol index m₁ m₂)
      (hframes : m₂.running.control.frames = m₁.running.control.frames) :
      Within symbol index m deeds m₂

/-- The machine shows the symbol as the shadow says, with `entry` for the frames on entry to the
binding. -/
structure Sees (symbol : Value) (index : Nat) (mode : Mode) (entry : List Frame) (m : Machine γ)
    (s : Shadow) : Prop where
  mode : m.mode = mode
  valid : m.heap.space.Valid
  symbol : ∃ cell, m.heap.space.SymbolAt symbol cell ∧
    (cell.word At.symbolBindingIndex).toNat = index ∧ ⟨cell.word 1⟩ = s.global
  covers : Covers index entry m.running.control.frames.toList.reverse
    (m.running.control.bindingAt index) s.scopes
  table : index < m.running.control.bindings.size

namespace Sees

variable {mode : Mode} {entry : List Frame} {s : Shadow}

theorem own_eq (h : Sees symbol index mode entry m s) :
    s.own = m.running.control.bindingAt index := by
  rw [Shadow.own, h.covers.findSome?_eq, Option.getD_some]

theorem index_eq (h : Sees symbol index mode entry m s) :
    m.heap.space.symbolBindingIndex m.mode symbol = .ok index := by
  obtain ⟨cell, hcell, rfl, -⟩ := h.symbol
  exact hcell.symbolBindingIndex m.mode

theorem global_eq (h : Sees symbol index mode entry m s) :
    m.heap.space.fieldGet mode symbol .symbolValue = .ok s.global := by
  obtain ⟨cell, hcell, -, hglobal⟩ := h.symbol
  rw [hcell.fieldGet, hglobal]

/-- What the thread finds for the symbol. -/
theorem symbolValue_eq (h : Sees symbol index mode entry m s) :
    symbolValue symbol m = .ok s.value m := by
  rw [symbolValue, bind_of_ok (bindingIndex_ok h.index_eq), bind_of_ok (control_apply _), Shadow.value,
    h.own_eq]
  split
  · rw [view, h.mode, h.global_eq]
    rfl
  · rfl

/-! ### Deeds -/

theorem aside (h : Sees symbol index mode entry m s) (haside : Aside symbol index m m')
    (hframes : m'.running.control.frames = m.running.control.frames) :
    Sees symbol index mode entry m' s := by
  obtain ⟨cell, hcell, hindex, hglobal⟩ := h.symbol
  obtain ⟨cell', hcell', hindex', hglobal'⟩ := haside.symbol cell hcell
  refine ⟨haside.mode.trans h.mode, haside.valid, ⟨cell', hcell', by rw [hindex', hindex],
    by rw [hglobal', hglobal]⟩, ?_, Nat.lt_of_lt_of_le h.table haside.table⟩
  rw [hframes, haside.current]
  exact h.covers

theorem enter (h : Sees symbol index mode entry m s) {frame : Frame}
    (haside : Aside symbol index m m') (hforeign : Foreign index frame)
    (hframes : m'.running.control.frames = m.running.control.frames.push frame) :
    Sees symbol index mode entry m' (s.after .enter) := by
  obtain ⟨cell, hcell, hindex, hglobal⟩ := h.symbol
  obtain ⟨cell', hcell', hindex', hglobal'⟩ := haside.symbol cell hcell
  refine ⟨haside.mode.trans h.mode, haside.valid, ⟨cell', hcell', by rw [hindex', hindex],
    by rw [hglobal', hglobal]; rfl⟩, ?_, Nat.lt_of_lt_of_le h.table haside.table⟩
  rw [hframes, haside.current, Array.toList_push, List.reverse_append, List.reverse_singleton,
    List.singleton_append]
  exact .foreign hforeign h.covers

theorem bind (h : Sees symbol index mode entry m s) {scope : ControlStack.Scope}
    (hrun : enterBinding symbol value m = .ok (.ok scope) m') :
    Sees symbol index mode entry m' (s.after (.bind value)) := by
  obtain rfl := of_enterBinding h.index_eq hrun
  refine ⟨h.mode, h.valid, h.symbol, ?_, ?_⟩
  · rw [control_withControl, frames_bound, bindingAt_bound_self]
    exact .bound h.covers
  · rw [control_withControl, ControlStack.size_bound]
    exact Nat.lt_of_lt_of_le (Nat.lt_succ_self index) (Nat.le_max_right _ _)

/-- An assignment never fails. -/
theorem assign (h : Sees symbol index mode entry m s) (value : Value) :
    ∃ m', setSymbolValue symbol value m = .ok () m' ∧
      Sees symbol index mode entry m' (s.after (.assign value)) := by
  obtain ⟨cell, hcell, hindex, hglobal⟩ := h.symbol
  rw [Shadow.after, h.own_eq]
  cases hown : (m.running.control.bindingAt index).isEmpty with
  | false =>
    refine ⟨_, setSymbolValue_own h.index_eq hown, h.mode, h.valid, ⟨cell, hcell, hindex, hglobal⟩,
      ?_, ?_⟩
    · rw [control_withControl, ControlStack.bindingAt_setBinding h.table, Function.update_self]
      exact h.covers.assign value
    · rw [control_withControl, ControlStack.setBinding, Array.size_setIfInBounds]
      exact h.table
  | true =>
    have hvalid := h.valid.setWord hcell.object 1 value.bits
    have hsymbol := hcell.setWord h.valid hcell.object 1 value.bits
    rw [if_pos rfl] at hsymbol
    refine ⟨_, setSymbolValue_global h.index_eq hown (hcell.locate m.mode), h.mode, hvalid,
      ⟨_, hsymbol, ?_, ?_⟩, h.covers, h.table⟩
    · rw [Cell.word_setWord, if_neg (by decide), hindex]
    · rw [Cell.word_setWord, if_pos rfl]
      rfl

theorem leave (h : Sees symbol index mode entry m s)
    (hinside : entry.length < m.running.control.frames.size) :
    Sees symbol index mode entry (m.withControl m.running.control.dropTop) (s.after .leave) := by
  obtain ⟨lower, frame, hframes⟩ : ∃ (lower : Array Frame) (frame : Frame),
      m.running.control.frames = lower.push frame :=
    Array.exists_push_of_size_pos (Nat.zero_lt_of_lt hinside)
  have hcovers := h.covers
  rw [hframes, Array.toList_push, List.reverse_append, List.reverse_singleton,
    List.singleton_append] at hcovers
  rw [hframes, Array.size_push] at hinside
  have hlength : entry.length ≤ lower.toList.reverse.length := by
    rw [List.length_reverse, Array.length_toList]
    exact Nat.le_of_lt_succ hinside
  have hdrop := ControlStack.dropTop_top hframes
  have hsize : ∀ kind, (({ m.running.control with frames := lower } : ControlStack).undo
      kind).bindings.size = m.running.control.bindings.size := by
    rintro (_ | _ | _)
    · rfl
    · rfl
    · exact Array.size_setIfInBounds
  have hlower : ∀ kind, (({ m.running.control with frames := lower } : ControlStack).undo
      kind).frames = lower := by
    rintro (_ | _ | _) <;> rfl
  refine ⟨h.mode, h.valid, h.symbol, ?_, ?_⟩
  · rw [control_withControl, hdrop, hlower]
    obtain ⟨hforeign, hrest⟩ | ⟨other, previous, hkind, hrest⟩ := hcovers.lower hlength
    · suffices hsame : (({ m.running.control with frames := lower } : ControlStack).undo
          frame.kind).bindingAt index = m.running.control.bindingAt index by
        rw [hsame]
        exact hrest
      cases hkind : frame.kind with
      | catching | protecting => rfl
      | binding other place previous =>
        rw [ControlStack.bindingAt_undo, if_neg]
        · rfl
        · rintro ⟨rfl, -⟩
          exact hforeign other previous hkind
    · rw [hkind, ControlStack.bindingAt_undo, if_pos ⟨rfl, h.table⟩]
      exact hrest
  · rw [control_withControl, hdrop, hsize]
    exact h.table

end Sees

namespace Within

variable {mode : Mode} {entry : List Frame} {s : Shadow} {deeds : List Deed}

/-- Whatever a thread does within a binding, it sees what the shadow tells. -/
theorem sees (h : Within symbol index m deeds m') (hs : Sees symbol index mode entry m s)
    (hentry : entry.length = m.running.control.frames.size) :
    Sees symbol index mode entry m' (s.run deeds) := by
  induction h with
  | entered => exact hs
  | assign _ hrun ih =>
    obtain ⟨m₂, hrun', hsees⟩ := ih.assign _
    cases hrun.symm.trans hrun'
    rwa [Shadow.run_concat]
  | bind _ hrun ih => exact Shadow.run_concat s _ _ ▸ ih.bind hrun
  | enter _ haside hforeign hframes ih =>
    exact Shadow.run_concat s _ _ ▸ ih.enter haside hforeign hframes
  | leave _ hinside ih => exact Shadow.run_concat s _ _ ▸ ih.leave (hentry ▸ hinside)
  | aside _ haside hframes ih => exact ih.aside haside hframes

/-- As long as nothing empty is bound or assigned, the global value stays hidden, and what it was. -/
theorem hidden (h : Within symbol index m deeds m') (hs : Sees symbol index mode entry m s)
    (hentry : entry.length = m.running.control.frames.size) (hhiding : s.Hiding)
    (hproper : ∀ deed ∈ deeds, deed.Proper) :
    (s.run deeds).Hiding ∧ (s.run deeds).global = s.global := by
  induction h with
  | entered => exact ⟨hhiding, rfl⟩
  | aside _ _ _ ih => exact ih hproper
  | @assign before _ _ _ h _ ih =>
    rw [List.forall_mem_append, List.forall_mem_singleton] at hproper
    obtain ⟨hold, hglobal⟩ := ih hproper.1
    rw [Shadow.run_concat]
    refine ⟨hold.after hproper.2, ?_⟩
    have hfound := (h.sees hs hentry).covers.findSome?_eq
    have hown : (s.run before).own ≠ .empty := by
      rw [Shadow.own, hfound, Option.getD_some]
      obtain ⟨shown, hmem, rfl⟩ := List.exists_of_findSome?_eq_some hfound
      exact hold _ hmem
    rw [Shadow.after, if_neg (mt Shadow.isEmpty_iff.mp hown), hglobal]
  | bind _ _ ih | enter _ _ _ _ ih | leave _ _ ih =>
    rw [List.forall_mem_append, List.forall_mem_singleton] at hproper
    obtain ⟨hold, hglobal⟩ := ih hproper.1
    rw [Shadow.run_concat]
    exact ⟨hold.after hproper.2, hglobal⟩

end Within

/-! ## Bindings as a whole -/

variable {body : Op γ (Outcome Value)} {scope : ControlStack.Scope}

/-- However a binding is left, this has nothing to do with the heap. -/
theorem heap_binding (hkind : m.heap.space.isKind symbol .symbol = true)
    (henter : enterBinding symbol value m = .ok (.ok scope) m₁) :
    (ending (binding symbol value body m)).heap = (ending (body m₁)).heap := by
  rw [binding_of_entered hkind henter]
  cases hbody : body m₁ with
  | error fault m₂ =>
    rw [bind_of_error (guarded_of_error hbody)]
    rfl
  | ok result m₂ =>
    rw [bind_of_ok (guarded_of_ok hbody), leaveBinding]
    obtain ⟨-, fault, m', hleave, log, rfl⟩ | ⟨-, hleave | ⟨fault, m', hleave, log, rfl⟩⟩ :=
      leave_cases scope m₂
    · rw [bind_of_error hleave]
      rfl
    · rw [bind_of_ok hleave]
      rfl
    · rw [bind_of_error hleave]
      rfl

/-- A binding that does not come about is over before its body runs. -/
theorem ending_binding (hkind : m.heap.space.isKind symbol .symbol = true)
    (hrefused : ∀ scope m₁, enterBinding symbol value m ≠ .ok (.ok scope) m₁) :
    ending (binding symbol value body m) = ending (enterBinding symbol value m) ∧
      (ending (enterBinding symbol value m)).heap = m.heap := by
  obtain ⟨c, ⟨log, hturned⟩, -⟩ := turns_enterBinding symbol value m
  refine ⟨?_, by rw [hturned]; rfl⟩
  cases henter : enterBinding symbol value m with
  | error fault m₁ => rw [binding_of_faulted hkind henter]; rfl
  | ok entered m₁ =>
    cases entered with
    | error unwind => rw [binding_of_refused hkind henter]; rfl
    | ok scope => exact absurd henter (hrefused scope m₁)

/-- What a binding of a symbol to a value comes to, whatever its body is. `global` is the global value of
the symbol before. -/
structure Shadows (m : Machine γ) (symbol : Value) (index : Nat) (global value : Value)
    (body : Op γ (Outcome Value)) : Prop where
  /-- A binding that does not come about does not run its body and leaves the heap alone. -/
  refused : (∀ scope m₁, enterBinding symbol value m ≠ .ok (.ok scope) m₁) →
    ending (binding symbol value body m) = ending (enterBinding symbol value m) ∧
      (ending (binding symbol value body m)).heap = m.heap
  /-- On entry the thread finds the value, unless it is the empty one. -/
  entry : ∀ scope m₁, enterBinding symbol value m = .ok (.ok scope) m₁ →
    symbolValue symbol m₁ = .ok (if value = .empty then global else value) m₁
  /-- Whatever was done within the binding, the thread finds what the shadow tells. -/
  found : ∀ scope m₁ deeds m₂, enterBinding symbol value m = .ok (.ok scope) m₁ →
    Within symbol index m₁ deeds m₂ →
      symbolValue symbol m₂ = .ok ((Shadow.mk [some value] global).run deeds).value m₂
  /-- Assignments never fail. What is found next is what was assigned, unless that is the empty value. -/
  assigned : ∀ scope m₁ deeds m₂ new, enterBinding symbol value m = .ok (.ok scope) m₁ →
    Within symbol index m₁ deeds m₂ → ∃ m₃, setSymbolValue symbol new m₂ = .ok () m₃ ∧
      symbolValue symbol m₃
        = .ok ((Shadow.mk [some value] global).run (deeds ++ [.assign new])).value m₃ ∧
      (new ≠ .empty → symbolValue symbol m₃ = .ok new m₃)
  /-- When the binding has ended, in any way, the global value is the one that the shadow tells. -/
  ended : ∀ scope m₁ deeds, enterBinding symbol value m = .ok (.ok scope) m₁ →
    Within symbol index m₁ deeds (ending (body m₁)) →
      (ending (binding symbol value body m)).heap.space.fieldGet m.mode symbol .symbolValue
        = .ok ((Shadow.mk [some value] global).run deeds).global
  /-- If nothing empty was bound or assigned, then it is the one from before. -/
  isolated : ∀ scope m₁ deeds, enterBinding symbol value m = .ok (.ok scope) m₁ →
    Within symbol index m₁ deeds (ending (body m₁)) → value ≠ .empty →
    (∀ deed ∈ deeds, deed.Proper) →
      (ending (binding symbol value body m)).heap.space.fieldGet m.mode symbol .symbolValue
        = m.heap.space.fieldGet m.mode symbol .symbolValue

/-- A thread that has just bound a symbol sees what it bound. -/
theorem sees_entered (hvalid : m.heap.space.Valid) (hsymbol : m.heap.space.SymbolAt symbol cell)
    (henter : enterBinding symbol value m = .ok (.ok scope) m₁) :
    Sees symbol (cell.word At.symbolBindingIndex).toNat m.mode
      m₁.running.control.frames.toList.reverse m₁ ⟨[some value], ⟨cell.word 1⟩⟩ := by
  obtain rfl := of_enterBinding (hsymbol.symbolBindingIndex m.mode) henter
  refine ⟨rfl, hvalid, ⟨cell, hsymbol, rfl, rfl⟩, ?_, ?_⟩
  · rw [control_withControl, bindingAt_bound_self]
    exact .entered value
  · rw [control_withControl, ControlStack.size_bound]
    exact Nat.lt_of_lt_of_le (Nat.lt_succ_self _) (Nat.le_max_right _ _)

/-- A thread that binds a symbol finds the value that it bound, then what it assigned last, and the global
value is the same when the binding has ended, however it ends. The empty value is no such value: where
the innermost binding has it, the global value is found and assigned. -/
theorem binding_shadows (hvalid : m.heap.space.Valid) (hsymbol : m.heap.space.SymbolAt symbol cell)
    (value : Value) (body : Op γ (Outcome Value)) :
    Shadows m symbol (cell.word At.symbolBindingIndex).toNat ⟨cell.word 1⟩ value body := by
  have hsees : ∀ {scope m₁ deeds m₂}, enterBinding symbol value m = .ok (.ok scope) m₁ →
      Within symbol (cell.word At.symbolBindingIndex).toNat m₁ deeds m₂ →
      Sees symbol (cell.word At.symbolBindingIndex).toNat m.mode
        m₁.running.control.frames.toList.reverse m₂
        ((Shadow.mk [some value] ⟨cell.word 1⟩).run deeds) :=
    fun henter hwithin => hwithin.sees (sees_entered hvalid hsymbol henter) (by simp)
  have hended : ∀ {scope m₁ deeds}, enterBinding symbol value m = .ok (.ok scope) m₁ →
      Within symbol (cell.word At.symbolBindingIndex).toNat m₁ deeds (ending (body m₁)) →
      (ending (binding symbol value body m)).heap.space.fieldGet m.mode symbol .symbolValue
        = .ok ((Shadow.mk [some value] ⟨cell.word 1⟩).run deeds).global := by
    intro scope m₁ deeds henter hwithin
    rw [heap_binding hsymbol.isKind henter]
    exact (hsees henter hwithin).global_eq
  refine ⟨fun hrefused => ?_, fun scope m₁ henter => ?_, fun scope m₁ deeds m₂ henter hwithin => ?_,
    fun scope m₁ deeds m₂ new henter hwithin => ?_, fun scope m₁ deeds => hended,
    fun scope m₁ deeds henter hwithin hvalue hproper => ?_⟩
  · have hrest : ending (binding symbol value body m) = ending (enterBinding symbol value m) ∧
        (ending (enterBinding symbol value m)).heap = m.heap :=
      ending_binding hsymbol.isKind hrefused
    exact ⟨hrest.1, hrest.1 ▸ hrest.2⟩
  · have hfound := (hsees henter .entered).symbolValue_eq
    rw [hfound, Shadow.value]
    simp only [Shadow.isEmpty_iff]
    rfl
  · exact (hsees henter hwithin).symbolValue_eq
  · obtain ⟨m₃, hrun, hlater⟩ := (hsees henter hwithin).assign new
    have hfound := hlater.symbolValue_eq
    refine ⟨m₃, hrun, by rw [hfound, Shadow.run_concat], fun hnew => ?_⟩
    rw [hfound, Shadow.value_assign hnew]
  · have hhiding : (Shadow.mk [some value] ⟨cell.word 1⟩).Hiding := by
      intro other hother
      obtain rfl := Option.some.inj (List.mem_singleton.mp hother)
      exact hvalue
    have hhidden := hwithin.hidden (sees_entered hvalid hsymbol henter) (by simp) hhiding hproper
    rw [hended henter hwithin, hsymbol.fieldGet, hhidden.2]

/-- A machine with a symbol whose global value is `unbound`, and that can bind the symbol. -/
theorem exists_unbound_symbol : ∃ (m : Machine Unit) (symbol : Value) (cell : Cell),
    m.heap.space.Valid ∧ m.heap.space.SymbolAt symbol cell ∧ ⟨cell.word 1⟩ = Value.unbound ∧
      ∀ value, ∃ scope m₁, enterBinding symbol value m = .ok (.ok scope) m₁ := by
  obtain ⟨symbol, m, others, d, -, h, hunbound, hcount, hthreads⟩ := Dynamic.made_smallMachine
  have hmem : symbol ∈ symbol :: others := List.mem_cons_self
  obtain ⟨key, hagrees⟩ := h.agrees
  obtain ⟨cell, hcell, -, hglobal⟩ := hagrees.symbol symbol hmem
  refine ⟨m, symbol, cell, hagrees.heap.valid, hcell, hglobal.trans hunbound, fun value => ?_⟩
  obtain ⟨scope, m₁, henter, -⟩ :=
    h.binds hmem value (by rw [hcount]; decide) (by rw [hthreads]; decide)
  exact ⟨scope, m₁, henter⟩

/-- The body panics after an assignment. -/
theorem binding_shadows_panic : ∃ (m : Machine Unit) (symbol : Value) (cell : Cell),
    m.heap.space.Valid ∧ m.heap.space.SymbolAt symbol cell ∧
    ∃ scope m₁, enterBinding symbol .t m = .ok (.ok scope) m₁ ∧ symbolValue symbol m₁ = .ok .t m₁ ∧
      (ending (binding symbol .t (do
        setSymbolValue symbol .nil
        throw (.panic "out of order")) m)).heap.space.fieldGet m.mode symbol .symbolValue
          = m.heap.space.fieldGet m.mode symbol .symbolValue := by
  obtain ⟨m, symbol, cell, hvalid, hsymbol, -, hbinds⟩ := exists_unbound_symbol
  obtain ⟨scope, m₁, henter⟩ := hbinds .t
  have hshadows := binding_shadows hvalid hsymbol .t (do
    setSymbolValue symbol .nil
    throw (.panic "out of order"))
  obtain ⟨m₂, hrun, -⟩ := hshadows.assigned scope m₁ [] m₁ .nil henter .entered
  refine ⟨m, symbol, cell, hvalid, hsymbol, scope, m₁, henter, hshadows.entry scope m₁ henter, ?_⟩
  refine hshadows.isolated scope m₁ [.assign .nil] henter ?_ (by decide)
    (List.forall_mem_singleton.mpr (show Value.nil ≠ .empty by decide))
  rw [bind_of_ok hrun]
  exact Within.entered.assign hrun

/-- A symbol that is bound to the empty value shows its global value, and an assignment changes that. -/
theorem empty_binding_exposed : ∃ (m : Machine Unit) (symbol : Value) (cell : Cell),
    m.heap.space.SymbolAt symbol cell ∧
    m.heap.space.fieldGet m.mode symbol .symbolValue = .ok .unbound ∧
    ∃ scope m₁, enterBinding symbol .empty m = .ok (.ok scope) m₁ ∧
      symbolValue symbol m₁ = .ok .unbound m₁ ∧
      (ending (binding symbol .empty (do
        setSymbolValue symbol .t
        return .ok .nil) m)).heap.space.fieldGet m.mode symbol .symbolValue = .ok .t := by
  obtain ⟨m, symbol, cell, hvalid, hsymbol, hglobal, hbinds⟩ := exists_unbound_symbol
  obtain ⟨scope, m₁, henter⟩ := hbinds .empty
  have hsees := sees_entered hvalid hsymbol henter
  obtain ⟨m₂, hrun, hlater⟩ := hsees.assign .t
  rw [hglobal] at hsees hlater
  refine ⟨m, symbol, cell, hsymbol, by rw [hsymbol.fieldGet, hglobal], scope, m₁, henter,
    hsees.symbolValue_eq, ?_⟩
  rw [heap_binding hsymbol.isKind henter, bind_of_ok hrun]
  exact hlater.global_eq

end Machine

end Substrate
