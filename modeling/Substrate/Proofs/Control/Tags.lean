import Substrate.Proofs.Construct.Interludes
import Substrate.Proofs.Control.Simulation

/-!
# Tags of blocks

The tag of a block is the cons that the allocator gives. Frames are roots, so no frame that is established
has that cons for its tag, and exits to such frames go through the block
(`Machine.exit_through_block`). This is so if nothing disturbs the allocation. A finalizer that runs
inside it may reclaim the cons before there is a frame for it. The next block then gets the same cons,
and an exit to the outer block ends in the inner one (`Machine.exit_caught_by_inner_block`).
-/

namespace Substrate

variable {γ : Type}

/-! ## Frames -/

theorem ControlStack.mem_references_of_scopes {c : ControlStack} {tag : Value}
    (h : some tag ∈ c.context.scopes) : tag ∈ c.references := by
  obtain ⟨frame, hframe, htag⟩ := List.mem_map.mp (List.mem_reverse.mp h)
  have hmem : tag ∈ frame.kind.values := by
    rw [ControlStack.tag?_eq_some.mp htag]
    exact List.mem_singleton_self tag
  simp only [references, List.mem_append, List.mem_flatMap]
  exact .inl (.inl (.inl (.inl (.inl ⟨frame, hframe, hmem⟩))))

/-- A frame with another tag is no obstacle to an exit. -/
theorem catcher?_cons_of_not_mem {tag outer : Value} {scopes : List (Option Value)} {level : Nat}
    (hnew : some tag ∉ scopes) (h : catcher? outer scopes = some level) :
    catcher? outer (some tag :: scopes) = some level := by
  have hmem : some outer ∈ scopes := by
    induction scopes with
    | nil => cases h
    | cons scope rest ih =>
      rw [catcher?] at h
      split at h
      next heq => exact heq ▸ List.mem_cons_self
      next => exact List.mem_cons_of_mem _ (ih (List.not_mem_of_not_mem_cons hnew) h)
  have hne : some tag ≠ some outer := fun heq => hnew (heq ▸ hmem)
  rw [catcher?, if_neg hne, h]

theorem catcher?_lt {tag : Value} {scopes : List (Option Value)} {level : Nat}
    (h : catcher? tag scopes = some level) : level < scopes.length := by
  induction scopes with
  | nil => cases h
  | cons scope rest ih =>
    rw [catcher?] at h
    split at h
    next => exact Option.some.inj h ▸ Nat.lt_succ_self rest.length
    next => exact Nat.lt_succ_of_lt (ih h)

/-! ## New tags -/

namespace Machine

/-- The cons that a block gets is not the tag of any frame that is established on some thread. -/
theorem Host.tag_new {host : Host} {frames : List Value} {m m' : Machine γ} {tag : Value}
    (hs : Sound m) (hhonest : host.Honest m.heap.space)
    (hquiet : host.scans = true ∨ host.Undisturbed frames .cons 2 m)
    (hrun : host.build frames (.cons .nil .nil) m = .ok tag m') {thread : Thread}
    (hthread : thread ∈ m.threads) : some tag ∉ thread.control.context.scopes := by
  intro hscope
  have hhost := host.scrupulous_guarded
  have hcareful : host.guarded.Careful host.guarded.runFinalizers frames
      (Form.cons .nil .nil).kind (Form.cons .nil .nil).size m :=
    hquiet.imp (fun hscans => ⟨hscans, passing_runFinalizers hhost hscans⟩)
      (undisturbed_guarded hhonest).mpr
  have hfits : (Form.cons .nil .nil).Fits := (by decide : 0 + wordBytes < wordLimit)
  have hparts : ∀ part ∈ (Form.cons .nil .nil).parts, part.isHeapRef = true →
      m.InUse (host.guarded.seen frames) part.address := by
    intro part hpart href
    obtain rfl : part = .nil := by simpa [Form.parts] using hpart
    cases href
  rw [← (agrees_build frames (.cons .nil .nil) m).2 hhonest] at hrun
  obtain ⟨-, hshows, hfresh⟩ :=
    build_spec hs hhost rfl hcareful (.inr hfits) hparts hrun
  have hroot := value_mem_rootCalls_of_reference hthread (ControlStack.mem_references_of_scopes hscope)
  exact hfresh _ (inUse_of_value hroot hshows.ref) rfl

end Machine

open Machine (Host Sound)

variable {m : Machine Journal}

section

variable (hs : Sound m) (howned : m.heap.space.Owned) (hquiet : Host.plain.Undisturbed [] .cons 2 m)
include hs howned hquiet

/-- A block takes a cons that is the tag of no frame around it. -/
theorem Machine.cons_new {tag : Value} {m' : Machine Journal} (hrun : cons .nil .nil m = .ok tag m') :
    some tag ∉ m.running.control.context.scopes := by
  have hbuild : Host.plain.build [] (.cons .nil .nil) m = .ok tag m' :=
    (congrFun (Host.plain_build [] (.cons .nil .nil)) m).trans hrun
  exact Host.tag_new hs (Host.honest_plain howned) (.inr hquiet) hbuild
    (List.mem_append_right _ (List.mem_singleton_self m.running))

/-- So it is in the direct semantics, where the block finds the same frames. -/
theorem Store.allocating_new (found : List Hidden) :
    (∃ (tag : Value) (m' : Machine Journal), some tag ∉ m.running.control.context.scopes ∧ ∀ next,
      (m.store (m.hidden :: found)).allocating next = next tag (m'.store found)) ∨
    ∃ (fault : Fault) (m' : Machine Journal), ∀ next,
      (m.store (m.hidden :: found)).allocating next = ⟨.fault fault, m'.store found⟩ := by
  have hcontained : Machine.Contained m.heap.actions m (Machine.cons .nil .nil m) :=
    Machine.confined_cons .nil .nil m (List.Subset.refl _)
  cases hrun : Machine.cons .nil .nil m with
  | ok tag m' =>
    rw [hrun] at hcontained
    exact .inl ⟨tag, m', Machine.cons_new hs howned hquiet hrun,
      fun next => allocating_ok hrun hcontained.control found⟩
  | error fault m' =>
    rw [hrun] at hcontained
    exact .inr ⟨fault, m', fun next => allocating_error hrun hcontained.1 found⟩

/-- An exit from inside a block to a frame that is established outside goes through the block. -/
theorem Machine.exit_through_block {calls level : Nat} {outer : Value} (hready : Ready calls m)
    (hcatch : catcher? outer m.running.control.context.scopes = some level)
    (hroom : m.running.control.context.scopes.length < m.running.control.context.frameLimit)
    (values : List Value) : ∃ ending, (ending = .exit level values ∨ ∃ fault, ending = .fault fault) ∧
      Agrees m.running.control (block (fun _ => exitTo outer values) m) ending := by
  have hcontained : Contained m.heap.actions m (cons .nil .nil m) :=
    confined_cons .nil .nil m (List.Subset.refl _)
  rw [block]
  cases hrun : cons .nil .nil m with
  | ok tag m' =>
    rw [hrun] at hcontained
    have hcontrol := hcontained.control
    have hready' : Ready calls m' :=
      ⟨hcontrol ▸ hready.sound, hcontrol ▸ hready.pending, hcontrol ▸ hready.calls⟩
    obtain ⟨used, ending, hagrees, heval⟩ :=
      (simulates_exit outer values).catching tag m' hready'
    rw [hcontrol] at hagrees heval
    have hnew := cons_new hs howned hquiet hrun
    specialize heval []
    simp only [Context.within, if_neg (Nat.not_le.mpr hroom), catcher?_cons_of_not_mem hnew hcatch,
      Evaluation.delivered, if_neg (Nat.ne_of_lt (catcher?_lt hcatch))] at heval
    rw [bind_of_ok hrun]
    exact ⟨ending, .inl (congrArg Evaluation.ending heval).symm, hagrees⟩
  | error fault m' =>
    rw [bind_of_error hrun]
    exact ⟨.fault fault, .inr ⟨fault, rfl⟩, .fault fault⟩

end

/-! ## Tags that are not new -/

/-- An exit from inside two blocks to the outer one. -/
def Program.exitOfTwo : Program :=
  .block fun outer => .andThen (.block fun _ => .exit outer [.t]) fun _ => .result .nil

namespace Machine

/-- A machine that collects before it has four kilobytes of objects, and that does not scan native
stacks. -/
def unscannedMachine : Machine Journal :=
  (Machine.start .release { Options.default with
    heap := ⟨4096, 1048576, .two, true⟩, stackScan := false } []).toOption.get rfl

/-- The next cons brings about a collection, and another one by a finalizer. -/
def abandon : Op Journal Unit := do
  let abandoned ← allocateWords .vector 509
  onHeap (Heap.registerFinalizer abandoned [.collect])

/-- The finalizer reclaims the tag of the outer block, and the inner block has the same one. So the exit
ends in the inner block. -/
theorem exit_caught_by_inner_block : ∃ m m', abandon unscannedMachine = .ok () m ∧
    Program.exitOfTwo.perform (fun _ _ _ => .result .nil) m = .ok (.ok .nil) m' := by
  have hrun : returns (fun _ m => returns (fun result _ => result == .ok .nil)
        (Program.exitOfTwo.perform (fun _ _ _ => .result .nil) m))
      (abandon unscannedMachine) = true := by decide +kernel
  obtain ⟨_, m, habandon, hcheck⟩ := exists_of_returns hrun
  obtain ⟨result, m', hperform, hresult⟩ := exists_of_returns hcheck
  obtain rfl := beq_iff_eq.mp hresult
  exact ⟨m, m', habandon, hperform⟩

end Machine

end Substrate
