import Substrate.Proofs.Collection.Traversal
import Substrate.Proofs.Space.Runs

/-!
# Visiting the slots of an object

The marker is a visitor of the object that it traces (`Marking.visitor`), since marks are set in headers only.
They may be set in any headers at all, as a release build marks what a stale reference leads to. So tracing
is the traversal of the object by the marker: `Marking.trace_eq_visitSlots`.

`Cell.traversal_within_payload` is about every header and every payload, in agreement or not. Any visitor, and
the marker in particular, is given payload words only, none of them twice, and only words that hold values by
the layout; a length that there is no room for is complained of by a debug build, behind the listed words.
-/

namespace Substrate

namespace Space

variable {s : Space} {a b c i : Nat} {cell : Cell} {f : Cell → Cell}

theorem cell?_eq_bind (h : s.blockIndex[blockBase a]? = some (c, i)) :
    s.cell? a = (s.block? c i).bind fun block =>
      if (a - block.start) % block.cellBytes = 0 then block.cells[block.indexOf a]? else none := by
  simp only [cell?, h, block?, Option.bind_eq_bind, Option.bind_assoc]

section

variable {α : Type} {g : Cell → α} (hf : ∀ cell, g (f cell) = g cell)
include hf

theorem map_map_eq (cell? : Option Cell) : (cell?.map f).map g = cell?.map g := by
  rw [Option.map_map]
  exact congrArg (Option.map · cell?) (funext hf)

theorem map_cells_modifyCell (block : Block) (b i : Nat) :
    ((block.modifyCell b f).cells[i]?).map g = (block.cells[i]?).map g := by
  unfold Block.modifyCell
  split
  · simp only [Block.modifyAt, Array.getElem?_modify]
    split
    · exact map_map_eq hf _
    · rfl
  · rfl

/-- What a change leaves alone in every cell is left alone in all cells, whatever the address is. -/
theorem map_cell?_modifyCell (s : Space) (a b : Nat) :
    ((s.modifyCell b f).cell? a).map g = (s.cell? a).map g := by
  cases hb : s.blockIndex[blockBase b]? with
  | none =>
    have hblock : ∀ c i, (s.modifyCell b f).block? c i = s.block? c i := by
      intro c i
      simp only [modifyCell, hb]
      rfl
    cases ha : s.blockIndex[blockBase a]? with
    | none =>
      rw [cell?_of_not_indexed (by simpa using ha), cell?_of_not_indexed ha]
      simp only [modifyCell, hb, Std.TreeMap.getElem?_modify, Nat.compare_eq_eq]
      split
      next heq =>
        subst heq
        cases s.large[b]? with
        | none => rfl
        | some object => exact congrArg some (hf object.cell)
      next => rfl
    | some entry =>
      rw [cell?_eq_bind (by simpa using ha), cell?_eq_bind ha, hblock]
  | some entry =>
    cases ha : s.blockIndex[blockBase a]? with
    | none =>
      rw [cell?_of_not_indexed (by simpa using ha), cell?_of_not_indexed ha, large_modifyCell hb]
    | some entry' =>
      rw [cell?_eq_bind (by simpa using ha), cell?_eq_bind ha, block?_modifyCell hb]
      split
      next heq =>
        obtain ⟨hc, hi⟩ := heq
        rw [hc, hi]
        cases s.block? entry.1 entry.2 with
        | none => rfl
        | some block =>
          simp only [Option.map_some, Option.bind_some, Block.indexOf, Block.start_modifyCell,
            Block.cellBytes_modifyCell]
          split
          · exact map_cells_modifyCell hf block b _
          · rfl
      next => rfl

end

/-- A header can be changed without a change to any payload. -/
@[simp] theorem word_modifyHeader (s : Space) (b : Nat) (f : Header → Header) (a i : Nat) :
    (s.modifyHeader b f).word a i = s.word a i := by
  have hword : ∀ t : Space, t.word a i = ((t.cell? a).map (·.word i)).getD 0 := fun t => by
    unfold word
    cases t.cell? a <;> rfl
  rw [hword, hword, modifyHeader,
    map_cell?_modifyCell (g := fun cell => cell.word i) fun cell => Cell.word_setHeader cell _ i]

end Space

namespace Marking

variable {m m' : Marking} {mode : Mode} {a b i : Nat} {cell : Cell}

/-! ## Payloads -/

@[simp] theorem word_markObject (m : Marking) (b a i : Nat) :
    (m.markObject b).space.word a i = m.space.word a i := by
  unfold markObject
  split
  · rfl
  · simp only [Space.word_modifyHeader]

theorem word_markWord {j : Nat} (hrun : markWord mode b j m = .ok () m') (a i : Nat) :
    m'.space.word a i = m.space.word a i := by
  simp only [markWord, markValue] at hrun
  split at hrun
  · split at hrun
    · split at hrun
      · cases hrun
        exact word_markObject ..
      · cases hrun
    · cases hrun
      exact word_markObject ..
  · cases hrun
    rfl

/-! ## Slots -/

theorem markListed_eq_forM (mode : Mode) (a : Nat) (indices : List Nat) :
    markListed mode a indices = indices.forM (markWord mode a) := by
  induction indices with
  | nil => rfl
  | cons index indices ih =>
    rw [markListed, ih]
    rfl

/-- All that marking from slots can complain of is a stale reference in one of them. -/
theorem stale_of_markListed {indices : List Nat} {fault : Fault}
    (hrun : markListed mode a indices m = .error fault m') :
    ∃ x, fault = .panic ("stale reference " ++ Text.hex x) := by
  induction indices generalizing m with
  | nil => cases hrun
  | cons j indices ih =>
    rw [markListed_cons] at hrun
    split at hrun
    next m₁ hfirst => exact ih hrun
    next fault' m₁ hfirst =>
      cases hrun
      simp only [markWord, markValue] at hfirst
      split at hfirst
      · split at hfirst
        · split at hfirst
          · cases hfirst
          · cases hfirst
            exact ⟨_, rfl⟩
        · cases hfirst
      · cases hfirst

/-- The marker, as a visitor of the object at an address. -/
def visitor (mode : Mode) (a : Nat) : Visitor Marking where
  word m i := m.space.word a i
  visit := markWord mode a
  confined hrun _ := word_markWord hrun a _

/-- Tracing is the traversal by the marker. -/
theorem trace_eq_visitSlots (mode : Mode) (a : Nat) (m : Marking) :
    trace mode a m = (m.space.header a).visitSlots mode (visitor mode a) m := by
  rw [Header.visitSlots_apply, trace]
  simp only [markListed_eq_forM, markRange_eq, visitor]
  cases ((Layout.of (m.space.header a).kind).listedSlots (m.space.header a).words).forM
      (markWord mode a) m with
  | error fault m₁ => rfl
  | ok _ m₁ =>
    cases (Layout.of (m.space.header a).kind).valueLengthWord? (m.space.header a).words with
    | none => rfl
    | some word =>
      cases hcount : Layout.tailCount mode (m.space.header a).kind (m.space.header a).words
        (m₁.space.word a word).toNat <;> simp only [hcount]

/-- Tracing an object whose length fits it marks from its slots, and complains of nothing else. A release
build does so whatever the length is. -/
theorem trace_eq (mode : Mode) (hcell : m.space.object? a = some cell)
    (hfits : mode = .release ∨ ∀ word,
      (Layout.of cell.header.kind).valueLengthWord? cell.header.words = some word →
        (cell.word word).toNat ≤ (Layout.of cell.header.kind).room cell.header.words) :
    trace mode a m = markListed mode a cell.slots m := by
  have hlong : ¬ (mode = .debug ∧ cell.Overlong) := by
    rintro ⟨rfl, word, htail, hword, hroom⟩
    obtain hfits := hfits.resolve_left nofun
    exact Nat.not_lt.mpr (hfits word (Layout.valueLengthWord?_eq_some.mpr ⟨htail, hword⟩)) hroom
  rw [trace_eq_visitSlots, Space.header_of_object? hcell, markListed_eq_forM]
  exact Cell.visitSlots_of_fits (v := visitor mode a) (fun i _ => Space.word_of_object? hcell) hlong

/-- Whatever there is at the address, tracing marks from slots, and then it may raise a fault. -/
theorem exists_trace_eq (mode : Mode) (a : Nat) (m : Marking) :
    ∃ (visited : List Nat) (raised : Option Fault),
      (∀ cell, m.space.object? a = some cell → visited ⊆ cell.slots) ∧
      trace mode a m = (do markListed mode a visited; raised.forM throw) m := by
  obtain ⟨visited, raised, htraversal, hvisits⟩ :=
    ((m.space.cell? a).getD .zero).exists_traversal mode
  refine ⟨visited, raised, fun cell hcell i hi => ?_, ?_⟩
  · rw [Space.cell?_of_object? hcell] at htraversal
    exact Cell.mem_slots_iff_declares.mpr ⟨htraversal.inside i hi, htraversal.declared i hi⟩
  · have hheader : m.space.header a = ((m.space.cell? a).getD .zero).header := by
      unfold Space.header
      cases m.space.cell? a <;> rfl
    rw [trace_eq_visitSlots, hheader, markListed_eq_forM]
    refine hvisits (visitor mode a) m fun i _ => ?_
    simp only [visitor, Space.word]
    cases m.space.cell? a with
    | none => cases i <;> rfl
    | some cell => rfl

end Marking

/-- A header of any kind, for any number of words, in front of any payload: what a traversal visits lies in
this payload and is declared to hold values. It is the same for each visitor, whatever there is behind the
payload, and the marker is one of them. -/
theorem Cell.traversal_within_payload (mode : Mode) (cell : Cell) :
    ∃ visited raised, cell.Traversal mode visited raised ∧
      (∀ {σ : Type} (v : Visitor σ) (s : σ), (∀ i < cell.header.words, v.word s i = cell.word i) →
        cell.header.visitSlots mode v s = (do visited.forM v.visit; raised.forM throw) s) ∧
      ∀ (m : Marking) (a : Nat), m.space.cell? a = some cell → Marking.trace mode a m =
        (do visited.forM (Marking.markWord mode a); raised.forM throw) m := by
  obtain ⟨visited, raised, htraversal, hvisits⟩ := cell.exists_traversal mode
  refine ⟨visited, raised, htraversal, hvisits, fun m a hcell => ?_⟩
  have hheader : m.space.header a = cell.header := by rw [Space.header, hcell]
  rw [Marking.trace_eq_visitSlots, hheader]
  refine hvisits (Marking.visitor mode a) m fun i _ => ?_
  simp only [Marking.visitor, Space.word, hcell]

namespace Ledger

/-- A run that leaves a structure with room for 198 slots and a length of 200. -/
def longRecord : Ledger :=
  ((start 65536).allocate .debug .fresh .record 200).write 0x7f0000000000 1 200

theorem cell_longRecord : ∃ cell, longRecord.space.cell? 0x7f0000000000 = some cell ∧
    cell.header = ⟨.record, false, 0, 200⟩ ∧ cell.word 0 = 0 ∧ cell.word 1 = 200 := by
  have hview : (longRecord.space.cell? 0x7f0000000000).map
      (fun cell => (cell.header, cell.word 0, cell.word 1)) = some (⟨.record, false, 0, 200⟩, 0, 200) := by
    decide +kernel
  obtain ⟨cell, hcell, hfields⟩ := Option.map_eq_some_iff.mp hview
  simp only [Prod.mk.injEq] at hfields
  exact ⟨cell, hcell, hfields⟩

theorem traversal_within_payload_longRecord : ∃ cell,
    longRecord.space.cell? 0x7f0000000000 = some cell ∧
      cell.header.visitSlots .debug (.recorder cell.word) [] =
        .error (.fatal .contractViolation "structure of length 200 in 200 payload words") [0] ∧
      Marking.trace .debug 0x7f0000000000 (.start longRecord.space true) =
        .error (.fatal .contractViolation "structure of length 200 in 200 payload words")
          (.start longRecord.space true) := by
  obtain ⟨cell, hcell, hheader, hzero, hlength⟩ := cell_longRecord
  obtain ⟨visited, raised, htraversal, hvisits, hmarks⟩ := Cell.traversal_within_payload .debug cell
  have hlong : cell.Overlong := by
    refine ⟨1, ?_, ?_, ?_⟩ <;> rw [hheader]
    · rfl
    · decide
    · rw [hlength]
      decide
  have hraises := htraversal.raises_iff.mpr ⟨rfl, hlong⟩
  have hvisited : visited = [0] := by
    refine List.perm_singleton.mp ((List.perm_ext_iff_of_nodup htraversal.nodup (by decide)).mpr ?_)
    intro i
    rw [htraversal.listed hraises, hheader]
    simp [Layout.of]
    omega
  obtain ⟨fault, rfl⟩ := Option.isSome_iff_exists.mp hraises
  obtain ⟨word, htail, rfl⟩ := htraversal.violation fault rfl
  rw [hheader] at htail
  cases htail
  rw [hvisited, hheader, hlength] at hvisits hmarks
  refine ⟨cell, hcell, ?_, ?_⟩
  · rw [hheader]
    exact hvisits (.recorder cell.word) [] fun _ _ => rfl
  · -- the first word holds no reference
    have hmark : Marking.markWord .debug 0x7f0000000000 0 (.start longRecord.space true)
        = .ok () (.start longRecord.space true) := by
      have hword : longRecord.space.word 0x7f0000000000 0 = 0 := by
        rw [Space.word, hcell]
        exact hzero
      rw [Marking.markWord, Marking.start, hword]
      rfl
    rw [hmarks _ _ hcell]
    exact Run.bind_of_ok (Run.bind_of_ok hmark)

end Ledger

end Substrate
