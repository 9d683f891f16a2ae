import Substrate.Machine.Roots
import Substrate.Proofs.Space.Sweep

/-!
# Runs

A client allocates objects, writes to their payloads, marks them and sweeps, in any order. `Ledger`
is a space with what such a client knows about it: the objects it was given and has not lost, and
those it marked since the last sweep. `Ledger.Accounts` is the invariant of all runs: the space is
valid and the client knows exactly the objects there are and their marks.

The system may answer every request anew, as long as it hands out pages that nobody holds.
-/

namespace Substrate

/-- A space and what its client knows about it. -/
structure Ledger where
  space : Space
  /-- The objects that were allocated and not swept away since. -/
  live : List Nat
  /-- The objects that were marked since the last sweep. -/
  marked : List Nat

namespace Ledger

def start (maxFootprint : Nat) : Ledger := ⟨.new maxFootprint, [], []⟩

/-- Asks for an object; `pages` is what the system has to offer. -/
def allocate (mode : Mode) (pages : Pages) (kind : Kind) (words : Nat) (l : Ledger) : Ledger :=
  match { l.space with pages }.allocate mode kind words with
  | (.ok (some a), space) => ⟨space, a :: l.live, l.marked⟩
  | (_, space) => ⟨space, l.live, l.marked⟩

def write (a index : Nat) (bits : Word) (l : Ledger) : Ledger :=
  { l with space := l.space.setWord a index bits }

def mark (a : Nat) (l : Ledger) : Ledger :=
  { l with space := l.space.modifyHeader a (·.tryMark.2), marked := a :: l.marked }

def sweep (l : Ledger) : Ledger :=
  ⟨l.space.sweep.2, l.live.filter (· ∈ l.marked), []⟩

/-- The ledgers at the end of a run. -/
inductive Reachable : Ledger → Prop where
  | start (maxFootprint : Nat) : Reachable (start maxFootprint)
  | allocate {l : Ledger} {pages : Pages} {kind : Kind} (h : Reachable l) (mode : Mode)
      (fresh : pages.Fresh l.space.Held) (hkind : kind.isHeap = true) (words : Nat) :
      Reachable (l.allocate mode pages kind words)
  | write {l : Ledger} {a index : Nat} (h : Reachable l) (ha : a ∈ l.live)
      (hindex : index < (l.space.header a).words) (bits : Word) : Reachable (l.write a index bits)
  | mark {l : Ledger} {a : Nat} (h : Reachable l) (ha : a ∈ l.live) : Reachable (l.mark a)
  | sweep {l : Ledger} (h : Reachable l) : Reachable l.sweep

/-- The client knows the objects and their marks. -/
structure Accounts (l : Ledger) : Prop where
  valid : l.space.Valid
  live : ∀ a, a ∈ l.live ↔ (l.space.object? a).isSome
  marked : ∀ a cell, l.space.object? a = some cell → (cell.header.marked = true ↔ a ∈ l.marked)
  marks : ∀ a ∈ l.marked, a ∈ l.live
  nodup : l.live.Nodup

variable {l : Ledger} {a : Nat} {cell : Cell}

/-! ## Steps -/

theorem block?_new (maxFootprint c i : Nat) : (Space.new maxFootprint).block? c i = none := by
  simp only [Space.block?, Space.new, Array.getElem?_replicate]
  split <;> rfl

theorem accounts_start (maxFootprint : Nat) : (start maxFootprint).Accounts := by
  have hblock := block?_new maxFootprint
  have hlarge : ∀ x : Nat, (Space.new maxFootprint).large[x]? = none := fun x => by
    simp [Space.new]
  have hvalid : (Space.new maxFootprint).Valid := by
    refine ⟨by simp [Space.new], fun c i b h => ?_, fun base c i => ?_, fun a object h => ?_,
      fun a a' object object' h => ?_, fun a object c i b h => ?_⟩
    · rw [hblock] at h
      cases h
    · simp only [hblock]
      simp [Space.new]
    all_goals
      rw [hlarge] at h
      cases h
  have hnone : ∀ x, (Space.new maxFootprint).object? x = none := by
    intro x
    cases hx : (Space.new maxFootprint).object? x with
    | none => rfl
    | some cell =>
      obtain ⟨hb, -⟩ | ⟨hobject, -⟩ := hvalid.object?_eq_some_iff.mp hx
      · rw [hblock] at hb
        cases hb
      · rw [hlarge] at hobject
        cases hobject
  refine ⟨hvalid, fun a => ?_, fun a cell h => ?_, List.forall_mem_nil _, List.nodup_nil⟩
  · simp [start, hnone]
  · simp [start, hnone] at h

theorem Accounts.allocate (h : l.Accounts) (mode : Mode) {pages : Pages}
    (fresh : pages.Fresh l.space.Held) {kind : Kind} (hkind : kind.isHeap = true) (words : Nat) :
    (l.allocate mode pages kind words).Accounts := by
  obtain ⟨t, hanswer, hsame⟩ | ⟨a, cell, t, hanswer, hadds, hheader, -⟩ :=
    h.valid.request mode fresh hkind words
  · simp only [Ledger.allocate, hanswer]
    have hview := hsame.object? h.valid
    refine ⟨hsame.valid h.valid, fun x => ?_, fun x cell hx => ?_, h.marks, h.nodup⟩
    · rw [h.live, hview]
    · rw [hview] at hx
      exact h.marked x cell hx
  · simp only [Ledger.allocate, hanswer]
    have habsent : a ∉ l.live := by
      rw [h.live, hadds.absent]
      simp
    refine ⟨hadds.valid, fun x => ?_, fun x cell' hx => ?_,
      fun x hx => List.mem_cons_of_mem _ (h.marks x hx), List.nodup_cons.mpr ⟨habsent, h.nodup⟩⟩
    · rw [List.mem_cons, h.live, hadds.view]
      by_cases hxa : x = a
      · simp [hxa]
      · simp [hxa]
    · obtain ⟨rfl, rfl⟩ | hold := hadds.new_or_old hx
      · have hnot : x ∉ l.marked := fun hx => habsent (h.marks x hx)
        simp [hheader, hnot]
      · exact h.marked x cell' hold

/-- A change to an object that keeps its kind and size keeps the accounts, if its mark is accounted
for. -/
theorem Accounts.modifyCell (h : l.Accounts) (ha : a ∈ l.live) {f : Cell → Cell} {marked : List Nat}
    (hkind : ∀ cell, (f cell).header.kind = cell.header.kind)
    (hwords : ∀ cell, (f cell).header.words = cell.header.words)
    (hmarks : ∀ x ∈ marked, x ∈ l.live) (hothers : ∀ x, x ≠ a → (x ∈ marked ↔ x ∈ l.marked))
    (hmarked : ∀ cell, l.space.object? a = some cell →
      ((f cell).header.marked = true ↔ a ∈ marked)) :
    Accounts ⟨l.space.modifyCell a f, l.live, marked⟩ := by
  obtain ⟨cell, hcell⟩ := Option.isSome_iff_exists.mp ((h.live a).mp ha)
  have hfree : (f cell).header.kind ≠ .free := by
    rw [hkind]
    exact Space.kind_of_object? hcell
  have hview := h.valid.object?_modifyCell hcell hfree
  refine ⟨h.valid.modifyCell hcell hfree (hwords cell), fun x => ?_, fun x cell' hx => ?_, hmarks,
    h.nodup⟩
  · rw [h.live, hview]
    by_cases hxa : x = a
    · simp [hxa, hcell]
    · simp [hxa]
  · rw [hview] at hx
    by_cases hxa : x = a
    · rw [if_pos hxa] at hx
      cases hx
      rw [hxa]
      exact hmarked cell hcell
    · rw [if_neg hxa] at hx
      rw [hothers x hxa]
      exact h.marked x cell' hx

theorem Accounts.sweep (h : l.Accounts) : l.sweep.Accounts := by
  have hview := h.valid.object?_sweep
  refine ⟨h.valid.sweep, fun x => ?_, fun x cell hx => ?_, List.forall_mem_nil _,
    h.nodup.filter _⟩
  · simp only [Ledger.sweep, List.mem_filter, decide_eq_true_eq, h.live, hview, Option.isSome_map]
    cases hcell : l.space.object? x with
    | none => simp
    | some cell =>
      rw [← h.marked x cell hcell]
      by_cases hm : cell.header.marked = true
      · simp [hm]
      · simp [hm]
  · change l.space.sweep.2.object? x = some cell at hx
    rw [hview] at hx
    obtain ⟨cell₀, -, rfl⟩ := Option.map_eq_some_iff.mp hx
    simp [Block.unmarked, Header.clearMark, Ledger.sweep]

/-- The accounts are right at the end of every run. -/
theorem Reachable.accounts (h : Reachable l) : l.Accounts := by
  induction h with
  | start maxFootprint => exact accounts_start maxFootprint
  | allocate _ mode fresh hkind words ih => exact ih.allocate mode fresh hkind words
  | write _ ha _ bits ih =>
    refine ih.modifyCell ha (by simp) (by simp) ih.marks (fun _ _ => Iff.rfl) fun cell hcell => ?_
    rw [Cell.header_setWord]
    exact ih.marked _ cell hcell
  | @mark l a _ ha ih =>
    refine ih.modifyCell ha (fun _ => rfl) (fun _ => rfl) (fun x hx => ?_) (fun x hx => ?_)
      fun cell _ => ?_
    · rcases List.mem_cons.mp hx with rfl | hx
      · exact ha
      · exact ih.marks x hx
    · simp [hx]
    · simp [Header.tryMark]
  | sweep _ ih => exact ih.sweep

/-- In the beginning nothing is held. -/
theorem fresh_start (maxFootprint : Nat) : Pages.fresh.Fresh (start maxFootprint).space.Held := by
  refine ⟨rfl, by decide, fun bytes hbytes => ?_, fun bytes _ r hr => ?_⟩
  · simp only [Pages.fresh, OsError.memoryBytes, wordLimit] at *
    omega
  · cases hr with
    | block h =>
      rw [start, block?_new] at h
      cases h
    | large h => simp [start, Space.new] at h

/-- A system that refuses everything keeps every promise. -/
theorem fresh_refusing (held : Region → Prop) : Pages.Fresh ⟨pageBytes, 0⟩ held :=
  ⟨rfl, by decide, fun _ h => absurd h (Nat.not_lt_zero _), fun _ h => absurd h (Nat.not_lt_zero _)⟩

/-- A run in which two vectors share a block, until a sweep takes the second one away. -/
def sharedBlock : Ledger :=
  ((((start 65536).allocate .debug .fresh .vector 200).mark 0x7f0000000000).allocate .debug
    ⟨pageBytes, 0⟩ .vector 255).sweep

theorem reachable_sharedBlock : Reachable sharedBlock := by
  refine .sweep (.allocate (.mark (.allocate (.start _) _ (fresh_start _) rfl _) ?_) _
    (fresh_refusing _) rfl _)
  decide +kernel

/-- The vector that is left ends where the other one began. -/
theorem live_sharedBlock : sharedBlock.live = [0x7f0000000000] ∧
    sharedBlock.space.extent 0x7f0000000000 = ⟨0x7f0000000000, 0x7f0000000800⟩ ∧
    (sharedBlock.space.header 0x7f0000000000).words = 200 := by
  decide +kernel

/-! ## Allocation is safe -/

/-- Different objects have no address in common. -/
theorem Accounts.extents_disjoint (h : l.Accounts) {b : Nat} (ha : a ∈ l.live) (hb : b ∈ l.live)
    (hne : a ≠ b) : (l.space.extent a).stop ≤ (l.space.extent b).start ∨
      (l.space.extent b).stop ≤ (l.space.extent a).start := by
  obtain ⟨cella, hcella⟩ := Option.isSome_iff_exists.mp ((h.live a).mp ha)
  obtain ⟨cellb, hcellb⟩ := Option.isSome_iff_exists.mp ((h.live b).mp hb)
  have hselfa := Region.contains_iff.mp (h.valid.contains_self hcella)
  have hselfb := Region.contains_iff.mp (h.valid.contains_self hcellb)
  have hstarta := (h.valid.extent_held hcella).1
  have hstartb := (h.valid.extent_held hcellb).1
  -- if they overlap, the later one starts inside the other
  by_cases hlt : a < b
  · refine .inl (Nat.not_lt.mp fun hover => hne ?_)
    exact h.valid.extent_unique ((h.live a).mp ha) ((h.live b).mp hb)
      (Region.contains_iff.mpr ⟨by omega, by omega⟩) (h.valid.contains_self hcellb)
  · refine .inr (Nat.not_lt.mp fun hover => hne ?_)
    exact h.valid.extent_unique ((h.live a).mp ha) ((h.live b).mp hb)
      (h.valid.contains_self hcella) (Region.contains_iff.mpr ⟨by omega, by omega⟩)

/-- At the end of every run, the objects that the client was given and has not lost are aligned, lie
in the memory of the space and do not overlap; the free list of every block visits exactly the cells
without an object; and the next request either is refused or gives a zeroed object with the requested
header that was not there before. No object that was there notices. -/
theorem Reachable.allocation_safe (h : Reachable l) :
    (l.live.Nodup ∧ ∀ a, a ∈ l.live ↔ (l.space.object? a).isSome) ∧
    (∀ a ∈ l.live, a % wordBytes = 0 ∧ (l.space.extent a).start = a ∧
      a + (1 + (l.space.header a).words) * wordBytes ≤ (l.space.extent a).stop ∧
      ∃ r, l.space.Held r ∧ r.start ≤ a ∧ (l.space.extent a).stop ≤ r.stop) ∧
    (∀ a ∈ l.live, ∀ b ∈ l.live, a ≠ b → (l.space.extent a).stop ≤ (l.space.extent b).start ∨
      (l.space.extent b).stop ≤ (l.space.extent a).start) ∧
    (∀ c i b, l.space.block? c i = some b → ∃ indices, b.Lists indices) ∧
    ∀ (mode : Mode) (pages : Pages) (kind : Kind) (words : Nat), kind.isHeap = true →
      pages.Fresh l.space.Held → ∃ result t,
        { l.space with pages }.allocate mode kind words = (.ok result, t) ∧
        (∀ x ∈ l.live, t.object? x = l.space.object? x) ∧
        ∀ a, result = some a → a ∉ l.live ∧ t.header a = ⟨kind, false, 0, words⟩ ∧
          ∀ i, t.word a i = 0 := by
  have haccounts := h.accounts
  refine ⟨⟨haccounts.nodup, haccounts.live⟩, fun a ha => ?_,
    fun a ha b hb hne => haccounts.extents_disjoint ha hb hne,
    fun c i b hb => (haccounts.valid.blocks c i b hb).1.listed,
    fun mode pages kind words hkind fresh => ?_⟩
  · obtain ⟨cell, hcell⟩ := Option.isSome_iff_exists.mp ((haccounts.live a).mp ha)
    obtain ⟨hstart, hstop, hheld⟩ := haccounts.valid.extent_held hcell
    rw [Space.header_of_object? hcell]
    exact ⟨(haccounts.valid.object_address hcell).2.1, hstart, hstop, hheld⟩
  · obtain ⟨t, hanswer, hsame⟩ | ⟨a, cell, t, hanswer, hadds, hheader, hzero⟩ :=
      haccounts.valid.request mode fresh hkind words
    · exact ⟨none, t, hanswer, fun x _ => hsame.object? haccounts.valid x, fun a ha => by cases ha⟩
    · have habsent : a ∉ l.live := by
        rw [haccounts.live, hadds.absent]
        simp
      have hnew := hadds.object?_new
      refine ⟨some a, t, hanswer, fun x hx => ?_, ?_⟩
      · rw [hadds.view, if_neg (fun heq : x = a => habsent (heq ▸ hx))]
      · rintro _ ⟨⟩
        refine ⟨habsent, (Space.header_of_object? hnew).trans hheader, fun i => ?_⟩
        rw [Space.word_of_object? hnew, hzero]

theorem Reachable.allocation_safe_sharedBlock :
    sharedBlock.live = [0x7f0000000000] ∧
    sharedBlock.space.extent 0x7f0000000000 = ⟨0x7f0000000000, 0x7f0000000800⟩ ∧
    ∃ result t, { sharedBlock.space with pages := ⟨pageBytes, 0⟩ }.allocate .release .cons 200
        = (.ok result, t) ∧
      t.object? 0x7f0000000000 = sharedBlock.space.object? 0x7f0000000000 ∧
      ∀ a, result = some a → a ≠ 0x7f0000000000 ∧ t.header a = ⟨.cons, false, 0, 200⟩ := by
  obtain ⟨hlive, hextent, -⟩ := live_sharedBlock
  obtain ⟨-, -, -, -, hnext⟩ := reachable_sharedBlock.allocation_safe
  obtain ⟨result, t, hanswer, hothers, hnew⟩ :=
    hnext .release ⟨pageBytes, 0⟩ .cons 200 rfl (fresh_refusing _)
  refine ⟨hlive, hextent, result, t, hanswer, hothers _ (by simp [hlive]), fun a ha => ?_⟩
  obtain ⟨habsent, hheader, -⟩ := hnew a ha
  exact ⟨by simpa [hlive] using habsent, hheader⟩

/-! ## Lookup is exact -/

/-- Addresses are found, and words accepted, exactly as the live objects say. -/
theorem Reachable.lookup_exact (h : Reachable l) (x : Nat) :
    (∀ o, l.space.findObject? x true = some o ↔ o ∈ l.live ∧ (l.space.extent o).contains x = true) ∧
    (∀ o, l.space.findObject? x false = some o ↔ o = x ∧ x ∈ l.live) ∧
    (∀ o ∈ l.live,
      (∃ c i b j, l.space.block? c i = some b ∧ j < b.cells.size ∧ o = b.address j ∧
        l.space.extent o = ⟨o, o + b.cellBytes⟩) ∨
      ∃ object, l.space.large[o]? = some object ∧
        l.space.extent o = ⟨o, o + (1 + object.cell.header.words) * wordBytes⟩) ∧
    (l.space.objectAround? x = (l.space.consulted? x).filter fun a =>
      (l.space.header a).kind ≠ .free ∧ ((l.space.blockIndex[blockBase x]?).isSome ∨
        x < a + (1 + (l.space.header a).words) * wordBytes)) ∧
    (∀ a, l.space.consulted? x = some a →
      ∃ r, l.space.Held r ∧ r.start ≤ a ∧ a + wordBytes ≤ r.stop) ∧
    ∀ (γ : Type) (m : Machine γ) (bits : Word), m.heap.space = l.space →
      (m.decode? bits = some ⟨bits⟩ ∨ m.decode? bits = none) ∧
      (m.decode? bits = some ⟨bits⟩ ↔ Value.isHeapRef ⟨bits⟩ = false ∨ bits.toNat ∈ l.live) := by
  have haccounts := h.accounts
  have hvalid := haccounts.valid
  refine ⟨fun o => ?_, fun o => ?_, fun o ho => ?_, hvalid.objectAround?_eq_consulted,
    fun a ha => hvalid.consulted?_held ha, fun γ m bits hspace => ?_⟩
  · rw [hvalid.findObject?_interior, haccounts.live]
  · rw [hvalid.findObject?_exact, haccounts.live]
  · obtain ⟨cell, hcell⟩ := Option.isSome_iff_exists.mp ((haccounts.live o).mp ho)
    cases hvalid.object?_eq_some_iff.mp hcell with
    | @small c i j b hb hj hkind haddress =>
      have hlt := (Array.getElem?_eq_some_iff.mp hj).1
      refine .inl ⟨c, i, b, j, hb, hlt, haddress, ?_⟩
      rw [haddress]
      exact hvalid.extent_small hb hlt
    | large hobject _ => exact .inr ⟨_, hobject, hvalid.extent_large hobject⟩
  · have hlive : (m.heap.space.findObject? bits.toNat false).isSome = true ↔ bits.toNat ∈ l.live := by
      rw [hspace, hvalid.findObject?_exact_isSome, haccounts.live]
    simp only [Machine.decode?, Heap.isLive, Value.address]
    by_cases href : Value.isHeapRef ⟨bits⟩ = true
    · by_cases hmem : bits.toNat ∈ l.live
      · simp [href, hlive.mpr hmem, hmem]
      · have hnone : (m.heap.space.findObject? bits.toNat false).isSome = false := by
          rw [Bool.eq_false_iff]
          exact fun hsome => hmem (hlive.mp hsome)
        simp [href, hnone, hmem]
    · simp [href]

theorem Reachable.lookup_exact_sharedBlock :
    sharedBlock.space.findObject? 0x7f00000007ff true = some 0x7f0000000000 ∧
    sharedBlock.space.findObject? 0x7f0000000800 true = none ∧
    sharedBlock.space.findObject? 0x7f00000007ff false = none := by
  obtain ⟨hlive, hextent, -⟩ := live_sharedBlock
  refine ⟨?_, ?_, ?_⟩
  · refine ((reachable_sharedBlock.lookup_exact _).1 _).mpr ⟨by simp [hlive], ?_⟩
    rw [hextent]
    decide
  · refine Option.eq_none_iff_forall_ne_some.mpr fun o ho => ?_
    obtain ⟨hmem, hcontains⟩ := ((reachable_sharedBlock.lookup_exact _).1 o).mp ho
    obtain rfl : o = 0x7f0000000000 := by simpa [hlive] using hmem
    rw [hextent] at hcontains
    exact absurd hcontains (by decide)
  · refine Option.eq_none_iff_forall_ne_some.mpr fun o ho => ?_
    obtain ⟨-, hmem⟩ := ((reachable_sharedBlock.lookup_exact _).2.1 o).mp ho
    simp [hlive] at hmem

end Ledger

end Substrate
