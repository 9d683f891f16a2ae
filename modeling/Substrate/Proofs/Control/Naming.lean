import Substrate.Proofs.Construct.Interludes

/-!
# Symbols that are made

A symbol is made in two allocations. Each may collect, and finalizers may run after each that make symbols
themselves. `Dynamic.Tracked` says that the symbols of a run are in use and that the table has no others.
`Dynamic.Grows` is what whole operations do to such a run: it goes on, with the symbols that it had and
with those that were interned meanwhile. There is one lemma for each operation on the way, up to
`Tracked.makeSymbol` and `Tracked.intern`.

The new symbol is not yet known to anybody while finalizers run. So either a native frame that is scanned
keeps it, or nothing runs (`Machine.Host.Quiet`). Otherwise the number may be written into an object that
has come in its place.
-/

namespace Substrate

namespace Machine.Host

variable {γ : Type} {m m' : Machine γ} {host : Host} {frames : List Value} {kind : Kind} {words : Nat}
  {v : Value}

theorem seen_subset (host : Host) (v : Value) (frames : List Value) :
    host.seen frames ⊆ host.seen (v :: frames) := by
  unfold seen
  split
  · exact List.subset_cons_self v frames
  · exact List.Subset.refl _

/-- No finalizer is queued when there is memory for the name of a symbol and when there is memory for
the symbol. -/
def Quiet (host : Host) (finalize : List Value → Op γ Unit) (frames : List Value) (text : String)
    (m : Machine γ) : Prop :=
  host.Undisturbed frames .string (Form.string text).size m ∧
    ∀ name m₁, host.makeStringWith finalize frames text m = .ok name m₁ →
      host.Undisturbed (name :: frames) .symbol (Form.symbol name).size m₁

/-- A symbol can be made here in spite of finalizers: these find it in a native frame, or none run. -/
structure Calm (host : Host) (frames : List Value) (text : String) (m : Machine γ) : Prop where
  honest : host.Honest m.heap.space
  fits : m.mode = .debug ∨ (Form.string text).Fits
  quiet : host.scans = true ∨ host.Quiet host.runFinalizers frames text m

theorem quiet_guarded {text : String} (hhonest : host.Honest m.heap.space) :
    host.guarded.Quiet host.guarded.runFinalizers frames text m
      ↔ host.Quiet host.runFinalizers frames text m := by
  have hagrees : host.Agrees _ (host.build frames (.string text) : Op γ Value) :=
    agrees_build frames (.string text)
  refine and_congr (undisturbed_guarded hhonest) (forall₂_congr fun name m₁ => ?_)
  change (host.guarded.build frames (.string text) m = _ → _)
    ↔ (host.build frames (.string text) m = _ → _)
  rw [(hagrees m).2 hhonest]
  exact imp_congr_right fun hrun => undisturbed_guarded (hagrees.of_ok hhonest hrun).2

/-- Without any finalizers none are queued. -/
theorem quiet_of_unattended {text : String} (hs : Sound m) (hhonest : host.Honest m.heap.space)
    (hfits : m.mode = .debug ∨ (Form.string text).Fits) (hunattended : m.heap.Unattended) :
    host.Quiet host.runFinalizers frames text m := by
  rw [← quiet_guarded hhonest]
  have hhost := host.scrupulous_guarded
  have hundisturbed : host.guarded.Undisturbed frames .string (Form.string text).size m :=
    undisturbed_of_unattended hs (hhost.honest _) rfl hunattended
  refine ⟨hundisturbed, fun name m₁ hname => ?_⟩
  obtain ⟨hpasses, -, -⟩ :=
    build_spec hs hhost rfl (.inr hundisturbed) hfits (List.forall_mem_nil _) hname
  refine undisturbed_of_unattended hpasses.sound (hhost.honest _) rfl ?_
  obtain ⟨m₂, hallocate, hfill⟩ := of_build hfits hname
  have helse := (allocateWith_gives hs hhost rfl (.inr hundisturbed) hallocate).elsewhere hfill
  obtain ⟨m₃, hlocked, ⟨-, rfl⟩ | ⟨hpending, -⟩⟩ := of_allocateWith hallocate
  · obtain ⟨-, m₄, hallocated, rfl⟩ := of_withLock hlocked
    obtain ⟨-, hlater⟩ := allocateLocked_gives (hs.locked .heap) hhost rfl hallocated
    rw [helse.rest]
    exact ⟨(hlater hunattended).finalizers, (hlater hunattended).pending⟩
  · exact absurd (hundisturbed _ _ hlocked) hpending

theorem symbols_prepares (hprepares : Relation.ReflTransGen (Prepares host frames kind words) m m') :
    m'.symbols = m.symbols := by
  induction hprepares with
  | refl => rfl
  | tail _ hstep ih =>
    cases hstep with
    | collect hrun => exact (host.of_collectLocked hrun).1.symbols.trans ih
    | refused hrun =>
      obtain ⟨heap, -, rfl⟩ := of_onHeap hrun
      exact ih

/-- Taking memory has nothing to do with the table of symbols. -/
theorem symbols_takes (hrun : withLock .heap (host.allocateLocked frames kind words) m = .ok v m') :
    m'.symbols = m.symbols := by
  obtain ⟨-, m₂, hallocate, rfl⟩ := of_withLock hrun
  obtain ⟨m₁, hprepares, hlast⟩ := of_allocateLocked hallocate
  have hsame := symbols_prepares hprepares
  obtain ⟨heap, -, rfl⟩ := of_onHeap hlast
  exact hsame

end Machine.Host

namespace Dynamic

open Machine (Elsewhere Form Host Passes Sound inUse_of_value of_discard of_withLock
  value_mem_rootCalls_of_symbol exists_of_bind_ok)

variable {γ : Type} {m m' m₁ : Machine γ} {symbols symbols' symbols₁ : List Value} {d d' d₁ : State}
  {frames frames' : List Value} {v : Value}

/-! ## Runs that go on -/

namespace Run

theorem ref (h : Run m symbols d) (hv : v ∈ symbols) : v.isHeapRef = true := by
  obtain ⟨key, hagrees⟩ := h.agrees
  obtain ⟨cell, hcell, -⟩ := hagrees.symbol v hv
  exact hcell.ref

/-- What is not tracked is not bound. -/
theorem innermost_eq_none (h : Run m symbols d) {thread : Thread} (hthread : thread ∈ m.threads)
    (hv : v ∉ symbols) : d.innermost thread.id v = none := by
  obtain ⟨key, hagrees⟩ := h.agrees
  exact lookup_eq_none fun hmem => hv ((hagrees.threads thread hthread).stacked.subset hmem)

/-- What has nothing to do with symbols, threads and the heap changes nothing. -/
theorem aside (h : Run m symbols d) (hmode : m'.mode = m.mode) (hheap : m'.heap = m.heap)
    (hthreads : m'.threads = m.threads) (hnext : m'.nextThread = m.nextThread)
    (hcount : m'.nextBinding = m.nextBinding) : Run m' symbols d := by
  obtain ⟨key, hagrees⟩ := h.agrees
  refine h.keep (hheap ▸ hagrees.heap) (by rw [hheap, hmode, hagrees.mode]) (by rw [hthreads]) hnext
    (Nat.le_of_eq hcount.symm) fun symbol _ cell hcell => ⟨cell, by rwa [hheap], .refl cell⟩

/-- Symbols that are in use are as they were after any stretch. -/
theorem passes (h : Run m symbols d) (hinUse : ∀ symbol ∈ symbols, m.InUse frames symbol.address)
    (hpasses : Passes frames m m') : Run m' symbols d := by
  have haround := hpasses.around
  refine h.keep hpasses.sound.heap hpasses.sound.mode (by rw [haround.threads]) haround.nextThread
    haround.numbers fun symbol hsymbol cell hcell => ?_
  obtain ⟨cell', hcell', hsim⟩ := hpasses.kept _ cell (hinUse symbol hsymbol) hcell.object
  exact ⟨cell', ⟨hcell.ref, hcell', hsim.kind.trans hcell.kind, hsim.words ▸ hcell.words⟩, hsim⟩

/-- Filling in another object leaves the symbols alone. -/
theorem elsewhere (h : Run m symbols d) (helse : Elsewhere m m' v.address) (hnew : v ∉ symbols)
    (hrested : m'.heap.Rested) : Run m' symbols d := by
  obtain ⟨key, hagrees⟩ := h.agrees
  have hobjects := helse.space.objects
  have hnumbers := helse.numbers
  rw [helse.rest] at hrested ⊢
  refine h.keep hrested hagrees.mode rfl rfl hnumbers fun symbol hsymbol cell hcell =>
    ⟨cell, ⟨hcell.ref, ?_, hcell.kind, hcell.words⟩, .refl cell⟩
  exact (hobjects _ fun heq => hnew (Value.eq_of_address heq ▸ hsymbol)).trans hcell.object

end Run

/-! ## Runs that grow -/

/-- The symbols of a run are in use, and they are all that the table has. -/
structure Tracked (frames : List Value) (m : Machine γ) (symbols : List Value) (d : State) : Prop where
  run : Run m symbols d
  sound : Sound m
  inUse : ∀ symbol ∈ symbols, m.InUse frames symbol.address
  table : m.symbols.symbols ⊆ symbols

theorem Tracked.mono (h : Tracked frames m symbols d) (hsub : frames ⊆ frames') :
    Tracked frames' m symbols d :=
  ⟨h.run, h.sound, fun symbol hsymbol => (h.inUse symbol hsymbol).mono hsub, h.table⟩

theorem Tracked.locked (h : Tracked frames m symbols d) (lock : Guarded) :
    Tracked frames { m with held := lock :: m.held } symbols d :=
  ⟨h.run.aside rfl rfl rfl rfl rfl, h.sound.locked lock, h.inUse, h.table⟩

/-- The machine has gone on and is tracked still. Symbols that are new are in the table. All others have
the global values that they had, and no scope was entered or left. -/
structure Grows (frames : List Value) (m : Machine γ) (symbols : List Value) (d : State)
    (m' : Machine γ) (symbols' : List Value) (d' : State) : Prop where
  passes : Passes frames m m'
  run : Run m' symbols' d'
  table : m'.symbols.symbols ⊆ symbols'
  kept : symbols ⊆ symbols'
  listed : ∀ symbol ∈ symbols', symbol ∈ symbols ∨ symbol ∈ m'.symbols.symbols
  threads : d'.threads = d.threads
  globals : ∀ symbol ∈ symbols, d'.globals symbol = d.globals symbol

namespace Grows

theorem tracked (hg : Grows frames m symbols d m' symbols' d') (h : Tracked frames m symbols d) :
    Tracked frames m' symbols' d' := by
  refine ⟨hg.run, hg.passes.sound, fun symbol hsymbol => ?_, hg.table⟩
  obtain hold | hnew := hg.listed symbol hsymbol
  · exact hg.passes.inUse (h.inUse symbol hold)
  · exact inUse_of_value (value_mem_rootCalls_of_symbol hnew) (hg.run.ref hsymbol)

theorem mono (hg : Grows frames' m symbols d m' symbols' d') (hsub : frames ⊆ frames') :
    Grows frames m symbols d m' symbols' d' :=
  ⟨hg.passes.mono hsub, hg.run, hg.table, hg.kept, hg.listed, hg.threads, hg.globals⟩

theorem trans (h : Grows frames m symbols d m₁ symbols₁ d₁)
    (h' : Grows frames m₁ symbols₁ d₁ m' symbols' d') : Grows frames m symbols d m' symbols' d' := by
  refine ⟨h.passes.trans h'.passes, h'.run, h'.table, List.Subset.trans h.kept h'.kept,
    fun symbol hsymbol => ?_, h'.threads.trans h.threads, fun symbol hsymbol =>
      (h'.globals symbol (h.kept hsymbol)).trans (h.globals symbol hsymbol)⟩
  obtain hold | hnew := h'.listed symbol hsymbol
  · exact (h.listed symbol hold).imp_right fun hlisted => h'.passes.symbols hlisted
  · exact .inr hnew

/-- A stretch in which no symbol is made. -/
theorem of_passes (h : Tracked frames m symbols d) (hpasses : Passes frames m m')
    (htable : m'.symbols = m.symbols) : Grows frames m symbols d m' symbols d :=
  ⟨hpasses, h.run.passes h.inUse hpasses, htable ▸ h.table, List.Subset.refl _,
    fun _ hsymbol => .inl hsymbol, rfl, fun _ _ => rfl⟩

end Grows

/-- What finalizers do makes runs grow, as long as there are numbers left. -/
def Growing (finalize : List Value → Op γ Unit) : Prop :=
  ∀ frames (m m' : Machine γ) symbols d, Tracked frames m symbols d → m'.nextBinding < wordLimit →
    finalize frames m = .ok () m' → ∃ symbols' d', Grows frames m symbols d m' symbols' d'

/-- Native frames are scanned, and finalizers can cope with what they find. -/
structure Fosters (host : Host) (finalize : List Value → Op γ Unit) : Prop where
  scans : host.scans = true
  passing : Host.Passing finalize
  growing : Growing finalize

variable {host : Host} {finalize : List Value → Op γ Unit} {kind : Kind} {words : Nat} {form : Form}
  {text : String}

/-! ## Allocations -/

theorem Tracked.takes (h : Tracked (host.seen frames) m symbols d) (hhost : host.Scrupulous)
    (hkind : kind.isHeap = true)
    (hrun : Machine.withLock .heap (host.allocateLocked frames kind words) m = .ok v m') :
    Grows (host.seen frames) m symbols d m' symbols d := by
  have htable := Host.symbols_takes hrun
  obtain ⟨-, m₁, hallocate, rfl⟩ := of_withLock hrun
  obtain ⟨hgives, -⟩ := Host.allocateLocked_gives (h.sound.locked .heap) hhost hkind hallocate
  exact .of_passes h hgives.unlocked.passes htable

section

variable (h : Tracked (host.seen frames) m symbols d) (hhost : host.Scrupulous)
include h hhost

/-- A new object is no symbol of the run, whatever finalizers have made of it meanwhile. -/
theorem Tracked.allocateWith (hkind : kind.isHeap = true)
    (hcareful : Fosters host finalize ∨ host.Undisturbed frames kind words m)
    (hrun : host.allocateWith finalize frames kind words m = .ok v m') :
    Host.Gives (host.seen frames) m m' v kind words ∧ (m'.nextBinding < wordLimit →
      ∃ symbols' d', Grows (host.seen frames) m symbols d m' symbols' d' ∧ v ∉ symbols') := by
  have hgives := Host.allocateWith_gives h.sound hhost hkind
    (hcareful.imp_left fun hfosters => ⟨hfosters.scans, hfosters.passing⟩) hrun
  refine ⟨hgives, fun hcount => ?_⟩
  suffices hgrows : ∃ symbols' d', Grows (host.seen frames) m symbols d m' symbols' d' by
    obtain ⟨symbols', d', hgrows⟩ := hgrows
    refine ⟨symbols', d', hgrows, fun hv => ?_⟩
    obtain hold | hnew := hgrows.listed v hv
    · exact hgives.fresh _ (h.inUse v hold) rfl
    · exact (hgives.unlisted v hnew (hgrows.run.ref hv)).1 rfl
  obtain ⟨m₁, hlocked, hfinalized⟩ := Host.of_allocateWith hrun
  have hgrows := h.takes hhost hkind hlocked
  obtain ⟨-, rfl⟩ | ⟨hpending, hfinalize⟩ := hfinalized
  · exact ⟨symbols, d, hgrows⟩
  · obtain ⟨hscans, -, hgrowing⟩ | hnone := hcareful
    · rw [host.seen_of_scans hscans] at *
      obtain ⟨symbols', d', hgrows'⟩ := hgrowing (v :: frames) m₁ m' symbols d
        ((hgrows.tracked h).mono (List.subset_cons_self v frames)) hcount hfinalize
      exact ⟨symbols', d', hgrows.trans (hgrows'.mono (List.subset_cons_self v frames))⟩
    · exact absurd (hnone _ _ hlocked) hpending

/-- An object that is built grows with the run. -/
theorem Tracked.buildWith (hkind : form.kind.isHeap = true)
    (hcareful : Fosters host finalize ∨ host.Undisturbed frames form.kind form.size m)
    (hfits : m.mode = .debug ∨ form.Fits)
    (hparts : ∀ part ∈ form.parts, part.isHeapRef = true → m.InUse (host.seen frames) part.address)
    (hrun : form.build (host.allocateWith finalize frames) m = .ok v m') :
    Passes (host.seen frames) m m' ∧ (m'.nextBinding < wordLimit →
      ∃ symbols' d', Grows (host.seen frames) m symbols d m' symbols' d') := by
  obtain ⟨hpasses, -, -⟩ := Host.build_spec h.sound hhost hkind
    (hcareful.imp_left fun hfosters => ⟨hfosters.scans, hfosters.passing⟩) hfits hparts hrun
  refine ⟨hpasses, fun hcount => ?_⟩
  obtain ⟨m₁, hallocate, hfill⟩ := Host.of_build hfits hrun
  obtain ⟨hgives, hgrows⟩ := h.allocateWith hhost hkind hcareful hallocate
  have helse := hgives.elsewhere hfill
  obtain ⟨symbols', d', hgrows, hnew⟩ := hgrows (Nat.lt_of_le_of_lt helse.numbers hcount)
  have htable : m'.symbols = m₁.symbols := by rw [helse.rest]
  exact ⟨symbols', d', hpasses, hgrows.run.elsewhere helse hnew hpasses.sound.heap,
    htable ▸ hgrows.table, hgrows.kept, htable ▸ hgrows.listed, hgrows.threads, hgrows.globals⟩

end

/-! ## Symbols -/

/-- A new symbol is filled in and gets a number. -/
theorem Run.fillSymbol (h : Run m symbols d) (hnew : v ∉ symbols) {header : Header}
    (hzero : m.Holds v header fun _ => 0) (hkind : header.kind = .symbol) (hwords : header.words = 7)
    (hcount : m'.nextBinding < wordLimit) {name : Value}
    (hfill : (Form.symbol name).fill v m = .ok () m') :
    Run m' (v :: symbols) { d with globals := Function.update d.globals v .unbound } := by
  obtain ⟨key, hagrees⟩ := h.agrees
  obtain ⟨m₁, hfields, hfilled, helse⟩ := Form.writes_fillSymbol name hkind hwords m hzero
  have h₁ := h.elsewhere helse hnew (helse.keeps hzero hfilled hagrees.heap).rested
  obtain ⟨_, m₂, hfields', hnumber⟩ := exists_of_bind_ok hfill
  cases hfields.symm.trans hfields'
  obtain ⟨cell, hcell, rfl, hword⟩ := hfilled.has.object
  have hsymbol : m₁.heap.space.SymbolAt v cell :=
    ⟨hzero.ref, hcell, hkind, by rw [hwords]; decide⟩
  cases hnumber.symm.trans (Machine.numberSymbol_apply hsymbol)
  have hunbound : (⟨cell.word 1⟩ : Value) = .unbound := congrArg Value.mk (hword 1)
  have hnumbered := h₁.number hsymbol hnew hcount (Machine.numberSymbol_apply hsymbol)
  rwa [hunbound] at hnumbered

/-- The value is a new symbol without a value. Others may have been interned while it was made. -/
structure Makes (m : Machine γ) (symbols : List Value) (d : State) (v : Value) (m' : Machine γ)
    (symbols' : List Value) (d' : State) : Prop where
  run : Run m' (v :: symbols') { d' with globals := Function.update d'.globals v .unbound }
  new : v ∉ symbols'
  unbound : ∀ thread ∈ m'.threads, d'.innermost thread.id v = none
  table : m'.symbols.symbols ⊆ v :: symbols'
  locked : Guarded.symbols ∈ m.held → m'.symbols = m.symbols
  kept : symbols ⊆ symbols'
  listed : ∀ symbol ∈ symbols', symbol ∈ symbols ∨ symbol ∈ m'.symbols.symbols
  threads : d'.threads = d.threads
  globals : ∀ symbol ∈ symbols, d'.globals symbol = d.globals symbol

section

variable (h : Tracked (host.seen frames) m symbols d) (hhost : host.Scrupulous)
  (hfits : m.mode = .debug ∨ (Form.string text).Fits) (hcount : m'.nextBinding < wordLimit)
include h hhost hfits hcount

theorem Tracked.makeSymbolWith
    (hcareful : Fosters host finalize ∨ host.Quiet finalize frames text m)
    (hrun : host.makeSymbolWith finalize frames text m = .ok v m') :
    ∃ symbols' d', Makes m symbols d v m' symbols' d' := by
  obtain ⟨name, m₁, hname, hsymbol⟩ := exists_of_bind_ok hrun
  obtain ⟨hpasses, hgrows₁⟩ := h.buildWith hhost rfl (hcareful.imp_right And.left) hfits
    (List.forall_mem_nil _) hname
  have hsmall : (Form.symbol name).Fits := (by decide : 0 + wordBytes < wordLimit)
  obtain ⟨m₂, hallocate, hfill⟩ := Host.of_build (.inr hsmall) hsymbol
  have hquiet := hcareful.imp_right fun hquiet => hquiet.2 name m₁ hname
  have hgives := Host.allocateWith_gives hpasses.sound hhost rfl
    (hquiet.imp_left fun hfosters => ⟨hfosters.scans, hfosters.passing⟩) hallocate
  obtain ⟨header, hheaderKind, hheaderWords, hzero⟩ := hgives.holds
  have helse := hgives.elsewhere hfill
  -- numbers only grow, so that those before were in range
  have hcount₂ : m₂.nextBinding < wordLimit := Nat.lt_of_le_of_lt helse.numbers hcount
  obtain ⟨symbols₁, d₁, hgrows₁⟩ :=
    hgrows₁ (Nat.lt_of_le_of_lt hgives.passes.around.numbers hcount₂)
  have h₁ := (hgrows₁.tracked h).mono (host.seen_subset name frames)
  obtain ⟨symbols₂, d₂, hgrows₂, hnew⟩ := (h₁.allocateWith hhost rfl hquiet hallocate).2 hcount₂
  have hgrows := hgrows₁.trans (hgrows₂.mono (host.seen_subset name frames))
  have htable : m'.symbols = m₂.symbols := by rw [helse.rest]
  have hthreads : m'.threads = m₂.threads := by rw [helse.rest]; rfl
  exact ⟨symbols₂, d₂, hgrows.run.fillSymbol hnew hzero hheaderKind hheaderWords hcount hfill, hnew,
    fun thread hthread => hgrows.run.innermost_eq_none (hthreads ▸ hthread) hnew,
    htable ▸ List.subset_cons_of_subset v hgrows.table,
    fun hheld => htable.trans (hgrows.passes.locked hheld), hgrows.kept, htable ▸ hgrows.listed,
    hgrows.threads, hgrows.globals⟩

/-- A name has its symbol already, or it gets one. -/
theorem Tracked.internWith
    (hcareful : Fosters host finalize ∨
      host.Quiet finalize frames text { m with held := .symbols :: m.held })
    (hrun : host.internWith finalize frames text m = .ok v m') :
    m.symbols.get? text = some v ∧ v ∈ symbols ∧ m'.symbols = m.symbols ∧ Run m' symbols d ∨
      m.symbols.get? text = none ∧ m'.symbols.get? text = some v ∧
        ∃ symbols' d', Makes m symbols d v m' symbols' d' := by
  obtain ⟨hfree, m₁, hinside, rfl⟩ := of_withLock hrun
  obtain ⟨_, _, hget, hrest⟩ := exists_of_bind_ok hinside
  cases hget
  dsimp only at hrest
  cases hlookup : m.symbols.get? text with
  | some symbol =>
    rw [hlookup] at hrest
    cases hrest
    obtain ⟨before, after, hentries, -⟩ := List.lookup_eq_some_iff.mp hlookup
    refine .inl ⟨rfl, h.table (List.mem_map_of_mem (a := (text, v)) ?_), rfl,
      h.run.aside rfl rfl rfl rfl rfl⟩
    rw [hentries]
    exact List.mem_append_right _ List.mem_cons_self
  | none =>
    rw [hlookup] at hrest
    obtain ⟨symbol, m₂, hmake, hrest⟩ := exists_of_bind_ok hrest
    cases hrest
    obtain ⟨symbols', d', hmakes⟩ :=
      (h.locked .symbols).makeSymbolWith hhost hfits
        (show m₂.nextBinding < wordLimit from hcount) hcareful hmake
    have hsame : m₂.symbols = m.symbols := hmakes.locked List.mem_cons_self
    have htable : (m₂.symbols.insert text v).symbols = v :: m₂.symbols.symbols :=
      (Machine.symbols_insert (hsame ▸ hlookup) v).2
    refine .inr ⟨rfl, SymbolTable.get?_insert_self _ _ _, symbols', d',
      hmakes.run.aside rfl rfl rfl rfl rfl, hmakes.new, hmakes.unbound, ?_,
      fun hheld => absurd hheld hfree, hmakes.kept, fun symbol hsymbol => ?_, hmakes.threads,
      hmakes.globals⟩
    · rw [htable]
      exact List.cons_subset.mpr ⟨List.mem_cons_self, hmakes.table⟩
    · rw [htable]
      exact (hmakes.listed symbol hsymbol).imp_right (List.mem_cons_of_mem v)

end

/-! ## Finalizers -/

/-- A symbol that was interned is tracked from then on. -/
theorem Makes.grows (hmakes : Makes m symbols d v m' symbols' d') (hpasses : Passes frames m m')
    (hv : v ∈ m'.symbols.symbols) : Grows frames m symbols d m' (v :: symbols')
      { d' with globals := Function.update d'.globals v .unbound } := by
  refine ⟨hpasses, hmakes.run, hmakes.table, List.subset_cons_of_subset v hmakes.kept,
    fun symbol hsymbol => ?_, hmakes.threads, fun symbol hsymbol => ?_⟩
  · obtain rfl | hold := List.mem_cons.mp hsymbol
    · exact .inr hv
    · exact hmakes.listed symbol hold
  · have hne : symbol ≠ v := fun heq => hmakes.new (heq ▸ hmakes.kept hsymbol)
    exact (Function.update_of_ne hne _ _).trans (hmakes.globals symbol hsymbol)

section

variable (hhost : host.Scrupulous) (hfosters : Fosters host finalize)
include hhost hfosters

theorem Tracked.intern_grows (h : Tracked frames m symbols d)
    (hfits : m.mode = .debug ∨ (Form.string text).Fits) (hcount : m'.nextBinding < wordLimit)
    (hrun : host.internWith finalize frames text m = .ok v m') :
    ∃ symbols' d', Grows frames m symbols d m' symbols' d' := by
  obtain ⟨hpasses, -⟩ :=
    Host.internWith_spec hhost hfosters.scans hfosters.passing h.sound hfits hrun
  rw [← host.seen_of_scans hfosters.scans frames] at h
  obtain ⟨-, -, htable, -⟩ | ⟨-, hget, symbols', d', hmakes⟩ :=
    h.internWith hhost hfits hcount (.inl hfosters) hrun
  · rw [host.seen_of_scans hfosters.scans] at h
    exact ⟨symbols, d, .of_passes h hpasses htable⟩
  · obtain ⟨before, after, hentries, -⟩ := List.lookup_eq_some_iff.mp hget
    refine ⟨_, _, hmakes.grows hpasses (List.mem_map_of_mem (a := (text, v)) ?_)⟩
    rw [hentries]
    exact List.mem_append_right _ List.mem_cons_self

omit hhost in
theorem Tracked.collect_grows (h : Tracked frames m symbols d) (hcount : m'.nextBinding < wordLimit)
    {stats : Stats} (hrun : host.collectWith finalize frames m = .ok stats m') :
    ∃ symbols' d', Grows frames m symbols d m' symbols' d' := by
  obtain ⟨_, m₁, hlocked, hrest⟩ := exists_of_bind_ok hrun
  obtain ⟨-, m₂, hcollect, rfl⟩ := of_withLock hlocked
  obtain ⟨hpasses, -⟩ := host.passes_collectLocked (h.sound.locked .heap) hcollect
  obtain ⟨hbeside, -⟩ := host.of_collectLocked hcollect
  rw [host.seen_of_scans hfosters.scans] at hpasses
  obtain ⟨_, m₃, hfinalizers, hpure⟩ := exists_of_bind_ok hrest
  cases hpure
  have hgrows := Grows.of_passes h hpasses.unlocked hbeside.symbols
  obtain ⟨symbols', d', hlater⟩ := hfosters.growing _ _ _ _ _ (hgrows.tracked h) hcount hfinalizers
  exact ⟨symbols', d', hgrows.trans hlater⟩

theorem Tracked.perform_grows (h : Tracked frames m symbols d) {object : Value} {action : Action}
    (hfits : ∀ text, action = .intern text → m.mode = .debug ∨ (Form.string text).Fits)
    (hcount : m'.nextBinding < wordLimit)
    (hrun : host.perform finalize frames object action m = .ok () m') :
    ∃ symbols' d', Grows frames m symbols d m' symbols' d' := by
  cases action with
  | collect =>
    obtain ⟨stats, hcollect⟩ := of_discard hrun
    exact h.collect_grows hfosters hcount hcollect
  | intern name =>
    obtain ⟨symbol, hintern⟩ := of_discard hrun
    exact h.intern_grows hhost hfosters (hfits name rfl) hcount hintern
  | vector words =>
    obtain ⟨v, hallocate⟩ := of_discard hrun
    rw [← host.seen_of_scans hfosters.scans frames] at h
    obtain ⟨symbols', d', hgrows, -⟩ :=
      (h.allocateWith hhost rfl (.inl hfosters) hallocate).2 hcount
    rw [host.seen_of_scans hfosters.scans] at hgrows
    exact ⟨symbols', d', hgrows⟩
  | report label keep =>
    have hpasses := Host.perform_passes hhost hfosters.scans hfosters.passing h.sound hfits hrun
    cases hrun
    exact ⟨symbols, d, .of_passes h hpasses rfl⟩
  | fail fault => exact (Machine.raise_ne_ok hrun).elim

theorem Tracked.performAll_grows (h : Tracked frames m symbols d) {object : Value}
    {finalizer : Finalizer}
    (hfits : ∀ text, .intern text ∈ finalizer → m.mode = .debug ∨ (Form.string text).Fits)
    (hcount : m'.nextBinding < wordLimit)
    (hrun : host.performAll finalize frames object finalizer m = .ok () m') :
    ∃ symbols' d', Grows frames m symbols d m' symbols' d' := by
  induction finalizer generalizing m symbols d with
  | nil =>
    cases hrun
    exact ⟨symbols, d, .of_passes h (.refl h.sound) rfl⟩
  | cons action rest ih =>
    obtain ⟨_, m₁, hfirst, hrest⟩ := exists_of_bind_ok hrun
    have hfirstFits : ∀ text, action = .intern text → m.mode = .debug ∨ (Form.string text).Fits :=
      fun text htext => hfits text (htext ▸ List.mem_cons_self)
    have hpasses : Passes frames m m₁ := Host.perform_passes hhost hfosters.scans hfosters.passing
      h.sound hfirstFits hfirst
    have hrestFits : ∀ text, .intern text ∈ rest → m₁.mode = .debug ∨ (Form.string text).Fits := by
      rw [hpasses.around.mode]
      exact fun text htext => hfits text (List.mem_cons_of_mem _ htext)
    have hlater : Passes frames m₁ m' := Host.performAll_passes hhost hfosters.scans
      hfosters.passing hpasses.sound hrestFits hrest
    obtain ⟨symbols₁, d₁, hgrows⟩ := h.perform_grows hhost hfosters hfirstFits
      (Nat.lt_of_le_of_lt hlater.around.numbers hcount) hfirst
    obtain ⟨symbols', d', hgrows'⟩ := ih (hgrows.tracked h) hrestFits hrest
    exact ⟨symbols', d', hgrows.trans hgrows'⟩

end

/-- The finalizers themselves, however deep their runs are nested. -/
theorem fosters_finalizeWith (hhost : host.Scrupulous) (hscans : host.scans = true) (fuel : Nat) :
    Fosters (γ := γ) host (host.finalizeWith fuel) := by
  refine ⟨hscans, Host.passing_finalizeWith hhost hscans fuel, ?_⟩
  induction fuel with
  | zero =>
    intro frames m m' symbols d h _ hrun
    cases hrun
    exact ⟨symbols, d, .of_passes h (.refl h.sound) rfl⟩
  | succ fuel ih =>
    intro frames m m' symbols d h hcount hrun
    by_cases hheld : Guarded.heap ∈ m.held
    · cases hrun.symm.trans (Host.finalizeWith_held hheld)
    cases hpending : m.heap.pending with
    | nil =>
      cases hrun.symm.trans (Host.finalizeWith_nil hheld hpending)
      exact ⟨symbols, d, .of_passes h (.refl h.sound) rfl⟩
    | cons entry rest =>
      rw [Host.finalizeWith_cons hheld hpending] at hrun
      have hfosters : Fosters (γ := γ) host (host.finalizeWith fuel) :=
        ⟨hscans, Host.passing_finalizeWith hhost hscans fuel, ih⟩
      obtain ⟨_, m₁, htake, hrest⟩ := exists_of_bind_ok hrun
      cases htake
      have htaken := Grows.of_passes h (Host.passes_take h.sound) rfl
      have hfits : ∀ text, .intern text ∈ entry.2 → m.mode = .debug ∨ (Form.string text).Fits :=
        fun text htext => h.sound.texts.imp_right fun hfit =>
          hfit text (.inr ⟨entry, hpending ▸ List.mem_cons_self, htext⟩)
      obtain ⟨_, m₂, hperform, hrest⟩ := exists_of_bind_ok hrest
      have hpasses : Passes frames _ m₂ := Host.performAll_passes hhost hscans hfosters.passing
        htaken.passes.sound hfits hperform
      obtain ⟨_, m₃, hfinish, hrest⟩ := exists_of_bind_ok hrest
      cases hfinish
      have hfinished : Passes frames m₂ _ := Host.passes_finish hpasses.sound entry.1
      have hlater : Passes frames _ m' := hfosters.passing frames _ _ hfinished.sound hrest
      have hcount₂ : m₂.nextBinding < wordLimit := Nat.lt_of_le_of_lt hlater.around.numbers hcount
      obtain ⟨symbols₂, d₂, hperformed⟩ :=
        (htaken.tracked h).performAll_grows hhost hfosters hfits hcount₂ hperform
      have hgrows := (htaken.trans hperformed).trans
        (.of_passes (hperformed.tracked (htaken.tracked h)) hfinished rfl)
      obtain ⟨symbols', d', hgrows'⟩ := ih frames _ _ _ _ (hgrows.tracked h) hcount hrest
      exact ⟨symbols', d', hgrows.trans hgrows'⟩

theorem fosters_runFinalizers (hhost : host.Scrupulous) (hscans : host.scans = true) :
    Fosters (γ := γ) host host.runFinalizers := by
  refine ⟨hscans, Host.passing_runFinalizers hhost hscans, ?_⟩
  intro frames m m' symbols d h hcount hrun
  obtain ⟨_, m₁, hget, hrest⟩ := exists_of_bind_ok hrun
  cases hget
  exact (fosters_finalizeWith hhost hscans _).growing frames m m' symbols d h hcount hrest

/-! ## Making symbols -/

section

variable (h : Tracked (host.seen frames) m symbols d) (hcount : m'.nextBinding < wordLimit)
include h hcount

theorem Tracked.makeSymbol (hcalm : host.Calm frames text m)
    (hrun : host.makeSymbol frames text m = .ok v m') :
    ∃ symbols' d', Makes m symbols d v m' symbols' d' := by
  rw [← (Host.agrees_makeSymbol frames text m).2 hcalm.honest] at hrun
  have hguarded : Tracked (host.guarded.seen frames) m symbols d := h
  exact hguarded.makeSymbolWith host.scrupulous_guarded hcalm.fits hcount
    (hcalm.quiet.imp (fosters_runFinalizers host.scrupulous_guarded)
      (Host.quiet_guarded hcalm.honest).mpr) hrun

theorem Tracked.intern (hcalm : host.Calm frames text { m with held := .symbols :: m.held })
    (hrun : host.intern frames text m = .ok v m') :
    m.symbols.get? text = some v ∧ v ∈ symbols ∧ m'.symbols = m.symbols ∧ Run m' symbols d ∨
      m.symbols.get? text = none ∧ m'.symbols.get? text = some v ∧
        ∃ symbols' d', Makes m symbols d v m' symbols' d' := by
  rw [← (Host.agrees_intern frames text m).2 hcalm.honest] at hrun
  have hguarded : Tracked (host.guarded.seen frames) m symbols d := h
  exact hguarded.internWith host.scrupulous_guarded hcalm.fits hcount
    (hcalm.quiet.imp (fosters_runFinalizers host.scrupulous_guarded)
      (Host.quiet_guarded hcalm.honest).mpr) hrun

end

end Dynamic

end Substrate
