import Substrate.Proofs.Construct.Survival
import Substrate.Proofs.Space.Access

/-!
# Fields of live objects

A field may be written within the payload words of its object. A collection follows the fields that the
object says it has: of a vector or a structure only as many elements as the stored length counts. The two
agree on every object that a typed constructor makes. An object that is allocated without a constructor
has room for elements and counts none of them.

So what is read from a field is live if the field is followed, or if no reference has been stored into a
field that is not: `Run.isLive_of_fieldGet`. A reference that has been stored into one may lead nowhere
after a collection, however live the object is: `Run.dangling_element`.
-/

namespace Substrate

variable {s : Space} {v value : Value} {field : Field} {cell cell' : Cell} {word : Nat}

/-! ## What collections follow -/

/-- Collections follow the field in an object with this payload: elements only as far as the stored
length goes. -/
def Field.Followed (field : Field) (cell : Cell) : Prop :=
  match field with
  | .vectorElt index => index < (cell.word At.vectorLength).toNat
  | .structSlot index => index < (cell.word At.recordLength).toNat
  | _ => True

/-- Among the fields that may be accessed, collections visit those that they follow. -/
theorem Field.mem_slots_iff (hkind : cell.header.kind = field.kind)
    (hword : field.word .debug = .ok word) (hlt : word < cell.header.words) :
    word ∈ cell.slots ↔ field.Followed cell := by
  rw [Cell.mem_slots, hkind]
  cases field with
  | vectorElt index =>
    obtain rfl := Machine.Form.add_eq (.inl rfl) hword
    simp only [Field.kind, Layout.of, Layout.valueLengthWord?, Layout.room, Field.Followed,
      At.vectorLength]
    simp
    omega
  | structSlot index =>
    obtain rfl := Machine.Form.add_eq (.inl rfl) hword
    simp only [Field.kind, Layout.of, Layout.valueLengthWord?, Layout.room, Field.Followed,
      At.recordLength]
    simp
    omega
  | _ =>
    obtain rfl := Except.ok.inj hword
    simp [Field.kind, Layout.of, Field.Followed, hlt]

/-- A reference is only in a field that collections follow. -/
def Cell.Tidy (cell : Cell) : Prop :=
  ∀ (field : Field) (word : Nat), cell.header.kind = field.kind → field.word .debug = .ok word →
    word < cell.header.words → (⟨cell.word word⟩ : Value).isHeapRef = true → word ∈ cell.slots

theorem Cell.Tidy.similar (h : cell.Tidy) (hsim : cell.Similar cell') : cell'.Tidy := by
  intro field word hkind hword hlt href
  rw [hsim.slots]
  rw [hsim.kind] at hkind
  rw [hsim.words] at hlt
  rw [hsim.word] at href
  exact h field word hkind hword hlt href

/-- The object counts as many elements as there is room for. -/
structure Cell.Counted (cell : Cell) : Prop where
  limit : cell.header.words < Space.payloadLimit
  length : ∀ word, (Layout.of cell.header.kind).valueLengthWord? cell.header.words = some word →
    (cell.word word).toNat = (Layout.of cell.header.kind).room cell.header.words

namespace Cell.Counted

theorem similar (h : cell.Counted) (hsim : cell.Similar cell') : cell'.Counted := by
  refine ⟨hsim.words ▸ h.limit, fun word hword => ?_⟩
  rw [hsim.kind, hsim.words] at hword
  rw [hsim.word, hsim.kind, hsim.words]
  exact h.length word hword

theorem setWord (h : cell.Counted) (hkind : cell.header.kind = field.kind)
    (hword : field.word .debug = .ok word) (bits : Word) : (cell.setWord word bits).Counted := by
  refine ⟨(Cell.header_setWord ..).symm ▸ h.limit, fun w hw => ?_⟩
  rw [Cell.header_setWord] at hw
  rw [Field.length_setWord hkind hword bits hw, Cell.header_setWord]
  exact h.length w hw

/-- Every field that may be accessed is followed. -/
theorem followed (h : cell.Counted) (hkind : cell.header.kind = field.kind)
    (hlt : field.position < cell.header.words) : field.Followed cell := by
  cases field with
  | vectorElt index =>
    simp only [Field.position] at hlt
    have hlength := h.length 0 (by rw [hkind]; exact if_pos (by omega))
    rw [hkind] at hlength
    rw [Field.Followed, hlength]
    exact Nat.lt_sub_iff_add_lt'.mpr hlt
  | structSlot index =>
    simp only [Field.position] at hlt
    have hlength := h.length 1 (by rw [hkind]; exact if_pos (by omega))
    rw [hkind] at hlength
    rw [Field.Followed, hlength]
    exact Nat.lt_sub_iff_add_lt'.mpr hlt
  | _ => trivial

end Cell.Counted

/-- Constructors count all elements that there is room for. -/
theorem Machine.Form.Describes.counted {form : Machine.Form} (h : form.Describes cell)
    (hmade : ∀ kind words, form ≠ .bare kind words) : cell.Counted := by
  obtain ⟨hkind, hwords, hlimit, index, hword⟩ := h
  refine ⟨hlimit, fun w hw => ?_⟩
  have hlength : ∀ n ≤ form.size, (UInt64.ofNat n).toNat = n := by
    intro n hn
    simp only [Space.payloadLimit] at hlimit
    exact Nat.mod_eq_of_lt (by omega)
  rw [hkind, hwords] at hw ⊢
  rw [hword]
  cases form with
  | bare kind words => exact absurd rfl (hmade kind words)
  | vector length fill =>
    have hfirst : (if 0 < 1 + length then some 0 else none) = some w := hw
    rw [if_pos (by omega)] at hfirst
    cases hfirst
    have hsame : (UInt64.ofNat length).toNat = length := hlength length (Nat.le_add_left length 1)
    exact hsame.trans (Nat.add_sub_cancel_left 1 length).symm
  | record type slots =>
    have hsecond : (if 1 < 2 + slots.length then some 1 else none) = some w := hw
    rw [if_pos (by omega)] at hsecond
    cases hsecond
    have hsame : (UInt64.ofNat slots.length).toNat = slots.length :=
      hlength slots.length (Nat.le_add_left slots.length 2)
    exact hsame.trans (Nat.add_sub_cancel_left 2 slots.length).symm
  | _ => cases hw

/-- An object without a constructor counts no elements, but it holds no reference either. -/
theorem Machine.Form.Describes.tidy {form : Machine.Form} (h : form.Describes cell) :
    cell.Tidy := by
  intro field word hkind hword hlt href
  by_cases hmade : ∀ kind words, form ≠ .bare kind words
  · obtain rfl := Field.eq_position (.inl rfl) hword
    exact (Field.mem_slots_iff hkind hword hlt).mpr ((h.counted hmade).followed hkind hlt)
  · simp only [not_forall, not_not] at hmade
    obtain ⟨kind, words, rfl⟩ := hmade
    obtain ⟨index, hpayload⟩ := h.payload
    rw [hpayload] at href
    cases href

namespace Space

/-- Collections follow this field of the object. -/
def Follows (s : Space) (v : Value) (field : Field) : Prop :=
  ∃ cell, s.object? v.address = some cell ∧ field.Followed cell

/-- References are only in fields that collections follow. -/
def Tidy (s : Space) : Prop := ∀ a cell, s.object? a = some cell → cell.Tidy

/-- A field may be written anywhere in the object. The object stays tidy if a reference goes to a field
that is followed. -/
theorem Tidy.setWord (hs : s.Valid) (ht : s.Tidy) (h : s.locate .debug v field = .ok (some word))
    (hfollows : value.isHeapRef = true → s.Follows v field) :
    (s.setWord v.address word value.bits).Tidy := by
  obtain ⟨-, ⟨cell, hcell, hkind, hlt⟩, hword⟩ := locate_debug h
  intro a written hwritten
  rw [hs.object?_setWord hcell] at hwritten
  split at hwritten
  · obtain rfl := Option.some.inj hwritten
    intro other w hkind' hword' hlt' href
    rw [Field.slots_setWord hkind hword]
    rw [Cell.header_setWord] at hkind' hlt'
    rw [Cell.word_setWord] at href
    split at href
    next heq =>
      obtain ⟨cell', hcell', hfollowed⟩ := hfollows href
      obtain rfl : cell = cell' := Option.some.inj (hcell.symm.trans hcell')
      exact heq ▸ (Field.mem_slots_iff hkind hword hlt).mpr hfollowed
    next => exact ht _ cell hcell other w hkind' hword' hlt' href
  · exact ht a written hwritten

/-- A debug build does not put up with an access that leaves the object. -/
theorem locate_debug_ne_none : s.locate .debug v field ≠ .ok none := by
  intro h
  unfold locate at h
  cases href : v.isHeapRef with
  | false => simp [href, Mode.violation, bind, Except.bind] at h
  | true =>
    cases hword : field.word .debug with
    | error fault => simp [href, hword, bind, Except.bind] at h
    | ok w =>
      by_cases hkind : (s.header v.address).kind = field.kind <;>
        by_cases hwords : (s.header v.address).words ≤ w <;>
          simp [href, hword, hkind, hwords, Mode.violation, bind, Except.bind, pure,
            Except.pure] at h

/-- What a debug build reads is in a field of an object. -/
theorem of_fieldGet (h : s.fieldGet .debug v field = .ok value) :
    ∃ word, s.locate .debug v field = .ok (some word) ∧ value = ⟨s.word v.address word⟩ := by
  unfold fieldGet at h
  cases hlocate : s.locate .debug v field with
  | error fault =>
    rw [hlocate] at h
    cases h
  | ok located =>
    cases located with
    | none => exact absurd hlocate locate_debug_ne_none
    | some word =>
      rw [hlocate] at h
      exact ⟨word, rfl, (Except.ok.inj h).symm⟩

theorem of_fieldSet {t : Space} (h : fieldSet .debug v field value s = .ok () t) :
    ∃ word, s.locate .debug v field = .ok (some word) ∧
      t = s.setWord v.address word value.bits := by
  unfold fieldSet at h
  split at h
  · cases h
  next hnone => exact absurd hnone locate_debug_ne_none
  next word hlocate =>
    cases h
    exact ⟨word, hlocate, rfl⟩

/-- A debug build checks an index against the stored length. -/
theorem of_checkIndex {index : Nat} {inside : Bool} (h : s.checkIndex .debug v index = .ok inside) :
    inside = true ∧ index < (s.word v.address At.vectorLength).toNat := by
  cases hlength : s.vectorLength .debug v with
  | error fault => simp [checkIndex, hlength, bind, Except.bind] at h
  | ok length =>
    have hlt : index < length := by
      by_contra hle
      simp [checkIndex, hlength, Nat.not_lt.mp hle, Mode.violation, bind, Except.bind] at h
    refine ⟨?_, ?_⟩
    · simpa [checkIndex, hlength, Nat.not_le.mpr hlt, bind, Except.bind, pure, Except.pure]
        using h.symm
    · unfold vectorLength rawWord at hlength
      cases hcheck : s.checkWord .debug v .vector At.vectorLength with
      | error fault => simp [hcheck, bind, Except.bind, Functor.map, Except.map] at hlength
      | ok readable =>
        cases readable with
        | false =>
          obtain rfl : 0 = length := by
            simpa [hcheck, bind, Except.bind, pure, Except.pure, Functor.map, Except.map]
              using hlength
          exact absurd hlt (Nat.not_lt_zero index)
        | true =>
          obtain rfl : (s.word v.address At.vectorLength).toNat = length := by
            simpa [hcheck, bind, Except.bind, pure, Except.pure, Functor.map, Except.map]
              using hlength
          exact hlt

/-- A vector is only written where collections follow it. -/
theorem of_vectorSet {t : Space} {index : Nat} (h : vectorSet .debug v index value s = .ok () t) :
    s.Follows v (.vectorElt index) ∧ fieldSet .debug v (.vectorElt index) value s = .ok () t := by
  unfold vectorSet at h
  split at h
  next => cases h
  next houtside => cases (of_checkIndex houtside).1
  next hinside =>
    obtain ⟨word, hlocate, -⟩ := of_fieldSet h
    obtain ⟨-, ⟨cell, hcell, -⟩, -⟩ := locate_debug hlocate
    have hlt := (of_checkIndex hinside).2
    rw [word_of_object? hcell] at hlt
    exact ⟨⟨cell, hcell, hlt⟩, h⟩

end Space

namespace Machine

variable {γ : Type} {m m' : Machine γ} {frames : List Value} {host : Host} {careful : Bool}

/-! ## Storing -/

theorem of_onSpace {α : Type} {x : Mode → Run Space α} {a : α} (hrun : onSpace x m = .ok a m') :
    ∃ space, x m.mode m.heap.space = .ok a space ∧
      m' = { m with heap := { m.heap with space } } := by
  obtain ⟨heap, hheap, rfl⟩ := of_onHeap hrun
  unfold Heap.onSpace at hheap
  dsimp only at hheap
  split at hheap
  next space hx =>
    cases hheap
    exact ⟨space, hx, rfl⟩
  next => cases hheap

/-- A machine stays in order if something live is stored into a field. -/
theorem Sound.store (hs : Sound m) (hlocate : m.heap.space.locate .debug v field = .ok (some word))
    (hvalue : m.heap.space.Accepts value) :
    Sound { m with
      heap := { m.heap with space := m.heap.space.setWord v.address word value.bits } } := by
  obtain ⟨-, ⟨cell, hcell, -⟩, -⟩ := Space.locate_debug hlocate
  have htraceable := Space.traceable_setWord hs.valid hs.traceable hlocate hvalue
  refine hs.of_kept (hs.wellFormed.write hcell word value.bits htraceable)
    (.of_heap rfl rfl fun _ => id) (fun symbol hsymbol => .inl hsymbol)
    fun a (huse : m.InUse [] a) => ?_
  rw [hs.valid.object?_setWord hcell]
  split
  · rfl
  · exact hs.isSome_of_inUse huse

theorem Passes.tidy (h : Passes frames m m') (ht : m.heap.space.Tidy) : m'.heap.space.Tidy := by
  intro a cell' hcell'
  obtain ⟨cell, hcell, hsim⟩ | ⟨form, hform⟩ := h.made a cell' hcell'
  · exact (ht a cell hcell).similar hsim
  · exact hform.tidy

/-! ## Runs of a client -/

namespace Host

/-- When a collection is over, no finalizer is queued. -/
def Settled (host : Host) (frames : List Value) (m : Machine γ) : Prop :=
  ∀ stats m', withLock .heap (host.collectLocked frames) m = .ok stats m' → m'.heap.pending = []

/-- With nothing queued there is nothing to run. -/
theorem runFinalizers_of_empty (hempty : m.heap.pending = [])
    (hrun : host.runFinalizers frames m = .ok () m') : m' = m := by
  obtain ⟨_, m₁, hget, hrest⟩ := exists_of_bind_ok hrun
  cases hget
  cases hfuel : m.heap.finalizerCount with
  | zero =>
    rw [hfuel] at hrest
    cases hrest
    rfl
  | succ fuel =>
    rw [hfuel] at hrest
    obtain ⟨_, m₁, hget, hrest⟩ := exists_of_bind_ok hrest
    cases hget
    dsimp only at hrest
    rw [hempty] at hrest
    split at hrest
    · cases hrest
    · cases hrest
      rfl

theorem collect_passes (hhost : host.Scrupulous) (hs : Sound m)
    (hquiet : host.scans = true ∨ host.Settled frames m) {stats : Stats}
    (hrun : host.collect frames m = .ok stats m') : Passes (host.seen frames) m m' := by
  obtain hscans | hsettled := hquiet
  · rw [host.seen_of_scans hscans]
    exact collectWith_passes hscans (passing_runFinalizers hhost hscans) hs hrun
  · obtain ⟨_, m₁, hlocked, hrest⟩ := exists_of_bind_ok hrun
    obtain ⟨_, m₂, hfinalize, hpure⟩ := exists_of_bind_ok hrest
    cases hpure
    obtain rfl := runFinalizers_of_empty (hsettled _ _ hlocked) hfinalize
    obtain ⟨-, m₃, hcollect, rfl⟩ := of_withLock hlocked
    exact (host.passes_collectLocked (hs.locked .heap) hcollect).1.unlocked

end Host

/-- The machine of a client in a debug build: it builds objects from what is in use, collects, stores
what is live into fields and elements, and does other things that leave the objects alone. No access is a
broken contract. A careful client stores references only into fields that collections follow. -/
inductive Run (host : Host) (careful : Bool) : Machine γ → Prop where
  | start {options : Options} {client : γ} {m : Machine γ}
      (hrun : start .debug options client = .ok m) : Run host careful m
  | build {m m' : Machine γ} {frames : List Value} {form : Form} {v : Value}
      (h : Run host careful m) (hkind : form.kind.isHeap = true)
      (hquiet : host.scans = true ∨ host.Undisturbed frames form.kind form.size m)
      (hparts : ∀ part ∈ form.parts, part.isHeapRef = true →
        m.InUse (host.seen frames) part.address)
      (hrun : host.build frames form m = .ok v m') : Run host careful m'
  | list {m m' : Machine γ} {frames elements : List Value} {v : Value}
      (h : Run host careful m) (hscans : host.scans = true)
      (helements : ∀ x ∈ elements, x.isHeapRef = true → m.InUse frames x.address)
      (hrun : host.list frames elements m = .ok v m') : Run host careful m'
  | symbol {m m' : Machine γ} {frames : List Value} {text : String} {v : Value}
      (h : Run host careful m) (hscans : host.scans = true)
      (hrun : host.makeSymbol frames text m = .ok v m' ∨ host.intern frames text m = .ok v m') :
      Run host careful m'
  | collect {m m' : Machine γ} {frames : List Value} {stats : Stats}
      (h : Run host careful m) (hquiet : host.scans = true ∨ host.Settled frames m)
      (hrun : host.collect frames m = .ok stats m') : Run host careful m'
  | store {m m' : Machine γ} {v value : Value} {field : Field}
      (h : Run host careful m) (hvalue : m.heap.space.Accepts value)
      (hcareful : careful = true → value.isHeapRef = true → m.heap.space.Follows v field)
      (hrun : setField v field value m = .ok () m') : Run host careful m'
  | element {m m' : Machine γ} {v value : Value} {index : Nat}
      (h : Run host careful m) (hvalue : m.heap.space.Accepts value)
      (hrun : onSpace (fun mode => Space.vectorSet mode v index value) m = .ok () m') :
      Run host careful m'
  | other {m m' : Machine γ} (h : Run host careful m) (hs : Sound m')
      (hmode : m'.mode = m.mode) (hspace : m'.heap.space = m.heap.space) : Run host careful m'

/-- What a run keeps. Everything is in order, and with a careful client all references are where
collections follow them. -/
structure Orderly (careful : Bool) (m : Machine γ) : Prop where
  sound : Sound m
  debug : m.mode = .debug
  tidy : careful = true → m.heap.space.Tidy

theorem Orderly.passes (h : Orderly careful m) (hpasses : Passes frames m m') :
    Orderly careful m' :=
  ⟨hpasses.sound, hpasses.around.mode.trans h.debug, fun hcareful => hpasses.tidy (h.tidy hcareful)⟩

theorem Orderly.store {space : Space} (h : Orderly careful m) (hvalue : m.heap.space.Accepts value)
    (hcareful : careful = true → value.isHeapRef = true → m.heap.space.Follows v field)
    (hset : Space.fieldSet .debug v field value m.heap.space = .ok () space) :
    Orderly careful { m with heap := { m.heap with space } } := by
  obtain ⟨word, hlocate, rfl⟩ := Space.of_fieldSet hset
  exact ⟨h.sound.store hlocate hvalue, h.debug,
    fun hc => (h.tidy hc).setWord h.sound.valid hlocate (hcareful hc)⟩

namespace Run

theorem orderly (h : Run host careful m) (hhost : host.Scrupulous) : Orderly careful m := by
  have hpassing : host.scans = true → Host.Passing (γ := γ) host.runFinalizers :=
    Host.passing_runFinalizers hhost
  induction h with
  | start hrun =>
    obtain ⟨hdebug, hheap, -⟩ := start_ok hrun
    refine ⟨sound_of_start hrun (hheap ▸ Heap.wellFormed_new .debug _) (hheap ▸ rfl), hdebug,
      fun _ a cell hcell => ?_⟩
    rw [hheap] at hcell
    exact absurd hcell (Heap.object?_new .debug _ a cell)
  | build _ hkind hquiet hparts hrun ih =>
    have hready := hquiet.imp_left fun hscans => And.intro hscans (hpassing hscans)
    exact ih.passes
      (Host.build_spec ih.sound hhost hkind hready (.inl ih.debug) hparts hrun).passes
  | list _ hscans helements hrun ih =>
    exact ih.passes (Host.consAll_spec hhost hscans ih.sound
      (fun x hx => helements x (List.mem_reverse.mp hx)) (show Spine _ [] .nil from rfl) hrun).1
  | symbol _ hscans hrun ih =>
    obtain hmake | hintern := hrun
    · obtain ⟨name, hbuilds, -⟩ := Host.makeSymbolWith_spec hhost hscans (hpassing hscans)
        ih.sound (.inl ih.debug) hmake
      exact ih.passes hbuilds.passes
    · exact ih.passes (Host.internWith_spec hhost hscans (hpassing hscans) ih.sound
        (.inl ih.debug) hintern).1
  | collect _ hquiet hrun ih =>
    exact ih.passes (Host.collect_passes hhost ih.sound hquiet hrun)
  | store _ hvalue hcareful hrun ih =>
    obtain ⟨space, hset, rfl⟩ := of_onSpace hrun
    exact ih.store hvalue hcareful (ih.debug ▸ hset)
  | element _ hvalue hrun ih =>
    obtain ⟨space, hset, rfl⟩ := of_onSpace hrun
    obtain ⟨hfollows, hset⟩ := Space.of_vectorSet (ih.debug ▸ hset)
    exact ih.store hvalue (fun _ _ => hfollows) hset
  | other _ hs hmode hspace ih =>
    exact ⟨hs, hmode.trans ih.debug, fun hcareful => hspace ▸ ih.tidy hcareful⟩

/-- A host that is honest to a machine that starts is honest to it all the time. A host that is guarded
cannot be told from it then. -/
theorem guarded (h : Run host careful m) (hhonest : ∀ bytes, host.Honest (Space.new bytes)) :
    Run host.guarded careful m ∧ host.Honest m.heap.space := by
  induction h with
  | start hrun =>
    obtain ⟨-, hheap, -⟩ := start_ok hrun
    exact ⟨.start hrun, hheap ▸ hhonest _⟩
  | build _ hkind hquiet hparts hrun ih =>
    obtain ⟨hsame, hlater⟩ := (Host.agrees_build _ _).of_ok ih.2 hrun
    exact ⟨.build ih.1 hkind (hquiet.imp_right (Host.undisturbed_guarded ih.2).mpr) hparts hsame,
      hlater⟩
  | list _ hscans helements hrun ih =>
    obtain ⟨hsame, hlater⟩ := (Host.agrees_list _ _).of_ok ih.2 hrun
    exact ⟨.list ih.1 hscans helements hsame, hlater⟩
  | symbol _ hscans hrun ih =>
    obtain hmake | hintern := hrun
    · obtain ⟨hsame, hlater⟩ := (Host.agrees_makeSymbol _ _).of_ok ih.2 hmake
      exact ⟨.symbol ih.1 hscans (.inl hsame), hlater⟩
    · obtain ⟨hsame, hlater⟩ := (Host.agrees_intern _ _).of_ok ih.2 hintern
      exact ⟨.symbol ih.1 hscans (.inr hsame), hlater⟩
  | collect _ hquiet hrun ih =>
    obtain ⟨hsame, hlater⟩ := (Host.agrees_collect _).of_ok ih.2 hrun
    exact ⟨.collect ih.1 hquiet hsame, hlater⟩
  | store _ hvalue hcareful hrun ih =>
    obtain ⟨-, hlater⟩ := (Host.agrees_of_modest (modest_setField _ _ _)).of_ok ih.2 hrun
    exact ⟨.store ih.1 hvalue hcareful hrun, hlater⟩
  | element _ hvalue hrun ih =>
    obtain ⟨-, hlater⟩ := (Host.agrees_of_modest
      (modest_onSpace fun mode => Space.modest_vectorSet mode _ _ _)).of_ok ih.2 hrun
    exact ⟨.element ih.1 hvalue hrun, hlater⟩
  | other _ hs hmode hspace ih => exact ⟨.other ih.1 hs hmode hspace, hspace ▸ ih.2⟩

/-- No field leads nowhere. Whatever is built, stored and collected, and in whatever order: a reference
that is read from a field is live, if collections follow the field, or if no reference was ever stored
into a field that they do not follow. All fields of objects that typed constructors make are followed, and
so are all elements that are written through the bounds of their vector. -/
theorem isLive_of_fieldGet (h : Run host careful m) (hhonest : ∀ bytes, host.Honest (Space.new bytes))
    (hget : m.heap.space.fieldGet m.mode v field = .ok value) (href : value.isHeapRef = true)
    (hfollowed : careful = true ∨ m.heap.space.Follows v field) : m.heap.isLive value = true := by
  obtain ⟨hs, hdebug, htidy⟩ := (h.guarded hhonest).1.orderly host.scrupulous_guarded
  rw [hdebug] at hget
  obtain ⟨word, hlocate, rfl⟩ := Space.of_fieldGet hget
  obtain ⟨-, ⟨cell, hcell, hkind, hlt⟩, hword⟩ := Space.locate_debug hlocate
  rw [Space.word_of_object? hcell] at href ⊢
  have hslot : word ∈ cell.slots := by
    obtain hcareful | ⟨cell', hcell', hfollowed⟩ := hfollowed
    · exact htidy hcareful _ cell hcell field word hkind hword hlt href
    · obtain rfl : cell = cell' := Option.some.inj (hcell.symm.trans hcell')
      exact (Field.mem_slots_iff hkind hword hlt).mpr hfollowed
  exact isLive_of_object hs.valid href (hs.traceable.slots _ cell hcell word hslot href)

/-! ## Two vectors -/

/-- Builds two objects, stores the second one into the first and collects with nothing but the first one
in a native frame. -/
def link (form : Form) (write : Value → Value → Op Unit Unit) : Op Unit (Value × Value) := do
  let v ← (Host.shy true).build [] form
  let x ← (Host.shy true).build [v] form
  write v x
  discard ((Host.shy true).collect [v])
  return (v, x)

theorem of_link {form : Form} {write : Value → Value → Op Unit Unit} {v x : Value} {m : Machine Unit}
    (hkind : form.kind.isHeap = true) (hparts : ∀ part ∈ form.parts, part.isHeapRef = false)
    (hwrite : ∀ {m₂ m₃}, Run (Host.shy true) careful m₂ → m₂.heap.space.Accepts x →
      write v x m₂ = .ok () m₃ → Run (Host.shy true) careful m₃)
    (hrun : link form write smallMachine = .ok (v, x) m) : Run (Host.shy true) careful m := by
  have hparts' : ∀ {frames} {m : Machine Unit}, ∀ part ∈ form.parts, part.isHeapRef = true →
      m.InUse frames part.address := by
    intro frames m part hpart href
    cases (hparts part hpart).symm.trans href
  have hstart : Run (Host.shy true) careful smallMachine :=
    .start (show Machine.start .debug smallOptions () = .ok smallMachine from rfl)
  obtain ⟨v₁, m₁, hv, hrest⟩ := exists_of_bind_ok hrun
  have hfirst : Run (Host.shy true) careful m₁ := .build hstart hkind (.inl rfl) hparts' hv
  obtain ⟨x₁, m₂, hx, hrest⟩ := exists_of_bind_ok hrest
  have hsecond : Run (Host.shy true) careful m₂ := .build hfirst hkind (.inl rfl) hparts' hx
  have hfresh := hfirst.orderly (Host.scrupulous_shy true)
  have hbuilds := Host.build_spec hfresh.sound (Host.scrupulous_shy true) hkind
    (.inl ⟨rfl, Host.passing_runFinalizers (Host.scrupulous_shy true) rfl⟩) (.inl hfresh.debug) hparts' hx
  obtain ⟨_, m₃, hwritten, hrest⟩ := exists_of_bind_ok hrest
  obtain ⟨_, m₄, hcollect, hrest⟩ := exists_of_bind_ok hrest
  obtain ⟨stats, hcollect⟩ := of_discard hcollect
  cases hrest
  obtain ⟨cell, hcell, -⟩ := hbuilds.shows.object
  exact .collect (hwrite hsecond (fun _ => Option.isSome_of_eq_some hcell) hwritten) (.inl rfl) hcollect

/-- An element that was written through the bounds of its vector is kept. -/
theorem isLive_of_fieldGet_vector : ∃ (m : Machine Unit) (v x : Value),
    Run (Host.shy true) true m ∧ m.heap.collections = 1 ∧
      m.heap.space.fieldGet m.mode v (.vectorElt 0) = .ok x ∧ x.isHeapRef = true ∧
      m.heap.isLive x = true := by
  have hrun : returns (fun p m => m.heap.collections == 1 && p.2.isHeapRef &&
        m.heap.space.fieldGet m.mode p.1 (.vectorElt 0) == .ok p.2)
      (Run.link (.vector 199 .empty) (fun v x => onSpace fun mode => Space.vectorSet mode v 0 x)
        smallMachine) = true := by decide +kernel
  obtain ⟨⟨v, x⟩, m, hlink, hcheck⟩ := exists_of_returns hrun
  simp only [Bool.and_eq_true, beq_iff_eq] at hcheck
  obtain ⟨⟨hcollections, href⟩, hget⟩ := hcheck
  have hparts : ∀ part ∈ (Form.vector 199 .empty).parts, part.isHeapRef = false :=
    List.forall_mem_singleton.mpr rfl
  have hlinked : Run (Host.shy true) true m := of_link rfl hparts
    (fun h hvalue hset => .element h hvalue hset) hlink
  exact ⟨m, v, x, hlinked, hcollections, hget, href,
    isLive_of_fieldGet hlinked (fun _ => (Host.scrupulous_shy true).honest _) hget href (.inl rfl)⟩

/-- Without a constructor there is room for elements, and none is counted. What was stored into one is
gone after a collection, and it is still what is read from the vector. -/
theorem dangling_element : ∃ (m : Machine Unit) (v x : Value),
    Run (Host.shy true) false m ∧ m.heap.isLive v = true ∧
      m.heap.space.fieldGet m.mode v (.vectorElt 0) = .ok x ∧ x.isHeapRef = true ∧
      m.heap.isLive x = false := by
  have hrun : returns (fun p m => m.heap.isLive p.1 && !m.heap.isLive p.2 && p.2.isHeapRef &&
        m.heap.space.fieldGet m.mode p.1 (.vectorElt 0) == .ok p.2)
      (Run.link (.bare .vector 200) (fun v x => setField v (.vectorElt 0) x) smallMachine) = true := by
    decide +kernel
  obtain ⟨⟨v, x⟩, m, hlink, hcheck⟩ := exists_of_returns hrun
  simp only [Bool.and_eq_true, Bool.not_eq_true', beq_iff_eq] at hcheck
  obtain ⟨⟨⟨hlive, hgone⟩, href⟩, hget⟩ := hcheck
  have hlinked : Run (Host.shy true) false m := of_link rfl (List.forall_mem_nil _)
    (fun h hvalue hset => .store h hvalue (fun hcareful => by cases hcareful) hset) hlink
  exact ⟨m, v, x, hlinked, hlive, hget, href, hgone⟩

end Run

end Machine

end Substrate
