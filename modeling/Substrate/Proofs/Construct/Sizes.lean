import Substrate.Proofs.Construct.Readers
import Substrate.Proofs.Construct.Settling

/-!
# The size of what is asked for

A client may ask for any number of bytes, and for a vector of any length. On the way to memory this number
goes through several sums. Two of them matter (`Request.Fits`): the one that makes payload words of it, and
in a debug build the one that decides whether a collection is due.

A request that fits is served or ends in heap exhaustion. One that does not ends in a panic in a debug
build. A release build goes on with an object that has no payload at all (`Host.request_sizes`).
-/

namespace Substrate.Machine

variable {γ : Type} {m : Machine γ} {frames : List Value}

/-! ## Requests -/

/-- What a client may ask for. -/
inductive Request where
  /-- An object with so many bytes of payload. -/
  | bytes (kind : Kind) (count : Nat)
  /-- A vector with so many elements. -/
  | vector (length : Nat) (fill : Value)

namespace Request

variable {r : Request} {mode : Mode}

def kind : Request → Kind
  | bytes kind _ => kind
  | vector .. => .vector

/-- The number that the client gave. -/
def given : Request → Nat
  | bytes _ count => count
  | vector length _ => length

/-- How many payload words are asked for. -/
def asks (mode : Mode) : Request → Except Fault Nat
  | bytes _ count => wordsFor mode count
  | vector length _ => (Layout.of .vector).payloadWords mode length

/-- The object to be built, with so many words. -/
def form (words : Nat) : Request → Form
  | bytes kind _ => .bare kind words
  | vector length fill => .vector length fill

/-- How many payload words it takes. -/
def size : Request → Nat
  | bytes _ count => (count + wordBytes - 1) / wordBytes
  | vector length _ => 1 + length

/-- There is room for what was asked for. A vector needs a word for its length. -/
def RoomIn (words : Nat) : Request → Prop
  | bytes _ count => count ≤ words * wordBytes
  | vector length _ => 1 + length ≤ words

/-- The largest sum on the way to the number of words. A debug build minds a sum that is taken back by one
right away. -/
def sum (mode : Mode) : Request → Nat
  | bytes _ count =>
    match mode with
    | .debug => count + wordBytes
    | .release => count + wordBytes - 1
  | vector length _ => 1 + length

/-- No sum that matters exceeds a word. -/
structure Fits (r : Request) (m : Machine γ) : Prop where
  sum : r.sum m.mode < wordLimit
  weighs : m.heap.Weighs r.size

theorem roomIn_size (r : Request) : r.RoomIn r.size := by
  cases r with
  | bytes kind count =>
    simp only [RoomIn, size, wordBytes]
    omega
  | vector length fill => exact Nat.le_refl _

/-- Without any payload there is only room for requests that do not wrap around. -/
theorem sum_of_roomIn_zero (h : r.RoomIn 0) : r.sum .release < wordLimit := by
  cases r with
  | bytes kind count =>
    simp only [RoomIn, sum, wordBytes, wordLimit] at *
    omega
  | vector length fill =>
    simp only [RoomIn, Nat.le_zero] at h
    omega

theorem kind_form (r : Request) (words : Nat) : (r.form words).kind = r.kind := by
  cases r <;> rfl

theorem size_form (r : Request) : (r.form r.size).size = r.size := by
  cases r <;> rfl

theorem asks_of_sum (h : r.sum mode < wordLimit) : r.asks mode = .ok r.size := by
  cases r with
  | bytes kind count =>
    refine wordsFor_ok_iff.mpr ⟨?_, ?_⟩
    · rintro rfl
      exact h
    · have hlt : count + wordBytes - 1 < wordLimit := by
        cases mode with
        | debug => exact Nat.lt_of_le_of_lt (Nat.sub_le _ _) h
        | release => exact h
      rw [Nat.mod_eq_of_lt hlt]
      rfl
  | vector length fill => exact if_pos h

theorem asks_overflows (h : ¬ r.sum .debug < wordLimit) :
    ∃ fault, r.asks .debug = .error fault ∧ fault.IsOverflow := by
  cases r with
  | bytes kind count =>
    obtain ⟨hfits, -⟩ | ⟨-, fault, hadd, hfault⟩ := Mode.debug_add_cases count wordBytes
    · exact absurd hfits h
    · exact ⟨fault, by rw [asks, wordsFor, hadd]; rfl, hfault⟩
  | vector length fill =>
    obtain ⟨hfits, -⟩ | ⟨-, overflow⟩ := Mode.debug_add_cases 1 length
    · exact absurd hfits h
    · exact overflow

/-- If the sum wraps around, nothing is left of the request. -/
theorem asks_wrapped (hgiven : r.given < wordLimit) (h : ¬ r.sum .release < wordLimit) :
    r.asks .release = .ok 0 := by
  cases r with
  | bytes kind count =>
    refine wordsFor_ok_iff.mpr ⟨nofun, ?_⟩
    simp only [given, sum, wordBytes, wordLimit] at *
    omega
  | vector length fill =>
    have hwhole : 1 + length = wordLimit := by
      simp only [given, sum] at *
      omega
    have hadd : Mode.release.add 1 length = .ok 0 := by
      rw [Mode.add_release, hwhole, Nat.mod_self]
    exact hadd

end Request

namespace Host

variable {host : Host} {r : Request} {words : Nat} {v : Value} {m₁ : Machine γ}

/-- Serves a request. -/
def request (host : Host) (frames : List Value) (r : Request) : Op γ Value := do
  let words ← ofExcept (r.asks (← get).mode)
  let object ← host.allocateWith host.runFinalizers frames r.kind words
  (r.form words).fill object
  return object

/-- With nothing to scan, requests are the two operations of the machine. -/
theorem plain_request_bytes (kind : Kind) (count : Nat) :
    plain.request frames (.bytes kind count) = (Machine.allocate kind count : Op γ Value) := by
  funext m
  unfold request
  rw [plain_runFinalizers, plain_allocateWith]
  simp only [Request.form, Form.fill, pure_bind, bind_pure]
  rfl

theorem plain_request_vector (length : Nat) (fill : Value) :
    plain.request frames (.vector length fill) = (makeVector length fill : Op γ Value) := by
  rw [makeVector_eq]
  funext m
  unfold request
  rw [plain_runFinalizers, plain_allocateWith]
  rfl

/-- The memory for a request was taken, with so many words. What happens then is up to the finalizers that
run before the object is filled in. -/
structure Takes (host : Host) (frames : List Value) (r : Request) (words : Nat) (m : Machine γ)
    (v : Value) (m₁ : Machine γ) : Prop where
  taken : withLock .heap (host.allocateLocked frames r.kind words) m = .ok v m₁
  gives : Gives (host.seen frames) m m₁ v r.kind words
  failed : ∀ fault m', m₁.heap.pending ≠ [] → host.runFinalizers (v :: frames) m₁ = .error fault m' →
    host.request frames r m = .error fault m'
  /-- The object is returned if no finalizer failed, and none has reclaimed it. -/
  returned : (r.form words).size = words →
    (host.scans = true ∨ host.Considerate frames r.kind words m) →
    ∀ m₂, (m₁.heap.pending = [] ∧ m₂ = m₁ ∨
      m₁.heap.pending ≠ [] ∧ host.runFinalizers (v :: frames) m₁ = .ok () m₂) →
    ∃ m', host.request frames r m = .ok v m' ∧ m'.heap.isLive v = true ∧
      m'.heap.space.kindOf v = r.kind ∧ (m'.heap.space.header v.address).words = words ∧
      ∀ mode, (r.form words).Reads mode m'.heap.space v

theorem request_eq {words : Nat} (hasks : r.asks m.mode = .ok words) :
    host.request frames r m = (do
      let object ← host.allocateWith host.runFinalizers frames r.kind words
      (r.form words).fill object
      return object : Op γ Value) m := by
  unfold request
  rw [bind_of_ok get_apply, bind_of_ok (ofExcept_of_ok hasks)]

theorem hasPendingFinalizers_iff (h : Heap) : h.hasPendingFinalizers = true ↔ h.pending ≠ [] := by
  cases hpending : h.pending <;> simp [Heap.hasPendingFinalizers, hpending]

/-- What is taken is what was asked for. -/
theorem request_takes (hs : Sound m) (hease : AtEase m) (hhost : host.Scrupulous)
    (hkind : r.kind.isHeap = true) (hasks : r.asks m.mode = .ok words)
    (htaken : withLock .heap (host.allocateLocked frames r.kind words) m = .ok v m₁) :
    host.Takes frames r words m v m₁ := by
  have hallocate := allocateWith_eq host host.runFinalizers frames words hease hkind
  rw [bind_of_ok htaken, bind_of_ok get_apply] at hallocate
  refine ⟨htaken, ?_, fun fault m' hpending hfinalize => ?_, fun hsize hquiet m₂ hfinalized => ?_⟩
  · obtain ⟨-, m₂, hrun, rfl⟩ := of_withLock htaken
    exact (allocateLocked_gives (hs.locked .heap) hhost hkind hrun).1.unlocked
  · rw [request_eq hasks]
    refine bind_of_error (hallocate.trans ?_)
    rw [if_pos ((hasPendingFinalizers_iff _).mpr hpending)]
    exact bind_of_error hfinalize
  · have hrun : host.allocateWith host.runFinalizers frames r.kind words m = .ok v m₂ := by
      refine hallocate.trans ?_
      obtain ⟨hnone, rfl⟩ | ⟨hpending, hfinalize⟩ := hfinalized
      · rw [if_neg (by simpa [hasPendingFinalizers_iff] using hnone)]
        rfl
      · rw [if_pos ((hasPendingFinalizers_iff _).mpr hpending)]
        exact bind_of_ok hfinalize
    obtain ⟨hlimit, hrested, header, hheaderKind, hheaderWords, hzero⟩ :=
      allocateWith_ready hhost hs.steady hkind (hquiet.imp_left (⟨·, hs⟩)) hrun
    have hkindForm : header.kind = (r.form words).kind := hheaderKind.trans (r.kind_form words).symm
    have hwordsForm : header.words = (r.form words).size := hheaderWords.trans hsize.symm
    obtain ⟨m', index, hfill, hfilled, helse⟩ :=
      Form.fill_spec hzero hkindForm hwordsForm (hheaderWords ▸ hlimit)
    have hshows : Shows m'.heap.space v (r.form words) :=
      shows_of_holds hfilled hkindForm hwordsForm (hheaderWords ▸ hlimit)
    obtain ⟨hvalid, new, hnew, hheader, -⟩ := hfilled.has
    refine ⟨m', ?_, hshows.isLive hvalid, hshows.kindOf.trans (r.kind_form words), ?_,
      hshows.reads hvalid⟩
    · rw [request_eq hasks, bind_of_ok hrun, bind_of_ok hfill]
      rfl
    · rw [Space.header_of_object? hnew, hheader, hheaderWords]

theorem agrees_request (frames : List Value) (r : Request) :
    host.Agrees (γ := γ) (host.guarded.request frames r) (host.request frames r) :=
  agrees_get.bind fun _ => (agrees_of_modest (modest_ofExcept _)).bind fun words =>
    (agrees_allocateWith agrees_runFinalizers frames r.kind words).bind fun object =>
      (agrees_of_modest (modest_fill object (r.form words))).bind fun _ =>
        agrees_of_modest (Run.modest_pure object)

theorem Takes.of_guarded (h : host.guarded.Takes frames r words m v m₁)
    (hhonest : host.Honest m.heap.space) : host.Takes frames r words m v m₁ := by
  have htaken := ((agrees_takes frames r.kind words m).2 hhonest).symm.trans h.taken
  obtain ⟨-, hlater⟩ := (agrees_takes frames r.kind words).of_ok hhonest htaken
  have hfinalizers := (agrees_runFinalizers (v :: frames) m₁).2 hlater
  have hrequest := (agrees_request frames r m).2 hhonest
  refine ⟨htaken, h.gives, fun fault m' hpending hrun => ?_, fun hsize hquiet m₂ hfinalized => ?_⟩
  · rw [← hrequest]
    exact h.failed fault m' hpending (hfinalizers.trans hrun)
  · rw [← hrequest]
    exact h.returned hsize (hquiet.imp_right (·.guarded hhonest)) m₂ (hfinalizers ▸ hfinalized)

/-- A request whose number of words is settled is served, or there is no memory left. -/
theorem request_served (hs : Sound m) (hease : AtEase m) (hhost : host.Scrupulous)
    (hkind : r.kind.isHeap = true) (hasks : r.asks m.mode = .ok words)
    (hweighs : m.heap.Weighs words) :
    (∃ message m', host.request frames r m = .error (.fatal .heapExhausted message) m') ∨
      ∃ v m₁, host.Takes frames r words m v m₁ := by
  obtain ⟨message, m₁, hlocked⟩ | ⟨v, m₁, hlocked⟩ :=
    locked_settles frames hs hease hhost hkind hweighs
  · refine .inl ⟨message, m₁, ?_⟩
    rw [request_eq hasks]
    refine bind_of_error ((allocateWith_eq host _ frames _ hease hkind).trans ?_)
    exact bind_of_error hlocked
  · exact .inr ⟨v, m₁, request_takes hs hease hhost hkind hasks hlocked⟩

theorem request_overflows (hease : AtEase m) (hkind : r.kind.isHeap = true)
    (hmode : m.mode = .debug) (hfits : ¬ r.Fits m) :
    ∃ fault m', host.request frames r m = .error fault m' ∧ fault.IsOverflow := by
  by_cases hsum : r.sum m.mode < wordLimit
  · have hheavy : ¬ m.heap.Weighs r.size := fun hweighs => hfits ⟨hsum, hweighs⟩
    obtain ⟨fault, hcollect, hfault⟩ := Heap.shouldCollect_overflows hheavy
    have hallocate : ∃ m₁, withLock .heap (host.allocateLocked frames r.kind r.size) m
        = .error fault m₁ := by
      obtain ⟨m₁, hraised⟩ := ofExcept_of_error (m := { m with held := .heap :: m.held }) hcollect
      have hinside : host.allocateLocked frames r.kind r.size { m with held := .heap :: m.held }
          = .error fault m₁ := by
        unfold allocateLocked
        rw [bind_of_ok get_apply]
        exact bind_of_error hraised
      exact ⟨_, by rw [withLock_apply hease.heap, hinside]⟩
    obtain ⟨m₁, hlocked⟩ := hallocate
    refine ⟨fault, m₁, ?_, hfault⟩
    rw [request_eq (Request.asks_of_sum hsum)]
    refine bind_of_error ((allocateWith_eq host _ frames _ hease hkind).trans ?_)
    exact bind_of_error hlocked
  · rw [hmode] at hsum
    obtain ⟨fault, hasks, hfault⟩ := Request.asks_overflows hsum
    obtain ⟨m', hraised⟩ := ofExcept_of_error (m := m) hasks
    refine ⟨fault, m', ?_, hfault⟩
    unfold request
    rw [bind_of_ok get_apply, hmode]
    exact bind_of_error hraised

/-- What becomes of a request, whatever number it gives. One that fits takes memory for an object with
enough room, or ends in heap exhaustion. The object is returned unless a finalizer that runs on the way
fails or reclaims it. With a request that does not fit, a debug build panics at the first sum that exceeds
a word, and a release build takes memory for an object without a payload. -/
theorem request_sizes (hhonest : host.Honest m.heap.space) (hs : Sound m) (hease : AtEase m)
    (frames : List Value) (hkind : r.kind.isHeap = true) (hgiven : r.given < wordLimit) :
    (r.Fits m → r.RoomIn r.size ∧ (r.form r.size).size = r.size ∧
      ((∃ message m', host.request frames r m = .error (.fatal .heapExhausted message) m') ∨
        ∃ v m₁, host.Takes frames r r.size m v m₁)) ∧
    (¬ r.Fits m → m.mode = .debug →
      ∃ fault m', host.request frames r m = .error fault m' ∧ fault.IsOverflow) ∧
    (¬ r.Fits m → m.mode = .release → ¬ r.RoomIn 0 ∧
      ((∃ message m', host.request frames r m = .error (.fatal .heapExhausted message) m') ∨
        ∃ v m₁, host.Takes frames r 0 m v m₁)) := by
  have hserved : ∀ {words}, r.asks m.mode = .ok words → m.heap.Weighs words →
      (∃ message m', host.request frames r m = .error (.fatal .heapExhausted message) m') ∨
        ∃ v m₁, host.Takes frames r words m v m₁ := by
    intro words hasks hweighs
    rw [← (agrees_request frames r m).2 hhonest]
    exact (request_served hs hease host.scrupulous_guarded hkind hasks hweighs).imp_right
      fun ⟨v, m₁, htakes⟩ => ⟨v, m₁, htakes.of_guarded hhonest⟩
  refine ⟨fun hfits => ⟨r.roomIn_size, r.size_form, ?_⟩, fun hfits hmode => ?_,
    fun hfits hmode => ?_⟩
  · exact hserved (Request.asks_of_sum hfits.sum) hfits.weighs
  · exact request_overflows hease hkind hmode hfits
  · -- a release build does not check the other sum
    have hweighs : ∀ words, m.heap.Weighs words := fun words hdebug => by
      cases (hs.mode.symm.trans hdebug).symm.trans hmode
    have hsum : ¬ r.sum .release < wordLimit := fun hsum => hfits ⟨hmode ▸ hsum, hweighs _⟩
    exact ⟨fun hroom => hsum (Request.sum_of_roomIn_zero hroom),
      hserved (hmode ▸ Request.asks_wrapped hgiven hsum) (hweighs 0)⟩

theorem atEase_smallMachine : AtEase smallMachine :=
  ⟨⟨⟨List.forall_mem_nil _, List.not_mem_nil, List.not_mem_nil⟩, fun _ => List.forall_mem_nil _⟩, rfl,
    List.not_mem_nil⟩

/-- A vector that fits. -/
theorem request_sizes_vector : ∃ v m', makeVector 199 .t smallMachine = .ok v m' ∧
    (m'.heap.space.header v.address).words = 200 ∧
    ∀ mode, m'.heap.space.vectorLength mode v = .ok 199 := by
  have hfits : (Request.vector 199 .t).Fits smallMachine :=
    ⟨by decide, fun _ => by decide +kernel⟩
  obtain ⟨-, hsize, hserved⟩ := (request_sizes (r := .vector 199 .t) honest_smallMachine
    sound_smallMachine atEase_smallMachine [] rfl (by decide)).1 hfits
  rw [plain_request_vector] at hserved
  obtain ⟨message, m', hexhausted⟩ | ⟨v, m₁, htakes⟩ := hserved
  · have hrun : returns (fun _ _ => true) (makeVector 199 .t smallMachine) = true := by
      decide +kernel
    rw [hexhausted] at hrun
    cases hrun
  · have hquiet : plain.Undisturbed [] .vector 200 smallMachine :=
      undisturbed_of_unattended sound_smallMachine honest_smallMachine rfl ⟨rfl, rfl⟩
    obtain ⟨m', hrun, -, -, hwords, hreads⟩ := htakes.returned hsize (.inr hquiet.considerate) m₁
      (.inl ⟨hquiet v m₁ htakes.taken, rfl⟩)
    rw [plain_request_vector] at hrun
    exact ⟨v, m', hrun, hwords, fun mode => (hreads mode).1⟩

/-- A release build with a page to spare. -/
def uncheckedMachine : Machine Unit :=
  { smallMachine with
    mode := .release
    heap := { smallMachine.heap with
      mode := .release, space := { smallMachine.heap.space with pages := .fresh } } }

/-- A release build writes a raw word into an object if the object has it, and goes on in any case. -/
theorem setRaw_of_release (hmode : m.mode = .release) (v : Value) (kind : Kind) (index : Nat)
    (bits : Word) : ∃ space, setRaw v kind index bits m = .ok () { m with heap := { m.heap with space } } := by
  have hcheck : ∃ inside, m.heap.space.checkWord .release v kind index = .ok inside := by
    simp only [Space.checkWord, Mode.assertWith, Mode.violation, ok_bind]
    split <;> exact ⟨_, rfl⟩
  obtain ⟨inside, hcheck⟩ := hcheck
  simp only [setRaw, onSpace, onHeap, Heap.onSpace, Space.setRawWord, hmode, hcheck]
  cases inside <;> exact ⟨_, rfl⟩

/-- The largest request there is wraps around. A debug build panics. A release build comes back with an
object that takes 16 bytes, its header included. -/
theorem request_wrapped :
    (∃ m', Machine.allocate .bignum 18446744073709551615 smallMachine
      = .error (.panic "attempt to add with overflow") m') ∧
    (∃ m', makeVector 18446744073709551615 .empty smallMachine
      = .error (.panic "attempt to add with overflow") m') ∧
    (∃ v m', Machine.allocate .bignum 18446744073709551615 uncheckedMachine = .ok v m' ∧
      m'.heap.stats.objectsAllocated = 1 ∧ m'.heap.stats.bytesAllocated = 16) ∧
    ∃ v m', makeVector 18446744073709551615 .empty uncheckedMachine = .ok v m' ∧
      m'.heap.stats.objectsAllocated = 1 ∧ m'.heap.stats.bytesAllocated = 16 := by
  have hsmall : ∀ run : Op Unit Value, returns (fun _ m' => m'.mode == .release &&
      (m'.heap.stats.objectsAllocated == 1 && m'.heap.stats.bytesAllocated == 16))
        (run uncheckedMachine) = true →
      ∃ v m', run uncheckedMachine = .ok v m' ∧ m'.mode = .release ∧
        m'.heap.stats.objectsAllocated = 1 ∧ m'.heap.stats.bytesAllocated = 16 := by
    intro run hrun
    obtain ⟨v, m', hok, hcheck⟩ := exists_of_returns hrun
    simp only [Bool.and_eq_true, beq_iff_eq] at hcheck
    exact ⟨v, m', hok, hcheck⟩
  obtain ⟨object, m₁, hobject, -, hstats⟩ :=
    hsmall (Machine.allocate .bignum 18446744073709551615) (by decide +kernel)
  obtain ⟨vector, m₂, hvector, hmode, hvectorStats⟩ :=
    hsmall (allocateWords .vector 0) (by decide +kernel)
  obtain ⟨space, hset⟩ := setRaw_of_release hmode vector .vector At.vectorLength
    (UInt64.ofNat 18446744073709551615)
  have hmake : makeVector 18446744073709551615 .empty uncheckedMachine
      = .ok vector { m₂ with heap := { m₂.heap with space } } := by
    have hwords : payloadFor .vector 18446744073709551615 uncheckedMachine
        = .ok 0 uncheckedMachine := rfl
    unfold makeVector
    rw [bind_of_ok hwords, bind_of_ok hvector, bind_of_ok hset]
    rfl
  exact ⟨⟨_, rfl⟩, ⟨_, rfl⟩, ⟨object, m₁, hobject, hstats⟩, vector, _, hmake, hvectorStats⟩

end Host

end Substrate.Machine
