import Substrate.Machine.Construct
import Substrate.Proofs.Control.Agreement
import Substrate.Proofs.Control.Retention

/-!
# Forms of objects

A constructor allocates one object and fills it in. `Form` lists what can be built that way, `Form.build`
builds it with whatever allocates, and every constructor that allocates once is a form that is built with
`allocateWords`.

A string and a symbol are built with an allocator that is told how to run finalizers, since finalizers
make symbols themselves.
-/

namespace Substrate.Machine

variable {γ α : Type} {m m' : Machine γ}

/-- An object to be built. A symbol is given the string that is its name. -/
inductive Form where
  | bare (kind : Kind) (words : Nat)
  | cons (car cdr : Value)
  | vector (length : Nat) (fill : Value)
  | string (text : String)
  | symbol (name : Value)
  | double (bits : Word)
  | bignum (negative : Bool) (limbs : List Word)
  | ratio (numerator denominator : Value)
  | complex (real imag : Value)
  | closure (entry : Word) (env name : Value)
  | stream (mode : StreamMode) (elementType buffer : Value) (handle : Word)
  | record (type : Value) (slots : List Value)
  | foreign (address size : Word) (tag : Value)

namespace Form

def kind : Form → Kind
  | bare kind _ => kind
  | cons .. => .cons
  | vector .. => .vector
  | string _ => .string
  | symbol _ => .symbol
  | double _ => .doubleFloat
  | bignum .. => .bignum
  | ratio .. => .ratio
  | complex .. => .complex
  | closure .. => .closure
  | stream .. => .stream
  | record .. => .record
  | foreign .. => .foreign

/-- The items in the tail, in a form that has one. -/
def tail? : Form → Option Nat
  | vector length _ => some length
  | string text => some (Text.utf8 text).length
  | bignum _ limbs => some limbs.length
  | record _ slots => some slots.length
  | _ => none

/-- How many payload words are asked for. -/
def words (mode : Mode) (form : Form) : Except Fault Nat :=
  match form, form.tail? with
  | bare _ words, _ => .ok words
  | _, some length => (Layout.of form.kind).payloadWords mode length
  | _, none => .ok (Layout.of form.kind).fixedWords

/-- The values that the object is to refer to. -/
def parts : Form → List Value
  | cons car cdr => [car, cdr]
  | vector _ fill => [fill]
  | symbol name => [name]
  | ratio numerator denominator => [numerator, denominator]
  | complex real imag => [real, imag]
  | closure _ env name => [env, name]
  | stream _ elementType buffer _ => [elementType, buffer]
  | record type slots => type :: slots
  | foreign _ _ tag => [tag]
  | _ => []

/-- Stores the same value into all elements of a new vector. -/
def fillElements (vector : Value) (length : Nat) (fill : Value) : Op γ Unit := do
  if fill != .empty then
    match length with
    | 0 => pure ()
    | _ + 1 =>
      onSpace fun mode => Space.vectorSet mode vector 0 fill
      let words := ((← get).heap.space.header vector.address).words
      onSpace fun _ => modify (fillWords vector.address fill.bits (min length (words - 1)) 1)

/-- Fills in an object that was allocated for the form. -/
def fill (object : Value) : Form → Op γ Unit
  | bare .. => pure ()
  | cons car cdr => do
    setField object .car car
    setField object .cdr cdr
  | vector length fill => do
    setRaw object .vector At.vectorLength (UInt64.ofNat length)
    fillElements object length fill
  | string text => do
    let bytes := Text.utf8 text
    onSpace fun mode =>
      Space.setRawWord mode object .string At.stringLength (UInt64.ofNat bytes.length)
    let count := (bytes.length + wordBytes - 1) / wordBytes
    onSpace fun _ => modify (writeBytes object.address count At.stringBytes bytes)
  | symbol name => do
    fillSymbol object name
    numberSymbol object
  | double bits => onSpace fun _ => modify (·.setWord object.address 0 bits)
  | bignum negative limbs => do
    setRaw object .bignum At.bignumSign (if negative then 1 else 0)
    setRaw object .bignum At.bignumLength (UInt64.ofNat limbs.length)
    setLimbs object 0 limbs
  | ratio numerator denominator => do
    setField object .ratioNumerator numerator
    setField object .ratioDenominator denominator
  | complex real imag => do
    setField object .complexReal real
    setField object .complexImag imag
  | closure entry env name => do
    setRaw object .closure At.closureEntry entry
    setField object .closureEnv env
    setField object .closureName name
  | stream mode elementType buffer handle => do
    setRaw object .stream At.streamMode mode.code
    setRaw object .stream At.streamHandle handle
    setField object .streamElementType elementType
    setField object .streamBuffer buffer
  | record type slots => do
    setRaw object .record At.recordLength (UInt64.ofNat slots.length)
    setField object .structType type
    setSlots object 0 slots
  | foreign address size tag => do
    setRaw object .foreign At.foreignAddress address
    setRaw object .foreign At.foreignSize size
    setField object .foreignTag tag

/-- Allocates and fills in an object. -/
def build (allocate : Kind → Nat → Op γ Value) (form : Form) : Op γ Value := do
  let object ← allocate form.kind (← ofExcept (form.words (← get).mode))
  form.fill object
  return object

end Form

/-! ## Constructors are forms -/

section

open Form

theorem cons_eq (car cdr : Value) :
    Machine.cons car cdr = (Form.cons car cdr).build (γ := γ) allocateWords := by
  funext m
  simp only [Machine.cons, build, fill, bind_assoc]
  rfl

theorem makeVector_eq (length : Nat) (fill : Value) :
    makeVector length fill = (vector length fill).build (γ := γ) allocateWords := by
  have hrest : ∀ object : Value, (do fillElements object length fill; return object : Op γ Value) = (do
      if fill != .empty then
        match length with
        | 0 => pure ()
        | _ + 1 =>
          onSpace fun mode => Space.vectorSet mode object 0 fill
          let words := ((← get).heap.space.header object.address).words
          onSpace fun _ => modify (fillWords object.address fill.bits (min length (words - 1)) 1)
      return object) := by
    intro object
    unfold fillElements
    cases fill != .empty with
    | false => rfl
    | true =>
      cases length with
      | zero => rfl
      | succ => simp only [if_true, bind_assoc]
  funext m
  simp only [makeVector, build, Form.fill, bind_assoc, hrest]
  rfl

theorem makeDouble_eq (bits : Word) :
    makeDouble bits = (double bits).build (γ := γ) allocateWords := by
  funext m
  simp only [makeDouble, build, fill]
  rfl

theorem makeBignum_eq (negative : Bool) (limbs : List Word) :
    makeBignum negative limbs = (bignum negative limbs).build (γ := γ) allocateWords := by
  funext m
  simp only [makeBignum, build, fill, bind_assoc]
  rfl

theorem makeRatio_eq (numerator denominator : Value) :
    makeRatio numerator denominator
      = (ratio numerator denominator).build (γ := γ) allocateWords := by
  funext m
  simp only [makeRatio, build, fill, bind_assoc]
  rfl

theorem makeComplex_eq (real imag : Value) :
    makeComplex real imag = (complex real imag).build (γ := γ) allocateWords := by
  funext m
  simp only [makeComplex, build, fill, bind_assoc]
  rfl

theorem makeClosure_eq (entry : Word) (env name : Value) :
    makeClosure entry env name = (closure entry env name).build (γ := γ) allocateWords := by
  funext m
  simp only [makeClosure, build, fill, bind_assoc]
  rfl

theorem makeStream_eq (mode : StreamMode) (elementType buffer : Value) (handle : Word) :
    makeStream mode elementType buffer handle
      = (stream mode elementType buffer handle).build (γ := γ) allocateWords := by
  funext m
  simp only [makeStream, build, fill, bind_assoc]
  rfl

theorem makeStructure_eq (type : Value) (slots : List Value) :
    makeStructure type slots = (Form.record type slots).build (γ := γ) allocateWords := by
  funext m
  simp only [makeStructure, build, fill, bind_assoc]
  rfl

theorem makeForeign_eq (address size : Word) (tag : Value) :
    makeForeign address size tag = (foreign address size tag).build (γ := γ) allocateWords := by
  funext m
  simp only [makeForeign, build, fill, bind_assoc]
  rfl

theorem bare_eq (kind : Kind) (words : Nat) :
    allocateWords kind words = (bare kind words).build (γ := γ) allocateWords := by
  funext m
  change _ = (allocateWords kind words >>= fun object => pure object : Op γ Value) m
  rw [bind_pure]

theorem makeStringWith_eq (finalize : Op γ Unit) (text : String) :
    makeStringWith finalize text = (string text).build (allocateWith finalize) := by
  funext m
  simp only [makeStringWith, build, fill, bind_assoc]
  rfl

theorem makeSymbolWith_eq_build (finalize : Op γ Unit) (text : String) :
    makeSymbolWith finalize text = (do
      let name ← (string text).build (allocateWith finalize)
      (symbol name).build (allocateWith finalize)) := by
  funext m
  simp only [makeSymbolWith_eq, makeStringWith_eq]
  refine congrFun (congrArg (_ >>= ·) (funext fun name => funext fun m => ?_)) m
  simp only [build, fill, bind_assoc]
  rfl

end

namespace Form

/-- The constructor that clients call. Only symbols have none for their second part, once there is a
name: this is what `makeSymbol` goes on with. -/
def construct : Form → Op γ Value
  | bare kind words => allocateWords kind words
  | cons car cdr => Machine.cons car cdr
  | vector length fill => makeVector length fill
  | string text => makeString text
  | symbol name => (symbol name).build allocateWords
  | double bits => makeDouble bits
  | bignum negative limbs => makeBignum negative limbs
  | ratio numerator denominator => makeRatio numerator denominator
  | complex real imag => makeComplex real imag
  | closure entry env name => makeClosure entry env name
  | stream mode elementType buffer handle => makeStream mode elementType buffer handle
  | record type slots => makeStructure type slots
  | foreign address size tag => makeForeign address size tag

/-- Each constructor builds its form. -/
theorem construct_eq (form : Form) : form.construct = form.build (γ := γ) allocateWords := by
  cases form with
  | bare kind words => exact bare_eq kind words
  | cons car cdr => exact cons_eq car cdr
  | vector length fill => exact makeVector_eq length fill
  | string text => exact makeStringWith_eq runFinalizers text
  | symbol name => rfl
  | double bits => exact makeDouble_eq bits
  | bignum negative limbs => exact makeBignum_eq negative limbs
  | ratio numerator denominator => exact makeRatio_eq numerator denominator
  | complex real imag => exact makeComplex_eq real imag
  | closure entry env name => exact makeClosure_eq entry env name
  | stream mode elementType buffer handle => exact makeStream_eq mode elementType buffer handle
  | record type slots => exact makeStructure_eq type slots
  | foreign address size tag => exact makeForeign_eq address size tag

theorem makeSymbol_eq (text : String) : makeSymbol text = (do
    let name ← (string text).construct
    (symbol name).construct : Op γ Value) := by
  funext m
  simp only [construct_eq]
  exact congrFun (makeSymbolWith_eq_build runFinalizers text) m

end Form

end Substrate.Machine
