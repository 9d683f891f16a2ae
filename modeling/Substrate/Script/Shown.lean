import Substrate.Script.Workspace

/-!
# Showing values

Values as data. Objects are shown down to a fixed depth and sequences up to a fixed length. The
parts of an object are read the way any client reads them, so a corrupt object can be a fault.
-/

namespace Substrate.Script

/-- Objects nested deeper than this are shown by their kind only. -/
def shownDepth : Nat := 6

/-- Sequences are shown up to this many elements. -/
def shownLength : Nat := 40

def showStreamMode (mode? : Option StreamMode) : Datum :=
  match mode? with
  | some .input => .text "Input"
  | some .output => .text "Output"
  | some .io => .text "Io"
  | none => .null

/-- An immediate as data. -/
def showImmediate (space : Space) (v : Value) : Datum :=
  match space.kindOf v with
  | .fixnum => .int v.toInt
  | .empty => .record [("k", .text "empty")]
  | .character => .record [("c", .ofNat (space.immediateBits v).toNat)]
  | .singleFloat => .record [("f", .bits32 v.floatBits)]
  | _ =>
    if v == .nil then .null
    else if v == .t then .bool true
    else if v == .eof then .record [("k", .text "eof")]
    else if v == .unbound then .record [("k", .text "unbound")]
    else .record [("const", .ofNat (space.immediateBits v).toNat)]

/-- The elements of a list as far as they are shown, the last one first, and what comes behind. Each
element is shown before the next one is looked for. -/
def showElements (show_ : Value → Except Fault Datum) (mode : Mode) (space : Space) :
    Nat → List Datum → Value → Except Fault (List Datum × Value)
  | 0, shown, rest => .ok (shown, rest)
  | count + 1, shown, rest =>
    if space.isKind rest .cons then do
      let element ← show_ (← space.fieldGet mode rest .car)
      let rest ← space.fieldGet mode rest .cdr
      showElements show_ mode space count (element :: shown) rest
    else .ok (shown, rest)

/-- Shows `count` parts, each read by its index, in order. -/
def showParts (show_ : Value → Except Fault Datum) (read : Nat → Except Fault Value)
    (count : Nat) : Except Fault (List Datum) :=
  (List.range count).mapM fun i => do show_ (← read i)

/-- A list as data, given how its parts are shown. -/
def showList (show_ : Value → Except Fault Datum) (mode : Mode) (space : Space) (v : Value) :
    Except Fault Datum := do
  let (shown, rest) ← showElements show_ mode space shownLength [] v
  let base := [("list", Datum.list shown.reverse)]
  if rest == .nil then return .record base
  else if space.isKind rest .cons then
    return .record (base ++ [("tail", .record [("more", .bool true)])])
  else return .record (base ++ [("tail", ← show_ rest)])

/-- An object as data, given how its parts are shown. -/
def showObject (show_ : Value → Except Fault Datum) (mode : Mode) (space : Space) (v : Value) :
    Except Fault Datum := do
  let part (field : Field) : Except Fault Datum := do show_ (← space.fieldGet mode v field)
  match space.kindOf v with
  | .cons => showList show_ mode space v
  | .symbol =>
    let name ← space.fieldGet mode v .symbolName
    if space.isKind name .string then
      return .record [("sym", .text (← space.stringText mode name))]
    else return .record [("sym", .null)]
  | .string => return .record [("s", .text (← space.stringText mode v))]
  | .doubleFloat => return .record [("d", .bits64 (← space.doubleBits mode v).toNat)]
  | .bignum =>
    let negative ← space.bignumNegative mode v
    let limbs ← space.bignumLimbs mode v
    return .record
      [("big", .list [.bool negative, .list (limbs.map fun limb => .ofNat limb.toNat)])]
  | .ratio =>
    let numerator ← part .ratioNumerator
    return .record [("ratio", .list [numerator, ← part .ratioDenominator])]
  | .complex =>
    let real ← part .complexReal
    return .record [("complex", .list [real, ← part .complexImag])]
  | .vector =>
    let length ← space.vectorLength mode v
    let elements ← showParts show_ (space.vectorRef mode v) (min length shownLength)
    let base := [("vec", Datum.list elements)]
    return .record (if shownLength < length then base ++ [("len", .ofNat length)] else base)
  | .record =>
    let length ← space.structureLength mode v
    let slots ← showParts show_ (fun i => space.fieldGet mode v (.structSlot i))
      (min length shownLength)
    return .record [("struct", .list [← part .structType, .list slots])]
  | .closure => return .record [("closure", ← part .closureName)]
  | .stream =>
    let direction ← space.streamMode mode v
    let elementType ← part .streamElementType
    let buffer ← part .streamBuffer
    let handle ← space.streamHandle mode v
    let position ← space.streamPosition mode v
    return .record
      [("stream", .list [showStreamMode direction, elementType, buffer, .ofNat handle.toNat,
        .ofNat position.toNat])]
  | .foreign =>
    let address ← space.foreignAddress mode v
    let size ← space.foreignSize mode v
    return .record
      [("foreign", .list [.ofNat address.toNat, .ofNat size.toNat, ← part .foreignTag])]
  | _ => return .record [("invalid", .bool true)]

/-- A value as data; `depth` more levels are shown. A word that is no immediate has to be the start
of a live object, of a kind that objects have. -/
def showValueWith (mode : Mode) (heap : Heap) : Nat → Value → Except Fault Datum
  | depth, v =>
    if !v.isHeapRef then .ok (showImmediate heap.space v)
    else if !heap.isLive v || !(heap.space.kindOf v).isHeap then
      .ok (.record [("invalid", .bool true)])
    else
      match depth with
      | 0 => .ok (.record [("deep", .text (heap.space.kindOf v).name)])
      | depth + 1 => showObject (showValueWith mode heap depth) mode heap.space v

/-- A value as data. -/
def showValue (v : Value) : Op Workspace Datum := fun m =>
  Machine.ofExcept (showValueWith m.mode m.heap (shownDepth + 1) v) m

def showValues : List Value → Op Workspace (List Datum)
  | [] => pure []
  | v :: rest => do
    let shown ← showValue v
    return shown :: (← showValues rest)

/-- The text of a value, without addresses. -/
def renderValue (v : Value) : Op Workspace String := do
  return Text.masked (← Machine.view fun mode space => space.render mode v)

def showUnwind : Unwind → Datum
  | .exit target => .failure "Exit" ("#" ++ toString target)
  | .error e => .ofError e

end Substrate.Script
