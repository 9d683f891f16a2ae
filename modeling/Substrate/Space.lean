import Std.Data.TreeMap
import Substrate.Block

/-!
# The object space

Small objects live in blocks, one pool of blocks per size class; an object that fits no class has
a mapping of its own. The space never takes more memory from the system than its maximum.

An object is named by its address, the address of its header. `Space.objects` lists the objects
that exist; `Space.cell?` and `Space.modifyCell` are the memory they live in.
-/

namespace Substrate

/-- The blocks of one size class. The free lists of the blocks before the cursor are empty. -/
structure Pool where
  blocks : Array Block
  cursor : Nat
  deriving Inhabited

/-- An object with a mapping of its own, and the size of that mapping. -/
structure Large where
  bytes : Nat
  cell : Cell
  deriving Inhabited

structure Space where
  pools : Array Pool
  /-- Size class and position of the block that starts at an address. -/
  blockIndex : Std.TreeMap Nat (Nat × Nat)
  /-- Large objects by address. -/
  large : Std.TreeMap Nat Large
  /-- Bytes taken from the system. -/
  footprint : Nat
  maxFootprint : Nat
  pages : Pages

/-- The block that an address would belong to. -/
def blockBase (address : Nat) : Nat :=
  address - address % blockBytes

/-! ## Pools -/

namespace Pool

def empty : Pool := ⟨#[], 0⟩

/-- Changes the block at a position. -/
@[noinline] def modifyBlock (pool : Pool) (index : Nat) (f : Block → Block) : Pool :=
  let ⟨blocks, cursor⟩ := pool
  ⟨blocks.modify index f, cursor⟩

/-- The position of the first block with a free cell, looking at `count` blocks from `position`
on. -/
def seek (blocks : Array Block) : Nat → Nat → Nat
  | 0, position => position
  | count + 1, position =>
    match blocks[position]? with
    | some block => if block.next?.isSome then position else seek blocks count (position + 1)
    | none => position

/-- The position of the block that the next cell comes from. -/
def position (pool : Pool) : Nat :=
  seek pool.blocks (pool.blocks.size - pool.cursor) pool.cursor

/-- Takes the next cell from the block at a position, which becomes the current one. -/
def takeAt (position : Nat) (pool : Pool) : Pool :=
  { pool.modifyBlock position Block.dropFirst with cursor := position }

/-- Adds a block and makes it the current one. -/
def push (pool : Pool) (block : Block) : Pool :=
  ⟨pool.blocks.push block, pool.blocks.size⟩

/-- Keeps every block that holds an object and the first of the others. -/
def withoutSpares (blocks : Array Block) : Array Block :=
  let spare := blocks.findIdx? Block.isEmpty
  (blocks.zipIdx.filter fun (block, index) => !block.isEmpty || some index == spare).map (·.1)

/-- Sweeps every block and gives back those that are no longer needed. -/
def sweep (pool : Pool) : Swept × Pool :=
  let (blocks, swept) :=
    (pool.blocks.mapM (m := StateM Swept) fun block => do
      let (result, block) := block.sweep
      modify (·.add result)
      return block).run .nothing
  (swept, ⟨withoutSpares blocks, 0⟩)

end Pool

/-! ## The space -/

namespace Space

/-- A space without any memory. -/
def new (maxFootprint : Nat) : Space :=
  ⟨Array.replicate sizeClasses.length .empty, ∅, ∅, 0, maxFootprint, .fresh⟩

/-! ### Memory -/

/-- The memory of the object or free cell at an address. -/
def cell? (s : Space) (address : Nat) : Option Cell :=
  match s.blockIndex[blockBase address]? with
  | some (sizeClass, index) => do
    let pool ← s.pools[sizeClass]?
    let block ← pool.blocks[index]?
    if (address - block.start) % block.cellBytes = 0 then block.cells[block.indexOf address]?
    else none
  | none => (s.large[address]?).map (·.cell)

/-- The header at an address; that of a free cell where there is no memory. -/
def header (s : Space) (address : Nat) : Header :=
  match s.cell? address with
  | some cell => cell.header
  | none => .zero

/-- The payload word `index` of the object at an address. -/
def word (s : Space) (address index : Nat) : Word :=
  match s.cell? address with
  | some cell => cell.word index
  | none => 0

/-- Changes the pool of a size class. -/
@[noinline] def modifyPool (s : Space) (sizeClass : Nat) (f : Pool → Pool) : Space :=
  let ⟨pools, blockIndex, large, footprint, maxFootprint, pages⟩ := s
  ⟨pools.modify sizeClass f, blockIndex, large, footprint, maxFootprint, pages⟩

/-- Changes the memory of the object or free cell at an address. -/
def modifyCell (s : Space) (address : Nat) (f : Cell → Cell) : Space :=
  match s.blockIndex[blockBase address]? with
  | some (sizeClass, index) =>
    s.modifyPool sizeClass fun pool => pool.modifyBlock index fun block =>
      block.modifyCell address f
  | none =>
    { s with large := s.large.modify address fun object => { object with cell := f object.cell } }

def modifyHeader (s : Space) (address : Nat) (f : Header → Header) : Space :=
  s.modifyCell address fun cell => cell.setHeader (f cell.header)

def setWord (s : Space) (address index : Nat) (bits : Word) : Space :=
  s.modifyCell address fun cell => cell.setWord index bits

/-- The object or free cell that a word of memory belongs to, and how many words behind its start
the word is. -/
def wordAt? (s : Space) (address : Nat) : Option (Nat × Nat) :=
  match s.blockIndex[blockBase address]? with
  | some (sizeClass, index) => do
    let pool ← s.pools[sizeClass]?
    let block ← pool.blocks[index]?
    let start := block.address (block.indexOf address)
    if block.indexOf address < block.cells.size then some (start, (address - start) / wordBytes)
    else none
  | none => do
    let (start, object) ← s.large.getEntryLE? address
    if start + object.bytes ≤ address then none else some (start, (address - start) / wordBytes)

/-- The word of memory at an address, whatever it belongs to. -/
def load (s : Space) (address : Nat) : Word :=
  match s.wordAt? address with
  | some (start, 0) => (s.header start).toWord
  | some (start, index + 1) => s.word start index
  | none => 0

/-- Writes the word of memory at an address, whatever it belongs to. -/
def store (s : Space) (address : Nat) (bits : Word) : Space :=
  match s.wordAt? address with
  | some (start, 0) => s.modifyHeader start fun _ => .ofWord bits
  | some (start, index + 1) => s.setWord start index bits
  | none => s

/-- The address of a payload word. A word that is not in the payload may be part of another object,
and the last index of all is that of the header. -/
def payloadWord (address index : Nat) : Nat :=
  (address + (index + 1) * wordBytes) % wordLimit

/-- Reads a payload word as it is, without regard to where the payload ends. -/
def peek (s : Space) (address index : Nat) : Word :=
  s.load (payloadWord address index)

/-- Writes a payload word as it is, without regard to where the payload ends. -/
def poke (s : Space) (address index : Nat) (bits : Word) : Space :=
  s.store (payloadWord address index) bits

/-! ### Allocation -/

/-- Takes a cell of a size class from the blocks there are. -/
def takeCell (s : Space) (sizeClass : Nat) : Option Nat × Space :=
  match s.pools[sizeClass]? with
  | none => (none, s)
  | some pool =>
    let position := pool.position
    let address? := (pool.blocks[position]?).bind Block.next?
    (address?, s.modifyPool sizeClass (Pool.takeAt position))

/-- Adds a block to a pool. -/
def addBlock (s : Space) (sizeClass : Nat) (block : Block) : Space :=
  let position := match s.pools[sizeClass]? with
    | some pool => pool.blocks.size
    | none => 0
  { s with
    pools := s.pools.modify sizeClass (·.push block)
    blockIndex := s.blockIndex.insert block.start (sizeClass, position)
    footprint := s.footprint + blockBytes }

/-- A cell of a size class, from a new block if there is no other. -/
def allocateSmall (mode : Mode) (s : Space) (sizeClass : Nat) : Except Fault (Option Nat) × Space :=
  match s.takeCell sizeClass with
  | (some address, s) => (.ok (some address), s)
  | (none, s) =>
    if s.maxFootprint < s.footprint + blockBytes then (.ok none, s)
    else
      match s.pages.mapAligned mode blockBytes blockBytes with
      | .error fault => (.error fault, s)
      | .ok (.refused _ _, pages) => (.ok none, { s with pages })
      | .ok (.granted region, pages) =>
        match Block.new region.start (classBytes sizeClass) with
        | .error fault => (.error fault, { s with pages })
        | .ok block =>
          let (address?, block) := block.allocate
          (.ok address?, addBlock { s with pages } sizeClass block)

/-- A mapping for an object of the given size. -/
def allocateLarge (mode : Mode) (s : Space) (bytes : Nat) : Except Fault (Option Nat) × Space :=
  match roundUp mode bytes pageBytes 0 with
  | .error fault => (.error fault, s)
  | .ok mapped =>
    if s.maxFootprint < s.footprint + mapped then (.ok none, s)
    else
      match s.pages.map mode bytes with
      | .error fault => (.error fault, s)
      | .ok (.refused _ _, pages) => (.ok none, { s with pages })
      | .ok (.granted region, pages) =>
        (.ok (some region.start),
          { s with
            pages
            footprint := s.footprint + region.size
            large := s.large.insert region.start ⟨region.size, .zero⟩ })

/-- Memory for an object of the given size: a cell, or a mapping if no cell is large enough. -/
def allocateBytes (mode : Mode) (s : Space) (bytes : Nat) : Except Fault (Option Nat) × Space :=
  match sizeClassFor? bytes with
  | some sizeClass => s.allocateSmall mode sizeClass
  | none => s.allocateLarge mode bytes

/-- Payloads have fewer words than this. -/
@[noinline] def payloadLimit : Nat := 0x100000000

/-- A zeroed object with its header in place, or nothing if the system refuses memory or the
maximum would be exceeded. -/
def allocate (mode : Mode) (s : Space) (kind : Kind) (words : Nat) :
    Except Fault (Option Nat) × Space :=
  if payloadLimit ≤ words then (.ok none, s)
  else
    match s.allocateBytes mode ((1 + words) * wordBytes) with
    | (.ok (some address), s) =>
      (.ok (some address), s.modifyHeader address fun _ => .new kind words)
    | (other, s) => (other, s)

/-! ### Finding objects -/

/-- The object around an address: the one whose cell contains it, or the large object whose header
and payload contain it. -/
def objectAround? (s : Space) (address : Nat) : Option Nat :=
  match s.blockIndex[blockBase address]? with
  | some (sizeClass, index) => do
    let pool ← s.pools[sizeClass]?
    let block ← pool.blocks[index]?
    block.objectAt? (address - block.start)
  | none => do
    let (start, object) ← s.large.getEntryLE? address
    if start + (1 + object.cell.header.words) * wordBytes ≤ address then none else some start

/-- The object an address refers to. Addresses inside an object only count if `interior` is set;
the address zero never refers to anything. -/
def findObject? (s : Space) (address : Nat) (interior : Bool) : Option Nat :=
  if address = 0 then none
  else
    match s.objectAround? address with
    | some object => if !interior && object != address then none else some object
    | none => none

/-- The addresses of all objects. -/
def objects (s : Space) : List Nat :=
  let small := s.pools.toList.flatMap fun pool =>
    pool.blocks.toList.flatMap fun block =>
      (List.range block.cells.size).filterMap fun index => block.objectAt? (index * block.cellBytes)
  small ++ s.large.keys

/-- How many objects there is memory for. -/
def capacity (s : Space) : Nat :=
  s.pools.foldl (fun total pool =>
    pool.blocks.foldl (fun total block => total + block.cells.size) total) s.large.size

/-! ### Sweeping -/

/-- The position of every block, by its address. -/
def indexBlocks (pools : Array Pool) : Std.TreeMap Nat (Nat × Nat) :=
  pools.zipIdx.foldl (fun index (pool, sizeClass) =>
    pool.blocks.zipIdx.foldl (fun index (block, position) =>
      index.insert block.start (sizeClass, position)) index) ∅

/-- Sweeps the pools. -/
def sweepPools (s : Space) : Swept × Space :=
  let ⟨pools, _, large, footprint, maxFootprint, pages⟩ := s
  let before := pools.foldl (fun total pool => total + pool.blocks.size) 0
  let (pools, swept) :=
    (pools.mapM (m := StateM Swept) fun pool => do
      let (result, pool) := pool.sweep
      modify (·.add result)
      return pool).run .nothing
  let after := pools.foldl (fun total pool => total + pool.blocks.size) 0
  (swept,
    ⟨pools, indexBlocks pools, large, footprint - (before - after) * blockBytes, maxFootprint,
      pages⟩)

/-- What sweeping a large object frees or keeps. -/
def sweepLarge (object : Large) : Swept :=
  let bytes := (1 + object.cell.header.words) * wordBytes
  if object.cell.header.marked then ⟨0, 0, bytes⟩ else ⟨1, bytes, 0⟩

/-- Gives back the large objects without a mark and clears the marks of the others. -/
def sweepLarges (s : Space) : Swept × Space :=
  let swept := s.large.foldl (fun swept _ object => swept.add (sweepLarge object)) .nothing
  let freed := s.large.foldl (fun freed _ object =>
    if object.cell.header.marked then freed else freed + object.bytes) 0
  let kept := s.large.filter fun _ object => object.cell.header.marked
  (swept,
    { s with
      footprint := s.footprint - freed
      large := kept.map fun _ object =>
        { object with cell := object.cell.setHeader object.cell.header.clearMark } })

/-- Frees every object without a mark and clears all marks. -/
def sweep (s : Space) : Swept × Space :=
  let (small, s) := s.sweepPools
  let (large, s) := s.sweepLarges
  (small.add large, s)

end Space

end Substrate
