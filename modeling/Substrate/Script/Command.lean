import Substrate.Script.Reader

/-!
# Commands

The steps of a session with a machine. Each works on values given by expressions, or evaluates a
form.
-/

namespace Substrate.Script

/-- A part of a buffer, in bytes. -/
structure Span where
  buffer : String
  from? : Option Nat
  to? : Option Nat

/-- A word of a buffer: a number, or a value with a distance added to its bits. -/
inductive BufferWord where
  | plain (bits : Word)
  | near (value : Expr) (distance : Word)

inductive Command where
  | define (name : String) (v : Expr)
  | inspect (v : Expr)
  | render (v : Expr)
  | same (a b : Expr)
  | isKind (v : Expr) (kind : Kind)
  /-- Everything that can be asked of a value without its object. -/
  | immediate (v : Expr)
  | getField (v : Expr) (field : Field)
  | setField (v : Expr) (field : Field) (new : Expr)
  /-- Reads or writes a part of an object through the function of that name. -/
  | access (name : String) (v : Expr) (n : Word) (new : Expr)
  | poke (v : Expr) (index : Nat) (bits : Word)
  | peek (v : Expr) (index : Nat)
  | decodeNear (v : Expr) (distance : Word)
  | decode (bits : Word)
  | root (name : String) (v : Expr)
  | writeRoot (name : String) (v : Expr)
  | dropRoot (name : String)
  | renderRoot (name : String)
  | slot (name : String) (v : Expr)
  | writeSlot (name : String) (v : Expr)
  | register (name : String)
  | unregister (name : String)
  | buffer (name : String) (words : List BufferWord)
  | addRegion (span : Span)
  | removeRegion (span : Span)
  | exclude (span : Span)
  | lift (span : Span)
  | registerLibrary (name : String) (segments : List Span)
  | unregisterLibrary (name : String)
  | finalizer (v : Expr) (label : String) (keep collect : Bool)
  | runFinalizers
  | collect
  | stats
  | isLive (name : String)
  | isLiveValue (v : Expr)
  /-- Allocates `count` objects; with a root, conses them onto its value. -/
  | churn (kind : Kind) (count length : Nat) (root? : Option String)
  | symbolCount
  | threadCount
  | attachAgain
  | abortPolicy
  | safepoint
  | safeRegion
  | thread
  /-- Collects while only the native stack refers to a list. -/
  | onStack
  | evaluate (form : Form) (bare : Bool)

def readSpan (d : Datum) : Span :=
  ⟨(d.get "buf").string, (d.get? "from").map Datum.nat, (d.get? "to").map Datum.nat⟩

def readBufferWord (d : Datum) : BufferWord :=
  match d with
  | .list [v, distance] => .near (readExpr v) distance.word
  | d => .plain d.word

/-- Reads a command from its record. -/
def readCommand? (d : Datum) : Option Command :=
  let name := (d.get "name").string
  let v := readExpr (d.get "v")
  match (d.get "do").string with
  | "let" => some (.define name v)
  | "show" => some (.inspect v)
  | "debug" => some (.render v)
  | "eq" => some (.same (readExpr (d.get "a")) (readExpr (d.get "b")))
  | "is_kind" => some (.isKind v (d.get "kind").kind)
  | "imm" => some (.immediate v)
  | "get" => some (.getField v (d.get "field").field)
  | "set" => some (.setField v (d.get "field").field (readExpr (d.get "to")))
  | "call" => some (.access (d.get "fn").string v (d.get "n").word (readExpr (d.get "to")))
  | "poke" => some (.poke v (d.get "word").nat (d.get "bits").word)
  | "peek" => some (.peek v (d.get "word").nat)
  | "decode" => some (.decodeNear v (d.get "plus").word)
  | "decode_raw" => some (.decode (d.get "bits").word)
  | "root" => some (.root name v)
  | "root_set" => some (.writeRoot name v)
  | "root_drop" => some (.dropRoot name)
  | "debug_root" => some (.renderRoot name)
  | "slot" => some (.slot name v)
  | "slot_write" => some (.writeSlot name v)
  | "register" => some (.register name)
  | "unregister" => some (.unregister name)
  | "buffer" => some (.buffer name ((d.get "words").items.map readBufferWord))
  | "add_region" => some (.addRegion (readSpan d))
  | "remove_region" => some (.removeRegion (readSpan d))
  | "exclude" => some (.exclude (readSpan d))
  | "include" => some (.lift (readSpan d))
  | "register_foreign" => some (.registerLibrary name ((d.get "segments").items.map readSpan))
  | "unregister_foreign" => some (.unregisterLibrary name)
  | "finalizer" =>
    some (.finalizer v (d.get "label").string (d.get "resurrect").isTrue (d.get "collect").isTrue)
  | "run_finalizers" => some .runFinalizers
  | "collect" => some .collect
  | "stats" => some .stats
  | "live" => some (.isLive name)
  | "live_value" => some (.isLiveValue v)
  | "churn" =>
    some (.churn (d.get "kind").kind (d.get "n").nat (d.get "len").nat
      ((d.get? "root").map Datum.string))
  | "symbol_count" => some .symbolCount
  | "thread_count" => some .threadCount
  | "attach_again" => some .attachAgain
  | "abort_policy" => some .abortPolicy
  | "safepoint" => some .safepoint
  | "safe_region" => some .safeRegion
  | "thread" => some .thread
  | "on_stack" => some .onStack
  | "eval" => some (.evaluate (readForm (d.get "e")) (d.get "bare").isTrue)
  | _ => none

end Substrate.Script
