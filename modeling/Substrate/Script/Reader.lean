import Substrate.Script.Datum
import Substrate.Script.Syntax

/-!
# Reading scripts

Expressions and forms from their notation. An expression is a number, a truth value, the name of a
symbol, or a record with one field that names what is made; a form is a list with its name first.
-/

namespace Substrate.Script

def readEntry? : String → Option Entry
  | "count" => some .count
  | "first" => some .first
  | "env" => some .env
  | "call_env" => some .callEnv
  | "recurse" => some .recurse
  | "countdown" => some .countdown
  | "backtrace" => some .backtrace
  | "throw" => some .throwFirst
  | "error" => some .error
  | _ => none

def readStreamMode? : String → Option StreamMode
  | "input" => some .input
  | "output" => some .output
  | "io" => some .io
  | _ => none

def readTower? : String → Option Tower
  | "catch" => some .catching
  | "protect" => some .protecting
  | "bind" => some .binding
  | _ => none

def readProbe? : String → Option Probe
  | "depth" | "values" | "set_values" | "exit" | "backtrace" => some .control
  | "owner" => some .owner
  | "id" => some .id
  | "gc_state" => some .state
  | "attached" => some .attached
  | _ => none

/-- The values that have names. -/
def readKnown? : String → Option Value
  | "empty" => some .empty
  | "nil" => some .nil
  | "t" => some .t
  | "eof" => some .eof
  | "unbound" => some .unbound
  | _ => none

mutual

/-- Reads an expression nested at most `fuel` deep. -/
def readExprWith? : Nat → Datum → Option Expr
  | 0, _ => none
  | _, .null => some (.known .nil)
  | _, .bool b => some (.known (.ofBool b))
  | _, .int n => some (.number (Datum.int n).signed)
  | _, .text name => some (.symbol name)
  | fuel + 1, .record [(name, d)] => readMaker? fuel name d
  | _, _ => none
termination_by fuel _ => (fuel, 0)

/-- Reads the expression that makes what is named. -/
def readMaker? (fuel : Nat) (name : String) (d : Datum) : Option Expr := do
  match name with
  | "c" => return .immediate .character d.word
  | "f" => return .immediate .singleFloat d.word
  | "const" => return .immediate .constant d.word
  | "k" => return .known (← readKnown? d.string)
  | "imm" => return .immediate (d.item 0).kind (d.item 1).word
  | "h" => return .handle d.string
  | "root" => return .root d.string
  | "block" => return .block d.string
  | "arg" => return .argument d.nat
  | "s" => return .string d.string
  | "rep" => return .repeated (d.item 0).string (d.item 1).nat
  | "usym" => return .uninterned d.string
  | "cons" => return .cons (← readExprWith? fuel (d.item 0)) (← readExprWith? fuel (d.item 1))
  | "list" => return .list (← d.items.mapM (readExprWith? fuel))
  | "range" => return .range d.nat
  | "chain" => return .chain d.nat
  | "vec" => return .vector (← d.items.mapM (readExprWith? fuel))
  | "mkvec" => return .filled (d.item 0).nat (← readExprWith? fuel (d.item 1))
  | "d" => return .double d.word
  | "big" => return .bignum (d.item 0).isTrue ((d.item 1).items.map Datum.word)
  | "ratio" => return .ratio (← readExprWith? fuel (d.item 0)) (← readExprWith? fuel (d.item 1))
  | "complex" => return .complex (← readExprWith? fuel (d.item 0)) (← readExprWith? fuel (d.item 1))
  | "struct" =>
    return .record (← readExprWith? fuel (d.item 0)) (← (d.item 1).items.mapM (readExprWith? fuel))
  | "stream" =>
    return .stream (← readStreamMode? (d.item 0).string) (← readExprWith? fuel (d.item 1))
      (← readExprWith? fuel (d.item 2)) (d.item 3).word
  | "foreign" => return .foreign (d.item 0).word (d.item 1).word (← readExprWith? fuel (d.item 2))
  | "closure" =>
    return .closure (← readEntry? (d.item 0).string) (← readExprWith? fuel (d.item 1))
      (← readExprWith? fuel (d.item 2))
  | "lambda" =>
    return .lambda (← readFormWith? fuel (d.item 0)) (← readExprWith? fuel (d.item 1))
  | "alloc" => return .raw (d.item 0).kind (d.item 1).nat
  | _ => none
termination_by (fuel, 1)

/-- Reads a form nested at most `fuel` deep. -/
def readFormWith? : Nat → Datum → Option Form
  | 0, _ => none
  | fuel + 1, .list (.text name :: parts) => readPhrase? fuel name parts
  | _, _ => none
termination_by fuel _ => (fuel, 0)

/-- Reads the form of a name from its parts. -/
def readPhrase? (fuel : Nat) (name : String) (parts : List Datum) : Option Form := do
  let part (index : Nat) : Datum := parts.getD index .null
  let expr (index : Nat) : Option Expr := readExprWith? fuel (part index)
  let form (index : Nat) : Option Form := readFormWith? fuel (part index)
  let exprs (index : Nat) : Option (List Expr) := (part index).items.mapM (readExprWith? fuel)
  let forms (index : Nat) : Option (List Form) := (parts.drop index).mapM (readFormWith? fuel)
  match name with
  | "v" => return .value (← expr 0)
  | "seq" => return .seq (← forms 0)
  | "catch" => return .catching (← expr 0) (← forms 1)
  | "block" => return .block (part 0).string (← forms 1)
  | "exit" => return .exit (← expr 0) (← expr 1)
  | "exit_values" => return .exitValues (← expr 0) (← exprs 1)
  | "protect" => return .protect (← form 0) (← forms 1)
  | "bind" => return .bind (← expr 0) (← expr 1) (← forms 2)
  | "get" => return .get (← expr 0)
  | "set" => return .set (← expr 0) (← expr 1)
  | "boundp" => return .isBound (← expr 0)
  | "values" => return .values
  | "set_values" => return .setValues (← exprs 0)
  | "depth" => return .depth
  | "error" => return .error (part 0).string
  | "funcall" => return .call (← expr 0) (← exprs 1)
  | "backtrace" => return .backtrace
  | "log" => return .log (← expr 0)
  | "note" => return .note (← form 0)
  | "discard" => return .discard (← form 0)
  | "handle" => return .handle (← form 0)
  | "toplevel" => return .toplevel (← form 0)
  | "fence" => return .fence (← form 0)
  | "hold" => return .hold (part 0).string (← form 1)
  | "release" => return .release (part 0).string
  | "collect" => return .collect
  | "keep" => return .keep (part 0).string (← form 1)
  | "nest" => return .nest (part 0).nat (← readTower? (part 1).string) (← form 2)
  | "cleanups" => return .cleanups
  | "repeat" => return .iterate (part 0).nat (← form 1)
  | "spawn" => return .spawn (← form 0)
  | "spawn_fatal" => return .spawnExit (← expr 0)
  | "foreign" => return .probe (← readProbe? (part 0).string)
  | _ => none
termination_by (fuel, 1)

end

/-- Scripts are nested less than this. -/
def readLimit : Nat := 100000

/-- Reads an expression; what is none stands for nil. -/
def readExpr (d : Datum) : Expr := (readExprWith? readLimit d).getD (.known .nil)

/-- Reads a form; what is none does nothing. -/
def readForm (d : Datum) : Form := (readFormWith? readLimit d).getD (.seq [])

end Substrate.Script
