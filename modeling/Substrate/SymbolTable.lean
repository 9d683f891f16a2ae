import Substrate.Value

/-!
# The symbol table

Interned symbols by name. A name has at most one symbol, and every symbol in the table is a root.
-/

namespace Substrate

structure SymbolTable where
  /-- Names with their symbols, each name once. -/
  entries : List (String × Value)
  deriving Repr

namespace SymbolTable

def empty : SymbolTable := ⟨[]⟩

def get? (table : SymbolTable) (name : String) : Option Value :=
  table.entries.lookup name

/-- Gives a name a symbol, in place of the one it had. -/
def insert (table : SymbolTable) (name : String) (symbol : Value) : SymbolTable :=
  ⟨(name, symbol) :: table.entries.filter (·.1 != name)⟩

def size (table : SymbolTable) : Nat := table.entries.length

def isEmpty (table : SymbolTable) : Bool := table.entries.isEmpty

def symbols (table : SymbolTable) : List Value := table.entries.map (·.2)

@[simp] theorem get?_insert_self (table : SymbolTable) (name : String) (symbol : Value) :
    (table.insert name symbol).get? name = some symbol := by
  simp [insert, get?]

end SymbolTable

end Substrate
