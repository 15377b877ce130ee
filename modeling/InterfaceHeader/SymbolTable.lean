import InterfaceHeader.Association
import InterfaceHeader.Text.Blank
import InterfaceHeader.Text.Decimal

/-!
# Symbol tables

The symbols that conditional compilation tests. A symbol is undefined, or defined with a truth
value; `SymbolTable.value?` is the view through which everything else sees a table, and every
operation has one equation in terms of it.
-/

namespace InterfaceHeader

/-- The defined symbols with their truth values, each name once. -/
structure SymbolTable where
  entries : List (String × Bool)
deriving DecidableEq

namespace SymbolTable

/-- Nothing is defined. -/
def empty : SymbolTable := ⟨[]⟩

/-- The truth value of a symbol; none if it is undefined. -/
def value? (t : SymbolTable) (name : String) : Option Bool :=
  t.entries.lookup name

/-- A symbol is defined, whatever its value. -/
def isDefined (t : SymbolTable) (name : String) : Bool :=
  (t.value? name).isSome

/-- A symbol is defined and true. -/
def holds (t : SymbolTable) (name : String) : Bool :=
  t.value? name == some true

/-- The table without a symbol. -/
def undefine (t : SymbolTable) (name : String) : SymbolTable :=
  ⟨Association.erase t.entries name⟩

/-- The table in which a symbol has a value, whatever it had before. -/
def define (t : SymbolTable) (name : String) (value : Bool) : SymbolTable :=
  ⟨Association.insert t.entries name value⟩

/-- Defines a symbol, or undefines it if there is no value. -/
def assign (t : SymbolTable) (name : String) : Option Bool → SymbolTable
  | some value => t.define name value
  | none => t.undefine name

/-- The table in which exactly the given names are defined, all true. -/
def ofFlags (names : List String) : SymbolTable :=
  names.foldl (fun t name => t.define name true) empty

/-- The defined symbols in the order of their names. -/
def sorted (t : SymbolTable) : List (String × Bool) :=
  t.entries.mergeSort fun a b => decide (a.1 ≤ b.1)

theorem value?_undefine (t : SymbolTable) (name other : String) :
    (t.undefine name).value? other = if other = name then none else t.value? other :=
  Association.lookup_erase t.entries name other

theorem value?_define (t : SymbolTable) (name other : String) (value : Bool) :
    (t.define name value).value? other = if other = name then some value else t.value? other :=
  Association.lookup_insert t.entries name other value

theorem value?_assign (t : SymbolTable) (name other : String) (value : Option Bool) :
    (t.assign name value).value? other = if other = name then value else t.value? other := by
  cases value with
  | none => exact value?_undefine t name other
  | some value => exact value?_define t name other value

end SymbolTable

/-- The truth value that the text of a definition gives its symbol: false if the text is a 64-bit
    integer with value zero, and true for everything else, nothing included. -/
def definitionValue (text : List Char) : Bool :=
  decide (Decimal.readWord? (Text.trim text) ≠ some 0)

end InterfaceHeader
