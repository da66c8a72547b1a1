namespace ShiftFirst

/-- The name of a terminal or of a nonterminal. -/
abbrev Symbol := String

/-- The subject of the rule that every grammar begins with. -/
def startSymbol : Symbol := "^"

/-- The name of the token behind the last one of a text. -/
def endSymbol : Symbol := "$"

/-- Names numbered in the order of their first mention. -/
structure SymbolTable where
  names : List Symbol
  deriving DecidableEq, Repr

/-- The number of a name in some table. -/
abbrev SymbolId := Nat

namespace SymbolTable

/-- The table of the two names that every grammar mentions. -/
def initial : SymbolTable := ⟨[startSymbol, endSymbol]⟩

/-- The numbers of these two names in every table that comes of the first one. -/
def startId : SymbolId := 0

def endId : SymbolId := 1

def id? (table : SymbolTable) (name : Symbol) : Option SymbolId := table.names.idxOf? name

/-- The name with a number; a number of another table may stand for no name. -/
def name (table : SymbolTable) (id : SymbolId) : Symbol := table.names[id]?.getD "?"

def size (table : SymbolTable) : Nat := table.names.length

/-- The number of a name, which is the next one if the name is new. -/
def intern (table : SymbolTable) (name : Symbol) : SymbolId × SymbolTable :=
  match table.id? name with
  | some id => (id, table)
  | none => (table.size, ⟨table.names ++ [name]⟩)

/-- The numbers of names in a row. -/
def internAll (table : SymbolTable) : List Symbol → List SymbolId × SymbolTable
  | [] => ([], table)
  | name :: names =>
    let (id, table) := table.intern name
    let (ids, table) := table.internAll names
    (id :: ids, table)

/-- The table after a mention of each of the names. -/
def mention (table : SymbolTable) (names : List Symbol) : SymbolTable :=
  names.foldl (fun table name => (table.intern name).2) table

end SymbolTable

end ShiftFirst
