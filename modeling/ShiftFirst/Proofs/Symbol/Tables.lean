import ShiftFirst.Proofs.Symbol.Enumeration

namespace ShiftFirst.SymbolTable

/-- What a table can be asked. -/
inductive Query where
  /-- The number of a name, which is given one if it is new. -/
  | intern (name : Symbol)
  /-- The number of a name, if it has one. -/
  | get (name : Symbol)
  /-- The name with a number. -/
  | name (id : SymbolId)
  deriving DecidableEq, Repr

inductive Answer where
  | interned (id : SymbolId)
  | found (id? : Option SymbolId)
  | named (name : Symbol)
  deriving DecidableEq, Repr

def ask (table : SymbolTable) : Query → Answer × SymbolTable
  | .intern name => (.interned (table.intern name).1, (table.intern name).2)
  | .get name => (.found (table.id? name), table)
  | .name id => (.named (table.name id), table)

/-- The answers of a table to queries in a row. -/
def askAll (table : SymbolTable) : List Query → List Answer × SymbolTable
  | [] => ([], table)
  | query :: queries =>
    let (answer, table) := table.ask query
    let (answers, table) := table.askAll queries
    (answer :: answers, table)

theorem extends_ask (table : SymbolTable) (query : Query) : table.Extends (table.ask query).2 := by
  cases query with
  | intern name => exact table.extends_intern name
  | get name => exact .refl table
  | name id => exact .refl table

theorem extends_askAll (table : SymbolTable) (queries : List Query) :
    table.Extends (table.askAll queries).2 := by
  induction queries generalizing table with
  | nil => exact .refl table
  | cons query queries ih => exact (table.extends_ask query).trans (ih _)

/-- What can be done with tables, which go by the order in which they were made. -/
inductive Call where
  | new
  /-- Makes a table that has what another one has by now. -/
  | clone (source : Nat)
  | ask (table : Nat) (query : Query)
  deriving DecidableEq, Repr

/-- What a call asks one of the tables. -/
def Call.query? (k : Nat) : Call → Option Query
  | .new => none
  | .clone _ => none
  | .ask j query => if j = k then some query else none

/-- Makes a call, and gives the answer together with the table that it comes from. Nothing comes of
a call on a table that there is not. -/
def call (tables : List SymbolTable) : Call → Option (Nat × Answer) × List SymbolTable
  | .new => (none, tables ++ [initial])
  | .clone source => (none, tables ++ (tables[source]?).toList)
  | .ask k query =>
    match tables[k]? with
    | none => (none, tables)
    | some table => (some (k, (table.ask query).1), tables.set k (table.ask query).2)

/-- The answers to calls in a row. -/
def run (tables : List SymbolTable) : List Call → List (Nat × Answer) × List SymbolTable
  | [] => ([], tables)
  | c :: calls =>
    let (answer, tables) := call tables c
    let (answers, tables) := run tables calls
    (answer.toList ++ answers, tables)

/-- The tables that calls make, where there are none at first. -/
def after (calls : List Call) : List SymbolTable := (run [] calls).2

/-- The answers that come from one of the tables. -/
def answersOf (k : Nat) (answers : List (Nat × Answer)) : List Answer :=
  (answers.filter (·.1 = k)).map (·.2)

theorem answersOf_append (k : Nat) (answers answers' : List (Nat × Answer)) :
    answersOf k (answers ++ answers') = answersOf k answers ++ answersOf k answers' := by
  simp only [answersOf, List.filter_append, List.map_append]

section Step

variable {tables : List SymbolTable} {table : SymbolTable} {k : Nat}

theorem call_ask (there : tables[k]? = some table) (query : Query) :
    call tables (.ask k query) =
      (some (k, (table.ask query).1), tables.set k (table.ask query).2) := by
  simp only [call, there]

/-- A query that leaves its table leaves all tables. -/
theorem call_ask_of_same (there : tables[k]? = some table) {query : Query} {answer : Answer}
    (same : table.ask query = (answer, table)) :
    call tables (.ask k query) = (some (k, answer), tables) := by
  obtain ⟨_, rfl⟩ := List.getElem?_eq_some_iff.mp there
  rw [call_ask there, same, List.set_getElem_self]

theorem call_of_query (there : tables[k]? = some table) {c : Call} {query : Query}
    (asked : c.query? k = some query) :
    (call tables c).1 = some (k, (table.ask query).1) ∧
      (call tables c).2[k]? = some (table.ask query).2 := by
  cases c with
  | new => cases asked
  | clone source => cases asked
  | ask j other =>
    obtain ⟨rfl, same⟩ := Option.ite_none_right_eq_some.mp asked
    cases same
    have bound := (List.getElem?_eq_some_iff.mp there).1
    rw [call_ask there]
    exact ⟨rfl, List.getElem?_set_self bound⟩

theorem call_of_no_query (there : tables[k]? = some table) {c : Call} (silent : c.query? k = none) :
    answersOf k (call tables c).1.toList = [] ∧ (call tables c).2[k]? = some table := by
  have bound := (List.getElem?_eq_some_iff.mp there).1
  cases c with
  | new => exact ⟨rfl, (List.getElem?_append_left bound).trans there⟩
  | clone source => exact ⟨rfl, (List.getElem?_append_left bound).trans there⟩
  | ask j query =>
    have other : j ≠ k := by simpa [Call.query?] using silent
    cases found : tables[j]? with
    | none =>
      have idle : call tables (.ask j query) = (none, tables) := by simp only [call, found]
      rw [idle]
      exact ⟨rfl, there⟩
    | some table' =>
      rw [call_ask found]
      exact ⟨by simp [answersOf, other], (List.getElem?_set_ne other).trans there⟩

end Step

/-- Whatever is done later, a table answers and grows as if the queries to it were all that was
done. -/
def Isolated (tables : List SymbolTable) (k : Nat) (table : SymbolTable) : Prop :=
  ∀ later : List Call,
    answersOf k (run tables later).1 = (table.askAll (later.filterMap (Call.query? k))).1 ∧
      (run tables later).2[k]? = some (table.askAll (later.filterMap (Call.query? k))).2

theorem isolated {tables : List SymbolTable} {table : SymbolTable} {k : Nat}
    (there : tables[k]? = some table) : Isolated tables k table := by
  intro later
  induction later generalizing tables table with
  | nil => exact ⟨rfl, there⟩
  | cons c later ih =>
    have split : answersOf k (run tables (c :: later)).1 =
        answersOf k (call tables c).1.toList ++ answersOf k (run (call tables c).2 later).1 :=
      answersOf_append k _ _
    rw [split]
    -- Only a query to this table moves it on, and then as it moves on by itself.
    cases asked : c.query? k with
    | none =>
      obtain ⟨silent, kept⟩ := call_of_no_query there asked
      obtain ⟨answers, last⟩ := ih kept
      rw [silent, List.nil_append, List.filterMap_cons_none asked]
      exact ⟨answers, last⟩
    | some query =>
      obtain ⟨answer, next⟩ := call_of_query there asked
      obtain ⟨answers, last⟩ := ih next
      rw [answer, answers, List.filterMap_cons_some asked]
      exact ⟨by simp [answersOf, askAll], last⟩

section Given

/-- The names that the tables have been given. A table that was made from another one has been
given what that one had been given until then. -/
def Call.give (given : List (List Symbol)) : Call → List (List Symbol)
  | .new => given ++ [[]]
  | .clone source => given ++ (given[source]?).toList
  | .ask k (.intern name) => given.modify k (· ++ [name])
  | .ask _ (.get _) => given
  | .ask _ (.name _) => given

def given (calls : List Call) : List (List Symbol) := calls.foldl Call.give []

theorem mention_concat (table : SymbolTable) (names : List Symbol) (name : Symbol) :
    table.mention (names ++ [name]) = ((table.mention names).intern name).2 :=
  List.foldl_append

/-- A call leaves the tables of the names that they have then been given. -/
theorem call_map_mention (given : List (List Symbol)) (c : Call) :
    (call (given.map initial.mention) c).2 = (c.give given).map initial.mention := by
  cases c with
  | new =>
    rw [call, Call.give, List.map_append, List.map_singleton]
    rfl
  | clone source => rw [call, Call.give, List.map_append, List.getElem?_map, Option.toList_map]
  | ask k query =>
    cases found : given[k]? with
    | none =>
      have beyond := List.getElem?_eq_none_iff.mp found
      have idle : (Call.ask k query).give given = given := by
        cases query <;> simp [Call.give, List.modify_eq_self beyond]
      simp [call, found, idle]
    | some names =>
      have there : (given.map initial.mention)[k]? = some (initial.mention names) := by
        rw [List.getElem?_map, found, Option.map_some]
      cases query with
      | intern name =>
        rw [call_ask there, Call.give, List.modify_eq_set_getElem?, found]
        simp [List.map_set, mention_concat, ask]
      | get name => rw [call_ask_of_same there rfl, Call.give]
      | name id => rw [call_ask_of_same there rfl, Call.give]

theorem run_map_mention (given : List (List Symbol)) (calls : List Call) :
    (run (given.map initial.mention) calls).2 =
      (calls.foldl Call.give given).map initial.mention := by
  induction calls generalizing given with
  | nil => rfl
  | cons c calls ih =>
    have rest := ih (c.give given)
    rwa [← call_map_mention] at rest

theorem after_eq (calls : List Call) : after calls = (given calls).map initial.mention :=
  run_map_mention [] calls

end Given

/-- Every table that calls make numbers the names it has been given, the two of the first table
before all others, from zero on and in the order of their first mention. Looking up and naming
leave all tables. A name that has a number keeps it, and a new one is given the next number, which
leaves the other names their numbers. A copy has what its source has, and from then on neither the
copy nor the source nor any other table is affected by what is done with the others. -/
theorem numbers_stable (calls : List Call) {k : Nat} {table : SymbolTable}
    (there : (after calls)[k]? = some table) :
    (∃ names, (given calls)[k]? = some names ∧
      table.Enumerates (startSymbol :: endSymbol :: names)) ∧
    (table.id? startSymbol = some startId ∧ table.id? endSymbol = some endId) ∧
    (∀ name, call (after calls) (.ask k (.get name)) =
      (some (k, .found (table.id? name)), after calls)) ∧
    (∀ id, call (after calls) (.ask k (.name id)) =
      (some (k, .named (table.name id)), after calls)) ∧
    (∀ name id, table.id? name = some id →
      call (after calls) (.ask k (.intern name)) = (some (k, .interned id), after calls)) ∧
    (∀ name, table.id? name = none → ∃ table', table.Adds name table' ∧
      call (after calls) (.ask k (.intern name)) =
        (some (k, .interned table.size), (after calls).set k table')) ∧
    ((call (after calls) (.clone k)).2 = after calls ++ [table] ∧
      Isolated (after calls ++ [table]) k table ∧
      Isolated (after calls ++ [table]) (after calls).length table) ∧
    Isolated (after calls) k table ∧
    ∀ later, ∃ table', (run (after calls) later).2[k]? = some table' ∧
      (∀ name id, table.id? name = some id → table'.id? name = some id) ∧
      ∀ id < table.size, table'.name id = table.name id := by
  obtain ⟨names, mentioned, rfl⟩ :
      ∃ names, (given calls)[k]? = some names ∧ initial.mention names = table := by
    rw [after_eq, List.getElem?_map, Option.map_eq_some_iff] at there
    exact there
  have grown := extends_mention initial names
  refine ⟨⟨names, mentioned, enumerates_mention names⟩,
    ⟨grown.id? (by decide), grown.id? (by decide)⟩, fun name => call_ask_of_same there rfl,
    fun id => call_ask_of_same there rfl, fun name id known => ?_, fun name new => ?_,
    ⟨?_, ?_, ?_⟩, isolated there, fun later => ?_⟩
  · exact call_ask_of_same there (by rw [ask, intern_of_id? known])
  · exact ⟨_, adds_of_new new, by rw [call_ask there, ask, intern_of_new new]⟩
  · rw [call, there, Option.toList_some]
  · have bound := (List.getElem?_eq_some_iff.mp there).1
    exact isolated ((List.getElem?_append_left bound).trans there)
  · exact isolated List.getElem?_concat_length
  · have more := extends_askAll (initial.mention names) (later.filterMap (Call.query? k))
    exact ⟨_, (isolated there later).2, fun name id known => more.id? known,
      fun id known => more.name known⟩

/-- A table and a copy of it, each of which is then given a name of its own. -/
def copied : List Call :=
  [.new, .ask 0 (.intern "a"), .clone 0, .ask 1 (.intern "b"), .ask 0 (.intern "c")]

/-- The name that only the source of the copy has been given is new to the copy. -/
theorem numbers_stable_cloned :
    (after copied)[1]? = some ⟨["^", "$", "a", "b"]⟩ ∧
    (⟨["^", "$", "a", "b"]⟩ : SymbolTable).Enumerates ["^", "$", "a", "b"] ∧
    call (after copied) (.ask 1 (.intern "a")) = (some (1, .interned 2), after copied) ∧
    (call (after copied) (.ask 1 (.intern "c"))).1 = some (1, .interned 4) ∧
    Isolated (after copied) 1 ⟨["^", "$", "a", "b"]⟩ := by
  have there : (after copied)[1]? = some ⟨["^", "$", "a", "b"]⟩ := by decide
  obtain ⟨⟨names, mentioned, enumerates⟩, _, _, _, known, new, _, isolated, _⟩ :=
    numbers_stable copied there
  have same : ["a", "b"] = names := Option.some.inj mentioned
  obtain ⟨_, _, answer⟩ := new "c" (by decide)
  exact ⟨there, same ▸ enumerates, known "a" 2 (by decide), congrArg Prod.fst answer, isolated⟩

end ShiftFirst.SymbolTable
