import Mathlib.Data.List.Forall2
import ShiftFirst.Grammar.Numbering

namespace ShiftFirst.SymbolTable

variable {table table' table'' : SymbolTable} {name : Symbol} {names : List Symbol} {id : SymbolId}

/-- A table has the names of another one under the same numbers. -/
def Extends (table table' : SymbolTable) : Prop := table.names <+: table'.names

theorem Extends.refl (table : SymbolTable) : table.Extends table := List.prefix_rfl

theorem Extends.trans (h : table.Extends table') (h' : table'.Extends table'') :
    table.Extends table'' :=
  List.IsPrefix.trans h h'

theorem Extends.id? (h : table.Extends table') (known : table.id? name = some id) :
    table'.id? name = some id := by
  obtain ⟨later, names⟩ := h
  unfold SymbolTable.id? List.idxOf? at known ⊢
  rw [← names, List.findIdx?_append, known]
  rfl

theorem name_of_id? (h : table.id? name = some id) : table.name id = name := by
  obtain ⟨bound, found, _⟩ := List.idxOf?_eq_some_iff.mp h
  rw [SymbolTable.name, List.getElem?_eq_getElem bound, found]
  rfl

theorem name_injective {name' : Symbol} (h : table.id? name = some id)
    (h' : table.id? name' = some id) : name = name' :=
  (name_of_id? h).symm.trans (name_of_id? h')

theorem id?_append_self {names : List Symbol} (new : name ∉ names) :
    (SymbolTable.mk (names ++ [name])).id? name = some names.length := by
  have none : names.findIdx? (· == name) = none := List.idxOf?_eq_none_iff.mpr new
  unfold SymbolTable.id? List.idxOf?
  rw [List.findIdx?_append, none]
  simp

theorem extends_intern (table : SymbolTable) (name : Symbol) :
    table.Extends (table.intern name).2 := by
  unfold intern
  split
  next => exact .refl table
  next => exact List.prefix_append _ _

/-- A name stands in the table under the number that is given to it. -/
theorem id?_intern (table : SymbolTable) (name : Symbol) :
    (table.intern name).2.id? name = some (table.intern name).1 := by
  unfold intern
  split
  next known => exact known
  next new => exact id?_append_self (List.idxOf?_eq_none_iff.mp new)

theorem internAll_snd (table : SymbolTable) (names : List Symbol) :
    (table.internAll names).2 = table.mention names := by
  induction names generalizing table with
  | nil => rfl
  | cons name names ih => exact ih _

theorem extends_mention (table : SymbolTable) (names : List Symbol) :
    table.Extends (table.mention names) := by
  induction names generalizing table with
  | nil => exact .refl table
  | cons name names ih => exact (table.extends_intern name).trans (ih _)

/-- The numbers of names in a row. -/
def Spells (table : SymbolTable) (names : List Symbol) (ids : List SymbolId) : Prop :=
  List.Forall₂ (fun name id => table.id? name = some id) names ids

theorem Spells.extends {ids : List SymbolId} (h : table.Spells names ids)
    (more : table.Extends table') : table'.Spells names ids :=
  List.Forall₂.imp (fun _ _ known => more.id? known) h

theorem Spells.map_name {ids : List SymbolId} (h : table.Spells names ids) :
    ids.map table.name = names := by
  induction h with
  | nil => rfl
  | cons known _ ih => rw [List.map_cons, name_of_id? known, ih]

theorem Spells.getElem? {ids : List SymbolId} (h : table.Spells names ids) (k : Nat) :
    ids[k]? = (names[k]?).bind table.id? := by
  induction h generalizing k with
  | nil => rfl
  | cons known _ ih =>
    cases k with
    | zero => exact known.symm
    | succ k => exact ih k

theorem spells_internAll (table : SymbolTable) (names : List Symbol) :
    (table.internAll names).2.Spells names (table.internAll names).1 := by
  induction names generalizing table with
  | nil => exact .nil
  | cons name names ih =>
    have later : ((table.intern name).2.internAll names).2.id? name =
        some (table.intern name).1 := by
      rw [internAll_snd]
      exact (extends_mention _ names).id? (table.id?_intern name)
    exact .cons later (ih _)

end ShiftFirst.SymbolTable
