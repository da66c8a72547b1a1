import Mathlib.Data.List.NodupEquivFin
import ShiftFirst.Proofs.Grammar.Closure
import ShiftFirst.Proofs.Grammar.Interning

namespace ShiftFirst.SymbolTable

variable {table table' : SymbolTable} {names : List Symbol}

theorem name_eq_getElem {id : SymbolId} (h : id < table.names.length) :
    table.name id = table.names[id] := by
  rw [SymbolTable.name, List.getElem?_eq_getElem h, Option.getD_some]

theorem map_name_range (table : SymbolTable) :
    (List.range table.size).map table.name = table.names := by
  refine List.ext_getElem (by simp [size]) fun id _ h => ?_
  rw [List.getElem_map, List.getElem_range, name_eq_getElem h]

theorem lt_size_of_id? {name : Symbol} {id : SymbolId} (h : table.id? name = some id) :
    id < table.size :=
  (List.idxOf?_eq_some_iff.mp h).1

theorem id?_eq_none_iff {name : Symbol} : table.id? name = none ↔ name ∉ table.names :=
  List.idxOf?_eq_none_iff

/-- Where no name stands twice, each number is that of its name. -/
theorem id?_name (distinct : table.names.Nodup) {id : SymbolId} (h : id < table.names.length) :
    table.id? (table.name id) = some id := by
  refine List.idxOf?_eq_some_iff.mpr ⟨h, (name_eq_getElem h).symm, fun j earlier same => ?_⟩
  rw [name_eq_getElem h] at same
  exact Nat.ne_of_lt earlier (distinct.getElem_inj_iff.mp same)

theorem Extends.name (h : table.Extends table') {id : SymbolId} (known : id < table.size) :
    table'.name id = table.name id := by
  obtain ⟨later, names⟩ := h
  rw [SymbolTable.name, SymbolTable.name, ← names, List.getElem?_append_left known]

theorem intern_of_id? {name : Symbol} {id : SymbolId} (h : table.id? name = some id) :
    table.intern name = (id, table) := by
  simp only [intern, h]

theorem intern_of_new {name : Symbol} (h : table.id? name = none) :
    table.intern name = (table.size, ⟨table.names ++ [name]⟩) := by
  simp only [intern, h]

theorem names_intern (h : table.names = names.eraseDups) (name : Symbol) :
    (table.intern name).2.names = (names ++ [name]).eraseDups := by
  rw [List.eraseDups_append, ← h]
  cases found : table.id? name with
  | some id =>
    have old : name ∈ names := by
      rw [← List.mem_eraseDups, ← h, ← name_of_id? found, name_eq_getElem (lt_size_of_id? found)]
      exact List.getElem_mem _
    simp [intern_of_id? found, List.removeAll, old]
  | none =>
    have new : name ∉ names := by rwa [← List.mem_eraseDups, ← h, ← id?_eq_none_iff]
    simp [intern_of_new found, List.removeAll, new, List.eraseDups_cons]

theorem names_mention (h : table.names = names.eraseDups) (more : List Symbol) :
    (table.mention more).names = (names ++ more).eraseDups := by
  induction more generalizing table names with
  | nil => rwa [List.append_nil]
  | cons name more ih =>
    have next := ih (names_intern h name)
    rwa [List.append_assoc] at next

theorem names_initial : initial.names = [startSymbol, endSymbol].eraseDups := by decide

/-- A table numbers the names of a list from zero on, each once, in the order of their first
mention; the look-up of names and the naming of numbers undo each other. As long as the table has no
more names than there are words of 32 bits, each number is such a word. -/
structure Enumerates (table : SymbolTable) (names : List Symbol) : Prop where
  order : (List.range table.size).map table.name = names.eraseDups
  numbers : ∃ numbers : {name // name ∈ names} ≃ Fin table.size,
    (∀ known, table.id? known.val = some (numbers known).val) ∧
      ∀ id : Fin table.size, table.name id = numbers.symm id
  unknown : ∀ name ∉ names, table.id? name = none
  words : table.size ≤ UInt32.size →
    ∀ name id, table.id? name = some id → (UInt32.ofNat id).toNat = id

theorem enumerates_of_names (h : table.names = names.eraseDups) : table.Enumerates names where
  order := (map_name_range table).trans h
  numbers := by
    have distinct : table.names.Nodup := h ▸ nodup_eraseDups names
    have mentioned (name : Symbol) : name ∈ names ↔ name ∈ table.names := by
      rw [h, List.mem_eraseDups]
    let places : Fin table.size ≃ {name // name ∈ table.names} := distinct.getEquiv table.names
    have named (id : Fin table.size) : table.name id = places id := name_eq_getElem id.isLt
    refine ⟨(Equiv.subtypeEquivRight mentioned).trans places.symm, fun known => ?_, named⟩
    have back := id?_name distinct (places.symm ⟨known, (mentioned known).mp known.2⟩).isLt
    rwa [named, Equiv.apply_symm_apply] at back
  unknown name absent :=
    id?_eq_none_iff.mpr fun there => absent (List.mem_eraseDups.mp (h ▸ there))
  words few name id known := by
    rw [UInt32.toNat_ofNat']
    exact Nat.mod_eq_of_lt (Nat.lt_of_lt_of_le (lt_size_of_id? known) few)

/-- The names of the first table come before all others. -/
theorem enumerates_mention (names : List Symbol) :
    (initial.mention names).Enumerates (startSymbol :: endSymbol :: names) :=
  enumerates_of_names (names_mention names_initial names)

/-- A table has the names of another one under their numbers, and one more name behind them. -/
structure Adds (table : SymbolTable) (name : Symbol) (table' : SymbolTable) : Prop where
  size : table'.size = table.size + 1
  last : table'.id? name = some table.size ∧ table'.name table.size = name
  ids : ∀ other id, table.id? other = some id → table'.id? other = some id
  names : ∀ id < table.size, table'.name id = table.name id

theorem adds_of_new {name : Symbol} (new : table.id? name = none) :
    table.Adds name ⟨table.names ++ [name]⟩ where
  size := List.length_append
  last := by
    have there := id?_append_self (id?_eq_none_iff.mp new)
    exact ⟨there, name_of_id? there⟩
  ids _ _ known := Extends.id? (List.prefix_append _ _) known
  names _ known := Extends.name (List.prefix_append _ _) known

end ShiftFirst.SymbolTable
