import ShiftFirst.Proofs.Formula.Spacing

namespace ShiftFirst.Formula

section Levels

variable {α ω κ : Type} [DecidableEq κ] (level : ω → κ) (apply : ω → α → α → α)

/-- Applies the operators of a level, from the left on. The others stay between what that makes of
their operands. -/
def contract (l : κ) : α → List (ω × α) → α × List (ω × α)
  | x, [] => (x, [])
  | x, (o, y) :: row =>
    if level o = l then contract l (apply o x y) row
    else (x, (o, (contract l y row).1) :: (contract l y row).2)

def contractAll (levels : List κ) (x : α) (row : List (ω × α)) : α × List (ω × α) :=
  levels.foldl (fun found l => contract level apply l found.1 found.2) (x, row)

/-- The value of operands with operators between them. Those of the levels that come first bind
tighter, and every operator groups to the left. -/
def byPrecedence (levels : List κ) (x : α) (row : List (ω × α)) : α :=
  (contractAll level apply levels x row).1

example : byPrecedence id (fun o x y => "(" ++ x ++ o ++ y ++ ")") ["*", "+"] "a"
    [("+", "b"), ("*", "c"), ("*", "d"), ("+", "e")] = "((a+((b*c)*d))+e)" := by
  decide

variable {level apply} {l : κ} {o : ω} {x y : α} {row : List (ω × α)}

theorem contract_tight (h : level o = l) :
    contract level apply l x ((o, y) :: row) = contract level apply l (apply o x y) row :=
  if_pos h

theorem contract_loose (h : level o ≠ l) :
    contract level apply l x ((o, y) :: row) =
      (x, (o, (contract level apply l y row).1) :: (contract level apply l y row).2) :=
  if_neg h

theorem contract_operators :
    (contract level apply l x row).2.map Prod.fst =
      (row.map Prod.fst).filter fun o => level o ≠ l := by
  induction row generalizing x with
  | nil => rfl
  | cons first row ih =>
    obtain ⟨o, y⟩ := first
    by_cases tight : level o = l
    · rw [contract_tight tight, ih, List.map_cons, List.filter_cons_of_neg (by simpa using tight)]
    · rw [contract_loose tight, List.map_cons, ih, List.map_cons,
        List.filter_cons_of_pos (by simpa using tight)]

theorem contractAll_operators {levels : List κ} :
    (contractAll level apply levels x row).2.map Prod.fst =
      (row.map Prod.fst).filter fun o => level o ∉ levels := by
  induction levels generalizing x row with
  | nil => simp [contractAll]
  | cons l levels ih =>
    calc ((contractAll level apply levels (contract level apply l x row).1
          (contract level apply l x row).2).2).map Prod.fst
        = ((row.map Prod.fst).filter fun o => level o ≠ l).filter fun o => level o ∉ levels := by
          rw [ih, contract_operators]
      _ = (row.map Prod.fst).filter fun o => level o ∉ l :: levels := by
          rw [List.filter_filter]
          exact List.filter_congr fun o _ => by simp [Bool.and_comm]

/-- Where the level of every operator is among the levels, none is left. -/
theorem contractAll_eq_nil {levels : List κ} (all : ∀ o ∈ row.map Prod.fst, level o ∈ levels) :
    (contractAll level apply levels x row).2 = [] := by
  refine List.map_eq_nil_iff.mp (contractAll_operators.trans ?_)
  exact List.filter_eq_nil_iff.mpr fun o mem => by simpa using all o mem

end Levels

section Flat

variable {α ω : Type} {symbol : ω → String} {spell : α → String} {x : α} {row : List (ω × α)}
  {source : String}

/-- The words of operands with operators between them. -/
def flat (symbol : ω → String) (spell : α → String) : α → List (ω × α) → List String
  | x, [] => [spell x]
  | x, (o, y) :: row => spell x :: symbol o :: flat symbol spell y row

theorem forall_mem_flat (P : String → Prop) (symbols : ∀ o, P (symbol o))
    (spellings : ∀ x, P (spell x)) : ∀ w ∈ flat symbol spell x row, P w := by
  induction row generalizing x with
  | nil => exact List.forall_mem_singleton.mpr (spellings x)
  | cons first row ih =>
    exact List.forall_mem_cons.mpr ⟨spellings x, List.forall_mem_cons.mpr ⟨symbols _, ih⟩⟩

/-- No two operands meet. -/
theorem apart_flat (symbols : ∀ o, symbol o ∈ words) :
    (flat symbol spell x row).IsChain fun w w' => w ∈ words ∨ w' ∈ words := by
  induction row generalizing x with
  | nil => exact .singleton _
  | cons first row ih =>
    refine List.isChain_cons.mpr ⟨fun w mem => Or.inr ?_, List.isChain_cons.mpr ⟨fun w _ => ?_, ih⟩⟩
    · cases mem
      exact symbols _
    · exact Or.inl (symbols _)

/-- The token that a word is, alone. -/
def tokenOf (w : String) : Token := ⟨nameOf w, w, 0⟩

theorem scans_flat (symbols : ∀ o, symbol o ∈ words)
    (spellings : ∀ x, spell x ∈ words ∨ Binary64.IsNumeral (spell x).toList)
    (text : Spaced (flat symbol spell x row) source.toList) :
    Scans source.toList (((flat symbol spell x row).map tokenOf).map key) [] := by
  have known : ∀ w ∈ flat symbol spell x row, w ∈ words ∨ Binary64.IsNumeral w.toList :=
    forall_mem_flat _ (fun o => Or.inl (symbols o)) spellings
  rw [List.map_map]
  exact text.scans known (apart_flat symbols)

end Flat

end ShiftFirst.Formula
