import Mathlib.Data.List.Perm.Basic
import ShiftFirst.Proofs.Formula.Evaluation
import ShiftFirst.Proofs.Lexer.Selection

namespace ShiftFirst

namespace Lexer

variable {lexer lexer' : Lexer} {source : String} {position fuel : Nat} {text : List Char}
  {table table' : List (Symbol × String)} {read : List TokenDefinition}

theorem mapM_readDefinition_iff :
    table.mapM readDefinition = .ok read ↔
      List.Forall₂ (fun d d' => readDefinition d = .ok d') table read := by
  induction table generalizing read with
  | nil =>
    rw [List.forall₂_nil_left_iff]
    exact ⟨fun h => (Except.ok.inj h).symm, fun h => h ▸ rfl⟩
  | cons d table ih =>
    rw [List.mapM_cons, List.forall₂_cons_left_iff]
    cases first : readDefinition d with
    | error e => simp [bind, Except.bind]
    | ok d' =>
      cases others : table.mapM readDefinition with
      | error e => simp [bind, Except.bind, ← ih, others]
      | ok read' =>
        simp only [bind, Except.bind, pure, Except.pure, ← ih, others, Except.ok.injEq]
        exact ⟨fun h => ⟨d', read', rfl, rfl, h.symm⟩,
          fun ⟨_, _, head, tail, h⟩ => head ▸ tail ▸ h.symm⟩

theorem ofDefinitions_iff : ofDefinitions table = .ok lexer ↔
    lexer.policy = .longest ∧
      List.Forall₂ (fun d d' => readDefinition d = .ok d') table lexer.definitions := by
  rw [← mapM_readDefinition_iff, ofDefinitions]
  cases table.mapM readDefinition with
  | error e => simp [bind, Except.bind]
  | ok read =>
    constructor
    · intro h
      cases h
      exact ⟨rfl, rfl⟩
    · rintro ⟨policy, same⟩
      cases same
      exact congrArg Except.ok (congrArg (Lexer.mk lexer.definitions) policy.symm)

/-- Definitions in another order are read in that order. -/
theorem ofDefinitions_perm (perm : table.Perm table') (h : ofDefinitions table' = .ok lexer') :
    ∃ lexer, ofDefinitions table = .ok lexer ∧ lexer.definitions.Perm lexer'.definitions := by
  obtain ⟨_, related⟩ := ofDefinitions_iff.mp h
  obtain ⟨read, there, reordered⟩ := List.perm_comp_forall₂ perm related
  exact ⟨⟨read, .longest⟩, ofDefinitions_iff.mpr ⟨rfl, there⟩, reordered⟩

theorem Unambiguous.perm (h : lexer'.Unambiguous text)
    (perm : lexer.definitions.Perm lexer'.definitions) : lexer.Unambiguous text :=
  fun d mem d' mem' => h d (perm.mem_iff.mp mem) d' (perm.mem_iff.mp mem')

/-- Where at most one definition matches, neither the order of the definitions nor the policy has
a say. -/
theorem Unambiguous.select_eq (h : lexer'.Unambiguous text)
    (perm : lexer.definitions.Perm lexer'.definitions) :
    lexer.select text = lexer'.select text := by
  refine Option.ext fun ⟨d, n⟩ => ?_
  rw [select_eq_some_iff (h.perm perm), select_eq_some_iff h, perm.mem_iff]

theorem tokensFrom_congr (same : ∀ text, lexer.select text = lexer'.select text) :
    lexer.tokensFrom source fuel position text = lexer'.tokensFrom source fuel position text := by
  induction fuel generalizing position text with
  | zero => rfl
  | succ fuel ih =>
    unfold tokensFrom
    rw [same]
    simp only [ih]

end Lexer

namespace Formula

/-- However the table of tokens is ordered and whichever match makes the token, formulas are cut
into the same tokens or break off with the same error: no two of its patterns ever match
characters at the start of the same text. -/
theorem table_unordered {table : List (Symbol × String)} (perm : table.Perm definitions) :
    ∃ lexer, Lexer.ofDefinitions table = .ok lexer ∧
      (∀ text, lexer.definitions.Pairwise fun d d' =>
        ∀ n n', d.Takes text n → ¬ d'.Takes text n') ∧
      ∀ policy source,
        ({ lexer with policy := policy } : Lexer).tokens source = shared.lexer.tokens source := by
  obtain ⟨lexer, made, perm⟩ := Lexer.ofDefinitions_perm perm ofDefinitions_definitions
  refine ⟨lexer, made, fun text => ?_, fun policy source => ?_⟩
  · have distinct : (scanner.definitions.map TokenDefinition.name).Nodup := by decide
    have distinct := perm.nodup_iff.mpr (List.Nodup.of_map _ distinct)
    refine List.Pairwise.imp_of_mem (fun mem mem' different n n' takes takes' => ?_) distinct
    exact different ((unambiguous text).perm perm _ mem _ mem' n n' takes.1 takes'.1 takes.2
      takes'.2)
  · rw [lexer_eq_scanner shared_new]
    exact Lexer.tokensFrom_congr fun text => (unambiguous text).select_eq perm

theorem table_unordered_reversed :
    definitions.reverse.Perm definitions ∧
      ∃ lexer, Lexer.ofDefinitions definitions.reverse = .ok lexer ∧
        (lexer.definitions.Pairwise fun d d' =>
          ∀ n n', d.Takes "1.5 nor".toList n → ¬ d'.Takes "1.5 nor".toList n') ∧
        ({ lexer with policy := .shortest } : Lexer).tokens "1.5 nor" =
          shared.lexer.tokens "1.5 nor" := by
  obtain ⟨lexer, made, disjoint, same⟩ := table_unordered (List.reverse_perm definitions)
  exact ⟨List.reverse_perm definitions, lexer, made, disjoint _, same .shortest "1.5 nor"⟩

end Formula

end ShiftFirst
