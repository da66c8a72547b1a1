import Mathlib.Logic.Relation
import ShiftFirst.Parser.Run

namespace ShiftFirst

variable {ε V : Type} [OfToken V]

def Config.initial (budget : Nat) (stream : List (Except ε Token)) : Config ε V :=
  ⟨[], none, false, stream, budget, {}, [.event .begun]⟩

namespace Parser

variable {p : Parser V} {skip : List Symbol} {c c' c'' : Config ε V} {ending ending' : Ending ε V}

/-- A run gets from one configuration to another. -/
def Reaches (p : Parser V) (skip : List Symbol) : Config ε V → Config ε V → Prop :=
  Relation.ReflTransGen fun c c' => p.step skip c = .inr c'

def Ends (p : Parser V) (skip : List Symbol) (c : Config ε V) (ending : Ending ε V) : Prop :=
  ∃ last, p.Reaches skip c last ∧ p.step skip last = .inl ending

theorem Reaches.trans (h : p.Reaches skip c c') (h' : p.Reaches skip c' c'') :
    p.Reaches skip c c'' :=
  Relation.ReflTransGen.trans h h'

theorem Reaches.ends (h : p.Reaches skip c c') (h' : p.Ends skip c' ending) :
    p.Ends skip c ending := by
  obtain ⟨last, hr, hs⟩ := h'
  exact ⟨last, h.trans hr, hs⟩

theorem ends_of_step (h : p.step skip c = .inl ending) : p.Ends skip c ending := ⟨c, .refl, h⟩

theorem reaches_of_step (h : p.step skip c = .inr c') : p.Reaches skip c c' := .single h

theorem Ends.unique (h : p.Ends skip c ending) (h' : p.Ends skip c ending') :
    ending = ending' := by
  obtain ⟨last, hr, hs⟩ := h
  -- The two runs go through the same configurations, as a step has one result.
  induction hr using Relation.ReflTransGen.head_induction_on with
  | refl =>
    obtain ⟨last', hr', hs'⟩ := h'
    cases hr'.cases_head with
    | inl he =>
      rw [← he, hs] at hs'
      exact Sum.inl.inj hs'
    | inr hn =>
      obtain ⟨next, hn, _⟩ := hn
      rw [hs] at hn
      cases hn
  | head hstep _ ih =>
    obtain ⟨last', hr', hs'⟩ := h'
    cases hr'.cases_head with
    | inl he =>
      rw [← he, hstep] at hs'
      cases hs'
    | inr hn =>
      obtain ⟨next, hn, hr⟩ := hn
      rw [hstep] at hn
      cases hn
      exact ih ⟨last', hr, hs'⟩

theorem ends_of_advance {n : Nat} (h : p.advance skip n c = .inl ending) :
    p.Ends skip c ending := by
  induction n generalizing c with
  | zero => simp [advance] at h
  | succ n ih =>
    unfold advance at h
    split at h
    next hs =>
      cases h
      exact ends_of_step hs
    next hs => exact (reaches_of_step hs).ends (ih h)

/-- Every run ends, and its journal is then put in order. -/
theorem run_ends (p : Parser V) (skip : List Symbol) (budget : Nat)
    (stream : List (Except ε Token)) :
    ∃ ending, p.Ends skip (.initial budget stream) ending ∧
      p.run skip budget stream = ⟨ending.outcome, ending.journal.reverse⟩ :=
  ⟨_, ends_of_advance (Sum.inl_getLeft _ _).symm, rfl⟩

theorem run_eq {budget : Nat} {stream : List (Except ε Token)}
    (h : p.Ends skip (.initial budget stream) ending) :
    p.run skip budget stream = ⟨ending.outcome, ending.journal.reverse⟩ := by
  obtain ⟨ending', h', he⟩ := p.run_ends skip budget stream
  rw [he, h.unique h']

/-- The run over tokens none of which is passed over, and none of which fails. -/
def parse (p : Parser V) (budget : Nat) (tokens : List Token) : Ending Empty V :=
  p.run [] budget (tokens.map .ok)

/-- What holds at the beginning of a run and is kept by its steps holds until its end. -/
theorem Reaches.keeps {P : Config ε V → Prop}
    (hstep : ∀ {c c'}, P c → p.step skip c = .inr c' → P c') (h : p.Reaches skip c c')
    (hc : P c) : P c' := by
  induction h with
  | refl => exact hc
  | tail _ hs ih => exact hstep ih hs

omit [OfToken V] in
/-- Where the steps of two parsers lead from related configurations to related ones or to related
endings, a run of the one that ends has a run of the other beside it. -/
theorem Ends.simulated {ε' V' : Type} {read : OfToken V} {read' : OfToken V'} {p' : Parser V'}
    {skip' : List Symbol} {R : Config ε V → Config ε' V' → Prop}
    {E : Ending ε V → Ending ε' V' → Prop} {c' : Config ε' V'}
    (step : ∀ {c c'}, R c c' → Sum.LiftRel E R (p.step skip c) (p'.step skip' c'))
    (ends : p.Ends skip c ending) (related : R c c') :
    ∃ ending', p'.Ends skip' c' ending' ∧ E ending ending' := by
  obtain ⟨last, reaches, stops⟩ := ends
  induction reaches using Relation.ReflTransGen.head_induction_on generalizing c' with
  | refl =>
    have result := step related
    rw [stops] at result
    cases hs' : p'.step skip' c' with
    | inl ending' =>
      rw [hs'] at result
      exact ⟨ending', ends_of_step hs', Sum.liftRel_inl_inl.mp result⟩
    | inr next' =>
      rw [hs'] at result
      cases result
  | head hs _ ih =>
    have result := step related
    rw [hs] at result
    cases hs' : p'.step skip' c' with
    | inl ending' =>
      rw [hs'] at result
      cases result
    | inr next' =>
      rw [hs'] at result
      obtain ⟨ending', ends', agree⟩ := ih (Sum.liftRel_inr_inr.mp result)
      exact ⟨ending', (reaches_of_step hs').ends ends', agree⟩

end Parser

end ShiftFirst
