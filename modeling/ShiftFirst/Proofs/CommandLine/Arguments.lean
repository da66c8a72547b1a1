import ShiftFirst.CommandLine

namespace ShiftFirst.CommandLine

def Options.has (options : Options) : Switch → Bool
  | .traceGrammar => options.traceGrammar
  | .traceParse => options.traceParse
  | .strict => options.strict
  | .version | .help => false

def Options.give (options : Options) : Switch → Options
  | .traceGrammar => { options with traceGrammar := true }
  | .traceParse => { options with traceParse := true }
  | .strict => { options with strict := true }
  | .version | .help => options

def Request.give (request : Request) (s : Switch) : Request :=
  match request with
  | .evaluate options => .evaluate (options.give s)
  | .version => .version
  | .help => .help

variable {s s' : Switch} {argument : String} {options options' : Options}
  {list : List (Option Switch)}

theorem Options.has_give (other : s ≠ s') : (options.give s).has s' = options.has s' := by
  cases s <;> cases s' <;> first | rfl | exact absurd rfl other

theorem Options.give_comm : (options.give s).give s' = (options.give s').give s := by
  cases s <;> cases s' <;> rfl

theorem follow_some (evaluates : s ≠ .version ∧ s ≠ .help) :
    follow argument options (some s :: list) =
      if options.has s then .error (.twice argument)
      else follow argument (options.give s) list := by
  cases s
  case version => exact absurd rfl evaluates.1
  case help => exact absurd rfl evaluates.2
  all_goals rfl

/-- A switch that is not among those followed is one more that has been given, or not. -/
theorem follow_give (other : some s ∉ list) :
    follow argument (options.give s) list =
      (follow argument options list).map (Sum.map (·.give s) (·.give s)) := by
  induction list generalizing options with
  | nil => rfl
  | cons first rest ih =>
    obtain ⟨here, there⟩ := not_or.mp (mt List.mem_cons.mpr other)
    rcases first with _ | first
    next => rfl
    by_cases evaluates : first ≠ .version ∧ first ≠ .help
    · have ne : s ≠ first := fun same => here (congrArg some same)
      rw [follow_some evaluates, follow_some evaluates, Options.has_give ne, Options.give_comm]
      split
      next => rfl
      next => exact ih there
    · rcases Decidable.or_iff_not_not_and_not.mpr evaluates with rfl | rfl <;> rfl

/-- What no switch among those followed changes is as before. -/
theorem kept_of_follow {β : Type} (view : Options → β)
    (keeps : ∀ s, some s ∈ list → ∀ options : Options, view (options.give s) = view options)
    (done : follow argument options list = .ok (.inr options')) : view options' = view options := by
  induction list generalizing options with
  | nil => cases done; rfl
  | cons first rest ih =>
    rcases first with _ | first
    next => cases done
    by_cases evaluates : first ≠ .version ∧ first ≠ .help
    · rw [follow_some evaluates] at done
      split at done
      next => cases done
      next =>
        have later := ih (fun s mem => keeps s (List.mem_cons_of_mem _ mem)) done
        exact later.trans (keeps first List.mem_cons_self options)
    · rcases Decidable.or_iff_not_not_and_not.mpr evaluates with rfl | rfl <;> cases done

theorem has_of_follow (other : some s ∉ list)
    (done : follow argument options list = .ok (.inr options')) :
    options'.has s = options.has s := by
  refine kept_of_follow (·.has s) (fun s' mem options => Options.has_give ?_) done
  rintro rfl
  exact other mem

theorem formulas_of_follow (done : follow argument options list = .ok (.inr options')) :
    options'.formulas = options.formulas := by
  refine kept_of_follow Options.formulas (fun s' _ options => ?_) done
  cases s' <;> rfl

/-- Following ends early for the version or the help alone. -/
theorem request_of_follow {request : Request}
    (done : follow argument options list = .ok (.inl request)) :
    request = .version ∨ request = .help := by
  induction list generalizing options with
  | nil => cases done
  | cons first rest ih =>
    rcases first with _ | first
    next => cases done
    by_cases evaluates : first ≠ .version ∧ first ≠ .help
    · rw [follow_some evaluates] at done
      split at done
      next => cases done
      next => exact ih done
    · rcases Decidable.or_iff_not_not_and_not.mpr evaluates with rfl | rfl
      · cases done
        exact Or.inl rfl
      · cases done
        exact Or.inr rfl

theorem give_of_follow {request : Request}
    (done : follow argument options list = .ok (.inl request)) (s : Switch) :
    request.give s = request := by
  rcases request_of_follow done with rfl | rfl <;> rfl

theorem request_give {arguments : List String}
    (other : ∀ argument ∈ arguments.takeWhile (· ≠ "--"), some s ∉ switches argument) :
    request (options.give s) arguments = (request options arguments).map (·.give s) := by
  induction arguments generalizing options with
  | nil => rfl
  | cons argument rest ih =>
    by_cases last : argument = "--"
    · rw [request, request, if_pos last, if_pos last]
      cases s <;> rfl
    rw [List.takeWhile_cons_of_pos (by simpa using last), List.forall_mem_cons] at other
    obtain ⟨here, there⟩ := other
    rw [request, request, if_neg last, if_neg last]
    split
    next =>
      rw [← ih there]
      cases s <;> rfl
    next =>
      rw [follow_give here]
      match done : follow argument options (switches argument) with
      | .error e => rfl
      | .ok (.inl request) => rfl
      | .ok (.inr options') => exact ih there

/-- An argument for a switch that no other argument stands for gives just this switch. -/
theorem request_insert {flag : String} (stands : switches flag = [some s])
    (evaluates : s ≠ .version ∧ s ≠ .help) {before after : List String} (read : "--" ∉ before)
    (other : ∀ argument ∈ (before ++ after).takeWhile (· ≠ "--"), some s ∉ switches argument)
    (lacks : options.has s = false) :
    request options (before ++ flag :: after) =
      (request options (before ++ after)).map (·.give s) := by
  induction before generalizing options with
  | nil =>
    have proper : flag ≠ "--" := by
      rintro rfl
      cases s <;> cases stands
    rw [List.nil_append, request, if_neg proper, stands, if_neg (List.cons_ne_nil _ _),
      follow_some evaluates, lacks]
    exact request_give other
  | cons argument before ih =>
    obtain ⟨ne, later⟩ := not_or.mp (mt List.mem_cons.mpr read)
    rw [List.cons_append, List.takeWhile_cons_of_pos (by simpa using Ne.symm ne),
      List.forall_mem_cons] at other
    obtain ⟨here, there⟩ := other
    rw [List.cons_append, List.cons_append, request, request, if_neg (Ne.symm ne),
      if_neg (Ne.symm ne)]
    split
    next => exact ih later there (by cases s <;> exact lacks)
    next =>
      match done : follow argument options (switches argument) with
      | .error e => rfl
      | .ok (.inl request) => exact congrArg Except.ok (give_of_follow done s).symm
      | .ok (.inr options') => exact ih later there ((has_of_follow here done).trans lacks)

/-- A switch that no argument stands for has not been given. -/
theorem has_of_request {arguments : List String}
    (other : ∀ argument ∈ arguments.takeWhile (· ≠ "--"), some s ∉ switches argument)
    (asked : request options arguments = .ok (.evaluate options')) :
    options'.has s = options.has s := by
  induction arguments generalizing options with
  | nil =>
    cases asked
    rfl
  | cons argument rest ih =>
    by_cases last : argument = "--"
    · rw [request, if_pos last] at asked
      cases asked
      cases s <;> rfl
    rw [List.takeWhile_cons_of_pos (by simpa using last), List.forall_mem_cons] at other
    obtain ⟨here, there⟩ := other
    rw [request, if_neg last] at asked
    split at asked
    next =>
      rw [ih there asked]
      cases s <;> rfl
    next =>
      match done : follow argument options (switches argument) with
      | .error e =>
        rw [done] at asked
        cases asked
      | .ok (.inl early) =>
        rw [done] at asked
        cases asked
        rcases request_of_follow done with same | same <;> cases same
      | .ok (.inr options'') =>
        rw [done] at asked
        exact (ih there asked).trans (has_of_follow here done)

/-- Formulas behind those that there are. -/
def Request.add (texts : List String) : Request → Request
  | .evaluate options => .evaluate { options with formulas := options.formulas ++ texts }
  | .version => .version
  | .help => .help

/-- Behind switches and two hyphens all arguments are formulas, the only ones. -/
theorem request_dashes {flags : List String}
    (only : ∀ flag ∈ flags, flag ≠ "--" ∧ switches flag ≠ []) (texts : List String) :
    request options (flags ++ "--" :: texts) = (request options flags).map (Request.add texts) ∧
      ∀ options', request options flags = .ok (.evaluate options') →
        options'.formulas = options.formulas := by
  induction flags generalizing options with
  | nil =>
    refine ⟨?_, fun options' asked => ?_⟩
    · have dashes : request options ("--" :: texts) =
          .ok (.evaluate { options with formulas := options.formulas ++ texts }) := by
        rw [request, if_pos rfl]
      exact dashes
    · cases asked
      rfl
  | cons flag flags ih =>
    obtain ⟨⟨proper, stands⟩, others⟩ := List.forall_mem_cons.mp only
    rw [List.cons_append, request, request, if_neg proper, if_neg stands, if_neg proper,
      if_neg stands]
    match done : follow flag options (switches flag) with
    | .error e => exact ⟨rfl, fun _ asked => by cases asked⟩
    | .ok (.inl early) =>
      rcases request_of_follow done with rfl | rfl <;> exact ⟨rfl, fun _ asked => by cases asked⟩
    | .ok (.inr options'') =>
      obtain ⟨added, kept⟩ := @ih options'' others
      exact ⟨added, fun options' asked => (kept options' asked).trans (formulas_of_follow done)⟩

end ShiftFirst.CommandLine
