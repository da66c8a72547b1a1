import ShiftFirst.Proofs.CommandLine.Arguments
import ShiftFirst.Proofs.CommandLine.Evaluator
import ShiftFirst.Proofs.Parser.Soundness
import ShiftFirst.Proofs.Trace.World

namespace ShiftFirst

namespace CommandLine

/-- Two results have the same exit code, and have printed the same on the standard output. -/
structure Result.Alike (a b : Result) : Prop where
  code : a.code = b.code
  output : a.output = b.output

theorem Result.Alike.refl (a : Result) : a.Alike a := ⟨rfl, rfl⟩

theorem Result.Alike.andThen {a a' : Result} {b b' : Unit → Result} (first : a.Alike a')
    (second : (b ()).Alike (b' ())) : (a.andThen b).Alike (a'.andThen b') := by
  unfold Result.andThen
  rw [first.code]
  split
  next =>
    refine ⟨second.code, ?_⟩
    dsimp only
    rw [first.output, second.output]
  next => exact first

theorem alike_inOrder {α : Type} {run run' : α → Result} (each : ∀ a, (run a).Alike (run' a))
    (inputs : List α) : (inOrder run inputs).Alike (inOrder run' inputs) := by
  induction inputs with
  | nil => exact .refl _
  | cons a rest ih => exact .andThen (each a) ih

theorem alike_evaluate {f f' : Formula} (h : f.Same f') (strict : Bool) (source : String) :
    (evaluate f strict source).Alike (evaluate f' strict source) := by
  unfold evaluate
  split
  next =>
    split
    next => exact .refl _
    next =>
      dsimp only
      rw [h.eval]
      cases (f'.eval .off source).answer <;> exact ⟨rfl, rfl⟩
  next =>
    refine ⟨rfl, ?_⟩
    dsimp only
    rw [Formula.answer_cell, Formula.answer_cell, h.eval]

theorem alike_evaluateLine {f f' : Formula} (h : f.Same f') (strict : Bool) (line : List UInt8) :
    (evaluateLine f strict line).Alike (evaluateLine f' strict line) := by
  unfold evaluateLine
  cases decode line with
  | none => exact .refl _
  | some source => exact alike_evaluate h strict source

theorem alike_answers {f f' : Formula} (h : f.Same f') (formulas : List String) (strict : Bool)
    (input : List UInt8) :
    (if formulas = [] then inOrder (evaluateLine f strict) (lines input)
      else inOrder (evaluate f strict) formulas).Alike
    (if formulas = [] then inOrder (evaluateLine f' strict) (lines input)
      else inOrder (evaluate f' strict) formulas) := by
  split
  next => exact alike_inOrder (alike_evaluateLine h strict) _
  next => exact alike_inOrder (alike_evaluate h strict) _

/-- Traces are printed as errors alone. -/
theorem alike_evaluateAll {options options' : Options}
    (formulas : options.formulas = options'.formulas) (strict : options.strict = options'.strict)
    (input : List UInt8) :
    (evaluateAll options input).Alike (evaluateAll options' input) := by
  have same : options.evaluator.Same options'.evaluator :=
    options.same_evaluator.trans options'.same_evaluator.symm
  rw [evaluateAll_eq, evaluateAll_eq, formulas, strict]
  exact .andThen ⟨rfl, rfl⟩ (alike_answers same _ _ input)

variable {s : Switch} {argument : String}

/-- The arguments that ask for a trace, with their switches. -/
def Switch.Traces (s : Switch) (flag : String) : Prop :=
  s = .traceGrammar ∧ flag = "--trace-grammar" ∨ s = .traceParse ∧ flag = "--trace-parse"

namespace Switch.Traces

variable {flag : String}

theorem switches (h : s.Traces flag) : switches flag = [some s] := by
  rcases h with ⟨rfl, rfl⟩ | ⟨rfl, rfl⟩ <;> decide

theorem evaluates (h : s.Traces flag) : s ≠ .version ∧ s ≠ .help := by
  rcases h with ⟨rfl, _⟩ | ⟨rfl, _⟩ <;> decide

theorem formulas (h : s.Traces flag) (options : Options) :
    (options.give s).formulas = options.formulas := by
  rcases h with ⟨rfl, _⟩ | ⟨rfl, _⟩ <;> rfl

theorem strict (h : s.Traces flag) (options : Options) :
    (options.give s).strict = options.strict := by
  rcases h with ⟨rfl, _⟩ | ⟨rfl, _⟩ <;> rfl

theorem eq_of_mem (h : s.Traces flag) (mem : some s ∈ CommandLine.switches argument) :
    argument = flag := by
  unfold CommandLine.switches at mem
  split at mem
  next =>
    have long : some s = ofLong? argument := List.mem_singleton.mp mem
    rcases h with ⟨rfl, rfl⟩ | ⟨rfl, rfl⟩ <;> unfold ofLong? at long <;> split at long <;>
      first | rfl | cases long
  next =>
    obtain ⟨c, _, short⟩ := List.mem_map.mp mem
    rcases h with ⟨rfl, rfl⟩ | ⟨rfl, rfl⟩ <;> unfold ofShort? at short <;> split at short <;>
      cases short
  next => exact absurd mem List.not_mem_nil

/-- Where an argument that asks for a trace is added, errors alone may be printed otherwise. -/
theorem alike_run (h : s.Traces flag) {before after : List String} (read : "--" ∉ before)
    (once : flag ∉ (before ++ after).takeWhile (· ≠ "--")) (input : List UInt8) :
    (run (before ++ flag :: after) input).Alike (run (before ++ after) input) := by
  have inserted : request {} (before ++ flag :: after) =
      (request {} (before ++ after)).map (·.give s) :=
    request_insert h.switches h.evaluates read
      (fun argument given mem => once (h.eq_of_mem mem ▸ given)) (by cases s <;> rfl)
  unfold run
  rw [inserted]
  match request {} (before ++ after) with
  | .error e => exact .refl _
  | .ok .version => exact .refl _
  | .ok .help => exact .refl _
  | .ok (.evaluate options) =>
    exact alike_evaluateAll (h.formulas options) (h.strict options) input

end Switch.Traces

end CommandLine

/-- Whoever listens, and whatever the listeners do when they hear, and whatever is logged: rules
make the same parser or error, runs come to the same end over the same items, and formulas have the
same value. Listeners that do nothing but hear are told what a session reports of the same work.
The arguments that ask for a trace leave the exit code and the standard output as they are. -/
theorem unaffected_by_tracing {ε V : Type} [OfToken V] (w : World) (rules : List (Rule V))
    (p : Parser V) (skip : List Symbol) (budget : Nat)
    (pulled : Log.Filter → Except ε Token → List Log.Record) (stream : List (Except ε Token))
    (f : Formula) (source : String) :
    (Parser.newIn rules w).1 = (Parser.ofRules rules).2 ∧
    (p.setRulesIn rules w).1 =
      (match (Parser.ofRules rules).2 with
      | .error e => (.error e, p)
      | .ok p => (.ok (), p)) ∧
    (p.runIn skip budget pulled stream w).1 = some (p.run skip budget stream) ∧
    (f.evalIn source w).1 = some (f.eval? source) ∧
    (∀ a, w.Hosts a →
      World.Reports a w (Parser.ofRulesIn rules w).2 (Session.build rules a).heard
          (Session.build rules a).records ∧
        World.Reports a w (p.runIn skip budget pulled stream w).2
          (Session.run ⟨p, a.trace⟩ a.log ⟨skip, budget, pulled a.log⟩ stream).heard
          (Session.run ⟨p, a.trace⟩ a.log ⟨skip, budget, pulled a.log⟩ stream).records) ∧
    ∀ flag ∈ ["--trace-grammar", "--trace-parse"], ∀ before after : List String,
      "--" ∉ before → flag ∉ (before ++ after).takeWhile (· ≠ "--") → ∀ input : List UInt8,
      (CommandLine.run (before ++ flag :: after) input).code =
          (CommandLine.run (before ++ after) input).code ∧
        (CommandLine.run (before ++ flag :: after) input).output =
          (CommandLine.run (before ++ after) input).output := by
  refine ⟨Parser.newIn_eq rules w, p.setRulesIn_eq rules w,
    p.runIn_eq skip budget pulled stream w, f.evalIn_eq source w,
    fun a hosts => hosts.reports rules p skip budget pulled stream,
    fun flag asks before after read once input => ?_⟩
  have traces : ∃ s : CommandLine.Switch, s.Traces flag := by
    rcases List.mem_pair.mp asks with rfl | rfl
    next => exact ⟨.traceGrammar, .inl ⟨rfl, rfl⟩⟩
    next => exact ⟨.traceParse, .inr ⟨rfl, rfl⟩⟩
  obtain ⟨s, traces⟩ := traces
  obtain ⟨code, output⟩ := traces.alike_run read once input
  exact ⟨code, output⟩

/-- A listener of the runs answers what it hears with a message of its own, which it hears as well,
and then has its subscription cancelled. -/
def reentrant : World where
  exchange := (({} : Exchange).subscribe 0 .parse
    [[.emit .parse [] "again", .subscribe .grammar [], .cancel 0]]).2
  trace := 0
  log := ⟨some .trace, none⟩

/-- A listener of the runs that does nothing but hear. -/
def attentive : World where
  exchange := (({} : Exchange).subscribe 0 .parse []).2
  trace := 0
  log := ⟨some .trace, none⟩

/-- The listener of that world, with its log. -/
def soleListener : Audience := ⟨(({} : Registry Nat).subscribe .parse 0).2, ⟨some .trace, none⟩⟩

theorem hosts_attentive : attentive.Hosts soleListener where
  passive := List.forall_mem_singleton.mpr rfl
  trace := rfl
  log := rfl

theorem unaffected_by_tracing_reentrant :
    (Parser.sumsParser.runIn (ε := Nat) [] 2 (fun _ _ => []) [.ok ⟨"n", "1", 0⟩, .error 7]
        reentrant).1 =
      some (Parser.sumsParser.run [] 2 [.ok ⟨"n", "1", 0⟩, .error 7]) ∧
    (Formula.shared.evalIn "1 + 2" reentrant).1 = some (Formula.shared.eval? "1 + 2") ∧
    attentive.Hosts soleListener ∧
    (Parser.sumsParser.runIn (ε := Nat) [] 2 (fun _ _ => []) [.ok ⟨"n", "1", 0⟩] attentive).2.Hosts
      soleListener ∧
    "--" ∉ ["-s"] ∧
    "--trace-parse" ∉ (["-s"] ++ ["--", "--trace-parse"]).takeWhile (· ≠ "--") ∧
    (CommandLine.run ["-s", "--trace-parse", "--", "--trace-parse"] []).code =
      (CommandLine.run ["-s", "--", "--trace-parse"] []).code := by
  have read : "--" ∉ ["-s"] := by decide
  have once : "--trace-parse" ∉ (["-s"] ++ ["--", "--trace-parse"]).takeWhile (· ≠ "--") := by
    decide
  obtain ⟨_, _, run, value, _, arguments⟩ := unaffected_by_tracing reentrant Parser.sums.rules
    Parser.sumsParser [] 2 (fun _ _ => []) [.ok ⟨"n", "1", 0⟩, .error (7 : Nat)]
    Formula.shared "1 + 2"
  obtain ⟨_, _, _, _, told, _⟩ := unaffected_by_tracing attentive Parser.sums.rules
    Parser.sumsParser [] 2 (fun _ _ => []) [.ok (ε := Nat) ⟨"n", "1", 0⟩] Formula.shared ""
  exact ⟨run, value, hosts_attentive, (told _ hosts_attentive).2.hosts, read, once,
    (arguments _ (by simp) ["-s"] _ read once []).1⟩

end ShiftFirst
