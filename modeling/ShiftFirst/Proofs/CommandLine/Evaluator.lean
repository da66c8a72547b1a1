import ShiftFirst.Proofs.CommandLine.Lines
import ShiftFirst.Proofs.Formula.Safety

namespace ShiftFirst

namespace Formula

theorem session_new (audience : Audience) :
    (Session.new rules audience).answer = .ok ⟨shared.session.parser, audience.trace⟩ := by
  rw [Session.answer_new, (new_answer {} shared_new).2]
  rfl

/-- Whom an evaluator has for an audience does not show in what it evaluates with. -/
theorem answer_new (audience : Audience) :
    (new audience).answer = .ok ⟨shared.lexer, ⟨shared.session.parser, audience.trace⟩⟩ := by
  unfold new
  rw [(new_answer {} shared_new).1]
  exact Observed.answer_map (session_new audience) _

theorem heard_cell (f : Formula) (log : Log.Filter) (source : String) :
    (f.cell log source).heard = if isBlank source then [] else (f.eval log source).heard := by
  unfold cell
  split
  next => rfl
  next =>
    dsimp only
    cases (f.eval log source).answer <;> rfl

/-- Two evaluators differ in those who listen to them alone. -/
structure Same (f f' : Formula) : Prop where
  lexer : f.lexer = f'.lexer
  parser : f.session.parser = f'.session.parser

namespace Same

variable {f f' f'' : Formula}

theorem observe (f : Formula) (channel : Channel) (listener : Nat) :
    (f.observe channel listener).2.Same f := ⟨rfl, rfl⟩

theorem heard (f : Formula) (trace : Registry Nat) :
    Same ⟨f.lexer, ⟨f.session.parser, trace⟩⟩ f := ⟨rfl, rfl⟩

theorem symm (h : f.Same f') : f'.Same f := ⟨h.lexer.symm, h.parser.symm⟩

theorem trans (h : f.Same f') (h' : f'.Same f'') : f.Same f'' :=
  ⟨h.lexer.trans h'.lexer, h.parser.trans h'.parser⟩

theorem eval (h : f.Same f') (log : Log.Filter) (source : String) :
    (f.eval log source).answer = (f'.eval log source).answer := by
  rw [answer_eval, answer_eval, budget, budget, h.lexer, h.parser]

theorem cell (h : f.Same f') (log : Log.Filter) (source : String) :
    (f.cell log source).answer = (f'.cell log source).answer := by
  rw [answer_cell, answer_cell, h.eval]

end Same

end Formula

namespace CommandLine

namespace Options

/-- Who listens while the evaluator of a run is made. -/
def registry (options : Options) : Registry Nat :=
  ({} : Registry Nat).subscribeAll (if options.traceGrammar then [(.grammar, 0)] else [])

/-- What a run prints about the making of its evaluator. -/
def preamble (options : Options) : String :=
  printed ((Formula.new { trace := options.registry }).heard.map (·.2))

/-- The evaluator of a run. -/
def evaluator (options : Options) : Formula :=
  let f : Formula := ⟨Formula.shared.lexer, ⟨Formula.shared.session.parser, options.registry⟩⟩
  if options.traceParse then (f.observe .parse 1).2 else f

theorem same_evaluator (options : Options) : options.evaluator.Same Formula.shared := by
  have silent := Formula.Same.heard Formula.shared options.registry
  unfold evaluator
  dsimp only
  split
  next => exact (Formula.Same.observe _ _ _).trans silent
  next => exact silent

end Options

theorem evaluateAll_eq (options : Options) (input : List UInt8) :
    evaluateAll options input =
      Result.andThen { errors := options.preamble } fun _ =>
        if options.formulas = [] then
          inOrder (evaluateLine options.evaluator options.strict) (lines input)
        else inOrder (evaluate options.evaluator options.strict) options.formulas := by
  unfold evaluateAll
  simp only [Formula.answer_new]
  rfl

theorem inOrder_map {α β : Type} (run : β → Result) (g : α → β) (list : List α) :
    inOrder run (list.map g) = inOrder (fun a => run (g a)) list := by
  induction list with
  | nil => rfl
  | cons a list ih => rw [List.map_cons, inOrder, inOrder, ih]

theorem evaluateLine_encode (f : Formula) (strict : Bool) (text : String) :
    evaluateLine f strict (encode text) = evaluate f strict text := by
  rw [evaluateLine, decode_eq_some_iff.mpr rfl]

/-- The texts that a run evaluates: the formulas among its arguments, or else the lines of a
standard input that is a text. -/
inductive Gives (options : Options) : List UInt8 → List String → Prop
  | arguments (given : options.formulas ≠ []) (input : List UInt8) :
      Gives options input options.formulas
  | lines (none : options.formulas = []) {input : List UInt8} {text : String}
      (valid : decode input = some text) : Gives options input (textLines text)

theorem Gives.evaluateAll {options : Options} {input : List UInt8} {texts : List String}
    (given : Gives options input texts) :
    evaluateAll options input =
      Result.andThen { errors := options.preamble } fun _ =>
        inOrder (evaluate options.evaluator options.strict) texts := by
  rw [evaluateAll_eq]
  cases given with
  | arguments given => rw [if_neg given]
  | lines none valid =>
    rw [if_pos none, decode_eq_some_iff.mp valid, lines_encode, inOrder_map]
    simp only [evaluateLine_encode]

end CommandLine

end ShiftFirst
