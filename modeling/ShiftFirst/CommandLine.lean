import ShiftFirst.Formula.Basic

namespace ShiftFirst.CommandLine

/-- What the arguments ask for: formulas to evaluate, or else the lines of the standard input. -/
structure Options where
  formulas : List String := []
  traceGrammar : Bool := false
  traceParse : Bool := false
  /-- The first invalid formula ends the run. -/
  strict : Bool := false
  deriving DecidableEq, Repr

inductive Request where
  | evaluate (options : Options)
  | version
  | help
  deriving DecidableEq, Repr

/-- A switch that the arguments may have once. -/
inductive Switch where
  | traceGrammar
  | traceParse
  | strict
  | version
  | help
  deriving DecidableEq, Repr

def Switch.ofLong? : String → Option Switch
  | "--trace-grammar" => some traceGrammar
  | "--trace-parse" => some traceParse
  | "--strict" => some strict
  | "--version" => some version
  | "--help" => some help
  | _ => none

def Switch.ofShort? : Char → Option Switch
  | 's' => some strict
  | 'V' => some version
  | 'h' => some help
  | _ => none

/-- Why arguments cannot be followed. -/
inductive UsageError where
  | unknown (argument : String)
  | twice (argument : String)
  deriving DecidableEq, Repr

def UsageError.message : UsageError → String
  | unknown argument => "unexpected argument " ++ Text.quoted argument
  | twice argument => "argument " ++ Text.quoted argument ++ " is used twice"

/-- The switches that an argument stands for, with gaps where there is no such switch; none at all
if it is a formula. A single hyphen is one. -/
def switches (argument : String) : List (Option Switch) :=
  match argument.toList with
  | '-' :: '-' :: _ => [Switch.ofLong? argument]
  | '-' :: c :: letters => (c :: letters).map Switch.ofShort?
  | _ => []

/-- Follows the switches of an argument up to the first one that asks for no evaluation. -/
def follow (argument : String) (options : Options) :
    List (Option Switch) → Except UsageError (Request ⊕ Options)
  | [] => .ok (.inr options)
  | none :: _ => .error (.unknown argument)
  | some .version :: _ => .ok (.inl .version)
  | some .help :: _ => .ok (.inl .help)
  | some .traceGrammar :: rest =>
    if options.traceGrammar then .error (.twice argument)
    else follow argument { options with traceGrammar := true } rest
  | some .traceParse :: rest =>
    if options.traceParse then .error (.twice argument)
    else follow argument { options with traceParse := true } rest
  | some .strict :: rest =>
    if options.strict then .error (.twice argument)
    else follow argument { options with strict := true } rest

/-- Follows the arguments in order; behind two hyphens all are formulas. -/
def request (options : Options) : List String → Except UsageError Request
  | [] => .ok (.evaluate options)
  | argument :: rest =>
    if argument = "--" then
      .ok (.evaluate { options with formulas := options.formulas ++ rest })
    else if switches argument = [] then
      request { options with formulas := options.formulas ++ [argument] } rest
    else do
      match ← follow argument options (switches argument) with
      | .inl request => return request
      | .inr options => request options rest

/-- The lines of a text in bytes. A line ends at a line feed, or at a carriage return with a line
feed behind it, and the last line may lack its end. -/
def lines : List UInt8 → List (List UInt8)
  | [] => []
  | b :: rest =>
    if b = 10 then [] :: lines rest
    else if b = 13 ∧ rest.head? = some 10 then lines rest
    else
      match lines rest with
      | [] => [[b]]
      | line :: later => (b :: line) :: later

/-- The text of a line, unless its bytes are no text. -/
def decode (line : List UInt8) : Option String := String.fromUTF8? ⟨line.toArray⟩

/-- What a run leaves: its exit code and what it has printed. -/
structure Result where
  code : Nat := 0
  output : String := ""
  errors : String := ""
  deriving DecidableEq, Repr

/-- The results of two runs, one after the other; a run that fails is the last one. -/
def Result.andThen (a : Result) (b : Unit → Result) : Result :=
  if a.code = 0 then
    let b := b ()
    ⟨b.code, a.output ++ b.output, a.errors ++ b.errors⟩
  else a

/-- Each text on a line of its own. -/
def printed (texts : List String) : String := String.join (texts.map (· ++ "\n"))

/-- A text whose further lines stand behind a margin. -/
def withMargin (margin text : String) : String :=
  String.ofList (text.toList.flatMap fun c => if c = '\n' then '\n' :: margin.toList else [c])

/-- The report of an error with its causes, which are numbered if there are several. -/
def report (context : String) (causes : List String) : String :=
  let lines :=
    match causes with
    | [cause] => ["    " ++ withMargin "    " cause]
    | _ => causes.zipIdx.map fun (cause, n) =>
      s!"    {n}: " ++ withMargin "       " cause
  printed (["Error: " ++ context, "", "Caused by:"] ++ lines)

/-- The messages of an error and of the error behind it. -/
def causes (e : FormulaError) : List String := e.message :: e.cause?.toList

/-- Evaluates one text. -/
def evaluate (f : Formula) (strict : Bool) (source : String) : Result :=
  if strict then
    if Formula.isBlank source then {}
    else
      let evaluated := f.eval .off source
      let heard := printed (evaluated.heard.map (·.2))
      match evaluated.answer with
      | .ok value => { output := printed [value.display], errors := heard }
      | .error e =>
        { code := 1
          errors := heard ++ report ("invalid formula " ++ Text.quoted source) (causes e) }
  else
    let cell := f.cell .off source
    let output :=
      match cell.answer with
      | .empty => ""
      | .value value => printed [value.display]
      | .invalid display message => printed [display ++ "\t# " ++ message]
    { output := output, errors := printed (cell.heard.map (·.2)) }

/-- Evaluates a line of the standard input, which may be no text. -/
def evaluateLine (f : Formula) (strict : Bool) (line : List UInt8) : Result :=
  match decode line with
  | some source => evaluate f strict source
  | none =>
    { code := 1
      errors := report "can't read standard input" ["stream did not contain valid UTF-8"] }

/-- The results of runs, one after the other. -/
def inOrder {α : Type} (run : α → Result) : List α → Result
  | [] => {}
  | a :: rest => (run a).andThen fun _ => inOrder run rest

/-- Evaluates the formulas of the arguments, or else the lines of the standard input. -/
def evaluateAll (options : Options) (input : List UInt8) : Result :=
  let trace : Registry Nat :=
    ({} : Registry Nat).subscribeAll (if options.traceGrammar then [(.grammar, 0)] else [])
  let built := Formula.new { trace := trace }
  let heard : Result := { errors := printed (built.heard.map (·.2)) }
  heard.andThen fun _ =>
    match built.answer with
    | .error e => { code := 1, errors := report "can't build formula grammar" (causes e) }
    | .ok f =>
      let f := if options.traceParse then (f.observe .parse 1).2 else f
      if options.formulas = [] then inOrder (evaluateLine f options.strict) (lines input)
      else inOrder (evaluate f options.strict) options.formulas

def versionText : String := "cellgram-calc 0.1.0\n"

def helpText : String := printed [
  "Spreadsheet formula evaluator built on cellgram",
  "",
  "Usage: cellgram-calc [OPTIONS] [FORMULAS]...",
  "",
  "Arguments:",
  "  [FORMULAS]...  Formulas to evaluate; reads standard input when none are given",
  "",
  "Options:",
  "      --trace-grammar  Print automaton construction to stderr",
  "      --trace-parse    Print the shift/reduce trace of every formula to stderr",
  "  -s, --strict         Exit with an error on the first invalid formula",
  "  -h, --help           Print help",
  "  -V, --version        Print version"]

/-- Whether the arguments ask for the standard input. -/
def readsInput (arguments : List String) : Bool :=
  match request {} arguments with
  | .ok (.evaluate options) => options.formulas = []
  | _ => false

/-- The whole run of the command. -/
def run (arguments : List String) (input : List UInt8) : Result :=
  match request {} arguments with
  | .error e => { code := 2, errors := "error: " ++ e.message ++ "\n" }
  | .ok .version => { output := versionText }
  | .ok .help => { output := helpText }
  | .ok (.evaluate options) => evaluateAll options input

end ShiftFirst.CommandLine
