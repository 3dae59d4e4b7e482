import UnitCheck.Command.Call
import UnitCheck.Command.Result
import UnitCheck.Json.Printer
import UnitCheck.Json.Reading
import UnitCheck.Log.Events
import UnitCheck.Project.Document
import UnitCheck.Run.Context
import UnitCheck.Settings
import UnitCheck.Units.Printer

/-! # Running a command

A command line is run in a world that has environment variables and files. It leaves a result behind
unless it breaks off: over a path that no file can have, over a document that cannot be read although
nothing is wrong with its form, or over a unit that nests too deep for the stack. -/

namespace UnitCheck.Command

/-- What is found under a path. -/
inductive Entry where
  | missing
  | directory
  | file (text : String)
deriving DecidableEq

/-- What a command is run in. Its stack has room for so many open parentheses in a unit. -/
structure World where
  environment : Environment
  entry : String → Entry
  freshRunId : String
  room : Nat

/-- The end of a command line that is no call. -/
def NoCall.result : NoCall → Result
  | nothing => ⟨2, [], (helpLines none).map .message⟩
  | help c => ⟨0, helpLines c, []⟩
  | fault c f => ⟨2, [], (f.lines c).map .message⟩

/-- The one argument of a command. -/
def single (c : Subcommand) : List String → Except UsageFault String
  | [] => .error (.missingArgument c.argument)
  | [word] => .ok word
  | _ :: more => .error (.extraArguments more)

/-- What reading a text says: the dimension, or the failure with its place in the text. -/
def readingResult (log : List ErrorLine) (shown : String) (fields : List (String × Json))
    (failure : Option Int) : Result :=
  let output := [(Json.object fields).pretty]
  match failure with
  | none => ⟨0, output, log⟩
  | some position => ⟨1, output, log ++ [.message (pointer shown (some position))]⟩

/-- Reads a unit expression. -/
def runUnits (room : Nat) (level : Log.Level) (text : String) : Except Breakdown Result :=
  let log := logLines level (Log.unitLines text)
  match Units.parseOn room text.toList with
  | .ok d =>
    let fields := Json.acceptance d ++ [("units", .string (String.ofList (Units.format d)))]
    .ok (readingResult log text fields none)
  | .error (.failure f) =>
    .ok (readingResult log (String.ofList (Units.normalize text.toList))
      (Json.refusal f.cause.code f.cause.message f.position) (some f.position))
  | .error .exhausted => .error .stackExhausted

/-- The declaration that a value of `--var` makes. -/
def variableOf (value : String) : Except UsageFault Declaration :=
  match splitAssignment value.toList with
  | (_, none) => .error (.variableWithoutUnit value)
  | (symbol, some unitText) =>
    match Declaration.of? (String.ofList (Text.trim symbol)) (String.ofList (Text.trim unitText)) with
    | some d => .ok d
    | none => .error (.variableWithoutSymbol value)

/-- Reads a markup expression with declarations whose analysis is given. -/
def readExpr (level : Log.Level) (limit : Markup.Limit) (declarations : List Declaration) (analysis : Analysis)
    (text : String) : Result :=
  let scope : Markup.Scope := ⟨analysis.declared, limit⟩
  let log := logLines level (declarations.flatMap Log.declarationLines) ++
    analysis.diagnostics.map (fun d => .message ("warning: " ++ d.symbol ++ ": " ++ d.message)) ++
    logLines level (Log.markupLines scope text.toList)
  match Markup.parse scope text.toList with
  | .ok d => readingResult log text (Json.acceptance d) none
  | .error f =>
    readingResult log text (Json.refusal f.cause.code f.cause.message f.position) (some f.position)

/-- Reads a markup expression. -/
def runExpr (room : Nat) (level : Log.Level) (limit : Markup.Limit) (declarations : List Declaration) (text : String) :
    Except Breakdown Result :=
  match Analysis.on? room declarations with
  | some analysis => .ok (readExpr level limit declarations analysis text)
  | none => .error .stackExhausted

/-- A text with every line ended by a line feed alone. -/
def unifyLineEnds : List Char → List Char
  | [] => []
  | '\r' :: '\n' :: rest => '\n' :: unifyLineEnds rest
  | c :: rest => (if c = '\r' then '\n' else c) :: unifyLineEnds rest

/-- How many issues a document has, in words. -/
def issueCount (n : Nat) : String :=
  toString n ++ (if n = 1 then " validation error" else " validation errors") ++ " for Project"

/-- Why there is no project in a text. -/
inductive LoadError where
  | invalid (why : String)
  | excess (e : Json.Excess)
deriving DecidableEq

/-- The project in a text. -/
def loadProject (text : String) : Except LoadError Project :=
  let text := unifyLineEnds text.toList
  match Json.parse text with
  | .error (.fault e) => .error (.invalid (e.message text))
  | .error (.excess e) => .error (.excess e)
  | .ok document => (Project.ofJson document).mapError fun issues => .invalid (issueCount issues.length)

/-- The line about the verdict on an equation. -/
def verdictLine (id : String) (v : Verdict) : String :=
  let status := v.status.name
  status ++ String.ofList (List.replicate (8 - status.length) ' ') ++ " " ++ id ++ ": " ++ v.message

/-- The line that sums up a report. -/
def tallyLine (r : Report) : String :=
  toString r.verdicts.size ++ " equation(s): " ++ toString r.tally.good ++ " good, " ++
    toString r.tally.bad ++ " bad, " ++ toString r.tally.unknown ++ " unknown"

/-- What a report says. -/
def reportResult (log : List ErrorLine) (strict : Bool) (r : Report) : Result :=
  ⟨if strict && !r.allGood then 1 else 0,
   (r.verdicts.entries.map fun (id, v) => verdictLine id v) ++ [tallyLine r],
   log ++ r.diagnostics.map fun d => .message ("warning: variable " ++ d.symbol ++ ": " ++ d.message)⟩

/-- Checks a project that was under a path. -/
def checkLoaded (level : Log.Level) (limit : Markup.Limit) (runId path : String) (strict : Bool) (p : Project) :
    Result :=
  let loaded := Log.debug ("Loaded project " ++ path ++ ": " ++ toString p.quantities.length ++
    " variables, " ++ toString p.equations.length ++ " equations")
  let outcome := Run.checkProject .initial runId limit p
  let log := logLines level (loaded :: Log.projectLines (p.scope limit) p ++ outcome.events)
  match outcome.result with
  | .ok r => reportResult log strict r
  | .error d => ⟨1, [], log ++ [.message ("Error: " ++ d.message)]⟩

/-- Checks the project in a text that was under a path. -/
def runCheck (room : Nat) (level : Log.Level) (limit : Markup.Limit) (runId path text : String) (strict : Bool) :
    Except Breakdown Result :=
  match loadProject text with
  | .error (.invalid why) => .ok ⟨1, [], [.message ("Error: invalid project " ++ path ++ ": " ++ why)]⟩
  | .error (.excess e) => .error (.document e)
  | .ok p =>
    if p.declarations.all (·.fits room) then .ok (checkLoaded level limit runId path strict p)
    else .error .stackExhausted

/-- The line about one of several unit expressions. -/
def dimsLine (room : Nat) (text : String) : Except Breakdown String :=
  match Units.parseOn room text.toList with
  | .ok d => .ok (text ++ ": " ++ d.canonical)
  | .error (.failure f) => .ok (text ++ ": error: " ++ f.cause.message)
  | .error .exhausted => .error .stackExhausted

/-- Reads several unit expressions. -/
def runDims (room : Nat) (level : Log.Level) (texts : List String) : Except Breakdown Result := do
  return ⟨0, ← texts.mapM (dimsLine room), logLines level (texts.flatMap Log.unitLines)⟩

/-- Why a call has no result. -/
inductive CallError where
  | usage (f : UsageFault)
  | breakdown (b : Breakdown)
deriving DecidableEq

/-- The path that the words of a command line begin with and the text of its file. -/
def fileText (w : World) : List String → Except CallError (String × String)
  | [] => .error (.usage (.missingArgument Subcommand.check.argument))
  | path :: more =>
    if path.toList.contains '\x00' then .error (.breakdown .nullInPath)
    else
      match w.entry path with
      | .missing => .error (.usage (.noFile path))
      | .directory => .error (.usage (.isDirectory path))
      | .file text =>
        if more.isEmpty then .ok (path, text) else .error (.usage (.extraArguments more))

/-- Runs a call. -/
def Call.run (w : World) (call : Call) : Except CallError Result := do
  let settings := Settings.of w.environment
  let level := if call.verbose then .debug else settings.level
  match call.command with
  | .units =>
    let text ← (single .units call.words.others).mapError .usage
    (runUnits w.room level text).mapError .breakdown
  | .expr =>
    let text ← (single .expr call.words.others).mapError .usage
    let declarations ← ((call.words.valuesOf "--var").mapM variableOf).mapError .usage
    (runExpr w.room level settings.limit declarations text).mapError .breakdown
  | .check =>
    let (path, text) ← fileText w call.words.others
    let strict := call.words.has "--strict"
    (runCheck w.room level settings.limit w.freshRunId path text strict).mapError .breakdown
  | .dims =>
    if call.words.others.isEmpty then throw (.usage (.missingArgument Subcommand.dims.argument))
    (runDims w.room level call.words.others).mapError .breakdown

/-- Runs a command line. -/
def run (w : World) (line : List String) : Except Breakdown Result :=
  match Call.of line with
  | .error stop => .ok stop.result
  | .ok call =>
    match call.run w with
    | .ok r => .ok r
    | .error (.usage f) => .ok (NoCall.fault (some call.command) f).result
    | .error (.breakdown b) => .error b

end UnitCheck.Command
