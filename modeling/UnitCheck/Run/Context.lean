import UnitCheck.Json.Display
import UnitCheck.Log.Level
import UnitCheck.Project.Report

/-! # Run ids

Log lines of one run carry its id. An id is bound for a while: binding gives a token that holds the id
in force before, and the token puts that id back once. Binding no id does nothing and gives no token. -/

namespace UnitCheck.Run

/-- What a binding gives, to undo it. -/
structure Token where
  serial : Nat
  previous : Option String
deriving DecidableEq

/-- The id in force, how many tokens were given, and which of them were used. -/
structure Context where
  current : Option String
  issued : Nat
  spent : List Nat
deriving DecidableEq

/-- A token was used twice. -/
inductive ResetError where
  | tokenSpent
deriving DecidableEq

namespace Context

/-- The context in which no id was bound yet. -/
def initial : Context := ⟨none, 0, []⟩

/-- Binds an id. -/
def bind (c : Context) : Option String → Option Token × Context
  | none => (none, c)
  | some id => (some ⟨c.issued, c.current⟩, { c with current := some id, issued := c.issued + 1 })

/-- Puts back the id that was in force before a token was given. -/
def reset (c : Context) : Option Token → Except ResetError Context
  | none => .ok c
  | some t =>
    if t.serial ∈ c.spent then .error .tokenSpent
    else .ok { c with current := t.previous, spent := t.serial :: c.spent }

/-- The id of a run that starts here: the one in force, or a fresh one if that is missing or empty. -/
def runId (c : Context) (fresh : String) : String :=
  match c.current with
  | none => fresh
  | some id => if id = "" then fresh else id

/-- The text of a log line about an event, with the id in force and what else is known about it. -/
def eventText (c : Context) (message : String) (extra : List (String × Json)) : String :=
  let payload := Table.ofList (("run_id", .ofString? c.current) :: extra)
  message ++ " " ++ (Json.object payload.entries).display

/-- A log line about an event. -/
def event (c : Context) (message : String) (extra : List (String × Json)) : Log.Line :=
  ⟨.info, c.eventText message extra⟩

end Context

/-- What is known about a batch of verdicts. -/
def batchExtra (r : Report) : List (String × Json) :=
  [("equations", .integer r.verdicts.size), ("good", .integer r.tally.good), ("bad", .integer r.tally.bad),
   ("unknown", .integer r.tally.unknown)]

/-- A check of a project as a run: its result, the log lines about it, and the context behind it. -/
structure Outcome where
  result : Except DuplicateId Report
  events : List Log.Line
  context : Context

/-- Checks a project as a run of its own, or as part of the one in force. -/
def checkProject (c : Context) (fresh : String) (limit : Markup.Limit) (p : Project) : Outcome :=
  let (token, inner) := c.bind (some (c.runId fresh))
  let result := p.check limit
  let events := match result with
    | .ok r => [inner.event "dimcheck.batch" (batchExtra r)]
    | .error _ => []
  match inner.reset token with
  | .ok outer => ⟨result, events, outer⟩
  | .error _ => ⟨result, events, inner⟩

end UnitCheck.Run
