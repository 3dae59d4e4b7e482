import UnitCheck.Service.Endpoint

/-! # The HTTP service

The routes of the service, what is answered on those that check nothing, and what is answered to a request that does
not fit its endpoint: the list of its issues, each with the path to it behind `request`. How a request comes to its
route, how its body is read and what response is sent is up to the framework. -/

namespace UnitCheck.Service

open Schema (Issue Step)

/-- The paths of the service. -/
inductive Route where
  | health
  | info
  | endpoint (e : Endpoint)
deriving DecidableEq, Repr

namespace Route

/-- Every route. -/
def all : List Route :=
  [health, info, endpoint .parseUnits, endpoint .validateUnits, endpoint .checkExpression, endpoint .checkEquation,
    endpoint .checkProject]

/-- The path of a route. -/
def path : Route → String
  | health => "/health"
  | info => "/v1/info"
  | endpoint .parseUnits => "/v1/units/parse"
  | endpoint .validateUnits => "/v1/units/validate"
  | endpoint .checkExpression => "/v1/check/expression"
  | endpoint .checkEquation => "/v1/check/equation"
  | endpoint .checkProject => "/v1/check/project"

/-- The method of a route. -/
def method : Route → String
  | health | info => "GET"
  | endpoint _ => "POST"

end Route

/-! ### Requests that do not fit -/

/-- A step of a path, as text. -/
def stepText : Step → String
  | .name s => s
  | .index n => toString n

/-- The path to an issue. Steps of the name `body` are left out. -/
def issuePath (path : List Step) : String :=
  ".".intercalate ("request" :: (path.filter (· ≠ .name "body")).map stepText)

/-- The wording of an issue with a body. -/
def issueMessage : Schema.Problem → String
  | .notRecord _ => "Input should be a valid dictionary or object to extract fields from"
  | .duplicateId d => d.message
  | p => p.message

/-- One issue in a response. -/
def issueJson (path message : String) : Json := .object [("path", .string path), ("message", .string message)]

/-- The answer that lists issues. -/
def invalidAnswer (fields : List Json) : Json :=
  .object [("error", .string "VALIDATION_ERROR"), ("fields", .array fields)]

/-- The answer to a body that does not fit its schema. -/
def issuesAnswer (is : List Issue) : Json :=
  invalidAnswer (is.map fun i => issueJson (issuePath i.path) (issueMessage i.problem))

/-! ### Answers -/

/-- The state of the service. -/
def healthAnswer : Json := .object [("ok", .bool true), ("status", .string "ok")]

/-- What the markup may hold. -/
def markupFeatures : List String :=
  ["\\frac\x7b\x7d\x7b\x7d", "^number, ^\x7bnumber\x7d", "_subscript (ignored)",
   "( ) and \x7b \x7d grouping", "+ - * / and implicit multiplication", "\\cdot, \\times as *",
   "\\left, \\right ignored"]

/-- The names of the units, sorted. -/
def sortedUnits : List String := (Units.table.map Prod.fst).mergeSort fun a b => a ≤ b

/-- What the service can do. -/
def infoAnswer (s : Settings) : Json :=
  .object [("version", .string Settings.version), ("git_sha", .ofString? s.revision),
    ("units", .strings sortedUnits), ("markup_features", .strings markupFeatures),
    ("unsupported", .strings Markup.deniedCommands), ("max_depth", .integer s.limit.levels)]

end UnitCheck.Service
