import UnitCheck.Log.Level
import UnitCheck.Markup.Limit
import UnitCheck.Table
import UnitCheck.Text.Digit

/-! # Settings

Settings are environment variables. One that cannot be read counts as not set. -/

namespace UnitCheck

/-- The environment variables. -/
abbrev Environment := Table String String

/-- What can be set. -/
structure Settings where
  limit : Markup.Limit
  level : Log.Level
  revision : Option String

namespace Settings

/-- The version of the program. -/
def version : String := "0.1.0"

/-- The nesting limit that a text sets. -/
def limitOf (text : String) : Markup.Limit :=
  match Text.readInteger? text.toList with
  | some n => .clamp n
  | none => .standard

/-- The settings of an environment. -/
def of (environment : Environment) : Settings where
  limit := ((environment.find? "PHYSGRAPH_MAX_DEPTH").map limitOf).getD .standard
  level := ((environment.find? "PHYSGRAPH_LOG_LEVEL").bind Log.Level.ofName?).getD .info
  revision := environment.find? "GIT_COMMIT"

/-- The limit of a single check, which may be given for it. -/
def limitFor (s : Settings) (given : Option Int) : Markup.Limit := (given.map .clamp).getD s.limit

end Settings

end UnitCheck
