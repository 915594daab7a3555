/-
How a process logs: the service it names itself, its level or filter, and whether and how lines are
printed; all from the environment, the level also from a client's settings.
-/
import GatewayClient.Settings.Environment
import GatewayClient.WireName

namespace GatewayClient

/-- The logging of a process. -/
structure LogSettings where
  serviceName : String := "firebolt-client"
  level : String := "info"
  console : Bool := true
  json : Bool := false
deriving DecidableEq, Repr

namespace LogSettings

/-- Whether a switch's text turns it off. -/
def turnsOff (text : String) : Bool :=
  WireName.lower text == "false" || text == "0"

/-- Whether a switch's text turns it on. -/
def turnsOn (text : String) : Bool :=
  WireName.lower text == "true" || text == "1"

/-- What the environment says; the level has a name of its own and a general one. -/
def ofEnvironment (env : Environment) : LogSettings where
  serviceName := (env.text? "FIREBOLT_SERVICE_NAME").getD "firebolt-client"
  level := ((env.text? "FIREBOLT_LOG_LEVEL").or (env.text? "RUST_LOG")).getD "info"
  console := ((env.text? "FIREBOLT_CONSOLE_OUTPUT").map fun text => !turnsOff text).getD true
  json := ((env.text? "FIREBOLT_JSON_LOGS").map turnsOn).getD false

/-- The logging of a client: its settings give the level. -/
def ofSettings (s : Settings) (env : Environment) : LogSettings :=
  { ofEnvironment env with level := s.logLevel }

/-- The filter that a level stands for; what is no level's name is a filter itself. -/
def filterDirective (level : String) : String :=
  if level = "Error" ∨ level = "error" then "error"
  else if level = "Warning" ∨ level = "warning" ∨ level = "Warn" ∨ level = "warn" then "warn"
  else if level = "Info" ∨ level = "info" then "info"
  else if level = "Debug" ∨ level = "debug" then "debug"
  else if level = "Trace" ∨ level = "trace" then "trace"
  else level

/-- The filter that a process logs by. -/
def filter (s : LogSettings) : String :=
  filterDirective s.level

end LogSettings

end GatewayClient
