/-
Installing the logging of a process.  The first settings with a well-formed filter are installed and
decide all that is printed; their guard says good-bye when it is dropped.  The language of filters
is a parameter throughout.
-/
import GatewayClient.Logging.Basic
import GatewayClient.Logging.Filter

namespace GatewayClient

/-- Why logging was not installed. -/
inductive LogFault where
  | invalidFilter
  | alreadyInstalled
deriving DecidableEq, Repr

namespace LogFault

/-- The text of a fault; what is wrong with a filter no rule here fixes. -/
def message? : LogFault → Option String
  | invalidFilter => none
  | alreadyInstalled => some "Logging already initialized"

end LogFault

/-- A line of the log. -/
inductive LogLine where
  | installed (service filter : String) (json : Bool)
  | shutDown (service : String)
deriving DecidableEq, Repr

/-- What a process has installed, with what its filter says, and the lines it has printed. -/
structure LogState (F : Type) where
  installed : Option (LogSettings × F) := none
  printed : List LogLine := []
deriving DecidableEq, Repr

/-- The target of the lines about logging itself. -/
def LogState.target : String :=
  "firebolt_telemetry::logging"

namespace FilterLanguage

variable {F : Type} (rules : FilterLanguage F)

/-- Prints a line if what is installed prints at all and its filter lets the line through. -/
def print (st : LogState F) (line : LogLine) : LogState F :=
  match st.installed with
  | some (s, filter) =>
    if s.console && rules.admits filter LogState.target .info then
      { st with printed := st.printed ++ [line] }
    else st
  | none => st

/-- Installs logging.  The filter is looked at first, so a bad one is refused at any time; the
answer is the service that the guard speaks for. -/
def install (st : LogState F) (s : LogSettings) : LogState F × Except LogFault String :=
  match rules.parse? s.filter with
  | none => (st, .error .invalidFilter)
  | some filter =>
    match st.installed with
    | some _ => (st, .error .alreadyInstalled)
    | none =>
      (rules.print { st with installed := some (s, filter) }
          (.installed s.serviceName s.filter s.json),
        .ok s.serviceName)

/-- Drops the guard of a service. -/
def dropGuard (st : LogState F) (service : String) : LogState F :=
  rules.print st (.shutDown service)

/-- Installs settings one after the other. -/
def installAll (st : LogState F) :
    List LogSettings → LogState F × List (Except LogFault String)
  | [] => (st, [])
  | s :: rest =>
    let (st, answer) := rules.install st s
    let (st, answers) := installAll st rest
    (st, answer :: answers)

/-- Drops the guards that were given, in order. -/
def dropGuards (st : LogState F) (answers : List (Except LogFault String)) : LogState F :=
  answers.foldl
    (fun st answer =>
      match answer with
      | .ok service => rules.dropGuard st service
      | .error _ => st)
    st

/-- A whole process: installs settings in order, then drops all guards in order. -/
def process (configs : List LogSettings) : LogState F × List (Except LogFault String) :=
  let (st, answers) := rules.installAll {} configs
  (rules.dropGuards st answers, answers)

end FilterLanguage

/-- A process whose filters are lists of directives. -/
def LogState.process (configs : List LogSettings) :
    LogState (List Directive) × List (Except LogFault String) :=
  LogFilter.language.process configs

end GatewayClient
