import ArrayKernels.Log.Filter
import ArrayKernels.Settings.Environment

/-!
# Setting up a log

What a log is called, what it lets pass and how it is written, from the environment; and the two
ways in which setting it up can fail.
-/

namespace ArrayKernels

/-- How a log is to be written. -/
structure LogSettings where
  /-- The name that stands with every line. -/
  serviceName : String := "vectorize"
  /-- The text of the filter. -/
  level : String := "info"
  /-- Lines are written as JSON. -/
  json : Bool := false
deriving DecidableEq

namespace LogSettings

/-- The defaults. -/
def standard : LogSettings := {}

/-- The log settings that the environment gives. Inside a container lines are JSON unless a variable
says otherwise. -/
def ofEnvironment (env : Environment) : LogSettings where
  serviceName := (env "OTEL_SERVICE_NAME").getD standard.serviceName
  level := ((env "VECTORIZE_LOG_LEVEL").or (env "RUST_LOG")).getD standard.level
  json :=
    ((env "VECTORIZE_JSON_LOGS").map saysYes).getD
      ((env "KUBERNETES_SERVICE_HOST").isSome || (env "DOCKER_CONTAINER").isSome)

/-- The settings with another filter. -/
def withLevel (s : LogSettings) (level : String) : LogSettings := { s with level }

/-- The settings with lines as JSON or not. -/
def withJson (s : LogSettings) (json : Bool) : LogSettings := { s with json }

end LogSettings

/-- Why a log cannot be set up. -/
inductive LogError where
  /-- The text is no filter. -/
  | invalidFilter (level : String)
  /-- A log has been set up already. -/
  | alreadyInstalled
deriving DecidableEq

/-- The wording of the error. -/
def LogError.message : LogError → String
  | invalidFilter level => s!"Invalid configuration: invalid log filter '{level}'"
  | alreadyInstalled => "A global subscriber is already installed"

/-- The filter of the settings. -/
def LogSettings.filter (s : LogSettings) : Except LogError Filter :=
  match Filter.parse? s.level with
  | some filter => .ok filter
  | none => .error (.invalidFilter s.level)

/-- Sets up a log, unless there is one. The filter is read first. -/
def LogSettings.install (s : LogSettings) (installed : Bool) : Except LogError Filter := do
  let filter ← s.filter
  if installed then .error .alreadyInstalled else return filter

end ArrayKernels
