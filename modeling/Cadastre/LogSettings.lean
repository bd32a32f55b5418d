/-
# Log settings

Which events are shown and how.

Key definitions: `LogFormat`, `LogSettings`, `LogSettings.check`.
-/
import Cadastre.Error
import Cadastre.LogFilter

namespace Cadastre

/-- The form of a log line. -/
inductive LogFormat where
  | pretty
  | compact
  | json
  deriving DecidableEq, Repr

namespace LogFormat

def name : LogFormat → String
  | pretty => "Pretty"
  | compact => "Compact"
  | json => "Json"

/-- The form that a setting names. -/
def ofSetting? : String → Option LogFormat
  | "pretty" => some pretty
  | "compact" => some compact
  | "json" => some json
  | _ => none

end LogFormat

/-- The settings of a log. -/
structure LogSettings where
  filter : String := "info"
  format : LogFormat := .compact
  /-- Whether a line names its target. -/
  showTarget : Bool := true
  /-- Whether a line names its thread. -/
  showThread : Bool := false
  deriving DecidableEq, Repr

namespace LogSettings

/-- The filter is one. -/
def check (s : LogSettings) : Except Error Unit :=
  if LogFilter.accepts s.filter then .ok ()
  else .error (.host ((Diagnostic.plain "TRACING_001"
    ("invalid log filter `" ++ s.filter ++ "`: it holds a directive of no known form")).withHelp
      "use directives like `info` or `tessera_catalog=debug`"))

end LogSettings
end Cadastre
