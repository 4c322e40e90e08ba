import Signet.Config

/-! Installing the log subscriber of a process. It can be done once; the filter is checked
before that. -/

namespace Signet

inductive TelemetryError where
  | filter (reason : String)
  | alreadyInstalled

def TelemetryError.message : TelemetryError → String
  | .filter reason => reason
  | .alreadyInstalled => "a global default trace dispatcher has already been set"

/-- Whether the process has a subscriber. -/
structure Telemetry where
  installed : Bool

namespace Telemetry

def fresh : Telemetry := ⟨false⟩

def install (filter : FilterCheck) (t : Telemetry) (logging : Logging) :
    Except TelemetryError Unit × Telemetry :=
  match filter logging.level with
  | .error reason => (.error (.filter reason), t)
  | .ok () => if t.installed then (.error .alreadyInstalled, t) else (.ok (), ⟨true⟩)

/-- Installs one configuration after the other. -/
def installAll (filter : FilterCheck) (t : Telemetry) :
    List Logging → List (Except TelemetryError Unit)
  | [] => []
  | logging :: rest =>
    let (result, t) := t.install filter logging
    result :: t.installAll filter rest

end Telemetry

end Signet
