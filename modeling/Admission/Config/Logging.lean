import Admission.Diagnostic
import Admission.Error

/-!
# Logging

The settings of the log, and what comes of installing it. A process has one log for all its parts,
and only the first installation succeeds.

## Main definitions

* `LoggingConfig`: the settings
* `Surroundings`, `LoggingConfig.install`: what an installation finds, and how it ends
-/

namespace Admission

/-- The settings of the log. -/
structure LoggingConfig where
  level : Level := .info
  json : Bool := false
  /-- The file that events are written to; without one they go to the standard output. -/
  logFile : Option String := none
deriving DecidableEq, Repr

/-- What an installation of the log finds. -/
structure Surroundings where
  installed : Bool
  writable : Bool
deriving DecidableEq, Repr

/-- Installs a log. The file is made first, and stays when the installation fails afterwards.
Besides the end of the installation this tells whether the file was made. -/
def LoggingConfig.install (c : LoggingConfig) (s : Surroundings) : Except Error Unit × Bool :=
  let result := if s.installed then .error .logging else .ok ()
  match c.logFile with
  | none => (result, false)
  | some _ => if s.writable then (result, true) else (.error .io, false)

end Admission
