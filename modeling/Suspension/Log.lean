import Suspension.Text.Basic

/-!
# Diagnostics

What the transformation reports while it works.  Warnings and errors always come through; infos need
the verbose or the debug mode, and debug messages the debug mode.
-/

namespace Suspension

/-- How serious an entry is. -/
inductive LogLevel where
  | debug
  | info
  | warn
  | error
deriving DecidableEq, Repr, Inhabited

/-- The name of a level. -/
def LogLevel.name : LogLevel → Text
  | debug => "debug"
  | info => "info"
  | warn => "warn"
  | error => "error"

/-- A value attached to an entry. -/
inductive LogValue where
  | text (t : Text)
  | number (n : Int)
deriving DecidableEq, Repr

/-- Named values; of two with the same name the later one counts. -/
abbrev LogFields := List (Text × LogValue)

/-- One message with its values. -/
structure LogEntry where
  level : LogLevel
  message : Text
  fields : LogFields
deriving DecidableEq, Repr

/-- Entries in the order in which they were made. -/
abbrev Log := Array LogEntry

/-- **A place to send messages to**: what comes through, and the values that every message gets. -/
structure Sink where
  verbose : Bool := false
  debug : Bool := false
  context : LogFields := []
deriving DecidableEq, Repr, Inhabited

namespace Sink

/-- The same place with more values on every message. -/
def adding (s : Sink) (fields : LogFields) : Sink := { s with context := s.context ++ fields }

/-- Whether messages of a level come through. -/
def passes (s : Sink) : LogLevel → Bool
  | .debug => s.debug
  | .info => s.verbose || s.debug
  | .warn | .error => true

/-- **A message to the log.** -/
def send (s : Sink) (level : LogLevel) (message : Text) (fields : LogFields) (log : Log) : Log :=
  if s.passes level then log.push ⟨level, message, s.context ++ fields⟩ else log

end Sink

end Suspension
