/-!
# Nucleus.Logger

Records have a level, a target and a message. A logger that is installed keeps the lines of the
records up to its level, or throws them away; it is installed once, and before that nothing is
logged.
-/

namespace Nucleus

/-- How much a record matters, the most first. -/
inductive Level where
  | error
  | warn
  | info
  | debug
  | trace
deriving DecidableEq

namespace Level

def rank : Level → Nat
  | error => 1
  | warn => 2
  | info => 3
  | debug => 4
  | trace => 5

def name : Level → String
  | error => "ERROR"
  | warn => "WARN"
  | info => "INFO"
  | debug => "DEBUG"
  | trace => "TRACE"

end Level

/-- Up to which level records are kept. -/
inductive LevelFilter where
  | off
  | upTo (level : Level)
deriving DecidableEq

namespace LevelFilter

def admits (f : LevelFilter) (l : Level) : Bool :=
  match f with
  | off => false
  | upTo level => decide (l.rank ≤ level.rank)

def name : LevelFilter → String
  | off => "OFF"
  | upTo level => level.name

end LevelFilter

structure LogRecord where
  level : Level
  target : String
  message : String
deriving DecidableEq

def LogRecord.line (r : LogRecord) : String :=
  "[" ++ r.level.name ++ "] " ++ r.target ++ ": " ++ r.message

inductive Sink where
  | recording
  | discarding
deriving DecidableEq

inductive LoggerError where
  | alreadyInstalled
deriving DecidableEq

def LoggerError.message : LoggerError → String
  | alreadyInstalled => "kernel logger already installed"

structure Logger where
  filter : LevelFilter
  /-- Where lines go, once the logger is installed. -/
  sink : Option Sink
deriving DecidableEq

namespace Logger

def absent : Logger :=
  ⟨.off, none⟩

/-- Installs the logger with a sink and a level. -/
def install (l : Logger) (sink : Sink) (filter : LevelFilter) : Except LoggerError Logger :=
  match l.sink with
  | none => .ok ⟨filter, some sink⟩
  | some _ => .error .alreadyInstalled

def setFilter (l : Logger) (filter : LevelFilter) : Logger :=
  { l with filter }

def enabled (l : Logger) (level : Level) : Bool :=
  l.sink.isSome && l.filter.admits level

def line? (l : Logger) (r : LogRecord) : Option String :=
  if l.enabled r.level && l.sink == some .recording then some r.line else none

end Logger
end Nucleus
