/-!
# Log events

An event has a level, a message and an origin, the part of the program that reports it.  Levels
are ordered by how much detail they stand for: an error is the most important one, and a trace the
most detailed.
-/

namespace UpdateFeed.Log

/-- How important an event is. -/
inductive Level where
  | error
  | warn
  | info
  | debug
  | trace
  deriving DecidableEq, Repr

namespace Level

/-- Every level, the most important one first. -/
def all : List Level := [.error, .warn, .info, .debug, .trace]

/-- The name of a level in filters and on the command line. -/
def name : Level → String
  | .error => "error"
  | .warn => "warn"
  | .info => "info"
  | .debug => "debug"
  | .trace => "trace"

/-- The amount of detail that a level stands for, from one. -/
def detail : Level → Nat
  | .error => 1
  | .warn => 2
  | .info => 3
  | .debug => 4
  | .trace => 5

/-- The level with an exact name. -/
def ofName? (name : String) : Option Level :=
  all.find? (·.name == name)

end Level

/-- The part of the program that reports an event. -/
inductive Origin where
  | program
  | announcement
  | versionFiles
  | signature
  deriving DecidableEq, Repr

/-- The name of an origin in filters. -/
def Origin.name : Origin → String
  | .program => "manifest_sync"
  | .announcement => "manifest_sync::sync"
  | .versionFiles => "manifest_sync::metadata"
  | .signature => "manifest_sync::signature"

/-- Something that the program reports. -/
structure Event where
  level : Level
  origin : Origin
  message : String
  deriving DecidableEq, Repr

end UpdateFeed.Log
