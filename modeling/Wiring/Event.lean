import Wiring.TypeKey
import Wiring.Text.Quoted

namespace Wiring

inductive Level
  | debug
  | trace
  | warn
  deriving DecidableEq, Repr

inductive Event
  | registering (service : String) (shared : Bool) (provides : TypeKey)
  | replaced (service : String)
  | removed (service : String)
  | loading
  | configured (count : Nat)
  | cacheHit (service : String)
  | building (service : String)
  | waiting (service : String)
  | circular (chain : List String)
  | circularAcrossThreads (chain : List String)
  | usingOverride (target parameter : String)
  | matchedByType (target parameter service : String)
  | narrowedByName (target parameter : String)
  | ambiguous (target parameter : String) (candidates : List String)
  | matchedByName (target parameter : String)
  | autowiring (target parameter : String)
  | usingDefault (target parameter : String)
  | installingDefault
  | resettingDefault
  deriving DecidableEq, Repr

namespace Event

def level : Event → Level
  | registering .. | replaced _ | removed _ | loading | configured _ | installingDefault
  | resettingDefault => .debug
  | circular _ | circularAcrossThreads _ | ambiguous .. => .warn
  | _ => .trace

def message : Event → String
  | registering .. => "registering service"
  | replaced _ => "replaced an existing registration"
  | removed _ => "removed service"
  | loading => "loading service configuration"
  | configured _ => "registered configured services"
  | cacheHit _ => "cache hit"
  | building _ => "building service"
  | waiting _ => "waiting for another thread's build"
  | circular _ => "circular dependency detected"
  | circularAcrossThreads _ => "circular dependency detected across threads"
  | usingOverride .. => "using override"
  | matchedByType .. => "matched by type"
  | narrowedByName .. => "type match narrowed by name"
  | ambiguous .. => "ambiguous type match"
  | matchedByName .. => "matched by name"
  | autowiring .. => "autowiring"
  | usingDefault .. => "using default"
  | installingDefault => "installing default container"
  | resettingDefault => "resetting default container"

def fields : Event → List (String × String)
  | registering service shared provides =>
    [("service", service), ("shared", toString shared), ("provides", provides.name)]
  | replaced service | removed service | cacheHit service | building service | waiting service =>
    [("service", service)]
  | configured count => [("count", toString count)]
  | circular chain | circularAcrossThreads chain => [("chain", " -> ".intercalate chain)]
  | matchedByType target parameter service =>
    [("target", target), ("parameter", parameter), ("service", service)]
  | ambiguous target parameter candidates =>
    [("target", target), ("parameter", parameter),
      ("candidates", Text.bracketed (candidates.map Text.quoted))]
  | usingOverride target parameter | narrowedByName target parameter
  | matchedByName target parameter | autowiring target parameter
  | usingDefault target parameter => [("target", target), ("parameter", parameter)]
  | loading | installingDefault | resettingDefault => []

end Event

end Wiring
