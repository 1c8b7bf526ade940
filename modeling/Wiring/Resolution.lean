import Wiring.Program

namespace Wiring

variable {C : Client} {α : Type}

open Program (perform run request)

def emit (e : Event) : Program C Unit := perform (.emit e)

def allocate (type : TypeKey) (v : Value) : Program C Instance := perform (.allocate type v)

def read (i : Instance) : Program C Value := perform (.modify i.object id)

def copy (i : Instance) : Program C Instance := do allocate i.type (← read i)

namespace Container

def register (c : ContainerId) (name : String) (r : Registration C) : Program C Unit := do
  if name = "" then .fail .emptyServiceName
  emit (.registering name r.shared r.provides)
  let there : Bool ← perform (.insert c name r)
  if there then emit (.replaced name)

def remove (c : ContainerId) (name : String) : Program C Bool := do
  let removed : Bool ← perform (.erase c name)
  if removed then emit (.removed name)
  return removed

def has (c : ContainerId) (name : String) : Program C Bool := do
  return (← perform (.lookup c name)).isSome

def names (c : ContainerId) : Program C (List String) := perform (.names c)

def get (c : ContainerId) (name : String) : Program C Instance := request (.service c name ∅)

def getAs (c : ContainerId) (name : String) (type : TypeKey) : Program C Instance := do
  .ofExcept ((← get c name).cast type ("service '" ++ name ++ "'"))

end Container

inductive Rule
  | override (i : Instance)
  | onlyOfType (service : String)
  -- Of several services of the declared type, the one named like the parameter.
  | narrowed
  | ambiguous (candidates : List String)
  | named
  | autowired (type : TypeKey)
  | default (i : Instance)
  | unresolvable
  deriving DecidableEq, Repr

/-- The rule for a parameter without an override and without a service of its type; `named` is the
type of the service that is named like it. -/
def Parameter.fallback (p : Parameter) (named : Option TypeKey) : Rule :=
  if named.any p.accepts then .named
  else match p.autowires?, p.default with
    | some type, _ => .autowired type
    | none, some i => .default i
    | none, none => .unresolvable

def Parameter.ofCandidates? (p : Parameter) : List String → Option Rule
  | [] => none
  | [only] => some (.onlyOfType only)
  | many => some (if p.name ∈ many then .narrowed else .ambiguous many)

namespace Rule

def choose (c : ContainerId) (overrides : Overrides) (position : Nat) (p : Parameter) :
    Program C Rule :=
  match overrides.lookup position p.name with
  | some i => .done (.override i)
  | none => do
    let candidates ← match p.type? with
      | some type => perform (.candidates c type)
      | none => .done []
    match p.ofCandidates? candidates with
    | some rule => return rule
    | none => return p.fallback ((← perform (.lookup c p.name)).map (·.2.provides))

def follow (c : ContainerId) (target : String) (position : Nat) (p : Parameter) :
    Rule → Program C Instance
  | override i => do emit (.usingOverride target p.name); return i
  | onlyOfType service => do emit (.matchedByType target p.name service); Container.get c service
  | narrowed => do emit (.narrowedByName target p.name); Container.get c p.name
  | ambiguous candidates => do
    emit (.ambiguous target p.name candidates)
    .fail (.ambiguousService target p.name candidates)
  | named => do emit (.matchedByName target p.name); Container.get c p.name
  | autowired type => do emit (.autowiring target p.name); request (.class c type ∅)
  | default i => do emit (.usingDefault target p.name); return i
  | unresolvable => .fail (.unresolvableParameter target p.name position)

end Rule

def fill (c : ContainerId) (target : String) (overrides : Overrides) (position : Nat)
    (p : Parameter) : Program C Instance := do
  (← Rule.choose c overrides position p).follow c target position p

def fillFrom (c : ContainerId) (target : String) (overrides : Overrides) :
    Nat → List Parameter → Program C (List (String × Instance))
  | _, [] => .done []
  | position, p :: rest => do
    let i ← fill c target overrides position p
    return (p.name, i) :: (← fillFrom c target overrides (position + 1) rest)

def fillAll (c : ContainerId) (target : String) (parameters : List Parameter)
    (overrides : Overrides) : Program C Arguments := do
  return ⟨target, ← fillFrom c target overrides 0 parameters⟩

namespace Logic

def parameters : Logic C → Program C (List Parameter)
  | made _ parameters _ => .done parameters
  | given _ parameters _ => .done parameters
  | constructed _ type => run (.manifest type)
  | literal .. => .done []

/-- A literal that is not shared is handed out as a copy, if it can be copied. -/
def invoke (shared : Bool) (c : ContainerId) (args : Arguments) : Logic C → Program C Instance
  | made provides _ body => do allocate provides (← run (.make body c args))
  | given _ _ body => run (.give body c args)
  | constructed _ type => do allocate type (← run (.construct type args))
  | literal value copies => if shared || !copies then .done value else copy value

end Logic

def build (c : ContainerId) (name : String) (r : Registration C) (overrides : Overrides) :
    Program C Instance := do
  emit (.building name)
  let args ← fillAll c name (← r.logic.parameters) overrides
  let i ← r.logic.invoke r.shared c args
  .ofExcept (i.cast r.provides ("service '" ++ name ++ "'"))

def construct (c : ContainerId) (type : TypeKey) (overrides : Overrides) : Program C Instance := do
  let args ← fillAll c type.name (← run (.manifest type)) overrides
  allocate type (← run (.construct type args))

def callMethod (c : ContainerId) (type : TypeKey) (name : String) (parameters : List Parameter)
    (overrides : Overrides) (body : Arguments → Program C α) : Program C α := do
  body (← fillAll c (type.name ++ "::" ++ name) parameters overrides)

structure ServiceInfo where
  name : String
  shared : Bool
  type : TypeKey
  parameters : List String
  cached : Bool
  deriving DecidableEq, Repr

def Container.describe (c : ContainerId) (name : String) : Program C (Option ServiceInfo) := do
  match ← perform (.lookup c name) with
  | none => return none
  | some (e, r) =>
    let parameters ← r.logic.parameters
    let cached ← perform (.cached e)
    return some ⟨name, r.shared, r.provides, parameters.map (·.name), cached.isSome⟩

namespace DefaultContainer

def install (c : ContainerId) : Program C (Option ContainerId) := do
  emit .installingDefault
  perform (.installDefault c)

def current : Program C (Option ContainerId) := perform .currentDefault

def getOrInstall : Program C ContainerId := do
  match ← current with
  | some c => return c
  | none => perform .settleDefault

def reset : Program C (Option ContainerId) := do
  emit .resettingDefault
  perform .resetDefault

end DefaultContainer

def insistFrom (c : ContainerId) (type : TypeKey) (name : String) : Program C Instance := do
  match ← (Container.getAs c name type).attempt with
  | .ok i => return i
  | .error e => .crash ("Failed to resolve required service '" ++ name ++ "' as " ++ type.name ++
      ": " ++ e.message)

def insistDefault (type : TypeKey) (name : String) : Program C Instance := do
  match ← DefaultContainer.current with
  | some c => insistFrom c type name
  | none => .crash "Failed to resolve required service: no default container installed"

end Wiring
