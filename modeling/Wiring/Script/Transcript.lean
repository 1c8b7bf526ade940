import Wiring.Machine.Step
import Wiring.Script.Routine

namespace Wiring.Script

abbrev State := Machine client

abbrev Writer := StateM (List Instance)

def number (i : Instance) : Writer Nat := do
  let seen ← get
  match seen.idxOf? i with
  | some n => return n
  | none => do set (seen ++ [i]); return seen.length

def writeInstance (w : World client) : Nat → Instance → Writer Answer
  | 0, _ => return .null
  | fuel + 1, i => do
    let n ← number i
    let v ← match w.value i.object with
      | .record fields => Answer.list <$> fields.mapM (fun (name, j) => do
          return .list [.text name, ← writeInstance w fuel j])
      | .document t => pure (.ofTree t)
      | .boolean b => pure (.boolean b)
      | v => pure (.text (valueText i.type v))
    return .object [("type", .text i.type.name), ("obj", .number n), ("v", v)]

def errorKind : Error → String
  | .serviceNotFound _ => "ServiceNotFound"
  | .unresolvableParameter .. => "UnresolvableParameter"
  | .ambiguousService .. => "AmbiguousService"
  | .circularDependency _ => "CircularDependency"
  | .typeMismatch .. => "TypeMismatch"
  | .emptyServiceName => "EmptyServiceName"
  | .configuration _ => "Config"
  | .reading _ => "Io"

def failure (kind message : String) : Answer :=
  .object [("error", .text kind), ("message", .text message)]

def writeFailure : Failure → Answer
  | .error e => failure (errorKind e) e.message
  | .crash message => failure "panic" message

def levelText : Level → String
  | .debug => "DEBUG"
  | .trace => "TRACE"
  | .warn => "WARN"

def writeEvent (e : Event) : Answer :=
  .list [.text (levelText e.level), .text e.message,
    .object (e.fields.map (fun (k, v) => (k, .text v)))]

def writeRecord (events : Bool) (write : Result → Writer Answer) (r : StepRecord client) :
    Writer Answer := do
  let outcome ← match r.outcome with
    | .ok result => do pure ("ok", ← write result)
    | .error f => pure ("err", writeFailure f)
  let notes ← r.notes.mapM write
  return .object ([outcome] ++ (if notes.isEmpty then [] else [("trace", .list notes)]) ++
    (if events then [("log", .list (r.events.map writeEvent))] else []))

mutual

def writeResult (events : Bool) (m : State) (fuel : Nat) : Result → Writer Answer
  | .null => return .null
  | .boolean b => return .boolean b
  | .number n => return .number n
  | .text s => return .text s
  | .instance i => writeInstance m.world (m.world.objects.length + 1) i
  | .tree t => return .ofTree t
  | .failure e => return writeFailure (.error e)
  | .list items => do return .list (← writeResults events m fuel items)
  | .object fields => do return .object (← writeFields events m fuel fields)
  | .threads ts => do
    match fuel with
    | 0 => return .null
    | fuel + 1 =>
      return .list (← ts.mapM (fun t => do
        let records := (m.threads[t]?.map (·.records)).getD []
        return .list (← records.mapM (writeRecord events (writeResult events m fuel)))))
  termination_by r => (fuel, sizeOf r)

def writeResults (events : Bool) (m : State) (fuel : Nat) : List Result → Writer (List Answer)
  | [] => return []
  | r :: rest => do
    let a ← writeResult events m fuel r
    return a :: (← writeResults events m fuel rest)
  termination_by rs => (fuel, sizeOf rs)

def writeFields (events : Bool) (m : State) (fuel : Nat) :
    List (String × Result) → Writer (List (String × Answer))
  | [] => return []
  | (name, r) :: rest => do
    let a ← writeResult events m fuel r
    return (name, a) :: (← writeFields events m fuel rest)
  termination_by rs => (fuel, sizeOf rs)

end

def patience : Nat := 100000000

def mainRecords (m : State) : List (StepRecord client) := (m.threads[0]?.map (·.records)).getD []

def takeStep (events : Bool) (m : State) (seen : List Instance) (e : Expr) :
    Answer × State × List Instance :=
  let before := (mainRecords m).length
  let m := (m.submit (eval e {})).run implementation patience 0
  match (mainRecords m)[before]? with
  | none => (.null, m, seen)
  | some r =>
    let (a, seen) := (writeRecord events (writeResult events m m.threads.length) r).run seen
    (a, m, seen)

def takeSteps (events : Bool) : State → List Instance → List Expr → List Answer
  | _, _, [] => []
  | m, seen, e :: rest =>
    let (a, m, seen) := takeStep events m seen e
    a :: takeSteps events m seen rest

def transcript (events : Bool) (steps : List Expr) : List Answer :=
  takeSteps events (Machine.start {}) [] steps

end Wiring.Script
