import Wiring.World
import Wiring.Resolution

namespace Wiring

variable {C : Client}

structure Site (C : Client) where
  container : ContainerId
  name : String
  entry : EntryId
  registration : Registration C

def Site.key (s : Site C) : BuildKey := ⟨s.container, s.name⟩

/-- What a thread does next inside a resolution. -/
inductive Control (C : Client)
  | find (c : ContainerId) (name : String) (overrides : Overrides)
  -- A shared service's cache is looked at first of all.
  | peek (s : Site C)
  | enter (c : ContainerId) (target : Target) (inside : Control C)
  -- The cache is looked at again before the build is claimed.
  | attempt (s : Site C)
  | claim (s : Site C)
  | asleep (s : Site C) (owner : ThreadId)
  | woken (s : Site C) (owner : ThreadId)
  -- The cache is looked at once more by the owner of the build.
  | recheck (s : Site C)
  | run (p : Program C Instance)
  | notify (r : Except Failure Instance)
  | finish (r : Except Failure Instance)

/-- What remains to be done once the resolution inside has finished. -/
inductive Frame (C : Client)
  | caller (next : Except Error Instance → Program C Instance)
  | inside (c : ContainerId) (target : Target)
  | keeps (s : Site C)
  | owns (s : Site C)

inductive Activity (C : Client)
  | idle
  | running (p : Program C C.Report)
  | resolving (control : Control C) (frames : List (Frame C))
      (next : Except Error Instance → Program C C.Report)

structure StepRecord (C : Client) where
  outcome : Except Failure C.Report
  notes : List C.Report
  events : List Event

structure Thread (C : Client) where
  stack : Stack := []
  activity : Activity C := .idle
  todo : List (Program C C.Report)
  notes : List C.Report := []
  events : List Event := []
  records : List (StepRecord C) := []

namespace Thread

def hasEnded (th : Thread C) : Bool :=
  match th.activity with
  | .idle => th.todo.isEmpty
  | _ => false

def tell (th : Thread C) (e : Event) : Thread C := { th with events := th.events ++ [e] }

def conclude (th : Thread C) (outcome : Except Failure C.Report) : Thread C :=
  { th with
    activity := .idle
    notes := []
    events := []
    records := th.records ++ [⟨outcome, th.notes, th.events⟩] }

def goes (th : Thread C) (control : Control C) (frames : List (Frame C))
    (next : Except Error Instance → Program C C.Report) : Thread C :=
  { th with activity := .resolving control frames next }

def wake (th : Thread C) : Thread C :=
  match th.activity with
  | .resolving (.asleep s owner) frames next => th.goes (.woken s owner) frames next
  | _ => th

end Thread

structure Machine (C : Client) where
  world : World C
  threads : List (Thread C)

namespace Machine

def update (m : Machine C) (t : ThreadId) (th : Thread C) : Machine C :=
  { m with threads := m.threads.set t th }

def withWorld (m : Machine C) (w : World C) : Machine C := { m with world := w }

def setBuilds (m : Machine C) (g : BuildGraph) : Machine C :=
  { m with world := { m.world with builds := g } }

def addWait (m : Machine C) (service : String) : Machine C :=
  { m with world := { m.world with waits := m.world.waits ++ [service] } }

def hasEnded (m : Machine C) (t : ThreadId) : Bool := m.threads[t]?.all (·.hasEnded)

def perform (I : Implementation C) (m : Machine C) (t : ThreadId) (th : Thread C) :
    (a : Action C) → Option (a.Reply × Machine C)
  | .insert c name r =>
    some (((m.world.services c).contains name : Bool), m.withWorld (m.world.insert c name r))
  | .erase c name =>
    some (((m.world.services c).contains name : Bool), m.withWorld (m.world.erase c name))
  | .names c => some (m.world.names c, m)
  | .candidates c type => some (m.world.candidates th.stack c type, m)
  | .lookup c name => some ((m.world.entry? c name).map (fun (e, x) => (e, x.registration)), m)
  | .cached e => some (m.world.cached e, m)
  | .newContainer => let (c, w) := m.world.newContainer; some (c, m.withWorld w)
  | .allocate type v => let (i, w) := m.world.allocate type v; some (i, m.withWorld w)
  | .modify o f =>
    some (m.world.value o, m.withWorld { m.world with objects := m.world.objects.modify o f })
  | .installDefault c => some (m.world.current, m.withWorld { m.world with current := some c })
  | .currentDefault => some (m.world.current, m)
  | .settleDefault =>
    match m.world.current with
    | some c => some (c, m)
    | none =>
      let (c, w) := m.world.newContainer
      some (c, m.withWorld { w with current := some c })
  | .resetDefault => some (m.world.current, m.withWorld { m.world with current := none })
  | .update f => some (m.world.state, m.withWorld { m.world with state := f m.world.state })
  | .await ready => if ready m.world.state then some ((), m) else none
  | .awaitWaiters service count =>
    if count ≤ m.world.waits.count service then some ((), m) else none
  | .note r => some ((), m.update t { th with notes := th.notes ++ [r] })
  | .emit e => some ((), m.update t (th.tell e))
  | .spawn jobs =>
    some ((List.range jobs.length).map (m.threads.length + ·),
      { m with threads := m.threads ++ jobs.map (fun steps => { todo := steps.map I.job }) })
  | .join threads => if threads.all m.hasEnded then some ((), m) else none

end Machine

end Wiring
