import Wiring.Machine

/-!
The steps of a thread. A step makes at most one access to what threads share.
-/
namespace Wiring

variable {C : Client}

def Goal.control : Goal → Control C
  | service c name overrides => .find c name overrides
  | .class c type overrides =>
    .enter c (.class type.name) (.run (Wiring.construct c type overrides))

namespace Machine

def put (m : Machine C) (t : ThreadId) (activity : Activity C) : Machine C :=
  { m with threads := m.threads.modify t (fun th => { th with activity := activity }) }

def wakeAll (m : Machine C) : Machine C := { m with threads := m.threads.map Thread.wake }

section

variable (m : Machine C) (t : ThreadId) (th : Thread C)
  (next : Except Error Instance → Program C C.Report)

def go (control : Control C) (frames : List (Frame C)) : Machine C :=
  m.put t (.resolving control frames next)

def refuse (e : Event) (chain : List String) (frames : List (Frame C)) : Machine C :=
  m.update t ((th.tell e).goes (.finish (.error (.error (.circularDependency chain)))) frames next)

def find (c : ContainerId) (name : String) (overrides : Overrides) (frames : List (Frame C)) :
    Machine C :=
  match m.world.entry? c name with
  | none => m.go t next (.finish (.error (.error (.serviceNotFound name)))) frames
  | some (e, entry) =>
    let r := entry.registration
    if r.shared && overrides.isEmpty then m.go t next (.peek ⟨c, name, e, r⟩) frames
    else m.go t next (.enter c (.service name) (.run (build c name r overrides))) frames

def peek (s : Site C) (frames : List (Frame C)) : Machine C :=
  match m.world.cached s.entry with
  | some i => m.update t ((th.tell (.cacheHit s.name)).goes (.finish (.ok i)) frames next)
  | none => m.go t next (.enter s.container (.service s.name) (.attempt s)) frames

def enter (c : ContainerId) (target : Target) (inside : Control C) (frames : List (Frame C)) :
    Machine C :=
  match th.stack.cycle? c target with
  | some chain => m.refuse t th next (.circular chain) chain frames
  | none =>
    m.update t
      ({ th with stack := th.stack.enter c target }.goes inside (.inside c target :: frames) next)

def attempt (s : Site C) (frames : List (Frame C)) : Machine C :=
  match m.world.cached s.entry with
  | some i => m.go t next (.finish (.ok i)) frames
  | none => m.go t next (.claim s) frames

/-- Takes a free build, or else waits for its owner unless that would close a cycle. -/
def claim (s : Site C) (frames : List (Frame C)) : Machine C :=
  match m.world.builds.owners.get? s.key with
  | none =>
    (m.setBuilds (m.world.builds.claim s.key t)).go t next (.recheck s) (.owns s :: frames)
  | some owner =>
    match m.world.builds.waitCycle s.key t with
    | some chain => m.refuse t th next (.circularAcrossThreads chain) chain frames
    | none =>
      ((m.setBuilds (m.world.builds.wait t s.key)).addWait s.name).update t
        ((th.tell (.waiting s.name)).goes (.asleep s owner) frames next)

def wokenUp (s : Site C) (owner : ThreadId) (frames : List (Frame C)) : Machine C :=
  if m.world.builds.owners.get? s.key = some owner then m.go t next (.asleep s owner) frames
  else (m.setBuilds (m.world.builds.leave t)).go t next (.attempt s) frames

def recheck (s : Site C) (frames : List (Frame C)) : Machine C :=
  match m.world.cached s.entry with
  | some i => m.go t next (.finish (.ok i)) frames
  | none =>
    m.go t next (.run (build s.container s.name s.registration ∅)) (.keeps s :: frames)

def runInside (I : Implementation C) (frames : List (Frame C)) :
    Program C Instance → Option (Machine C)
  | .done i => some (m.go t next (.finish (.ok i)) frames)
  | .fail e => some (m.go t next (.finish (.error (.error e))) frames)
  | .crash message => some (m.go t next (.finish (.error (.crash message))) frames)
  | .act a rest =>
    (m.perform I t th a).map (fun (r, m) => m.go t next (.run (rest r)) frames)
  | .call k rest => some (m.go t next (.run ((I.answer k).attempt.bind rest)) frames)
  | .resolve g rest => some (m.go t next (g.control) (.caller rest :: frames))

def keep (s : Site C) (i : Instance) (frames : List (Frame C)) : Machine C :=
  match m.world.cached s.entry with
  | some kept => m.go t next (.finish (.ok kept)) frames
  | none => (m.withWorld (m.world.setCache s.entry i)).go t next (.finish (.ok i)) frames

/-- Hands the end of a resolution to the innermost frame. A crash passes all callers by. -/
def finish (r : Except Failure Instance) : List (Frame C) → Machine C
  | [] =>
    match r with
    | .ok i => m.put t (.running (next (.ok i)))
    | .error (.error e) => m.put t (.running (next (.error e)))
    | .error (.crash message) => m.update t (th.conclude (.error (.crash message)))
  | .caller rest :: frames =>
    match r with
    | .ok i => m.go t next (.run (rest (.ok i))) frames
    | .error (.error e) => m.go t next (.run (rest (.error e))) frames
    | .error (.crash message) => m.go t next (.finish (.error (.crash message))) frames
  | .inside c _ :: frames =>
    m.update t ({ th with stack := th.stack.leave c }.goes (.finish r) frames next)
  | .keeps s :: frames =>
    match r with
    | .ok i => m.keep t next s i frames
    | .error f => m.go t next (.finish (.error f)) frames
  | .owns s :: frames =>
    (m.setBuilds (m.world.builds.release s.key)).go t next (.notify r) frames

def advance (I : Implementation C) (frames : List (Frame C)) : Control C → Option (Machine C)
  | .find c name overrides => some (m.find t next c name overrides frames)
  | .peek s => some (m.peek t th next s frames)
  | .enter c target inside => some (m.enter t th next c target inside frames)
  | .attempt s => some (m.attempt t next s frames)
  | .claim s => some (m.claim t th next s frames)
  | .asleep .. => none
  | .woken s owner => some (m.wokenUp t next s owner frames)
  | .recheck s => some (m.recheck t next s frames)
  | .run p => m.runInside t th next I frames p
  | .notify r => some (m.wakeAll.go t next (.finish r) frames)
  | .finish r => some (m.finish t th next r frames)

end

def runOwn (I : Implementation C) (m : Machine C) (t : ThreadId) (th : Thread C) :
    Program C C.Report → Option (Machine C)
  | .done r => some (m.update t (th.conclude (.ok r)))
  | .fail e => some (m.update t (th.conclude (.error (.error e))))
  | .crash message => some (m.update t (th.conclude (.error (.crash message))))
  | .act a rest => (m.perform I t th a).map (fun (r, m) => m.put t (.running (rest r)))
  | .call k rest => some (m.put t (.running ((I.answer k).attempt.bind rest)))
  | .resolve g rest => some (m.go t rest (g.control) [])

/-- The next step of thread `t`; none if it has ended, sleeps or has to wait. -/
def step (I : Implementation C) (m : Machine C) (t : ThreadId) : Option (Machine C) := do
  let th ← m.threads[t]?
  match th.activity with
  | .idle =>
    match th.todo with
    | [] => none
    | p :: rest => some (m.update t { th with todo := rest, activity := .running p })
  | .running p => m.runOwn I t th p
  | .resolving control frames next => m.advance t th next I frames control

def next? (I : Implementation C) (m : Machine C) (t : ThreadId) : Option (ThreadId × Machine C) :=
  (List.range m.threads.length).findSome? fun k =>
    let u := (t + k + 1) % m.threads.length
    (m.step I u).map (u, ·)

def run (I : Implementation C) : Nat → ThreadId → Machine C → Machine C
  | 0, _, m => m
  | n + 1, t, m =>
    match m.next? I t with
    | none => m
    | some (u, m) => m.run I n u

def start (state : C.State) : Machine C := ⟨.start state, [{ todo := [] }]⟩

def submit (m : Machine C) (p : Program C C.Report) : Machine C :=
  { m with threads := m.threads.modify 0 (fun th => { th with todo := th.todo ++ [p] }) }

end Machine

end Wiring
