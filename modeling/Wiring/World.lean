import Wiring.Build.Graph
import Wiring.Stack

namespace Wiring

/-- A registration and what it has built for everyone. It outlives its removal for those who are
still building it. -/
structure Entry (C : Client) where
  registration : Registration C
  cache : Option Instance

structure World (C : Client) where
  containers : List (Table String EntryId)
  entries : List (Entry C)
  objects : List Value
  builds : BuildGraph
  current : Option ContainerId
  state : C.State
  waits : List String

namespace World

variable {C : Client}

def start (state : C.State) : World C := ⟨[∅], [], [], ∅, none, state, []⟩

def services (w : World C) (c : ContainerId) : Table String EntryId := w.containers.getD c ∅

def entry? (w : World C) (c : ContainerId) (name : String) : Option (EntryId × Entry C) := do
  let e ← (w.services c).get? name
  return (e, ← w.entries[e]?)

def setServices (w : World C) (c : ContainerId) (t : Table String EntryId) : World C :=
  { w with containers := w.containers.set c t }

def insert (w : World C) (c : ContainerId) (name : String) (r : Registration C) : World C :=
  ({ w with entries := w.entries ++ [⟨r, none⟩] } : World C).setServices c
    ((w.services c).insert name w.entries.length)

def erase (w : World C) (c : ContainerId) (name : String) : World C :=
  w.setServices c ((w.services c).erase name)

def sortNames (names : List String) : List String := names.mergeSort (· ≤ ·)

def names (w : World C) (c : ContainerId) : List String := sortNames (w.services c).keys

def provides (w : World C) (e : EntryId) (type : TypeKey) : Bool :=
  w.entries[e]?.any (·.registration.provides = type)

def candidates (w : World C) (stack : Stack) (c : ContainerId) (type : TypeKey) : List String :=
  sortNames (((w.services c).keysWhere (w.provides · type)).filter (!stack.isResolving c ·))

def cached (w : World C) (e : EntryId) : Option Instance := w.entries[e]?.bind (·.cache)

def setCache (w : World C) (e : EntryId) (i : Instance) : World C :=
  { w with entries := w.entries.modify e (fun entry => { entry with cache := some i }) }

def allocate (w : World C) (type : TypeKey) (v : Value) : Instance × World C :=
  (⟨type, w.objects.length⟩, { w with objects := w.objects ++ [v] })

def value (w : World C) (o : ObjectId) : Value := w.objects.getD o default

def newContainer (w : World C) : ContainerId × World C :=
  (w.containers.length, { w with containers := w.containers ++ [∅] })

end World

end Wiring
