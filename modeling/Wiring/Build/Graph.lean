import Wiring.Service

namespace Wiring

structure BuildKey where
  container : ContainerId
  name : String
  deriving DecidableEq, Repr

structure BuildGraph where
  owners : Table BuildKey ThreadId
  waiting : Table ThreadId BuildKey

namespace BuildGraph

instance : EmptyCollection BuildGraph := ⟨⟨∅, ∅⟩⟩

/-- Goes from a build to its owner, to the build that this one waits for, and so on, for at most so
many rounds; `walked` names the builds on the way. -/
def walk (g : BuildGraph) (me : ThreadId) : Nat → BuildKey → List String → Option (List String)
  | 0, _, _ => none
  | rounds + 1, key, walked =>
    match g.owners.get? key with
    | none => none
    | some owner =>
      if owner = me then some (key.name :: walked)
      else match g.waiting.get? owner with
        | none => none
        | some next => g.walk me rounds next (walked ++ [next.name])

/-- The names of the builds on the way from `key` back to `me`, if `me` waiting for `key` would
close a cycle. -/
def waitCycle (g : BuildGraph) (key : BuildKey) (me : ThreadId) : Option (List String) :=
  g.walk me (g.waiting.size + 1) key [key.name]

def claim (g : BuildGraph) (key : BuildKey) (me : ThreadId) : BuildGraph :=
  { g with owners := g.owners.insert key me }

def release (g : BuildGraph) (key : BuildKey) : BuildGraph :=
  { g with owners := g.owners.erase key }

def wait (g : BuildGraph) (me : ThreadId) (key : BuildKey) : BuildGraph :=
  { g with waiting := g.waiting.insert me key }

def leave (g : BuildGraph) (me : ThreadId) : BuildGraph :=
  { g with waiting := g.waiting.erase me }

end BuildGraph

end Wiring
