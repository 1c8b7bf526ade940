import Wiring.Service

namespace Wiring

abbrev Stack := List (ContainerId × Target)

namespace Stack

def isResolving (s : Stack) (c : ContainerId) (name : String) : Bool :=
  s.contains (c, .service name)

def targets (s : Stack) (c : ContainerId) : List Target :=
  (s.reverse.filter (·.1 = c)).map Prod.snd

/-- The way from the target back to itself, if it is on the stack already. -/
def cycle? (s : Stack) (c : ContainerId) (target : Target) : Option (List String) :=
  if s.contains (c, target) then
    some (((s.targets c).dropWhile (· ≠ target) ++ [target]).map Target.label)
  else none

theorem cycle?_eq_none {s : Stack} {c : ContainerId} {x : Target} :
    s.cycle? c x = none ↔ (c, x) ∉ s := by
  unfold cycle?
  split <;> simp_all

def enter (s : Stack) (c : ContainerId) (target : Target) : Stack := (c, target) :: s

def leave (s : Stack) (c : ContainerId) : Stack := s.eraseP (·.1 = c)

theorem leave_enter (s : Stack) (c : ContainerId) (target : Target) :
    (s.enter c target).leave c = s := by simp [enter, leave]

end Stack

end Wiring
