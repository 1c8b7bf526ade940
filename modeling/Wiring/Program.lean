import Wiring.Service
import Wiring.Event

namespace Wiring

variable {C : Client} {α β : Type}

/-- One indivisible access to the world. -/
inductive Action (C : Client)
  | insert (c : ContainerId) (name : String) (registration : Registration C)
  | erase (c : ContainerId) (name : String)
  | names (c : ContainerId)
  | candidates (c : ContainerId) (type : TypeKey)
  | lookup (c : ContainerId) (name : String)
  | cached (e : EntryId)
  | newContainer
  | allocate (type : TypeKey) (value : Value)
  | modify (object : ObjectId) (f : Value → Value)
  | installDefault (c : ContainerId)
  | currentDefault
  | settleDefault
  | resetDefault
  | update (f : C.State → C.State)
  | await (ready : C.State → Bool)
  | awaitWaiters (service : String) (count : Nat)
  | note (r : C.Report)
  | emit (e : Event)
  | spawn (jobs : List (List C.Code))
  | join (threads : List ThreadId)

def Action.Reply : Action C → Type
  | insert .. => Bool
  | erase .. => Bool
  | names _ => List String
  | candidates .. => List String
  | lookup .. => Option (EntryId × Registration C)
  | cached _ => Option Instance
  | newContainer => ContainerId
  | allocate .. => Instance
  | modify .. => Value
  | installDefault _ => Option ContainerId
  | currentDefault => Option ContainerId
  | settleDefault => ContainerId
  | resetDefault => Option ContainerId
  | update _ => C.State
  | await _ => Unit
  | awaitWaiters .. => Unit
  | note _ => Unit
  | emit _ => Unit
  | spawn _ => List ThreadId
  | join _ => Unit

inductive Goal
  | service (c : ContainerId) (name : String) (overrides : Overrides)
  | class (c : ContainerId) (type : TypeKey) (overrides : Overrides)

inductive Call (C : Client)
  | make (body : C.Code) (c : ContainerId) (args : Arguments)
  | give (body : C.Code) (c : ContainerId) (args : Arguments)
  | manifest (type : TypeKey)
  | construct (type : TypeKey) (args : Arguments)

def Call.Reply : Call C → Type
  | make .. => Value
  | give .. => Instance
  | manifest _ => List Parameter
  | construct .. => Value

inductive Program (C : Client) (α : Type) : Type
  | done (a : α)
  | fail (e : Error)
  | crash (message : String)
  | act (a : Action C) (next : a.Reply → Program C α)
  | call (k : Call C) (next : Except Error k.Reply → Program C α)
  | resolve (g : Goal) (next : Except Error Instance → Program C α)

namespace Program

def bind : Program C α → (α → Program C β) → Program C β
  | done a, f => f a
  | fail e, _ => fail e
  | crash m, _ => crash m
  | act a next, f => act a (fun r => (next r).bind f)
  | call k next, f => call k (fun r => (next r).bind f)
  | resolve g next, f => resolve g (fun r => (next r).bind f)

instance : Monad (Program C) where
  pure := done
  bind := bind

/-- Catches errors; a crash is not caught. -/
def attempt : Program C α → Program C (Except Error α)
  | done a => done (.ok a)
  | fail e => done (.error e)
  | crash m => crash m
  | act a next => act a (fun r => (next r).attempt)
  | call k next => call k (fun r => (next r).attempt)
  | resolve g next => resolve g (fun r => (next r).attempt)

def insist : Program C α → Program C α
  | done a => done a
  | fail e => crash e.message
  | crash m => crash m
  | act a next => act a (fun r => (next r).insist)
  | call k next => call k (fun r => (next r).insist)
  | resolve g next => resolve g (fun r => (next r).insist)

def ofExcept : Except Error α → Program C α
  | .ok a => done a
  | .error e => fail e

def perform (a : Action C) : Program C a.Reply := act a done

def run (k : Call C) : Program C k.Reply := call k ofExcept

def request (g : Goal) : Program C Instance := resolve g ofExcept

theorem bind_done (p : Program C α) : p.bind done = p := by
  induction p with
  | done a => rfl
  | fail e => rfl
  | crash m => rfl
  | act a next ih => simp [bind, ih]
  | call k next ih => simp [bind, ih]
  | resolve g next ih => simp [bind, ih]

theorem bind_assoc {γ : Type} (p : Program C α) (f : α → Program C β) (g : β → Program C γ) :
    (p.bind f).bind g = p.bind (fun a => (f a).bind g) := by
  induction p with
  | done a => rfl
  | fail e => rfl
  | crash m => rfl
  | act a next ih => simp [bind, ih]
  | call k next ih => simp [bind, ih]
  | resolve g next ih => simp [bind, ih]

end Program

structure Implementation (C : Client) where
  make : C.Code → ContainerId → Arguments → Program C Value
  give : C.Code → ContainerId → Arguments → Program C Instance
  manifest : TypeKey → Program C (List Parameter)
  construct : TypeKey → Arguments → Program C Value
  job : C.Code → Program C C.Report

def Implementation.answer (I : Implementation C) : (k : Call C) → Program C k.Reply
  | .make body c args => I.make body c args
  | .give body c args => I.give body c args
  | .manifest type => I.manifest type
  | .construct type args => I.construct type args

end Wiring
