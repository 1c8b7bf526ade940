import Wiring.Proofs.Plan
import Wiring.Resolution
import Wiring.World

/-!
What programs do beside others that only let objects grow. A program behaves if each of its accesses
is an allowed one and it ends as it should, whatever the others do in between.
-/
namespace Wiring

variable {C : Client} {α β : Type}

structure Growth where
  grows : List Value → List Value → Prop
  refl (o : List Value) : grows o o
  trans {o o' o'' : List Value} (h : grows o o') (h' : grows o' o'') : grows o o''

structure Setting (C : Client) extends Growth where
  reads : (a : Action C) → Option a.Reply
  asks : Goal → Prop
  answers : Goal → Except Failure Instance → List Value → Prop
  stays {g : Goal} {r : Except Failure Instance} {o o' : List Value} (h : grows o o')
    (ha : answers g r o) : answers g r o'

def Growth.alone (G : Growth) : Setting C :=
  { G with
    reads := fun _ => none
    asks := fun _ => False
    answers := fun _ _ _ => False
    stays := fun _ h => h }

/-- Begun with these objects, the program ends as `Q` says, with the objects that there are then. -/
inductive Behaves (I : Implementation C) (E : Setting C)
    (Q : Except Failure α → List Value → Prop) : Program C α → List Value → Prop
  | done {a o} (h : ∀ o', E.grows o o' → Q (.ok a) o') : Behaves I E Q (.done a) o
  | fail {e o} (h : ∀ o', E.grows o o' → Q (.error (.error e)) o') : Behaves I E Q (.fail e) o
  | crash {message o} (h : ∀ o', E.grows o o' → Q (.error (.crash message)) o') :
      Behaves I E Q (.crash message) o
  | read {a next r o} (ha : E.reads a = some r)
      (h : ∀ o', E.grows o o' → Behaves I E Q (next r) o') : Behaves I E Q (.act a next) o
  | allocate {type v} {next : Instance → Program C α} {o}
      (hg : ∀ o', E.grows o o' → E.grows o' (o' ++ [v]))
      (h : ∀ o', E.grows o o' → Behaves I E Q (next ⟨type, o'.length⟩) (o' ++ [v])) :
      Behaves I E Q (.act (.allocate type v) next) o
  | modify {object f} {next : Value → Program C α} {o}
      (hg : ∀ o', E.grows o o' → E.grows o' (o'.modify object f))
      (h : ∀ o', E.grows o o' →
        Behaves I E Q (next (o'.getD object default)) (o'.modify object f)) :
      Behaves I E Q (.act (.modify object f) next) o
  | update {f} {next : C.State → Program C α} {o}
      (h : ∀ s o', E.grows o o' → Behaves I E Q (next s) o') :
      Behaves I E Q (.act (.update f) next) o
  | note {r} {next : Unit → Program C α} {o}
      (h : ∀ o', E.grows o o' → Behaves I E Q (next ()) o') : Behaves I E Q (.act (.note r) next) o
  | emit {e} {next : Unit → Program C α} {o}
      (h : ∀ o', E.grows o o' → Behaves I E Q (next ()) o') : Behaves I E Q (.act (.emit e) next) o
  | call {k next o} (h : ∀ o', E.grows o o' → Behaves I E Q ((I.answer k).attempt.bind next) o') :
      Behaves I E Q (.call k next) o
  | resolve {g next o} (hg : E.asks g)
      (h : ∀ a o', E.grows o o' → E.answers g (Except.mapError .error a) o' →
        Behaves I E Q (next a) o')
      (hc : ∀ message o', E.grows o o' → E.answers g (.error (.crash message)) o' →
        Q (.error (.crash message)) o') :
      Behaves I E Q (.resolve g next) o

namespace Behaves

variable {I : Implementation C} {E : Setting C} {Q Q' : Except Failure α → List Value → Prop}
  {p : Program C α} {o o' : List Value}

theorem grows (h : Behaves I E Q p o) (ho : E.grows o o') : Behaves I E Q p o' := by
  cases h with
  | done h => exact .done fun _ h' => h _ (E.trans ho h')
  | fail h => exact .fail fun _ h' => h _ (E.trans ho h')
  | crash h => exact .crash fun _ h' => h _ (E.trans ho h')
  | read ha h => exact .read ha fun _ h' => h _ (E.trans ho h')
  | allocate hg h =>
    exact .allocate (fun _ h' => hg _ (E.trans ho h')) fun _ h' => h _ (E.trans ho h')
  | modify hg h => exact .modify (fun _ h' => hg _ (E.trans ho h')) fun _ h' => h _ (E.trans ho h')
  | update h => exact .update fun s _ h' => h s _ (E.trans ho h')
  | note h => exact .note fun _ h' => h _ (E.trans ho h')
  | emit h => exact .emit fun _ h' => h _ (E.trans ho h')
  | call h => exact .call fun _ h' => h _ (E.trans ho h')
  | resolve hg h hc =>
    exact .resolve hg (fun a _ h' => h a _ (E.trans ho h')) fun m _ h' => hc m _ (E.trans ho h')

theorem imp (h : Behaves I E Q p o) (hQ : ∀ r o', E.grows o o' → Q r o' → Q' r o') :
    Behaves I E Q' p o := by
  induction h with
  | done h => exact .done fun _ ho => hQ _ _ ho (h _ ho)
  | fail h => exact .fail fun _ ho => hQ _ _ ho (h _ ho)
  | crash h => exact .crash fun _ ho => hQ _ _ ho (h _ ho)
  | read ha h ih => exact .read ha fun _ ho => ih _ ho fun _ _ h' => hQ _ _ (E.trans ho h')
  | allocate hg h ih =>
    exact .allocate hg fun _ ho => ih _ ho fun _ _ h' => hQ _ _ (E.trans (E.trans ho (hg _ ho)) h')
  | modify hg h ih =>
    exact .modify hg fun _ ho => ih _ ho fun _ _ h' => hQ _ _ (E.trans (E.trans ho (hg _ ho)) h')
  | update h ih => exact .update fun s _ ho => ih s _ ho fun _ _ h' => hQ _ _ (E.trans ho h')
  | note h ih => exact .note fun _ ho => ih _ ho fun _ _ h' => hQ _ _ (E.trans ho h')
  | emit h ih => exact .emit fun _ ho => ih _ ho fun _ _ h' => hQ _ _ (E.trans ho h')
  | call h ih => exact .call fun _ ho => ih _ ho fun _ _ h' => hQ _ _ (E.trans ho h')
  | resolve hg h hc ih =>
    exact .resolve hg (fun a _ ho ha => ih a _ ho ha fun _ _ h' => hQ _ _ (E.trans ho h'))
      fun m _ ho ha => hQ _ _ ho (hc m _ ho ha)

theorem bind {f : α → Program C β} {Q : Except Failure β → List Value → Prop}
    (h : Behaves I E
      (fun r o => match r with
        | .ok a => Behaves I E Q (f a) o
        | .error e => Q (.error e) o) p o) : Behaves I E Q (p.bind f) o := by
  induction h with
  | done h => exact h _ (E.refl _)
  | fail h => exact .fail h
  | crash h => exact .crash h
  | read ha h ih => exact .read ha ih
  | allocate hg h ih => exact .allocate hg ih
  | modify hg h ih => exact .modify hg ih
  | update h ih => exact .update ih
  | note h ih => exact .note ih
  | emit h ih => exact .emit ih
  | call h ih =>
    refine .call fun o' ho => ?_
    have := ih o' ho
    rwa [Program.bind_assoc] at this
  | resolve hg h hc ih => exact .resolve hg ih hc

theorem ofExcept {a : Except Error α}
    (h : ∀ o', E.grows o o' → Q (Except.mapError .error a) o') :
    Behaves I E Q (.ofExcept a) o := by
  cases a with
  | ok a => exact .done h
  | error e => exact .fail h

theorem request {g : Goal} {Q : Except Failure Instance → List Value → Prop} (hg : E.asks g)
    (h : ∀ r o', E.grows o o' → E.answers g r o' → Q r o') :
    Behaves I E Q (Program.request g) o := by
  refine .resolve hg (fun a o' ho ha => ofExcept fun o'' ho' => ?_) fun m o' ho ha => h _ _ ho ha
  exact h _ _ (E.trans ho ho') (E.stays ho' ha)

theorem of_alone (h : Behaves I E.toGrowth.alone Q p o) : Behaves I E Q p o := by
  induction h with
  | done h => exact .done h
  | fail h => exact .fail h
  | crash h => exact .crash h
  | read ha h ih => cases ha
  | allocate hg h ih => exact .allocate hg ih
  | modify hg h ih => exact .modify hg ih
  | update h ih => exact .update ih
  | note h ih => exact .note ih
  | emit h ih => exact .emit ih
  | call h ih => exact .call ih
  | resolve hg h hc ih => exact hg.elim

end Behaves

end Wiring
