import Wiring.Proofs.Interpretation
import Wiring.Proofs.Run

/-!
Contracts: what requests come to in a registry that does not change, whatever has been asked for
before, and that builds keep to if the requests that they make in turn do.
-/
namespace Wiring

variable {C : Client} {I : Implementation C} {w : World C} {c : ContainerId}

structure World.Shares (w : World C) (c : ContainerId) (name : String) (e : EntryId)
    (entry : Entry C) : Prop where
  entry? : w.entry? c name = some (e, entry)
  shared : entry.registration.shared = true

def World.Plain (w : World C) (c : ContainerId) (x : Item) : Prop :=
  ∀ name e entry, x = .service name → w.entry? c name = some (e, entry) →
    entry.registration.shared = false

theorem World.Plain.of_entry {name : String} {e : EntryId} {entry : Entry C}
    (he : w.entry? c name = some (e, entry)) (hs : entry.registration.shared = false) :
    w.Plain c (.service name) := by
  rintro _ _ _ ⟨⟩ he'
  cases he.symm.trans he'
  exact hs

theorem World.Shares.not_plain {name : String} {e : EntryId} {entry : Entry C}
    (h : w.Shares c name e entry) : ¬ w.Plain c (.service name) := by
  intro hp
  have hs := hp name e entry rfl h.entry?
  rw [h.shared] at hs
  cases hs

/-- What requests come to in an unchanged registry. While `S` is under way, `x` arises if it may
come to be asked for, and begun then it asks for these targets. A service that is built may be
cached if it may be `kept`, and what is `made` may be found in the cache. -/
structure Contract (I : Implementation C) (w : World C) (c : ContainerId) extends Growth where
  arises : List Item → Item → Prop
  asks : List Item → Item → Item → Prop
  fair : List Item → Item → Except Failure Instance → List Value → Prop
  built : List Item → String → Except Failure Instance → List Value → Prop
  made : String → Instance → List Value → Prop
  kept : String → Prop
  stays {S : List Item} (x : Item) (r : Except Failure Instance) (o o' : List Value)
    (ho : grows o o') (h : fair S x r o) : fair S x r o'
  endures {S : List Item} {name : String} {r : Except Failure Instance} {o o' : List Value}
    (ho : grows o o') (h : built S name r o) : built S name r o'
  lasts {name : String} {i : Instance} {o o' : List Value} (ho : grows o o')
    (h : made name i o) : made name i o'
  asked {S : List Item} {x y : Item} (h : arises S x) (hx : ¬ x.Barred S) (hy : asks S x y) :
    arises (x :: S) y
  missing {S : List Item} {name : String} {o : List Value} (he : w.entry? c name = none)
    (h : arises S (.service name)) :
    fair S (.service name) (.error (.error (.serviceNotFound name))) o
  hit {S : List Item} {name : String} {i : Instance} {o : List Value}
    (h : arises S (.service name)) (hi : made name i o) : fair S (.service name) (.ok i) o
  plain {S : List Item} {name : String} {r : Except Failure Instance} {o : List Value}
    (hp : w.Plain c (.service name)) (h : built S name r o) : fair S (.service name) r o
  fails {S : List Item} {name : String} {f : Failure} {o : List Value}
    (h : built S name (.error f) o) : fair S (.service name) (.error f) o
  keep {S : List Item} {name : String} {e : EntryId} {entry : Entry C} {i : Instance}
    {o : List Value} (he : w.Shares c name e entry) (hk : kept name)
    (h : built S name (.ok i) o) : made name i o
  build {S : List Item} {name : String} {e : EntryId} {entry : Entry C} {o : List Value}
    (he : w.entry? c name = some (e, entry)) (h : arises S (.service name))
    (hx : ¬ (Item.service name).Barred S) (ho : grows w.objects o) :
    Behaves I (toGrowth.setting w c (under c (.service name :: S)) (asks S (.service name))
        (fair (.service name :: S)) stays)
      (built S name) (build c name entry.registration ∅) o
  construction {S : List Item} {type : TypeKey} {o : List Value} (h : arises S (.class type))
    (hx : ¬ (Item.class type).Barred S) (ho : grows w.objects o) :
    Behaves I (toGrowth.setting w c (under c (.class type :: S)) (asks S (.class type))
        (fair (.class type :: S)) stays)
      (fair S (.class type)) (construct c type ∅) o

namespace Contract

variable (P : Contract I w c)

def setting (x : Item) (S : List Item) : Setting C :=
  P.toGrowth.setting w c (under c (x :: S)) (P.asks S x) (P.fair (x :: S)) P.stays

def Rooted : Prop := ∀ name, P.arises [] (.service name)

/-- What else a thread on its own needs of a contract: to be refused, as what it asks for is under
way already, is fair. -/
structure Solitary : Prop where
  again {S : List Item} {x : Item} {chain : List String} {o : List Value} (h : P.arises S x)
    (hc : (under c S).cycle? c x.target = some chain) :
    P.fair S x (.error (.error (.circularDependency chain))) o
  kept (name : String) : P.kept name

structure Holds (w' : World C) : Prop where
  agrees : w.Agrees w'
  grown : P.grows w.objects w'.objects
  cached {name : String} {e : EntryId} {entry : Entry C} {i : Instance}
    (he : w.entry? c name = some (e, entry)) (hi : w'.cached e = some i) :
    P.made name i w'.objects

namespace Holds

variable {P} {w₁ w₂ : World C}

theorem of_builds (h : P.Holds w₁) (g : BuildGraph) (waits : List String) :
    P.Holds { w₁ with builds := g, waits := waits } where
  agrees := ⟨h.agrees.containers, h.agrees.registrations⟩
  grown := h.grown
  cached he hi := h.cached he hi

theorem grows (h : P.Holds w₁)
    (hw : w₂ = { w₁ with objects := w₂.objects, state := w₂.state })
    (hg : P.grows w₁.objects w₂.objects) : P.Holds w₂ := by
  refine ⟨?_, P.trans h.grown hg, fun {name e entry i} he hi => ?_⟩
  · rw [hw]
    exact ⟨h.agrees.containers, h.agrees.registrations⟩
  · rw [hw] at hi
    exact P.lasts hg (h.cached he hi)

theorem setCache {name : String} {e : EntryId} {entry : Entry C} {i : Instance} (h : P.Holds w₁)
    (hu : w.Unbuilt) (he : w.entry? c name = some (e, entry)) (hi : P.made name i w₁.objects) :
    P.Holds (w₁.setCache e i) where
  agrees := h.agrees.trans (.setCache _ _ _)
  grown := h.grown
  cached := by
    intro name' e' entry' j he' hj
    rw [World.cached_setCache] at hj
    split at hj
    · next hsame =>
      cases hj
      have hget := (World.entry?_eq_some.1 he).1
      have hget' := (World.entry?_eq_some.1 he').1
      cases hu.single hget (hsame.1 ▸ hget')
      exact hi
    · exact h.cached he' hj

end Holds

end Contract

end Wiring
