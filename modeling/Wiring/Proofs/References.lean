import Wiring.Proofs.Discipline

namespace Wiring

variable {C : Client} {α β ε : Type}

/-- The objects that a client's pieces of code, its states and its reports refer to. -/
structure Reach (C : Client) where
  code : C.Code → ObjectId → Prop
  state : C.State → ObjectId → Prop
  report : C.Report → ObjectId → Prop

section

variable (p : ObjectId)

def Value.Lacks : Value → Prop
  | .record fields => ∀ f ∈ fields, f.2.object ≠ p
  | _ => True

def Parameter.Lacks (x : Parameter) : Prop := ∀ i, x.default = some i → i.object ≠ p

def Lacking (r : Except ε Instance) : Prop := ∀ i, r = .ok i → i.object ≠ p

end

section

variable (R : Reach C) (p : ObjectId)

def Logic.Lacks : Logic C → Prop
  | made _ parameters body => (∀ x ∈ parameters, x.Lacks p) ∧ ¬ R.code body p
  | given _ parameters body => (∀ x ∈ parameters, x.Lacks p) ∧ ¬ R.code body p
  | constructed .. => True
  | literal value _ => value.object ≠ p

def Registration.Conceals (stored : Bool) (r : Registration C) : Prop :=
  r.logic.Lacks R p ∨
    stored = true ∧ r.shared = false ∧ ∃ type, r.logic = .literal ⟨type, p⟩ true

def Action.Conceals (stored : Bool) : Action C → Prop
  | insert _ _ r => r.Conceals R p stored
  | allocate _ v => v.Lacks p
  | modify q f => (q = p → f = id) ∧ ∀ v, v.Lacks p → (f v).Lacks p
  | update f => ∀ s, ¬ R.state s p → ¬ R.state (f s) p
  | note r => ¬ R.report r p
  | spawn jobs => ∀ steps ∈ jobs, ∀ body ∈ steps, ¬ R.code body p
  | _ => True

def Action.Hides : (a : Action C) → a.Reply → Prop
  | cached _, i => ∀ j, i = some j → j.object ≠ p
  | allocate .., i => i.object ≠ p
  | modify .., v => v.Lacks p
  | update _, s => ¬ R.state s p
  | _, _ => True

def Discipline.lacking (stored : Bool) : Discipline C where
  State := Unit
  rest := ()
  action _ a := a.Conceals R p stored
  reply a r := a.Hides R p r
  next _ _ := ()
  code body := ¬ R.code body p
  value v := v.Lacks p
  handle i := i.object ≠ p
  type _ := True
  container _ := True
  bodies := none

abbrev Program.Lacks (stored : Bool) (Q : α → Prop) (q : Program C α) : Prop :=
  q.Obeys (.lacking R p stored) Q ()

/-- The client's code does not make up handles: it comes by an object only if it is told of it. -/
structure Implementation.Lacks (stored : Bool) (I : Implementation C) : Prop where
  answer {k : Call C} (h : k.Meets (.lacking R p stored)) :
    (I.answer k).Lacks R p stored (k.Answers (.lacking R p stored))
  job {body : C.Code} (h : ¬ R.code body p) : (I.job body).Lacks R p stored (¬ R.report · p)

end

variable {R : Reach C} {p : ObjectId} {stored : Bool}

instance : (Discipline.lacking R p stored).Lenient where
  tell _ := ⟨trivial, fun _ _ => ⟨rfl, trivial⟩⟩
  candidates _ _ := ⟨trivial, fun _ _ => ⟨rfl, trivial⟩⟩
  lookup _ _ := ⟨trivial, fun _ _ => ⟨rfl, trivial⟩⟩
  allocate _ _ h := ⟨h, fun _ hi => ⟨rfl, hi⟩⟩
  -- The object itself may be read as well: what it holds is put elsewhere.
  read _ := ⟨⟨fun _ => rfl, fun _ hv => hv⟩, fun _ hv => ⟨rfl, hv⟩⟩

theorem Registration.Conceals.relax {r : Registration C} (h : r.Conceals R p false) :
    r.Conceals R p stored := .inl (h.resolve_right fun hs => Bool.false_ne_true hs.1)

theorem Action.Conceals.relax {a : Action C} (h : a.Conceals R p false) :
    a.Conceals R p stored := by
  cases a with
  | insert c name r => exact Registration.Conceals.relax h
  | _ => exact h

namespace Program.Lacks

variable {Q : α → Prop} {q : Program C α}

theorem relax (h : q.Lacks R p false Q) : q.Lacks R p stored Q :=
  h.allow fun _ _ ha => Action.Conceals.relax ha

end Program.Lacks

theorem Implementation.Lacks.relax {I : Implementation C} (h : I.Lacks R p false) :
    I.Lacks R p stored := ⟨fun hk => (h.answer hk).relax, fun hb => (h.job hb).relax⟩

theorem Container.register_lacks {r : Registration C} (h : r.Conceals R p stored)
    (c : ContainerId) (name : String) :
    (Container.register c name r).Lacks R p stored fun _ => True := by
  by_cases hname : name = ""
  · subst hname
    exact .fail
  · rw [Container.register_eq hname]
    refine .act trivial fun _ _ => .act h fun (there : Bool) _ => ?_
    cases there with
    | false => exact .done trivial
    | true => exact .act trivial fun _ _ => .done trivial

theorem Discipline.lacking_constructs (type : TypeKey) :
    (Discipline.lacking R p stored).Constructs type where
  manifest := .run rfl trivial
  construct h := .run rfl ⟨trivial, h⟩

theorem Parameter.Lacks.meets {x : Parameter} (h : x.Lacks p) :
    x.Meets (.lacking R p stored) := ⟨h, fun _ _ => trivial⟩

theorem Registration.Conceals.obeys {r : Registration C} (h : r.Conceals R p stored)
    (c : ContainerId) : r.Obeys (.lacking R p stored) c := by
  obtain ⟨shared, logic⟩ := r
  obtain h | ⟨-, rfl, type, rfl⟩ := h
  · cases logic with
    | made provides parameters body =>
      exact ⟨fun x hx => (h.1 x hx).meets, fun args ha => .run rfl ⟨h.2, trivial, ha⟩⟩
    | given provides parameters body =>
      exact ⟨fun x hx => (h.1 x hx).meets, fun args ha => .run rfl ⟨h.2, trivial, ha⟩⟩
    | constructed provides type => exact Discipline.lacking_constructs type
    | literal value copies => exact fun _ => h
  · exact nofun

end Wiring
