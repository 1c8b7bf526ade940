import Wiring.Proofs.Discipline
import Wiring.Proofs.Replacement

namespace Wiring

variable {C : Client} {α : Type}

def Action.AddsNothing : Action C → Prop
  | .insert .. | .newContainer | .settleDefault | .await _ | .awaitWaiters .. | .spawn _
  | .join _ =>
    False
  | _ => True

section

variable (I : Implementation C) (size : Nat) (types : List TypeKey)

/-- Classes are asked for if they are among these, and of containers among the first ones. The code
that is called counts as well. -/
def Discipline.finite : Discipline C where
  State := Unit
  rest := ()
  action _ a := a.AddsNothing
  reply _ _ := True
  next _ _ := ()
  code _ := True
  value _ := True
  handle _ := True
  type t := t ∈ types
  container c := c < size
  bodies := some I

abbrev Program.AsksFinitely (Q : α → Prop) (p : Program C α) : Prop :=
  p.Obeys (.finite I size types) Q ()

end

def Parameter.Wires (types : List TypeKey) (p : Parameter) : Prop :=
  ∀ type, p.autowires? = some type → type ∈ types

def Logic.AsksFinitely (I : Implementation C) (size : Nat) (types : List TypeKey) :
    Logic C → Prop
  | made _ parameters body => (∀ p ∈ parameters, p.Wires types) ∧ ∀ c args, c < size →
      (I.make body c args).AsksFinitely I size types fun _ => True
  | given _ parameters body => (∀ p ∈ parameters, p.Wires types) ∧ ∀ c args, c < size →
      (I.give body c args).AsksFinitely I size types fun _ => True
  | constructed _ type => type ∈ types
  | literal .. => True

structure Classes (I : Implementation C) (size : Nat) (types : List TypeKey) : Prop where
  manifest {type : TypeKey} (h : type ∈ types) :
    (I.manifest type).AsksFinitely I size types fun parameters => ∀ p ∈ parameters, p.Wires types
  construct {type : TypeKey} (h : type ∈ types) (args : Arguments) :
    (I.construct type args).AsksFinitely I size types fun _ => True

section

variable {I : Implementation C} {size : Nat} {types : List TypeKey} {c : ContainerId}
  {type : TypeKey}

instance : (Discipline.finite I size types).Lenient where
  tell _ := ⟨trivial, fun _ _ => ⟨rfl, trivial⟩⟩
  candidates _ _ := ⟨trivial, fun _ _ => ⟨rfl, trivial⟩⟩
  lookup _ _ := ⟨trivial, fun _ _ => ⟨rfl, trivial⟩⟩
  allocate _ _ _ := ⟨trivial, fun _ _ => ⟨rfl, trivial⟩⟩
  read _ := ⟨trivial, fun _ _ => ⟨rfl, trivial⟩⟩

theorem Overrides.all_true (o : Overrides) : o.All fun _ => True :=
  ⟨fun _ => trivial, fun _ => trivial⟩

theorem Parameter.Wires.meets {p : Parameter} (h : p.Wires types) :
    p.Meets (.finite I size types) := ⟨fun _ _ => trivial, h⟩

theorem Classes.constructs (hI : Classes I size types) (ht : type ∈ types) :
    (Discipline.finite I size types).Constructs type where
  manifest := .run_expanded rfl ((hI.manifest ht).weaken fun _ hp p hmem => (hp p hmem).meets)
  construct {args} _ := .run_expanded rfl (hI.construct ht args)

theorem Logic.AsksFinitely.obeys {r : Registration C}
    (h : r.logic.AsksFinitely I size types) (hI : Classes I size types) (hc : c < size) :
    r.Obeys (.finite I size types) c := by
  obtain ⟨shared, logic⟩ := r
  cases logic with
  | made provides parameters body =>
    exact ⟨fun p hp => (h.1 p hp).meets, fun args _ => .run_expanded rfl (h.2 c args hc)⟩
  | given provides parameters body =>
    exact ⟨fun p hp => (h.1 p hp).meets, fun args _ => .run_expanded rfl (h.2 c args hc)⟩
  | constructed provides type => exact hI.constructs h
  | literal value copies => exact fun _ => trivial

theorem build_asksFinitely {r : Registration C} (h : r.logic.AsksFinitely I size types)
    (hI : Classes I size types) (hc : c < size) (name : String) (o : Overrides) :
    (build c name r o).AsksFinitely I size types fun _ => True :=
  build_obeys trivial (fun _ => rfl) (h.obeys hI hc) hc o.all_true

theorem construct_asksFinitely (hI : Classes I size types) (ht : type ∈ types) (hc : c < size)
    (o : Overrides) : (construct c type o : Program C Instance).AsksFinitely I size types
      fun _ => True :=
  construct_obeys (hI.constructs ht) hc o.all_true

end

def World.targets (w : World C) (types : List TypeKey) : Stack :=
  (List.range w.containers.length).flatMap fun c =>
    (w.services c).keys.map (c, .service ·) ++ types.map (c, .class ·.name)

structure World.Kept (I : Implementation C) (size : Nat) (types : List TypeKey) (U : Stack)
    (w : World C) : Prop where
  length : w.containers.length = size
  services {c : ContainerId} {name : String} {e : EntryId}
    (h : (w.services c).get? name = some e) : c < size ∧ (c, .service name) ∈ U
  classes {c : ContainerId} {type : TypeKey} (hc : c < size) (ht : type ∈ types) :
    (c, .class type.name) ∈ U
  finite {c : ContainerId} {name : String} {e : EntryId} {x : Entry C}
    (h : w.entry? c name = some (e, x)) : x.registration.logic.AsksFinitely I size types

namespace World.Kept

variable {I : Implementation C} {size : Nat} {types : List TypeKey} {U : Stack} {w w' : World C}

theorem of_eq (h : w.Kept I size types U) (hc : w'.containers = w.containers)
    (he : w'.entries = w.entries) : w'.Kept I size types U where
  length := hc ▸ h.length
  services hs := h.services (by simpa only [World.services, hc] using hs)
  classes := h.classes
  finite hx := h.finite (by simpa only [World.entry?, World.services, hc, he] using hx)

theorem setCache (h : w.Kept I size types U) (e : EntryId) (i : Instance) :
    (w.setCache e i).Kept I size types U where
  length := h.length
  services hs := h.services hs
  classes := h.classes
  finite hx := by
    obtain ⟨y, hy, hr⟩ := World.Agrees.entry? (.setCache w e i) hx
    exact hr ▸ h.finite hy

theorem erase (h : w.Kept I size types U) (c : ContainerId) (name : String) :
    (w.erase c name).Kept I size types U where
  length := List.length_set.trans h.length
  services {d other e} hs := by
    rw [World.get?_erase] at hs
    split at hs
    · cases hs
    · exact h.services hs
  classes := h.classes
  finite hx := by
    obtain ⟨hs, hx⟩ := World.entry?_eq_some.1 hx
    rw [World.get?_erase] at hs
    split at hs
    · cases hs
    · exact h.finite (World.entry?_eq_some.2 ⟨hs, hx⟩)

theorem perform {m m' : Machine C} {t : ThreadId} {th : Thread C} {a : Action C} {r : a.Reply}
    (h : m.world.Kept I size types U) (ha : a.AddsNothing)
    (hp : m.perform I t th a = some (r, m')) : m'.world.Kept I size types U := by
  cases a with
  | erase c name => cases hp; exact h.erase c name
  | insert | newContainer | settleDefault | await | awaitWaiters | spawn | join => exact ha.elim
  | _ => cases hp; exact h.of_eq rfl rfl

end World.Kept

theorem World.mem_targets {w : World C} {types : List TypeKey} {c : ContainerId} {x : Target} :
    (c, x) ∈ w.targets types ↔ c < w.containers.length ∧
      ((∃ name, x = .service name ∧ (w.services c).contains name) ∨
        ∃ type ∈ types, x = .class type.name) := by
  simp only [targets, List.mem_flatMap, List.mem_range, List.mem_append, List.mem_map,
    Prod.mk.injEq]
  constructor
  · rintro ⟨d, hd, ⟨name, hname, rfl, rfl⟩ | ⟨type, ht, rfl, rfl⟩⟩
    · exact ⟨hd, .inl ⟨name, rfl, (Table.mem_keys_iff _ _).1 hname⟩⟩
    · exact ⟨hd, .inr ⟨type, ht, rfl⟩⟩
  · rintro ⟨hc, ⟨name, rfl, hname⟩ | ⟨type, ht, rfl⟩⟩
    · exact ⟨c, hc, .inl ⟨name, (Table.mem_keys_iff _ _).2 hname, rfl, rfl⟩⟩
    · exact ⟨c, hc, .inr ⟨type, ht, rfl, rfl⟩⟩

theorem World.kept {I : Implementation C} {types : List TypeKey} {w : World C}
    (h : ∀ c name e x, w.entry? c name = some (e, x) →
      x.registration.logic.AsksFinitely I w.containers.length types) :
    w.Kept I w.containers.length types (w.targets types) where
  length := rfl
  services {c name e} hs := by
    have hc : c < w.containers.length := by
      by_contra hout
      rw [World.services, List.getD_eq_getElem?_getD,
        List.getElem?_eq_none (Nat.le_of_not_lt hout)] at hs
      cases hs
    refine ⟨hc, World.mem_targets.2 ⟨hc, .inl ⟨name, rfl, ?_⟩⟩⟩
    rw [Table.contains, hs]
    rfl
  classes hc ht := World.mem_targets.2 ⟨hc, .inr ⟨_, ht, rfl⟩⟩
  finite hx := h _ _ _ _ hx

end Wiring
