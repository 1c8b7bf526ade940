import Wiring.Config.Text
import Wiring.Proofs.Discipline

namespace Wiring

variable {C : Client} {α β : Type}

inductive Due
  | nothing
  | build (name : String)
  | registration (name : String) (shared : Bool) (provides : TypeKey)
  | event (e : Event)

def Event.Announces : Event → Prop
  | registering .. => True
  | e => e.Incidental

def Action.Incidental : Action C → Prop
  | insert .. | erase .. => False
  | emit e => e.Incidental
  | _ => True

def Action.Settles : Due → Action C → Prop
  | .nothing, insert .. => False
  | .nothing, emit e => e.Announces
  | .nothing, _ => True
  | .build name, a => a = emit (.building name)
  | .registration name shared provides, a =>
    ∃ c r, a = insert c name r ∧ r.shared = shared ∧ r.provides = provides
  | .event e, a => a = emit e

def Action.due : (a : Action C) → a.Reply → Due
  | insert _ name _ => fun (there : Bool) => if there then .event (.replaced name) else .nothing
  | erase _ name => fun (there : Bool) => if there then .event (.removed name) else .nothing
  | emit (.registering name shared provides) => fun _ => .registration name shared provides
  | _ => fun _ => .nothing

def Discipline.announcing : Discipline C where
  State := Due
  rest := .nothing
  action := Action.Settles
  reply _ _ := True
  next := Action.due
  code _ := True
  value _ := True
  handle _ := True
  type _ := True
  container _ := True
  bodies := none

abbrev Program.Announces (p : Program C α) : Prop := p.Obeys .announcing (fun _ => True) .nothing

def Implementation.Announces (I : Implementation C) : Prop := ∀ k, (I.answer k).Announces

theorem Event.Incidental.announces {e : Event} (h : e.Incidental) : e.Announces := by
  cases e with
  | registering => trivial
  | _ => exact h

theorem Action.Incidental.settles {a : Action C} (h : a.Incidental) : a.Settles .nothing := by
  cases a with
  | insert => exact h.elim
  | emit e => exact Event.Incidental.announces h
  | _ => trivial

theorem Action.Incidental.due_eq {a : Action C} (h : a.Incidental) (r : a.Reply) :
    a.due r = .nothing := by
  cases a with
  | insert | erase => exact h.elim
  | emit e =>
    cases e with
    | registering => exact h.elim
    | _ => rfl
  | _ => rfl

theorem Action.Incidental.granted {a : Action C} (h : a.Incidental) :
    Discipline.announcing.Grants a fun _ => True :=
  ⟨h.settles, fun r _ => ⟨h.due_eq r, trivial⟩⟩

instance : (Discipline.announcing (C := C)).Lenient where
  tell {e} he := Action.Incidental.granted (a := .emit e) he
  candidates c type := Action.Incidental.granted (a := .candidates c type) trivial
  lookup c name := Action.Incidental.granted (a := .lookup c name) trivial
  allocate type v _ := Action.Incidental.granted (a := .allocate type v) trivial
  read object := Action.Incidental.granted (a := .modify object id) trivial

theorem Parameter.announcing (x : Parameter) : x.Meets (Discipline.announcing (C := C)) :=
  ⟨fun _ _ => trivial, fun _ _ => trivial⟩

theorem Overrides.announcing (o : Overrides) : o.All (Discipline.announcing (C := C)).handle :=
  ⟨fun _ => trivial, fun _ => trivial⟩

theorem Call.announcing (k : Call C) : k.Meets .announcing := by
  cases k with
  | make | give => exact ⟨trivial, trivial, fun _ _ => trivial⟩
  | manifest => trivial
  | construct => exact ⟨trivial, fun _ _ => trivial⟩

theorem Call.answers_announcing (k : Call C) (a : k.Reply) : k.Answers .announcing a := by
  cases k with
  | manifest => exact fun x _ => x.announcing
  | _ => trivial

theorem Goal.announcing (g : Goal) : g.Meets (Discipline.announcing (C := C)) := by
  cases g with
  | service c name o => exact o.announcing
  | «class» c type o => exact ⟨trivial, trivial, o.announcing⟩

theorem Program.Announces.perform {a : Action C} (ha : a.Incidental) : (perform a).Announces :=
  Obeys.perform ha.granted

theorem Program.Announces.ofExcept (a : Except Error α) : (ofExcept a : Program C α).Announces :=
  Obeys.ofExcept fun _ _ => trivial

theorem Program.Announces.run (k : Call C) : (run k).Announces :=
  (Obeys.run rfl k.announcing).weaken fun _ _ => trivial

theorem Program.Announces.request (g : Goal) : (request g : Program C Instance).Announces :=
  Obeys.request g.announcing

theorem Program.Obeys.called {I : Implementation C} {k : Call C} {due : Due}
    {next : Except Error k.Reply → Program C α} (hI : I.Announces)
    (h : (Program.call k next).Obeys .announcing (fun _ => True) due) :
    due = .nothing ∧ ((I.answer k).attempt.bind next).Announces := by
  obtain ⟨rfl, -, hnext⟩ := h.of_call rfl
  exact ⟨rfl, (hI k).attempt.bind fun r _ => hnext r fun _ _ => k.answers_announcing _⟩

theorem Program.Obeys.asked {g : Goal} {due : Due}
    {next : Except Error Instance → Program C α}
    (h : (Program.resolve g next).Obeys .announcing (fun _ => True) due) :
    due = .nothing ∧ ∀ r, (next r).Announces := by
  obtain ⟨rfl, -, hnext⟩ := h.of_resolve
  exact ⟨rfl, fun r => hnext r fun _ _ => trivial⟩

theorem Registration.announcing (r : Registration C) (c : ContainerId) :
    r.Obeys .announcing c := by
  obtain ⟨shared, logic⟩ := r
  cases logic with
  | made provides parameters body =>
    exact ⟨fun x _ => x.announcing, fun args _ => .run rfl (Call.announcing _)⟩
  | given provides parameters body =>
    exact ⟨fun x _ => x.announcing, fun args _ => .run rfl (Call.announcing _)⟩
  | constructed provides type =>
    exact ⟨.run rfl (Call.announcing _), fun _ => .run rfl (Call.announcing _)⟩
  | literal value copies => exact fun _ => trivial

theorem build_announces (c : ContainerId) (name : String) (r : Registration C) (o : Overrides) :
    (build c name r o).Obeys .announcing (fun _ => True) (.build name) :=
  build_obeys rfl (fun _ => rfl) (r.announcing c) trivial o.announcing

theorem construct_announces (c : ContainerId) (type : TypeKey) (o : Overrides) :
    (construct c type o : Program C Instance).Announces :=
  construct_obeys ⟨.run rfl (Call.announcing _), fun _ => .run rfl (Call.announcing _)⟩ trivial
    o.announcing

theorem callMethod_announces {body : Arguments → Program C α} (h : ∀ args, (body args).Announces)
    (c : ContainerId) (type : TypeKey) (name : String) (ps : List Parameter) (o : Overrides) :
    (callMethod c type name ps o body).Announces :=
  callMethod_obeys trivial o.announcing (fun x _ => x.announcing) (fun args _ => h args) name

theorem Logic.parameters_announces (logic : Logic C) : logic.parameters.Announces := by
  cases logic with
  | constructed provides type => exact .run _
  | _ => exact .done trivial

namespace Container

theorem register_announces (c : ContainerId) (name : String) (r : Registration C) :
    (register c name r).Announces := by
  by_cases hname : name = ""
  · subst hname
    exact .fail
  · rw [register_eq hname]
    refine .act trivial fun _ _ => .act ⟨c, r, rfl, rfl, rfl⟩ fun (there : Bool) _ => ?_
    cases there with
    | false => exact .done trivial
    | true => exact .act rfl fun _ _ => .done trivial

theorem remove_announces (c : ContainerId) (name : String) :
    (remove c name : Program C Bool).Announces := by
  refine .act trivial fun (removed : Bool) _ => ?_
  cases removed with
  | false => exact .done trivial
  | true => exact .act rfl fun _ _ => .done trivial

theorem has_announces (c : ContainerId) (name : String) :
    (has c name : Program C Bool).Announces :=
  .acted (Discipline.Lenient.lookup c name) fun _ _ => .done trivial

theorem names_announces (c : ContainerId) : (names c : Program C (List String)).Announces :=
  .perform (a := .names c) trivial

theorem getAs_announces (c : ContainerId) (name : String) (type : TypeKey) :
    (getAs c name type : Program C Instance).Announces :=
  (Program.Obeys.get c name).bind fun _ _ => .ofExcept fun _ _ => trivial

theorem describe_announces (c : ContainerId) (name : String) :
    (describe c name : Program C (Option ServiceInfo)).Announces := by
  refine .acted (Discipline.Lenient.lookup c name) fun found _ => ?_
  cases found with
  | none => exact .done trivial
  | some found =>
    obtain ⟨e, r⟩ := found
    refine r.logic.parameters_announces.bind fun _ _ => ?_
    exact (Program.Announces.perform (a := .cached e) trivial).bind fun _ _ => .done trivial

end Container

namespace DefaultContainer

theorem install_announces (c : ContainerId) : (install c : Program C _).Announces :=
  .tell trivial (Program.Announces.perform (a := .installDefault c) trivial)

theorem current_announces : (current : Program C _).Announces :=
  .perform (a := .currentDefault) trivial

theorem getOrInstall_announces : (getOrInstall : Program C ContainerId).Announces := by
  refine current_announces.bind fun found _ => ?_
  cases found with
  | some c => exact .done trivial
  | none => exact Program.Announces.perform (a := .settleDefault) trivial

theorem reset_announces : (reset : Program C _).Announces :=
  .tell trivial (Program.Announces.perform (a := .resetDefault) trivial)

end DefaultContainer

theorem insistFrom_announces (c : ContainerId) (type : TypeKey) (name : String) :
    (insistFrom c type name : Program C Instance).Announces := by
  refine (Container.getAs_announces c name type).attempt.bind fun found _ => ?_
  cases found with
  | ok i => exact .done trivial
  | error e => exact .crash

theorem insistDefault_announces (type : TypeKey) (name : String) :
    (insistDefault type name : Program C Instance).Announces := by
  refine DefaultContainer.current_announces.bind fun found _ => ?_
  cases found with
  | some c => exact insistFrom_announces c type name
  | none => exact .crash

namespace Config

theorem registerAll_announces (c : ContainerId) (entries : List Entry) :
    (registerAll c entries : Program C Unit).Announces := by
  induction entries with
  | nil => exact .done trivial
  | cons e rest ih =>
    refine (Program.Obeys.allocate _ trivial).bind fun i _ => ?_
    exact (Container.register_announces c e.name _).bind fun _ _ => ih

theorem apply_announces (c : ContainerId) (entries : List Entry) :
    (apply c entries : Program C Nat).Announces :=
  (registerAll_announces c entries).bind fun _ _ => .tell trivial (.done trivial)

theorem load_announces (parse : Parser) (c : ContainerId) (text : String) :
    (load parse c text : Program C Nat).Announces :=
  (Program.Announces.ofExcept _).bind fun _ _ => apply_announces c _

theorem loadFile_announces (parse : Parser) (c : ContainerId) (file : File) :
    (loadFile parse c file : Program C Nat).Announces :=
  .tell trivial ((Program.Announces.ofExcept _).bind fun _ _ => load_announces parse c _)

end Config

end Wiring
