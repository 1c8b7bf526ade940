import Wiring.Resolution

/-!
Disciplines that code keeps to, whatever it is replied. What a discipline asks of accesses, calls
and requests is a parameter; composed code keeps to it if its parts do, and so does the library's
own code that fills parameters, builds services and constructs classes.
-/
namespace Wiring

variable {C : Client} {α β : Type}

def Event.Incidental : Event → Prop
  | loading | configured _ | usingOverride .. | matchedByType .. | narrowedByName .. | ambiguous ..
  | matchedByName .. | autowiring .. | usingDefault .. | installingDefault | resettingDefault =>
    True
  | _ => False

/-- What code may do in which state, and what it may rely on. It is at rest whenever it calls or
requests anything and when it ends. The code that it calls is counted as part of it if `bodies`
tells what that is, and is taken to answer as it should if not. -/
structure Discipline (C : Client) where
  State : Type
  rest : State
  action : State → Action C → Prop
  reply : (a : Action C) → a.Reply → Prop
  next : (a : Action C) → a.Reply → State
  code : C.Code → Prop
  value : Value → Prop
  handle : Instance → Prop
  type : TypeKey → Prop
  container : ContainerId → Prop
  bodies : Option (Implementation C)

structure Overrides.All (P : Instance → Prop) (o : Overrides) : Prop where
  positional {n i} (h : o.positional.get? n = some i) : P i
  named {name i} (h : o.named.get? name = some i) : P i

def Arguments.All (P : Instance → Prop) (args : Arguments) : Prop := ∀ x ∈ args.values, P x.2

namespace Overrides

variable {P : Instance → Prop} {o : Overrides} {i : Instance}

theorem all_empty (P : Instance → Prop) : All P ∅ := ⟨nofun, nofun⟩

theorem All.withName (h : o.All P) (hi : P i) (name : String) : (o.withName name i).All P where
  positional hn := h.positional hn
  named hn := by
    simp only [Overrides.withName, Table.get?_insert] at hn
    split at hn
    · cases hn
      exact hi
    · exact h.named hn

theorem All.lookup {n : Nat} {name : String} (h : o.All P) (hi : o.lookup n name = some i) :
    P i := by
  obtain hi | ⟨-, hi⟩ := Option.or_eq_some_iff.1 hi
  · exact h.positional hi
  · exact h.named hi

end Overrides

section

variable (D : Discipline C)

def Parameter.Meets (x : Parameter) : Prop :=
  (∀ i, x.default = some i → D.handle i) ∧ ∀ type, x.autowires? = some type → D.type type

def Rule.Meets : Rule → Prop
  | override i => D.handle i
  | default i => D.handle i
  | autowired type => D.type type
  | _ => True

def Goal.Meets : Goal → Prop
  | service _ _ o => o.All D.handle
  | .class c type o => D.container c ∧ D.type type ∧ o.All D.handle

def Call.Meets : Call C → Prop
  | make body c args => D.code body ∧ D.container c ∧ args.All D.handle
  | give body c args => D.code body ∧ D.container c ∧ args.All D.handle
  | manifest type => D.type type
  | construct type args => D.type type ∧ args.All D.handle

def Call.Answers : (k : Call C) → k.Reply → Prop
  | make .. => D.value
  | give .. => D.handle
  | manifest _ => fun (parameters : List Parameter) => ∀ x ∈ parameters, x.Meets D
  | construct .. => D.value

/-- From state `s` on the program keeps to the discipline, whatever it is replied that it may rely
on, and all that it ends with satisfies `Q`. -/
inductive Program.Obeys (Q : α → Prop) : D.State → Program C α → Prop
  | done {a} (h : Q a) : Obeys Q D.rest (.done a)
  | fail {e} : Obeys Q D.rest (.fail e)
  | crash {message} : Obeys Q D.rest (.crash message)
  | act {s a next} (ha : D.action s a) (h : ∀ r, D.reply a r → Obeys Q (D.next a r) (next r)) :
      Obeys Q s (.act a next)
  | call {k next} (hD : D.bodies = none) (hk : k.Meets D)
      (h : ∀ r, (∀ a, r = .ok a → k.Answers D a) → Obeys Q D.rest (next r)) :
      Obeys Q D.rest (.call k next)
  | expand {I k next} (hD : D.bodies = some I)
      (h : Obeys Q D.rest ((I.answer k).attempt.bind next)) : Obeys Q D.rest (.call k next)
  | resolve {g next} (hg : g.Meets D)
      (h : ∀ r, (∀ i, r = .ok i → D.handle i) → Obeys Q D.rest (next r)) :
      Obeys Q D.rest (.resolve g next)

def Discipline.Grants (a : Action C) (P : a.Reply → Prop) : Prop :=
  D.action D.rest a ∧ ∀ r, D.reply a r → D.next a r = D.rest ∧ P r

class Discipline.Lenient : Prop where
  tell {e} (he : e.Incidental) : D.Grants (.emit e) fun _ => True
  candidates (c : ContainerId) (type : TypeKey) : D.Grants (.candidates c type) fun _ => True
  lookup (c : ContainerId) (name : String) : D.Grants (.lookup c name) fun _ => True
  allocate (type : TypeKey) {v : Value} (h : D.value v) : D.Grants (.allocate type v) D.handle
  read (object : ObjectId) : D.Grants (.modify object id) D.value

end

namespace Program

theorem attempt_bind_attempt (p : Program C α) (f : Except Error α → Program C β) :
    (p.attempt.bind f).attempt = p.attempt.bind fun a => (f a).attempt := by
  induction p with
  | done a => rfl
  | fail e => rfl
  | crash s => rfl
  | act a next ih => simp only [attempt, bind, ih]
  | call k next ih => simp only [attempt, bind, ih]
  | resolve g next ih => simp only [attempt, bind, ih]

theorem insist_bind_attempt (p : Program C α) (f : Except Error α → Program C β) :
    (p.attempt.bind f).insist = p.attempt.bind fun a => (f a).insist := by
  induction p with
  | done a => rfl
  | fail e => rfl
  | crash s => rfl
  | act a next ih => simp only [attempt, bind, insist, ih]
  | call k next ih => simp only [attempt, bind, insist, ih]
  | resolve g next ih => simp only [attempt, bind, insist, ih]

namespace Obeys

variable {D : Discipline C} {Q Q' : α → Prop} {R : β → Prop} {s : D.State} {p : Program C α}

theorem bind {f : α → Program C β} (h : p.Obeys D Q s)
    (hf : ∀ a, Q a → (f a).Obeys D R D.rest) : (p.bind f).Obeys D R s := by
  induction h with
  | done h => exact hf _ h
  | fail => exact .fail
  | crash => exact .crash
  | act ha _ ih => exact .act ha ih
  | call hD hk _ ih => exact .call hD hk ih
  | expand hD _ ih => rw [Program.bind_assoc] at ih; exact .expand hD ih
  | resolve hg _ ih => exact .resolve hg ih

theorem answers {f : α → β} (h : p.Obeys D Q s) :
    (p.bind fun a => .done (f a)).Obeys D (fun _ => True) s := h.bind fun _ _ => .done trivial

theorem attempt (h : p.Obeys D Q s) : p.attempt.Obeys D (fun r => ∀ a, r = .ok a → Q a) s := by
  induction h with
  | done h => exact .done fun _ he => Except.ok.inj he ▸ h
  | fail => exact .done nofun
  | crash => exact .crash
  | act ha _ ih => exact .act ha ih
  | call hD hk _ ih => exact .call hD hk ih
  | expand hD _ ih => rw [attempt_bind_attempt] at ih; exact .expand hD ih
  | resolve hg _ ih => exact .resolve hg ih

theorem insist (h : p.Obeys D Q s) : p.insist.Obeys D Q s := by
  induction h with
  | done h => exact .done h
  | fail => exact .crash
  | crash => exact .crash
  | act ha _ ih => exact .act ha ih
  | call hD hk _ ih => exact .call hD hk ih
  | expand hD _ ih => rw [insist_bind_attempt] at ih; exact .expand hD ih
  | resolve hg _ ih => exact .resolve hg ih

theorem allow {action : D.State → Action C → Prop} (h : p.Obeys D Q s)
    (ha : ∀ s a, D.action s a → action s a) : p.Obeys { D with action } Q s := by
  induction h with
  | done h => exact .done h
  | fail => exact .fail
  | crash => exact .crash
  | act hact _ ih => exact .act (ha _ _ hact) ih
  | call hD hk _ ih => exact .call hD hk ih
  | expand hD _ ih => exact .expand hD ih
  | resolve hg _ ih => exact .resolve hg ih

theorem of_done {a : α} (h : (Program.done a : Program C α).Obeys D Q s) : s = D.rest ∧ Q a := by
  cases h with
  | done h => exact ⟨rfl, h⟩

theorem of_act {a : Action C} {next : a.Reply → Program C α}
    (h : (Program.act a next).Obeys D Q s) :
    D.action s a ∧ ∀ r, D.reply a r → (next r).Obeys D Q (D.next a r) := by
  cases h with
  | act ha h => exact ⟨ha, h⟩

theorem of_call {k : Call C} {next : Except Error k.Reply → Program C α}
    (h : (Program.call k next).Obeys D Q s) (hD : D.bodies = none) :
    s = D.rest ∧ k.Meets D ∧
      ∀ r, (∀ a, r = .ok a → k.Answers D a) → (next r).Obeys D Q D.rest := by
  cases h with
  | call _ hk h => exact ⟨rfl, hk, h⟩
  | expand hI => cases hD.symm.trans hI

theorem of_resolve {g : Goal} {next : Except Error Instance → Program C α}
    (h : (Program.resolve g next).Obeys D Q s) :
    s = D.rest ∧ g.Meets D ∧
      ∀ r, (∀ i, r = .ok i → D.handle i) → (next r).Obeys D Q D.rest := by
  cases h with
  | resolve hg h => exact ⟨rfl, hg, h⟩

theorem acts (h : p.Obeys D Q s) (hs : s ≠ D.rest) : ∃ a next, p = .act a next ∧ D.action s a := by
  cases h with
  | @act _ a next ha _ => exact ⟨a, next, rfl, ha⟩
  | _ => exact absurd rfl hs

theorem weaken (h : p.Obeys D Q s) (hQ : ∀ a, Q a → Q' a) : p.Obeys D Q' s := by
  rw [← p.bind_done]
  exact h.bind fun a ha => .done (hQ a ha)

theorem ofExcept {a : Except Error α} (h : ∀ b, a = .ok b → Q b) :
    (Program.ofExcept a : Program C α).Obeys D Q D.rest := by
  cases a with
  | ok b => exact .done (h b rfl)
  | error e => exact .fail

theorem acted {a : Action C} {P : a.Reply → Prop} {next : a.Reply → Program C α}
    (ha : D.Grants a P) (h : ∀ r, P r → (next r).Obeys D Q D.rest) :
    (Program.act a next).Obeys D Q D.rest := by
  refine .act ha.1 fun r hr => ?_
  obtain ⟨hrest, hP⟩ := ha.2 r hr
  exact hrest ▸ h r hP

theorem perform {a : Action C} {P : a.Reply → Prop} (ha : D.Grants a P) :
    (Program.perform a).Obeys D P D.rest := .acted ha fun _ => .done

theorem run {k : Call C} (hD : D.bodies = none) (hk : k.Meets D) :
    (Program.run k).Obeys D (k.Answers D) D.rest := .call hD hk fun _ => .ofExcept

theorem run_expanded {I : Implementation C} {k : Call C} {Q : k.Reply → Prop}
    (hD : D.bodies = some I) (h : (I.answer k).Obeys D Q D.rest) :
    (Program.run k).Obeys D Q D.rest :=
  .expand hD (h.attempt.bind fun _ ha => .ofExcept ha)

theorem request {g : Goal} (hg : g.Meets D) :
    (Program.request g : Program C Instance).Obeys D D.handle D.rest :=
  .resolve hg fun _ => .ofExcept

theorem get (c : ContainerId) (name : String) :
    (Container.get c name : Program C Instance).Obeys D D.handle D.rest :=
  .request (Overrides.all_empty D.handle)

theorem cast {i : Instance} (h : D.handle i) (type : TypeKey) (what : String) :
    (Program.ofExcept (i.cast type what) : Program C Instance).Obeys D D.handle D.rest := by
  apply ofExcept
  intro j hj
  obtain ⟨-, rfl⟩ := Instance.cast_eq_ok.1 hj
  exact h

variable [D.Lenient]

theorem tell {e : Event} (he : e.Incidental) (h : p.Obeys D Q D.rest) :
    ((emit e).bind fun _ => p).Obeys D Q D.rest :=
  .acted (Discipline.Lenient.tell he) fun _ _ => h

theorem allocate (type : TypeKey) {v : Value} (h : D.value v) :
    (Wiring.allocate type v : Program C Instance).Obeys D D.handle D.rest :=
  .perform (Discipline.Lenient.allocate type h)

theorem read (i : Instance) : (Wiring.read i : Program C Value).Obeys D D.value D.rest :=
  .perform (Discipline.Lenient.read i.object)

theorem copy (i : Instance) : (Wiring.copy i : Program C Instance).Obeys D D.handle D.rest :=
  (read i).bind fun _ => .allocate i.type

end Obeys

end Program

theorem Container.register_eq {name : String} (hname : name ≠ "") (c : ContainerId)
    (r : Registration C) :
    Container.register c name r =
      .act (.emit (.registering name r.shared r.provides)) fun _ =>
        .act (.insert c name r) fun (there : Bool) =>
          if there then emit (.replaced name) else .done () := by
  unfold Container.register
  rw [if_neg hname]
  rfl

section

variable {D : Discipline C} {c : ContainerId} {o : Overrides} {x : Parameter} {rule : Rule}
  {ps : List Parameter} {args : Arguments} {type : TypeKey}

theorem Parameter.Meets.fallback (h : x.Meets D) (named : Option TypeKey) :
    (x.fallback named).Meets D := by
  unfold Parameter.fallback
  split
  · trivial
  · split
    · next ht => exact h.2 _ ht
    · next hd => exact h.1 _ hd
    · trivial

theorem Parameter.ofCandidates?_meets {candidates : List String}
    (h : x.ofCandidates? candidates = some rule) : rule.Meets D := by
  unfold ofCandidates? at h
  split at h
  · cases h
  · cases h
    trivial
  · cases h
    split <;> trivial

structure Discipline.Constructs (D : Discipline C) (type : TypeKey) : Prop where
  manifest : (Program.run (.manifest type)).Obeys D (Call.Answers D _) D.rest
  construct {args : Arguments} (h : args.All D.handle) :
    (Program.run (.construct type args)).Obeys D (Call.Answers D _) D.rest

def Registration.Obeys (D : Discipline C) (c : ContainerId) (r : Registration C) : Prop :=
  match r.logic with
  | .made _ parameters body => (∀ x ∈ parameters, x.Meets D) ∧ ∀ args, args.All D.handle →
      (Program.run (.make body c args)).Obeys D (Call.Answers D _) D.rest
  | .given _ parameters body => (∀ x ∈ parameters, x.Meets D) ∧ ∀ args, args.All D.handle →
      (Program.run (.give body c args)).Obeys D (Call.Answers D _) D.rest
  | .constructed _ type => D.Constructs type
  | .literal value copies => (r.shared || !copies) = true → D.handle value

theorem Registration.Obeys.parameters {r : Registration C} (h : r.Obeys D c) :
    r.logic.parameters.Obeys D (∀ x ∈ ·, x.Meets D) D.rest := by
  obtain ⟨shared, logic⟩ := r
  cases logic with
  | made provides parameters body => exact .done h.1
  | given provides parameters body => exact .done h.1
  | constructed provides type => exact h.manifest
  | literal value copies => exact .done nofun

variable [D.Lenient]

namespace Rule

theorem among_obeys (c : ContainerId) (hx : x.Meets D) (candidates : List String) :
    Program.Obeys D (Rule.Meets D) D.rest
      (match x.ofCandidates? candidates with
        | some rule => pure rule
        | none => do
          return x.fallback ((← Program.perform (.lookup c x.name)).map (·.2.provides))) := by
  split
  · next h => exact .done (Parameter.ofCandidates?_meets h)
  · exact .acted (Discipline.Lenient.lookup c x.name) fun _ _ => .done (hx.fallback _)

theorem choose_obeys (c : ContainerId) (ho : o.All D.handle) (hx : x.Meets D) (position : Nat) :
    (Rule.choose c o position x).Obeys D (Rule.Meets D) D.rest := by
  unfold Rule.choose
  split
  · next hi => exact .done (ho.lookup hi)
  · dsimp only
    split
    · exact .acted (Discipline.Lenient.candidates c _) fun _ _ => among_obeys c hx _
    · exact among_obeys c hx []

theorem follow_obeys (hc : D.container c) (h : rule.Meets D) (target : String) (position : Nat) :
    (rule.follow c target position x).Obeys D D.handle D.rest := by
  cases rule with
  | override i => exact .tell trivial (.done h)
  | onlyOfType service => exact .tell trivial (.get c service)
  | narrowed => exact .tell trivial (.get c x.name)
  | ambiguous candidates => exact .tell trivial .fail
  | named => exact .tell trivial (.get c x.name)
  | autowired type => exact .tell trivial (.request ⟨hc, h, Overrides.all_empty D.handle⟩)
  | default i => exact .tell trivial (.done h)
  | unresolvable => exact .fail

end Rule

theorem fillFrom_obeys (hc : D.container c) (ho : o.All D.handle)
    (hx : ∀ x ∈ ps, x.Meets D) (target : String) (position : Nat) :
    (fillFrom c target o position ps).Obeys D (∀ x ∈ ·, D.handle x.2) D.rest := by
  induction ps generalizing position with
  | nil => exact .done nofun
  | cons x rest ih =>
    have hchoose := Rule.choose_obeys c ho (hx x List.mem_cons_self) position
    have hfill : (fill c target o position x).Obeys D D.handle D.rest :=
      hchoose.bind fun _ hr => Rule.follow_obeys hc hr target position
    refine hfill.bind fun i hi => ?_
    refine (ih (fun y hy => hx y (List.mem_cons_of_mem x hy)) _).bind fun values hvalues => ?_
    exact .done (List.forall_mem_cons.2 ⟨hi, hvalues⟩)

theorem fillAll_obeys (hc : D.container c) (ho : o.All D.handle)
    (hx : ∀ x ∈ ps, x.Meets D) (target : String) :
    (fillAll c target ps o).Obeys D (Arguments.All D.handle) D.rest :=
  (fillFrom_obeys hc ho hx target 0).bind fun _ hvalues => .done hvalues

theorem Registration.Obeys.invoke {r : Registration C} (h : r.Obeys D c)
    (ha : args.All D.handle) :
    (r.logic.invoke r.shared c args).Obeys D D.handle D.rest := by
  obtain ⟨shared, logic⟩ := r
  cases logic with
  | made provides parameters body => exact (h.2 args ha).bind fun _ hv => .allocate provides hv
  | given provides parameters body => exact h.2 args ha
  | constructed provides type => exact (h.construct ha).bind fun _ hv => .allocate type hv
  | literal value copies =>
    simp only [Logic.invoke]
    split
    · next hs => exact .done (h hs)
    · exact .copy value

theorem build_obeys {r : Registration C} {s : D.State} {name : String}
    (hs : D.action s (.emit (.building name)))
    (hn : ∀ u : Unit, D.next (.emit (.building name)) u = D.rest) (h : r.Obeys D c)
    (hc : D.container c) (ho : o.All D.handle) : (build c name r o).Obeys D D.handle s := by
  refine .act hs fun u _ => hn u ▸ h.parameters.bind fun ps hx => ?_
  refine (fillAll_obeys hc ho hx name).bind fun args ha => ?_
  exact (h.invoke ha).bind fun i hi => .cast hi r.provides _

theorem construct_obeys (h : D.Constructs type) (hc : D.container c) (ho : o.All D.handle) :
    (construct c type o : Program C Instance).Obeys D D.handle D.rest := by
  refine h.manifest.bind fun ps hx => ?_
  refine (fillAll_obeys hc ho hx type.name).bind fun args ha => ?_
  exact (h.construct ha).bind fun _ hv => .allocate type hv

theorem callMethod_obeys {Q : α → Prop} {body : Arguments → Program C α} (hc : D.container c)
    (ho : o.All D.handle) (hx : ∀ x ∈ ps, x.Meets D)
    (hb : ∀ args, args.All D.handle → (body args).Obeys D Q D.rest) (name : String) :
    (callMethod c type name ps o body).Obeys D Q D.rest :=
  (fillAll_obeys hc ho hx _).bind hb

end

end Wiring
