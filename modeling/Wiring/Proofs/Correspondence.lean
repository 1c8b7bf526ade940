import Mathlib.Data.List.Forall2
import Wiring.Config.Text

/-!
Code of one container in two runs at a time. The runs number entries and objects differently; what
is paired with one another plays the same part in both of them.
-/
namespace Wiring

variable {C : Client} {α β γ δ ε : Type}

inductive Except.Rel (E : ε → ε → Prop) (Q : α → β → Prop) : Except ε α → Except ε β → Prop
  | ok {a b} (h : Q a b) : Rel E Q (.ok a) (.ok b)
  | error {e e'} (h : E e e') : Rel E Q (.error e) (.error e')

/-- Which objects and entries of the first run stand for which ones of the second, one for one, and
which states of the client code cannot tell apart. -/
structure Likeness (C : Client) where
  object : ObjectId → ObjectId → Prop
  entry : EntryId → EntryId → Prop
  state : C.State → C.State → Prop
  object_unique {o o' p p' : ObjectId} (h : object o p) (h' : object o' p') : o = o' ↔ p = p'
  entry_unique {e e' f f' : EntryId} (h : entry e f) (h' : entry e' f') : e = e' ↔ f = f'

variable (ρ : Likeness C) (c : ContainerId)

structure Instance.Alike (i j : Instance) : Prop where
  type : i.type = j.type
  object : ρ.object i.object j.object

def FieldsAlike : List (String × Instance) → List (String × Instance) → Prop :=
  List.Forall₂ fun p q => p.1 = q.1 ∧ p.2.Alike ρ q.2

inductive Value.Alike : Value → Value → Prop
  | plain {v} (h : ∀ fields, v ≠ .record fields) : Alike v v
  | record {l l'} (h : FieldsAlike ρ l l') : Alike (.record l) (.record l')

structure Parameter.Alike (p q : Parameter) : Prop where
  name : p.name = q.name
  declared : p.declared = q.declared
  default : Option.Rel (Instance.Alike ρ) p.default q.default

def ParametersAlike : List Parameter → List Parameter → Prop := List.Forall₂ (Parameter.Alike ρ)

structure Overrides.Alike (o o' : Overrides) : Prop where
  isEmpty : o.isEmpty = o'.isEmpty
  positional (n : Nat) :
    Option.Rel (Instance.Alike ρ) (o.positional.get? n) (o'.positional.get? n)
  named (n : String) : Option.Rel (Instance.Alike ρ) (o.named.get? n) (o'.named.get? n)

structure Arguments.Alike (a b : Arguments) : Prop where
  target : a.target = b.target
  values : FieldsAlike ρ a.values b.values

inductive Logic.Alike : Logic C → Logic C → Prop
  | made {provides l l' body} (h : ParametersAlike ρ l l') :
      Alike (.made provides l body) (.made provides l' body)
  | given {provides l l' body} (h : ParametersAlike ρ l l') :
      Alike (.given provides l body) (.given provides l' body)
  | constructed {provides type} : Alike (.constructed provides type) (.constructed provides type)
  | literal {i j copies} (h : i.Alike ρ j) : Alike (.literal i copies) (.literal j copies)

structure Registration.Alike (r s : Registration C) : Prop where
  shared : r.shared = s.shared
  logic : r.logic.Alike ρ s.logic

inductive Rule.Alike : Rule → Rule → Prop
  | override {i j} (h : i.Alike ρ j) : Alike (.override i) (.override j)
  | default {i j} (h : i.Alike ρ j) : Alike (.default i) (.default j)
  | same {r} (ho : ∀ i, r ≠ .override i) (hd : ∀ i, r ≠ .default i) : Alike r r

inductive Action.Alike : (a b : Action C) → (a.Reply → b.Reply → Prop) → Prop
  | insert {name r s} (h : r.Alike ρ s) : Alike (.insert c name r) (.insert c name s) Eq
  | erase {name} : Alike (.erase c name) (.erase c name) Eq
  | names : Alike (.names c) (.names c) Eq
  | candidates {type} : Alike (.candidates c type) (.candidates c type) Eq
  | lookup {name} : Alike (.lookup c name) (.lookup c name)
      (Option.Rel fun x y => ρ.entry x.1 y.1 ∧ x.2.Alike ρ y.2)
  | cached {e f} (h : ρ.entry e f) : Alike (.cached e) (.cached f) (Option.Rel (Instance.Alike ρ))
  | allocate {type v v'} (h : v.Alike ρ v') :
      Alike (.allocate type v) (.allocate type v') (Instance.Alike ρ)
  | modify {o p f g} (ho : ρ.object o p) (h : ∀ v v' : Value, v.Alike ρ v' → (f v).Alike ρ (g v')) :
      Alike (.modify o f) (.modify p g) (Value.Alike ρ)
  | update {f g} (h : ∀ s s', ρ.state s s' → ρ.state (f s) (g s')) :
      Alike (.update f) (.update g) ρ.state
  | note {r} : Alike (.note r) (.note r) Eq
  | emit {e} : Alike (.emit e) (.emit e) Eq

inductive Call.Alike : (k l : Call C) → (k.Reply → l.Reply → Prop) → Prop
  | make {body a b} (h : a.Alike ρ b) : Alike (.make body c a) (.make body c b) (Value.Alike ρ)
  | give {body a b} (h : a.Alike ρ b) : Alike (.give body c a) (.give body c b) (Instance.Alike ρ)
  | manifest {type} : Alike (.manifest type) (.manifest type) (ParametersAlike ρ)
  | construct {type a b} (h : a.Alike ρ b) :
      Alike (.construct type a) (.construct type b) (Value.Alike ρ)

inductive Goal.Alike : Goal → Goal → Prop
  | service {name o o'} (h : o.Alike ρ o') : Alike (.service c name o) (.service c name o')
  | class {type o o'} (h : o.Alike ρ o') : Alike (.class c type o) (.class c type o')

/-- How code of two runs is compared: which containers it may use, which accesses play the same part
in both runs with what their replies have in common, and which errors and crashes are taken for one
another. -/
structure Comparison (C : Client) extends Likeness C where
  uses : ContainerId → Prop
  action : (a b : Action C) → (a.Reply → b.Reply → Prop) → Prop
  error : Error → Error → Prop
  crash : String → String → Prop
  within {c : ContainerId} {a b : Action C} {Rep : a.Reply → b.Reply → Prop} (hc : uses c)
    (h : a.Alike toLikeness c b Rep) : action a b Rep
  error_refl (e : Error) : error e e

/-- The programs do the same as long as they get the same replies; all that they end with is in the
relation `Q`. -/
inductive Program.Corresponds (κ : Comparison C) (Q : α → β → Prop) :
    Program C α → Program C β → Prop
  | done {a b} (h : Q a b) : Corresponds κ Q (.done a) (.done b)
  | fail {e e'} (h : κ.error e e') : Corresponds κ Q (.fail e) (.fail e')
  | crash {s s'} (h : κ.crash s s') : Corresponds κ Q (.crash s) (.crash s')
  | act {a b Rep next next'} (ha : κ.action a b Rep)
      (h : ∀ r s, Rep r s → Corresponds κ Q (next r) (next' s)) :
      Corresponds κ Q (.act a next) (.act b next')
  | call {c k l Rep next next'} (hc : κ.uses c) (hk : k.Alike κ.toLikeness c l Rep)
      (h : ∀ r s, Except.Rel κ.error Rep r s → Corresponds κ Q (next r) (next' s)) :
      Corresponds κ Q (.call k next) (.call l next')
  | resolve {c g g' next next'} (hc : κ.uses c) (hg : g.Alike κ.toLikeness c g')
      (h : ∀ r s, Except.Rel κ.error (Instance.Alike κ.toLikeness) r s →
        Corresponds κ Q (next r) (next' s)) : Corresponds κ Q (.resolve g next) (.resolve g' next')

def Likeness.confined : Comparison C where
  toLikeness := ρ
  uses d := d = c
  action := Action.Alike ρ c
  error := Eq
  crash := Eq
  within hc h := hc ▸ h
  error_refl _ := rfl

abbrev Program.Alike (Q : α → β → Prop) (p : Program C α) (q : Program C β) : Prop :=
  p.Corresponds (ρ.confined c) Q q

def Call.Confined (I : Implementation C) (k : Call C) : Prop :=
  ∀ l Rep, k.Alike ρ c l Rep → (I.answer k).Alike ρ c Rep (I.answer l)

variable {ρ c} {κ : Comparison C} {Q Q' : α → β → Prop} {R : γ → δ → Prop} {p : Program C α}
  {q : Program C β} {i j : Instance} {o o' : Overrides} {args args' : Arguments} {x y : Parameter}
  {l l' : List Parameter} {r s : Registration C}

namespace Program.Corresponds

theorem bind {f : α → Program C γ} {g : β → Program C δ} (h : p.Corresponds κ Q q)
    (hf : ∀ a b, Q a b → (f a).Corresponds κ R (g b)) :
    (p.bind f).Corresponds κ R (q.bind g) := by
  induction h with
  | done h => exact hf _ _ h
  | fail h => exact .fail h
  | crash h => exact .crash h
  | act ha _ ih => exact .act ha ih
  | call hc hk _ ih => exact .call hc hk ih
  | resolve hc hg _ ih => exact .resolve hc hg ih

theorem attempt (h : p.Corresponds κ Q q) :
    p.attempt.Corresponds κ (Except.Rel κ.error Q) q.attempt := by
  induction h with
  | done h => exact .done (.ok h)
  | fail h => exact .done (.error h)
  | crash h => exact .crash h
  | act ha _ ih => exact .act ha ih
  | call hc hk _ ih => exact .call hc hk ih
  | resolve hc hg _ ih => exact .resolve hc hg ih

theorem ofExcept {a : Except Error α} {b : Except Error β} (h : Except.Rel κ.error Q a b) :
    Program.Corresponds κ Q (.ofExcept a) (.ofExcept b) := by
  cases h with
  | ok h => exact .done h
  | error h => exact .fail h

section

variable (hc : κ.uses c)

include hc

theorem perform {a b : Action C} {Rep : a.Reply → b.Reply → Prop} {f : a.Reply → Program C α}
    {g : b.Reply → Program C β} (ha : a.Alike κ.toLikeness c b Rep)
    (h : ∀ r s, Rep r s → (f r).Corresponds κ Q (g s)) :
    ((Program.perform a).bind f).Corresponds κ Q ((Program.perform b).bind g) :=
  .act (κ.within hc ha) h

theorem tell (e : Event) (h : p.Corresponds κ Q q) :
    ((emit e).bind fun _ => p).Corresponds κ Q ((emit e).bind fun _ => q) :=
  perform hc .emit fun _ _ _ => h

theorem run {k l : Call C} {Rep : k.Reply → l.Reply → Prop} {f : k.Reply → Program C α}
    {g : l.Reply → Program C β} (hk : k.Alike κ.toLikeness c l Rep)
    (h : ∀ r s, Rep r s → (f r).Corresponds κ Q (g s)) :
    ((Program.run k).bind f).Corresponds κ Q ((Program.run l).bind g) := by
  refine .call hc hk fun r s hrs => ?_
  cases hrs with
  | ok hrs => exact h _ _ hrs
  | error he => exact .fail he

theorem request {g g' : Goal} (hg : g.Alike κ.toLikeness c g') :
    (Program.request g : Program C Instance).Corresponds κ (Instance.Alike κ.toLikeness)
      (.request g') :=
  .resolve hc hg fun _ _ => .ofExcept

theorem allocate (type : TypeKey) {v v' : Value} (h : v.Alike κ.toLikeness v') :
    (Wiring.allocate type v : Program C Instance).Corresponds κ (Instance.Alike κ.toLikeness)
      (Wiring.allocate type v') := .act (κ.within hc (.allocate h)) fun _ _ => .done

theorem copy (h : i.Alike κ.toLikeness j) :
    (Wiring.copy i : Program C Instance).Corresponds κ (Instance.Alike κ.toLikeness)
      (Wiring.copy j) := by
  refine perform hc (.modify h.object fun _ _ hv => hv) fun v v' hv => ?_
  rw [h.type]
  exact allocate hc _ hv

end

end Program.Corresponds

theorem Overrides.Alike.empty : Overrides.Alike ρ ∅ ∅ := ⟨rfl, fun _ => .none, fun _ => .none⟩

theorem Overrides.Alike.lookup (h : o.Alike ρ o') (n : Nat) (name : String) :
    Option.Rel (Instance.Alike ρ) (o.lookup n name) (o'.lookup n name) := by
  have hp := h.positional n
  unfold Overrides.lookup
  generalize o.positional.get? n = a, o'.positional.get? n = b at hp
  cases hp with
  | some hi => exact .some hi
  | none => exact h.named name

theorem Instance.Alike.cast (h : i.Alike κ.toLikeness j) (type : TypeKey) (what : String) :
    Except.Rel κ.error (Instance.Alike κ.toLikeness) (i.cast type what) (j.cast type what) := by
  unfold Instance.cast
  rw [h.type]
  split
  · exact .ok h
  · exact .error (κ.error_refl _)

theorem Logic.Alike.provides {a b : Logic C} (h : a.Alike ρ b) : a.provides = b.provides := by
  cases h with
  | literal h => exact h.type
  | _ => rfl

theorem Registration.Alike.provides (h : r.Alike ρ s) : r.provides = s.provides := h.logic.provides

section

variable (c) {rule rule' : Rule} {target : String} {position : Nat} {name : String} {type : TypeKey}

theorem Parameter.Alike.type? (h : x.Alike ρ y) : x.type? = y.type? := by
  rw [Parameter.type?, h.declared, Parameter.type?]

theorem Parameter.Alike.fallback (h : x.Alike ρ y) (named : Option TypeKey) :
    (x.fallback named).Alike ρ (y.fallback named) := by
  have haccepts : x.accepts = y.accepts := funext fun t => by
    rw [Parameter.accepts, h.type?, Parameter.accepts]
  have hautowires : x.autowires? = y.autowires? := by
    rw [Parameter.autowires?, h.declared, Parameter.autowires?]
  have hd := h.default
  unfold Parameter.fallback
  rw [haccepts, hautowires]
  generalize x.default = a, y.default = b at hd
  split
  · exact .same nofun nofun
  · cases y.autowires? with
    | some type => exact .same nofun nofun
    | none =>
      cases hd with
      | some hi => exact .default hi
      | none => exact .same nofun nofun

theorem Parameter.ofCandidates?_same {candidates : List String}
    (h : x.ofCandidates? candidates = some rule) : rule.Alike ρ rule := by
  unfold ofCandidates? at h
  split at h
  · cases h
  · cases h; exact .same nofun nofun
  · cases h
    split <;> exact .same nofun nofun

theorem Parameter.Alike.ofCandidates? (h : x.Alike ρ y) (candidates : List String) :
    x.ofCandidates? candidates = y.ofCandidates? candidates := by
  unfold Parameter.ofCandidates?
  rw [h.name]

theorem Parameter.Alike.fallback_found (h : x.Alike ρ y)
    {a b : Option (EntryId × Registration C)}
    (hab : Option.Rel (fun x y => ρ.entry x.1 y.1 ∧ x.2.Alike ρ y.2) a b) :
    (x.fallback (a.map (·.2.provides))).Alike ρ (y.fallback (b.map (·.2.provides))) := by
  cases hab with
  | none => exact h.fallback none
  | @some a b hab =>
    rw [Option.map_some, Option.map_some, hab.2.provides]
    exact h.fallback _

end

section

variable (hc : κ.uses c) {rule rule' : Rule}

include hc

theorem Rule.among_corresponds (h : x.Alike κ.toLikeness y) (candidates : List String) :
    Program.Corresponds κ (Rule.Alike κ.toLikeness)
      (match x.ofCandidates? candidates with
        | some rule => pure rule
        | none => do
          return x.fallback ((← Program.perform (C := C) (.lookup c y.name)).map (·.2.provides)))
      (match y.ofCandidates? candidates with
        | some rule => pure rule
        | none => do
          return y.fallback
            ((← Program.perform (C := C) (.lookup c y.name)).map (·.2.provides))) := by
  rw [h.ofCandidates?]
  split
  · next hy => exact .done (Parameter.ofCandidates?_same hy)
  · exact .perform hc .lookup fun _ _ hab => .done (h.fallback_found hab)

theorem Rule.choose_corresponds (ho : o.Alike κ.toLikeness o') (h : x.Alike κ.toLikeness y)
    (position : Nat) :
    (choose c o position x : Program C Rule).Corresponds κ (Rule.Alike κ.toLikeness)
      (choose c o' position y) := by
  have hl := ho.lookup position y.name
  unfold choose
  rw [h.name, h.type?]
  generalize o.lookup position y.name = a, o'.lookup position y.name = b at hl
  cases hl with
  | some hi => exact .done (.override hi)
  | none =>
    dsimp only
    split
    · exact .perform hc .candidates fun _ _ he => he ▸ among_corresponds hc h _
    · exact among_corresponds hc h []

theorem Container.get_corresponds (name : String) :
    (get c name : Program C Instance).Corresponds κ (Instance.Alike κ.toLikeness) (get c name) :=
  .request hc (.service .empty)

theorem Rule.follow_corresponds (hr : rule.Alike κ.toLikeness rule')
    (h : x.Alike κ.toLikeness y) (target : String) (position : Nat) :
    (rule.follow c target position x : Program C Instance).Corresponds κ
      (Instance.Alike κ.toLikeness) (rule'.follow c target position y) := by
  have hget (name : String) := Container.get_corresponds hc name
  cases hr with
  | override hi =>
    simp only [Rule.follow, h.name]
    exact .tell hc _ (.done hi)
  | default hi =>
    simp only [Rule.follow, h.name]
    exact .tell hc _ (.done hi)
  | same hover hdef =>
    cases rule with
    | override i => exact absurd rfl (hover i)
    | default i => exact absurd rfl (hdef i)
    | onlyOfType service => simp only [Rule.follow, h.name]; exact .tell hc _ (hget _)
    | narrowed => simp only [Rule.follow, h.name]; exact .tell hc _ (hget _)
    | ambiguous candidates =>
      simp only [Rule.follow, h.name]
      exact .tell hc _ (.fail (κ.error_refl _))
    | named => simp only [Rule.follow, h.name]; exact .tell hc _ (hget _)
    | autowired type =>
      simp only [Rule.follow, h.name]
      exact .tell hc _ (.request hc (.class .empty))
    | unresolvable => simp only [Rule.follow, h.name]; exact .fail (κ.error_refl _)

theorem fill_corresponds (ho : o.Alike κ.toLikeness o') (h : x.Alike κ.toLikeness y)
    (target : String) (position : Nat) :
    (fill c target o position x : Program C Instance).Corresponds κ (Instance.Alike κ.toLikeness)
      (fill c target o' position y) :=
  (Rule.choose_corresponds hc ho h position).bind fun _ _ hr =>
    Rule.follow_corresponds hc hr h target position

theorem fillFrom_corresponds (ho : o.Alike κ.toLikeness o')
    (h : ParametersAlike κ.toLikeness l l') (target : String) (position : Nat) :
    (fillFrom c target o position l : Program C _).Corresponds κ (FieldsAlike κ.toLikeness)
      (fillFrom c target o' position l') := by
  induction h generalizing position with
  | nil => exact .done .nil
  | @cons x y l l' h _ ih =>
    refine (fill_corresponds hc ho h target position).bind fun i j hi => ?_
    exact (ih (position + 1)).bind fun f f' hf => .done (.cons ⟨h.name, hi⟩ hf)

theorem fillAll_corresponds (ho : o.Alike κ.toLikeness o')
    (h : ParametersAlike κ.toLikeness l l') (target : String) :
    (fillAll c target l o : Program C Arguments).Corresponds κ (Arguments.Alike κ.toLikeness)
      (fillAll c target l' o') :=
  (fillFrom_corresponds hc ho h target 0).bind fun _ _ hf => .done ⟨rfl, hf⟩

theorem Logic.Alike.parameters {a b : Logic C} (h : a.Alike κ.toLikeness b) :
    a.parameters.Corresponds κ (ParametersAlike κ.toLikeness) b.parameters := by
  cases h with
  | made h => exact .done h
  | given h => exact .done h
  | constructed => exact .call hc .manifest fun _ _ => .ofExcept
  | literal _ => exact .done .nil

theorem Logic.Alike.invoke {a b : Logic C} (h : a.Alike κ.toLikeness b)
    (ha : args.Alike κ.toLikeness args') (shared : Bool) :
    (a.invoke shared c args).Corresponds κ (Instance.Alike κ.toLikeness)
      (b.invoke shared c args') := by
  cases h with
  | made _ => exact .run hc (.make ha) fun _ _ => .allocate hc _
  | given _ => exact .call hc (.give ha) fun _ _ => .ofExcept
  | constructed => exact .run hc (.construct ha) fun _ _ => .allocate hc _
  | literal h =>
    simp only [Logic.invoke]
    split
    · exact .done h
    · exact .copy hc h

theorem build_corresponds (h : r.Alike κ.toLikeness s) (ho : o.Alike κ.toLikeness o')
    (name : String) :
    (build c name r o).Corresponds κ (Instance.Alike κ.toLikeness) (build c name s o') := by
  refine .tell hc _ ((h.logic.parameters hc).bind fun l l' hl => ?_)
  refine (fillAll_corresponds hc ho hl name).bind fun args args' ha => ?_
  rw [h.shared, h.provides]
  exact (h.logic.invoke hc ha s.shared).bind fun i j hi => .ofExcept (hi.cast _ _)

theorem construct_corresponds (ho : o.Alike κ.toLikeness o') (type : TypeKey) :
    (construct c type o : Program C Instance).Corresponds κ (Instance.Alike κ.toLikeness)
      (construct c type o') := by
  refine .run hc .manifest fun l l' hl => ?_
  refine (fillAll_corresponds hc ho hl type.name).bind fun args args' ha => ?_
  exact .run hc (.construct ha) fun _ _ => .allocate hc _

end

inductive Container.Operation (ρ : Likeness C) (c : ContainerId) :
    {α : Type} → (α → α → Prop) → Program C α → Program C α → Prop
  | service (name : String) {o o' : Overrides} (ho : o.Alike ρ o') :
      Operation ρ c (Instance.Alike ρ) (.request (.service c name o))
        (.request (.service c name o'))
  | class (type : TypeKey) {o o' : Overrides} (ho : o.Alike ρ o') :
      Operation ρ c (Instance.Alike ρ) (.request (.class c type o)) (.request (.class c type o'))
  | getAs (name : String) (type : TypeKey) :
      Operation ρ c (Instance.Alike ρ) (getAs c name type) (getAs c name type)
  | call (type : TypeKey) (name : String) {l l' : List Parameter} {o o' : Overrides} {α : Type}
      {Q : α → α → Prop} {body body' : Arguments → Program C α} (hl : ParametersAlike ρ l l')
      (ho : o.Alike ρ o') (hb : ∀ a b, a.Alike ρ b → (body a).Alike ρ c Q (body' b)) :
      Operation ρ c Q (callMethod c type name l o body) (callMethod c type name l' o' body')
  | register (name : String) {r s : Registration C} (h : r.Alike ρ s) :
      Operation ρ c Eq (register c name r) (register c name s)
  | remove (name : String) : Operation ρ c Eq (remove c name) (remove c name)
  | has (name : String) : Operation ρ c Eq (has c name) (has c name)
  | names : Operation ρ c Eq (names c) (names c)
  | describe (name : String) : Operation ρ c Eq (describe c name) (describe c name)
  | load (parse : Config.Parser) (text : String) :
      Operation ρ c Eq (Config.load parse c text) (Config.load parse c text)
  | loadFile (parse : Config.Parser) (file : Config.File) :
      Operation ρ c Eq (Config.loadFile parse c file) (Config.loadFile parse c file)
  | attempt {α : Type} {Q : α → α → Prop} {p q : Program C α} (h : Operation ρ c Q p q) :
      Operation ρ c (Except.Rel Eq Q) p.attempt q.attempt

section

variable (c) {name : String}

theorem Container.register_alike (h : r.Alike ρ s) (name : String) :
    (Container.register c name r).Alike ρ c Eq (Container.register c name s) := by
  have hinsert : ((emit (.registering name r.shared r.provides)).bind fun _ =>
      (Program.perform (.insert c name r)).bind fun there : Bool =>
        if there then emit (.replaced name) else pure ()).Alike ρ c Eq
      ((emit (.registering name s.shared s.provides)).bind fun _ =>
        (Program.perform (.insert c name s)).bind fun there : Bool =>
          if there then emit (.replaced name) else pure ()) := by
    rw [h.shared, h.provides]
    refine .tell rfl _ (.perform rfl (.insert h) fun there _ he => he ▸ ?_)
    split
    · exact .act .emit fun _ _ _ => .done rfl
    · exact .done rfl
  unfold register
  split
  · exact .fail rfl
  · exact hinsert

theorem Container.describe_alike (name : String) :
    (Container.describe c name : Program C _).Alike ρ c Eq (Container.describe c name) := by
  refine .act .lookup fun a b hab => ?_
  cases hab with
  | none => exact .done rfl
  | @some a b hab =>
    obtain ⟨e, r⟩ := a
    obtain ⟨f, s⟩ := b
    refine (hab.2.logic.parameters (κ := ρ.confined c) rfl).bind fun l l' hl => ?_
    refine .act (.cached hab.1) fun i j hi => .done ?_
    have hnames : l.map (·.name) = l'.map (·.name) := by
      induction hl with
      | nil => rfl
      | cons h _ ih => rw [List.map_cons, List.map_cons, h.name, ih]
    have hcached : i.isSome = j.isSome := by cases hi <;> rfl
    rw [hab.2.shared, hab.2.provides, hnames, hcached]

theorem Config.registerAll_alike (entries : List Config.Entry) :
    (Config.registerAll c entries : Program C Unit).Alike ρ c Eq
      (Config.registerAll c entries) := by
  induction entries with
  | nil => exact .done rfl
  | cons e rest ih =>
    have hplain : ∀ fields, (Config.literal e.value).2 ≠ .record fields := by
      unfold Config.literal
      split <;> try split
      all_goals exact nofun
    refine (Program.Corresponds.allocate rfl _ (.plain hplain)).bind fun i j hi => ?_
    have hr : Registration.Alike (C := C) ρ ⟨e.shared, .literal i true⟩
        ⟨e.shared, .literal j true⟩ :=
      ⟨rfl, .literal hi⟩
    exact (Container.register_alike c hr e.name).bind fun _ _ _ => ih

theorem Config.load_alike (parse : Config.Parser) (text : String) :
    (Config.load parse c text : Program C Nat).Alike ρ c Eq (Config.load parse c text) := by
  have happly : ∀ entries, (Config.apply c entries : Program C Nat).Alike ρ c Eq
      (Config.apply c entries) := fun entries =>
    (Config.registerAll_alike c entries).bind fun _ _ _ => .tell rfl _ (.done rfl)
  unfold Config.load
  cases parse text with
  | ok entries => exact happly entries
  | error e => exact .fail rfl

theorem Container.Operation.alike {Q : α → α → Prop} {p q : Program C α}
    (h : Operation ρ c Q p q) : p.Alike ρ c Q q := by
  induction h with
  | attempt _ ih => exact ih.attempt
  | service name ho => exact .request rfl (.service ho)
  | «class» type ho => exact .request rfl (.class ho)
  | getAs name type =>
    exact (Container.get_corresponds rfl name).bind fun i j hi => .ofExcept (hi.cast _ _)
  | call type name hl ho hb => exact (fillAll_corresponds rfl ho hl _).bind hb
  | register name h => exact register_alike c h name
  | remove name =>
    refine .perform rfl .erase fun removed _ he => he ▸ ?_
    split
    · exact .act .emit fun _ _ _ => .done rfl
    · exact .done rfl
  | has name =>
    refine .perform rfl .lookup fun a b hab => .done ?_
    cases hab <;> rfl
  | names => exact .act .names fun _ _ => .done
  | describe name => exact describe_alike c name
  | load parse text => exact Config.load_alike c parse text
  | loadFile parse file =>
    refine .tell rfl _ ?_
    cases file.text with
    | ok text => exact Config.load_alike c parse text
    | error e => exact .fail rfl

end

end Wiring
