import Mathlib.Data.List.Nodup
import Wiring.Proofs.Behaviour

/-!
Interpretations of a registry: what the objects of its services stand for, such that each service
is a function of its arguments and the source of each argument does not depend on who asked. Under
an interpretation the build of every target behaves as the plan says.
-/
namespace Wiring

variable {C : Client}

def Rule.source (p : Parameter) : Rule → Source
  | override i => .value i
  | onlyOfType service => .target (.service service)
  | narrowed => .target (.service p.name)
  | ambiguous _ => .refused
  | named => .target (.service p.name)
  | autowired type => .target (.class type)
  | default i => .value i
  | unresolvable => .refused

namespace Parameter

variable (w : World C) (c : ContainerId) (S : Stack) (p : Parameter)

def candidates : List String :=
  match p.type? with
  | some type => w.candidates S c type
  | none => []

def rule : Rule :=
  match p.ofCandidates? (p.candidates w c S) with
  | some rule => rule
  | none => p.fallback ((w.entry? c p.name).map (·.2.registration.provides))

def source : Source := (p.rule w c S).source p

end Parameter

def Parameter.scan (c : ContainerId) (p : Parameter) : Program C (List String) :=
  match p.type? with
  | some type => Program.perform (.candidates c type)
  | none => .done []

theorem Rule.choose_empty (c : ContainerId) (position : Nat) (p : Parameter) :
    (Rule.choose c ∅ position p : Program C Rule) =
      (p.scan c).bind fun candidates =>
          match p.ofCandidates? candidates with
          | some rule => .done rule
          | none => (Program.perform (.lookup c p.name)).bind
              fun (r : Option (EntryId × Registration C)) =>
                .done (p.fallback (r.map (·.2.provides))) := by
  unfold choose Parameter.scan
  cases p.type? with
  | none => rfl
  | some type => rfl

def Item.goal (c : ContainerId) : Item → Goal
  | service name => .service c name ∅
  | .class type => .class c type ∅

theorem Item.goal_injective (c : ContainerId) : Function.Injective (Item.goal c) := by
  intro x y h
  cases x <;> cases y <;> cases h <;> rfl

def under (c : ContainerId) (S : List Item) : Stack := S.map fun x => (c, x.target)

theorem mem_under {c : ContainerId} {x : Item} {S : List Item} :
    (c, x.target) ∈ under c S ↔ x.Barred S := by
  simp [under, Item.Barred]

theorem cycle?_under_eq_none {c : ContainerId} {x : Item} {S : List Item} :
    (under c S).cycle? c x.target = none ↔ ¬ x.Barred S := by
  rw [Stack.cycle?_eq_none, mem_under]

theorem targets_under (c : ContainerId) (S : List Item) :
    (under c S).targets c = (S.map Item.target).reverse := by
  simp [under, Stack.targets, ← List.map_reverse, List.filter_map, Function.comp_def]

theorem Plan.Path.cycle {D : Type} {P : Plan D} {c : ContainerId} {x : Item} {S : List Item}
    {chain : List String} (hp : P.Path x S) (hx : x.Barred S → x ∈ S)
    (h : (under c S).cycle? c x.target = some chain) :
    ∃ inner, chain = (x :: inner ++ [x]).map (·.target.label) ∧ (∀ y ∈ x :: inner, y ∈ S) ∧
      (x :: inner).Nodup ∧ (x :: inner ++ [x]).IsChain P.Requests := by
  rw [Stack.cycle?, targets_under] at h
  split at h
  · next hin =>
    have hin : x ∈ S.reverse :=
      List.mem_reverse.2 (hx (mem_under.1 (List.contains_iff_mem.1 hin)))
    obtain ⟨outer, inner, hS⟩ := List.append_of_mem hin
    have hnodup : (S.reverse.map Item.target).Nodup := by
      rw [List.map_reverse]
      exact List.nodup_reverse.2 hp.nodup
    have hdrop : (S.reverse.map Item.target).dropWhile (· ≠ x.target) =
        (x :: inner).map Item.target := by
      rw [hS, List.map_append, List.map_cons] at hnodup ⊢
      rw [List.dropWhile_append_of_pos fun y hy => decide_eq_true ?_]
      · simp
      · rintro rfl
        exact (List.nodup_append.1 hnodup).2.2 _ hy _ List.mem_cons_self rfl
    rw [← List.map_reverse, hdrop] at h
    have hsub : (x :: inner).Sublist S.reverse := hS ▸ List.sublist_append_right _ _
    refine ⟨inner, ?_, fun y hy => List.mem_reverse.1 (hsub.subset hy),
      (hnodup.of_map _).sublist hsub, ?_⟩
    · rw [← Option.some.inj h]
      simp [Function.comp_def]
    · have hchain := hp.isChain
      rw [hS, List.append_assoc] at hchain
      exact hchain.suffix (List.suffix_append _ _)
  · cases h

def World.reads (w : World C) (S : Stack) : (a : Action C) → Option a.Reply
  | .candidates c type => some (w.candidates S c type)
  | .lookup c name => some ((w.entry? c name).map (fun (e, x) => (e, x.registration)))
  | _ => none

theorem Behaves.choose {I : Implementation C} {E : Setting C} {w : World C} {c : ContainerId}
    {T : Stack} {p : Parameter} {position : Nat} {o : List Value}
    {Q : Except Failure Rule → List Value → Prop} (hE : E.reads = w.reads T)
    (h : ∀ o', E.grows o o' → Q (.ok (p.rule w c T)) o') :
    Behaves I E Q (Rule.choose c ∅ position p) o := by
  rw [Rule.choose_empty]
  refine .bind (Behaves.imp (Q := fun r _ => r = .ok (p.candidates w c T)) ?_ ?_)
  · unfold Parameter.candidates Parameter.scan
    cases p.type? with
    | none => exact .done fun _ _ => rfl
    | some type => exact .read (by rw [hE]; rfl) fun _ _ => .done fun _ _ => rfl
  · rintro _ o' ho rfl
    unfold Parameter.rule at h
    dsimp only
    cases hr : p.ofCandidates? (p.candidates w c T) with
    | some rule =>
      rw [hr] at h
      exact .done fun o'' ho' => h _ (E.trans ho ho')
    | none =>
      rw [hr] at h
      refine .read (by rw [hE]; rfl) fun o'' ho' => .done fun o₃ ho₃ => ?_
      have := h _ (E.trans ho (E.trans ho' ho₃))
      cases he : w.entry? c p.name with
      | none => simpa [he] using this
      | some e => simpa [he] using this

def Growth.setting (G : Growth) (w : World C) (c : ContainerId) (T : Stack) (asks : Item → Prop)
    (fair : Item → Except Failure Instance → List Value → Prop)
    (stays : ∀ x r o o', G.grows o o' → fair x r o → fair x r o') : Setting C where
  toGrowth := G
  reads := w.reads T
  asks g := ∃ y, asks y ∧ g = y.goal c
  answers g r o := ∃ y, g = y.goal c ∧ fair y r o
  stays := by
    rintro g r o o' ho ⟨y, hg, hr⟩
    exact ⟨y, hg, stays y r o o' ho hr⟩

theorem Behaves.ask {I : Implementation C} {G : Growth} {w : World C} {c : ContainerId} {T : Stack}
    {asks : Item → Prop} {fair : Item → Except Failure Instance → List Value → Prop}
    (stays : ∀ x r o o', G.grows o o' → fair x r o → fair x r o') {y : Item} {o : List Value}
    (hy : asks y) :
    Behaves I (G.setting w c T asks fair stays) (fair y) (Program.request (y.goal c)) o := by
  refine .request ⟨y, hy, rfl⟩ fun r o' _ ha => ?_
  obtain ⟨z, hz, hr⟩ := ha
  exact (Item.goal_injective c hz) ▸ hr

def World.Knows {D : Type} (w : World C) (c : ContainerId) (P : Plan D) : Item → Prop
  | .service name => (w.entry? c name).isSome
  | .class type => ∃ x, .target (.class type) ∈ P.sources x

structure Arguments.Mean {D : Type} (means : Instance → D → Prop) (target : String)
    (parameters : List Parameter) (args : Arguments) (ds : List D) : Prop where
  target : args.target = target
  names : args.values.map Prod.fst = parameters.map (·.name)
  values : List.Forall₂ means (args.values.map Prod.snd) ds

def Foreseen {D : Type} (means : Instance → D → Prop) :
    Except Failure D → Except Failure Instance → Prop
  | .ok d, .ok i => means i d
  | .error f, .error f' => f = f'
  | _, _ => False

/-- An interpretation of the registry `w` of container `c`: objects stand for data, which they go on
to stand for; classes have fixed parameters; what a service or class makes of its arguments is a
function of their data; and on all stacks on which a target comes to be under way, its arguments
have the same sources. -/
structure Interpretation (I : Implementation C) (w : World C) (c : ContainerId) (D : Type)
    extends Growth where
  means : List Value → Instance → D → Prop
  plan : Plan D
  signature : Item → List Parameter
  lasts {o o' : List Value} {i : Instance} {d : D} (h : grows o o') (hm : means o i d) :
    means o' i d
  missing {name : String} (h : w.entry? c name = none) :
    plan.sources (.service name) = [] ∧
      plan.result (.service name) [] = .error (.error (.serviceNotFound name))
  sources {x : Item} {S : List Item} (hk : w.Knows c plan x) (hp : plan.Path x S)
    (hx : ¬ x.Barred S) : (signature x).map (·.source w c (under c (x :: S))) = plan.sources x
  ready {x : Item} {i : Instance} (h : .value i ∈ plan.sources x) :
    means w.objects i (plan.ready i)
  parameters {name : String} {e : EntryId} {x : Entry C} {o : List Value}
    (h : w.entry? c name = some (e, x)) (ho : grows w.objects o) :
    Behaves I toGrowth.alone (fun r _ => r = .ok (signature (.service name)))
      x.registration.logic.parameters o
  manifest {type : TypeKey} {o : List Value} (h : w.Knows c plan (.class type))
    (ho : grows w.objects o) :
    Behaves I toGrowth.alone (fun r _ => r = .ok (signature (.class type)))
      (Program.run (.manifest type)) o
  invoke {name : String} {e : EntryId} {x : Entry C} {o : List Value} {args : Arguments}
    {ds : List D} (h : w.entry? c name = some (e, x)) (ho : grows w.objects o)
    (hd : plan.Fills (plan.sources (.service name)) ds)
    (ha : args.Mean (means o) name (signature (.service name)) ds) :
    Behaves I toGrowth.alone
      (fun r o' => Foreseen (means o') (plan.result (.service name) ds) r)
      (do
        let i ← x.registration.logic.invoke x.registration.shared c args
        .ofExcept (i.cast x.registration.provides ("service '" ++ name ++ "'"))) o
  construct {type : TypeKey} {o : List Value} {args : Arguments} {ds : List D}
    (h : w.Knows c plan (.class type)) (ho : grows w.objects o)
    (hd : plan.Fills (plan.sources (.class type)) ds)
    (ha : args.Mean (means o) type.name (signature (.class type)) ds) :
    Behaves I toGrowth.alone (fun r o' => Foreseen (means o') (plan.result (.class type) ds) r)
      (do allocate type (← Program.run (.construct type args))) o

end Wiring
