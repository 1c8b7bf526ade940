import Wiring.Proofs.Evaluation
import Wiring.Proofs.PairedMachines

namespace Wiring

variable {C : Client} {α β γ δ : Type}

/-- How two runs are compared. A stack may stand for another one as long as the same targets are
refused on both of them, with errors that are taken for one another. -/
structure Kinship (C : Client) extends Likeness C where
  error : Error → Error → Prop
  stack : Stack → Stack → Prop
  -- The entry can stand under this name of this container only, and its cache is left out of
  -- account.
  aside : EntryId → ContainerId → String → Prop
  error_refl (e : Error) : error e e
  stack_enter {S S' : Stack} (c : ContainerId) (x : Target) (h : stack S S') :
    stack (S.enter c x) (S'.enter c x)
  stack_cycle {S S' : Stack} (c : ContainerId) (x : Target) (h : stack S S') :
    Option.Rel (fun l l' => error (.circularDependency l) (.circularDependency l'))
      (S.cycle? c x) (S'.cycle? c x)

inductive Error.UpToChain : Error → Error → Prop
  | same {e} : UpToChain e e
  | chain {l l'} : UpToChain (.circularDependency l) (.circularDependency l')

namespace Likeness

variable (ρ : Likeness C)

def strict (e : EntryId) (c : ContainerId) (name : String) : Kinship C where
  toLikeness := ρ
  error := Eq
  stack := Eq
  aside e' c' name' := e' = e ∧ c' = c ∧ name' = name
  error_refl _ := rfl
  stack_enter _ _ h := h ▸ rfl
  stack_cycle {S S'} c x h := by
    subst h
    cases S.cycle? c x with
    | none => exact .none
    | some chain => exact .some rfl

def loose : Kinship C where
  toLikeness := ρ
  error := Error.UpToChain
  stack S S' := ∀ y, y ∈ S ↔ y ∈ S'
  aside _ _ _ := False
  error_refl _ := .same
  stack_enter c x h y := by simp only [Stack.enter, List.mem_cons, h]
  stack_cycle {S S'} c x h := by
    unfold Stack.cycle?
    simp only [List.contains_iff_mem, h]
    split
    · exact .some .chain
    · exact .none

end Likeness

namespace Kinship

variable (κ : Kinship C)

inductive Message : String → String → Prop
  | same {s} : Message s s
  | shows (before : String) {e e'} (h : κ.error e e') :
      Message (before ++ e.message) (before ++ e'.message)

inductive Ends (Q : α → β → Prop) : Except Failure α → Except Failure β → Prop
  | ok {a b} (h : Q a b) : Ends Q (.ok a) (.ok b)
  | error {e e'} (h : κ.error e e') : Ends Q (.error (.error e)) (.error (.error e'))
  | crash {s s'} (h : κ.Message s s') : Ends Q (.error (.crash s)) (.error (.crash s'))

variable {κ} {Q : α → β → Prop}

theorem Ends.of_rel {a : Except Error α} {b : Except Error β} (h : Except.Rel κ.error Q a b) :
    κ.Ends Q (Except.mapError .error a) (Except.mapError .error b) := by
  cases h with
  | ok h => exact .ok h
  | error h => exact .error h

theorem Ends.of_answer {a : Except Error α} {r : Except Failure β}
    (h : κ.Ends Q (Except.mapError .error a) r) :
    ∃ b, r = Except.mapError .error b ∧ Except.Rel κ.error Q a b := by
  cases a with
  | ok a =>
    cases h with
    | ok h => exact ⟨.ok _, rfl, .ok h⟩
  | error e =>
    cases h with
    | error h => exact ⟨.error _, rfl, .error h⟩

theorem Ends.of_crash {s : String} {r : Except Failure β}
    (h : κ.Ends Q (.error (.crash s) : Except Failure α) r) :
    ∃ s', r = .error (.crash s') ∧ κ.Message s s' := by
  cases h with
  | crash h => exact ⟨_, rfl, h⟩

end Kinship

inductive Action.Kin (ρ : Likeness C) : (a b : Action C) → (a.Reply → b.Reply → Prop) → Prop
  | within {c a b Rep} (h : a.Alike ρ c b Rep) : Kin ρ a b Rep
  | newContainer : Kin ρ .newContainer .newContainer Eq
  | installDefault {c} : Kin ρ (.installDefault c) (.installDefault c) Eq
  | currentDefault : Kin ρ .currentDefault .currentDefault Eq
  | settleDefault : Kin ρ .settleDefault .settleDefault Eq
  | resetDefault : Kin ρ .resetDefault .resetDefault Eq
  | await {f g} (h : ∀ s s', ρ.state s s' → f s = g s') : Kin ρ (.await f) (.await g) Eq
  | awaitWaiters {service count} :
      Kin ρ (.awaitWaiters service count) (.awaitWaiters service count) Eq
  | note {r r'} : Kin ρ (.note r) (.note r') Eq
  | spawn {jobs} : Kin ρ (.spawn jobs) (.spawn jobs) Eq
  | join {threads} : Kin ρ (.join threads) (.join threads) Eq

inductive Deed.Kin (ρ : Likeness C) : Deed C → Deed C → Prop
  | access {a b Rep} (h : a.Kin ρ b Rep) : Kin ρ (.access a) (.access b)
  | call {c k l Rep} (h : k.Alike ρ c l Rep) : Kin ρ (.call k) (.call l)
  | ask {c g g'} (h : g.Alike ρ c g') : Kin ρ (.ask g) (.ask g')

def Deed.Looks (κ : Kinship C) : Deed C → Prop
  | .access (.cached e) => ∃ c name, κ.aside e c name
  | .ask (.service c name o) => o.isEmpty = true ∧ ∃ e, κ.aside e c name
  | _ => False

theorem Deed.not_looks_loose {ρ : Likeness C} (d : Deed C) : ¬ d.Looks ρ.loose := by
  cases d with
  | access a =>
    cases a with
    | cached e => exact fun ⟨_, _, h⟩ => h
    | _ => exact id
  | call k => exact id
  | ask g =>
    cases g with
    | service c name o => exact fun ⟨_, _, h⟩ => h
    | «class» c type o => exact id

def Kinship.comparison (κ : Kinship C) : Comparison C where
  toLikeness := κ.toLikeness
  uses _ := True
  action := Action.Kin κ.toLikeness
  error := κ.error
  crash := κ.Message
  within _ h := .within h
  error_refl := κ.error_refl

abbrev Program.Kin (κ : Kinship C) (Q : α → β → Prop) (p : Program C α) (q : Program C β) : Prop :=
  p.Corresponds κ.comparison Q q

def Implementation.Respects (I : Implementation C) (κ : Kinship C) : Prop :=
  ∀ (c : ContainerId) (k l : Call C) (Rep : k.Reply → l.Reply → Prop),
    k.Alike κ.toLikeness c l Rep → (I.answer k).Kin κ Rep (I.answer l)

end Wiring
