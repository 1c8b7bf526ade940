import Mathlib.Data.Set.Card
import Wiring.Proofs.Bookkeeping
import Wiring.Proofs.Interpretation

/-!
What a request comes to, cycles and all other failures included, when the supply of every argument
is given: first from scratch, on a stack, and then, for what succeeds, on any other stack.
-/
namespace Wiring

open Relation (ReflTransGen TransGen)

inductive Supply (D : Type)
  | target (x : Item)
  | value (d : D)
  | refuse (f : Failure)

/-- The supplies of each target's arguments, and what is made of arguments that are these data. -/
structure Scheme (D : Type) where
  sources : Item → List (Supply D)
  result : Item → List D → Except Failure D

namespace Scheme

variable {D : Type} (P : Scheme D) (c : ContainerId)

inductive Gives : List Item → List (Supply D) → Except Failure (List D) → Prop
  | nil {S} : Gives S [] (.ok [])
  | value {S d l r r'} (h : Gives S l r) (hr : r' = r.map (d :: ·)) : Gives S (.value d :: l) r'
  | refuse {S f l} : Gives S (.refuse f :: l) (.error f)
  | again {S x l chain} (h : (under c S).cycle? c x.target = some chain) :
      Gives S (.target x :: l) (.error (.error (.circularDependency chain)))
  | fails {S x l args f} (hx : ¬ x.Barred S) (ha : Gives (x :: S) (P.sources x) args)
      (hf : args.bind (P.result x) = .error f) : Gives S (.target x :: l) (.error f)
  | made {S x l args d r r'} (hx : ¬ x.Barred S) (ha : Gives (x :: S) (P.sources x) args)
      (hd : args.bind (P.result x) = .ok d) (h : Gives S l r) (hr : r' = r.map (d :: ·)) :
      Gives S (.target x :: l) r'

def Comes (S : List Item) (x : Item) (r : Except Failure D) : Prop :=
  P.Gives c S [.target x] (r.map ([·]))

def Makes (x : Item) (d : D) : Prop := ∃ S, P.Comes c S x (.ok d)

def Needs (x y : Item) : Prop := .target y ∈ P.sources x

def Asks (S : List Item) (x y : Item) : Prop :=
  ∃ before after ds, P.sources x = before ++ .target y :: after ∧
    P.Gives c (x :: S) before (.ok ds)

inductive Ends : List Item → Item → Prop
  | again {S x} (h : x.Barred S) : Ends S x
  | enter {S x} (h : ∀ y, P.Asks c S x y → Ends (x :: S) y) : Ends S x

variable {P c} {S T : List Item} {l l' : List (Supply D)} {r r' : Except Failure (List D)}
  {x y : Item} {d d' : D} {ds : List D}

theorem Asks.needs (h : P.Asks c S x y) : P.Needs x y := by
  obtain ⟨before, after, ds, hs, -⟩ := h
  rw [Needs, hs]
  exact List.mem_append_right _ List.mem_cons_self

theorem ends_of_finite (h : {x | ∃ y, P.Needs x y}.Finite) (S : List Item) (x : Item) :
    P.Ends c S x := by
  -- Each target is entered once on the way down, so fewer and fewer are left to enter.
  induction hn : ({x | ∃ y, P.Needs x y} \ {x | x ∈ S}).ncard using Nat.strong_induction_on
    generalizing S x with
  | _ n ih =>
    by_cases hx : x ∈ S
    · exact .again (.of_mem hx)
    refine .enter fun y hy => ?_
    have hneeds : ∃ y, P.Needs x y := ⟨y, hy.needs⟩
    have hless : {x | ∃ y, P.Needs x y} \ {z | z ∈ x :: S} ⊂
        {x | ∃ y, P.Needs x y} \ {z | z ∈ S} := by
      constructor
      · exact Set.sdiff_subset_sdiff_right fun z hz => List.mem_cons_of_mem _ hz
      · intro hsub
        exact (hsub ⟨hneeds, hx⟩).2 List.mem_cons_self
    have hcard := Set.ncard_lt_ncard hless h.sdiff
    exact ih _ (hn ▸ hcard) (x :: S) y rfl

theorem barred_of_cycle {chain : List String} (h : (under c S).cycle? c x.target = some chain) :
    x.Barred S := by
  by_contra hx
  rw [cycle?_under_eq_none.2 hx] at h
  cases h

theorem map_cons_eq_ok (h : r.map (d :: ·) = .ok ds) : ∃ ds', r = .ok ds' ∧ ds = d :: ds' := by
  cases r with
  | error f => cases h
  | ok ds' => exact ⟨ds', rfl, (Except.ok.inj h).symm⟩

namespace Gives

theorem unique (h : P.Gives c S l r) (h' : P.Gives c S l r') : r = r' := by
  induction h generalizing r' with
  | nil => cases h'; rfl
  | value h hr ih => cases h' with | value h' hr' => rw [hr, hr', ih h']
  | refuse => cases h'; rfl
  | again hc =>
    cases h' with
    | again hc' => cases hc.symm.trans hc'; rfl
    | fails hx' => exact absurd (barred_of_cycle hc) hx'
    | made hx' => exact absurd (barred_of_cycle hc) hx'
  | fails hx ha hf ih =>
    cases h' with
    | again hc' => exact absurd (barred_of_cycle hc') hx
    | fails hx' ha' hf' => cases ih ha'; cases hf.symm.trans hf'; rfl
    | made hx' ha' hd' => cases ih ha'; cases hf.symm.trans hd'
  | made hx ha hd h hr iha ih =>
    cases h' with
    | again hc' => exact absurd (barred_of_cycle hc') hx
    | fails hx' ha' hf' => cases iha ha'; cases hd.symm.trans hf'
    | made hx' ha' hd' h' hr' =>
      cases iha ha'
      cases hd.symm.trans hd'
      rw [hr, hr', ih h']

theorem append (h : P.Gives c S l (.ok ds)) (h' : P.Gives c S l' r) :
    P.Gives c S (l ++ l') (r.map (ds ++ ·)) := by
  generalize he : Except.ok ds = r₀ at h
  induction h generalizing ds with
  | nil =>
    cases he
    cases r <;> exact h'
  | @value S d l r₁ r₂ h hr ih =>
    subst hr
    obtain ⟨ds', rfl, rfl⟩ := map_cons_eq_ok he.symm
    exact .value (ih h' rfl) (by cases r <;> rfl)
  | refuse => cases he
  | again => cases he
  | fails => cases he
  | @made S x l args d r₁ r₂ hx ha hd h hr iha ih =>
    subst hr
    obtain ⟨ds', rfl, rfl⟩ := map_cons_eq_ok he.symm
    exact .made hx ha hd (ih h' rfl) (by cases r <;> rfl)

theorem first_fails {s : Supply D} {f : Failure} (h : P.Gives c S [s] (.error f)) :
    P.Gives c S (s :: l) (.error f) := by
  cases h with
  | value h hr => cases h; cases hr
  | refuse => exact .refuse
  | again hc => exact .again hc
  | fails hx ha hf => exact .fails hx ha hf
  | made hx ha hd h hr => cases h; cases hr

theorem acc (h : P.Gives c S l (.ok ds)) : ∀ x, .target x ∈ l → Acc (flip P.Needs) x := by
  generalize he : Except.ok ds = r₀ at h
  induction h generalizing ds with
  | nil => exact fun x hx => nomatch hx
  | value h hr ih =>
    subst hr
    obtain ⟨ds', rfl, rfl⟩ := map_cons_eq_ok he.symm
    intro x hx
    obtain _ | ⟨_, hx⟩ := hx
    exact ih rfl x hx
  | refuse => cases he
  | again => cases he
  | fails => cases he
  | @made S y l args d r₁ r₂ hy ha hd h hr iha ih =>
    subst hr
    obtain ⟨ds', rfl, rfl⟩ := map_cons_eq_ok he.symm
    intro x hx
    obtain _ | ⟨_, hx⟩ := hx
    · cases args with
      | error f => cases hd
      | ok as => exact ⟨_, fun z hz => iha rfl z hz⟩
    · exact ih rfl x hx

end Gives

def Distinct (P : Scheme D) : Prop :=
  ∀ x y, TransGen P.Needs x y → x.target = y.target → x = y

theorem Gives.elsewhere (h : P.Gives c S l (.ok ds)) (hP : P.Distinct)
    (hT : ∀ y ∈ T, ∀ x, .target x ∈ l → TransGen P.Needs y x) : P.Gives c T l (.ok ds) := by
  generalize he : Except.ok ds = r₀ at h
  induction h generalizing ds T with
  | nil => exact .nil
  | value h hr ih =>
    subst hr
    obtain ⟨ds', rfl, rfl⟩ := map_cons_eq_ok he.symm
    exact .value (ih (fun y hy x hx => hT y hy x (List.mem_cons_of_mem _ hx)) rfl) rfl
  | refuse => cases he
  | again => cases he
  | fails => cases he
  | @made S x l args d r₁ r₂ hx ha hd h hr iha ih =>
    subst hr
    obtain ⟨ds', rfl, rfl⟩ := map_cons_eq_ok he.symm
    have hfirst : ∀ y ∈ T, TransGen P.Needs y x := fun y hy => hT y hy x List.mem_cons_self
    have hself := not_transGen_self ((Gives.made hx ha hd h rfl).acc x List.mem_cons_self)
    have hx : ¬ x.Barred T := by
      intro hx
      obtain ⟨y, hy, hyx⟩ := List.mem_map.1 hx
      obtain rfl := hP y x (hfirst y hy) hyx
      exact hself (hfirst y hy)
    refine .made hx ?_ hd
      (ih (fun y hy x hx => hT y hy x (List.mem_cons_of_mem _ hx)) rfl) rfl
    cases args with
    | error f => cases hd
    | ok as =>
      refine iha (fun y hy z hz => ?_) rfl
      obtain _ | ⟨_, hy⟩ := hy
      · exact .single hz
      · exact (hfirst y hy).tail hz

namespace Comes

theorem unique {r r' : Except Failure D} (h : P.Comes c S x r) (h' : P.Comes c S x r') :
    r = r' := by
  have hr := Gives.unique h h'
  cases r <;> cases r' <;> cases hr <;> rfl

theorem enter {args : Except Failure (List D)} (hx : ¬ x.Barred S)
    (ha : P.Gives c (x :: S) (P.sources x) args) : P.Comes c S x (args.bind (P.result x)) := by
  cases hr : args.bind (P.result x) with
  | error f => exact .fails hx ha hr
  | ok d => exact .made hx ha hr .nil rfl

theorem again {chain : List String} (h : (under c S).cycle? c x.target = some chain) :
    P.Comes c S x (.error (.error (.circularDependency chain))) := Gives.again h

end Comes

namespace Makes

theorem comes (h : P.Makes c x d) (hP : P.Distinct) (hS : ∀ y ∈ S, TransGen P.Needs y x) :
    P.Comes c S x (.ok d) := by
  obtain ⟨T, h⟩ := h
  refine Gives.elsewhere h hP fun y hy z hz => ?_
  obtain _ | ⟨_, ⟨⟩⟩ := hz
  exact hS y hy

end Makes

theorem Gives.tail {s : Supply D} (h : P.Gives c S (s :: l) (.ok ds)) :
    ∃ ds', P.Gives c S l (.ok ds') := by
  cases h with
  | value h hr =>
    obtain ⟨ds', rfl, -⟩ := map_cons_eq_ok hr.symm
    exact ⟨ds', h⟩
  | made hx ha hd h hr =>
    obtain ⟨ds', rfl, -⟩ := map_cons_eq_ok hr.symm
    exact ⟨ds', h⟩

theorem Gives.ends (h : P.Gives c S l r) {before after : List (Supply D)}
    (hl : l = before ++ .target y :: after) (hb : P.Gives c S before (.ok ds)) : P.Ends c S y := by
  induction h generalizing before ds y after with
  | nil => cases before <;> cases hl
  | value h hr ih =>
    cases before with
    | nil => cases hl
    | cons s before =>
      obtain ⟨-, rfl⟩ := List.cons.inj hl
      obtain ⟨ds', hb⟩ := hb.tail
      exact ih rfl hb
  | refuse =>
    cases before with
    | nil => cases hl
    | cons s before =>
      obtain ⟨rfl, -⟩ := List.cons.inj hl
      cases hb
  | again hc =>
    cases before with
    | nil =>
      cases hl
      exact .again (barred_of_cycle hc)
    | cons s before =>
      obtain ⟨rfl, -⟩ := List.cons.inj hl
      cases hb with
      | made hx => exact absurd (barred_of_cycle hc) hx
  | fails hx ha hf ih =>
    cases before with
    | nil =>
      cases hl
      exact .enter fun z ⟨before, after, ds, hs, hb⟩ => ih hs hb
    | cons s before =>
      obtain ⟨rfl, -⟩ := List.cons.inj hl
      cases hb with
      | made hx' ha' hd' =>
        cases ha.unique ha'
        cases hf.symm.trans hd'
  | made hx ha hd h hr iha ih =>
    cases before with
    | nil =>
      cases hl
      exact .enter fun z ⟨before, after, ds, hs, hb⟩ => iha hs hb
    | cons s before =>
      obtain ⟨-, rfl⟩ := List.cons.inj hl
      obtain ⟨ds', hb⟩ := hb.tail
      exact ih rfl hb

theorem Comes.ends {r : Except Failure D} (h : P.Comes c S x r) : P.Ends c S x := by
  have hfirst : [.target x] = [] ++ Supply.target x :: ([] : List (Supply D)) := rfl
  exact Gives.ends h hfirst .nil

end Scheme

end Wiring
