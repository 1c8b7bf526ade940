import Mathlib.Data.List.Chain
import Mathlib.Logic.Relation
import Wiring.Error
import Wiring.Stack

/-!
What resolving comes to when the sources of all arguments are given. A target is made from its
arguments, or fails at the first argument that cannot be had; a target that asks for itself in the
end can never be made.
-/
namespace Wiring

open Relation (ReflTransGen TransGen)

inductive Item
  | service (name : String)
  | class (type : TypeKey)
  deriving DecidableEq

def Item.target : Item → Target
  | service name => .service name
  | .class type => .class type.name

def Item.Barred (x : Item) (S : List Item) : Prop := x.target ∈ S.map Item.target

theorem Item.Barred.of_mem {x : Item} {S : List Item} (h : x ∈ S) : x.Barred S :=
  List.mem_map_of_mem h

theorem Item.Barred.service {name : String} {S : List Item} (h : (service name).Barred S) :
    .service name ∈ S := by
  obtain ⟨y, hy, hyx⟩ := List.mem_map.1 h
  cases y with
  | service name' => exact Target.service.inj hyx ▸ hy
  | «class» type => cases hyx

inductive Source
  | target (x : Item)
  | value (i : Instance)
  | refused
  deriving DecidableEq

theorem not_transGen_self {α : Type} {r : α → α → Prop} {a : α} (h : Acc (flip r) a) :
    ¬ TransGen r a a := by
  have hacc := h.transGen
  clear h
  induction hacc with
  | intro a _ ih => exact fun hc => ih a (Relation.transGen_swap.2 hc) hc

/-- The sources of each target's arguments, and what is made of arguments that stand for these
data. -/
structure Plan (D : Type) where
  sources : Item → List Source
  ready : Instance → D
  result : Item → List D → Except Failure D

def Failure.Circular (f : Failure) : Prop := ∃ chain, f = .error (.circularDependency chain)

namespace Plan

variable {D : Type} (P : Plan D)

inductive Fills : List Source → List D → Prop
  | nil : Fills [] []
  | value {i l ds} (h : Fills l ds) : Fills (.value i :: l) (P.ready i :: ds)
  | target {x as d l ds} (hx : Fills (P.sources x) as) (hr : P.result x as = .ok d)
      (h : Fills l ds) : Fills (.target x :: l) (d :: ds)

def Makes (x : Item) (d : D) : Prop := ∃ as, P.Fills (P.sources x) as ∧ P.result x as = .ok d

/-- The data at these sources, if those of the targets are good ones. -/
inductive FilledBy (good : Item → D → Prop) : List Source → List D → Prop
  | nil : FilledBy good [] []
  | value {i l ds} (h : FilledBy good l ds) : FilledBy good (.value i :: l) (P.ready i :: ds)
  | target {x d l ds} (hx : good x d) (h : FilledBy good l ds) :
      FilledBy good (.target x :: l) (d :: ds)

def Needs (x y : Item) : Prop := .target y ∈ P.sources x

def Requests (x y : Item) : Prop :=
  ∃ before after ds, P.sources x = before ++ .target y :: after ∧ P.Fills before ds

inductive Fails (A : Item → List String → Prop) : Item → Failure → Prop
  | body {x as f} (h : P.Fills (P.sources x) as) (hr : P.result x as = .error f) : Fails A x f
  | refused {x f before after ds} (hs : P.sources x = before ++ .refused :: after)
      (h : P.Fills before ds) (hf : ¬ f.Circular) : Fails A x f
  | source {x y f} (h : P.Requests x y) (hy : Fails A y f) : Fails A x f
  | cycle {x chain} (h : A x chain) : Fails A x (.error (.circularDependency chain))

inductive Ends : List Item → Item → Prop
  | again {S x} (h : x ∈ S) : Ends S x
  | enter {S x} (h : ∀ y, P.Requests x y → Ends (x :: S) y) : Ends S x

inductive Path : Item → List Item → Prop
  | root {x} : Path x []
  | step {x y S} (h : Path y S) (hy : ¬ y.Barred S) (hr : P.Requests y x) : Path x (y :: S)

variable {P} {A B : Item → List String → Prop} {x y z : Item} {d d' : D} {ds ds' : List D}
  {l l' S : List Source} {s s' : Source} {f f' : Failure}

namespace Fills

theorem unique (h : P.Fills l ds) (h' : P.Fills l ds') : ds = ds' := by
  induction h generalizing ds' with
  | nil => cases h'; rfl
  | value h ih =>
    cases h' with
    | value h' => rw [ih h']
  | target hx hr h ihx ih =>
    cases h' with
    | target hx' hr' h' =>
      rw [ihx hx', hr'] at hr
      rw [Except.ok.inj hr, ih h']

theorem of_append (h : P.Fills (l ++ l') ds) :
    ∃ as bs, ds = as ++ bs ∧ P.Fills l as ∧ P.Fills l' bs := by
  induction l generalizing ds with
  | nil => exact ⟨[], ds, rfl, .nil, h⟩
  | cons a l ih =>
    cases h with
    | value h =>
      obtain ⟨as, bs, rfl, ha, hb⟩ := ih h
      exact ⟨_, bs, rfl, .value ha, hb⟩
    | target hx hr h =>
      obtain ⟨as, bs, rfl, ha, hb⟩ := ih h
      exact ⟨_, bs, rfl, .target hx hr ha, hb⟩

theorem single (h : P.Makes x d) : P.Fills [.target x] [d] := by
  obtain ⟨as, ha, hr⟩ := h
  exact .target ha hr .nil

theorem makes_of_mem (h : P.Fills l ds) (hx : .target x ∈ l) : ∃ d, P.Makes x d := by
  obtain ⟨before, after, rfl⟩ := List.append_of_mem hx
  obtain ⟨_, _, _, _, hb⟩ := of_append h
  cases hb with
  | target hx hr h => exact ⟨_, _, hx, hr⟩

theorem not_refused (h : P.Fills l ds) : .refused ∉ l := by
  intro hx
  obtain ⟨before, after, rfl⟩ := List.append_of_mem hx
  obtain ⟨_, _, _, _, hb⟩ := of_append h
  cases hb

end Fills

namespace FilledBy

variable {good : Item → D → Prop}

theorem fills (h : P.FilledBy good l ds) (hg : ∀ x d, good x d → P.Makes x d) :
    P.Fills l ds := by
  induction h with
  | nil => exact .nil
  | value h ih => exact .value ih
  | target hx h ih =>
    obtain ⟨as, ha, hr⟩ := hg _ _ hx
    exact .target ha hr ih

theorem append (h : P.FilledBy good l ds) (h' : P.FilledBy good l' ds') :
    P.FilledBy good (l ++ l') (ds ++ ds') := by
  induction h with
  | nil => exact h'
  | value h ih => exact .value ih
  | target hx h ih => exact .target hx ih

theorem of_mem (h : P.FilledBy good l ds) (hx : .target x ∈ l) : ∃ d, good x d := by
  induction h with
  | nil => cases hx
  | value h ih =>
    obtain _ | ⟨_, hx⟩ := hx
    exact ih hx
  | target hy h ih =>
    obtain _ | ⟨_, hx⟩ := hx
    · exact ⟨_, hy⟩
    · exact ih hx

end FilledBy

def Had (P : Plan D) : Source → Prop
  | .target x => ∃ d, P.Makes x d
  | .value _ => True
  | .refused => False

theorem Fills.had (h : P.Fills l ds) (hs : s ∈ l) : P.Had s := by
  cases s with
  | target x => exact h.makes_of_mem hs
  | value i => trivial
  | refused => exact h.not_refused hs

theorem first_unique {before before' after after' : List Source}
    (h : before ++ s :: after = before' ++ s' :: after') (hb : P.Fills before ds)
    (hb' : P.Fills before' ds') (hs : ¬ P.Had s) (hs' : ¬ P.Had s') : s = s' := by
  obtain ⟨c, rfl, hc⟩ | ⟨c, rfl, hc⟩ := List.append_eq_append_iff.1 h
  · cases c with
    | nil => exact (List.cons.inj hc).1
    | cons a c => exact absurd (hb'.had (by simp [(List.cons.inj hc).1])) hs
  · cases c with
    | nil => exact (List.cons.inj hc).1.symm
    | cons a c => exact absurd (hb.had (by simp [(List.cons.inj hc).1])) hs'

theorem Requests.needs (h : P.Requests x y) : P.Needs x y := by
  obtain ⟨before, after, ds, hs, -⟩ := h
  rw [Needs, hs]
  exact List.mem_append_right _ List.mem_cons_self

theorem Makes.needs (h : P.Makes x d) (hn : P.Needs x y) : ∃ d, P.Makes y d := by
  obtain ⟨as, ha, -⟩ := h
  exact ha.makes_of_mem hn

theorem Fills.acc (h : P.Fills l ds) : ∀ x, .target x ∈ l → Acc (flip P.Needs) x := by
  induction h with
  | nil => exact fun x hx => nomatch hx
  | value h ih =>
    intro x hx
    obtain _ | ⟨_, hx⟩ := hx
    exact ih x hx
  | @target y as d l ds hy hr h ihy ih =>
    intro x hx
    obtain _ | ⟨_, hx⟩ := hx
    · exact ⟨_, fun z hz => ihy z hz⟩
    · exact ih x hx

theorem Makes.acc (h : P.Makes x d) : Acc (flip P.Needs) x :=
  (Fills.single h).acc x List.mem_cons_self

theorem Makes.irrefl (h : P.Makes x d) : ¬ TransGen P.Needs x x := not_transGen_self h.acc

theorem Makes.reaches (h : P.Makes x d) (hy : ReflTransGen P.Needs x y) : ∃ d, P.Makes y d := by
  induction hy with
  | refl => exact ⟨d, h⟩
  | tail _ hr ih =>
    obtain ⟨d, hd⟩ := ih
    exact hd.needs hr

theorem not_had_of_needs (hy : ReflTransGen P.Needs x y) (hc : TransGen P.Needs y y) :
    ¬ P.Had (.target x) := by
  rintro ⟨d, hd⟩
  obtain ⟨d, hd⟩ := hd.reaches hy
  exact hd.irrefl hc

theorem not_had_of_cycle (hy : ReflTransGen P.Requests x y) (hc : TransGen P.Requests y y) :
    ¬ P.Had (.target x) :=
  not_had_of_needs (hy.lift id fun _ _ => Requests.needs) (hc.lift id fun _ _ => Requests.needs)

theorem Requests.unique (h : P.Requests x y) (h' : P.Requests x z) (hy : ¬ P.Had (.target y))
    (hz : ¬ P.Had (.target z)) : y = z := by
  obtain ⟨before, after, ds, hs, hb⟩ := h
  obtain ⟨before', after', ds', hs', hb'⟩ := h'
  exact Source.target.inj (first_unique (hs.symm.trans hs') hb hb' hy hz)

def Honest (P : Plan D) (A : Item → List String → Prop) : Prop :=
  ∀ x chain, A x chain → TransGen P.Requests x x

namespace Fails

theorem imp (h : P.Fails A x f) (hA : ∀ x chain, A x chain → B x chain) : P.Fails B x f := by
  induction h with
  | body h hr => exact .body h hr
  | refused hs h hf => exact .refused hs h hf
  | source h hy ih => exact .source h ih
  | cycle h => exact .cycle (hA _ _ h)

theorem not_had (hA : P.Honest A) (h : P.Fails A x f) : ¬ P.Had (.target x) := by
  induction h with
  | body h hr =>
    rintro ⟨d, as, ha, hd⟩
    rw [h.unique ha, hd] at hr
    cases hr
  | refused hs h hf =>
    rintro ⟨d, as, ha, hd⟩
    exact ha.not_refused (hs ▸ List.mem_append_right _ List.mem_cons_self)
  | source h hy ih =>
    rintro ⟨d, hd⟩
    exact ih (hd.needs h.needs)
  | cycle h => exact not_had_of_cycle .refl (hA _ _ h)

theorem circular_of_cycle (hA : P.Honest A) (h : P.Fails A x f) (hc : TransGen P.Requests x x) :
    f.Circular := by
  induction h with
  | @body x as f h hr =>
    obtain ⟨z, hr, hz⟩ := TransGen.head'_iff.1 hc
    exact absurd (h.makes_of_mem hr.needs) (not_had_of_cycle hz hc)
  | refused hs h hf =>
    obtain ⟨z, ⟨before, after, ds, hs', hb⟩, hz⟩ := TransGen.head'_iff.1 hc
    cases first_unique (hs'.symm.trans hs) hb h (not_had_of_cycle hz hc) id
  | source h hy ih =>
    obtain ⟨z, hr, hz⟩ := TransGen.head'_iff.1 hc
    obtain rfl := h.unique hr (hy.not_had hA) (not_had_of_cycle hz hc)
    exact ih (.tail' hz h)
  | cycle h => exact ⟨_, rfl⟩

theorem circular (hA : P.Honest A) (hB : P.Honest B) (h : P.Fails A x f) (h' : P.Fails B x f')
    (hf : f.Circular) : f'.Circular := by
  -- Only one source can be the first that cannot be had, so both failures come from the same one.
  induction h with
  | body h hr =>
    cases h' with
    | body h' hr' =>
      rw [h.unique h', hr'] at hr
      exact Except.error.inj hr ▸ hf
    | refused hs' h' hf' =>
      exact absurd (hs' ▸ List.mem_append_right _ List.mem_cons_self) h.not_refused
    | source h' hy' => exact absurd (h.makes_of_mem h'.needs) (hy'.not_had hB)
    | cycle h' => exact ⟨_, rfl⟩
  | refused hs h hf' => exact absurd hf hf'
  | source h hy ih =>
    cases h' with
    | body h' hr' => exact absurd (h'.makes_of_mem h.needs) (hy.not_had hA)
    | refused hs' h' hf' =>
      obtain ⟨before, after, ds, hs, hb⟩ := h
      cases first_unique (hs.symm.trans hs') hb h' (hy.not_had hA) id
    | source h' hy' =>
      obtain rfl := h.unique h' (hy.not_had hA) (hy'.not_had hB)
      exact ih hy' hf
    | cycle h' => exact ⟨_, rfl⟩
  | cycle h => exact h'.circular_of_cycle hB (hA _ _ h)

theorem exists_cycle (h : P.Fails A x f)
    (hok : ∀ y, ReflTransGen P.Requests x y →
      .refused ∉ P.sources y ∧ ∀ as f, P.result y as ≠ .error f) :
    ∃ y chain, ReflTransGen P.Requests x y ∧ A y chain ∧
      f = .error (.circularDependency chain) := by
  induction h with
  | body h hr => exact absurd hr ((hok _ .refl).2 _ _)
  | refused hs h hf =>
    exact absurd (hs ▸ List.mem_append_right _ List.mem_cons_self) (hok _ .refl).1
  | source h hy ih =>
    obtain ⟨z, chain, hz, hA, hf⟩ := ih fun z hz => hok z (.head h hz)
    exact ⟨z, chain, .head h hz, hA, hf⟩
  | cycle h => exact ⟨_, _, .refl, h, rfl⟩

end Fails

theorem Fills.ends (h : P.Fills l ds) : ∀ x, .target x ∈ l → ∀ S, P.Ends S x := by
  induction h with
  | nil => exact fun x hx => nomatch hx
  | value h ih =>
    intro x hx
    obtain _ | ⟨_, hx⟩ := hx
    exact ih x hx
  | target hy hr h ihy ih =>
    intro x hx S
    obtain _ | ⟨_, hx⟩ := hx
    · exact .enter fun z hz => ihy z hz.needs _
    · exact ih x hx S

theorem Makes.ends (h : P.Makes x d) (S : List Item) : P.Ends S x :=
  (Fills.single h).ends x List.mem_cons_self S

theorem Ends.of_unmet {S : List Item}
    (h : ∀ y, P.Requests x y → ¬ P.Had (.target y) → P.Ends (x :: S) y) : P.Ends S x := by
  refine .enter fun y hy => ?_
  by_cases hd : P.Had (.target y)
  · obtain ⟨d, hd⟩ := hd
    exact hd.ends _
  · exact h y hy hd

theorem ends_on_cycle {S : List Item} (hx : x ∈ S) (hy : ReflTransGen P.Requests y x)
    (hc : TransGen P.Requests x x) : P.Ends S y := by
  induction hy using ReflTransGen.head_induction_on generalizing S with
  | refl => exact .again hx
  | head h hz ih =>
    refine .of_unmet fun w hw hd => ?_
    obtain rfl := h.unique hw (not_had_of_cycle hz hc) hd
    exact ih (List.mem_cons_of_mem _ hx)

theorem Fails.ends (hA : P.Honest A) (h : P.Fails A x f) (S : List Item) : P.Ends S x := by
  induction h generalizing S with
  | body h hr => exact .enter fun y hy => h.ends y hy.needs _
  | refused hs h hf =>
    refine .of_unmet fun y hy hd => ?_
    obtain ⟨before, after, ds, hs', hb⟩ := hy
    cases first_unique (hs'.symm.trans hs) hb h hd id
  | source h hy ih =>
    refine .of_unmet fun z hz hd => ?_
    obtain rfl := h.unique hz (hy.not_had hA) hd
    exact ih _
  | cycle h =>
    obtain ⟨z, hr, hz⟩ := TransGen.head'_iff.1 (hA _ _ h)
    refine .of_unmet fun w hw hd => ?_
    obtain rfl := hr.unique hw (not_had_of_cycle hz (hA _ _ h)) hd
    exact ends_on_cycle List.mem_cons_self hz (hA _ _ h)

theorem ends_of_finite (targets : List Item) (h : ∀ x y, P.Requests x y → y ∈ targets)
    (S : List Item) (x : Item) : P.Ends S x := by
  have hmem : ∀ n S x, (targets.filter (· ∉ S)).length ≤ n → x ∈ targets → P.Ends S x := by
    intro n
    induction n with
    | zero =>
      intro S x hn hx
      have hnil := List.filter_eq_nil_iff.1 (List.eq_nil_of_length_eq_zero (Nat.le_zero.1 hn)) x hx
      exact .again (by simpa using hnil)
    | succ n ih =>
      intro S x hn hx
      by_cases hS : x ∈ S
      · exact .again hS
      · refine .enter fun y hy =>
          ih (x :: S) y (Nat.le_of_lt_succ (Nat.lt_of_lt_of_le ?_ hn)) (h x y hy)
        -- One target less is left.
        have hsub : (targets.filter (· ∉ x :: S)).Sublist (targets.filter (· ∉ S)) :=
          List.monotone_filter_right _ (by simp +contextual)
        refine Nat.lt_of_le_of_ne hsub.length_le fun he => ?_
        have hin : x ∈ targets.filter (· ∉ S) := by simp [hx, hS]
        rw [← hsub.eq_of_length he] at hin
        simp at hin
  exact .enter fun y hy => hmem _ _ _ (Nat.le_refl _) (h x y hy)

namespace Path

variable {S : List Item}

theorem nodup (h : P.Path x S) : (S.map Item.target).Nodup := by
  induction h with
  | root => exact .nil
  | step h hy hr ih => exact List.nodup_cons.2 ⟨hy, ih⟩

theorem requests (h : P.Path x S) (hz : z ∈ S) : TransGen P.Requests z x := by
  induction h with
  | root => cases hz
  | step h hy hr ih =>
    obtain _ | ⟨_, hz⟩ := hz
    · exact .single hr
    · exact (ih hz).tail hr

theorem isChain (h : P.Path x S) : (S.reverse ++ [x]).IsChain P.Requests := by
  induction h with
  | root => exact .singleton _
  | @step x y S h hy hr ih =>
    rw [List.reverse_cons, List.append_assoc, List.singleton_append]
    exact List.isChain_append_cons_cons.2 ⟨ih, hr, .singleton _⟩

end Path

end Plan

end Wiring
