import Mathlib.Data.List.Nodup
import Mathlib.Logic.Relation

/-!
Depth-first traversals: the order in which a resolver finishes what it is asked for, each after
everything that it depends on, if it leaves out what is finished already.
-/
namespace Wiring

open Relation (ReflTransGen TransGen)

variable {α : Type} {children : α → List α}

/-- With these finished before, asking for the goals one after the other finishes the new ones, in
this order. -/
inductive Visits (children : α → List α) : List α → List α → List α → Prop
  | nil {done} : Visits children [] done []
  | seen {x xs done new} (hx : x ∈ done) (h : Visits children xs done new) :
      Visits children (x :: xs) done new
  | visit {x xs done new new'} (hx : x ∉ done) (h : Visits children (children x) done new)
      (h' : Visits children xs (done ++ new ++ [x]) new') :
      Visits children (x :: xs) done (new ++ [x] ++ new')

def ChildrenFirst (children : α → List α) (l : List α) : Prop :=
  ∀ before x after, l = before ++ x :: after → ∀ y ∈ children x, y ∈ before

theorem ChildrenFirst.concat {l : List α} {x : α} (h : ChildrenFirst children l)
    (hx : ∀ y ∈ children x, y ∈ l) : ChildrenFirst children (l ++ [x]) := by
  intro before z after heq y hy
  rcases List.eq_nil_or_concat after with rfl | ⟨after, last, rfl⟩
  · obtain ⟨rfl, hz⟩ := List.append_inj' heq rfl
    obtain rfl : x = z := List.singleton_inj.1 hz
    exact hx y hy
  · rw [List.concat_eq_append, ← List.cons_append, ← List.append_assoc] at heq
    obtain ⟨heq, -⟩ := List.append_inj' heq rfl
    exact h before z after heq y hy

namespace Visits

variable {xs ys done new new' : List α} {x y : α}

theorem single (h : Visits children (children x) done new) (hx : x ∉ done) :
    Visits children [x] done (new ++ [x]) := by
  simpa using Visits.visit hx h .nil

theorem append (h : Visits children xs done new) (h' : Visits children ys (done ++ new) new') :
    Visits children (xs ++ ys) done (new ++ new') := by
  induction h with
  | nil => simpa using h'
  | seen hx _ ih => exact .seen hx (ih h')
  | visit hx h₁ _ _ ih =>
    rw [List.append_assoc _ _ new']
    exact .visit hx h₁ (ih (by simpa using h'))

theorem unique (h : Visits children xs done new) (h' : Visits children xs done new') :
    new = new' := by
  induction h generalizing new' with
  | nil => cases h'; rfl
  | seen hx _ ih =>
    cases h' with
    | seen _ h' => exact ih h'
    | visit hx' => exact absurd hx hx'
  | visit hx _ _ ih₁ ih₂ =>
    cases h' with
    | seen hx' => exact absurd hx' hx
    | visit _ h₁ h₂ =>
      obtain rfl := ih₁ h₁
      rw [ih₂ h₂]

theorem mem (h : Visits children xs done new) : ∀ x ∈ xs, x ∈ done ++ new := by
  induction h with
  | nil => exact nofun
  | seen hx _ ih =>
    rintro y (_ | ⟨_, hy⟩)
    · exact List.mem_append_left _ hx
    · exact ih y hy
  | visit hx _ _ _ ih =>
    rintro y (_ | ⟨_, hy⟩)
    · simp
    · simpa using ih y hy

theorem reached (h : Visits children xs done new) (hy : y ∈ new) :
    ∃ x ∈ xs, ReflTransGen (fun a b => b ∈ children a) x y := by
  induction h with
  | nil => cases hy
  | seen _ _ ih =>
    obtain ⟨x, hx, hr⟩ := ih hy
    exact ⟨x, List.mem_cons_of_mem _ hx, hr⟩
  | @visit x xs done new new' _ _ _ ih₁ ih₂ =>
    rw [List.append_assoc, List.singleton_append, List.mem_append, List.mem_cons] at hy
    obtain hy | rfl | hy := hy
    · obtain ⟨z, hz, hr⟩ := ih₁ hy
      exact ⟨x, List.mem_cons_self, .head hz hr⟩
    · exact ⟨y, List.mem_cons_self, .refl⟩
    · obtain ⟨z, hz, hr⟩ := ih₂ hy
      exact ⟨z, List.mem_cons_of_mem _ hz, hr⟩

theorem childrenFirst (h : Visits children xs done new) (hd : ChildrenFirst children done) :
    ChildrenFirst children (done ++ new) := by
  induction h with
  | nil => simpa using hd
  | seen _ _ ih => exact ih hd
  | visit _ h₁ _ ih₁ ih₂ => simpa using ih₂ ((ih₁ hd).concat h₁.mem)

theorem nodup (h : Visits children xs done new)
    (hacyclic : ∀ x, ¬ TransGen (fun a b => b ∈ children a) x x) (hd : done.Nodup) :
    (done ++ new).Nodup := by
  induction h with
  | nil => simpa using hd
  | seen _ _ ih => exact ih hd
  | @visit x xs done new new' hx h₁ _ ih₁ ih₂ =>
    have hfresh : x ∉ done ++ new := by
      intro hmem
      obtain hmem | hmem := List.mem_append.1 hmem
      · exact hx hmem
      · obtain ⟨z, hz, hr⟩ := h₁.reached hmem
        exact hacyclic x (.head' hz hr)
    have hall : (done ++ new ++ [x]).Nodup :=
      List.nodup_append'.2 ⟨ih₁ hd, List.nodup_singleton x, by simpa using hfresh⟩
    simpa using ih₂ hall

theorem mem_iff (h : Visits children xs [] new) :
    y ∈ new ↔ ∃ x ∈ xs, ReflTransGen (fun a b => b ∈ children a) x y := by
  refine ⟨h.reached, ?_⟩
  rintro ⟨x, hx, hr⟩
  induction hr with
  | refl => exact h.mem x hx
  | tail _ hz ih =>
    obtain ⟨before, after, heq⟩ := List.append_of_mem ih
    have hfirst : ChildrenFirst children new := h.childrenFirst (by intro b x a hl; simp at hl)
    exact heq ▸ List.mem_append_left _ (hfirst _ _ _ heq _ hz)

end Visits

end Wiring
