import Wiring.Proofs.Judgement
import Wiring.Proofs.Series

namespace Wiring

open Machine
open Relation (TransGen)

variable {C : Client} {I : Implementation C} {w : World C} {c : ContainerId} {D : Type}
  {R : Interpretation I w c D} {J : Judgement R} {A : Item → List String → Prop}
  {tell : Instance → C.Report} {jobs : List (List String)} {m : Machine C} {t : ThreadId}
  {x : Item} {S : List Item}

theorem Plan.Ends.answers (h : R.plan.Ends S x) (hJ : J.contract.Solitary) (hw : w.Unbuilt)
    (hx : J.contract.arises S x) (b : ℕ) : Answers J.contract (fun _ => False) b S x := by
  induction h generalizing b with
  | again hmem => exact .of_children hJ hw hx fun hn => absurd (.of_mem hmem) hn
  | enter h ih => exact .of_children hJ hw hx fun _ y hy hS => ih y hy.requests hS _

/-- Every target that can be made is good, and these failures are bad. -/
def Interpretation.making (R : Interpretation I w c D) (bad : List Item → Item → Failure → Prop)
    (fails : ∀ {S x f}, R.plan.Fails (fun _ _ => False) x f → bad S x f)
    (source : ∀ {S x y f}, R.plan.Requests x y → bad (x :: S) y f → bad S x f) :
    Judgement R where
  arises _ _ := True
  good _ := R.plan.Makes
  done _ := R.plan.Makes
  bad := bad
  stocked name := R.plan.Makes (.service name)
  kept _ := True
  makes h := h
  asked _ _ _ _ := trivial
  ends _ _ hd hr := ⟨_, hd.fills fun _ _ h => h, hr⟩
  body _ _ hd hr := fails (.body (hd.fills fun _ _ h => h) hr)
  refused _ _ hs hb hf := fails (.refused hs (hb.fills fun _ _ h => h) hf)
  source _ _ hs hb hf := source ⟨_, _, _, hs, hb.fills fun _ _ h => h⟩ hf
  hit _ hd := hd
  plain _ h := h
  keep _ _ h := h

def Interpretation.failing (R : Interpretation I w c D) (A : Item → List String → Prop) :
    Judgement R :=
  R.making (fun _ => R.plan.Fails A) (fun h => h.imp fun _ _ h => h.elim) .source

structure Announced (P : Plan D) (c : ContainerId) (several : Prop)
    (A : Item → List String → Prop) : Prop where
  again {x S chain} (hp : P.Path x S) (h : (under c S).cycle? c x.target = some chain) : A x chain
  across {x chain} (hs : several) (h : TransGen P.Requests x x) : A x chain

namespace Announced

theorem imp {P : Plan D} {several several' : Prop} (h : Announced P c several A)
    (hs : several' → several) : Announced P c several' A :=
  ⟨h.again, fun hs' => h.across (hs hs')⟩

theorem rooted (R : Interpretation I w c D) (A : Item → List String → Prop) :
    (R.failing A).contract.Rooted :=
  (R.failing A).rooted fun _ => trivial

theorem solitary {several : Prop} (hA : Announced R.plan c several A) :
    (R.failing A).contract.Solitary where
  again h hc := .cycle (hA.again h.2.1 hc)
  kept _ := trivial

theorem warns (hA : Announced R.plan c (jobs.length ≠ 1) A) (hc : m.Consistent)
    (hm : Sound (R.failing A).contract tell jobs m) : (R.failing A).contract.Warns m where
  again _ hF hcycle := .cycle (hA.again hF.arises.2.1 hcycle)
  across ha hF hcycle := by
    have hE : (R.failing A).contract.Links m R.plan.Requests :=
      fun _ _ _ _ _ _ _ _ _ _ _ _ _ _ _ hy => hy.requests
    obtain ⟨k, hk, hreach⟩ := hm.claim_reaches hc hE hcycle
    rw [Machine.owned, ha] at hk
    have hback := hF.reaches (fun _ _ _ _ hy => hy.requests) (hF.owned_mem hk)
    exact .cycle (hA.across (hm.several hc ha hcycle) (.trans_right hreach hback))

theorem sound (hA : Announced R.plan c (jobs.length ≠ 1) A) (hw : w.Unbuilt)
    (h : Reaches I (requests w c tell jobs) m) : Sound (R.failing A).contract tell jobs m :=
  Reaches.sound hw (rooted R A)
    (fun _ h₁ _ hs => hA.warns (Reachable.consistent ⟨_, requests_fresh hw, h₁⟩) hs)
    (fun _ _ _ _ _ => trivial) h

end Announced

end Wiring
