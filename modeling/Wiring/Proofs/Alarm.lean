import Mathlib.Data.List.Permutation
import Wiring.Proofs.NameMatching
import Wiring.Proofs.Refusal

namespace Wiring

open Machine
open Relation (ReflTransGen TransGen)

variable {C : Client} {I : Implementation C} {w : World C} {c : ContainerId} {D : Type}

/-- While each thread asks for its services, the request at position `k` of thread `t` can end
so. -/
def Tells (I : Implementation C) (w : World C) (c : ContainerId) (tell : Instance → C.Report)
    (jobs : List (List String)) (t : ThreadId) (k : Nat) (r : Except Failure C.Report) : Prop :=
  ∃ m th record, Reaches I (requests w c tell jobs) m ∧ m.threads[t]? = some th ∧
    th.records[k]? = some record ∧ record.outcome = r

def Plan.Cyclic (P : Plan D) (x : Item) (_ : List String) : Prop := TransGen P.Requests x x

/-- Nothing is refused but what is itself under way. -/
def Interpretation.Clear (R : Interpretation I w c D) : Prop :=
  ∀ x S, R.plan.Path x S → x.Barred S → x ∈ S

theorem Interpretation.Clear.announced {R : Interpretation I w c D} (hR : R.Clear)
    (several : Prop) : Announced R.plan c several R.plan.Cyclic where
  again hp h := by
    obtain ⟨inner, -, hmem, -⟩ := hp.cycle (hR _ _ hp) h
    exact hp.requests (hmem _ List.mem_cons_self)
  across _ h := h

theorem Plan.cyclic_honest (P : Plan D) : P.Honest P.Cyclic := fun _ _ h => h

variable {R : Interpretation I w c D} {tell : Instance → C.Report} {jobs : List (List String)}
  {t : ThreadId} {k i : Nat} {r : Except Failure C.Report} {n : String}

theorem Tells.of_follow (schedule : List ThreadId) (test : Except Failure C.Report → Bool)
    (h : ((((requests w c tell jobs).follow I schedule).threads[t]?).bind (·.records[k]?)).any
      fun record => test record.outcome) : ∃ r, Tells I w c tell jobs t k r ∧ test r := by
  obtain ⟨record, hr, htest⟩ := (Option.any_eq_true _ _).1 h
  obtain ⟨th, ht, hr⟩ := Option.bind_eq_some_iff.1 hr
  exact ⟨_, ⟨_, th, record, follow_reaches _ _ _, ht, hr, rfl⟩, htest⟩

namespace Interpretation

theorem told_circular {f : Failure} {o o' : List Value}
    (h : (R.failing R.plan.Cyclic).contract.Tells tell n (.error f) o) (hf : f.Circular)
    (h' : (R.failing R.plan.Cyclic).contract.Tells tell n r o') :
    ∃ f', r = .error f' ∧ f'.Circular := by
  obtain ⟨r₁, h₁, he⟩ := h
  obtain ⟨r₂, h₂, rfl⟩ := h'
  cases r₁ with
  | ok i => cases he
  | error f₁ =>
    cases he
    cases r₂ with
    | ok i =>
      obtain ⟨d, hd, -⟩ := h₂
      exact absurd ⟨d, hd⟩ (Plan.Fails.not_had R.plan.cyclic_honest h₁)
    | error f₂ =>
      exact ⟨f₂, rfl, Plan.Fails.circular R.plan.cyclic_honest R.plan.cyclic_honest h₁ h₂ hf⟩

namespace Clear

variable (hR : R.Clear) (hw : w.Unbuilt)

include hR hw

theorem told (h : Tells I w c tell jobs t k r) :
    ∃ names n, jobs[t]? = some names ∧ names[k]? = some n ∧
      ∃ o, (R.failing R.plan.Cyclic).contract.Tells tell n r o := by
  obtain ⟨m, th, record, hm, ht, hr, rfl⟩ := h
  obtain ⟨names, n, hnames, hname, htold⟩ := ((hR.announced _).sound hw hm).told ht hr
  exact ⟨names, n, hnames, hname, _, htold⟩

variable {names : List String} {f : Failure} (hn : jobs[t]? = some names) (hk : names[k]? = some n)
  (h : Tells I w c tell jobs t k (.error f)) (hf : f.Circular)

include hn hk h hf

theorem circular {jobs' : List (List String)} {t' : ThreadId} {k' : Nat} {names' : List String}
    (hn' : jobs'[t']? = some names') (hk' : names'[k']? = some n)
    (h' : Tells I w c tell jobs' t' k' r) : ∃ f', r = .error f' ∧ f'.Circular := by
  obtain ⟨_, _, hnames, hname, o, htold⟩ := hR.told hw h
  cases hn.symm.trans hnames
  cases hk.symm.trans hname
  obtain ⟨_, _, hnames, hname, o', htold'⟩ := hR.told hw h'
  cases hn'.symm.trans hnames
  cases hk'.symm.trans hname
  exact told_circular htold hf htold'

end Clear

end Interpretation

end Wiring
