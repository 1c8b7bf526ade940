import Wiring.Proofs.PlanFailures

/-!
Requests that are told of a cycle. What a thread asks for is refused while it is under way on that
thread, or while it waits for itself across threads. Where nobody has asked for anything before, the
same request is refused there at the latest, as nothing had been cached before the alarm that would
have kept it from being raised.
-/
namespace Wiring

open Machine
open Relation (ReflTransGen TransGen)

namespace Plan

variable {D : Type} {P : Plan D} {K : Item → Prop} {x : Item} {d : D} {l : List Source}
  {as ds : List D}

open Classical in
/-- The plan by which only what is in `K` can be made. -/
noncomputable def restrict (P : Plan D) (K : Item → Prop) : Plan D :=
  { P with result := fun x as => if K x then P.result x as else .error (.crash "") }

theorem restrict_result :
    (P.restrict K).result x as = .ok d ↔ K x ∧ P.result x as = .ok d := by
  by_cases hK : K x <;> simp [restrict, hK]

theorem Fills.of_restrict (h : (P.restrict K).Fills l ds) : P.Fills l ds := by
  induction h with
  | nil => exact .nil
  | value h ih => exact .value ih
  | target hx hr h ihx ih => exact .target ihx (restrict_result.1 hr).2 ih

theorem Makes.of_restrict (h : (P.restrict K).Makes x d) : P.Makes x d := by
  obtain ⟨as, ha, hr⟩ := h
  exact ⟨as, ha.of_restrict, (restrict_result.1 hr).2⟩

theorem Fills.restrict (h : P.Fills l ds) (hK : ∀ x, P.Had (.target x) → K x) :
    (P.restrict K).Fills l ds := by
  induction h with
  | nil => exact .nil
  | value h ih => exact .value ih
  | target hx hr h ihx ih =>
    exact .target ihx (restrict_result.2 ⟨hK _ ⟨_, _, hx, hr⟩, hr⟩) ih

theorem FilledBy.restrict {good : Item → D → Prop} (h : P.FilledBy good l ds)
    (hg : ∀ x d, good x d → (P.restrict K).Makes x d) : (P.restrict K).Fills l ds := by
  induction h with
  | nil => exact .nil
  | value h ih => exact .value ih
  | target hx h ih =>
    obtain ⟨as, ha, hr⟩ := hg _ _ hx
    exact .target ha hr ih

end Plan

variable {C : Client} {I : Implementation C} {w : World C} {c : ContainerId} {D : Type}

/-- The plan by which, of the shared services, only those that are in stock can be made. -/
noncomputable def Interpretation.held (R : Interpretation I w c D) (stocked : Item → Prop) :
    Plan D :=
  R.plan.restrict fun x => w.Plain c x ∨ stocked x

/-- With these services in stock only, a request for `x` that is made while `S` is under way comes
to something that is under way already. -/
inductive Interpretation.Refuses (R : Interpretation I w c D) (stocked : Item → Prop) :
    List Item → Item → Prop
  | again {S x} (hs : ¬ stocked x) (hx : x.Barred S) : R.Refuses stocked S x
  | body {S x as f} (hs : ¬ stocked x) (ha : (R.held stocked).Fills (R.plan.sources x) as)
      (hr : R.plan.result x as = .error f) (hf : f.Circular) : R.Refuses stocked S x
  | source {S x y} (hs : ¬ stocked x) (hy : (R.held stocked).Requests x y)
      (h : R.Refuses stocked (x :: S) y) : R.Refuses stocked S x

def Interpretation.Refused (R : Interpretation I w c D) (name : String) : Prop :=
  ∃ stocked, R.Refuses stocked [] (.service name)

/-- From the stock and without being refused. -/
def Interpretation.Obtains (R : Interpretation I w c D) (stocked : Item → Prop) (S : List Item)
    (x : Item) (d : D) : Prop :=
  (R.held stocked).Makes x d ∧ ¬ R.Refuses stocked S x

variable {R : Interpretation I w c D} {tell : Instance → C.Report} {jobs : List (List String)}
  {m : Machine C} {t : ThreadId} {stocked : Item → Prop} {x y : Item} {S T : List Item}
  {n : String} {o : List Value} {F G : List (Frame C)} {chain : List String}

namespace Interpretation.Refuses

theorem not_stocked (h : R.Refuses stocked S x) : ¬ stocked x := by
  cases h with
  | again hs hx => exact hs
  | body hs ha hr hf => exact hs
  | source hs hy h => exact hs

/-- Before the source that is refused, all sources can be had. -/
theorem first {before after : List Source} {s : Source} {ds : List D}
    (hr : R.Refuses stocked T y) (hy : (R.held stocked).Requests x y)
    (hs : R.plan.sources x = before ++ s :: after)
    (hb : R.plan.FilledBy (R.Obtains stocked T) before ds) :
    s = .target y ∨ (R.held stocked).Had s := by
  obtain ⟨before', after', ds', hs', hfills⟩ := hy
  obtain ⟨l, rfl, hl⟩ | ⟨l, rfl, hl⟩ := List.append_eq_append_iff.1 (hs.symm.trans hs')
  · cases l with
    | nil => exact .inl (List.cons.inj hl).1
    | cons a l => exact .inr (hfills.had (by simp [(List.cons.inj hl).1]))
  · cases l with
    | nil => exact .inl (List.cons.inj hl).1.symm
    | cons a l =>
      obtain ⟨d, hd⟩ := hb.of_mem (x := y) (by simp [(List.cons.inj hl).1])
      exact absurd hr hd.2

theorem fails {ds : List D} (h : R.Refuses stocked S x) (hx : ¬ x.Barred S)
    (hd : R.plan.FilledBy (R.Obtains stocked (x :: S)) (R.plan.sources x) ds) :
    ∃ f, R.plan.result x ds = .error f ∧ f.Circular := by
  cases h with
  | again hn hbarred => exact absurd hbarred hx
  | body hn ha hr hf => exact ⟨_, (ha.unique (hd.restrict fun _ _ h => h.1)) ▸ hr, hf⟩
  | source hn hy h =>
    obtain ⟨_, hgood⟩ := hd.of_mem hy.needs
    exact absurd h hgood.2

end Interpretation.Refuses

namespace Interpretation

/-- Where nobody has asked for anything before: what can be had from the stock may be refused all
the same, but there is no other failure. -/
noncomputable def starting (R : Interpretation I w c D) (stocked : Item → Prop) :
    Judgement R where
  arises S x := (R.held stocked).Had (.target x) ∨ R.Refuses stocked S x
  good := R.Obtains stocked
  done := R.Obtains stocked
  bad _ _ f := f.Circular
  stocked name d := (R.held stocked).Makes (.service name) d ∧ stocked (.service name)
  kept _ := True
  makes h := h.1.of_restrict
  asked {S x y before after ds} h hx hs hb := by
    have hmem : Source.target y ∈ R.plan.sources x :=
      hs ▸ List.mem_append_right _ List.mem_cons_self
    obtain ⟨d, hd⟩ | h := h
    · exact .inl (hd.needs hmem)
    cases h with
    | again hn hbarred => exact absurd hbarred hx
    | body hn ha hr hf => exact .inl (ha.had hmem)
    | source hn hy h =>
      obtain hsame | hhad := h.first hy hs hb
      · cases hsame
        exact .inr h
      · exact .inl hhad
  ends {S x ds d} h hx hd hr := by
    have hno : ¬ R.Refuses stocked S x := by
      intro hrefuses
      obtain ⟨f, hf, -⟩ := hrefuses.fails hx hd
      cases hr.symm.trans hf
    obtain ⟨d', as, ha, hr'⟩ := h.resolve_right hno
    have hfills := hd.restrict fun _ _ h => h.1
    exact ⟨⟨ds, hfills, Plan.restrict_result.2 ⟨(Plan.restrict_result.1 hr').1, hr⟩⟩, hno⟩
  body {S x ds f} h hx hd hr := by
    obtain ⟨d, as, ha, hr'⟩ | h := h
    · have hd' := (Plan.restrict_result.1 hr').2
      rw [ha.unique (hd.restrict fun _ _ h => h.1), hr] at hd'
      cases hd'
    · obtain ⟨f', hf', hcircular⟩ := h.fails hx hd
      cases hr.symm.trans hf'
      exact hcircular
  refused {S x before after ds f} h hx hs hb hf := by
    have hmem : Source.refused ∈ R.plan.sources x :=
      hs ▸ List.mem_append_right _ List.mem_cons_self
    obtain ⟨d, as, ha, -⟩ | h := h
    · exact absurd hmem ha.not_refused
    cases h with
    | again hn hbarred => exact absurd hbarred hx
    | body hn ha hr hf => exact absurd hmem ha.not_refused
    | source hn hy h =>
      obtain hsame | hhad := h.first hy hs hb
      · cases hsame
      · exact hhad.elim
  source _ _ _ _ hf := hf
  hit _ hd := ⟨hd.1, fun h => h.not_stocked hd.2⟩
  plain _ h := h
  keep he _ h := by
    obtain ⟨d, as, ha, hr⟩ : (R.held stocked).Had (.target (.service _)) := ⟨_, h.1⟩
    exact ⟨h.1, (Plan.restrict_result.1 hr).1.resolve_left he.not_plain⟩

theorem starting_solitary : (R.starting stocked).contract.Solitary where
  again _ _ := ⟨_, rfl⟩
  kept _ := trivial

theorem Refuses.answers (h : R.Refuses stocked S x) (hu : w.Unbuilt)
    (hx : (R.starting stocked).contract.arises S x) (b : ℕ) :
    Answers (R.starting stocked).contract (fun _ => False) b S x := by
  have hhad : ∀ {T y b}, (R.starting stocked).contract.arises T y →
      (R.held stocked).Had (.target y) →
        Answers (R.starting stocked).contract (fun _ => False) b T y := by
    rintro T y b hy ⟨d, hd⟩
    exact (hd.of_restrict.ends T).answers starting_solitary hu hy b
  induction h generalizing b with
  | again hn hbarred => exact .of_children starting_solitary hu hx fun hno => absurd hbarred hno
  | body hn ha hr hf =>
    exact .of_children starting_solitary hu hx fun _ z hz harises =>
      hhad harises (ha.had hz.requests.needs)
  | source hn hy h ih =>
    refine .of_children starting_solitary hu hx fun _ z hz harises => ?_
    obtain ⟨before, after, ds, hs, hb⟩ := hz
    obtain hsame | hhad' := h.first hy hs hb
    · cases hsame
      exact ih harises _
    · exact hhad harises hhad'

end Interpretation

def World.Stocks (w' w : World C) (c : ContainerId) (x : Item) : Prop :=
  ∃ name e entry, x = .service name ∧ w.Shares c name e entry ∧ (w'.cached e).isSome

namespace Asked

variable {P : Contract I w c}

theorem root (hF : Asked P n o x S F) :
    (under c (x :: S)).getLast? = some (c, .service n) := by
  induction hF with
  | step => rfl
  | plain hF hp hy hr hb hc ih => exact (List.getLast?_cons_cons ..).trans ih
  | shared hF hy he hr hb hc ih => exact (List.getLast?_cons_cons ..).trans ih

theorem not_stocked {K : Control C} {next : Except Error Instance → Program C C.Report}
    (hF : Asked P n o x S F) (hm : m.Pristine) (ha : m.activity t = .resolving K G next)
    (hG : F <:+ G) : ∀ y ∈ S, ¬ m.world.Stocks w c y := by
  induction hF with
  | step => exact fun _ hy => nomatch hy
  | plain hF hp hy hr hb hc ih =>
    intro z hz
    obtain _ | ⟨_, hz⟩ := hz
    · rintro ⟨name, e, entry, rfl, he, -⟩
      exact he.not_plain hp
    · exact ih (((List.suffix_cons _ _).trans (List.suffix_cons _ _)).trans hG) z hz
  | @shared x name e entry S F rest hF hy he hr hb hc ih =>
    intro z hz
    obtain _ | ⟨_, hz⟩ := hz
    · rintro ⟨_, e', entry', ⟨⟩, he', hi⟩
      cases he.entry?.symm.trans he'.entry?
      have hkept : entry.site c name e ∈ (m.activity t).kept := by
        rw [ha]
        exact List.mem_filterMap.2
          ⟨_, hG.subset (List.mem_cons_of_mem _ List.mem_cons_self), rfl⟩
      have hnone : m.world.cached e = none := hm t _ hkept
      rw [hnone] at hi
      cases hi
    · exact ih ((List.suffix_append [_, _, _, _] F).trans hG) z hz

end Asked

namespace Machine.Reaches

variable {P : Contract I w c} {inside : Control C} {s : Site C}
  {next : Except Error Instance → Program C C.Report}

end Machine.Reaches

end Wiring
