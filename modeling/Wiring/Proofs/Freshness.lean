import Wiring.Proofs.Concealment
import Wiring.Proofs.Filling
import Wiring.Proofs.Literals
import Wiring.Proofs.Passage

namespace Wiring

variable {C : Client} {R : Reach C} {p : ObjectId} {stored : Bool}

def Logic.Creates : Logic C → Prop
  | made .. => True
  | constructed .. => True
  | literal _ copies => copies = true
  | given .. => False

def Scope.Lacks (R : Reach C) (p : ObjectId) : (L : Scope C) → L.Answer → Prop
  | own => fun (r : C.Report) => ¬ R.report r p
  | inside .. => fun (i : Instance) => i.object ≠ p

theorem Activity.conceals_runs {L : Scope C} {q : Program C L.Answer} :
    (L.runs q).Conceals R p stored false ↔
      q.Lacks R p stored (L.Lacks R p) ∧ (L.runs q).Conceals R p stored true := by
  cases L with
  | own => exact ⟨fun h => ⟨h rfl, nofun⟩, fun h _ => h.1⟩
  | inside F next => exact ⟨fun h => ⟨h.1 rfl, nofun, h.2⟩, fun h => ⟨fun _ => h.1, h.2.2⟩⟩

theorem Scope.runs_inj {L : Scope C} {q q' : Program C L.Answer} (h : L.runs q = L.runs q') :
    q = q' := by
  cases L <;> cases h <;> rfl

def Call.Passes (i : Instance) : Call C → Prop
  | make _ _ args => ∃ name, (name, i) ∈ args.values
  | give _ _ args => ∃ name, (name, i) ∈ args.values
  | manifest _ => False
  | construct _ args => ∃ name, (name, i) ∈ args.values

inductive Machine.Shows (m : Machine C) (i : Instance) : Prop
  | cached {x : Entry C} (hx : x ∈ m.world.entries) (h : x.cache = some i)
  | held {fields : List (String × Instance)} {name : String} (hv : .record fields ∈ m.world.objects)
      (h : (name, i) ∈ fields)
  | supplied {t : ThreadId} {L : Scope C} {c : ContainerId} {name s : String} {o : Overrides}
      {k : Nat} {rest : Except Error Instance → Program C L.Answer}
      (ha : m.activity t = L.runs (.resolve (.service c name o) rest)) (h : o.lookup k s = some i)
  | passed {t : ThreadId} {L : Scope C} {k : Call C}
      {rest : Except Error k.Reply → Program C L.Answer}
      (ha : m.activity t = L.runs (.call k rest)) (h : k.Passes i)
  | returned {t : ThreadId} {F : List (Frame C)} {next : Except Error Instance → Program C C.Report}
      (ha : m.activity t = .resolving (.finish (.ok i)) F next)

def World.Stores (w : World C) (i : Instance) : Prop :=
  ∃ x ∈ w.entries, ∃ copies, x.registration.logic = .literal i copies

theorem Call.Meets.passes {D : Discipline C} {k : Call C} {i : Instance} (h : k.Meets D)
    (hi : k.Passes i) : D.handle i := by
  cases k with
  | make body c args | give body c args =>
    obtain ⟨name, hi⟩ := hi
    exact h.2.2 _ hi
  | manifest type => exact hi.elim
  | construct type args =>
    obtain ⟨name, hi⟩ := hi
    exact h.2 _ hi

theorem World.Conceals.stores {w : World C} {i : Instance} (h : w.Conceals R p false)
    (hi : w.Stores i) : i.object ≠ p := by
  obtain ⟨x, hx, copies, hlogic⟩ := hi
  have hr := (h.entries hx).registration.resolve_right fun hs => Bool.false_ne_true hs.1
  rw [hlogic] at hr
  exact hr

theorem Machine.Conceals.shows {m : Machine C} {i : Instance} (h : m.Conceals R p stored none)
    (hi : m.Shows i) : i.object ≠ p := by
  have hact (t : ThreadId) : (m.activity t).Conceals R p stored false := by
    have ht := h.activity t
    rwa [decide_eq_false nofun] at ht
  cases hi with
  | cached hx hc => exact (h.world.entries hx).cache hc
  | held hv hi => exact h.world.objects hv _ hi
  | @supplied t L c name s o k rest ha hi =>
    have hcode := hact t
    rw [ha] at hcode
    exact Overrides.All.lookup (Activity.conceals_runs.1 hcode).1.of_resolve.2.1 hi
  | @passed t L k rest ha hi =>
    have hcode := hact t
    rw [ha] at hcode
    exact ((Activity.conceals_runs.1 hcode).1.of_call rfl).2.1.passes hi
  | @returned t F next ha =>
    have hcode := hact t
    rw [ha] at hcode
    exact hcode.1 rfl i rfl

namespace Machine

variable {I : Implementation C} {m : Machine C} {t : ThreadId} {th th' : Thread C} {w : World C}
  {fresh : List (Thread C)} {holding : Bool}

theorem Move.conceals_act {L : Scope C} {a : Action C} {rest : a.Reply → Program C L.Answer}
    (hm : Move I m t th w th' fresh) (ha : th.activity = L.runs (.act a rest))
    (ht : th.Conceals R p stored holding) (hn : ∀ th : Thread C, (a.mark th).notes = th.notes) :
    th'.Conceals R p stored true ∧ fresh = a.brings I := by
  have hA := ht.activity
  rw [ha] at hA
  cases L with
  | own =>
    cases hm with
    | ownAct h hact =>
      cases ha.symm.trans h
      refine ⟨⟨nofun, fun {x} hx => ht.todo ?_, fun {x} hx => ht.notes ?_,
        fun {x} hx => ht.records ?_⟩, rfl⟩
      · rwa [← Action.mark_todo th]
      · rwa [← hn th]
      · rwa [← Action.mark_records th]
    | @ownEnded r h => obtain ((e | s) | i) := r <;> cases ha.symm.trans h
    | _ => cases ha.symm.trans ‹th.activity = _›
  | inside F next =>
    cases hm with
    | runAct h hact =>
      cases ha.symm.trans h
      refine ⟨⟨⟨nofun, hA.2⟩, fun {x} hx => ht.todo ?_, fun {x} hx => ht.notes ?_,
        fun {x} hx => ht.records ?_⟩, rfl⟩
      · rwa [← Action.mark_todo th]
      · rwa [← hn th]
      · rwa [← Action.mark_records th]
    | @runEnded r F next h => obtain ((e | s) | i) := r <;> cases ha.symm.trans h
    | _ => cases ha.symm.trans ‹th.activity = _›

inductive HandsOn (i : Instance) (c : ContainerId) (x : Target) (F : List (Frame C))
    (next : Except Error Instance → Program C C.Report) : Activity C → Prop
  | answered : HandsOn i c x F next (.resolving (.run (.done i)) (.inside c x :: F) next)
  | inside : HandsOn i c x F next (.resolving (.finish (.ok i)) (.inside c x :: F) next)
  | outside : HandsOn i c x F next (.resolving (.finish (.ok i)) F next)

theorem Move.hands_on {i : Instance} {c : ContainerId} {x : Target} {F : List (Frame C)}
    {next : Except Error Instance → Program C C.Report} (hm : Move I m t th w th' fresh)
    (h : HandsOn i c x F next th.activity)
    (hF : th.activity ≠ .resolving (.finish (.ok i)) F next) (ht : th.Conceals R p stored true) :
    HandsOn i c x F next th'.activity ∧ th'.Conceals R p stored true ∧ w = m.world ∧
      fresh = [] := by
  have hA := ht.activity
  generalize ha : th.activity = A at h hF hA
  cases h with
  | outside => exact absurd rfl hF
  | answered =>
    cases hm with
    | @runEnded r F next h =>
      obtain ((e | s) | j) := r <;> cases ha.symm.trans h
      exact ⟨.inside, ⟨⟨nofun, hA.2⟩, ht.todo, ht.notes, ht.records⟩, rfl, rfl⟩
    | _ => cases ha.symm.trans ‹th.activity = _›
  | inside =>
    cases hm with
    | leave h =>
      cases ha.symm.trans h
      have hframes := (List.forall_mem_cons.1 hA.2.1).2
      exact ⟨.outside, ⟨⟨nofun, hframes, hA.2.2⟩, ht.todo, ht.notes, ht.records⟩, rfl, rfl⟩
    | answer h | ownAnswer h =>
      obtain ⟨-, hframes, -⟩ := Activity.resolving.inj (ha.symm.trans h)
      cases hframes
    | _ => cases ha.symm.trans ‹th.activity = _›

end Machine

namespace Run

variable {I : Implementation C} {σ : Run I} {t : ThreadId} {L : Scope C} {n k l b : ℕ}
  {ds : List (Deed C)} {r : Except Failure L.Answer} {holder : Option ThreadId}

theorem Proceeds.completes {q₀ q : Program C L.Answer} (h : σ.Proceeds t L .done q₀ b q k)
    (hq : σ.Completes t L .done q k ds r l) : ∃ ds, σ.Completes t L .done q₀ b ds r l := by
  induction h generalizing ds with
  | begins => exact ⟨ds, hq⟩
  | stays h hm ih => exact ih (.waits hm h.activity hq)
  | @acts a next reply k h hm ha ih =>
    obtain ⟨th, ht, hst⟩ := Machine.step_cases (σ.moves k t hm)
    obtain ⟨reply', m, hp, -, ha', -⟩ := hst.acts ht h.activity
    have hsame := Scope.runs_inj (ha'.symm.trans ha)
    rw [Program.bind_done, Program.bind_done] at hsame
    exact ih (.act hm h.activity ht hp (hsame ▸ hq))
  | calls h hm ih => exact ih (.call hm h.activity hq)
  | answered h hr ih => exact ih (.answered hr hq)

theorem Ends.completes {q : Program C L.Answer} (h : σ.Ends t L .done q n r l) :
    ∃ ds, σ.Completes t L .done q n ds r l := by
  cases h with
  | itself h => exact h.completes (.ended h.activity)
  | crash h hr => exact h.completes (.crashed hr)

structure Allocates (σ : Run I) (t : ThreadId) (v : Value) (k : ℕ) (i : Instance) (l : ℕ) :
    Prop where
  performs : σ.Performs k t (.allocate i.type v)
  object : i.object = (σ.state k).world.objects.length
  lt : k < l
  rests (j : ℕ) (hk : k < j) (hl : j < l) : σ.mover j ≠ some t

theorem Allocates.until {v : Value} {i : Instance} (h : σ.Allocates t v k i n) (hl : n ≤ l)
    (hm : ∀ j, n ≤ j → j < l → σ.mover j ≠ some t) : σ.Allocates t v k i l := by
  refine ⟨h.performs, h.object, Nat.lt_of_lt_of_le h.lt hl, fun j hk hj => ?_⟩
  obtain hlt | hge := Nat.lt_or_ge j n
  · exact h.rests j hk hlt
  · exact hm j hge hj

namespace Completes

variable {rest : Instance → Program C L.Answer} {i : Instance} {v : Value} {type : TypeKey}

theorem allocated (h : σ.Completes t L rest (allocate type v) n ds (.ok i) l) :
    i.type = type ∧ ∃ k, n ≤ k ∧ σ.Allocates t v k i l := by
  obtain ⟨k, th, reply, m, ds', hreach, hp, -, -, hdone⟩ := h.acted
  cases hp
  obtain ⟨he, hm, -⟩ := hdone.of_ended (.ok (Instance.mk type (σ.state k).world.objects.length))
  cases he
  exact ⟨rfl, k, hreach.le, hreach.performs, rfl, hdone.le, hm⟩

theorem copied {w : Instance} (h : σ.Completes t L rest (copy w) n ds (.ok i) l) :
    i.type = w.type ∧ ∃ d k, n ≤ d ∧ d < k ∧
      σ.Allocates t ((σ.state d).world.value w.object) k i l := by
  obtain ⟨d, th, reply, m, ds', hreach, hp, -, -, hnext⟩ := h.acted
  cases hp
  obtain ⟨htype, k, hk, hmade⟩ := hnext.allocated
  exact ⟨htype, d, k, hreach.le, hk, hmade⟩

variable {c : ContainerId} {name : String} {o : Overrides} {reg : Registration C}

theorem created {args : Arguments}
    (h : σ.Completes t L rest (reg.logic.invoke reg.shared c args) n ds (.ok i) l)
    (hs : reg.shared = false) (hc : reg.logic.Creates) :
    ∃ v k, n ≤ k ∧ σ.Allocates t v k i l ∧ ∀ w copies, reg.logic = .literal w copies →
      i.type = w.type ∧ ∃ d, n ≤ d ∧ d < k ∧ v = (σ.state d).world.value w.object := by
  obtain ⟨shared, logic⟩ := reg
  subst hs
  cases logic with
  | made provides parameters body =>
    obtain ⟨v, b, _, _, hrun, hmake⟩ := Completes.bind_ok h
    obtain ⟨-, k, hk, hmade⟩ := hmake.allocated
    exact ⟨v, k, hrun.le.trans hk, hmade, nofun⟩
  | given provides parameters body => exact hc.elim
  | constructed provides type =>
    obtain ⟨v, b, _, _, hrun, hmake⟩ := Completes.bind_ok h
    obtain ⟨-, k, hk, hmade⟩ := hmake.allocated
    exact ⟨v, k, hrun.le.trans hk, hmade, nofun⟩
  | literal value copies =>
    obtain rfl : copies = true := hc
    obtain ⟨htype, d, k, hd, hdk, hmade⟩ := Completes.copied h
    refine ⟨_, k, hd.trans (Nat.le_of_lt hdk), hmade, ?_⟩
    rintro w copies ⟨⟩
    exact ⟨htype, d, hd, hdk, rfl⟩

theorem built_new (h : σ.Completes t L rest (build c name reg o) n ds (.ok i) l)
    (hs : reg.shared = false) (hc : reg.logic.Creates) :
    ∃ v k, n ≤ k ∧ σ.Allocates t v k i l ∧ ∀ w copies, reg.logic = .literal w copies →
      i.type = w.type ∧ ∃ d, n ≤ d ∧ d < k ∧ v = (σ.state d).world.value w.object := by
  obtain ⟨_, b₁, _, _, htell, hrest⟩ := Completes.bind_ok h
  obtain ⟨parameters, b₂, _, _, hparameters, hrest⟩ := Completes.bind_ok hrest
  obtain ⟨args, b₃, _, _, hfill, hrest⟩ := Completes.bind_ok hrest
  obtain ⟨j, b₄, _, _, hinvoke, hcast⟩ := Completes.bind_ok hrest
  rw [Program.ofExcept_eq_ended] at hcast
  obtain ⟨he, hm, -⟩ := hcast.of_ended
  have hj : j.cast reg.provides ("service '" ++ name ++ "'") = .ok i := by
    cases hj : j.cast reg.provides ("service '" ++ name ++ "'") with
    | ok i' =>
      rw [hj] at he
      cases he
      rfl
    | error e => rw [hj] at he; cases he
  obtain ⟨-, rfl⟩ := Instance.cast_eq_ok.1 hj
  obtain ⟨v, k, hk, hmade, hcopy⟩ := hinvoke.created hs hc
  have hle : n ≤ b₃ := htell.le.trans (hparameters.le.trans hfill.le)
  refine ⟨v, k, hle.trans hk, hmade.until hcast.le hm, fun w copies hw => ?_⟩
  obtain ⟨htype, d, hd, hdk, hv⟩ := hcopy w copies hw
  exact ⟨htype, d, hle.trans hd, hdk, hv⟩

end Completes

variable {v : Value} {i : Instance} {c : ContainerId} {x : Target} {F : List (Frame C)}
  {next : Except Error Instance → Program C C.Report} {m : ℕ}

theorem holds_next (h : (σ.state n).Conceals R p stored holder) (hn : ∀ u, holder = some u → u = t)
    (hm : σ.mover n = some t)
    (hquiet : ∀ r F next, (σ.state n).activity t ≠ .resolving (.notify r) F next)
    (hnew : ∀ th th' fresh, (σ.state n).threads[t]? = some th →
      Machine.Move I (σ.state n) t th (σ.state (n + 1)).world th' fresh →
      (σ.state (n + 1)).world.Conceals R p stored ∧ th'.Conceals R p stored true ∧ fresh = []) :
    (σ.state (n + 1)).Conceals R p stored (some t) := by
  obtain ⟨th, ht, hst⟩ := Machine.step_cases (σ.moves n t hm)
  generalize σ.state (n + 1) = m' at hst hnew
  cases hst with
  | @move w th' fresh hmv =>
    obtain ⟨hw, hth', rfl⟩ := hnew th th' fresh ht hmv
    rw [List.append_nil]
    exact h.holds hn ht hw hth'
  | notify ha => exact absurd ((Machine.activity_eq ht).trans ha) (hquiet _ _ _)

theorem holds_act {a : Action C} {rest : a.Reply → Program C L.Answer}
    (h : (σ.state n).Conceals R p stored holder) (hn : ∀ u, holder = some u → u = t)
    (hm : σ.mover n = some t) (ha : (σ.state n).activity t = L.runs (.act a rest))
    (hmark : ∀ th : Thread C, (a.mark th).notes = th.notes) (hbrings : a.brings I = [])
    (hw : (σ.state (n + 1)).world.Conceals R p stored) :
    (σ.state (n + 1)).Conceals R p stored (some t) := by
  refine holds_next h hn hm (not_notify_of_runs ha) fun th th' fresh ht hmv => ?_
  obtain ⟨hth', hfresh⟩ :=
    hmv.conceals_act ((Machine.activity_eq ht).symm.trans ha) (h.threads ht) hmark
  exact ⟨hw, hth', hfresh.trans hbrings⟩

theorem hands_on (hI : I.Lacks R p stored) (h : (σ.state n).Guards R p v stored (some t))
    (ha : Machine.HandsOn i c x F next ((σ.state n).activity t)) (hw : σ.Within t F next n l)
    (hn : n ≤ m) (hl : m ≤ l) :
    Machine.HandsOn i c x F next ((σ.state m).activity t) ∧
      (σ.state m).Guards R p v stored (some t) := by
  induction hn with
  | refl => exact ⟨ha, h⟩
  | @step m hn ih =>
    obtain ⟨hat, hnow⟩ := ih (Nat.le_of_succ_le hl)
    by_cases hm : σ.mover m = some t
    · obtain ⟨th, ht, hst⟩ := Machine.step_cases (σ.moves m t hm)
      have hact := Machine.activity_eq ht
      have hth := hnow.threads ht
      rw [decide_eq_true rfl] at hth
      -- The end of the request is taken up no earlier than at its last moment.
      have hin : th.activity ≠ .resolving (.finish (.ok i)) F next := by
        intro hout
        obtain ⟨K, G, ha', hG⟩ := hw (m + 1) (Nat.le_succ_of_le hn) hl
        exact hst.finish_leaves ht (hact.trans hout) ha' hG
      rw [hact] at hat
      obtain ⟨th', fresh, hmv, ha'⟩ | ⟨r, G, next', ho, -⟩ := hst.activity ht
      · obtain ⟨hat', -, hworld, -⟩ := hmv.hands_on hat hin hth
        rw [ha']
        refine ⟨hat', ?_, hworld ▸ hnow.holds⟩
        refine holds_next hnow.toConceals (fun u hu => (Option.some.inj hu).symm) hm ?_ ?_
        · rw [hact]
          generalize th.activity = A at hat ⊢
          cases hat <;> exact nofun
        · intro th₁ th₁' fresh₁ ht₁ hmv₁
          cases ht.symm.trans ht₁
          obtain ⟨-, hth', hworld, hfresh⟩ := hmv₁.hands_on hat hin hth
          exact ⟨hworld ▸ hnow.world, hth', hfresh⟩
      · rw [hact] at ho
        generalize th.activity = A at hat ho
        cases hat <;> cases ho
    · refine ⟨?_, guards_next hI hnow fun u hu => Option.some.inj hu ▸ hm⟩
      obtain hbeside | ⟨s, owner, G, next', ho, -⟩ := (σ.beside t hm).activity
      · exact hbeside ▸ hat
      · generalize (σ.state m).activity t = A at hat ho
        cases hat <;> cases ho

/-- Thread `t` takes the answer `i` to a request for the service up at moment `l`. At moment `f` it
has looked the service up and found this registration. -/
structure Obtains (σ : Run I) (t : ThreadId) (c : ContainerId) (name : String) (o : Overrides)
    (reg : Registration C) (f : ℕ) (i : Instance) (l : ℕ) : Prop where
  found : ∃ e x, (σ.state f).world.entry? c name = some (e, x) ∧ x.registration = reg
  answers : ∃ (L : Scope C) (next : Except Error Instance → Program C L.Answer) (k : ℕ),
    σ.Requests t L (.service c name o) next k (.ok i) l ∧ k < f ∧ f < l ∧ σ.mover f = some t ∧
      (σ.state f).activity t = .resolving (.find c name o) (L.callers next) (L.onward next)

/-- The object of the instance is made at moment `j` and holds `v`. Before, nothing refers to it,
and until moment `l` nothing but what thread `t` is about to hand on. -/
structure Newborn (σ : Run I) (R : Reach C) (t : ThreadId) (v : Value) (j : ℕ) (i : Instance)
    (l : ℕ) : Prop where
  object : i.object = (σ.state j).world.objects.length
  unknown (m : ℕ) (h : m ≤ j) : (σ.state m).Conceals R i.object false none
  guarded (m : ℕ) (hj : j < m) (hl : m ≤ l) : (σ.state m).Guards R i.object v false (some t)

theorem Newborn.other {i' : Instance} {j : ℕ} (h : σ.Newborn R t v j i l) (hm : m ≤ j)
    (hi : (σ.state m).Shows i' ∨ (σ.state m).world.Stores i') : i'.object ≠ i.object := by
  obtain hshows | hstores := hi
  · exact (h.unknown m hm).shows hshows
  · exact (h.unknown m hm).world.stores hstores

/-- No object can be referred to before it is made, at first and by what the code does. -/
def Honest (σ : Run I) (R : Reach C) : Prop :=
  ∀ p, (σ.state 0).world.objects.length ≤ p →
    I.Lacks R p false ∧ (σ.state 0).Conceals R p false none

theorem Honest.unborn (hI : σ.Honest R) (hp : (σ.state k).world.objects.length ≤ p) :
    I.Lacks R p false ∧ (σ.state k).Conceals R p false none := by
  obtain ⟨hbodies, hstart⟩ := hI p ((objects_le (Nat.zero_le k)).trans hp)
  exact ⟨hbodies, conceals_unborn hbodies hstart hp (Nat.zero_le k)⟩

theorem Allocates.newborn (h : σ.Allocates t v k i l) (hI : σ.Honest R) :
    σ.Newborn R t v k i l := by
  have hunknown (m : ℕ) (hm : m ≤ k) : (σ.state m).Conceals R i.object false none :=
    (hI.unborn ((objects_le hm).trans (Nat.le_of_eq h.object.symm))).2
  have hbodies : I.Lacks R i.object false := (hI.unborn (Nat.le_of_eq h.object.symm)).1
  obtain ⟨hm, L, rest, ha⟩ := h.performs
  obtain ⟨th, reply, m', hperform, hworld⟩ := h.performs.world
  have hlacks : Action.Conceals R i.object false (.allocate i.type v : Action C) := by
    have hact := (hunknown k (Nat.le_refl k)).activity t
    rw [ha, decide_eq_false nofun] at hact
    exact (Activity.conceals_runs.1 hact).1.of_act.1
  have hafter : (σ.state (k + 1)).world.Conceals R i.object false := by
    rw [hworld]
    exact Machine.perform_conceals (hunknown k (Nat.le_refl k)).world hlacks hperform
  have hvalue : (σ.state (k + 1)).world.objects[i.object]? = some v := by
    cases hperform
    rw [hworld, h.object]
    exact List.getElem?_concat_length
  have hheld : (σ.state (k + 1)).Conceals R i.object false (some t) :=
    holds_act (hunknown k (Nat.le_refl k)) nofun hm ha (fun _ => rfl) rfl hafter
  refine ⟨h.object, hunknown, fun m hkm hml => ?_⟩
  refine guards_since hbodies ⟨hheld, hvalue⟩ hkm fun u hu j hj hjm => ?_
  exact Option.some.inj hu ▸ h.rests j hj (Nat.lt_of_lt_of_le hjm hml)

theorem Requests.obtains {next : Except Error Instance → Program C L.Answer} {name : String}
    {o : Overrides} (h : σ.Requests t L (.service c name o) next k (.ok i) l) :
    ∃ reg f, k < f ∧ σ.Obtains t c name o reg f i l := by
  obtain ⟨f, hkf, hfl, hm, -, hat⟩ := h.looks_up
  obtain ⟨e, x, he, -⟩ := h.built_at hkf hfl hm hat
  exact ⟨x.registration, f, hkf, ⟨e, x, he, rfl⟩, L, next, k, h, hkf, hfl, hm, hat⟩

theorem Obtains.newborn {name : String} {o : Overrides} {reg : Registration C} {f : ℕ}
    (h : σ.Obtains t c name o reg f i l) (hI : σ.Honest R) (hs : reg.shared = false)
    (hc : reg.logic.Creates) :
    ∃ v j, f < j ∧ j < l ∧ σ.Newborn R t v j i l ∧ ∀ w copies, reg.logic = .literal w copies →
      i.type = w.type ∧ ∃ d, f < d ∧ d < j ∧ v = (σ.state d).world.value w.object := by
  obtain ⟨⟨e, x, he, rfl⟩, L, next, k, hr, hkf, hfl, hm, hat⟩ := h
  obtain ⟨e', x', he', ⟨hshared, -⟩ | ⟨-, b, j, hb, hj, hown⟩⟩ := hr.built_at hkf hfl hm hat
  · cases he.symm.trans he'
    cases hs.symm.trans hshared
  · cases he.symm.trans he'
    obtain ⟨ds, hbuilt⟩ := hown.completes
    obtain ⟨v, a, hba, hmade, hcopy⟩ := hbuilt.built_new hs hc
    have hnew := hmade.newborn hI
    have hbodies : I.Lacks R i.object false := (hI.unborn (Nat.le_of_eq hnew.object.symm)).1
    have hrun := hbuilt.at_end.resolve_right nofun
    have hanswered : Machine.HandsOn i c (.service name) (L.callers next) (L.onward next)
        ((σ.state j).activity t) := by
      rw [hrun]
      exact .answered
    have hwithin : σ.Within t (L.callers next) (L.onward next) j l := by
      have hbj := hbuilt.le
      exact fun m hm hml => hr.within m (by omega) hml
    have hlt : j < l := by
      refine Nat.lt_of_le_of_ne hj fun he => ?_
      rw [he, hr.finishes] at hrun
      cases hrun
    refine ⟨v, a, by omega, hmade.lt.trans hlt, ⟨hnew.object, hnew.unknown, fun m ham hml => ?_⟩,
      fun w copies hw => ?_⟩
    · obtain hmj | hjm := Nat.le_total m j
      · exact hnew.guarded m ham hmj
      · have hnow := hnew.guarded j hmade.lt (Nat.le_refl j)
        exact (hands_on hbodies hnow hanswered hwithin hjm hml).2
    · obtain ⟨htype, d, hd, hda, hv⟩ := hcopy w copies hw
      exact ⟨htype, d, by omega, hda, hv⟩

end Run

end Wiring
