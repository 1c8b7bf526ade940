import Wiring.Proofs.Solitary

namespace Wiring

open Machine

variable {C : Client} {I : Implementation C} {w : World C} {c : ContainerId} {P : Contract I w c}
  {todo : List (Program C C.Report)} {records : List (StepRecord C)} {m m' : Machine C}
  {th th' : Thread C} {tell : Instance → C.Report} {name : String} {names : List String}

namespace Arrives

variable {late : ℕ → Prop} {k : ℕ}

def Rested (P : Contract I w c) (tell : Instance → C.Report) (name : String)
    (todo : List (Program C C.Report)) (records : List (StepRecord C)) (m : Machine C)
    (th : Thread C) : Prop :=
  th.activity = .idle ∧ ∃ record, Solo P todo (records ++ [record]) m th ∧
    P.Tells tell name record.outcome m.world.objects

theorem Rested.of_conclude {outcome : Except Failure C.Report} (h : Solo P todo records m th)
    (h' : Solo P (th.conclude outcome).todo (th.conclude outcome).records m'
      (th.conclude outcome)) (ht : P.Tells tell name outcome m'.world.objects) :
    Rested P tell name todo records m' (th.conclude outcome) := by
  refine ⟨rfl, ⟨outcome, th.notes, th.events⟩, ?_, ht⟩
  rw [← h.todo, ← h.records]
  exact h'

theorem tells {r : Except Failure Instance} (h : Solo P todo records m th)
    (ha : th.activity = .running (.ended (r.map tell)))
    (hr : P.fair [] (.service name) r m.world.objects) :
    Arrives P late records (Rested P tell name todo records) k m th := by
  have hs : (m.step I 0).isSome := by
    simp only [Machine.step, h.get, ha, Option.bind_eq_bind, Option.bind_some]
    obtain ((e | s) | i) := r <;> rfl
  refine of_step h hs (by rw [ha]; rintro _ _ _ ⟨⟩) fun w' th' fresh hm => ?_
  cases hm with
  | ownEnded hl =>
    obtain rfl := Program.ended_inj (Activity.running.inj (ha.symm.trans hl))
    exact ⟨rfl, h.holds, P.refl _, fun m' hw h' =>
      .reached (.of_conclude h h' ⟨r, hw ▸ hr, rfl⟩)⟩
  | ownAct hl => obtain ((e | s) | i) := r <;> cases ha.symm.trans hl
  | ownCall hl => obtain ((e | s) | i) := r <;> cases ha.symm.trans hl
  | ownResolve hl => obtain ((e | s) | i) := r <;> cases ha.symm.trans hl
  | _ => cases ha.symm.trans ‹th.activity = _›

theorem finish {r : Except Failure Instance} (h : Solo P todo records m th)
    (ha : th.activity = .resolving (.finish r) [] (report tell))
    (hr : P.fair [] (.service name) r m.world.objects) :
    Arrives P late records (Rested P tell name todo records) k m th := by
  have hs := h.step_isSome ha (by rintro _ _ ⟨⟩) (by rintro _ _ ⟨⟩)
  refine of_step h hs (by rw [ha]; rintro _ _ _ ⟨⟩) fun w' th' fresh hm => ?_
  cases hm with
  | @ownAnswer a next hl =>
    obtain ⟨hK, -, rfl⟩ := Activity.resolving.inj (ha.symm.trans hl)
    cases hK
    refine ⟨rfl, h.holds, P.refl _, fun m' hw h' => ?_⟩
    rw [← h.todo, ← h.records]
    exact tells h' (congrArg Activity.running (report_eq tell a)) (hw ▸ hr)
  | @ownCrash message next hl =>
    cases ha.symm.trans hl
    exact ⟨rfl, h.holds, P.refl _, fun m' hw h' =>
      .reached (.of_conclude h h' ⟨_, hw ▸ hr, rfl⟩)⟩
  | _ => cases ha.symm.trans ‹th.activity = _›

theorem ask (hname : Answers P late (k + 2) [] (.service name))
    (h : Solo P (Container.ask c tell name :: todo) records m th) (ha : th.activity = .idle) :
    Arrives P late records (Rested P tell name todo records) k m th := by
  have htodo := h.todo
  have hs : (m.step I 0).isSome := by
    simp only [Machine.step, h.get, ha, htodo, Option.bind_eq_bind, Option.bind_some,
      Option.isSome_some]
  refine of_step h hs (by rw [ha]; rintro _ _ _ ⟨⟩) fun w₁ th₁ fresh hm => ?_
  cases hm with
  | begin hl hp =>
    cases htodo.symm.trans hp
    refine ⟨rfl, h.holds, P.refl _, fun m₁ hw₁ h₁ => ?_⟩
    have hs : (m₁.step I 0).isSome := by
      simp only [Machine.step, h₁.get, Option.bind_eq_bind, Option.bind_some]
      rfl
    rw [← h.records]
    refine of_step h₁ hs (by rintro _ _ _ ⟨⟩) fun w₂ th₂ fresh hm => ?_
    cases hm with
    | ownResolve hl =>
      cases hl
      refine ⟨rfl, h₁.holds, P.refl _, fun m₂ hw₂ h₂ => ?_⟩
      refine (hname _ _ _ m₂ _ [] _ (Nat.le_refl _) h₂ rfl rfl).trans ?_
      rintro k₃ m₃ th₃ - - ⟨h₃, r, ha₃, hr⟩
      exact finish h₃ ha₃ hr
    | @ownEnded r hl => obtain ((e | s) | i) := r <;> cases hl
    | _ => cases (‹_ = _› : Activity.running _ = _)
  | _ => cases ha.symm.trans ‹th.activity = _›

end Arrives

inductive Machine.Takes (I : Implementation C) : ℕ → Machine C → Machine C → Prop
  | refl (m : Machine C) : Takes I 0 m m
  | head {n : ℕ} {m₁ m₂ m₃ : Machine C} (h : Steps I m₁ m₂) (ht : Takes I n m₂ m₃) :
      Takes I (n + 1) m₁ m₃

theorem Machine.Reaches.takes (h : Reaches I m m') : ∃ n, Takes I n m m' := by
  induction h using Relation.ReflTransGen.head_induction_on with
  | refl => exact ⟨0, .refl _⟩
  | head h _ ih =>
    obtain ⟨n, hn⟩ := ih
    exact ⟨n + 1, .head h hn⟩

theorem Machine.Steps.single (h : Steps I m m') (ht : m.threads = [th]) :
    m.step I 0 = some m' := by
  obtain ⟨t, hs⟩ := h
  obtain ⟨th₀, hth, -⟩ := step_cases hs
  have hl := (List.getElem?_eq_some_iff.1 hth).1
  rw [ht] at hl
  have hzero : t = 0 := by simpa using hl
  exact hzero ▸ hs

namespace Arrives

variable {goal : Machine C → Thread C → Prop} {k : ℕ}

theorem reaches (h : Arrives P (fun _ => False) records goal k m th) :
    ∃ m' th', Reaches I m m' ∧ goal m' th' := by
  induction h with
  | late h => exact h.elim
  | reached h => exact ⟨_, _, .refl, h⟩
  | step ht hr hs hg h ih =>
    obtain ⟨m', th', hreach, hgoal⟩ := ih
    exact ⟨m', th', .head ⟨0, hs⟩ hreach, hgoal⟩

theorem cover {bound n : ℕ} {m₁ : Machine C}
    (h : Arrives P (bound < ·) records goal k m th) (hn : Takes I n m m₁)
    (hb : k + n ≤ bound) :
    (∃ th₁, m₁.threads = [th₁] ∧ th₁.records = records ∧
        P.grows m.world.objects m₁.world.objects) ∨
      ∃ m' th' n', goal m' th' ∧ Takes I n' m' m₁ ∧
        P.grows m.world.objects m'.world.objects := by
  induction h generalizing n with
  | late h => omega
  | reached h => exact .inr ⟨_, _, n, h, hn, P.refl _⟩
  | step ht hr hs hg h ih =>
    cases hn with
    | refl => exact .inl ⟨_, ht, hr, P.refl _⟩
    | head hstep hn =>
      cases hs.symm.trans (hstep.single ht)
      obtain ⟨th₁, ht₁, hr₁, hg₁⟩ | ⟨m₂, th₂, n₂, hgoal, hn₂, hg₂⟩ := ih hn (by omega)
      · exact .inl ⟨th₁, ht₁, hr₁, P.trans hg hg₁⟩
      · exact .inr ⟨m₂, th₂, n₂, hgoal, hn₂, P.trans hg hg₂⟩

end Arrives

namespace Solo

theorem told (hP : P.Solitary) (hroot : P.Rooted) (hu : w.Unbuilt) {n : ℕ} {m₁ : Machine C}
    (h : Solo P (names.map (Container.ask c tell)) records m th) (ha : th.activity = .idle)
    (hn : Takes I n m m₁) :
    ∃ (th₁ : Thread C) (new : List (StepRecord C)), m₁.threads = [th₁] ∧
      th₁.records = records ++ new ∧ P.grows m.world.objects m₁.world.objects ∧
      ∀ (k : ℕ) (record : StepRecord C), new[k]? = some record → ∃ name, names[k]? = some name ∧
        P.Tells tell name record.outcome m₁.world.objects := by
  induction names generalizing records m th n with
  | nil =>
    cases hn with
    | refl =>
      have hrecords : th.records = records ++ [] := by rw [h.records, List.append_nil]
      exact ⟨th, [], h.threads, hrecords, P.refl _, fun k record hk => nomatch hk⟩
    | head hstep hn =>
      have hs := hstep.single h.threads
      simp only [Machine.step, h.get, ha, h.todo, List.map_nil, Option.bind_eq_bind,
        Option.bind_some] at hs
      cases hs
  | cons name names ih =>
    have hname : Answers P (n < ·) (0 + 2) [] (.service name) :=
      .of_bound hP hu (n := n) (by omega) (hroot name)
    have harrives := Arrives.ask (k := 0) hname h ha
    obtain ⟨th₁, ht₁, hr₁, hg₁⟩ | ⟨m', th', n', ⟨ha', record, h', htells⟩, hn', hg'⟩ :=
      harrives.cover hn (by omega)
    · have hrecords : th₁.records = records ++ [] := by rw [hr₁, List.append_nil]
      exact ⟨th₁, [], ht₁, hrecords, hg₁, fun k record hk => nomatch hk⟩
    · obtain ⟨th₁, new, ht₁, hr₁, hg₁, hall⟩ := ih h' ha' hn'
      have hrecords : th₁.records = records ++ record :: new := by simpa using hr₁
      refine ⟨th₁, record :: new, ht₁, hrecords, P.trans hg' hg₁, fun k record hk => ?_⟩
      cases k with
      | zero =>
        cases hk
        exact ⟨name, rfl, htells.grows hg₁⟩
      | succ k => exact hall k record hk

theorem answered (now rest : List String)
    (h : Solo P ((now ++ rest).map (Container.ask c tell)) records m th)
    (ha : th.activity = .idle)
    (hnow : ∀ name ∈ now, Answers P (fun _ => False) 2 [] (.service name)) :
    ∃ m' th' records', Reaches I m m' ∧ th'.activity = .idle ∧
      Solo P (rest.map (Container.ask c tell)) records' m' th' ∧
      records'.length = records.length + now.length := by
  induction now generalizing records m th with
  | nil => exact ⟨m, th, records, .refl, ha, h, rfl⟩
  | cons name now ih =>
    have hname := hnow name List.mem_cons_self
    obtain ⟨m₁, th₁, hreach₁, ha₁, record, h₁, -⟩ := (Arrives.ask (k := 0) hname h ha).reaches
    obtain ⟨m₂, th₂, records₂, hreach₂, ha₂, h₂, hlen⟩ :=
      ih h₁ ha₁ fun name hn => hnow name (List.mem_cons_of_mem _ hn)
    refine ⟨m₂, th₂, records₂, hreach₁.trans hreach₂, ha₂, h₂, ?_⟩
    simp only [hlen, List.length_append, List.length_cons, List.length_nil]
    omega

end Solo

theorem Machine.requests_solo (P : Contract I w c) (hu : w.Unbuilt) (tell : Instance → C.Report)
    (names : List String) :
    Solo P (names.map (Container.ask c tell)) [] (requests w c tell [names])
      { todo := names.map (Container.ask c tell) } where
  threads := rfl
  consistent := .of_fresh (requests_fresh hu)
  holds := ⟨⟨rfl, rfl⟩, P.refl _, fun he hi => by
    rw [requests, hu.uncached] at hi
    cases hi⟩
  todo := rfl
  records := rfl

end Wiring
