import Wiring.Proofs.Bookkeeping
import Wiring.Proofs.WaitGraph

namespace Wiring

open Relation (ReflTransGen TransGen)

variable {C : Client}

theorem Ledger.acyclic {t : ThreadId} {g g' : BuildGraph} {O O' : List BuildKey}
    {a a' : Option BuildKey} (h : Ledger t g O a g' O' a') (hw : g.waiting.get? t = a)
    (hg : g.Acyclic) : g'.Acyclic := by
  cases h with
  | same => exact hg
  | @claim k free =>
    -- Who waited for the earlier owner of the build now waits for `t`, which waits for nobody.
    refine hg.of_edges_to t ?_ ?_
    · rintro v ⟨b, hb, -⟩
      cases hw.symm.trans hb
    · rintro u v ⟨b, hb, hv⟩
      simp only [BuildGraph.claim, Table.get?_insert] at hv
      split at hv
      · exact .inr (Option.some.inj hv).symm
      · exact .inl ⟨b, hb, hv⟩
  | @release k rest hO =>
    refine hg.mono ?_
    rintro u v ⟨b, hb, hv⟩
    simp only [BuildGraph.release, Table.get?_erase] at hv
    split at hv
    · cases hv
    · exact ⟨b, hb, hv⟩
  | @wait k owner ho hc =>
    refine hg.of_edge t owner (fun h => ?_) ?_
    · have := BuildGraph.waitCycle_isSome_iff.2 ⟨owner, ho, h⟩
      rw [hc] at this
      cases this
    · rintro u v ⟨b, hb, hv⟩
      simp only [BuildGraph.wait, Table.get?_insert] at hb
      split at hb
      · next htu =>
        cases hb
        exact .inr ⟨htu.symm, Option.some.inj (hv.symm.trans ho)⟩
      · exact .inl ⟨b, hb, hv⟩
  | leave =>
    refine hg.mono ?_
    rintro u v ⟨b, hb, hv⟩
    simp only [BuildGraph.leave, Table.get?_erase] at hb
    split at hb
    · cases hb
    · exact ⟨b, hb, hv⟩

theorem Thread.wake_not_asleep (th : Thread C) (s : Site C) (owner : ThreadId)
    (F : List (Frame C)) (next : Except Error Instance → Program C C.Report) :
    th.wake.activity ≠ .resolving (.asleep s owner) F next := by
  intro h
  unfold wake at h
  split at h
  · cases h
  · next hne => exact hne _ _ _ _ h

namespace Machine

variable {I : Implementation C} {m m' : Machine C} {t u : ThreadId} {th th' : Thread C}
  {w : World C} {fresh : List (Thread C)} {s : Site C} {owner : ThreadId} {k : BuildKey}
  {F : List (Frame C)} {next : Except Error Instance → Program C C.Report}

theorem Reachable.acyclic (h : m.Reachable I) : m.world.builds.Acyclic := by
  refine h.induct (P := fun m => m.world.builds.Acyclic) ?_ ?_
  · intro m hf t ht
    obtain ⟨u, ⟨k, hk, -⟩, -⟩ := TransGen.head'_iff.1 ht
    rw [hf.world.builds] at hk
    cases hk
  · intro m m' t hr hg hs
    obtain ⟨th, ht, h⟩ := step_cases hs
    exact (h.ledger ht (hr.consistent.orderly ht)).acyclic (hr.consistent.waiting t) hg

def Asleep (m : Machine C) (t : ThreadId) (k : BuildKey) (owner : ThreadId) : Prop :=
  ∃ s F next, s.key = k ∧ m.activity t = .resolving (.asleep s owner) F next

def Notifying (m : Machine C) (t : ThreadId) : Prop :=
  ∃ r F next, m.activity t = .resolving (.notify r) F next

/-- Thread `t` sleeps, and the owner that it sleeps for still owns the build. -/
def Blocked (m : Machine C) (t : ThreadId) : Prop :=
  ∃ k owner, m.Asleep t k owner ∧ m.world.builds.owners.get? k = some owner

def Noticed (m : Machine C) : Prop :=
  ∀ t k owner, m.Asleep t k owner →
    m.world.builds.owners.get? k = some owner ∨ ∃ u, m.Notifying u

theorem Move.asleep (hm : Move I m t th w th' fresh) (ho : Orderly th.stack th.activity)
    (h : th'.activity = .resolving (.asleep s owner) F next) :
    w.builds.owners.get? s.key = some owner := by
  cases hm with
  | claimWait h' hb hc => cases h; exact hb
  | wokenAgain h' hb => cases h; exact hb
  | @ownResolve g rest h' => cases g <;> cases h
  | @runResolve g rest F next h' => cases g <;> cases h
  | enterNew h' hc =>
    rw [h'] at ho
    cases ho.stage with
    | enterShared hF => cases h
    | enterPlain hF => cases h
  | _ => cases h

theorem Move.not_notify (hm : Move I m t th w th' fresh) (r : Except Failure Instance) :
    th.activity ≠ .resolving (.notify r) F next := by
  intro h
  cases hm <;> cases h.symm.trans ‹th.activity = _›

theorem Move.disowns (hm : Move I m t th w th' fresh)
    (h : m.world.builds.owners.get? k = some owner) :
    w.builds.owners.get? k = some owner ∨
      ∃ r F next, th'.activity = .resolving (.notify r) F next := by
  cases hm with
  | ownAct h' ha => exact .inl (by rw [(perform_edit ha).builds, h])
  | runAct h' ha => exact .inl (by rw [(perform_edit ha).builds, h])
  | release h' => exact .inr ⟨_, _, _, rfl⟩
  | @claimFree s F next h' ho =>
    refine .inl ?_
    have hne : s.key ≠ k := fun he => by rw [he, h] at ho; cases ho
    rw [BuildGraph.claim, Table.get?_insert, if_neg hne, h]
  | _ => exact .inl h

theorem Stepped.awake (h : Stepped I m t th m') (ht : m.threads[t]? = some th)
    (hn : m.Notifying t) : ¬ m'.Asleep u k owner := by
  rintro ⟨s, F, next, -, ha⟩
  obtain ⟨r, G, next', hn⟩ := hn
  rw [activity_eq ht] at hn
  cases h with
  | move hm => exact hm.not_notify r hn
  | notify h' =>
    simp only [Machine.activity, List.getElem?_set, List.getElem?_map, List.length_map] at ha
    split at ha
    · split at ha
      · cases ha
      · cases ha
    · cases hu : m.threads[u]? with
      | none => rw [hu] at ha; cases ha
      | some a => rw [hu] at ha; exact Thread.wake_not_asleep a s owner F next ha

theorem Noticed.step (hn : m.Noticed) (hc : m.Consistent) (hs : m.step I t = some m') :
    m'.Noticed := by
  obtain ⟨th, ht, h⟩ := step_cases hs
  rintro u k owner ⟨s, F, next, rfl, ha⟩
  obtain ⟨th', fresh, hm, hself⟩ | ⟨r, G, next', ho, -⟩ := h.activity ht
  · by_cases hu : u = t
    · subst hu
      exact .inl (hm.asleep (hc.orderly ht) (hself.symm.trans ha))
    · have hold : m.activity u = .resolving (.asleep s owner) F next := by
        obtain hb | ⟨s', owner', G, next', -, hb⟩ := (h.beside hu).activity
        · exact hb ▸ ha
        · cases ha.symm.trans hb
      obtain hown | ⟨v, r, G, next', hv⟩ := hn u s.key owner ⟨s, F, next, rfl, hold⟩
      · -- If this step takes the build away from its owner, then its notification is still to come.
        obtain hown | ⟨r, G, next', hth⟩ := hm.disowns hown
        · exact .inl hown
        · exact .inr ⟨t, r, G, next', hself.trans hth⟩
      · have hvt : v ≠ t := by
          rintro rfl
          exact hm.not_notify r ((activity_eq ht).symm.trans hv)
        obtain hb | ⟨s', owner', G', next'', hb, -⟩ := (h.beside hvt).activity
        · exact .inr ⟨v, r, G, next', hb.trans hv⟩
        · cases hv.symm.trans hb
  · exact absurd ⟨s, F, next, rfl, ha⟩ (h.awake ht ⟨r, G, next', ho⟩)

theorem Reachable.noticed (h : m.Reachable I) : m.Noticed := by
  refine h.induct (P := Noticed) ?_ (fun _ _ _ hr hn hs => hn.step hr.consistent hs)
  rintro m hf t k owner ⟨s, F, next, -, ha⟩
  rw [hf.activity] at ha
  cases ha

def Held (I : Implementation C) (m : Machine C) (t : ThreadId) : Prop :=
  ∃ th a, m.threads[t]? = some th ∧ m.perform I t th a = none ∧
    ((∃ rest, th.activity = .running (.act a rest)) ∨
      ∃ rest F next, th.activity = .resolving (.run (.act a rest)) F next)

theorem step_isSome {K : Control C} (ha : m.activity t = .resolving K F next)
    (hK : ∀ s owner, K ≠ .asleep s owner) (hh : ¬ m.Held I t) : (m.step I t).isSome := by
  cases ht : m.threads[t]? with
  | none => rw [activity, ht] at ha; cases ha
  | some th =>
    rw [activity_eq ht] at ha
    simp only [step, ht, Option.bind_eq_bind, Option.bind_some, ha]
    cases K with
    | asleep s owner => exact absurd rfl (hK s owner)
    | run p =>
      cases p with
      | act a rest =>
        cases hp : m.perform I t th a with
        | none => exact absurd ⟨th, a, ht, hp, .inr ⟨rest, F, next, ha⟩⟩ hh
        | some r => simp only [advance, runInside, hp, Option.map_some, Option.isSome_some]
      | _ => rfl
    | _ => rfl

theorem Consistent.resolving_of_waitsFor (hc : m.Consistent) (h : m.world.builds.WaitsFor u t) :
    ∃ K F next, m.activity t = .resolving K F next := by
  obtain ⟨k, -, ho⟩ := h
  have hk := (hc.owners k t).1 ho
  cases ha : m.activity t with
  | resolving K F next => exact ⟨K, F, next, rfl⟩
  | _ => rw [owned, ha] at hk; cases hk

theorem Blocked.waitsFor (hc : m.Consistent) (h : m.Blocked t) :
    ∃ u, m.world.builds.WaitsFor t u := by
  obtain ⟨k, owner, ⟨s, F, next, rfl, ha⟩, ho⟩ := h
  refine ⟨owner, s.key, ?_, ho⟩
  rw [hc.waiting, awaited, ha]
  rfl

theorem Reachable.last_steps (h : m.Reachable I) (hh : ∀ u, ¬ m.Held I u)
    (ht : m.world.builds.WaitsFor u t) (hlast : ∀ v, ¬ m.world.builds.WaitsFor t v) :
    ∃ v, (m.step I v).isSome := by
  have hc := h.consistent
  obtain ⟨K, F, next, ha⟩ := hc.resolving_of_waitsFor ht
  by_cases hK : ∃ s owner, K = .asleep s owner
  · obtain ⟨s, owner, rfl⟩ := hK
    have hwait : m.world.builds.waiting.get? t = some s.key := by
      rw [hc.waiting, awaited, ha]
      rfl
    obtain ho | ⟨v, r, G, next', hv⟩ := h.noticed t s.key owner ⟨s, F, next, rfl, ha⟩
    · exact absurd ⟨s.key, hwait, ho⟩ (hlast owner)
    · exact ⟨v, step_isSome hv (by rintro _ _ ⟨⟩) (hh v)⟩
  · exact ⟨t, step_isSome ha (fun s owner he => hK ⟨s, owner, he⟩) (hh t)⟩

/-- In every reachable machine no thread waits for itself in the end; from a blocked thread the way
along owners and what they wait for ends at one that is not blocked; who sleeps has a reason to, or
will be woken; and as long as no code waits of its own accord, somebody can go on while a thread is
blocked. -/
theorem Reachable.no_deadlock (h : m.Reachable I) :
    (∀ t, ¬ TransGen m.world.builds.WaitsFor t t) ∧
      (∀ t, m.Blocked t → ∃ u, TransGen m.world.builds.WaitsFor t u ∧
        (∀ v, ¬ m.world.builds.WaitsFor u v) ∧ ¬ m.Blocked u) ∧
      (∀ t k owner, m.Asleep t k owner →
        m.world.builds.owners.get? k = some owner ∨ ∃ u, m.Notifying u) ∧
      ((∀ u, ¬ m.Held I u) → ∀ t, m.Blocked t → ∃ u, (m.step I u).isSome) := by
  have hc := h.consistent
  have hend : ∀ t, m.Blocked t → ∃ u v, TransGen m.world.builds.WaitsFor t u ∧
      m.world.builds.WaitsFor v u ∧ ∀ v, ¬ m.world.builds.WaitsFor u v := by
    intro t ht
    obtain ⟨owner, ho⟩ := ht.waitsFor hc
    obtain ⟨u, hu, hlast⟩ := h.acyclic.exists_last owner
    have htu : TransGen m.world.builds.WaitsFor t u := .head' ho hu
    obtain ⟨v, -, hv⟩ := TransGen.tail'_iff.1 htu
    exact ⟨u, v, htu, hv, hlast⟩
  refine ⟨h.acyclic, fun t ht => ?_, h.noticed, fun hh t ht => ?_⟩
  · obtain ⟨u, v, htu, -, hlast⟩ := hend t ht
    refine ⟨u, htu, hlast, fun hu => ?_⟩
    obtain ⟨v, hv⟩ := hu.waitsFor hc
    exact hlast v hv
  · obtain ⟨u, v, -, hv, hlast⟩ := hend t ht
    exact h.last_steps hh hv hlast

theorem Reachable.no_deadlock_rivals :
    let m := rivals.follow .plain (List.replicate 7 0 ++ List.replicate 7 1)
    m.Blocked 1 ∧ ∃ u, TransGen m.world.builds.WaitsFor 1 u ∧ ¬ m.Blocked u := by
  intro m
  have hm : m.Reachable .plain := ⟨_, rivals_fresh, follow_reaches _ _ _⟩
  have hb : m.Blocked 1 := ⟨⟨0, "a"⟩, 0, ⟨⟨0, "a", 0, _⟩, _, _, rfl, rfl⟩, rfl⟩
  obtain ⟨-, hlast, -⟩ := no_deadlock hm
  obtain ⟨u, hu, -, hn⟩ := hlast 1 hb
  exact ⟨hb, u, hu, hn⟩

end Machine

end Wiring
