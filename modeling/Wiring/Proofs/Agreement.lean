import Wiring.Proofs.Course
import Wiring.Proofs.Provenance

namespace Wiring

variable {C : Client}

def Control.sought : Control C → Option (Site C)
  | .attempt s => some s
  | .claim s => some s
  | .asleep s _ => some s
  | .woken s _ => some s
  | _ => none

theorem Control.sought_of_awaited {K : Control C} {k : BuildKey} (h : K.awaited = some k) :
    ∃ s, K.sought = some s ∧ s.key = k := by
  cases K with
  | asleep s owner => exact ⟨s, rfl, Option.some.inj h⟩
  | woken s owner => exact ⟨s, rfl, Option.some.inj h⟩
  | _ => cases h

theorem Stage.sought {K : Control C} {F : List (Frame C)} {s : Site C} (h : Stage K F)
    (hs : K.sought = some s) :
    ∃ G, F = .inside s.container (.service s.name) :: G ∧ Nested G := by
  cases h with
  | attempt hG => cases hs; exact ⟨_, rfl, hG⟩
  | claim hG => cases hs; exact ⟨_, rfl, hG⟩
  | asleep hG => cases hs; exact ⟨_, rfl, hG⟩
  | woken hG => cases hs; exact ⟨_, rfl, hG⟩
  | _ => cases hs

namespace Orderly

variable {S : Stack} {A : Activity C} {K : Control C} {F : List (Frame C)} {s : Site C}
  {next : Except Error Instance → Program C C.Report}

theorem head?_of_sought (h : Orderly S (.resolving K F next)) (hs : K.sought = some s) :
    S.head? = some s.key.target := by
  obtain ⟨G, rfl, -⟩ := h.stage.sought hs
  rw [h.stack_eq]
  rfl

theorem not_owned_of_sought (h : Orderly S (.resolving K F next)) (hs : K.sought = some s) :
    s.key ∉ (Activity.resolving K F next).owned := by
  intro hk
  have hnodup := h.nodup
  rw [h.stack_eq] at hnodup
  obtain ⟨G, rfl, hG⟩ := h.stage.sought hs
  have hmem := hG.owned_sublist.subset (List.mem_map_of_mem (f := BuildKey.target) hk)
  exact (List.nodup_cons.1 hnodup).1 hmem

theorem count_of_owned {k : BuildKey} (h : Orderly S A) (hk : k ∈ A.owned) :
    S.count k.target = 1 := by
  apply List.count_eq_one_of_mem h.nodup
  exact h.owned_sublist.subset (List.mem_map_of_mem hk)

end Orderly

namespace Machine

variable {I : Implementation C} {m m' : Machine C} {t : ThreadId} {th th' : Thread C}
  {w : World C} {fresh : List (Thread C)} {s : Site C} {k : BuildKey} {K K' : Control C}
  {F G G' : List (Frame C)} {next next' : Except Error Instance → Program C C.Report}

def Lingers (m : Machine C) (t : ThreadId) (k : BuildKey) : Prop :=
  ∃ s owner F next, s.key = k ∧
    (m.activity t = .resolving (.asleep s owner) F next ∨
      m.activity t = .resolving (.woken s owner) F next)

/-- The table of owners, the table of waiting threads and the stacks agree. -/
structure Agrees (m : Machine C) : Prop where
  once {t : ThreadId} {k : BuildKey} (h : m.world.builds.owners.get? k = some t) :
    (m.stack t).count k.target = 1
  top {t : ThreadId} {k : BuildKey} (h : m.world.builds.waiting.get? t = some k) :
    (m.stack t).head? = some k.target
  apart {t : ThreadId} {k : BuildKey} (h : m.world.builds.waiting.get? t = some k) :
    m.world.builds.owners.get? k ≠ some t
  lingers (t : ThreadId) (k : BuildKey) :
    m.world.builds.waiting.get? t = some k ↔ m.Lingers t k
  single {t : ThreadId} {k k' : BuildKey} (h : m.Lingers t k) (h' : m.Lingers t k') : k = k'
  claims {t : ThreadId} {s : Site C} {F : List (Frame C)}
    {next : Except Error Instance → Program C C.Report}
    (h : m.activity t = .resolving (.claim s) F next) :
    m.world.builds.owners.get? s.key ≠ some t

theorem awaited_eq_some_iff : m.awaited t = some k ↔ m.Lingers t k := by
  constructor
  · intro h
    cases ha : m.activity t with
    | resolving K F next =>
      rw [awaited, ha] at h
      cases K with
      | asleep s owner => exact ⟨s, owner, F, next, Option.some.inj h, .inl ha⟩
      | woken s owner => exact ⟨s, owner, F, next, Option.some.inj h, .inr ha⟩
      | _ => cases h
    | _ => rw [awaited, ha] at h; cases h
  · rintro ⟨s, owner, F, next, rfl, ha | ha⟩
    · rw [awaited, ha]
      rfl
    · rw [awaited, ha]
      rfl

theorem Consistent.sought_of_awaited (h : m.Consistent) (hk : m.awaited t = some k) :
    (m.stack t).head? = some k.target ∧ k ∉ m.owned t := by
  have ho := h.orderly_activity t
  rw [awaited] at hk
  rw [owned]
  cases ha : m.activity t with
  | resolving K F next =>
    rw [ha] at ho hk
    obtain ⟨s, hs, rfl⟩ := Control.sought_of_awaited hk
    exact ⟨ho.head?_of_sought hs, ho.not_owned_of_sought hs⟩
  | _ => rw [ha] at hk; cases hk

theorem Consistent.agrees (h : m.Consistent) : m.Agrees where
  once ho := (h.orderly_activity _).count_of_owned ((h.owners _ _).1 ho)
  top hw := by
    rw [h.waiting] at hw
    exact (h.sought_of_awaited hw).1
  apart hw ho := by
    rw [h.waiting] at hw
    exact (h.sought_of_awaited hw).2 ((h.owners _ _).1 ho)
  lingers t k := by rw [h.waiting, awaited_eq_some_iff]
  single hk hk' := by
    rw [← awaited_eq_some_iff] at hk hk'
    exact Option.some.inj (hk.symm.trans hk')
  claims ha ho := h.not_owned_of_claim ha ((h.owners _ _).1 ho)

inductive Past (F : List (Frame C)) : Control C → List (Frame C) → Prop
  | claim {s : Site C} : Past F (.claim s) F
  | notify {r : Except Failure Instance} : Past F (.notify r) F
  | finish {r : Except Failure Instance} : Past F (.finish r) F
  | owns {s : Site C} {K : Control C} {G : List (Frame C)} (h : .owns s :: F <:+ G) : Past F K G

theorem Past.not_attempt (h : Past F K F) : K ≠ .attempt s := by
  rintro rfl
  cases h with
  | owns h =>
    have hle := h.length_le
    rw [List.length_cons] at hle
    omega

theorem Move.past_release {r : Except Failure Instance} (hm : Move I m t th w th' fresh)
    (h : th.activity = .resolving (.finish r) (.owns s :: F) next) :
    th'.activity = .resolving (.notify r) F next := by
  cases hm with
  | release h' => cases h.symm.trans h'; rfl
  | _ => cases h.symm.trans ‹th.activity = _›

theorem Move.past_claim (hm : Move I m t th w th' fresh)
    (h : th.activity = .resolving (.claim s) F next)
    (hfree : m.world.builds.owners.get? s.key = none) :
    w.builds.owners.get? s.key = some t ∧
      th'.activity = .resolving (.recheck s) (.owns s :: F) next := by
  cases hm with
  | claimFree h' ho =>
    cases h.symm.trans h'
    constructor
    · simp only [BuildGraph.claim, Table.get?_insert, if_pos]
    · rfl
  | claimCycle h' ho hc => cases h.symm.trans h'; cases hfree.symm.trans ho
  | claimWait h' ho hc => cases h.symm.trans h'; cases hfree.symm.trans ho
  | _ => cases h.symm.trans ‹th.activity = _›

theorem Consistent.claim_taken (I : Implementation C) (h : m.Consistent)
    (hone : m.threads.length = 1) (ha : m.activity t = .resolving (.claim s) F next) :
    ∃ m', m.step I t = some m' ∧ m'.world.builds.owners.get? s.key = some t ∧
      m'.activity t = .resolving (.recheck s) (.owns s :: F) next := by
  have hready : ¬ m.Held I t := by
    rintro ⟨th, a, ht, -, ⟨rest, hr⟩ | ⟨rest, G, next', hr⟩⟩
    · cases (activity_eq ht).symm.trans ha |>.symm.trans hr
    · cases (activity_eq ht).symm.trans ha |>.symm.trans hr
  obtain ⟨m', hs⟩ := Option.isSome_iff_exists.1 (step_isSome ha nofun hready)
  obtain ⟨th, ht, hst⟩ := step_cases hs
  obtain ⟨th', fresh, hm, hth'⟩ | ⟨r, G, next', hn, -⟩ := hst.activity ht
  · obtain ⟨hown, hnew⟩ := hm.past_claim ((activity_eq ht).symm.trans ha) (h.claim_free hone ha)
    exact ⟨m', hs, hown, hth'.trans hnew⟩
  · cases ha.symm.trans hn

theorem Move.past_attempt (hm : Move I m t th w th' fresh)
    (h : th.activity = .resolving (.attempt s) F next) :
    ∃ K, th'.activity = .resolving K F next ∧ Past F K F := by
  cases hm with
  | attemptHit h' hi => cases h.symm.trans h'; exact ⟨_, rfl, .finish⟩
  | attemptMiss h' hi => cases h.symm.trans h'; exact ⟨_, rfl, .claim⟩
  | _ => cases h.symm.trans ‹th.activity = _›

theorem Stepped.past (h : Stepped I m t th m') (ht : m.threads[t]? = some th)
    (hc : m.Consistent) (hone : m.threads.length = 1)
    (ha : m.activity t = .resolving K G next) (hp : Past F K G)
    (ha' : m'.activity t = .resolving K' G' next) (hF : F <:+ G') : Past F K' G' := by
  obtain ⟨th', fresh, hm, hth'⟩ | ⟨r, G₁, next₁, hn, hn', -⟩ := h.activity ht
  · have hth := (activity_eq ht).symm.trans ha
    cases hp with
    | claim =>
      obtain ⟨-, hnew⟩ := hm.past_claim hth (hc.claim_free hone ha)
      cases (hth'.trans hnew).symm.trans ha'
      exact .owns List.suffix_rfl
    | notify => exact absurd hth (hm.not_notify _)
    | finish => exact absurd hF (h.finish_leaves ht ha ha')
    | @owns s _ _ hG =>
      rw [hth'] at ha'
      obtain ⟨K₁, G₁, hnew, hG₁⟩ | ⟨r, rfl, rfl | ⟨f, K₁, G₁, rfl, hnew⟩⟩ := hm.frames hth
      · cases hnew.symm.trans ha'
        exact .owns (hG.trans hG₁)
      · exact absurd hG.length_le (by simp)
      · cases hnew.symm.trans ha'
        obtain he | hG := List.suffix_cons_iff.1 hG
        · cases he
          cases (hm.past_release hth).symm.trans ha'
          exact .notify
        · exact .owns hG
  · cases hn.symm.trans ha
    cases hn'.symm.trans ha'
    cases hp with
    | notify => exact .finish
    | owns hG => exact .owns hG

end Machine

namespace Run

variable {I : Implementation C} {σ : Run I} {t : ThreadId} {k l : ℕ} {s s' : Site C}
  {F : List (Frame C)} {next : Except Error Instance → Program C C.Report}

theorem Within.past (hw : σ.Within t F next k l) (hone : (σ.state l).threads.length = 1)
    (hm : σ.mover k = some t) (ha : (σ.state k).activity t = .resolving (.attempt s) F next)
    (hl : k < l) : ∃ K G, (σ.state l).activity t = .resolving K G next ∧ Machine.Past F K G := by
  induction hl with
  | refl =>
    obtain ⟨th, th', fresh, hth, hmv, hnew⟩ := σ.move t hm fun r G next' h => by
      cases ha.symm.trans h
    obtain ⟨K, hK, hp⟩ := hmv.past_attempt (hth.trans ha)
    exact ⟨K, F, hnew.trans hK, hp⟩
  | @step l hl ih =>
    cases hml : σ.mover l with
    | none =>
      rw [σ.idles l hml] at hone ⊢
      exact ih (fun j hj hj' => hw j hj (Nat.le_succ_of_le hj')) hone
    | some u =>
      obtain ⟨rfl, hnow⟩ := single_at hone (Nat.le_succ l) hml
      obtain ⟨rfl, -⟩ := single_at hone (Nat.le_of_lt (Nat.lt_succ_of_lt hl)) hm
      obtain ⟨K, G, hact, hp⟩ := ih (fun j hj hj' => hw j hj (Nat.le_succ_of_le hj')) hnow
      obtain ⟨th, ht, hst⟩ := Machine.step_cases (σ.moves l _ hml)
      obtain ⟨K', G', hact', hF⟩ := hw (l + 1) (Nat.le_succ_of_le (Nat.le_of_lt hl)) (Nat.le_refl _)
      exact ⟨K', G', hact', hst.past ht (σ.reachable l).consistent hnow hact hp hact' hF⟩

/-- In every reachable machine the stacks and the build graph agree. A single thread becomes the
owner of each build that it claims, and as long as it has the frames in which it looked at the cache
before claiming, it does not do so again. -/
theorem bookkeeping_agrees (I : Implementation C) :
    (∀ m : Machine C, m.Reachable I → m.Agrees) ∧
    (∀ m : Machine C, m.Reachable I → m.threads.length = 1 → ∀ t s F next,
      m.activity t = .resolving (.claim s) F next →
      ∃ m', m.step I t = some m' ∧ m'.world.builds.owners.get? s.key = some t ∧
        m'.activity t = .resolving (.recheck s) (.owns s :: F) next) ∧
    ∀ (σ : Run I) t F next k l, (σ.state l).threads.length = 1 → σ.Within t F next k l →
      σ.mover k = some t → (∃ s, (σ.state k).activity t = .resolving (.attempt s) F next) →
      ∀ j, k < j → j ≤ l → ∀ s, (σ.state j).activity t ≠ .resolving (.attempt s) F next := by
  refine ⟨fun m h => h.consistent.agrees, ?_, ?_⟩
  · intro m h hone t s F next ha
    exact h.consistent.claim_taken I hone ha
  · intro σ t F next k l hone hw hm ⟨s, ha⟩ j hk hj s' ha'
    have hone' : (σ.state j).threads.length = 1 := by
      obtain ⟨-, hnow⟩ := single_at hone (Nat.le_trans (Nat.le_of_lt hk) hj) hm
      have hle := threads_le (σ := σ) (Nat.le_of_lt hk)
      have hge := threads_le (σ := σ) hj
      omega
    obtain ⟨K, G, hact, hp⟩ := Within.past (fun i hi hij => hw i hi (hij.trans hj)) hone' hm ha hk
    cases ha'.symm.trans hact
    exact hp.not_attempt rfl

def unrivalled : Run Implementation.plain :=
  along ⟨.ofServices () [("a", ⟨true, .made (.of "A") [] ()⟩)],
    [{ todo := [(Container.get 0 "a").bind fun _ => .done ()] }]⟩
    { world := World.ofServices_unbuilt _ _
      threads := fun h => by rw [List.mem_singleton.1 h]; exact ⟨rfl, rfl, rfl⟩ } fun _ => 0

theorem bookkeeping_agrees_unrivalled :
    let m := Machine.rivals.follow .plain (List.replicate 7 0 ++ List.replicate 7 1)
    let next : Except Error Instance → Program Client.plain Unit := fun r =>
      (Program.ofExcept r).bind fun _ => .done ()
    (m.stack 0).count (0, .service "a") = 1 ∧ (m.stack 1).head? = some (0, .service "a") ∧
      m.Lingers 1 ⟨0, "a"⟩ ∧
      (∃ m', (unrivalled.state 6).step .plain 0 = some m' ∧
        m'.world.builds.owners.get? ⟨0, "a"⟩ = some 0) ∧
      ∀ j, 5 < j → j ≤ 15 → ∀ s,
        (unrivalled.state j).activity 0 ≠
          .resolving (.attempt s) [.inside 0 (.service "a")] next := by
  intro m next
  have hm : m.Reachable .plain := ⟨_, Machine.rivals_fresh, Machine.follow_reaches _ _ _⟩
  obtain ⟨hagrees, hclaims, hloop⟩ := bookkeeping_agrees .plain
  have howns : m.world.builds.owners.get? ⟨0, "a"⟩ = some 0 := by decide +kernel
  have hwaits : m.world.builds.waiting.get? 1 = some ⟨0, "a"⟩ := by decide +kernel
  refine ⟨(hagrees m hm).once howns, (hagrees m hm).top hwaits,
    ((hagrees m hm).lingers 1 _).1 hwaits, ?_, ?_⟩
  · obtain ⟨m', hs, hown, -⟩ := hclaims _ (unrivalled.reachable 6) rfl 0 ⟨0, "a", 0, _⟩ _ _ rfl
    exact ⟨m', hs, hown⟩
  · refine hloop unrivalled 0 _ next 5 15 rfl ?_ rfl ⟨⟨0, "a", 0, _⟩, rfl⟩
    intro l hk hl
    interval_cases l
    all_goals
      refine ⟨_, _, rfl, ?_⟩
      first
      | exact ⟨[], rfl⟩
      | exact ⟨[_], rfl⟩
      | exact ⟨[_, _], rfl⟩

end Run

end Wiring
