import Wiring.Proofs.Course
import Wiring.Proofs.Lockstep

namespace Wiring

variable {C : Client} {α : Type}

structure Stance (C : Client) where
  world : World C
  activity : Activity C

def Machine.Stands (m : Machine C) (a : Stance C) : Prop :=
  m.threads.length = 1 ∧ m.world.settled = a.world ∧ m.activity 0 = a.activity

namespace Scope

theorem contains_runs (L : Scope C) (p : Program C L.Answer) : L.Contains (L.runs p) := by
  cases L with
  | own => trivial
  | inside F next => exact ⟨_, F, rfl, List.suffix_rfl⟩

theorem contains_ended (L : Scope C) (r : Except Failure L.Answer) : L.Contains (L.ended r) := by
  cases L with
  | own => trivial
  | inside F next => exact ⟨_, F, rfl, List.suffix_rfl⟩

theorem Awaits.contains {L : Scope C} {next : Except Error Instance → Program C L.Answer}
    {A : Activity C} (h : L.Awaits next A) : L.Contains A := by
  cases L with
  | own => trivial
  | inside F next =>
    obtain ⟨K, G, rfl, hG⟩ := h
    exact ⟨K, G, rfl, (List.suffix_cons _ F).trans hG⟩

end Scope

theorem Machine.Stepped.length_eq {I : Implementation C} {m m' : Machine C} {t : ThreadId}
    {th : Thread C} (h : Stepped I m t th m')
    (hact : ∀ (L : Scope C) a rest, th.activity ≠ L.runs (.act a rest)) :
    m'.threads.length = m.threads.length := by
  cases h with
  | notify _ => simp
  | move hm =>
    cases hm with
    | ownAct h' _ => exact absurd h' (hact .own _ _)
    | runAct h' _ => exact absurd h' (hact (.inside _ _) _ _)
    | _ => simp

namespace Run

variable {I : Implementation C} (σ : Run I)

def Carries (inv : Activity C → Prop) (a : Stance C) (ds : List (Deed C)) (b : Stance C) : Prop :=
  ∀ n, (σ.state n).Stands a → ∃ l, n ≤ l ∧ (∀ j, n ≤ j → j ≤ l → inv ((σ.state j).activity 0)) ∧
    σ.deeds 0 n l = ds ∧ (σ.state l).Stands b

def Opens (F : List (Frame C)) (next : Except Error Instance → Program C C.Report) (w : World C)
    (K : Control C) : Opening C → Prop
  | .settled a => σ.Carries (Scope.inside F next).Contains ⟨w, .resolving K F next⟩ []
      ⟨w, .resolving (.finish (Except.mapError .error a)) F next⟩
  | .entered c x p keeps => ∃ G, insides G = (insides F).enter c x ∧ F <:+ G ∧
      σ.Carries (Scope.inside F next).Contains ⟨w, .resolving K F next⟩ []
        ⟨w, .resolving (.run p) G next⟩ ∧
      ∀ r w₁ r' w₂, w₁.keep keeps r = (r', w₂) →
        σ.Carries (Scope.inside F next).Contains ⟨w₁, .resolving (.finish r) G next⟩ []
          ⟨w₂, .resolving (.finish r') F next⟩

variable {σ} {inv : Activity C → Prop} {a b c : Stance C} {ds ds' : List (Deed C)} {n k l : ℕ}

theorem Rests.deeds {t : ThreadId} (h : σ.Rests n k) (hk : n ≤ k) : σ.deeds t n k = [] := by
  induction hk with
  | refl => exact deeds_self n
  | @step k hk ih =>
    have hm := h k hk (Nat.lt_succ_self k)
    rw [← deeds_append hk (Nat.le_succ k), deeds_succ, hm,
      ih fun j hj hjk => h j hj (Nat.lt_succ_of_lt hjk)]
    rfl

theorem Attends.moves (hfair : σ.Attends 0) (hone : (σ.state n).threads.length = 1)
    (hs : ((σ.state n).step I 0).isSome) : ∃ k, n ≤ k ∧ σ.Rests n k ∧ σ.mover k = some 0 := by
  obtain ⟨k, hk, hturn⟩ := hfair n
  obtain hr | ⟨j, u, hj, -, hr, hm⟩ := rests_or_moves hk
  · refine ⟨k, hk, hr, hturn.resolve_right fun hnone => ?_⟩
    rw [← hr.state hk, hnone] at hs
    cases hs
  · have hlt := mover_lt hm
    rw [hr.state hj, hone] at hlt
    exact ⟨j, hj, hr, Nat.lt_one_iff.1 hlt ▸ hm⟩

namespace Carries

theorem refl (h : inv a.activity) : σ.Carries inv a [] a := by
  intro n hn
  refine ⟨n, Nat.le_refl n, fun j hj hjn => ?_, deeds_self n, hn⟩
  obtain rfl := Nat.le_antisymm hjn hj
  exact hn.2.2 ▸ h

theorem trans (h : σ.Carries inv a ds b) (h' : σ.Carries inv b ds' c) :
    σ.Carries inv a (ds ++ ds') c := by
  intro n hn
  obtain ⟨k, hk, hinv, hds, hb⟩ := h n hn
  obtain ⟨l, hl, hinv', hds', hc⟩ := h' k hb
  refine ⟨l, hk.trans hl, fun j hj hjl => ?_, ?_, hc⟩
  · obtain hlt | hge := Nat.le_total j k
    · exact hinv j hj hlt
    · exact hinv' j hge hjl
  · rw [← deeds_append hk hl, hds, hds']

theorem step (hfair : σ.Attends 0) (ha : inv a.activity) (hb : inv b.activity)
    (hd : a.activity.deed? = none)
    (hs : ∀ v th, Machine.Consistent ⟨v, [th]⟩ → v.settled = a.world → th.activity = a.activity →
      ∃ v' th', (⟨v, [th]⟩ : Machine C).step I 0 = some ⟨v', [th']⟩ ∧ v'.settled = b.world ∧
        th'.activity = b.activity) : σ.Carries inv a [] b := by
  intro n hn
  obtain ⟨hone, hw, hact⟩ := hn
  obtain ⟨th, hth⟩ := Machine.eq_solo hone
  have hc := (σ.reachable n).consistent
  rw [hth] at hc hact
  obtain ⟨v', th', hstep, hw', hact'⟩ := hs _ th hc hw hact
  obtain ⟨k, hk, hr, hm⟩ := hfair.moves hone
    (by rw [hth]; exact Option.isSome_iff_exists.2 ⟨_, hstep⟩)
  have hnext : σ.state (k + 1) = ⟨v', [th']⟩ := by
    have hmoves := σ.moves k 0 hm
    rw [hr.state hk, hth] at hmoves
    exact Option.some.inj (hmoves.symm.trans hstep)
  refine ⟨k + 1, Nat.le_succ_of_le hk, fun j hj hjk => ?_, ?_, ?_⟩
  · obtain hlt | rfl := Nat.lt_succ_iff_lt_or_eq.1 (Nat.lt_succ_of_le hjk)
    · have hj' : σ.state j = σ.state n :=
        Rests.state (fun i hi hij => hr i hi (by omega)) hj
      rw [hj', hth]
      exact hact ▸ ha
    · rw [hnext]
      exact (hact' ▸ hb : inv th'.activity)
  · rw [← deeds_append hk (Nat.le_succ k), hr.deeds hk, deeds_succ, if_pos hm, hr.state hk, hth]
    rw [hact, hd]
    rfl
  · rw [hnext]
    exact ⟨rfl, hw', hact'⟩

section

variable {w w' : World C} {F G : List (Frame C)}
  {next : Except Error Instance → Program C C.Report} {cid : ContainerId} {x : Target}
  {name : String} {o : Overrides} {e : EntryId} {y : Entry C} {s : Site C} {i : Instance}
  {r : Except Failure Instance} {K : Control C}

theorem control {K' : Control C} {G' : List (Frame C)} (hfair : σ.Attends 0) (hG : F <:+ G)
    (hG' : F <:+ G') (hK : ∀ p, K ≠ .run p)
    (hs : ∀ v th, Machine.Consistent ⟨v, [th]⟩ → v.settled = w →
      th.activity = .resolving K G next → ∃ v' th', (Machine.solo v th).advance 0 th next I G K =
        some ⟨v', [th']⟩ ∧ v'.settled = w' ∧ th'.activity = .resolving K' G' next) :
    σ.Carries (Scope.inside F next).Contains ⟨w, .resolving K G next⟩ []
      ⟨w', .resolving K' G' next⟩ := by
  refine step hfair ⟨K, G, rfl, hG⟩ ⟨K', G', rfl, hG'⟩ ?_ fun v th hc hw ha => ?_
  · cases K with
    | run p => exact absurd rfl (hK p)
    | _ => rfl
  · obtain ⟨v', th', hstep, hw', ha'⟩ := hs v th hc hw ha
    exact ⟨v', th', (Machine.step_solo ha).trans hstep, hw', ha'⟩

variable (hfair : σ.Attends 0)

include hfair

theorem missing (he : w.entry? cid name = none) :
    σ.Carries (Scope.inside F next).Contains ⟨w, .resolving (.find cid name o) F next⟩ []
      ⟨w, .resolving (.finish (.error (.error (.serviceNotFound name)))) F next⟩ := by
  refine control hfair List.suffix_rfl List.suffix_rfl nofun ?_
  rintro v th - rfl ha
  have he : (Machine.solo v th).world.entry? cid name = none := he
  simp only [Machine.advance, Machine.find, he]
  exact ⟨_, _, rfl, rfl, rfl⟩

theorem shared (he : w.entry? cid name = some (e, y))
    (hs : (y.registration.shared && o.isEmpty) = true) :
    σ.Carries (Scope.inside F next).Contains ⟨w, .resolving (.find cid name o) F next⟩ []
      ⟨w, .resolving (.peek ⟨cid, name, e, y.registration⟩) F next⟩ := by
  refine control hfair List.suffix_rfl List.suffix_rfl nofun ?_
  rintro v th - rfl ha
  have he : (Machine.solo v th).world.entry? cid name = some (e, y) := he
  simp only [Machine.advance, Machine.find, he, hs]
  exact ⟨_, _, rfl, rfl, rfl⟩

theorem other (he : w.entry? cid name = some (e, y))
    (hs : (y.registration.shared && o.isEmpty) = false) :
    σ.Carries (Scope.inside F next).Contains ⟨w, .resolving (.find cid name o) F next⟩ []
      ⟨w, .resolving (.enter cid (.service name) (.run (build cid name y.registration o))) F
        next⟩ := by
  refine control hfair List.suffix_rfl List.suffix_rfl nofun ?_
  rintro v th - rfl ha
  have he : (Machine.solo v th).world.entry? cid name = some (e, y) := he
  simp only [Machine.advance, Machine.find, he, hs]
  exact ⟨_, _, rfl, rfl, rfl⟩

theorem hit (hi : w.cached s.entry = some i) :
    σ.Carries (Scope.inside F next).Contains ⟨w, .resolving (.peek s) F next⟩ []
      ⟨w, .resolving (.finish (.ok i)) F next⟩ := by
  refine control hfair List.suffix_rfl List.suffix_rfl nofun ?_
  rintro v th - rfl ha
  have hi : (Machine.solo v th).world.cached s.entry = some i := hi
  simp only [Machine.advance, Machine.peek, hi]
  exact ⟨_, _, rfl, rfl, rfl⟩

theorem miss (hi : w.cached s.entry = none) :
    σ.Carries (Scope.inside F next).Contains ⟨w, .resolving (.peek s) F next⟩ []
      ⟨w, .resolving (.enter s.container (.service s.name) (.attempt s)) F next⟩ := by
  refine control hfair List.suffix_rfl List.suffix_rfl nofun ?_
  rintro v th - rfl ha
  have hi : (Machine.solo v th).world.cached s.entry = none := hi
  simp only [Machine.advance, Machine.peek, hi]
  exact ⟨_, _, rfl, rfl, rfl⟩

theorem again {chain : List String} (hc : Stack.cycle? (insides F) cid x = some chain) :
    σ.Carries (Scope.inside F next).Contains ⟨w, .resolving (.enter cid x K) F next⟩ []
      ⟨w, .resolving (.finish (.error (.error (.circularDependency chain)))) F next⟩ := by
  refine control hfair List.suffix_rfl List.suffix_rfl nofun ?_
  rintro v th hv rfl ha
  have ho := hv.orderly (n := 0) rfl
  rw [ha] at ho
  simp only [Machine.advance, Machine.enter, ho.stack_eq, hc]
  exact ⟨_, _, rfl, rfl, rfl⟩

theorem enter (hc : Stack.cycle? (insides F) cid x = none) :
    σ.Carries (Scope.inside F next).Contains ⟨w, .resolving (.enter cid x K) F next⟩ []
      ⟨w, .resolving K (.inside cid x :: F) next⟩ := by
  refine control hfair List.suffix_rfl (List.suffix_cons _ F) nofun ?_
  rintro v th hv rfl ha
  have ho := hv.orderly (n := 0) rfl
  rw [ha] at ho
  simp only [Machine.advance, Machine.enter, ho.stack_eq, hc]
  exact ⟨_, _, rfl, rfl, rfl⟩

theorem attempt (hG : F <:+ G) (hi : w.cached s.entry = none) :
    σ.Carries (Scope.inside F next).Contains ⟨w, .resolving (.attempt s) G next⟩ []
      ⟨w, .resolving (.claim s) G next⟩ := by
  refine control hfair hG hG nofun ?_
  rintro v th - rfl ha
  have hi : (Machine.solo v th).world.cached s.entry = none := hi
  simp only [Machine.advance, Machine.attempt, hi]
  exact ⟨_, _, rfl, rfl, rfl⟩

theorem claim (hG : F <:+ G) :
    σ.Carries (Scope.inside F next).Contains ⟨w, .resolving (.claim s) G next⟩ []
      ⟨w, .resolving (.recheck s) (.owns s :: G) next⟩ := by
  refine control hfair hG (hG.trans (List.suffix_cons _ G)) nofun ?_
  rintro v th hv rfl ha
  have hfree : (Machine.solo v th).world.builds.owners.get? s.key = none :=
    hv.claim_free (t := 0) rfl ((Machine.activity_eq (t := 0) rfl).trans ha)
  simp only [Machine.advance, Machine.claim, hfree]
  exact ⟨_, _, rfl, rfl, rfl⟩

theorem recheck (hG : F <:+ G) (hi : w.cached s.entry = none) :
    σ.Carries (Scope.inside F next).Contains ⟨w, .resolving (.recheck s) G next⟩ []
      ⟨w, .resolving (.run (build s.container s.name s.registration ∅)) (.keeps s :: G)
        next⟩ := by
  refine control hfair hG (hG.trans (List.suffix_cons _ G)) nofun ?_
  rintro v th - rfl ha
  have hi : (Machine.solo v th).world.cached s.entry = none := hi
  simp only [Machine.advance, Machine.recheck, hi]
  exact ⟨_, _, rfl, rfl, rfl⟩

theorem keep (hG : F <:+ G) :
    σ.Carries (Scope.inside F next).Contains ⟨w, .resolving (.finish r) (.keeps s :: G) next⟩ []
      ⟨(w.keep (some s.entry) r).2, .resolving (.finish (w.keep (some s.entry) r).1) G next⟩ := by
  refine control hfair (hG.trans (List.suffix_cons _ G)) hG nofun ?_
  rintro v th - rfl ha
  cases r with
  | error f => exact ⟨_, _, rfl, rfl, rfl⟩
  | ok i =>
    cases hi : v.cached s.entry with
    | some kept =>
      have hi' : (Machine.solo v th).world.cached s.entry = some kept := hi
      have hi'' : v.settled.cached s.entry = some kept := hi
      simp only [Machine.advance, Machine.finish, Machine.keep, World.keep, hi', hi'']
      exact ⟨_, _, rfl, rfl, rfl⟩
    | none =>
      have hi' : (Machine.solo v th).world.cached s.entry = none := hi
      have hi'' : v.settled.cached s.entry = none := hi
      simp only [Machine.advance, Machine.finish, Machine.keep, World.keep, hi', hi'']
      exact ⟨_, _, rfl, rfl, rfl⟩

theorem release (hG : F <:+ G) :
    σ.Carries (Scope.inside F next).Contains ⟨w, .resolving (.finish r) (.owns s :: G) next⟩ []
      ⟨w, .resolving (.notify r) G next⟩ := by
  refine control hfair (hG.trans (List.suffix_cons _ G)) hG nofun ?_
  rintro v th - rfl ha
  exact ⟨_, _, rfl, rfl, rfl⟩

theorem notify (hG : F <:+ G) :
    σ.Carries (Scope.inside F next).Contains ⟨w, .resolving (.notify r) G next⟩ []
      ⟨w, .resolving (.finish r) G next⟩ := by
  refine control hfair hG hG nofun ?_
  rintro v th - rfl ha
  exact ⟨_, _, Machine.notify_solo ha, rfl, rfl⟩

theorem leave :
    σ.Carries (Scope.inside F next).Contains ⟨w, .resolving (.finish r) (.inside cid x :: F) next⟩
      [] ⟨w, .resolving (.finish r) F next⟩ := by
  refine control hfair (List.suffix_cons _ F) List.suffix_rfl nofun ?_
  rintro v th - rfl ha
  exact ⟨_, _, rfl, rfl, rfl⟩

end

end Carries

namespace Opens

variable {w : World C} {F : List (Frame C)} {next : Except Error Instance → Program C C.Report}
  {K K' : Control C} {u : Opening C}

theorem after (h : σ.Opens F next w K' u) (hK : σ.Carries (Scope.inside F next).Contains
    ⟨w, .resolving K F next⟩ [] ⟨w, .resolving K' F next⟩) : σ.Opens F next w K u := by
  cases u with
  | settled a => exact hK.trans h
  | entered c x p keeps =>
    obtain ⟨G, hG, hF, hrun, hend⟩ := h
    exact ⟨G, hG, hF, hK.trans hrun, hend⟩

variable (hfair : σ.Attends 0)

include hfair

theorem plain (c : ContainerId) (x : Target) (p : Program C Instance) :
    σ.Opens F next w (.enter c x (.run p)) (Stack.opening (insides F) c x p none) := by
  unfold Stack.opening
  cases hc : Stack.cycle? (insides F) c x with
  | some chain => exact .again hfair hc
  | none =>
    refine ⟨.inside c x :: F, rfl, List.suffix_cons _ F, .enter hfair hc, ?_⟩
    rintro r w₁ r' w₂ ⟨⟩
    exact .leave hfair

theorem build {s : Site C} (hi : w.cached s.entry = none) :
    σ.Opens F next w (.enter s.container (.service s.name) (.attempt s))
      (Stack.opening (insides F) s.container (.service s.name)
        (build s.container s.name s.registration ∅) (some s.entry)) := by
  unfold Stack.opening
  cases hc : Stack.cycle? (insides F) s.container (.service s.name) with
  | some chain => exact .again hfair hc
  | none =>
    have hG := List.suffix_cons (.inside s.container (.service s.name)) F
    have hG' := hG.trans (List.suffix_cons (.owns s) _)
    refine ⟨.keeps s :: .owns s :: .inside s.container (.service s.name) :: F, rfl,
      hG'.trans (List.suffix_cons _ _), ?_, ?_⟩
    · have henter : σ.Carries (Scope.inside F next).Contains
          ⟨w, .resolving (.enter s.container (.service s.name) (.attempt s)) F next⟩ []
          ⟨w, .resolving (.attempt s) (.inside s.container (.service s.name) :: F) next⟩ :=
        .enter hfair hc
      exact ((henter.trans (.attempt hfair hG hi)).trans (.claim hfair hG)).trans
        (.recheck hfair hG' hi)
    · intro r w₁ r' w₂ hk
      have hkeep : σ.Carries (Scope.inside F next).Contains ⟨w₁, .resolving (.finish r) _ next⟩ []
          ⟨_, .resolving (.finish _) _ next⟩ := .keep (s := s) hfair hG'
      rw [hk] at hkeep
      exact ((hkeep.trans (.release hfair hG)).trans (.notify hfair hG)).trans (.leave hfair)

theorem goal (g : Goal) : σ.Opens F next w g.control (w.opening (insides F) g) := by
  cases g with
  | «class» c type o => exact .plain hfair _ _ _
  | service c name o =>
    simp only [World.opening]
    cases he : w.entry? c name with
    | none => exact .missing hfair he
    | some entry =>
      obtain ⟨e, y⟩ := entry
      cases hs : (y.registration.shared && o.isEmpty) with
      | false =>
        simp only [hs, Bool.false_eq_true, if_false]
        exact (plain hfair _ _ _).after (.other hfair he hs)
      | true =>
        have hfind : σ.Carries (Scope.inside F next).Contains
            ⟨w, .resolving (.find c name o) F next⟩ []
            ⟨w, .resolving (.peek ⟨c, name, e, y.registration⟩) F next⟩ := .shared hfair he hs
        simp only [hs, if_true]
        cases hi : w.cached e with
        | some i => exact hfind.trans (.hit hfair hi)
        | none =>
          let s : Site C := ⟨c, name, e, y.registration⟩
          have hi : w.cached s.entry = none := hi
          exact ((build hfair hi).after (.miss hfair hi)).after hfind

end Opens

section

variable {L : Scope C} {rest : α → Program C L.Answer} {p : Program C α} {r : Except Failure α}
  {w w' : World C} {g : Goal}

theorem Requests.contains {t : ThreadId} {next : Except Error Instance → Program C L.Answer}
    {r : Except Failure Instance} (h : σ.Requests t L g next n r l) {j : ℕ} (hj : n ≤ j)
    (hl : j ≤ l) : L.Contains ((σ.state j).activity t) := by
  obtain rfl | hlt := Nat.eq_or_lt_of_le hj
  · exact h.makes ▸ L.contains_runs _
  · exact (h.awaits j hlt hl).contains

theorem Completes.rests {t : ThreadId} (h : σ.Completes t L rest p k ds r l)
    (hr : σ.Rests n k) (hk : n ≤ k) : σ.Completes t L rest p n ds r l := by
  induction hk with
  | refl => exact h
  | @step k hk ih =>
    have hm := hr k hk (Nat.lt_succ_self k)
    refine ih (.waits (by rw [hm]; exact nofun) ?_ h)
      fun j hj hjk => hr j hj (Nat.lt_succ_of_lt hjk)
    have ha := h.activity
    rwa [σ.idles k hm] at ha

theorem Completes.contains {t : ThreadId} (h : σ.Completes t L rest p n ds r l) {j : ℕ}
    (hj : n ≤ j) (hl : j ≤ l) : L.Contains ((σ.state j).activity t) := by
  induction h with
  | ended ha =>
    obtain rfl := Nat.le_antisymm hl hj
    exact ha ▸ L.contains_runs _
  | waits _ ha _ ih =>
    obtain rfl | hlt := Nat.eq_or_lt_of_le hj
    · exact ha ▸ L.contains_runs _
    · exact ih hlt hl
  | act _ ha _ _ _ ih =>
    obtain rfl | hlt := Nat.eq_or_lt_of_le hj
    · exact ha ▸ L.contains_runs _
    · exact ih hlt hl
  | call _ ha _ ih =>
    obtain rfl | hlt := Nat.eq_or_lt_of_le hj
    · exact ha ▸ L.contains_runs _
    · exact ih hlt hl
  | @answered g next n a k ds r l hr _ ih =>
    obtain hle | hlt := Nat.lt_or_ge k j
    · exact ih hle hl
    · exact hr.contains hj hlt
  | @crashed g next n s l hr =>
    obtain rfl | hlt := Nat.eq_or_lt_of_le hl
    · have hcrash : (σ.state (l + 1)).activity t = L.ended (.error (.crash s)) := hr.receives
      exact hcrash ▸ L.contains_ended _
    · exact hr.contains hj (Nat.le_of_lt_succ hlt)

theorem Stands.moves {a : Stance C} (hfair : σ.Attends 0) (h : (σ.state n).Stands a)
    (hs : ((σ.state n).step I 0).isSome) :
    ∃ k, n ≤ k ∧ σ.Rests n k ∧ σ.mover k = some 0 ∧ (σ.state k).Stands a := by
  obtain ⟨k, hk, hr, hm⟩ := hfair.moves h.1 hs
  exact ⟨k, hk, hr, hm, (hr.state hk).symm ▸ h⟩

theorem Stands.after {q : Program C L.Answer} {A : Activity C}
    (h : (σ.state n).Stands ⟨w, L.runs q⟩) (hm : σ.mover n = some 0)
    (hq : ∀ a rest, q ≠ .act a rest)
    (hA : L.Next I q ((σ.state (n + 1)).activity 0) → (σ.state (n + 1)).activity 0 = A) :
    (σ.state (n + 1)).Stands ⟨w, A⟩ := by
  obtain ⟨hone, hw, ha⟩ := h
  obtain ⟨th, ht, hst⟩ := Machine.step_cases (σ.moves n 0 hm)
  have hth := (Machine.activity_eq ht).symm.trans ha
  have hlen := hst.length_eq fun L' a rest h => L.runs_ne_act hq L' a rest (hth.symm.trans h)
  exact ⟨hlen.trans hone, (settled_runs hm ha hq).trans hw, hA (hst.runs_next ht ha)⟩

theorem Carries.requests {next : Except Error Instance → Program C L.Answer}
    {r : Except Failure Instance} (hfair : σ.Attends 0)
    (h : (σ.state n).Stands ⟨w, L.runs (.resolve g next)⟩)
    (hg : σ.Carries (Scope.inside (L.callers next) (L.onward next)).Contains ⟨w, L.asks g next⟩ ds
      ⟨w', .resolving (.finish r) (L.callers next) (L.onward next)⟩) :
    ∃ k l, n ≤ k ∧ σ.Rests n k ∧ σ.Requests 0 L g next k r l ∧ σ.deeds 0 (k + 1) l = ds ∧
      (σ.state (l + 1)).threads.length = 1 ∧ (σ.state (l + 1)).world.settled = w' := by
  obtain ⟨k, hk, hr, hm, hasks⟩ := Stands.moves hfair h (Machine.runs_isSome h.2.2 nofun)
  have ha : (σ.state k).activity 0 = L.runs (.resolve g next) := hasks.2.2
  have hnext : (σ.state (k + 1)).Stands ⟨w, L.asks g next⟩ := Stands.after hasks hm nofun id
  obtain ⟨b, hb, hinside, hds, hone', hw', hend⟩ := hg (k + 1) hnext
  have hfinish : ((σ.state b).step I 0).isSome := control_isSome hend nofun nofun
  obtain ⟨l, hl, hr', hm'⟩ := hfair.moves hone' hfinish
  have hlast : ∀ j, b ≤ j → j ≤ l → σ.state j = σ.state b := fun j hj hjl =>
    Rests.state (fun i hi hij => hr' i hi (Nat.lt_of_lt_of_le hij hjl)) hj
  rw [← hlast l hl (Nat.le_refl l)] at hone' hw' hend
  have hrequest : σ.Requests 0 L g next k r l := by
    refine ⟨⟨ha, hm, Nat.lt_of_lt_of_le hb hl, fun j hkj hjl => ?_⟩, hend, hm'⟩
    obtain hle | hge := Nat.le_total j b
    · exact hinside j hkj hle
    · rw [hlast j hge hjl, ← hlast l hl (Nat.le_refl l)]
      exact ⟨_, _, hend, List.suffix_rfl⟩
  refine ⟨k, l, hk, hr, hrequest, ?_, ?_, hrequest.settled.trans hw'⟩
  · rw [← deeds_append hb hl, hds, hr'.deeds hl, List.append_nil]
  · obtain ⟨th, ht, hst⟩ := Machine.step_cases (σ.moves l 0 hm')
    have hth := (Machine.activity_eq ht).symm.trans hend
    refine (hst.length_eq fun L' a rest h => ?_).trans hone'
    cases L' <;> cases hth.symm.trans h

theorem Completes.at_end {t : ThreadId} (h : σ.Completes t L rest p n ds r l) :
    (σ.state l).activity t = L.runs ((Program.ended r).bind rest) ∨
      ∃ s, r = .error (.crash s) ∧ (σ.state l).activity t = L.ended (.error (.crash s)) := by
  induction h with
  | ended ha => exact .inl ha
  | waits _ _ _ ih => exact ih
  | act _ _ _ _ _ ih => exact ih
  | call _ _ _ ih => exact ih
  | answered _ _ ih => exact ih
  | crashed hr => exact .inr ⟨_, rfl, hr.receives⟩

theorem Completes.carries {F G : List (Frame C)} {next : Except Error Instance → Program C C.Report}
    {p : Program C Instance} {r : Except Failure Instance} (hfair : σ.Attends 0) (hG : F <:+ G)
    (hp : ∀ n, (σ.state n).Stands ⟨w, .resolving (.run p) G next⟩ →
      ∃ l, σ.Completes 0 (.inside G next) .done p n ds r l ∧ (σ.state l).threads.length = 1 ∧
        (σ.state l).world.settled = w') :
    σ.Carries (Scope.inside F next).Contains ⟨w, .resolving (.run p) G next⟩ ds
      ⟨w', .resolving (.finish r) G next⟩ := by
  have hended : σ.Carries (Scope.inside F next).Contains ⟨w', .resolving (.run (.ended r)) G next⟩
      [] ⟨w', .resolving (.finish r) G next⟩ := by
    refine .step hfair ⟨_, G, rfl, hG⟩ ⟨_, G, rfl, hG⟩ ?_ ?_
    · obtain ((e | s) | i) := r <;> rfl
    · rintro v th - hv ha
      refine ⟨v, th.goes (.finish r) G next, (Machine.step_solo ha).trans ?_, hv, rfl⟩
      obtain ((e | s) | i) := r <;> rfl
  intro n hn
  obtain ⟨l, hc, hone, hw⟩ := hp n hn
  have hinside : ∀ j, n ≤ j → j ≤ l → (Scope.inside F next).Contains ((σ.state j).activity 0) := by
    intro j hj hjl
    obtain ⟨K, H, ha, hH⟩ := hc.contains hj hjl
    exact ⟨K, H, ha, hG.trans hH⟩
  have hrest : ∃ b, l ≤ b ∧ (∀ j, l ≤ j → j ≤ b →
      (Scope.inside F next).Contains ((σ.state j).activity 0)) ∧ σ.deeds 0 l b = [] ∧
        (σ.state b).Stands ⟨w', .resolving (.finish r) G next⟩ := by
    obtain ha | ⟨s, rfl, ha⟩ := hc.at_end
    · rw [Program.bind_done] at ha
      exact hended l ⟨hone, hw, ha⟩
    · exact Carries.refl (σ := σ) (a := ⟨w', _⟩) ⟨_, G, rfl, hG⟩ l ⟨hone, hw, ha⟩
  obtain ⟨b, hb, hinside', hds, hstands⟩ := hrest
  refine ⟨b, hc.le.trans hb, fun j hj hjb => ?_, ?_, hstands⟩
  · obtain hle | hge := Nat.le_total j l
    · exact hinside j hj hle
    · exact hinside' j hge hjb
  · rw [← deeds_append hc.le hb, hc.deeds_eq, hds, List.append_nil]

theorem Carries.settled {next : Except Error Instance → Program C L.Answer}
    {a : Except Error Instance} (hfair : σ.Attends 0)
    (ho : w.opening (insides L.frames) g = .settled a) :
    σ.Carries (Scope.inside (L.callers next) (L.onward next)).Contains ⟨w, L.asks g next⟩ []
      ⟨w, .resolving (.finish (Except.mapError .error a)) (L.callers next) (L.onward next)⟩ := by
  have hg : σ.Opens (L.callers next) (L.onward next) w g.control
      (w.opening (insides (L.callers next)) g) := .goal hfair g
  rwa [insides_callers, ho] at hg

theorem Carries.entered {next : Except Error Instance → Program C L.Answer} {c : ContainerId}
    {x : Target} {p : Program C Instance} {keeps : Option EntryId} {r r' : Except Failure Instance}
    {w₁ : World C} (hfair : σ.Attends 0)
    (ho : w.opening (insides L.frames) g = .entered c x p keeps)
    (hp : ∀ (L' : Scope C) (rest : Instance → Program C L'.Answer) (n : ℕ),
      insides L'.frames = Stack.enter (insides L.frames) c x →
        (σ.state n).Stands ⟨w, L'.runs (p.bind rest)⟩ →
          ∃ l, σ.Completes 0 L' rest p n ds r l ∧ (σ.state l).threads.length = 1 ∧
            (σ.state l).world.settled = w₁)
    (hk : w₁.keep keeps r = (r', w')) :
    σ.Carries (Scope.inside (L.callers next) (L.onward next)).Contains ⟨w, L.asks g next⟩ ds
      ⟨w', .resolving (.finish r') (L.callers next) (L.onward next)⟩ := by
  have hg : σ.Opens (L.callers next) (L.onward next) w g.control
      (w.opening (insides (L.callers next)) g) := .goal hfair g
  rw [insides_callers, ho] at hg
  obtain ⟨G, hG, hF, hrun, hend⟩ := hg
  rw [insides_callers] at hG
  have hp' : p.bind .done = p := Program.bind_done p
  have hcode := Completes.carries hfair hF fun n hn =>
    hp (.inside G (L.onward next)) .done n hG (hp'.symm ▸ hn)
  have hall := (hrun.trans hcode).trans (hend _ _ _ _ hk)
  rwa [List.nil_append, List.append_nil] at hall

theorem Stands.acts {a : Action C} {next : a.Reply → Program C L.Answer} {reply : a.Reply}
    (hfair : σ.Attends 0) (h : (σ.state n).Stands ⟨w, L.runs (.act a next)⟩)
    (ha : w.access I (insides L.frames) a = some (reply, w')) (hn : a.brings I = []) :
    ∃ k th m, n ≤ k ∧ σ.Rests n k ∧ σ.mover k = some 0 ∧ (σ.state k).threads[0]? = some th ∧
      (σ.state k).perform I 0 th a = some (reply, m) ∧
      (σ.state k).activity 0 = L.runs (.act a next) ∧
      (σ.state (k + 1)).Stands ⟨w', L.runs (next reply)⟩ := by
  obtain ⟨hone, hw, hact⟩ := h
  obtain ⟨th, hl⟩ := List.length_eq_one_iff.1 hone
  have ht : (σ.state n).threads[0]? = some th := by rw [hl]; rfl
  have hth := (Machine.activity_eq ht).symm.trans hact
  have hacc := access_settled hl hact
  rw [hw, ha] at hacc
  obtain ⟨⟨reply', m⟩, hp, he⟩ := Option.map_eq_some_iff.1 hacc.symm
  cases he
  have hs : ((σ.state n).step I 0).isSome := by
    simp only [Machine.step, ht, Option.bind_eq_bind, Option.bind_some, hth]
    cases L <;> simp [Scope.runs, Machine.runOwn, Machine.advance, Machine.runInside, hp]
  obtain ⟨k, hk, hr, hm⟩ := hfair.moves hone hs
  rw [← hr.state hk] at ht hp hact hone
  obtain ⟨th', ht', hst⟩ := Machine.step_cases (σ.moves k 0 hm)
  cases ht.symm.trans ht'
  obtain ⟨reply', m', hp', hw', hact', hlen⟩ := hst.acts ht hact
  cases hp.symm.trans hp'
  refine ⟨k, th, m, hk, hr, hm, ht, hp, hact, ?_, by rw [hw'], hact'⟩
  rw [hlen, hn, hone]
  rfl

theorem Stands.calls {k : Call C} {next : Except Error k.Reply → Program C L.Answer}
    (hfair : σ.Attends 0) (h : (σ.state n).Stands ⟨w, L.runs (.call k next)⟩) :
    ∃ b, n ≤ b ∧ σ.Rests n b ∧ σ.mover b = some 0 ∧
      (σ.state b).activity 0 = L.runs (.call k next) ∧
      (σ.state (b + 1)).Stands ⟨w, L.runs ((I.answer k).attempt.bind next)⟩ := by
  obtain ⟨b, hb, hr, hm, hcalls⟩ := Stands.moves hfair h (Machine.runs_isSome h.2.2 nofun)
  exact ⟨b, hb, hr, hm, hcalls.2.2, Stands.after hcalls hm nofun id⟩

end

end Run

theorem Evaluates.completes {I : Implementation C} {σ : Run I} {S : Stack} {w w' : World C}
    {p : Program C α} {ds : List (Deed C)} {r : Except Failure α} (hfair : σ.Attends 0)
    (h : Evaluates I S w p ds r w') : ∀ {L : Scope C} {rest : α → Program C L.Answer} {n : ℕ},
      insides L.frames = S → (σ.state n).Stands ⟨w, L.runs (p.bind rest)⟩ →
        ∃ l, σ.Completes 0 L rest p n ds r l ∧ (σ.state l).threads.length = 1 ∧
          (σ.state l).world.settled = w' := by
  induction h with
  | done => exact fun _ hn => ⟨_, .ended (r := .ok _) hn.2.2, hn.1, hn.2.1⟩
  | fail => exact fun _ hn => ⟨_, .ended (r := .error (.error _)) hn.2.2, hn.1, hn.2.1⟩
  | crash => exact fun _ hn => ⟨_, .ended (r := .error (.crash _)) hn.2.2, hn.1, hn.2.1⟩
  | act ha hn _ ih =>
    rintro L rest n rfl hs
    obtain ⟨k, th, m, hk, hr, hm, ht, hp, hact, hnext⟩ := Run.Stands.acts hfair hs ha hn
    obtain ⟨l, hc, hend⟩ := ih rfl hnext
    exact ⟨l, (hc.act hm hact ht hp).rests hr hk, hend⟩
  | @call β S w k next ds r w' _ ih =>
    rintro L rest n rfl hs
    obtain ⟨b, hb, hr, hm, hact, hnext⟩ := Run.Stands.calls hfair hs
    rw [← Program.bind_assoc] at hnext
    obtain ⟨l, hc, hend⟩ := ih rfl hnext
    exact ⟨l, (hc.call hm hact).rests hr hb, hend⟩
  | settled ho _ ih =>
    rintro L rest n rfl hs
    obtain ⟨b, k, hb, hr, hreq, hds, hone, hw⟩ := Run.Carries.requests hfair hs (.settled hfair ho)
    obtain ⟨l, hc, hend⟩ := ih rfl ⟨hone, hw, hreq.receives.of_answer⟩
    have hall := (Run.Completes.answered hreq hc).rests hr hb
    rw [hds] at hall
    exact ⟨l, hall, hend⟩
  | entered ho _ hk _ ihp ih =>
    rintro L rest n rfl hs
    -- The code of the target runs inside more frames, of which the induction hypothesis may speak.
    obtain ⟨b, k, hb, hr, hreq, hds, hone, hw⟩ :=
      Run.Carries.requests hfair hs (.entered hfair ho (fun _ _ _ => ihp) hk)
    obtain ⟨l, hc, hend⟩ := ih rfl ⟨hone, hw, hreq.receives.of_answer⟩
    exact ⟨l, hds ▸ (Run.Completes.answered hreq hc).rests hr hb, hend⟩
  | crashed ho _ ihp =>
    rintro L rest n rfl hs
    obtain ⟨b, k, hb, hr, hreq, hds, hone, hw⟩ :=
      Run.Carries.requests hfair hs (.entered hfair ho (fun _ _ _ => ihp) (World.keep_error _ _ _))
    exact ⟨k + 1, hds ▸ (Run.Completes.crashed hreq).rests hr hb, hone, hw⟩

theorem Responds.requests {I : Implementation C} {σ : Run I} {w w' : World C} {g : Goal}
    {ds : List (Deed C)} {r : Except Failure Instance} {L : Scope C}
    {next : Except Error Instance → Program C L.Answer} {n : ℕ} (hfair : σ.Attends 0)
    (h : Responds I (insides L.frames) w g ds r w')
    (hs : (σ.state n).Stands ⟨w, L.runs (.resolve g next)⟩) :
    ∃ k l, n ≤ k ∧ σ.Rests n k ∧ σ.Requests 0 L g next k r l ∧ σ.deeds 0 (k + 1) l = ds ∧
      (σ.state (l + 1)).threads.length = 1 ∧ (σ.state (l + 1)).world.settled = w' := by
  cases h with
  | settled ho => exact Run.Carries.requests hfair hs (.settled hfair ho)
  | entered ho hp hk =>
    exact Run.Carries.requests hfair hs (.entered hfair ho (fun _ _ _ => hp.completes hfair) hk)

end Wiring
