import Mathlib.Tactic.IntervalCases
import Wiring.Proofs.Passage

namespace Wiring

variable {C : Client} {α : Type}

def Action.Supersedes : Action C → Prop
  | .installDefault _ => True
  | .resetDefault => True
  | _ => False

def Action.successor (w : World C) : Action C → Option ContainerId
  | .installDefault c => some c
  | .settleDefault => some (w.current.getD w.containers.length)
  | .resetDefault => none
  | _ => w.current

theorem Scope.act_inj {L L' : Scope C} {a b : Action C} {next : a.Reply → Program C L.Answer}
    {next' : b.Reply → Program C L'.Answer} (h : L.runs (.act a next) = L'.runs (.act b next')) :
    a = b := by
  cases L <;> cases L' <;> cases h <;> rfl

namespace DefaultContainer

theorem getOrInstall_ready : (getOrInstall : Program C _).Ready := by
  refine ⟨trivial, fun (found : Option ContainerId) => ?_⟩
  cases found with
  | some c => trivial
  | none => exact ⟨trivial, fun _ => trivial⟩

end DefaultContainer

namespace Machine

variable {I : Implementation C} {m m' : Machine C} {t : ThreadId} {th th' : Thread C}
  {w : World C} {fresh : List (Thread C)} {a : Action C}

theorem perform_current {reply : a.Reply} (h : m.perform I t th a = some (reply, m')) :
    m'.world.current = a.successor m.world := by
  cases a with
  | settleDefault =>
    simp only [perform] at h
    split at h
    · next c hc =>
      cases h
      rw [Action.successor, hc]
      rfl
    · next hc =>
      cases h
      rw [Action.successor, hc]
      rfl
  | await ready => simp only [perform] at h; split at h <;> cases h; rfl
  | awaitWaiters service count => simp only [perform] at h; split at h <;> cases h; rfl
  | join threads => simp only [perform] at h; split at h <;> cases h; rfl
  | _ => cases h; rfl

theorem perform_settles {c : ContainerId}
    (h : m.perform I t th .settleDefault = some (c, m')) : m'.world.current = some c := by
  rw [perform_current h, Action.successor]
  simp only [perform] at h
  cases hc : m.world.current with
  | some d =>
    rw [hc] at h
    cases h
    rfl
  | none =>
    rw [hc] at h
    cases h
    rfl

theorem Move.current (hm : Move I m t th w th' fresh)
    (h : ∀ (L : Scope C) a rest, th.activity ≠ L.runs (.act a rest)) :
    w.current = m.world.current := by
  cases hm with
  | ownAct h' ha => exact absurd h' (h .own _ _)
  | runAct h' ha => exact absurd h' (h (.inside _ _) _ _)
  | _ => rfl

end Machine

namespace Run

variable {I : Implementation C} (σ : Run I)

def Supersedes (n : ℕ) (u : ThreadId) : Prop := ∃ a, σ.Performs n u a ∧ a.Supersedes

structure Creates (n : ℕ) (u : ThreadId) : Prop where
  settles : σ.Performs n u .settleDefault
  lacks : (σ.state n).world.current = none

inductive Installs (n : ℕ) (u : ThreadId) : ContainerId → Prop
  | install {c} (h : σ.Performs n u (.installDefault c)) : Installs n u c
  | create (h : σ.Creates n u) : Installs n u (σ.state n).world.containers.length

/-- The container has been the default one since moment `n`, and nobody has superseded it before
moment `k`. -/
structure Keeps (c : ContainerId) (n k : ℕ) : Prop where
  lt : n < k
  current (j : ℕ) (hn : n < j) (hk : j ≤ k) : (σ.state j).world.current = some c
  lasts (j : ℕ) (u : ThreadId) (hn : n < j) (hk : j < k) : ¬ σ.Supersedes j u

structure HandsBack (c : ContainerId) (n k : ℕ) : Prop extends σ.Keeps c n k where
  superseded : ∃ u, σ.Supersedes k u

variable {σ} {n k l a b : ℕ} {t u v : ThreadId} {c d : ContainerId}

theorem Performs.unique {x y : Action C} (h : σ.Performs n u x) (h' : σ.Performs n v y) :
    u = v ∧ x = y := by
  obtain ⟨hm, L, rest, ha⟩ := h
  obtain ⟨hm', L', rest', ha'⟩ := h'
  cases hm.symm.trans hm'
  exact ⟨rfl, Scope.act_inj (ha.symm.trans ha')⟩

theorem Performs.current {x : Action C} (h : σ.Performs n u x) :
    (σ.state (n + 1)).world.current = x.successor (σ.state n).world := by
  obtain ⟨th, reply, m, hp, hw⟩ := h.world
  rw [hw]
  exact Machine.perform_current hp

theorem current_still (h : ∀ u x, ¬ σ.Performs n u x) :
    (σ.state (n + 1)).world.current = (σ.state n).world.current := by
  cases hm : σ.mover n with
  | none => rw [σ.idles n hm]
  | some u =>
    obtain ⟨th, ht, hst⟩ := Machine.step_cases (σ.moves n u hm)
    obtain ⟨th', fresh, hmv, -⟩ | ⟨r, F, next, -, -, hw⟩ := hst.activity ht
    · refine hmv.current fun L x rest ha => h u x ⟨hm, L, rest, ?_⟩
      exact (Machine.activity_eq ht).trans ha
    · rw [hw]

theorem current_cases (n : ℕ) :
    (σ.state (n + 1)).world.current = (σ.state n).world.current ∨
      (∃ u c, σ.Installs n u c ∧ (σ.state (n + 1)).world.current = some c ∧
        ((σ.state n).world.current = none ∨ σ.Supersedes n u)) ∨
      ∃ u, σ.Supersedes n u ∧ (σ.state (n + 1)).world.current = none := by
  by_cases hx : ∃ u x, σ.Performs n u x
  · obtain ⟨u, x, hp⟩ := hx
    have hnext := hp.current
    cases x with
    | installDefault c =>
      exact .inr (.inl ⟨u, c, .install hp, hnext, .inr ⟨_, hp, trivial⟩⟩)
    | settleDefault =>
      cases hc : (σ.state n).world.current with
      | some c => exact .inl (by rw [hnext, Action.successor, hc]; rfl)
      | none =>
        refine .inr (.inl ⟨u, _, .create ⟨hp, hc⟩, ?_, .inl rfl⟩)
        rw [hnext, Action.successor, hc]
        rfl
    | resetDefault => exact .inr (.inr ⟨u, ⟨_, hp, trivial⟩, hnext⟩)
    | _ => exact .inl hnext
  · exact .inl (current_still fun u x hp => hx ⟨u, x, hp⟩)

theorem Installs.current (h : σ.Installs n u c) : (σ.state (n + 1)).world.current = some c := by
  cases h with
  | install h => exact h.current
  | create h =>
    rw [h.settles.current, Action.successor, h.lacks]
    rfl

theorem current_stays (h : ∀ u, ¬ σ.Supersedes n u)
    (hc : (σ.state n).world.current = some c) : (σ.state (n + 1)).world.current = some c := by
  obtain hsame | ⟨u, d, -, -, hnone | hs⟩ | ⟨u, hs, -⟩ := σ.current_cases n
  · exact hsame.trans hc
  · cases hnone.symm.trans hc
  · exact absurd hs (h u)
  · exact absurd hs (h u)

theorem current_since (h : ∀ j u, a ≤ j → j < b → ¬ σ.Supersedes j u) (hn : a ≤ n) (hb : n ≤ b)
    (hc : (σ.state n).world.current = some c) : (σ.state b).world.current = some c := by
  induction hb with
  | refl => exact hc
  | @step b hb ih =>
    refine current_stays (fun u => h b u (hn.trans hb) (Nat.lt_succ_self b)) ?_
    exact ih fun j u hj hjb => h j u hj (Nat.lt_succ_of_lt hjb)

namespace Keeps

theorem succ (h : σ.Keeps c n k) (hs : ∀ u, ¬ σ.Supersedes k u) : σ.Keeps c n (k + 1) where
  lt := Nat.lt_succ_of_lt h.lt
  current j hn hj := by
    obtain rfl | hj := Nat.eq_or_lt_of_le hj
    · exact current_stays hs (h.current k h.lt (Nat.le_refl k))
    · exact h.current j hn (Nat.le_of_lt_succ hj)
  lasts j u hn hj := by
    obtain hj | rfl := Nat.lt_succ_iff_lt_or_eq.1 hj
    · exact h.lasts j u hn hj
    · exact hs u

theorem not_installs (h : σ.Keeps c n k) (hn : n < l) (hl : l < k) : ¬ σ.Installs l u d := by
  intro hd
  cases hd with
  | install hp => exact h.lasts l u hn hl ⟨_, hp, trivial⟩
  | create hc => cases hc.lacks.symm.trans (h.current l hn (Nat.le_of_lt hl))

theorem unique (h : σ.Keeps c n k) (h' : σ.Keeps d l k) (hn : σ.Installs n u c)
    (hl : σ.Installs l v d) : n = l := by
  obtain hlt | rfl | hlt := Nat.lt_trichotomy n l
  · exact absurd hl (h.not_installs hlt h'.lt)
  · rfl
  · exact absurd hn (h'.not_installs hlt h.lt)

end Keeps

theorem HandsBack.unique (h : σ.HandsBack c n k) (h' : σ.HandsBack c n l) : k = l := by
  obtain ⟨u, hu⟩ := h.superseded
  obtain ⟨v, hv⟩ := h'.superseded
  obtain hlt | rfl | hlt := Nat.lt_trichotomy k l
  · exact absurd hu (h'.lasts k u h.lt hlt)
  · rfl
  · exact absurd hv (h.lasts l v h'.lt hlt)

theorem Installs.kept_or_handed (h : σ.Installs n u c) (hl : n < l) :
    σ.Keeps c n l ∨ ∃ k < l, σ.HandsBack c n k := by
  induction hl with
  | refl =>
    refine .inl ⟨Nat.lt_succ_self n, fun j hn hj => ?_, fun j u hn hj => by omega⟩
    obtain rfl : j = n + 1 := by omega
    exact h.current
  | @step l hl ih =>
    obtain hkeeps | ⟨k, hk, hback⟩ := ih
    · by_cases hs : ∃ u, σ.Supersedes l u
      · exact .inr ⟨l, Nat.lt_succ_self l, hkeeps, hs⟩
      · exact .inl (hkeeps.succ fun u hu => hs ⟨u, hu⟩)
    · exact .inr ⟨k, Nat.lt_succ_of_lt hk, hback⟩

theorem installed_or_first (k : ℕ) (hc : (σ.state k).world.current = some c) :
    (∃ n u, σ.Installs n u c ∧ σ.Keeps c n k) ∨
      ∀ j ≤ k, (σ.state j).world.current = some c ∧ ∀ u, j < k → ¬ σ.Supersedes j u := by
  induction k with
  | zero =>
    refine .inr fun j hj => ?_
    obtain rfl := Nat.le_zero.1 hj
    exact ⟨hc, fun u hlt => absurd hlt (Nat.lt_irrefl _)⟩
  | succ k ih =>
    by_cases hi : ∃ u, σ.Installs k u c
    · obtain ⟨u, hi⟩ := hi
      obtain hkeeps | ⟨j, hj, hback⟩ := hi.kept_or_handed (Nat.lt_succ_self k)
      · exact .inl ⟨k, u, hi, hkeeps⟩
      · exact absurd hback.lt (by omega)
    · have hs : ∀ u, ¬ σ.Supersedes k u := by
        rintro u ⟨x, hp, hx⟩
        have hnext := hp.current
        cases x with
        | installDefault d =>
          cases hnext.symm.trans hc
          exact hi ⟨u, .install hp⟩
        | resetDefault => cases hnext.symm.trans hc
        | _ => exact hx
      have hold : (σ.state k).world.current = some c := by
        obtain hsame | ⟨u, d, hd, hnext, -⟩ | ⟨u, hsup, -⟩ := σ.current_cases k
        · exact hsame.symm.trans hc
        · cases hnext.symm.trans hc
          exact absurd ⟨u, hd⟩ hi
        · exact absurd hsup (hs u)
      obtain ⟨n, u, hn, hkeeps⟩ | hfirst := ih hold
      · exact .inl ⟨n, u, hn, hkeeps.succ hs⟩
      · refine .inr fun j hj => ?_
        obtain rfl | hj := Nat.eq_or_lt_of_le hj
        · exact ⟨hc, fun u hlt => absurd hlt (Nat.lt_irrefl _)⟩
        · refine ⟨(hfirst j (Nat.le_of_lt_succ hj)).1, fun u _ => ?_⟩
          obtain hj | rfl := Nat.lt_succ_iff_lt_or_eq.1 hj
          · exact (hfirst j (Nat.le_of_lt hj)).2 u hj
          · exact hs u

theorem created_once (h : ∀ j u, a ≤ j → j < b → ¬ σ.Supersedes j u) (hn : σ.Creates n u)
    (hk : σ.Creates k v) (han : a ≤ n) (hnb : n < b) (hak : a ≤ k) (hkb : k < b) : n = k := by
  have hlater : ∀ i j u v, σ.Creates i u → σ.Creates j v → a ≤ i → j < b → ¬ i < j := by
    intro i j u v hi hj hai hjb hij
    have hkept := current_since (fun l u hl hlj => h l u hl (hlj.trans hjb)) (Nat.le_succ_of_le hai)
      hij (Installs.create hi).current
    cases hj.lacks.symm.trans hkept
  exact Nat.le_antisymm (Nat.not_lt.1 (hlater k n v u hk hn hak hnb))
    (Nat.not_lt.1 (hlater n k u v hn hk han hkb))

theorem Calls.superseding {e : Event} {x : Action C} {r : Except Failure x.Reply}
    (h : σ.Calls t (.act (.emit e) fun _ => .act x .done) n r l) :
    ∃ k th reply m, n ≤ k ∧ k < l ∧ σ.Performs k t x ∧
      (σ.state k).perform I t th x = some (reply, m) ∧ r = .ok reply ∧
      ∀ j, n ≤ j → j < l → σ.Supersedes j t → j = k := by
  obtain ⟨L, rest, ds, h⟩ := h
  obtain ⟨i, _, _, _, _, htold, -, -, -, hrest⟩ := h.acted
  obtain ⟨k, th, reply, m, ds', hreach, hp, -, -, hdone⟩ := hrest.acted
  obtain ⟨rfl, hafter, -⟩ := hdone.of_ended (.ok reply)
  have hik := htold.le
  have hki := hreach.le
  refine ⟨k, th, reply, m, by omega, hdone.le, hreach.performs, hp, rfl, ?_⟩
  rintro j hj hjl ⟨y, hy, hsup⟩
  obtain hlt | rfl | hlt := Nat.lt_trichotomy j i
  · exact absurd hy.1 (htold.rests j hj hlt)
  · obtain ⟨-, rfl⟩ := hy.unique htold.performs
    exact hsup.elim
  · by_contra hne
    obtain hjk | hkj := Nat.lt_or_gt_of_ne hne
    · exact hreach.rests j hlt hjk hy.1
    · exact hafter j hkj hjl hy.1

theorem Calls.current_of_getOrInstall {r : Except Failure ContainerId}
    (h : σ.Calls t DefaultContainer.getOrInstall n r l) :
    ∃ c j, r = .ok c ∧ n ≤ j ∧ j ≤ l ∧ (σ.state j).world.current = some c := by
  obtain ⟨L, rest, ds, h⟩ := h
  obtain ⟨k, th, found, m, ds', hread, hp, -, -, hnext⟩ := h.acted
  have hle := hnext.le
  have hnk := hread.le
  have hfound : some ((σ.state k).world.current, σ.state k) = some (found, m) := hp
  cases hfound
  cases hc : (σ.state k).world.current with
  | some c =>
    rw [hc] at hnext
    exact ⟨c, k, (hnext.of_ended (.ok c)).1, hnk, by omega, hc⟩
  | none =>
    rw [hc] at hnext
    obtain ⟨j, th, c, m, ds', hsettle, hp, hw, -, hdone⟩ := hnext.acted
    have hjl := hdone.le
    have hkj := hsettle.le
    refine ⟨c, j + 1, (hdone.of_ended (.ok c)).1, by omega, hjl, ?_⟩
    rw [hw]
    exact Machine.perform_settles hp

/-- Threads install, settle and reset the default container in any order. Whatever has been
installed is the default container until the first install or reset after it, which alone hands it
back; and what an install or a reset hands back has been installed once, or was there from the
beginning. A container that is got or installed was the default one while this was done. While
nobody installs or resets, no more than one container is created, and all that get or install one
are given the same. -/
theorem default_conserved (σ : Run I) :
    (∀ c n u, σ.Installs n u c → ∀ l, n < l →
      σ.Keeps c n l ∨ ∃! k, k < l ∧ σ.HandsBack c n k) ∧
    (∀ c k u, σ.Supersedes k u → (σ.state k).world.current = some c →
      (∃! n, (∃ v, σ.Installs n v c) ∧ σ.HandsBack c n k) ∨
        ∀ j ≤ k, (σ.state j).world.current = some c ∧ ∀ v, j < k → ¬ σ.Supersedes j v) ∧
    (∀ t c n r l, σ.Calls t (DefaultContainer.install c) n r l →
      ∃ k, n ≤ k ∧ k < l ∧ σ.Performs k t (.installDefault c) ∧
        r = .ok (σ.state k).world.current ∧
        ∀ j, n ≤ j → j < l → σ.Supersedes j t → j = k) ∧
    (∀ t n r l, σ.Calls t DefaultContainer.reset n r l →
      ∃ k, n ≤ k ∧ k < l ∧ σ.Performs k t .resetDefault ∧
        r = .ok (σ.state k).world.current ∧
        ∀ j, n ≤ j → j < l → σ.Supersedes j t → j = k) ∧
    (∀ t n r l, σ.Calls t DefaultContainer.getOrInstall n r l →
      ∃ c j, r = .ok c ∧ n ≤ j ∧ j ≤ l ∧ (σ.state j).world.current = some c) ∧
    (∀ t (L : Scope C) rest n, σ.Attends t →
      (σ.state n).activity t = L.runs (DefaultContainer.getOrInstall.bind rest) →
      ∃ c l, σ.Calls t DefaultContainer.getOrInstall n (.ok c) l) ∧
    ∀ a b, (∀ j u, a ≤ j → j < b → ¬ σ.Supersedes j u) →
      (∀ n k u v, a ≤ n → n < b → a ≤ k → k < b → σ.Creates n u → σ.Creates k v → n = k) ∧
      ∀ t n r l t' n' r' l', a ≤ n → l ≤ b → a ≤ n' → l' ≤ b →
        σ.Calls t DefaultContainer.getOrInstall n r l →
        σ.Calls t' DefaultContainer.getOrInstall n' r' l' → r = r' := by
  refine ⟨fun c n u h l hl => ?_, fun c k u hs hc => ?_, fun t c n r l h => ?_, fun t n r l h => ?_,
    fun t n r l h => h.current_of_getOrInstall, fun t L rest n hfair ha => ?_,
    fun a b hno => ⟨?_, ?_⟩⟩
  · obtain hkeeps | ⟨k, hk, hback⟩ := h.kept_or_handed hl
    · exact .inl hkeeps
    · exact .inr ⟨k, ⟨hk, hback⟩, fun k' hk' => hk'.2.unique hback⟩
  · obtain ⟨n, v, hn, hkeeps⟩ | hfirst := installed_or_first k hc
    · refine .inl ⟨n, ⟨⟨v, hn⟩, hkeeps, u, hs⟩, ?_⟩
      rintro n' ⟨⟨v', hn'⟩, hback⟩
      exact hback.toKeeps.unique hkeeps hn' hn
    · exact .inr hfirst
  · obtain ⟨k, th, reply, m, hn, hk, hperforms, hp, rfl, honly⟩ := h.superseding
    cases hp
    exact ⟨k, hn, hk, hperforms, rfl, honly⟩
  · obtain ⟨k, th, reply, m, hn, hk, hperforms, hp, rfl, honly⟩ := h.superseding
    cases hp
    exact ⟨k, hn, hk, hperforms, rfl, honly⟩
  · obtain ⟨ds, r, l, h⟩ := hfair.completes DefaultContainer.getOrInstall_ready ha
    have hcalls : σ.Calls t DefaultContainer.getOrInstall n r l := ⟨L, rest, ds, h⟩
    obtain ⟨c, -, rfl, -⟩ := hcalls.current_of_getOrInstall
    exact ⟨c, l, hcalls⟩
  · exact fun n k u v han hnb hak hkb hn hk => created_once hno hn hk han hnb hak hkb
  · intro t n r l t' n' r' l' han hlb han' hlb' h h'
    obtain ⟨c, j, rfl, hnj, hjl, hc⟩ := h.current_of_getOrInstall
    obtain ⟨d, j', rfl, hnj', hjl', hd⟩ := h'.current_of_getOrInstall
    have hcb := current_since hno (han.trans hnj) (hjl.trans hlb) hc
    have hdb := current_since hno (han'.trans hnj') (hjl'.trans hlb') hd
    cases hcb.symm.trans hdb
    rfl

def succeeding : Run Implementation.plain :=
  along ⟨.start (), [{ todo := [DefaultContainer.getOrInstall.bind fun _ => .done ()] },
      { todo := [DefaultContainer.getOrInstall.bind fun _ => .done ()] },
      { todo := [(DefaultContainer.install 0).bind fun _ => .done (),
          DefaultContainer.reset.bind fun _ => .done ()] }]⟩
    { world := World.start_unbuilt _
      threads := fun h => by
        obtain rfl | rfl | rfl := by simpa using h
        all_goals exact ⟨rfl, rfl, rfl⟩ }
    fun n => [0, 0, 1, 1, 1, 0].getD n 2

theorem succeeding_first : succeeding.Calls 0 DefaultContainer.getOrInstall 1 (.ok 1) 6 := by
  refine ⟨.own, fun _ => .done (), [.access .currentDefault, .access .settleDefault], ?_⟩
  refine .act rfl rfl rfl rfl (.waits nofun rfl (.waits nofun rfl (.waits nofun rfl ?_)))
  exact .act rfl rfl rfl rfl (.ended (r := .ok 1) rfl)

theorem succeeding_second : succeeding.Calls 1 DefaultContainer.getOrInstall 3 (.ok 1) 5 :=
  ⟨.own, fun _ => .done (), _,
    .act rfl rfl rfl rfl (.act rfl rfl rfl rfl (.ended (r := .ok 1) rfl))⟩

theorem succeeding_quiet (j : ℕ) (u : ThreadId) (hj : 1 ≤ j) (hl : j < 6) :
    ¬ succeeding.Supersedes j u := by
  rintro ⟨x, ⟨hm, L, rest, ha⟩, hx⟩
  interval_cases j <;> cases hm <;> cases L <;> cases ha <;> exact hx

theorem default_conserved_succeeding :
    succeeding.Installs 4 1 1 ∧ (∃! k, k < 13 ∧ succeeding.HandsBack 1 4 k) ∧
      (∃! n, (∃ v, succeeding.Installs n v 1) ∧ succeeding.HandsBack 1 n 8) ∧
      (∃ k, 7 ≤ k ∧ k < 9 ∧ (succeeding.state k).world.current = some 1) ∧
      ∃ r, succeeding.Calls 0 DefaultContainer.getOrInstall 1 r 6 ∧
        succeeding.Calls 1 DefaultContainer.getOrInstall 3 r 5 := by
  obtain ⟨hinstalled, hhanded, hinstall, -, -, -, hquiet⟩ := default_conserved succeeding
  have hcreates : succeeding.Installs 4 1 1 := .create ⟨⟨rfl, .own, _, rfl⟩, rfl⟩
  refine ⟨hcreates, ?_, ?_, ?_, ?_⟩
  · obtain hkeeps | hback := hinstalled 1 4 1 hcreates 13 (by decide)
    · cases hkeeps.current 13 (by decide) (Nat.le_refl 13)
    · exact hback
  · have hsup : succeeding.Supersedes 8 2 := ⟨.installDefault 0, ⟨rfl, .own, _, rfl⟩, trivial⟩
    obtain hback | hfirst := hhanded 1 8 2 hsup rfl
    · exact hback
    · cases (hfirst 0 (by decide)).1
  · have hcall : succeeding.Calls 2 (DefaultContainer.install 0) 7 (.ok (some 1)) 9 := by
      refine ⟨.own, fun _ => .done (), [.access (.emit .installingDefault),
        .access (.installDefault 0)], ?_⟩
      exact .act rfl rfl rfl rfl (.act rfl rfl rfl rfl (.ended (r := .ok (some 1)) rfl))
    obtain ⟨k, hk, hk', -, hr, -⟩ := hinstall 2 0 7 _ 9 hcall
    exact ⟨k, hk, hk', (Except.ok.inj hr).symm⟩
  · obtain ⟨-, hsame⟩ := hquiet 1 6 succeeding_quiet
    have hr := hsame 0 1 _ 6 1 3 _ 5 (by decide) (by decide) (by decide) (by decide)
      succeeding_first succeeding_second
    exact ⟨_, succeeding_first, hr ▸ succeeding_second⟩

end Run

end Wiring
