import Wiring.Proofs.Extent

namespace Wiring

variable {C : Client} {α β : Type}

namespace Program

variable {P : α → Prop} {Q : β → Prop}

def Ensures (P : α → Prop) : Program C α → Prop
  | done a => P a
  | fail _ => True
  | crash _ => True
  | act _ next => ∀ r, (next r).Ensures P
  | call _ next => ∀ a, (next a).Ensures P
  | resolve _ next => ∀ a, (next a).Ensures P

theorem Ensures.bind (p : Program C α) {f : α → Program C β} (h : ∀ a, (f a).Ensures Q) :
    (p.bind f).Ensures Q := by
  induction p with
  | done a => exact h a
  | fail e => trivial
  | crash s => trivial
  | act a next ih => exact fun r => ih r
  | call k next ih => exact fun a => ih a
  | resolve g next ih => exact fun a => ih a

theorem Ensures.ofExcept {a : Except Error α} (h : ∀ b, a = .ok b → P b) :
    (ofExcept a : Program C α).Ensures P := by
  cases a with
  | ok b => exact h b rfl
  | error e => trivial

end Program

theorem build_ensures (c : ContainerId) (name : String) (r : Registration C) (o : Overrides) :
    (build c name r o).Ensures (·.type = r.provides) := by
  apply Program.Ensures.bind
  intro _
  apply Program.Ensures.bind
  intro parameters
  apply Program.Ensures.bind
  intro args
  apply Program.Ensures.bind
  intro i
  apply Program.Ensures.ofExcept
  intro j hj
  obtain ⟨ht, rfl⟩ := Instance.cast_eq_ok.1 hj
  exact ht

theorem Scope.next_ended_iff {I : Implementation C} {L : Scope C} {r : Except Failure L.Answer}
    {A : Activity C} : L.Next I (.ended r) A ↔ A = L.ended r := by
  obtain ((e | s) | a) := r <;> exact Iff.rfl

namespace Machine

variable {I : Implementation C} {m m' : Machine C} {t u : ThreadId} {th th' : Thread C}
  {w : World C} {fresh : List (Thread C)} {s : Site C} {K : Control C} {F G : List (Frame C)}
  {next : Except Error Instance → Program C C.Report}

theorem Move.keeps_begun (hm : Move I m t th w th' fresh)
    (h : th'.activity = .resolving K G next) (hG : .keeps s :: F <:+ G) :
    (∃ K G, th.activity = .resolving K G next ∧ .keeps s :: F <:+ G) ∨
      th'.activity = .resolving (.run (build s.container s.name s.registration ∅))
        (.keeps s :: F) next := by
  cases hm with
  | recheckMiss h' hi =>
    obtain ⟨rfl, rfl, rfl⟩ := Activity.resolving.inj h
    obtain he | hG := List.suffix_cons_iff.1 hG
    · cases he
      exact .inr rfl
    · exact .inl ⟨_, _, h', hG⟩
  | ownResolve h' =>
    obtain ⟨rfl, rfl, rfl⟩ := Activity.resolving.inj h
    cases List.suffix_nil.1 hG
  | enterNew h' hc =>
    obtain ⟨rfl, rfl, rfl⟩ := Activity.resolving.inj h
    exact .inl ⟨_, _, h', (List.suffix_cons_iff.1 hG).resolve_left nofun⟩
  | claimFree h' ho =>
    obtain ⟨rfl, rfl, rfl⟩ := Activity.resolving.inj h
    exact .inl ⟨_, _, h', (List.suffix_cons_iff.1 hG).resolve_left nofun⟩
  | runResolve h' =>
    obtain ⟨rfl, rfl, rfl⟩ := Activity.resolving.inj h
    exact .inl ⟨_, _, h', (List.suffix_cons_iff.1 hG).resolve_left nofun⟩
  | begin | ownEnded | ownAct | ownCall | ownAnswer | ownCrash => cases h
  | keepFirst h' | keepOther h' | keepNothing h' | release h' | leave h' | answer h' | passBy h' =>
    obtain ⟨rfl, rfl, rfl⟩ := Activity.resolving.inj h
    exact .inl ⟨_, _, h', hG.trans (List.suffix_cons _ _)⟩
  | _ =>
    obtain ⟨rfl, rfl, rfl⟩ := Activity.resolving.inj h
    exact .inl ⟨_, _, ‹th.activity = _›, hG⟩

theorem Stepped.keeps_begun (h : Stepped I m t th m') (ht : m.threads[t]? = some th)
    (ha : m'.activity u = .resolving K G next) (hG : .keeps s :: F <:+ G) :
    (∃ K G, m.activity u = .resolving K G next ∧ .keeps s :: F <:+ G) ∨
      m'.activity u = .resolving (.run (build s.container s.name s.registration ∅))
        (.keeps s :: F) next := by
  by_cases he : u = t
  · subst he
    obtain ⟨th', fresh, hm, ha'⟩ | ⟨r, G', next', ho, hn, -⟩ := h.activity ht
    · rw [ha', activity_eq ht]
      exact hm.keeps_begun (ha'.symm.trans ha) hG
    · cases hn.symm.trans ha
      exact .inl ⟨_, _, ho, hG⟩
  · obtain hb | ⟨a, owner, G', next', ho, hn⟩ := (h.beside he).activity
    · exact .inl ⟨K, G, hb.symm.trans ha, hG⟩
    · cases hn.symm.trans ha
      exact .inl ⟨_, _, ho, hG⟩

theorem Move.finish_length {r : Except Failure Instance} (hm : Move I m t th w th' fresh)
    (h : th.activity = .resolving (.finish r) F next)
    (h' : th'.activity = .resolving K G next) : F.length = G.length + 1 := by
  cases hm with
  | keepFirst h₁ hi => cases h.symm.trans h₁; cases h'; rfl
  | keepOther h₁ hi => cases h.symm.trans h₁; cases h'; rfl
  | keepNothing h₁ => cases h.symm.trans h₁; cases h'; rfl
  | release h₁ => cases h.symm.trans h₁; cases h'; rfl
  | leave h₁ => cases h.symm.trans h₁; cases h'; rfl
  | answer h₁ => cases h.symm.trans h₁; cases h'; rfl
  | passBy h₁ => cases h.symm.trans h₁; cases h'; rfl
  | ownAnswer h₁ => cases h'
  | ownCrash h₁ => cases h'
  | _ => cases h.symm.trans ‹th.activity = _›

theorem Stepped.finish_leaves {r : Except Failure Instance} (h : Stepped I m t th m')
    (ht : m.threads[t]? = some th) (ha : m.activity t = .resolving (.finish r) F next)
    (ha' : m'.activity t = .resolving K G next) : ¬ F <:+ G := by
  intro hG
  have hle := hG.length_le
  obtain ⟨th', fresh, hm, hn⟩ | ⟨r', G', next', ho, -⟩ := h.activity ht
  · have hlen := hm.finish_length ((activity_eq ht).symm.trans ha) (hn.symm.trans ha')
    omega
  · cases ha.symm.trans ho

theorem Reachable.sites_shared (h : m.Reachable I) :
    ∀ u, ∀ s ∈ (m.activity u).sites, s.registration.shared = true := by
  refine h.induct (P := fun m => ∀ u, ∀ s ∈ (m.activity u).sites, s.registration.shared = true)
    ?_ ?_
  · intro m hf u s hs
    rw [hf.activity] at hs
    cases hs
  · intro m m' t _ hm hs u s hu
    obtain ⟨th, ht, h⟩ := step_cases hs
    obtain hu | ⟨-, hs⟩ := h.sites ht hu
    · exact hm u s hu
    · exact hs

end Machine

namespace Run

variable {I : Implementation C} (σ : Run I) {n k b : ℕ} {t : ThreadId} {e : EntryId}
  {i : Instance} {x : Entry C} {s : Site C} {K : Control C} {F G : List (Frame C)}
  {next next' : Except Error Instance → Program C C.Report} {L : Scope C} {p q : Program C α}
  {rest : α → Program C L.Answer} {P : α → Prop}

variable {σ} in
theorem Proceeds.ensures (h : σ.Proceeds t L rest p n q k) (hp : p.Ensures P) : q.Ensures P := by
  induction h with
  | begins h => exact hp
  | stays h hm ih => exact ih
  | acts h hm ha ih => exact ih _
  | calls h hm ih => exact Program.Ensures.bind _ ih
  | answered h hr ih => exact ih _

variable {σ} in
theorem Ends.ensures {a : α} (h : σ.Ends t L rest p n (.ok a) k) (hp : p.Ensures P) : P a := by
  cases h with
  | itself h => exact h.ensures hp

def Within (t : ThreadId) (F : List (Frame C)) (next : Except Error Instance → Program C C.Report)
    (b n : ℕ) : Prop :=
  ∀ l, b ≤ l → l ≤ n → ∃ K G, (σ.state l).activity t = .resolving K G next ∧ F <:+ G

def Builds (t : ThreadId) (s : Site C) (F : List (Frame C))
    (next : Except Error Instance → Program C C.Report) (b : ℕ) (r : Except Failure Instance)
    (k : ℕ) : Prop :=
  σ.Ends t (.inside (.keeps s :: F) next) .done (build s.container s.name s.registration ∅) b r k

variable {σ}

theorem Within.succ (h : σ.Within t F next b n)
    (ha : (σ.state (n + 1)).activity t = .resolving K G next) (hG : F <:+ G) :
    σ.Within t F next b (n + 1) := by
  intro l hb hl
  by_cases he : l = n + 1
  · exact he ▸ ⟨K, G, ha, hG⟩
  · exact h l hb (by omega)

theorem Within.finished {r : Except Failure Instance} (h : σ.Within t F next b n) (hb : b ≤ k)
    (hk : k ≤ n) (ha : (σ.state k).activity t = .resolving (.finish r) F next) :
    (σ.state n).activity t = .resolving (.finish r) F next := by
  induction hk with
  | refl => exact ha
  | @step n hk ih =>
    have hnow := ih fun l hl hn => h l hl (Nat.le_succ_of_le hn)
    by_cases hm : σ.mover n = some t
    · obtain ⟨th, ht, hst⟩ := Machine.step_cases (σ.moves n t hm)
      obtain ⟨K, G, ha', hG⟩ := h (n + 1) (Nat.le_trans hb (Nat.le_succ_of_le hk)) (Nat.le_refl _)
      exact absurd hG (hst.finish_leaves ht hnow ha')
    · obtain hsame | ⟨a, owner, G, next', ho, -⟩ := (σ.beside t hm).activity
      · exact hsame.trans hnow
      · cases hnow.symm.trans ho

theorem ended_or_underWay {p : Program C L.Answer} (h : (σ.state b).activity t = L.runs p)
    (hn : b ≤ n) :
    σ.UnderWay t L .done p b n ∨ ∃ r k l, k ≤ l ∧ l ≤ n ∧ σ.Ends t L .done p b r k ∧
      (σ.state l).activity t = L.ended r := by
  induction hn with
  | refl => exact .inl (.runs (.begins (by rw [Program.bind_done, h])))
  | @step n hn ih =>
    obtain hu | ⟨r, k, l, hk, hl, he, ha⟩ := ih
    · obtain hu | ⟨r, k, hk, he, hnext⟩ := hu.step
      · exact .inl hu
      · rw [Program.bind_done] at hnext
        exact .inr ⟨r, k, n + 1, hk, Nat.le_refl _, he, Scope.next_ended_iff.1 hnext⟩
    · exact .inr ⟨r, k, l, hk, Nat.le_succ_of_le hl, he, ha⟩

theorem UnderWay.frames_lt {p : Program C Instance}
    (h : σ.UnderWay t (.inside F next) .done p b n)
    (ha : (σ.state n).activity t = .resolving K G next') (hK : ∀ q, K ≠ .run q) :
    F.length < G.length := by
  cases h with
  | runs h =>
    cases ha.symm.trans h.activity
    exact absurd rfl (hK _)
  | awaits h hasks =>
    obtain ⟨K', G', ha', hG⟩ := hasks.awaits n hasks.lt (Nat.le_refl n)
    cases ha.symm.trans ha'
    exact hG.length_le

variable (σ)

theorem begun_since (ha : (σ.state n).activity t = .resolving K G next)
    (hG : .keeps s :: F <:+ G) :
    ∃ b ≤ n, σ.Within t (.keeps s :: F) next b n ∧ (σ.state b).activity t =
      .resolving (.run (build s.container s.name s.registration ∅)) (.keeps s :: F) next := by
  induction n generalizing K G with
  | zero => cases (σ.fresh.activity t).symm.trans ha
  | succ n ih =>
    have hback : (∃ K G, (σ.state n).activity t = .resolving K G next ∧ .keeps s :: F <:+ G) ∨
        (σ.state (n + 1)).activity t =
          .resolving (.run (build s.container s.name s.registration ∅)) (.keeps s :: F) next := by
      cases hm : σ.mover n with
      | none => exact .inl ⟨K, G, σ.idles n hm ▸ ha, hG⟩
      | some u =>
        obtain ⟨th, ht, hst⟩ := Machine.step_cases (σ.moves n u hm)
        exact hst.keeps_begun ht ha hG
    obtain ⟨K', G', ha', hG'⟩ | hnew := hback
    · obtain ⟨b, hb, hw, hbegun⟩ := ih ha' hG'
      exact ⟨b, Nat.le_succ_of_le hb, hw.succ ha hG, hbegun⟩
    · refine ⟨n + 1, Nat.le_refl _, fun l hl hl' => ?_, hnew⟩
      obtain rfl : l = n + 1 := by omega
      exact ⟨_, _, hnew, List.suffix_rfl⟩

theorem build_ended {r : Except Failure Instance}
    (ha : (σ.state n).activity t = .resolving (.finish r) (.keeps s :: F) next) :
    ∃ b k, k ≤ n ∧ σ.Within t (.keeps s :: F) next b n ∧ σ.Builds t s F next b r k := by
  obtain ⟨b, hb, hw, hbegun⟩ := σ.begun_since ha List.suffix_rfl
  obtain hu | ⟨r', k, l, hk, hl, he, hended⟩ :=
    ended_or_underWay (L := .inside (.keeps s :: F) next) hbegun hb
  · have hlt := hu.frames_lt ha nofun
    omega
  · have hbl : b ≤ l := Nat.le_trans he.begins_with.1 hk
    cases ha.symm.trans (hw.finished hbl hl hended)
    exact ⟨b, k, Nat.le_trans hk hl, hw, he⟩

def Makes (e : EntryId) (r : Registration C) (i : Instance) (k : ℕ) : Prop :=
  ∃ t s F next b, s.entry = e ∧ s.registration = r ∧ σ.Builds t s F next b (.ok i) k

variable {σ} in
theorem Makes.type {r : Registration C} (h : σ.Makes e r i k) : i.type = r.provides := by
  obtain ⟨t, s, F, next, b, -, rfl, h⟩ := h
  exact h.ensures (build_ensures _ _ _ _)

theorem cached_makes (hx : (σ.state n).world.entries[e]? = some x) (hi : x.cache = some i) :
    x.registration.shared = true ∧ ∃ k < n, σ.Makes e x.registration i k := by
  induction n generalizing x with
  | zero =>
    have hc := σ.fresh.world.uncached e
    rw [World.cached, hx, Option.bind_some, hi] at hc
    cases hc
  | succ n ih =>
    cases hm : σ.mover n with
    | none =>
      rw [σ.idles n hm] at hx
      obtain ⟨hs, k, hk, h⟩ := ih hx hi
      exact ⟨hs, k, Nat.lt_succ_of_lt hk, h⟩
    | some u =>
      obtain ⟨th, ht, hst⟩ := Machine.step_cases (σ.moves n u hm)
      have hc : (σ.state (n + 1)).world.cached e = some i := by
        rw [World.cached, hx, Option.bind_some, hi]
      have hold : ∀ y, (σ.state n).world.entries[e]? = some y →
          x.registration = y.registration := by
        intro y hy
        obtain ⟨x', hx', hr⟩ := (hst.develops ht).registration e y hy
        cases hx.symm.trans hx'
        exact hr
      by_cases hn : (σ.state n).world.cached e = some i
      · obtain ⟨y, hy, hyi⟩ := Option.bind_eq_some_iff.1 hn
        obtain ⟨hs, k, hk, h⟩ := ih hy hyi
        rw [hold y hy]
        exact ⟨hs, k, Nat.lt_succ_of_lt hk, h⟩
      · obtain ⟨th', fresh, hmv, -⟩ | ⟨r, F, next, -, -, hw⟩ := hst.activity ht
        · obtain hsame | ⟨j, s, F, next, ha, -, hw⟩ := hmv.cached
          · exact absurd ((hsame e).symm.trans hc) hn
          · have hkeeps := (Machine.activity_eq ht).trans ha
            have hsite : s ∈ ((σ.state n).activity u).sites := by
              apply Activity.kept_subset_sites
              rw [hkeeps]
              exact List.mem_cons_self
            rw [hw, World.cached_setCache] at hc
            split at hc
            · next he =>
              obtain ⟨rfl, -⟩ := he
              cases hc
              obtain ⟨place, -, hplaced⟩ := (σ.reachable n).located
              obtain ⟨⟨y, hy, hr⟩, -⟩ := hplaced u s hsite
              have hreg := (hold y hy).trans hr
              obtain ⟨b, k, hk, -, hb⟩ := σ.build_ended hkeeps
              rw [hreg]
              exact ⟨(σ.reachable n).sites_shared u s hsite, k, Nat.lt_succ_of_le hk,
                u, s, F, next, b, rfl, rfl, hb⟩
            · exact absurd hc hn
        · rw [hw] at hc
          exact absurd hc hn

end Run

end Wiring
