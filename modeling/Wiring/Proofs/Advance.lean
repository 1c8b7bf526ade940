import Wiring.Proofs.Replacement

namespace Wiring

variable {C : Client} {α : Type}

namespace Machine

variable {I : Implementation C} {m m' : Machine C} {t : ThreadId} {th th' : Thread C}
  {w : World C} {fresh : List (Thread C)} {L : Scope C} {a : Action C}
  {rest : a.Reply → Program C L.Answer}

theorem Stepped.acts (h : Stepped I m t th m') (ht : m.threads[t]? = some th)
    (ha : m.activity t = L.runs (.act a rest)) :
    ∃ r m₁, m.perform I t th a = some (r, m₁) ∧ m'.world = m₁.world ∧
      m'.activity t = L.runs (rest r) ∧
      m'.threads.length = m.threads.length + (a.brings I).length := by
  obtain ⟨th', fresh, hm, ha'⟩ | ⟨r, F, next, hn, -⟩ := h.activity ht
  · obtain ⟨r, m₁, hp, hw, hnext, -⟩ := hm.acts ((activity_eq ht).symm.trans ha)
    refine ⟨r, m₁, hp, hw, ha'.trans hnext, ?_⟩
    cases h with
    | move hm' =>
      obtain ⟨-, -, -, -, -, rfl⟩ := hm'.acts ((activity_eq ht).symm.trans ha)
      simp
    | notify hn => cases L <;> cases ((activity_eq ht).symm.trans ha).symm.trans hn
  · cases L <;> cases ha.symm.trans hn

theorem runs_isSome {p : Program C L.Answer} (ha : m.activity t = L.runs p)
    (hact : ∀ th a rest, p = .act a rest → (m.perform I t th a).isSome) :
    (m.step I t).isSome := by
  cases ht : m.threads[t]? with
  | none =>
    rw [activity, ht] at ha
    cases L <;> cases ha
  | some th =>
    rw [activity_eq ht] at ha
    simp only [step, ht, Option.bind_eq_bind, Option.bind_some, ha]
    cases p with
    | act a rest =>
      obtain ⟨r, hr⟩ := Option.isSome_iff_exists.1 (hact th a rest rfl)
      cases L <;> simp [Scope.runs, runOwn, advance, runInside, hr]
    | _ => cases L <;> rfl

end Machine

namespace Run

variable {I : Implementation C} (σ : Run I)

/-- Thread `t` is not passed over for ever while it can take a step. -/
def Attends (t : ThreadId) : Prop :=
  ∀ n, ∃ k, n ≤ k ∧ (σ.mover k = some t ∨ (σ.state k).step I t = none)

def Alone (t : ThreadId) (n k : ℕ) : Prop :=
  ∀ j u, n ≤ j → j < k → σ.mover j = some u → u = t

def Rests (n k : ℕ) : Prop := ∀ j, n ≤ j → j < k → σ.mover j = none

inductive Leads (t : ThreadId) (inv goal : ℕ → Prop) : ℕ → Prop
  | there {n} (h : goal n) : Leads t inv goal n
  | later {n} (hi : ∀ k, n ≤ k → σ.Rests n k → inv k) (hs : ((σ.state n).step I t).isSome)
      (h : ∀ k, n ≤ k → σ.Rests n k → σ.mover k = some t → Leads t inv goal (k + 1)) :
      Leads t inv goal n

variable {σ} {t : ThreadId} {inv inv' goal goal' : ℕ → Prop} {n k b : ℕ}

theorem Rests.state (h : σ.Rests n k) (hk : n ≤ k) : σ.state k = σ.state n := by
  induction hk with
  | refl => rfl
  | @step k hk ih =>
    rw [σ.idles k (h k hk (Nat.lt_succ_self k))]
    exact ih fun j hj hjk => h j hj (Nat.lt_succ_of_lt hjk)

theorem Rests.refl (n : ℕ) : σ.Rests n n := fun _ hj hlt => absurd hlt (Nat.not_lt_of_le hj)

theorem rests_or_moves (hk : n ≤ k) :
    σ.Rests n k ∨ ∃ j u, n ≤ j ∧ j < k ∧ σ.Rests n j ∧ σ.mover j = some u := by
  induction hk with
  | refl => exact .inl (.refl n)
  | @step k hk ih =>
    obtain hr | ⟨j, u, hj, hjk, hr, hm⟩ := ih
    · cases hm : σ.mover k with
      | none =>
        refine .inl fun j hj hjk => ?_
        obtain hlt | rfl := Nat.lt_succ_iff_lt_or_eq.1 hjk
        · exact hr j hj hlt
        · exact hm
      | some u => exact .inr ⟨k, u, hk, Nat.lt_succ_self k, hr, hm⟩
    · exact .inr ⟨j, u, hj, Nat.lt_succ_of_lt hjk, hr, hm⟩

theorem along_mover {m : Machine C} {hm : m.Fresh} {pick : ℕ → ThreadId} {u : ThreadId}
    (h : (along (I := I) m hm pick).mover n = some u) : u = pick n := by
  simp only [along] at h
  split at h
  · exact (Option.some.inj h).symm
  · cases h

theorem along_attends (m : Machine C) (hm : m.Fresh) (t : ThreadId) :
    (along (I := I) m hm fun _ => t).Attends t := by
  intro n
  refine ⟨n, Nat.le_refl n, ?_⟩
  cases h : ((along (I := I) m hm fun _ => t).state n).step I t with
  | none => exact .inr rfl
  | some m' => exact .inl (if_pos (by rw [Option.isSome_iff_exists]; exact ⟨m', h⟩))

namespace Leads

theorem trans (h : σ.Leads t inv goal n)
    (hnext : ∀ k, n ≤ k → goal k → σ.Leads t inv goal' k) : σ.Leads t inv goal' n := by
  induction h with
  | there h => exact hnext _ (Nat.le_refl _) h
  | later hi hs h ih =>
    refine .later hi hs fun k hk hr hm => ih k hk hr hm fun l hl hg => hnext l ?_ hg
    exact Nat.le_trans (Nat.le_succ_of_le hk) hl

theorem imp (h : σ.Leads t inv goal n) (hi : ∀ k, n ≤ k → inv k → inv' k)
    (hg : ∀ k, n ≤ k → goal k → goal' k) : σ.Leads t inv' goal' n := by
  induction h with
  | there h => exact .there (hg _ (Nat.le_refl _) h)
  | later hi' hs h ih =>
    refine .later (fun k hk hr => hi k hk (hi' k hk hr)) hs fun k hk hr hm => ih k hk hr hm ?_ ?_
    · exact fun l hl => hi l (Nat.le_trans (Nat.le_succ_of_le hk) hl)
    · exact fun l hl => hg l (Nat.le_trans (Nat.le_succ_of_le hk) hl)

theorem since (h : σ.Leads t inv goal n) :
    σ.Leads t inv (fun k => goal k ∧ ∀ j, n ≤ j → j < k → inv j) n := by
  induction h with
  | there h => exact .there ⟨h, fun j hj hlt => absurd hlt (Nat.not_lt_of_le hj)⟩
  | @later n hi hs h ih =>
    refine .later hi hs fun k hk hr hm => (ih k hk hr hm).imp (fun _ _ hinv => hinv) ?_
    rintro l hl ⟨hg, hinv⟩
    refine ⟨hg, fun j hj hjl => ?_⟩
    obtain hlt | hge := Nat.lt_or_ge j (k + 1)
    · exact hi j hj fun i hni hij => hr i hni (by omega)
    · exact hinv j hge hjl

theorem arrived_or_onWay (h : σ.Leads t inv goal n) (hk : n ≤ k)
    (hown : ∀ j u, n ≤ j → j < k → inv j → σ.mover j = some u → u = t) :
    (∃ l, n ≤ l ∧ l ≤ k ∧ goal l ∧ ∀ j, n ≤ j → j < l → inv j) ∨
      (∀ j, n ≤ j → j ≤ k → inv j) ∧ ((σ.state k).step I t).isSome := by
  induction h with
  | @there n h =>
    exact .inl ⟨n, Nat.le_refl n, hk, h, fun j hj hlt => absurd hlt (Nat.not_lt_of_le hj)⟩
  | @later n hi hs h ih =>
    have hrest : ∀ l, σ.Rests n l → ∀ j, n ≤ j → j ≤ l → inv j := fun l hr j hj hjl =>
      hi j hj fun i hn hlt => hr i hn (Nat.lt_of_lt_of_le hlt hjl)
    obtain hr | ⟨l, u, hl, hlk, hr, hm⟩ := rests_or_moves hk
    · exact .inr ⟨hrest k hr, hr.state hk ▸ hs⟩
    · obtain rfl := hown l u hl hlk (hi l hl hr) hm
      have hbefore : ∀ j, n ≤ j → j < l + 1 → inv j := fun j hj hjl =>
        hrest l hr j hj (Nat.le_of_lt_succ hjl)
      obtain ⟨i, hi, hik, hg, hinv⟩ | ⟨hinv, hsome⟩ :=
        ih l hl hr hm hlk fun j u hj hjk => hown j u (Nat.le_trans hl (Nat.le_of_succ_le hj)) hjk
      · refine .inl ⟨i, by omega, hik, hg, fun j hj hji => ?_⟩
        obtain hlt | hge := Nat.lt_or_ge j (l + 1)
        · exact hbefore j hj hlt
        · exact hinv j hge hji
      · refine .inr ⟨fun j hj hjk => ?_, hsome⟩
        obtain hlt | hge := Nat.lt_or_ge j (l + 1)
        · exact hbefore j hj hlt
        · exact hinv j hge hjk

theorem arrives (h : σ.Leads t inv goal n) (hfair : σ.Attends t)
    (hown : ∀ j u, n ≤ j → inv j → σ.mover j = some u → u = t) :
    ∃ k, n ≤ k ∧ goal k ∧ ∀ j, n ≤ j → j < k → inv j := by
  induction h with
  | @there n h => exact ⟨n, Nat.le_refl n, h, fun j hj hlt => absurd hlt (Nat.not_lt_of_le hj)⟩
  | @later n hi hs h ih =>
    have hmoves : ∃ l, n ≤ l ∧ σ.Rests n l ∧ σ.mover l = some t := by
      obtain ⟨k, hk, hturn⟩ := hfair n
      obtain hr | ⟨l, u, hl, -, hr, hm⟩ := rests_or_moves hk
      · refine ⟨k, hk, hr, hturn.resolve_right fun hnone => ?_⟩
        rw [← hr.state hk, hnone] at hs
        cases hs
      · exact ⟨l, hl, hr, (hown l u hl (hi l hl hr) hm) ▸ hm⟩
    obtain ⟨l, hl, hr, hm⟩ := hmoves
    obtain ⟨k, hk, hg, hinv⟩ :=
      ih l hl hr hm fun j u hj => hown j u (Nat.le_trans hl (Nat.le_of_succ_le hj))
    refine ⟨k, by omega, hg, fun j hj hjk => ?_⟩
    obtain hlt | hge := Nat.lt_or_ge j (l + 1)
    · exact hi j hj fun i hn hlt' => hr i hn (by omega)
    · exact hinv j hge hjk

end Leads

variable {L : Scope C} {rest : α → Program C L.Answer} {p : Program C α}

variable {q : Program C α}

theorem Proceeds.rests (h : σ.Proceeds t L rest p b q n) (hk : n ≤ k) (hr : σ.Rests n k) :
    σ.Proceeds t L rest p b q k := by
  induction hk with
  | refl => exact h
  | @step k hk ih =>
    have hm := hr k hk (Nat.lt_succ_self k)
    exact (ih fun j hj hjk => hr j hj (Nat.lt_succ_of_lt hjk)).stays (by rw [hm]; exact nofun)

theorem Proceeds.of_runs {p : Program C L.Answer} (h : (σ.state n).activity t = L.runs p) :
    σ.Proceeds t L .done p n p n := .begins (by rw [Program.bind_done, h])

theorem Proceeds.ended {p : Program C L.Answer} {r : Except Failure L.Answer}
    (h : σ.Proceeds t L .done p b (.ended r) n) (hm : σ.mover n = some t) :
    (σ.state (n + 1)).activity t = L.ended r := by
  obtain ⟨hne, -⟩ | ⟨-, hnext⟩ := runs_next h.activity
  · exact absurd hm hne
  · rw [Program.bind_done] at hnext
    exact Scope.next_ended_iff.1 hnext

theorem Leads.act {a : Action C} {next : a.Reply → Program C α}
    (h : σ.Proceeds t L rest p b (.act a next) n)
    (hi : ∀ k, n ≤ k → σ.Rests n k → σ.Proceeds t L rest p b (.act a next) k → inv k)
    (hs : ∀ th, ((σ.state n).perform I t th a).isSome)
    (hnext : ∀ k th r m, n ≤ k → (σ.state n).threads[t]? = some th →
      (σ.state n).perform I t th a = some (r, m) → (σ.state (k + 1)).world = m.world →
      (σ.state (k + 1)).threads.length = (σ.state n).threads.length + (a.brings I).length →
      σ.Proceeds t L rest p b (next r) (k + 1) → σ.Leads t inv goal (k + 1)) :
    σ.Leads t inv goal n := by
  refine .later (fun k hk hr => hi k hk hr (h.rests hk hr)) ?_ fun k hk hr hm => ?_
  · refine Machine.runs_isSome h.activity fun th a' rest' he => ?_
    cases he
    exact hs th
  · have hnow := h.rests hk hr
    obtain ⟨th, ht, hst⟩ := Machine.step_cases (σ.moves k t hm)
    obtain ⟨r, m, hp, hw, ha, hl⟩ := hst.acts ht hnow.activity
    rw [hr.state hk] at ht hp hl
    exact hnext k th r m hk ht hp hw hl (hnow.acts hm ha)

end Run

end Wiring
