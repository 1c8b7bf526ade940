import Wiring.Proofs.Course

namespace Wiring

variable {C : Client} {α β : Type}

def Action.Ready : Action C → Prop
  | .await _ => False
  | .awaitWaiters .. => False
  | .join _ => False
  | _ => True

theorem Action.Ready.performs {a : Action C} (h : a.Ready) (I : Implementation C) (m : Machine C)
    (t : ThreadId) (th : Thread C) : (m.perform I t th a).isSome := by
  cases a with
  | settleDefault =>
    simp only [Machine.perform]
    split <;> rfl
  | await => cases h
  | awaitWaiters => cases h
  | join => cases h
  | _ => rfl

theorem Program.ofExcept_eq_ended (a : Except Error α) :
    (Program.ofExcept a : Program C α) = .ended (Except.mapError Failure.error a) := by
  cases a <;> rfl

def Program.Ready : Program C α → Prop
  | .act a next => a.Ready ∧ ∀ reply, (next reply).Ready
  | .call .. => False
  | .resolve .. => False
  | _ => True

namespace Run

variable {I : Implementation C} {σ : Run I} {t : ThreadId} {L : Scope C} {n k l : ℕ}
  {rest : α → Program C L.Answer} {p : Program C α} {ds : List (Deed C)} {r : Except Failure α}

structure Reaches (σ : Run I) (t : ThreadId) (a : Action C) (n k : ℕ) : Prop where
  le : n ≤ k
  rests (j : ℕ) (hn : n ≤ j) (hk : j < k) : σ.mover j ≠ some t
  performs : σ.Performs k t a

def Calls (σ : Run I) (t : ThreadId) (p : Program C α) (n : ℕ) (r : Except Failure α) (l : ℕ) :
    Prop :=
  ∃ (L : Scope C) (rest : α → Program C L.Answer) (ds : List (Deed C)),
    σ.Completes t L rest p n ds r l

inductive Ensues (σ : Run I) (t : ThreadId) (L : Scope C) (rest : β → Program C L.Answer)
    (f : α → Program C β) (k : ℕ) : Except Failure α → List (Deed C) → Except Failure β → ℕ → Prop
  | goes {a ds r l} (hf : σ.Completes t L rest (f a) k ds r l) :
      Ensues σ t L rest f k (.ok a) ds r l
  | stops {e} : Ensues σ t L rest f k (.error e) [] (.error e) k

theorem runs_until (hk : n ≤ k) (hm : ∀ j, n ≤ j → j < k → σ.mover j ≠ some t)
    {q : Program C L.Answer} (ha : (σ.state n).activity t = L.runs q) :
    (σ.state k).activity t = L.runs q := by
  induction hk with
  | refl => exact ha
  | @step k hk ih =>
    exact (σ.beside t (hm k hk (Nat.lt_succ_self k))).runs
      (ih fun j hj hjk => hm j hj (Nat.lt_succ_of_lt hjk))

theorem Attends.turn (hfair : σ.Attends t)
    (hs : ∀ k, n ≤ k → (∀ j, n ≤ j → j < k → σ.mover j ≠ some t) → ((σ.state k).step I t).isSome) :
    ∃ k, n ≤ k ∧ (∀ j, n ≤ j → j < k → σ.mover j ≠ some t) ∧ σ.mover k = some t := by
  by_cases hex : ∃ k, n ≤ k ∧ σ.mover k = some t
  · classical
    refine ⟨Nat.find hex, (Nat.find_spec hex).1, fun j hj hjk hm => ?_, (Nat.find_spec hex).2⟩
    exact Nat.find_min hex hjk ⟨hj, hm⟩
  · obtain ⟨k, hk, hturn⟩ := hfair n
    have hnever : ∀ j, n ≤ j → σ.mover j ≠ some t := fun j hj hm => hex ⟨j, hj, hm⟩
    have hsome := hs k hk fun j hj _ => hnever j hj
    rw [hturn.resolve_left (hnever k hk)] at hsome
    cases hsome

namespace Completes

theorem waited (hk : n ≤ k) (hm : ∀ j, n ≤ j → j < k → σ.mover j ≠ some t)
    (ha : (σ.state n).activity t = L.runs (p.bind rest)) (h : σ.Completes t L rest p k ds r l) :
    σ.Completes t L rest p n ds r l := by
  induction hk with
  | refl => exact h
  | @step k hk ih =>
    have hm' := fun j hj hjk => hm j hj (Nat.lt_succ_of_lt hjk)
    exact ih hm' (.waits (hm k hk (Nat.lt_succ_self k)) (runs_until hk hm' ha) h)

theorem of_ended (r₀ : Except Failure α) (h : σ.Completes t L rest (.ended r₀) n ds r l) :
    r = r₀ ∧ (∀ j, n ≤ j → j < l → σ.mover j ≠ some t) ∧ ds = [] := by
  generalize hq : (Program.ended r₀ : Program C α) = q at h
  induction h with
  | @ended r n =>
    refine ⟨?_, fun j hj hjn => absurd hj (Nat.not_le_of_lt hjn), rfl⟩
    obtain ((e | s) | a) := r₀ <;> obtain ((e' | s') | a') := r <;> cases hq <;> rfl
  | @waits p n ds r l hm _ _ ih =>
    obtain ⟨hr, hrests, hds⟩ := ih hq
    refine ⟨hr, fun j hj hjl => ?_, hds⟩
    obtain rfl | hlt := Nat.eq_or_lt_of_le hj
    · exact hm
    · exact hrests j hlt hjl
  | _ => obtain ((e | s) | a) := r₀ <;> cases hq

theorem acted {a : Action C} {next : a.Reply → Program C α}
    (h : σ.Completes t L rest (.act a next) n ds r l) :
    ∃ k th reply m ds', σ.Reaches t a n k ∧ (σ.state k).perform I t th a = some (reply, m) ∧
      (σ.state (k + 1)).world = m.world ∧ (σ.state k).threads[t]? = some th ∧
      σ.Completes t L rest (next reply) (k + 1) ds' r l := by
  generalize hq : Program.act a next = q at h
  induction h with
  | @ended r => obtain ((e | s) | b) := r <;> cases hq
  | @waits p n ds r l hm ha h ih =>
    obtain ⟨k, th, reply, m, ds', hreach, hrest⟩ := ih hq
    refine ⟨k, th, reply, m, ds', ⟨Nat.le_of_succ_le hreach.le, fun j hj hjk => ?_,
      hreach.performs⟩, hrest⟩
    obtain rfl | hlt := Nat.eq_or_lt_of_le hj
    · exact hm
    · exact hreach.rests j hlt hjk
  | @act a next n th reply m ds r l hm ha ht hp h ih =>
    cases hq
    have hperforms : σ.Performs n t a := ⟨hm, L, _, ha⟩
    obtain ⟨th', ht', hst⟩ := Machine.step_cases (σ.moves n t hm)
    cases ht.symm.trans ht'
    obtain ⟨reply', m', hp', hw, -⟩ := hst.acts ht ha
    cases hp.symm.trans hp'
    have hreach : σ.Reaches t a n n :=
      ⟨Nat.le_refl n, fun j hj hjn => absurd hj (Nat.not_le_of_lt hjn), hperforms⟩
    exact ⟨n, th, reply, m, ds, hreach, hp, hw, ht, h⟩
  | call => cases hq
  | answered => cases hq
  | crashed => cases hq

theorem called {c : Call C} {next : Except Error c.Reply → Program C α}
    (h : σ.Completes t L rest (.call c next) n ds r l) :
    ∃ k ds', n ≤ k ∧ σ.Completes t L rest ((I.answer c).attempt.bind next) k ds' r l := by
  generalize hq : Program.call c next = q at h
  induction h with
  | @ended r => obtain ((e | s) | b) := r <;> cases hq
  | waits hm ha h ih =>
    obtain ⟨k, ds', hk, h'⟩ := ih hq
    exact ⟨k, ds', Nat.le_of_succ_le hk, h'⟩
  | act => cases hq
  | call hm ha h ih => cases hq; exact ⟨_, _, Nat.le_succ _, h⟩
  | answered => cases hq
  | crashed => cases hq

theorem requested {g : Goal} {next : Except Error Instance → Program C α}
    (h : σ.Completes t L rest (.resolve g next) n ds r l) :
    ∃ k r' l', n ≤ k ∧ (∀ j, n ≤ j → j < k → σ.mover j ≠ some t) ∧ l' < l ∧
      σ.Requests t L g (fun a => (next a).bind rest) k r' l' ∧
      ((∃ a ds', r' = Except.mapError .error a ∧ σ.Completes t L rest (next a) (l' + 1) ds' r l) ∨
        ∃ s, r' = .error (.crash s) ∧ r = .error (.crash s)) := by
  generalize hq : Program.resolve g next = q at h
  have hnow : ∀ n j, n ≤ j → j < n → σ.mover j ≠ some t := fun n j hj hjn =>
    absurd hj (Nat.not_le_of_lt hjn)
  induction h with
  | @ended r => obtain ((e | s) | b) := r <;> cases hq
  | waits hm ha h ih =>
    obtain ⟨k, r', l', hk, hrests, hrest⟩ := ih hq
    refine ⟨k, r', l', Nat.le_of_succ_le hk, fun j hj hjk => ?_, hrest⟩
    obtain rfl | hlt := Nat.eq_or_lt_of_le hj
    · exact hm
    · exact hrests j hlt hjk
  | act => cases hq
  | call => cases hq
  | answered hr h =>
    cases hq
    exact ⟨_, _, _, Nat.le_refl _, hnow _, h.le, hr, .inl ⟨_, _, rfl, h⟩⟩
  | crashed hr =>
    cases hq
    exact ⟨_, _, _, Nat.le_refl _, hnow _, Nat.lt_succ_self _, hr, .inr ⟨_, rfl, rfl⟩⟩

theorem of_request {g : Goal} {rest : Instance → Program C L.Answer} {r : Except Failure Instance}
    (h : σ.Completes t L rest (.request g) n ds r l) :
    ∃ k l', n ≤ k ∧ (∀ j, n ≤ j → j < k → σ.mover j ≠ some t) ∧ l' < l ∧
      σ.Requests t L g (fun a => (Program.ofExcept a).bind rest) k r l' := by
  obtain ⟨k, r', l', hk, hrests, hl, hr, ⟨a, ds', rfl, h'⟩ | ⟨s, rfl, rfl⟩⟩ := h.requested
  · rw [Program.ofExcept_eq_ended] at h'
    exact ⟨k, l', hk, hrests, hl, (h'.of_ended _).1 ▸ hr⟩
  · exact ⟨k, l', hk, hrests, hl, hr⟩

section

variable {rest : β → Program C L.Answer} {f : α → Program C β}

theorem of_bind {r : Except Failure β} (h : σ.Completes t L rest (p.bind f) n ds r l) :
    ∃ r₁ k ds₁ ds₂, σ.Completes t L (fun a => (f a).bind rest) p n ds₁ r₁ k ∧
      σ.Ensues t L rest f k r₁ ds₂ r l ∧ ds = ds₁ ++ ds₂ := by
  generalize hq : p.bind f = q at h
  -- Code that is done leaves everything to what follows it.
  have hdone {b q n ds r l} (hb : f b = q) (h : σ.Completes t L rest q n ds r l) :
      ∃ r₁ k ds₁ ds₂, σ.Completes t L (fun a => (f a).bind rest) (.done b) n ds₁ r₁ k ∧
        σ.Ensues t L rest f k r₁ ds₂ r l ∧ ds = ds₁ ++ ds₂ := by
    cases hb
    exact ⟨_, _, _, _, .ended (r := .ok b) h.activity, .goes h, rfl⟩
  induction h generalizing p with
  | @ended r n ha =>
    cases p with
    | done b => exact hdone hq (.ended ha)
    | fail e =>
      obtain ((e' | s) | b) := r <;> cases hq
      exact ⟨_, _, _, _, .ended (r := .error (.error e)) ha, .stops, rfl⟩
    | crash s =>
      obtain ((e | s') | b) := r <;> cases hq
      exact ⟨_, _, _, _, .ended (r := .error (.crash s)) ha, .stops, rfl⟩
    | _ => obtain ((e | s) | b) := r <;> cases hq
  | waits hm ha h ih =>
    cases hq
    rw [Program.bind_assoc] at ha
    obtain ⟨r₁, k, ds₁, ds₂, hp, hf, rfl⟩ := ih rfl
    exact ⟨r₁, k, ds₁, ds₂, .waits hm ha hp, hf, rfl⟩
  | act hm ha ht hact h ih =>
    cases p with
    | done b => exact hdone hq (.act hm ha ht hact h)
    | act a next =>
      cases hq
      rw [← Program.bind, Program.bind_assoc] at ha
      obtain ⟨r₁, k, ds₁, ds₂, hp, hf, rfl⟩ := ih rfl
      exact ⟨r₁, k, _, ds₂, .act hm ha ht hact hp, hf, rfl⟩
    | _ => cases hq
  | call hm ha h ih =>
    cases p with
    | done b => exact hdone hq (.call hm ha h)
    | call c next =>
      cases hq
      rw [← Program.bind, Program.bind_assoc] at ha
      obtain ⟨r₁, k, ds₁, ds₂, hp, hf, rfl⟩ := ih (Program.bind_assoc _ _ _)
      exact ⟨r₁, k, _, ds₂, .call hm ha hp, hf, rfl⟩
    | _ => cases hq
  | answered hr h ih =>
    cases p with
    | done b => exact hdone hq (.answered hr h)
    | resolve g next =>
      cases hq
      simp only [Program.bind_assoc] at hr
      obtain ⟨r₁, k, ds₁, ds₂, hp, hf, rfl⟩ := ih rfl
      refine ⟨r₁, k, _, ds₂, .answered hr hp, hf, ?_⟩
      rw [List.cons_append, List.append_assoc]
    | _ => cases hq
  | crashed hr =>
    cases p with
    | done b => exact hdone hq (.crashed hr)
    | resolve g next =>
      cases hq
      simp only [Program.bind_assoc] at hr
      exact ⟨_, _, _, _, .crashed hr, .stops, (List.append_nil _).symm⟩
    | _ => cases hq

theorem ensues {r₁ : Except Failure α} {r : Except Failure β} {ds₁ ds₂ : List (Deed C)}
    (h : σ.Completes t L (fun a => (f a).bind rest) p n ds₁ r₁ k)
    (hf : σ.Ensues t L rest f k r₁ ds₂ r l) :
    σ.Completes t L rest (p.bind f) n (ds₁ ++ ds₂) r l := by
  have ha := h.activity
  rw [← Program.bind_assoc] at ha
  generalize hs : (fun a => (f a).bind rest) = second at h
  induction h with
  | @ended r₁ n =>
    cases hf with
    | goes hf => exact hf
    | @stops e =>
      obtain e | s := e
      · exact .ended (r := .error (.error e)) ha
      · exact .ended (r := .error (.crash s)) ha
  | waits hm _ h ih =>
    subst hs
    refine .waits hm ha (ih hf ?_)
    rw [Program.bind_assoc]
    exact h.activity
  | act hm _ ht hp h ih =>
    subst hs
    refine .act hm ha ht hp (ih hf ?_)
    rw [Program.bind_assoc]
    exact h.activity
  | @call c next n ds r l hm _ h ih =>
    subst hs
    have hnext := ih hf (by rw [Program.bind_assoc]; exact h.activity)
    rw [Program.bind_assoc] at hnext
    exact .call hm ha hnext
  | answered hreq h ih =>
    subst hs
    have hnext := ih hf (by rw [Program.bind_assoc]; exact h.activity)
    simp only [← Program.bind_assoc] at hreq
    rw [List.cons_append, List.append_assoc]
    exact .answered hreq hnext
  | crashed hreq =>
    subst hs
    cases hf
    simp only [← Program.bind_assoc] at hreq
    rw [List.append_nil]
    exact .crashed hreq

theorem bind {a : α} {r : Except Failure β} {ds₁ ds₂ : List (Deed C)}
    (h : σ.Completes t L (fun a => (f a).bind rest) p n ds₁ (.ok a) k)
    (hf : σ.Completes t L rest (f a) k ds₂ r l) :
    σ.Completes t L rest (p.bind f) n (ds₁ ++ ds₂) r l := h.ensues (.goes hf)

theorem bind_error {e : Failure} {ds : List (Deed C)}
    (h : σ.Completes t L (fun a => (f a).bind rest) p n ds (.error e) l) :
    σ.Completes t L rest (p.bind f) n ds (.error e) l := by
  have hall := h.ensues .stops
  rwa [List.append_nil] at hall

theorem bind_ok {b : β} (h : σ.Completes t L rest (p.bind f) n ds (.ok b) l) :
    ∃ a k ds₁ ds₂, σ.Completes t L (fun a => (f a).bind rest) p n ds₁ (.ok a) k ∧
      σ.Completes t L rest (f a) k ds₂ (.ok b) l := by
  obtain ⟨r₁, k, ds₁, ds₂, hp, hf, -⟩ := h.of_bind
  cases hf with
  | goes hf => exact ⟨_, k, ds₁, ds₂, hp, hf⟩

end

end Completes

namespace Attends

theorem acts {a : Action C} {next : a.Reply → Program C L.Answer} (hfair : σ.Attends t)
    (hready : a.Ready) (ha : (σ.state n).activity t = L.runs (.act a next)) :
    ∃ k th reply m, σ.Reaches t a n k ∧ (σ.state k).threads[t]? = some th ∧
      (σ.state k).perform I t th a = some (reply, m) ∧ (σ.state (k + 1)).world = m.world ∧
      (σ.state (k + 1)).activity t = L.runs (next reply) := by
  obtain ⟨k, hk, hrests, hm⟩ := hfair.turn fun k hk hrests => by
    refine Machine.runs_isSome (runs_until hk hrests ha) fun th b rest he => ?_
    cases he
    exact hready.performs I _ t th
  have hnow := runs_until hk hrests ha
  obtain ⟨th, ht, hst⟩ := Machine.step_cases (σ.moves k t hm)
  obtain ⟨reply, m, hp, hw, hnext, -⟩ := hst.acts ht hnow
  exact ⟨k, th, reply, m, ⟨hk, hrests, hm, L, _, hnow⟩, ht, hp, hw, hnext⟩

theorem calls {c : Call C} {next : Except Error c.Reply → Program C α} (hfair : σ.Attends t)
    (ha : (σ.state n).activity t = L.runs ((Program.call c next).bind rest)) :
    ∃ k, n < k ∧
      (σ.state k).activity t = L.runs (((I.answer c).attempt.bind next).bind rest) ∧
      ∀ ds r l, σ.Completes t L rest ((I.answer c).attempt.bind next) k ds r l →
        σ.Completes t L rest (.call c next) n (.call c :: ds) r l := by
  obtain ⟨k, hk, hrests, hm⟩ := hfair.turn fun k hk hrests =>
    Machine.runs_isSome (runs_until hk hrests ha) nofun
  have hnow := runs_until hk hrests ha
  refine ⟨k + 1, Nat.lt_succ_of_le hk, ?_, fun ds r l h => .waited hk hrests ha (.call hm hnow h)⟩
  obtain ⟨hne, -⟩ | ⟨-, hnext⟩ := runs_next hnow
  · exact absurd hm hne
  · rw [Program.bind_assoc]
    exact hnext

theorem completes (hfair : σ.Attends t) (hp : p.Ready)
    (ha : (σ.state n).activity t = L.runs (p.bind rest)) :
    ∃ ds r l, σ.Completes t L rest p n ds r l := by
  induction p generalizing n with
  | done a => exact ⟨_, _, n, .ended (r := .ok a) ha⟩
  | fail e => exact ⟨_, _, n, .ended (r := .error (.error e)) ha⟩
  | crash s => exact ⟨_, _, n, .ended (r := .error (.crash s)) ha⟩
  | act a next ih =>
    obtain ⟨k, th, reply, m, hreach, ht, hperform, -, hnext⟩ := hfair.acts hp.1 ha
    obtain ⟨ds, r, l, h⟩ := ih reply (hp.2 reply) hnext
    have hnow := runs_until hreach.le hreach.rests ha
    exact ⟨_, r, l, .waited hreach.le hreach.rests ha (.act hreach.performs.1 hnow ht hperform h)⟩
  | call c next ih => exact hp.elim
  | resolve g next ih => exact hp.elim

end Attends

section

variable {next : Except Error Instance → Program C L.Answer} {r : Except Failure Instance}

theorem Requests.looks_up {c : ContainerId} {name : String} {o : Overrides}
    (h : σ.Requests t L (.service c name o) next k r l) :
    ∃ f, k < f ∧ f < l ∧ σ.mover f = some t ∧ (∀ j, k < j → j < f → σ.mover j ≠ some t) ∧
      (σ.state f).activity t = .resolving (.find c name o) (L.callers next) (L.onward next) := by
  obtain ⟨f, hkf, hfl, hm, hat⟩ := h.finds
  classical
  have hex : ∃ j, k < j ∧ σ.mover j = some t := ⟨f, hkf, hm⟩
  have hfirst : ∀ j, k < j → j < Nat.find hex → σ.mover j ≠ some t := fun j hj hlt hmj =>
    Nat.find_min hex hlt ⟨hj, hmj⟩
  have hle : Nat.find hex ≤ f := Nat.find_min' hex ⟨hkf, hm⟩
  obtain ⟨hlt, hmove⟩ := Nat.find_spec hex
  refine ⟨Nat.find hex, hlt, Nat.lt_of_le_of_lt hle hfl, hmove, hfirst, ?_⟩
  generalize Nat.find hex = b at hlt hfirst
  have hasked : (σ.state (k + 1)).activity t =
      .resolving (.find c name o) (L.callers next) (L.onward next) := by
    obtain ⟨hne, -⟩ | ⟨-, hnext⟩ := runs_next h.makes
    · exact absurd h.moves hne
    · exact hnext
  induction hlt with
  | refl => exact hasked
  | @step b hb ih =>
    have hbefore := ih fun j hj hjb => hfirst j hj (Nat.lt_succ_of_lt hjb)
    obtain hsame | ⟨s, owner, F, next', ho, -⟩ :=
      (σ.beside t (hfirst b hb (Nat.lt_succ_self b))).activity
    · exact hsame.trans hbefore
    · cases hbefore.symm.trans ho

end

section

variable (hone : (σ.state l).threads.length = 1)

include hone

theorem single_before {q : Program C L.Answer} (hn : n ≤ l)
    (ha : (σ.state n).activity t = L.runs q) : (σ.state n).threads.length = 1 := by
  refine Nat.le_antisymm (hone ▸ threads_le hn) ?_
  cases ht : (σ.state n).threads with
  | nil =>
    rw [Machine.activity, ht] at ha
    cases L <;> cases ha
  | cons th rest => simp

theorem single_rests (hn : n ≤ k) (hk : k ≤ l) (hm : ∀ j, n ≤ j → j < k → σ.mover j ≠ some 0) :
    σ.state k = σ.state n := by
  refine Rests.state (fun j hj hjk => ?_) hn
  cases hu : σ.mover j with
  | none => rfl
  | some u =>
    obtain ⟨rfl, -⟩ := single_at hone (Nat.le_of_lt (Nat.lt_of_lt_of_le hjk hk)) hu
    exact absurd hu (hm j hj hjk)

end

end Run

end Wiring
