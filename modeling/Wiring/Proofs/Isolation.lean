import Wiring.Proofs.Caching
import Wiring.Proofs.Lockstep

namespace Wiring

variable {C : Client} {α β : Type}

namespace Machine

variable {I : Implementation C} {w w₁ : World C} {th : Thread C} {L : Scope C}

theorem step_act {a : Action C} {f : a.Reply → Program C L.Answer} {r : a.Reply}
    (h : th.activity = L.runs (.act a f))
    (hp : (solo w th).perform I 0 th a = some (r, solo w₁ (a.mark th))) :
    (solo w th).step I 0 = some (solo w₁ { a.mark th with activity := L.runs (f r) }) := by
  cases L with
  | own =>
    simp only [step, solo, List.getElem?_cons_zero, Option.bind_eq_bind, Option.bind_some, h,
      Scope.runs]
    exact congrArg (Option.map fun p => p.2.put 0 (.running (f p.1))) hp
  | inside F next =>
    rw [step_solo h]
    exact congrArg (Option.map fun p => p.2.go 0 next (.run (f p.1)) F) hp

theorem step_call {k : Call C} {f : Except Error k.Reply → Program C L.Answer}
    (h : th.activity = L.runs (.call k f)) :
    (solo w th).step I 0 =
      some (solo w { th with activity := L.runs ((I.answer k).attempt.bind f) }) := by
  cases L with
  | own =>
    simp only [step, solo, List.getElem?_cons_zero, Option.bind_eq_bind, Option.bind_some, h,
      Scope.runs]
    rfl
  | inside F next =>
    rw [step_solo h]
    rfl

theorem step_resolve {g : Goal} {f : Except Error Instance → Program C L.Answer}
    (h : th.activity = L.runs (.resolve g f)) :
    (solo w th).step I 0 = some (solo w { th with activity := L.asks g f }) := by
  cases L with
  | own =>
    simp only [step, solo, List.getElem?_cons_zero, Option.bind_eq_bind, Option.bind_some, h,
      Scope.runs]
    rfl
  | inside F next =>
    rw [step_solo h]
    rfl

theorem step_receives {f : Except Error Instance → Program C L.Answer}
    {r : Except Failure Instance}
    (h : th.activity = .resolving (.finish r) (L.callers f) (L.onward f)) :
    ∃ th₁, (solo w th).step I 0 = some (solo w th₁) ∧ th₁.stack = th.stack ∧
      L.Receives f r th₁.activity := by
  rw [step_solo h]
  cases L with
  | own =>
    obtain ((e | message) | i) := r <;> exact ⟨_, rfl, rfl, rfl⟩
  | inside F next =>
    obtain ((e | message) | i) := r <;> exact ⟨_, rfl, rfl, rfl⟩

end Machine

open Machine (BothStep solo)

variable {ρ : Likeness C} {c : ContainerId} {I : Implementation C} {B B' F F' : List (Frame C)}

theorem FramesAlike.suffix (h : FramesAlike ρ c B B' F F') : B <:+ F ∧ B' <:+ F' := by
  induction h with
  | base => exact ⟨List.suffix_rfl, List.suffix_rfl⟩
  | caller _ _ ih => exact ⟨ih.1.trans (List.suffix_cons _ _), ih.2.trans (List.suffix_cons _ _)⟩
  | inside _ ih => exact ⟨ih.1.trans (List.suffix_cons _ _), ih.2.trans (List.suffix_cons _ _)⟩
  | keeps _ _ ih => exact ⟨ih.1.trans (List.suffix_cons _ _), ih.2.trans (List.suffix_cons _ _)⟩
  | owns _ _ ih => exact ⟨ih.1.trans (List.suffix_cons _ _), ih.2.trans (List.suffix_cons _ _)⟩

theorem Activity.Alike.awaits {L L' : Scope C} {A A' : Activity C}
    {f : Except Error Instance → Program C L.Answer}
    {f' : Except Error Instance → Program C L'.Answer}
    (h : Activity.Alike ρ c (L.callers f) (L'.callers f') (L.onward f) (L'.onward f') A A') :
    L.Awaits f A ∧ L'.Awaits f' A' := by
  cases h with
  | resolving hK hF => exact ⟨⟨_, _, rfl, hF.suffix.1⟩, ⟨_, _, rfl, hF.suffix.2⟩⟩

theorem Twins.imp {m m' : Machine C} {J J' : Activity C → Activity C → Prop}
    (h : BothStep I m m' (After ρ c J m m'))
    (hJ : ∀ n n', m.step I 0 = some n → m'.step I 0 = some n' → J (n.activity 0) (n'.activity 0) →
      J' (n.activity 0) (n'.activity 0)) : BothStep I m m' (After ρ c J' m m') := by
  obtain ⟨n, n', hn, hn', ht, hs, ha⟩ := h
  exact ⟨n, n', hn, hn', ht, hs, hJ n n' hn hn' ha⟩

theorem Twins.receive {m m' : Machine C} {L L' : Scope C} {r r' : Except Failure Instance}
    {f : Except Error Instance → Program C L.Answer}
    {f' : Except Error Instance → Program C L'.Answer} (h : Twins ρ c m m')
    (ha : m.activity 0 = .resolving (.finish r) (L.callers f) (L.onward f))
    (ha' : m'.activity 0 = .resolving (.finish r') (L'.callers f') (L'.onward f')) :
    BothStep I m m' (After ρ c (fun A A' => L.Receives f r A ∧ L'.Receives f' r' A') m m') := by
  obtain ⟨th, hth⟩ := Machine.eq_solo h.single.1
  obtain ⟨th', hth'⟩ := Machine.eq_solo h.single.2
  generalize m.world = w at hth
  generalize m'.world = w' at hth'
  subst hth hth'
  obtain ⟨th₁, hstep, hstack, hr⟩ := Machine.step_receives (I := I) (w := w) ha
  obtain ⟨th₁', hstep', hstack', hr'⟩ := Machine.step_receives (I := I) (w := w') ha'
  exact ⟨_, _, hstep, hstep', h.still hstack hstack' ⟨hr, hr'⟩⟩

namespace Run

section

variable (ρ c) (σ σ' : Run I) (L L' : Scope C) (rest : α → Program C L.Answer)
  (rest' : β → Program C L'.Answer) (Q : α → β → Prop) (p : Program C α) (p' : Program C β)
  (n n' : ℕ)

inductive Together : ℕ → ℕ → Prop
  | runs {q q' k k'} (h : σ.Proceeds 0 L rest p n q k) (h' : σ'.Proceeds 0 L' rest' p' n' q' k')
      (hq : q.Alike ρ c Q q') : Together k k'
  | asks {g g' f f' j j' k k'} (h : σ.Proceeds 0 L rest p n (.resolve g f) j)
      (h' : σ'.Proceeds 0 L' rest' p' n' (.resolve g' f') j')
      (hf : ∀ r r', Except.Rel Eq (Instance.Alike ρ) r r' → (f r).Alike ρ c Q (f' r'))
      (ha : σ.Asks 0 L g (fun a => (f a).bind rest) j k)
      (ha' : σ'.Asks 0 L' g' (fun a => (f' a).bind rest') j' k')
      (hA : Activity.Alike ρ c (L.callers fun a => (f a).bind rest)
        (L'.callers fun a => (f' a).bind rest') (L.onward fun a => (f a).bind rest)
        (L'.onward fun a => (f' a).bind rest') ((σ.state k).activity 0)
        ((σ'.state k').activity 0)) :
      Together k k'

def Settled (k k' : ℕ) : Prop :=
  ∃ r r', Except.Rel Eq Q r r' ∧ σ.Ends 0 L rest p n r k ∧ σ'.Ends 0 L' rest' p' n' r' k'

end

variable {σ σ' : Run I} {L L' : Scope C} {rest : α → Program C L.Answer}
  {rest' : β → Program C L'.Answer} {Q : α → β → Prop} {p : Program C α} {p' : Program C β}
  {n n' k k' : ℕ}

theorem next_state {m : Machine C} (hm : σ.mover k = some 0) (h : (σ.state k).step I 0 = some m) :
    σ.state (k + 1) = m := Option.some.inj ((σ.moves k 0 hm).symm.trans h)

theorem Proceeds.together {q : Program C α} {q' : Program C β}
    (h : σ.Proceeds 0 L rest p n q k) (h' : σ'.Proceeds 0 L' rest' p' n' q' k')
    (hq : q.Alike ρ c Q q') (ht : Twins ρ c (σ.state k) (σ'.state k'))
    (hreach : ((σ.state k).activity 0).Confined ρ c I) :
    Settled σ σ' L L' rest rest' Q p p' n n' k k' ∨
      BothStep I (σ.state k) (σ'.state k') (Twins.After ρ c (fun _ _ =>
        σ.mover k = some 0 → σ'.mover k' = some 0 →
          Together ρ c σ σ' L L' rest rest' Q p p' n n' (k + 1) (k' + 1)) (σ.state k)
            (σ'.state k')) := by
  have ha := h.activity
  have ha' := h'.activity
  obtain ⟨th, hth⟩ := Machine.eq_solo ht.single.1
  obtain ⟨th', hth'⟩ := Machine.eq_solo ht.single.2
  generalize (σ.state k).world = w at hth
  generalize (σ'.state k').world = w' at hth'
  rw [hth, hth'] at ht ⊢
  rw [hth] at ha hreach
  rw [hth'] at ha'
  have hactivity : ∀ m, (solo w th).step I 0 = some m → σ.mover k = some 0 →
      (σ.state (k + 1)).activity 0 = m.activity 0 :=
    fun m hs hm => congrArg (Machine.activity · 0) (next_state hm (hth ▸ hs))
  have hactivity' : ∀ m, (solo w' th').step I 0 = some m → σ'.mover k' = some 0 →
      (σ'.state (k' + 1)).activity 0 = m.activity 0 :=
    fun m hs hm => congrArg (Machine.activity · 0) (next_state hm (hth' ▸ hs))
  cases hq with
  | @done a b hr => exact .inl ⟨.ok a, .ok b, .ok hr, .itself h, .itself h'⟩
  | @fail e _ he =>
    cases he
    exact .inl ⟨.error (.error e), .error (.error e), .error rfl, .itself h, .itself h'⟩
  | @crash s _ he =>
    cases he
    exact .inl ⟨.error (.crash s), .error (.crash s), .error rfl, .itself h, .itself h'⟩
  | @act a b Rep f f' hab hf =>
    obtain ⟨r, r', w₁, w₁', hp, hp', hr, hw₁, hsp, hsp'⟩ := ht.perform (I := I) hab
    have hstep := Machine.step_act ha hp
    have hstep' := Machine.step_act ha' hp'
    refine .inr ⟨_, _, hstep, hstep', ⟨⟨rfl, rfl⟩, hw₁, ?_⟩, ⟨⟨hsp, ?_⟩, ⟨hsp', ?_⟩⟩, ?_⟩
    · change (a.mark th).stack.targets c = (b.mark th').stack.targets c
      rw [a.mark_stack, b.mark_stack]
      exact ht.targets
    · exact congrArg (·.others c) (a.mark_stack th)
    · exact congrArg (·.others c) (b.mark_stack th')
    · intro hm hm'
      have hnext := h.acts hm (hactivity _ hstep hm)
      have hnext' := h'.acts hm' (hactivity' _ hstep' hm')
      exact .runs hnext hnext' (hf r r' hr)
  | @call d l l' Rep f f' hd hl hf =>
    cases hd
    have hstep := Machine.step_call (I := I) (w := w) ha
    have hstep' := Machine.step_call (I := I) (w := w') ha'
    refine .inr ⟨_, _, hstep, hstep', ht.still rfl rfl fun hm hm' => ?_⟩
    have hbody := hreach L l _ ha l' Rep hl
    exact .runs (h.calls hm) (h'.calls hm') (hbody.attempt.bind hf)
  | @resolve d g g' f f' hd hg hf =>
    cases hd
    have hstep := Machine.step_resolve (I := I) (w := w) ha
    have hstep' := Machine.step_resolve (I := I) (w := w') ha'
    refine .inr ⟨_, _, hstep, hstep', ht.still rfl rfl fun hm hm' => ?_⟩
    have hA := hactivity _ hstep hm
    have hA' := hactivity' _ hstep' hm'
    refine .asks h h' hf (h.asks hm hA) (h'.asks hm' hA') ?_
    rw [hA, hA']
    exact .resolving hg.control .base

theorem Together.next (h : Together ρ c σ σ' L L' rest rest' Q p p' n n' k k')
    (ht : Twins ρ c (σ.state k) (σ'.state k'))
    (hreach : ((σ.state k).activity 0).Confined ρ c I) :
    Settled σ σ' L L' rest rest' Q p p' n n' k k' ∨
      BothStep I (σ.state k) (σ'.state k') (Twins.After ρ c (fun _ _ =>
        σ.mover k = some 0 → σ'.mover k' = some 0 →
          Together ρ c σ σ' L L' rest rest' Q p p' n n' (k + 1) (k' + 1) ∨
            Settled σ σ' L L' rest rest' Q p p' n n' (k + 1) (k' + 1)) (σ.state k)
              (σ'.state k')) := by
  cases h with
  | runs h h' hq =>
    refine (h.together h' hq ht hreach).imp_right fun hboth => ?_
    exact Twins.imp hboth fun m m' _ _ hJ hm hm' => .inl (hJ hm hm')
  | @asks g g' f f' j j' _ _ h h' hf ha ha' hA =>
    have hc := (σ.reachable k).consistent
    have hc' := (σ'.reachable k').consistent
    refine .inr ?_
    obtain ⟨r, r', hr, hfin, hfin'⟩ | hboth := ht.step hA hc hc' hreach
    · refine Twins.imp (ht.receive hfin hfin') fun m m' _ _ _ hm hm' => ?_
      cases hr with
      | @ok i i' hi =>
        have hnext := h.answered (a := .ok i) ⟨ha, hfin, hm⟩
        have hnext' := h'.answered (a := .ok i') ⟨ha', hfin', hm'⟩
        exact .inl (.runs hnext hnext' (hf _ _ (.ok hi)))
      | @error failure _ he =>
        cases he
        cases failure with
        | error e =>
          have hnext := h.answered (a := .error e) ⟨ha, hfin, hm⟩
          have hnext' := h'.answered (a := .error e) ⟨ha', hfin', hm'⟩
          exact .inl (.runs hnext hnext' (hf _ _ (.error rfl)))
        | crash message =>
          exact .inr ⟨_, _, .error rfl, .crash h ⟨ha, hfin, hm⟩, .crash h' ⟨ha', hfin', hm'⟩⟩
    · refine Twins.imp hboth fun m m' hs hs' hJ hm hm' => .inl ?_
      rw [← next_state hm hs, ← next_state hm' hs'] at hJ
      exact .asks h h' hf (ha.succ hJ.awaits.1) (ha'.succ hJ.awaits.2) hJ

/-- From the moments `n` and `n'` on, the runs have remained in agreement about the container, and
the rest of either is as it was. -/
structure Isolated (ρ : Likeness C) (c : ContainerId) (σ σ' : Run I) (n n' k k' : ℕ) : Prop where
  twins : Twins ρ c (σ.state k) (σ'.state k')
  spares : (σ.state n).Spares c ρ.left (σ.state k)
  spares' : (σ'.state n').Spares c ρ.right (σ'.state k')

theorem Isolated.after {J : Activity C → Activity C → Prop} {m m' : Machine C}
    (h : Isolated ρ c σ σ' n n' k k') (hm : σ.state (k + 1) = m) (hm' : σ'.state (k' + 1) = m')
    (ha : Twins.After ρ c J (σ.state k) (σ'.state k') m m') :
    Isolated ρ c σ σ' n n' (k + 1) (k' + 1) := by
  subst hm hm'
  exact ⟨ha.twins, h.spares.trans ha.spares.1, h.spares'.trans ha.spares.2⟩

theorem state_succ (h : (σ.state k).threads.length = 1) (hm : σ.mover k ≠ some 0) :
    σ.state (k + 1) = σ.state k := by
  apply σ.idles k
  cases hu : σ.mover k with
  | none => rfl
  | some u =>
    obtain ⟨th, hth, -⟩ := Machine.step_cases (σ.moves k u hu)
    have hlt := (List.getElem?_eq_some_iff.1 hth).1
    rw [h] at hlt
    exact absurd (Nat.lt_one_iff.1 hlt ▸ hu) hm

theorem Together.underWay (h : Together ρ c σ σ' L L' rest rest' Q p p' n n' k k') :
    σ.UnderWay 0 L rest p n k ∧ σ'.UnderWay 0 L' rest' p' n' k' := by
  cases h with
  | runs h h' hq => exact ⟨.runs h, .runs h'⟩
  | asks h h' hf ha ha' hA => exact ⟨.awaits h ha, .awaits h' ha'⟩

section

variable (ρ c σ σ' L L' rest rest' Q p p' n n')

structure Abreast (k k' : ℕ) : Prop extends Isolated ρ c σ σ' n n' k k' where
  together : Together ρ c σ σ' L L' rest rest' Q p p' n n' k k'

def BothOver (k k' : ℕ) : Prop :=
  ∃ l l', l ≤ k ∧ l' ≤ k' ∧ Settled σ σ' L L' rest rest' Q p p' n n' l l' ∧
    Isolated ρ c σ σ' n n' l l'

end

theorem Abreast.stays (h : Abreast ρ c σ σ' L L' rest rest' Q p p' n n' k k')
    (hm : σ.mover k ≠ some 0) :
    Abreast ρ c σ σ' L L' rest rest' Q p p' n n' (k + 1) k' := by
  have hs := state_succ h.twins.single.1 hm
  refine ⟨?_, ?_⟩
  · obtain ⟨htwins, hspares, hspares'⟩ := h.toIsolated
    exact ⟨hs ▸ htwins, hs ▸ hspares, hspares'⟩
  · cases h.together with
    | runs h h' hq => exact .runs (h.stays hm) h' hq
    | asks h h' hf ha ha' hA =>
      rw [← hs] at hA
      exact .asks h h' hf (ha.succ hA.awaits.1) ha' hA

theorem Abreast.stays' (h : Abreast ρ c σ σ' L L' rest rest' Q p p' n n' k k')
    (hm : σ'.mover k' ≠ some 0) :
    Abreast ρ c σ σ' L L' rest rest' Q p p' n n' k (k' + 1) := by
  have hs := state_succ h.twins.single.2 hm
  refine ⟨?_, ?_⟩
  · obtain ⟨htwins, hspares, hspares'⟩ := h.toIsolated
    exact ⟨hs ▸ htwins, hspares, hs ▸ hspares'⟩
  · cases h.together with
    | runs h h' hq => exact .runs h (h'.stays hm) hq
    | asks h h' hf ha ha' hA =>
      rw [← hs] at hA
      exact .asks h h' hf ha (ha'.succ hA.awaits.2) hA

theorem Abreast.moves (h : Abreast ρ c σ σ' L L' rest rest' Q p p' n n' k k')
    (hreach : ((σ.state k).activity 0).Confined ρ c I) (hm : σ.mover k = some 0)
    (hm' : σ'.mover k' = some 0) :
    Abreast ρ c σ σ' L L' rest rest' Q p p' n n' (k + 1) (k' + 1) ∨
      BothOver ρ c σ σ' L L' rest rest' Q p p' n n' (k + 1) (k' + 1) := by
  obtain hend | ⟨m, m', hs, hs', hafter⟩ := h.together.next h.twins hreach
  · exact .inr ⟨k, k', Nat.le_succ k, Nat.le_succ k', hend, h.toIsolated⟩
  · have hiso := h.toIsolated.after (next_state hm hs) (next_state hm' hs') hafter
    obtain htogether | hend := hafter.activities hm hm'
    · exact .inl ⟨hiso, htogether⟩
    · exact .inr ⟨k + 1, k' + 1, Nat.le_refl _, Nat.le_refl _, hend, hiso⟩

theorem BothOver.mono {l l' : ℕ} (h : BothOver ρ c σ σ' L L' rest rest' Q p p' n n' k k')
    (hk : k ≤ l) (hk' : k' ≤ l') : BothOver ρ c σ σ' L L' rest rest' Q p p' n n' l l' := by
  obtain ⟨j, j', hj, hj', hend⟩ := h
  exact ⟨j, j', Nat.le_trans hj hk, Nat.le_trans hj' hk', hend⟩

theorem abreast_or_over (hp : p.Alike ρ c Q p') (ht : Twins ρ c (σ.state n) (σ'.state n'))
    (ha : (σ.state n).activity 0 = L.runs (p.bind rest))
    (ha' : (σ'.state n').activity 0 = L'.runs (p'.bind rest'))
    (hreach : ∀ k, σ.UnderWay 0 L rest p n k → ((σ.state k).activity 0).Confined ρ c I)
    (d d' : ℕ) (hd : σ.moved 0 n d = σ'.moved 0 n' d') :
    Abreast ρ c σ σ' L L' rest rest' Q p p' n n' (n + d) (n' + d') ∨
      BothOver ρ c σ σ' L L' rest rest' Q p p' n n' (n + d) (n' + d') := by
  induction hsum : d + d' using Nat.strong_induction_on generalizing d d' with
  | _ sum ih =>
    subst hsum
    by_cases hleft : ∃ e, d = e + 1 ∧ σ.mover (n + e) ≠ some 0
    · -- The thread of the first run took no step at last.
      obtain ⟨e, rfl, hm⟩ := hleft
      rw [moved_succ, if_neg hm] at hd
      obtain h | h := ih _ (by omega) e d' hd rfl
      · exact .inl (h.stays hm)
      · exact .inr (h.mono (Nat.le_succ _) (Nat.le_refl _))
    by_cases hright : ∃ e, d' = e + 1 ∧ σ'.mover (n' + e) ≠ some 0
    · obtain ⟨e, rfl, hm⟩ := hright
      rw [σ'.moved_succ, if_neg hm] at hd
      obtain h | h := ih _ (by omega) d e hd rfl
      · exact .inl (h.stays' hm)
      · exact .inr (h.mono (Nat.le_refl _) (Nat.le_succ _))
    · push Not at hleft hright
      rcases d with - | e <;> rcases d' with - | e'
      · exact .inl ⟨⟨ht, .refl _ _, .refl _ _⟩, .runs (.begins ha) (.begins ha') hp⟩
      · rw [σ'.moved_succ, if_pos (hright e' rfl)] at hd
        cases hd
      · rw [moved_succ, if_pos (hleft e rfl)] at hd
        cases hd
      · have hm := hleft e rfl
        have hm' := hright e' rfl
        rw [moved_succ, σ'.moved_succ, if_pos hm, if_pos hm'] at hd
        obtain h | h := ih _ (by omega) e e' (Nat.succ.inj hd) rfl
        · exact h.moves (hreach _ h.together.underWay.1) hm hm'
        · exact .inr (h.mono (Nat.le_succ _) (Nat.le_succ _))

/-- Containers are isolated from one another. Let the states of two single threads agree on a
container and on its targets on the stack, in order, and differ as they may in all the rest: in the
other containers, and in how many of their targets are on the stacks and where. An operation on the
container that reaches only code confined to it then takes the same steps in both. After equally
many of them both threads are under way and can go on, or both have come to the end with like
results or with the same error; and so far the states agree on the container, while either has kept
its other containers and their targets as they were. -/
theorem isolated (ρ : Likeness C) (c : ContainerId) (σ σ' : Run I) (L L' : Scope C) (α : Type)
    (rest : α → Program C L.Answer) (rest' : α → Program C L'.Answer) (Q : α → α → Prop)
    (p p' : Program C α) (n n' : ℕ) (hop : Container.Operation ρ c Q p p')
    (ht : Twins ρ c (σ.state n) (σ'.state n'))
    (ha : (σ.state n).activity 0 = L.runs (p.bind rest))
    (ha' : (σ'.state n').activity 0 = L'.runs (p'.bind rest'))
    (hreach : ∀ k, σ.UnderWay 0 L rest p n k → ((σ.state k).activity 0).Confined ρ c I)
    (d d' : ℕ) (hd : σ.moved 0 n d = σ'.moved 0 n' d') :
    (σ.UnderWay 0 L rest p n (n + d) ∧ σ'.UnderWay 0 L' rest' p' n' (n' + d') ∧
        ((σ.state (n + d)).step I 0).isSome ∧ ((σ'.state (n' + d')).step I 0).isSome ∧
        Isolated ρ c σ σ' n n' (n + d) (n' + d')) ∨
      ∃ r r' l l', l ≤ n + d ∧ l' ≤ n' + d' ∧ σ.Ends 0 L rest p n r l ∧
        σ'.Ends 0 L' rest' p' n' r' l' ∧ Except.Rel Eq Q r r' ∧ Isolated ρ c σ σ' n n' l l' := by
  have hover : ∀ {k k'}, BothOver ρ c σ σ' L L' rest rest' Q p p' n n' k k' →
      ∃ r r' l l', l ≤ k ∧ l' ≤ k' ∧ σ.Ends 0 L rest p n r l ∧
        σ'.Ends 0 L' rest' p' n' r' l' ∧ Except.Rel Eq Q r r' ∧ Isolated ρ c σ σ' n n' l l' := by
    rintro k k' ⟨l, l', hl, hl', ⟨r, r', hr, he, he'⟩, hiso⟩
    exact ⟨r, r', l, l', hl, hl', he, he', hr, hiso⟩
  obtain h | h := abreast_or_over hop.alike ht ha ha' hreach d d' hd
  · obtain ⟨hway, hway'⟩ := h.together.underWay
    obtain hend | ⟨m, m', hs, hs', -⟩ := h.together.next h.twins (hreach _ hway)
    · exact .inr (hover ⟨_, _, Nat.le_refl _, Nat.le_refl _, hend, h.toIsolated⟩)
    · have hsome := Option.isSome_iff_exists.2 ⟨m, hs⟩
      have hsome' := Option.isSome_iff_exists.2 ⟨m', hs'⟩
      exact .inl ⟨hway, hway', hsome, hsome', h.toIsolated⟩
  · exact .inr (hover h)

end Run

theorem Program.attempt_bind (p : Program C α) (f : α → Program C β) :
    (p.bind f).attempt = p.attempt.bind fun r =>
      match r with
      | .ok a => (f a).attempt
      | .error e => .done (.error e) := by
  induction p with
  | done a => rfl
  | fail e => rfl
  | crash s => rfl
  | act a next ih => simp only [attempt, bind, ih]
  | call k next ih => simp only [attempt, bind, ih]
  | resolve g next ih => simp only [attempt, bind, ih]

def Client.homing : Client := ⟨String, Unit, Unit⟩

def Implementation.homing : Implementation Client.homing where
  make name _ _ := (Container.get 0 name).bind fun _ => .done (.text "")
  give name _ _ := Container.get 0 name
  manifest _ := .done []
  construct _ _ := .done (.text "")
  job _ := .done ()

theorem Implementation.homing_confined (ρ : Likeness Client.homing) (k : Call Client.homing) :
    k.Confined ρ 0 homing := by
  intro l Rep h
  have hget : ∀ name, (Container.get 0 name : Program Client.homing Instance).Alike ρ 0
      (Instance.Alike ρ) (Container.get 0 name) := Container.get_corresponds rfl
  cases h with
  | make _ => exact (hget _).bind fun _ _ _ => .done (.plain nofun)
  | give _ => exact hget _
  | manifest => exact .done .nil
  | construct _ => exact .done (.plain nofun)

def World.lone : World Client.homing :=
  .ofServices () [("a", ⟨true, .made (.of "A") [] "b"⟩), ("b", ⟨true, .made (.of "B") [] "a"⟩)]

def World.nested : World Client.homing :=
  [(1, "x", (⟨false, .made (.of "X") [] "a"⟩ : Registration Client.homing)),
    (0, "a", ⟨true, .made (.of "A") [] "b"⟩), (0, "b", ⟨true, .made (.of "B") [] "a"⟩)].foldl
    (fun w s => w.insert s.1 s.2.1 s.2.2) (World.start ()).newContainer.2

theorem World.nested_unbuilt : World.nested.Unbuilt := by
  have hedit : Edit (start (C := Client.homing) ()) (start ()).newContainer.2 :=
    .newContainer rfl rfl rfl
  exact List.foldlRecOn _ _ (hedit.unbuilt (start_unbuilt _)) fun _ h _ _ =>
    (Edit.insert _ _ _ _).unbuilt h

def Likeness.shifted : Likeness Client.homing where
  object o p := o = p
  entry e f := f = e + 1
  state _ _ := True
  object_unique h h' := by rw [h, h']
  entry_unique h h' := by rw [h, h', Nat.add_right_cancel_iff]

theorem World.lone_alike : World.lone.Alike .shifted 0 World.nested where
  inRange := by decide
  services name := by
    change Option.Rel _ (Pairs.find? name [("a", 0), ("b", 1)])
      (Pairs.find? name [("a", 1), ("b", 2)])
    simp only [Pairs.find?]
    split
    · exact .some rfl
    · split
      · exact .some rfl
      · exact .none
  entries {e f} h := by
    obtain rfl : f = e + 1 := h
    change Option.Rel _ World.lone.entries[e]? World.lone.entries[e]?
    obtain _ | _ | e := e
    · exact .some ⟨⟨rfl, .made .nil⟩, .none⟩
    · exact .some ⟨⟨rfl, .made .nil⟩, .none⟩
    · exact .none
  objects _ := .none
  newEntries k := Nat.add_right_comm 2 1 k
  newObjects k := rfl
  own {e f d name} h := by
    obtain rfl : f = e + 1 := h
    constructor
    · intro hs
      obtain _ | d := d
      · rfl
      · cases hs
    · intro hs
      obtain _ | _ | d := d
      · rfl
      · change Pairs.find? name [("x", 0)] = some (e + 1) at hs
        simp only [Pairs.find?] at hs
        split at hs <;> cases hs
      · cases hs
  state := trivial

namespace Run

def lone : Run Implementation.homing :=
  along ⟨.lone, [{ todo := [(Container.get 0 "a").attempt.bind fun _ => .done ()] }]⟩
    { world := World.ofServices_unbuilt _ _
      threads := fun h => by rw [List.mem_singleton.1 h]; exact ⟨rfl, rfl, rfl⟩ } fun _ => 0

def nested : Run Implementation.homing :=
  along ⟨.nested, [{ todo := [(Container.get 1 "x").bind fun _ => .done ()] }]⟩
    { world := World.nested_unbuilt
      threads := fun h => by rw [List.mem_singleton.1 h]; exact ⟨rfl, rfl, rfl⟩ } fun _ => 0

theorem nested_asks : ∃ F next rest, (nested.state 6).activity 0 =
    (Scope.inside F next).runs ((Container.get 0 "a").attempt.bind rest) := by
  let body : Program Client.homing Value := (Container.get 0 "a").bind fun _ => .done (.text "")
  obtain ⟨F, next, rest, h⟩ : ∃ F next rest,
      (nested.state 6).activity 0 = .resolving (.run (body.attempt.bind rest)) F next :=
    ⟨_, _, _, rfl⟩
  rw [Program.attempt_bind, Program.bind_assoc] at h
  exact ⟨F, next, _, h⟩

theorem isolated_nested :
    (nested.state 6).stack 0 = [(1, .service "x")] ∧
      (∃ L rest r r' l l',
        lone.Ends 0 .own (fun _ => .done ()) (Container.get 0 "a").attempt 1 r l ∧
        nested.Ends 0 L rest (Container.get 0 "a").attempt 6 r' l' ∧
        Except.Rel Eq (Except.Rel Eq (Instance.Alike .shifted)) r r' ∧
        Isolated .shifted 0 lone nested 1 6 l l') ∧
      (nested.state 90).threads[0]?.any (·.records.any
        (·.outcome matches .error (.error (.circularDependency ["a", "b", "a"])))) := by
  obtain ⟨F, next, rest, h⟩ := nested_asks
  have htwins : Twins .shifted 0 (lone.state 1) (nested.state 6) :=
    ⟨⟨rfl, rfl⟩, World.lone_alike, rfl⟩
  refine ⟨rfl, ⟨.inside F next, rest, ?_⟩, by decide +kernel⟩
  obtain ⟨hway, -⟩ | ⟨r, r', l, l', -, -, he, he', hr, hiso⟩ :=
    isolated .shifted 0 lone nested .own (.inside F next) (Except Error Instance)
      (fun _ => .done ()) rest (Except.Rel Eq (Instance.Alike .shifted))
      (Container.get 0 "a").attempt (Container.get 0 "a").attempt 1 6
      (.attempt (.service "a" .empty))
      htwins rfl h
      (fun k _ L q _ _ => Implementation.homing_confined _ q) 36 36 (by decide +kernel)
  · have hidle : (lone.state 37).hasEnded 0 := by decide +kernel
    exact absurd (Machine.activity_of_hasEnded hidle) hway.activity_ne_idle
  · exact ⟨r, r', l, l', he, he', hr, hiso⟩

end Run

end Wiring
