import Wiring.Proofs.Sharing

namespace Wiring

variable {C : Client} {α : Type}

/-- Where a thread runs code: in a step of its own, or inside these frames of a resolution. -/
inductive Scope (C : Client)
  | own
  | inside (F : List (Frame C)) (next : Except Error Instance → Program C C.Report)

namespace Scope

def Answer : Scope C → Type
  | own => C.Report
  | inside .. => Instance

def frames : Scope C → List (Frame C)
  | own => []
  | inside F _ => F

def runs : (L : Scope C) → Program C L.Answer → Activity C
  | own, p => .running p
  | inside F next, p => .resolving (.run p) F next

def ended : (L : Scope C) → Except Failure L.Answer → Activity C
  | own, _ => .idle
  | inside F next, r => .resolving (.finish r) F next

def callers : (L : Scope C) → (Except Error Instance → Program C L.Answer) → List (Frame C)
  | own, _ => []
  | inside F _, rest => .caller rest :: F

def onward : (L : Scope C) → (Except Error Instance → Program C L.Answer) →
    Except Error Instance → Program C C.Report
  | own, rest => rest
  | inside _ next, _ => next

def asks (L : Scope C) (g : Goal) (rest : Except Error Instance → Program C L.Answer) :
    Activity C := .resolving g.control (L.callers rest) (L.onward rest)

def Awaits (L : Scope C) (rest : Except Error Instance → Program C L.Answer) (A : Activity C) :
    Prop := ∃ K G, A = .resolving K G (L.onward rest) ∧ L.callers rest <:+ G

def Next (I : Implementation C) (L : Scope C) : Program C L.Answer → Activity C → Prop
  | .done a, A => A = L.ended (.ok a)
  | .fail e, A => A = L.ended (.error (.error e))
  | .crash message, A => A = L.ended (.error (.crash message))
  | .act _ rest, A => ∃ reply, A = L.runs (rest reply)
  | .call k rest, A => A = L.runs ((I.answer k).attempt.bind rest)
  | .resolve g rest, A => A = L.asks g rest

def Receives (L : Scope C) (rest : Except Error Instance → Program C L.Answer) :
    Except Failure Instance → Activity C → Prop
  | .ok i, A => A = L.runs (rest (.ok i))
  | .error (.error e), A => A = L.runs (rest (.error e))
  | .error (.crash message), A => A = L.ended (.error (.crash message))

theorem Receives.of_answer {L : Scope C} {rest : Except Error Instance → Program C L.Answer}
    {a : Except Error Instance} {A : Activity C}
    (h : L.Receives rest (Except.mapError .error a) A) : A = L.runs (rest a) := by
  cases a with
  | ok i => exact h
  | error e => exact h

theorem receives_answer (L : Scope C) (rest : Except Error Instance → Program C L.Answer)
    (a : Except Error Instance) : L.Receives rest (Except.mapError .error a) (L.runs (rest a)) := by
  cases a <;> rfl

theorem next_ended {I : Implementation C} {L : Scope C} (r : Except Failure L.Answer) :
    L.Next I (.ended r) (L.ended r) := by
  obtain ((e | s) | a) := r <;> rfl

theorem awaits_asks (L : Scope C) (g : Goal) (rest : Except Error Instance → Program C L.Answer) :
    L.Awaits rest (L.asks g rest) := ⟨_, _, rfl, List.suffix_rfl⟩

end Scope

namespace Machine

variable {I : Implementation C} {m m' : Machine C} {t u : ThreadId} {th th' : Thread C}
  {w : World C} {fresh : List (Thread C)} {L : Scope C} {p : Program C L.Answer}
  {rest : Except Error Instance → Program C L.Answer}

theorem Move.runs_next (hm : Move I m t th w th' fresh) (h : th.activity = L.runs p) :
    L.Next I p th'.activity := by
  cases L with
  | own =>
    cases hm with
    | ownEnded h' => cases h.symm.trans h'; exact Scope.next_ended _
    | ownAct h' ha => cases h.symm.trans h'; exact ⟨_, rfl⟩
    | ownCall h' => cases h.symm.trans h'; rfl
    | ownResolve h' => cases h.symm.trans h'; rfl
    | _ => cases h.symm.trans ‹th.activity = _›
  | inside F next =>
    cases hm with
    | runEnded h' => cases h.symm.trans h'; exact Scope.next_ended _
    | runAct h' ha => cases h.symm.trans h'; exact ⟨_, rfl⟩
    | runCall h' => cases h.symm.trans h'; rfl
    | runResolve h' => cases h.symm.trans h'; rfl
    | _ => cases h.symm.trans ‹th.activity = _›

theorem Move.finish_next {r : Except Failure Instance} (hm : Move I m t th w th' fresh)
    (h : th.activity = .resolving (.finish r) (L.callers rest) (L.onward rest)) :
    L.Receives rest r th'.activity := by
  cases L with
  | own =>
    cases hm with
    | ownAnswer h' => cases h.symm.trans h'; exact Scope.receives_answer .own rest _
    | ownCrash h' => cases h.symm.trans h'; rfl
    | _ => cases h.symm.trans ‹th.activity = _›
  | inside F next =>
    cases hm with
    | answer h' => cases h.symm.trans h'; exact Scope.receives_answer (.inside F next) rest _
    | passBy h' => cases h.symm.trans h'; rfl
    | _ => cases h.symm.trans ‹th.activity = _›

theorem Move.awaits_next (hm : Move I m t th w th' fresh) (h : L.Awaits rest th.activity) :
    L.Awaits rest th'.activity ∨
      ∃ r, th.activity = .resolving (.finish r) (L.callers rest) (L.onward rest) ∧
        L.Receives rest r th'.activity := by
  obtain ⟨K, G, ha, hG⟩ := h
  by_cases hend : G = L.callers rest ∧ ∃ r, K = .finish r
  · obtain ⟨rfl, r, rfl⟩ := hend
    exact .inr ⟨r, ha, hm.finish_next ha⟩
  · refine .inl ?_
    obtain ⟨K', G', ha', hG'⟩ | ⟨r, rfl, rfl | ⟨f, K', G', rfl, ha'⟩⟩ := hm.frames ha
    · exact ⟨K', G', ha', hG.trans hG'⟩
    · exact absurd ⟨(List.suffix_nil.1 hG).symm, r, rfl⟩ hend
    · refine ⟨K', G', ha', (List.suffix_cons_iff.1 hG).resolve_left fun he => ?_⟩
      exact hend ⟨he.symm, r, rfl⟩

def stack (m : Machine C) (t : ThreadId) : Stack := (m.threads[t]?.map (·.stack)).getD []

theorem Consistent.orderly_activity (h : m.Consistent) (t : ThreadId) :
    Orderly (m.stack t) (m.activity t) := by
  cases ht : m.threads[t]? with
  | none =>
    rw [stack, Machine.activity, ht]
    exact .idle rfl
  | some th =>
    rw [stack, activity_eq ht, ht]
    exact h.orderly ht

structure Restored (m m' : Machine C) (t : ThreadId) : Prop where
  stack : m'.stack t = m.stack t
  owns (k : BuildKey) :
    m'.world.builds.owners.get? k = some t ↔ m.world.builds.owners.get? k = some t
  waits : m'.world.builds.waiting.get? t = none

theorem Consistent.of_runs (h : m.Consistent) (ha : m.activity t = L.runs p) :
    m.stack t = insides L.frames ∧ m.owned t = L.frames.filterMap Frame.owned? ∧
      m.awaited t = none := by
  have ho := h.orderly_activity t
  rw [owned, awaited, ha]
  rw [ha] at ho
  cases L with
  | own => cases ho with | running hs => exact ⟨hs, rfl, rfl⟩
  | inside F next => exact ⟨ho.stack_eq, rfl, rfl⟩

theorem Consistent.of_ended (h : m.Consistent) {r : Except Failure L.Answer}
    (ha : m.activity t = L.ended r) :
    m.stack t = insides L.frames ∧ m.owned t = L.frames.filterMap Frame.owned? ∧
      m.awaited t = none := by
  have ho := h.orderly_activity t
  rw [owned, awaited, ha]
  rw [ha] at ho
  cases L with
  | own => cases ho with | idle hs => exact ⟨hs, rfl, rfl⟩
  | inside F next => exact ⟨ho.stack_eq, rfl, rfl⟩

theorem Consistent.restored (h : m.Consistent) (h' : m'.Consistent)
    (ha : m.activity t = L.runs p)
    (ha' : (∃ q, m'.activity t = L.runs q) ∨ ∃ r, m'.activity t = L.ended r) :
    m.Restored m' t := by
  obtain ⟨hs, ho, -⟩ := h.of_runs ha
  obtain ⟨hs', ho', hw⟩ : m'.stack t = insides L.frames ∧
      m'.owned t = L.frames.filterMap Frame.owned? ∧ m'.awaited t = none := by
    obtain ⟨q, ha'⟩ | ⟨r, ha'⟩ := ha'
    · exact h'.of_runs ha'
    · exact h'.of_ended ha'
  constructor
  · rw [hs', hs]
  · intro k
    rw [h'.owners, h.owners, ho', ho]
  · rw [h'.waiting, hw]

def Quiet (m : Machine C) : Prop := ∀ t K F next, m.activity t ≠ .resolving K F next

theorem Consistent.quiet (h : m.Consistent) (hq : m.Quiet) :
    (∀ t, m.stack t = []) ∧ m.world.builds = ∅ := by
  have hfree : ∀ t, m.stack t = [] ∧ m.owned t = [] ∧ m.awaited t = none := by
    intro t
    have ho := h.orderly_activity t
    cases ha : m.activity t with
    | idle => exact h.of_ended (L := .own) (r := .error (.crash "")) ha
    | running p => exact h.of_runs (L := .own) ha
    | resolving K F next => exact absurd ha (hq t K F next)
  refine ⟨fun t => (hfree t).1, ?_⟩
  have howners : m.world.builds.owners = ∅ := by
    apply Table.eq_empty_of_get?
    intro k
    cases ho : m.world.builds.owners.get? k with
    | none => rfl
    | some t =>
      have hk := (h.owners k t).1 ho
      rw [(hfree t).2.1] at hk
      cases hk
  have hwaiting : m.world.builds.waiting = ∅ :=
    Table.eq_empty_of_get? fun t => (h.waiting t).trans (hfree t).2.2
  calc m.world.builds = ⟨m.world.builds.owners, m.world.builds.waiting⟩ := rfl
    _ = ∅ := by rw [howners, hwaiting]; rfl

theorem activity_of_hasEnded (h : m.hasEnded t) : m.activity t = .idle := by
  cases ht : m.threads[t]? with
  | none => rw [Machine.activity, ht]; rfl
  | some th =>
    rw [hasEnded, ht, Option.all_some, Thread.hasEnded] at h
    rw [activity_eq ht]
    cases ha : th.activity with
    | idle => rfl
    | _ => rw [ha] at h; cases h

theorem Stepped.runs_next (h : Stepped I m t th m') (ht : m.threads[t]? = some th)
    (ha : m.activity t = L.runs p) : L.Next I p (m'.activity t) := by
  obtain ⟨th', fresh, hm, ha'⟩ | ⟨r, F, next, hn, -⟩ := h.activity ht
  · rw [ha']
    exact hm.runs_next ((activity_eq ht).symm.trans ha)
  · cases L <;> cases ha.symm.trans hn

theorem Stepped.finish_next {r : Except Failure Instance} (h : Stepped I m t th m')
    (ht : m.threads[t]? = some th)
    (ha : m.activity t = .resolving (.finish r) (L.callers rest) (L.onward rest)) :
    L.Receives rest r (m'.activity t) := by
  obtain ⟨th', fresh, hm, ha'⟩ | ⟨r, F, next, hn, -⟩ := h.activity ht
  · rw [ha']
    exact hm.finish_next ((activity_eq ht).symm.trans ha)
  · cases ha.symm.trans hn

theorem Stepped.awaits_next (h : Stepped I m t th m') (ht : m.threads[t]? = some th)
    (ha : L.Awaits rest (m.activity t)) :
    L.Awaits rest (m'.activity t) ∨
      ∃ r, m.activity t = .resolving (.finish r) (L.callers rest) (L.onward rest) ∧
        L.Receives rest r (m'.activity t) := by
  rw [activity_eq ht] at ha
  obtain ⟨th', fresh, hm, ha'⟩ | ⟨r, F, next, hn, hn', -⟩ := h.activity ht
  · rw [ha', activity_eq ht]
    exact hm.awaits_next ha
  · obtain ⟨K, G, ha, hG⟩ := ha
    rw [activity_eq ht, ha] at hn
    cases hn
    exact .inl ⟨_, _, hn', hG⟩

theorem Beside.runs (h : Beside m.threads[u]? m'.threads[u]?) (ha : m.activity u = L.runs p) :
    m'.activity u = L.runs p := by
  obtain hb | ⟨s, owner, F, next, ho, -⟩ := h.activity
  · exact hb.trans ha
  · cases L <;> cases ha.symm.trans ho

theorem Beside.awaits (h : Beside m.threads[u]? m'.threads[u]?)
    (ha : L.Awaits rest (m.activity u)) : L.Awaits rest (m'.activity u) := by
  obtain hb | ⟨s, owner, F, next, ho, hn⟩ := h.activity
  · exact hb.symm ▸ ha
  · obtain ⟨K, G, ha, hG⟩ := ha
    cases ha.symm.trans ho
    exact ⟨_, _, hn, hG⟩

end Machine

namespace Run

variable {I : Implementation C} (σ : Run I) (t : ThreadId) (L : Scope C)
  (rest : α → Program C L.Answer) (p : Program C α) (n : ℕ)

theorem beside {k : ℕ} (hm : σ.mover k ≠ some t) :
    Machine.Beside (σ.state k).threads[t]? (σ.state (k + 1)).threads[t]? := by
  cases hk : σ.mover k with
  | none => exact .same (by rw [σ.idles k hk])
  | some u =>
    obtain ⟨th, -, hst⟩ := Machine.step_cases (σ.moves k u hk)
    exact hst.beside fun htu => hm (by rw [hk, htu])

theorem move {k : ℕ} (hm : σ.mover k = some t)
    (hn : ∀ r F next, (σ.state k).activity t ≠ .resolving (.notify r) F next) :
    ∃ th th' fresh, th.activity = (σ.state k).activity t ∧
      Machine.Move I (σ.state k) t th (σ.state (k + 1)).world th' fresh ∧
      (σ.state (k + 1)).activity t = th'.activity := by
  obtain ⟨th, ht, hst⟩ := Machine.step_cases (σ.moves k t hm)
  obtain ⟨th', fresh, hmv, ha⟩ | ⟨r, F, next, ho, -⟩ := hst.activity ht
  · exact ⟨th, th', fresh, (Machine.activity_eq ht).symm, hmv, ha⟩
  · exact absurd ho (hn r F next)

structure Asks (g : Goal) (next : Except Error Instance → Program C L.Answer) (k l : ℕ) : Prop where
  makes : (σ.state k).activity t = L.runs (.resolve g next)
  moves : σ.mover k = some t
  lt : k < l
  awaits (i : ℕ) (hk : k < i) (hl : i ≤ l) : L.Awaits next ((σ.state i).activity t)

/-- The request that thread `t` makes at moment `k` ends so; the thread takes this up at moment
`l`. -/
structure Requests (g : Goal) (next : Except Error Instance → Program C L.Answer) (k : ℕ)
    (r : Except Failure Instance) (l : ℕ) : Prop extends σ.Asks t L g next k l where
  finishes : (σ.state l).activity t = .resolving (.finish r) (L.callers next) (L.onward next)
  takes : σ.mover l = some t

inductive Proceeds : Program C α → ℕ → Prop
  | begins (h : (σ.state n).activity t = L.runs (p.bind rest)) : Proceeds p n
  | stays {q k} (h : Proceeds q k) (hm : σ.mover k ≠ some t) : Proceeds q (k + 1)
  | acts {a next reply k} (h : Proceeds (.act a next) k) (hm : σ.mover k = some t)
      (ha : (σ.state (k + 1)).activity t = L.runs ((next reply).bind rest)) :
      Proceeds (next reply) (k + 1)
  | calls {c next k} (h : Proceeds (.call c next) k) (hm : σ.mover k = some t) :
      Proceeds ((I.answer c).attempt.bind next) (k + 1)
  | answered {g next a k l} (h : Proceeds (.resolve g next) k)
      (hr : σ.Requests t L g (fun a => (next a).bind rest) k (Except.mapError .error a) l) :
      Proceeds (next a) (l + 1)

inductive Ends : Except Failure α → ℕ → Prop
  | itself {r k} (h : σ.Proceeds t L rest p n (.ended r) k) : Ends r k
  | crash {g next message k l} (h : σ.Proceeds t L rest p n (.resolve g next) k)
      (hr : σ.Requests t L g (fun a => (next a).bind rest) k (.error (.crash message)) l) :
      Ends (.error (.crash message)) (l + 1)

inductive UnderWay : ℕ → Prop
  | runs {q k} (h : σ.Proceeds t L rest p n q k) : UnderWay k
  | awaits {g next k l} (h : σ.Proceeds t L rest p n (.resolve g next) k)
      (ha : σ.Asks t L g (fun a => (next a).bind rest) k l) : UnderWay l

variable {σ t L rest p n} {q : Program C α} {r : Except Failure α} {k l : ℕ}

theorem runs_next {q : Program C L.Answer} (h : (σ.state k).activity t = L.runs q) :
    (σ.mover k ≠ some t ∧ (σ.state (k + 1)).activity t = L.runs q) ∨
      (σ.mover k = some t ∧ L.Next I q ((σ.state (k + 1)).activity t)) := by
  by_cases hm : σ.mover k = some t
  · obtain ⟨th, ht, hst⟩ := Machine.step_cases (σ.moves k t hm)
    exact .inr ⟨hm, hst.runs_next ht h⟩
  · exact .inl ⟨hm, (σ.beside t hm).runs h⟩

theorem awaits_next {next : Except Error Instance → Program C L.Answer}
    (h : L.Awaits next ((σ.state k).activity t)) :
    L.Awaits next ((σ.state (k + 1)).activity t) ∨ (σ.mover k = some t ∧
      ∃ r, (σ.state k).activity t = .resolving (.finish r) (L.callers next) (L.onward next) ∧
        L.Receives next r ((σ.state (k + 1)).activity t)) := by
  by_cases hm : σ.mover k = some t
  · obtain ⟨th, ht, hst⟩ := Machine.step_cases (σ.moves k t hm)
    exact (hst.awaits_next ht h).imp_right (⟨hm, ·⟩)
  · exact .inl ((σ.beside t hm).awaits h)

theorem Requests.receives {g : Goal} {next : Except Error Instance → Program C L.Answer}
    {e : Except Failure Instance} (h : σ.Requests t L g next k e l) :
    L.Receives next e ((σ.state (l + 1)).activity t) := by
  obtain ⟨th, ht, hst⟩ := Machine.step_cases (σ.moves l t h.takes)
  exact hst.finish_next ht h.finishes

theorem Proceeds.activity (h : σ.Proceeds t L rest p n q k) :
    (σ.state k).activity t = L.runs (q.bind rest) := by
  induction h with
  | begins h => exact h
  | stays h hm ih => exact (σ.beside t hm).runs ih
  | acts h hm ha ih => exact ha
  | @calls c next k h hm ih =>
    obtain ⟨hne, -⟩ | ⟨-, hnext⟩ := runs_next ih
    · exact absurd hm hne
    · rw [Program.bind_assoc]
      exact hnext
  | answered h hr ih => exact hr.receives.of_answer

theorem Proceeds.begins_with (h : σ.Proceeds t L rest p n q k) :
    n ≤ k ∧ (σ.state n).activity t = L.runs (p.bind rest) := by
  induction h with
  | begins h => exact ⟨Nat.le_refl _, h⟩
  | stays h hm ih => exact ⟨by omega, ih.2⟩
  | acts h hm ha ih => exact ⟨by omega, ih.2⟩
  | calls h hm ih => exact ⟨by omega, ih.2⟩
  | answered h hr ih =>
    have hl := hr.lt
    exact ⟨by omega, ih.2⟩

theorem Ends.begins_with (h : σ.Ends t L rest p n r k) :
    n ≤ k ∧ (σ.state n).activity t = L.runs (p.bind rest) := by
  cases h with
  | itself h => exact h.begins_with
  | crash h hr =>
    obtain ⟨hn, ha⟩ := h.begins_with
    have hl := hr.lt
    exact ⟨by omega, ha⟩

theorem Ends.activity (h : σ.Ends t L rest p n r k) :
    (∃ q, (σ.state k).activity t = L.runs q) ∨ ∃ r, (σ.state k).activity t = L.ended r := by
  cases h with
  | itself h => exact .inl ⟨_, h.activity⟩
  | crash h hr => exact .inr ⟨_, hr.receives⟩

theorem Proceeds.asks {g : Goal} {f : Except Error Instance → Program C α}
    (h : σ.Proceeds t L rest p n (.resolve g f) k) (hm : σ.mover k = some t)
    (ha : (σ.state (k + 1)).activity t = L.asks g fun a => (f a).bind rest) :
    σ.Asks t L g (fun a => (f a).bind rest) k (k + 1) := by
  refine ⟨h.activity, hm, Nat.lt_succ_self k, fun i hi hi' => ?_⟩
  obtain rfl : i = k + 1 := by omega
  rw [ha]
  exact L.awaits_asks g _

theorem Asks.succ {g : Goal} {f : Except Error Instance → Program C L.Answer} {j : ℕ}
    (h : σ.Asks t L g f j k) (ha : L.Awaits f ((σ.state (k + 1)).activity t)) :
    σ.Asks t L g f j (k + 1) := by
  refine ⟨h.makes, h.moves, Nat.lt_succ_of_lt h.lt, fun i hi hi' => ?_⟩
  obtain hlt | rfl := Nat.lt_succ_iff_lt_or_eq.1 (Nat.lt_succ_of_le hi')
  · exact h.awaits i hi (Nat.le_of_lt_succ hlt)
  · exact ha

theorem UnderWay.step (h : σ.UnderWay t L rest p n k) :
    σ.UnderWay t L rest p n (k + 1) ∨ ∃ r l, l ≤ k + 1 ∧ σ.Ends t L rest p n r l ∧
      L.Next I ((Program.ended r).bind rest) ((σ.state (k + 1)).activity t) := by
  cases h with
  | @runs q _ h =>
    obtain ⟨hm, -⟩ | ⟨hm, hnext⟩ := runs_next h.activity
    · exact .inl (.runs (h.stays hm))
    · cases q with
      | done a => exact .inr ⟨.ok a, k, Nat.le_succ k, .itself h, hnext⟩
      | fail e => exact .inr ⟨.error (.error e), k, Nat.le_succ k, .itself h, hnext⟩
      | crash s => exact .inr ⟨.error (.crash s), k, Nat.le_succ k, .itself h, hnext⟩
      | act a next =>
        obtain ⟨reply, hA⟩ := hnext
        exact .inl (.runs (h.acts hm hA))
      | call c next => exact .inl (.runs (h.calls hm))
      | resolve g next => exact .inl (.awaits h (h.asks hm hnext))
  | @awaits g next j _ h ha =>
    obtain hnext | ⟨hm, r, hf, hr⟩ := awaits_next (ha.awaits k ha.lt (Nat.le_refl k))
    · exact .inl (.awaits h (ha.succ hnext))
    · cases r with
      | ok i => exact .inl (.runs (h.answered (a := .ok i) ⟨ha, hf, hm⟩))
      | error f =>
        cases f with
        | error e => exact .inl (.runs (h.answered (a := .error e) ⟨ha, hf, hm⟩))
        | crash message => exact .inr ⟨_, k + 1, Nat.le_refl _, .crash h ⟨ha, hf, hm⟩, hr⟩

theorem UnderWay.activity_ne_idle (h : σ.UnderWay t L rest p n k) :
    (σ.state k).activity t ≠ .idle := by
  intro hi
  cases h with
  | runs h =>
    rw [h.activity] at hi
    cases L <;> cases hi
  | awaits h ha =>
    obtain ⟨K, G, hK, -⟩ := ha.awaits k ha.lt (Nat.le_refl k)
    cases hK.symm.trans hi

theorem ends_or_underWay (h : (σ.state n).activity t = L.runs (p.bind rest)) (hk : n ≤ k) :
    σ.UnderWay t L rest p n k ∨ ∃ r l, l ≤ k ∧ σ.Ends t L rest p n r l := by
  induction hk with
  | refl => exact .inl (.runs (.begins h))
  | @step k hk ih =>
    obtain ih | ⟨r, l, hl, he⟩ := ih
    · exact ih.step.imp_right fun ⟨r, l, hl, he, _⟩ => ⟨r, l, hl, he⟩
    · exact .inr ⟨r, l, Nat.le_succ_of_le hl, he⟩

/-- Whatever code a thread runs, a request for a service or for a class or the call of a method
among it, the code is under way until it ends. However it ends, the thread then has the stack and
the builds that it had when the code began, and it waits for none. When no thread is in the middle
of a request, all stacks are empty, and so is the build graph. -/
theorem bookkeeping_restored (σ : Run I) :
    (∀ (t : ThreadId) (L : Scope C) (α : Type) (rest : α → Program C L.Answer) (p : Program C α)
        (n : ℕ),
      (∀ r k, σ.Ends t L rest p n r k → (σ.state n).Restored (σ.state k) t) ∧
        ((σ.state n).activity t = L.runs (p.bind rest) → ∀ k, n ≤ k →
          σ.UnderWay t L rest p n k ∨ ∃ r l, l ≤ k ∧ σ.Ends t L rest p n r l)) ∧
      ∀ n, (σ.state n).Quiet →
        (∀ t, (σ.state n).stack t = []) ∧ (σ.state n).world.builds = ∅ := by
  refine ⟨fun t L α rest p n => ⟨fun r k h => ?_, fun h k => ends_or_underWay h⟩, fun n hq => ?_⟩
  · have hn := (σ.reachable n).consistent
    exact hn.restored (σ.reachable k).consistent h.begins_with.2 h.activity
  · exact (σ.reachable n).consistent.quiet hq

def doomed : Run Implementation.plain :=
  along ⟨.ofServices () [("a", ⟨true, .made (.of "A") [⟨"b", .untyped, none⟩] ()⟩),
      ("b", ⟨true, .given (.of "B") [] ()⟩)],
    List.replicate 2 { todo := [(Container.get 0 "a").bind fun _ => .done ()] }⟩
    { world := World.ofServices_unbuilt _ _
      threads := fun h => by rw [List.eq_of_mem_replicate h]; exact ⟨rfl, rfl, rfl⟩ } (· % 2)

theorem bookkeeping_restored_doomed :
    (doomed.state 43).world.builds.waiting.get? 1 = some ⟨0, "a"⟩ ∧
      (doomed.state 61).threads[0]?.any
        (·.records.any (·.outcome matches .error (.crash "nothing to give"))) ∧
      ∃ r l, l ≤ 61 ∧ doomed.Ends 0 .own (fun _ => .done ()) (Container.get 0 "a") 1 r l ∧
        (doomed.state 1).Restored (doomed.state l) 0 := by
  obtain ⟨hall, -⟩ := bookkeeping_restored doomed
  obtain ⟨hends, hway⟩ := hall 0 .own Instance (fun _ => .done ()) (Container.get 0 "a") 1
  refine ⟨by decide +kernel, by decide +kernel, ?_⟩
  obtain hu | ⟨r, l, hl, he⟩ := hway rfl 61 (by decide)
  · have hidle : (doomed.state 61).hasEnded 0 := by decide +kernel
    exact absurd (Machine.activity_of_hasEnded hidle) hu.activity_ne_idle
  · exact ⟨r, l, hl, he, hends r l he⟩

end Run

end Wiring
