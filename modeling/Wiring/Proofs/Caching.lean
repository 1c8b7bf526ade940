import Mathlib.Data.Nat.Count
import Mathlib.Tactic.IntervalCases
import Wiring.Proofs.Provenance

namespace Wiring

variable {C : Client}

def Control.Prompt : Control C → Prop
  | .find .. | .peek _ | .finish _ => True
  | _ => False

def Scope.stages (L : Scope C) (rest : Except Error Instance → Program C L.Answer) (g : Goal)
    (Ks : List (Control C)) (a : Except Error Instance) : ℕ → Activity C
  | 0 => L.runs (.resolve g rest)
  | d + 1 =>
    match Ks[d]? with
    | some K => .resolving K (L.callers rest) (L.onward rest)
    | none => L.runs (rest a)

theorem Scope.stages_prompt {L : Scope C} {rest : Except Error Instance → Program C L.Answer}
    {g : Goal} {Ks : List (Control C)} {a : Except Error Instance} (hK : ∀ K ∈ Ks, K.Prompt) {d : ℕ}
    {K : Control C} {F : List (Frame C)} {next : Except Error Instance → Program C C.Report}
    (h : L.stages rest g Ks a d = .resolving K F next) : K.Prompt ∨ ∃ p, K = .run p := by
  have hruns : ∀ p, L.runs p = .resolving K F next → ∃ p, K = .run p := by
    intro p hp
    cases L with
    | own => cases hp
    | inside G next' => cases hp; exact ⟨p, rfl⟩
  cases d with
  | zero => exact .inr (hruns _ h)
  | succ d =>
    simp only [stages] at h
    split at h
    · next hd =>
      cases h
      exact .inl (hK _ (List.mem_of_getElem? hd))
    · exact .inr (hruns _ h)

def Site.hit (s : Site C) (i : Instance) : List (Control C) :=
  [.find s.container s.name ∅, .peek s, .finish (.ok i)]

theorem Site.hit_prompt (s : Site C) (i : Instance) : ∀ K ∈ s.hit i, K.Prompt := by
  simp [hit, Control.Prompt]

def Site.Awaited (s : Site C) (F : List (Frame C))
    (next : Except Error Instance → Program C C.Report) (A : Activity C) : Prop :=
  ∃ owner, A = .resolving (.asleep s owner) F next ∨ A = .resolving (.woken s owner) F next

def Control.failure? : Control C → Option Failure
  | .notify (.error f) => some f
  | .finish (.error f) => some f
  | _ => none

def Site.Passes (s : Site C) (F : List (Frame C)) (f : Failure) (K : Control C)
    (G : List (Frame C)) : Prop :=
  K.failure? = some f ∧
    (G = .owns s :: .inside s.container (.service s.name) :: F ∨
      G = .inside s.container (.service s.name) :: F ∨ G = F)

namespace Machine

variable {I : Implementation C} {m m' : Machine C} {t u : ThreadId} {th th' : Thread C}
  {w : World C} {fresh : List (Thread C)} {s : Site C} {K K' : Control C} {F G G' : List (Frame C)}
  {next : Except Error Instance → Program C C.Report} {L : Scope C} {i : Instance}
  {rest : Except Error Instance → Program C L.Answer} {d : ℕ} {f : Failure}

theorem Move.hit (hm : Move I m t th w th' fresh)
    (h : th.activity =
      L.stages rest (.service s.container s.name ∅) (s.hit i) (.ok i) d)
    (hd : d < 4) (hf : m.world.Finds s) (hs : s.registration.shared = true)
    (hi : m.world.cached s.entry = some i) :
    th'.activity = L.stages rest (.service s.container s.name ∅) (s.hit i) (.ok i) (d + 1) := by
  match d, hd with
  | 0, _ => exact hm.runs_next h
  | 1, _ =>
    obtain ⟨x, hx, hr⟩ := hf
    have hp := hm.found h hx (by rw [hr, hs]; rfl)
    rw [hr] at hp
    exact hp
  | 2, _ =>
    cases hm with
    | peekHit h' hi' =>
      cases h.symm.trans h'
      cases hi.symm.trans hi'
      rfl
    | peekMiss h' hi' =>
      cases h.symm.trans h'
      cases hi.symm.trans hi'
    | _ => cases h.symm.trans ‹th.activity = _›
  | 3, _ => exact hm.finish_next h

theorem stages_isSome {g : Goal} {Ks : List (Control C)} {a : Except Error Instance}
    (hK : ∀ K ∈ Ks, K.Prompt) (ha : m.activity t = L.stages rest g Ks a d) (hd : d ≤ Ks.length) :
    (m.step I t).isSome := by
  cases ht : m.threads[t]? with
  | none =>
    have hidle : m.activity t = .idle := by rw [Machine.activity, ht]; rfl
    rw [hidle] at ha
    cases d with
    | zero => cases L <;> cases ha
    | succ d =>
      simp only [Scope.stages, List.getElem?_eq_getElem (Nat.lt_of_succ_le hd)] at ha
      cases ha
  | some th =>
    rw [activity_eq ht] at ha
    simp only [step, ht, Option.bind_eq_bind, Option.bind_some, ha]
    cases d with
    | zero => cases L <;> rfl
    | succ d =>
      have hprompt := hK _ (List.getElem_mem (Nat.lt_of_succ_le hd))
      simp only [Scope.stages, List.getElem?_eq_getElem (Nat.lt_of_succ_le hd)]
      cases hc : Ks[d] with
      | find c name o => rfl
      | peek s => rfl
      | finish r => rfl
      | _ => rw [hc] at hprompt; exact hprompt.elim

theorem Move.awaited (hm : Move I m t th w th' fresh) (h : s.Awaited F next th.activity) :
    s.Awaited F next th'.activity ∨ th'.activity = .resolving (.attempt s) F next := by
  obtain ⟨owner, h | h⟩ := h
  · cases hm <;> cases h.symm.trans ‹th.activity = _›
  · cases hm with
    | wokenAgain h' ho => cases h.symm.trans h'; exact .inl ⟨_, .inl rfl⟩
    | wokenFree h' ho => cases h.symm.trans h'; exact .inr rfl
    | _ => cases h.symm.trans ‹th.activity = _›

theorem Stepped.awaited (h : Stepped I m t th m') (ht : m.threads[t]? = some th)
    (ha : s.Awaited F next (m.activity u)) :
    s.Awaited F next (m'.activity u) ∨ m'.activity u = .resolving (.attempt s) F next := by
  by_cases he : u = t
  · subst he
    obtain ⟨th', fresh, hm, ha'⟩ | ⟨r, G, next', ho, -⟩ := h.activity ht
    · rw [ha']
      exact hm.awaited (activity_eq ht ▸ ha)
    · obtain ⟨owner, ha | ha⟩ := ha <;> cases ha.symm.trans ho
  · obtain hb | ⟨a, owner, G, next', ho, hn⟩ := (h.beside he).activity
    · exact .inl (hb.symm ▸ ha)
    · obtain ⟨owner', ha | ha⟩ := ha
      · cases ha.symm.trans ho
        exact .inl ⟨_, .inr hn⟩
      · cases ha.symm.trans ho

theorem Move.passes (hm : Move I m t th w th' fresh) (h : th.activity = .resolving K G next)
    (hs : Serving m.world s F K G) (h' : th'.activity = .resolving K' G' next)
    (hp : s.Passes F f K' G') :
    s.Passes F f K G ∨
      (∃ chain, th.activity =
          .resolving (.enter s.container (.service s.name) (.attempt s)) F next ∧
        th.stack.cycle? s.container (.service s.name) = some chain ∧
        f = .error (.circularDependency chain)) ∨
      (∃ chain, th.activity =
          .resolving (.claim s) (.inside s.container (.service s.name) :: F) next ∧
        m.world.builds.waitCycle s.key t = some chain ∧
        f = .error (.circularDependency chain)) ∨
      th.activity = .resolving (.finish (.error f))
        (.keeps s :: .owns s :: .inside s.container (.service s.name) :: F) next := by
  obtain ⟨hK, hG⟩ := hp
  cases hs with
  | peek =>
    cases hm with
    | peekHit h₁ hi => cases h.symm.trans h₁; cases h'; cases hK
    | peekMiss h₁ hi => cases h.symm.trans h₁; cases h'; cases hK
    | _ => cases h.symm.trans ‹th.activity = _›
  | enter =>
    cases hm with
    | enterAgain h₁ hc =>
      cases h.symm.trans h₁
      cases h'
      cases hK
      exact .inr (.inl ⟨_, h, hc, rfl⟩)
    | enterNew h₁ hc => cases h.symm.trans h₁; cases h'; cases hK
    | _ => cases h.symm.trans ‹th.activity = _›
  | attempt =>
    cases hm with
    | attemptHit h₁ hi => cases h.symm.trans h₁; cases h'; cases hK
    | attemptMiss h₁ hi => cases h.symm.trans h₁; cases h'; cases hK
    | _ => cases h.symm.trans ‹th.activity = _›
  | claim =>
    cases hm with
    | claimFree h₁ ho => cases h.symm.trans h₁; cases h'; cases hK
    | claimCycle h₁ ho hc =>
      cases h.symm.trans h₁
      cases h'
      cases hK
      exact .inr (.inr (.inl ⟨_, h, hc, rfl⟩))
    | claimWait h₁ ho hc => cases h.symm.trans h₁; cases h'; cases hK
    | _ => cases h.symm.trans ‹th.activity = _›
  | asleep => cases hm <;> cases h.symm.trans ‹th.activity = _›
  | woken =>
    cases hm with
    | wokenAgain h₁ ho => cases h.symm.trans h₁; cases h'; cases hK
    | wokenFree h₁ ho => cases h.symm.trans h₁; cases h'; cases hK
    | _ => cases h.symm.trans ‹th.activity = _›
  | recheck =>
    cases hm with
    | recheckHit h₁ hi => cases h.symm.trans h₁; cases h'; cases hK
    | recheckMiss h₁ hi => cases h.symm.trans h₁; cases h'; cases hK
    | _ => cases h.symm.trans ‹th.activity = _›
  | build hin =>
    have hshort : G'.length ≤ F.length + 2 := by
      obtain rfl | rfl | rfl := hG
      · exact Nat.le_refl _
      · exact Nat.le_succ _
      · omega
    -- The frame of the build has just been taken off, and it passed an error on.
    obtain ⟨K₁, G₁, h₁, hlong⟩ | ⟨r, rfl, rfl | ⟨g, K₁, G₁, rfl, h₁⟩⟩ := hm.frames h
    · cases h'.symm.trans h₁
      have hlen := (hin.trans hlong).length_le
      simp only [List.length_cons] at hlen
      omega
    · cases List.suffix_nil.1 hin
    · cases h'.symm.trans h₁
      obtain he | hin := List.suffix_cons_iff.1 hin
      · cases he
        cases hm with
        | keepNothing h₂ =>
          cases h.symm.trans h₂
          cases h'
          cases hK
          exact .inr (.inr (.inr h))
        | keepFirst h₂ hi => cases h.symm.trans h₂; cases h'; cases hK
        | keepOther h₂ hi => cases h.symm.trans h₂; cases h'; cases hK
        | _ => cases h.symm.trans ‹th.activity = _›
      · have hlen := hin.length_le
        simp only [List.length_cons] at hlen
        omega
  | @built r hr =>
    cases hm with
    | release h₁ =>
      cases h.symm.trans h₁
      cases h'
      refine .inl ⟨?_, .inl rfl⟩
      obtain g | i := r
      · exact hK
      · cases hK
    | _ => cases h.symm.trans ‹th.activity = _›
  | notify hr => cases hm <;> cases h.symm.trans ‹th.activity = _›
  | leave hr =>
    cases hm with
    | leave h₁ =>
      cases h.symm.trans h₁
      cases h'
      exact .inl ⟨hK, .inr (.inl rfl)⟩
    | _ => cases h.symm.trans ‹th.activity = _›

theorem Stepped.passes (h : Stepped I m t th m') (ht : m.threads[t]? = some th)
    (ha : m.activity t = .resolving K G next) (hs : Serving m.world s F K G)
    (ha' : m'.activity t = .resolving K' G' next) (hp : s.Passes F f K' G') :
    s.Passes F f K G ∨
      (∃ chain, m.activity t =
          .resolving (.enter s.container (.service s.name) (.attempt s)) F next ∧
        (m.stack t).cycle? s.container (.service s.name) = some chain ∧
        f = .error (.circularDependency chain)) ∨
      (∃ chain, m.activity t =
          .resolving (.claim s) (.inside s.container (.service s.name) :: F) next ∧
        m.world.builds.waitCycle s.key t = some chain ∧
        f = .error (.circularDependency chain)) ∨
      m.activity t = .resolving (.finish (.error f))
        (.keeps s :: .owns s :: .inside s.container (.service s.name) :: F) next := by
  have hstack : m.stack t = th.stack := by rw [stack, ht]; rfl
  obtain ⟨th', fresh, hm, hn⟩ | ⟨r, G₀, next₀, ho, hn, -⟩ := h.activity ht
  · rw [hstack, activity_eq ht]
    exact hm.passes ((activity_eq ht).symm.trans ha) hs (hn.symm.trans ha') hp
  · cases ha.symm.trans ho
    cases ha'.symm.trans hn
    obtain ⟨hK, hG⟩ := hp
    refine .inl ⟨?_, hG⟩
    obtain g | i := r
    · exact hK
    · cases hK

theorem Stepped.keeps_nothing (h : Stepped I m t th m') (ht : m.threads[t]? = some th)
    (ha : m.activity t = .resolving (.finish (.error f)) (.keeps s :: F) next)
    (hi : m.world.cached s.entry = none) :
    m'.world.cached s.entry = none ∧ m'.activity t = .resolving (.finish (.error f)) F next := by
  obtain ⟨th', fresh, hm, hn⟩ | ⟨r, G, next', ho, -⟩ := h.activity ht
  · rw [activity_eq ht] at ha
    rw [hn]
    generalize m'.world = w at hm ⊢
    generalize hr : Except.error f = r at ha ⊢
    cases hm with
    | keepNothing h' => cases ha.symm.trans h'; exact ⟨hi, rfl⟩
    | keepFirst h' => cases ha.symm.trans h'; cases hr
    | keepOther h' => cases ha.symm.trans h'; cases hr
    | _ => cases ha.symm.trans ‹th.activity = _›
  · cases ha.symm.trans ho

end Machine

namespace Run

variable {I : Implementation C} (σ : Run I) {n k : ℕ} {t : ThreadId} {e : EntryId}
  {i : Instance} {s : Site C} {K : Control C} {F G : List (Frame C)}
  {next : Except Error Instance → Program C C.Report} {L : Scope C}
  {rest : Except Error Instance → Program C L.Answer} {d : ℕ} {f : Failure}

def moved (t : ThreadId) (n d : ℕ) : ℕ := Nat.count (fun l => σ.mover (n + l) = some t) d

theorem moved_succ (t : ThreadId) (n d : ℕ) :
    σ.moved t n (d + 1) = σ.moved t n d + if σ.mover (n + d) = some t then 1 else 0 :=
  Nat.count_succ _ _

/-- What a request of thread `t` for the service, made in the frames `F` and looked up at moment
`n`, has failed of by moment `k`. -/
inductive Fault (t : ThreadId) (s : Site C) (F : List (Frame C))
    (next : Except Error Instance → Program C C.Report) (n k : ℕ) : Failure → Prop
  | again {l chain} (hn : n < l) (hl : l < k) (hm : σ.mover l = some t)
      (ha : (σ.state l).activity t =
        .resolving (.enter s.container (.service s.name) (.attempt s)) F next)
      (hc : ((σ.state l).stack t).cycle? s.container (.service s.name) = some chain) :
      Fault t s F next n k (.error (.circularDependency chain))
  | across {l chain} (hn : n < l) (hl : l < k) (hm : σ.mover l = some t)
      (ha : (σ.state l).activity t =
        .resolving (.claim s) (.inside s.container (.service s.name) :: F) next)
      (hc : (σ.state l).world.builds.waitCycle s.key t = some chain) :
      Fault t s F next n k (.error (.circularDependency chain))
  | built {b l f} (hn : n < b) (hl : l < k)
      (hb : σ.Builds t s (.owns s :: .inside s.container (.service s.name) :: F) next b (.error f)
        l) :
      Fault t s F next n k f

variable {σ}

theorem Fault.later {k' : ℕ} (h : σ.Fault t s F next n k f) (hk : k ≤ k') :
    σ.Fault t s F next n k' f := by
  cases h with
  | again hn hl hm ha hc => exact .again hn (Nat.lt_of_lt_of_le hl hk) hm ha hc
  | across hn hl hm ha hc => exact .across hn (Nat.lt_of_lt_of_le hl hk) hm ha hc
  | built hn hl hb => exact .built hn (Nat.lt_of_lt_of_le hl hk) hb

theorem Fault.step {K₀ K' : Control C} {G' : List (Frame C)} (hn : n < k)
    (hbefore : (σ.state n).activity t = .resolving K₀ F next)
    (ha : (σ.state k).activity t = .resolving K G next) (hs : Serving (σ.state k).world s F K G)
    (hold : ∀ f, s.Passes F f K G → σ.Fault t s F next n k f)
    (ha' : (σ.state (k + 1)).activity t = .resolving K' G' next) (hp : s.Passes F f K' G') :
    σ.Fault t s F next n (k + 1) f := by
  by_cases hm : σ.mover k = some t
  · obtain ⟨th, ht, hst⟩ := Machine.step_cases (σ.moves k t hm)
    obtain hp | ⟨chain, ha, hc, rfl⟩ | ⟨chain, ha, hc, rfl⟩ | ha := hst.passes ht ha hs ha' hp
    · exact (hold f hp).later (Nat.le_succ k)
    · exact .again hn (Nat.lt_succ_self k) hm ha hc
    · exact .across hn (Nat.lt_succ_self k) hm ha hc
    · obtain ⟨b, l, hl, hw, hb⟩ := σ.build_ended ha
      -- When the service was looked up, there was no such build.
      have hnb : n < b := by
        by_contra hle
        obtain ⟨K, G, hK, hG⟩ := hw n (by omega) (by omega)
        cases hbefore.symm.trans hK
        have hlen := hG.length_le
        simp only [List.length_cons] at hlen
        omega
      exact .built hnb (by omega) hb
  · obtain hb | ⟨a, owner, G₀, next₀, ho, hw⟩ := (σ.beside t hm).activity
    · cases (ha'.symm.trans hb).trans ha
      exact (hold f hp).later (Nat.le_succ k)
    · cases ha'.symm.trans hw
      cases hp.1

theorem LooksUp.fault (h : σ.LooksUp n t F next e) (hk : n < k)
    (hfirst : ∀ l, n < l → l < k → ∀ r, (σ.state l).activity t ≠ .resolving (.finish r) F next)
    (ha : (σ.state k).activity t = .resolving (.finish (.error f)) F next) :
    ∃ s, s.entry = e ∧ σ.Fault t s F next n k f := by
  obtain ⟨s, he, hl, hpeek⟩ := h.peeks
  have hserved : s.entry < (σ.state k).world.entries.length ∧ ∃ K G,
      (σ.state k).activity t = .resolving K G next ∧ Served (σ.state k).world s F K G ∧
        ∀ f, s.Passes F f K G → σ.Fault t s F next n k f := by
    clear ha
    induction hk with
    | refl => exact ⟨he ▸ hl, _, _, hpeek, .serving .peek, fun f hp => nomatch hp.1⟩
    | @step k hk ih =>
      obtain ⟨hl, K, G, ha, hs, hold⟩ := ih fun l hn hl => hfirst l hn (by omega)
      cases hs with
      | answered hr => exact absurd ha (hfirst k hk (Nat.lt_succ_self k) _)
      | serving hs =>
        obtain ⟨hl, K', G', ha', hs'⟩ := served_next ha hs hl
        obtain ⟨c, name, o, x, -, hbefore, -⟩ := h
        exact ⟨hl, K', G', ha', hs', fun f hp => Fault.step hk hbefore ha hs hold ha' hp⟩
  obtain ⟨-, K, G, ha', -, hfault⟩ := hserved
  cases ha.symm.trans ha'
  exact ⟨s, he, hfault f ⟨rfl, .inr (.inr rfl)⟩⟩

theorem awaited_until (ha : s.Awaited F next ((σ.state n).activity t)) (hk : n ≤ k) :
    (∀ l, n ≤ l → l ≤ k → s.Awaited F next ((σ.state l).activity t)) ∨
      ∃ l, n < l ∧ l ≤ k ∧ (∀ j, n ≤ j → j < l → s.Awaited F next ((σ.state j).activity t)) ∧
        (σ.state l).activity t = .resolving (.attempt s) F next := by
  induction hk with
  | refl =>
    refine .inl fun l hn hl => ?_
    obtain rfl : l = n := by omega
    exact ha
  | @step k hk ih =>
    obtain hall | ⟨l, hn, hl, hj, hatt⟩ := ih
    · have hnext : s.Awaited F next ((σ.state (k + 1)).activity t) ∨
          (σ.state (k + 1)).activity t = .resolving (.attempt s) F next := by
        have hnow := hall k hk (Nat.le_refl k)
        cases hm : σ.mover k with
        | none => exact .inl (σ.idles k hm ▸ hnow)
        | some u =>
          obtain ⟨th, ht, hst⟩ := Machine.step_cases (σ.moves k u hm)
          exact hst.awaited ht hnow
      obtain hnext | hatt := hnext
      · refine .inl fun l hn hl => ?_
        by_cases he : l = k + 1
        · exact he ▸ hnext
        · exact hall l hn (by omega)
      · exact .inr ⟨k + 1, Nat.lt_succ_of_le hk, Nat.le_refl _, fun j hn hj => hall j hn (by omega),
          hatt⟩
    · exact .inr ⟨l, hn, Nat.le_succ_of_le hl, hj, hatt⟩

theorem at_stage {g : Goal} {Ks : List (Control C)} {a : Except Error Instance}
    (hK : ∀ K ∈ Ks, K.Prompt)
    (hstep : ∀ l j th th' fresh, n ≤ l → l < n + d → j < Ks.length + 1 →
      Machine.Move I (σ.state l) t th (σ.state (l + 1)).world th' fresh →
      th.activity = L.stages rest g Ks a j → th'.activity = L.stages rest g Ks a (j + 1))
    (ha : (σ.state n).activity t = L.runs (.resolve g rest))
    (hd : σ.moved t n d ≤ Ks.length + 1) :
    (σ.state (n + d)).activity t = L.stages rest g Ks a (σ.moved t n d) := by
  induction d with
  | zero => exact ha
  | succ d ih =>
    have hd' := σ.moved_succ t n d
    have hnow := ih (fun l j th th' fresh hn hl => hstep l j th th' fresh hn (by omega)) (by omega)
    by_cases hm : σ.mover (n + d) = some t
    · rw [if_pos hm] at hd'
      obtain ⟨th, th', fresh, hth, hmv, ha'⟩ := σ.move t hm fun r F next he => by
        obtain hp | ⟨p, hp⟩ := Scope.stages_prompt hK (hnow.symm.trans he) <;> cases hp
      rw [hd']
      exact ha'.trans (hstep (n + d) _ th th' fresh (by omega) (by omega) (by omega) hmv
        (hth.trans hnow))
    · rw [if_neg hm] at hd'
      rw [hd']
      obtain hb | ⟨s, owner, F, next, ho, -⟩ := (σ.beside t hm).activity
      · exact hb.trans hnow
      · obtain hp | ⟨p, hp⟩ := Scope.stages_prompt hK (hnow.symm.trans ho) <;> cases hp

theorem hits (ha : (σ.state n).activity t = L.runs (.resolve (.service s.container s.name ∅) rest))
    (hi : (σ.state n).world.cached s.entry = some i)
    (hf : ∀ l, n ≤ l → l ≤ n + d → (σ.state l).world.Finds s) (hd : σ.moved t n d ≤ 4) :
    (σ.state (n + d)).activity t =
      L.stages rest (.service s.container s.name ∅) (s.hit i) (.ok i) (σ.moved t n d) := by
  have hs : s.registration.shared = true := by
    obtain ⟨x, hx, hr⟩ := hf n (Nat.le_refl n) (Nat.le_add_right n d)
    obtain ⟨y, hy, hc⟩ := Option.bind_eq_some_iff.1 hi
    cases (World.entry?_eq_some.1 hx).2.symm.trans hy
    exact hr ▸ (σ.cached_makes hy hc).1
  refine at_stage (s.hit_prompt i) ?_ ha hd
  intro l j th th' fresh hn hl hj hm hnow
  exact hm.hit hnow hj (hf l hn (by omega)) hs (σ.cached_lasts hn hi)

/-- Only shared services are cached. What is cached has the declared type, was made by a build of
the registration itself, and stays. While the registration stands, each plain request is answered
with it without fail, and no code runs for that. While an attempt goes on the cache is empty, and
when it fails the cache stays so. A thread that waits for it makes an attempt of its own before
anything else, and each request that fails does so for a reason of its own. -/
theorem cache_faithful (σ : Run I) :
    (∀ n e x i, (σ.state n).world.entries[e]? = some x → x.cache = some i →
      x.registration.shared = true ∧ i.type = x.registration.provides ∧
      (∃ k < n, σ.Makes e x.registration i k) ∧
      ∀ k, n ≤ k → (σ.state k).world.cached e = some i) ∧
    (∀ t (L : Scope C) rest s i n d,
      (σ.state n).activity t = L.runs (.resolve (.service s.container s.name ∅) rest) →
      (σ.state n).world.cached s.entry = some i →
      (∀ l, n ≤ l → l ≤ n + d → (σ.state l).world.Finds s) → σ.moved t n d ≤ 4 →
      (σ.state (n + d)).activity t =
          L.stages rest (.service s.container s.name ∅) (s.hit i) (.ok i) (σ.moved t n d) ∧
        (σ.moved t n d < 4 → ((σ.state (n + d)).step I t).isSome)) ∧
    (∀ n t, (∀ s ∈ ((σ.state n).activity t).kept, (σ.state n).world.cached s.entry = none) ∧
      ∀ s F next f, σ.mover n = some t →
        (σ.state n).activity t = .resolving (.finish (.error f)) (.keeps s :: F) next →
        (σ.state (n + 1)).world.cached s.entry = none ∧
          (σ.state (n + 1)).activity t = .resolving (.finish (.error f)) F next) ∧
    (∀ n k t s F next, s.Awaited F next ((σ.state n).activity t) → n ≤ k →
      (∀ l, n ≤ l → l ≤ k → s.Awaited F next ((σ.state l).activity t)) ∨
        ∃ l, n < l ∧ l ≤ k ∧ (∀ j, n ≤ j → j < l → s.Awaited F next ((σ.state j).activity t)) ∧
          (σ.state l).activity t = .resolving (.attempt s) F next) ∧
    ∀ n k t F next e f, σ.LooksUp n t F next e → n < k →
      (∀ l, n < l → l < k → ∀ r, (σ.state l).activity t ≠ .resolving (.finish r) F next) →
      (σ.state k).activity t = .resolving (.finish (.error f)) F next →
      ∃ s, s.entry = e ∧ σ.Fault t s F next n k f := by
  refine ⟨?_, ?_, ?_, ?_, ?_⟩
  · intro n e x i hx hi
    obtain ⟨hs, k, hk, hmade⟩ := σ.cached_makes hx hi
    have hc : (σ.state n).world.cached e = some i := by
      rw [World.cached, hx, Option.bind_some, hi]
    exact ⟨hs, hmade.type, ⟨k, hk, hmade⟩, fun k hk => σ.cached_lasts hk hc⟩
  · intro t L rest s i n d ha hi hf hd
    have hnow := hits ha hi hf hd
    exact ⟨hnow, fun hlt => Machine.stages_isSome (s.hit_prompt i) hnow (Nat.le_of_lt_succ hlt)⟩
  · intro n t
    have hempty := (σ.reachable n).pristine t
    refine ⟨hempty, fun s F next f hm ha => ?_⟩
    have hnone := hempty s (by rw [ha]; exact List.mem_cons_self)
    obtain ⟨th, ht, hst⟩ := Machine.step_cases (σ.moves n t hm)
    exact hst.keeps_nothing ht ha hnone
  · intro n k t s F next ha hk
    exact awaited_until ha hk
  · intro n k t F next e f hl hk hfirst ha
    exact hl.fault hk hfirst ha

end Run

def Client.fickle : Client := ⟨Unit, Bool, Unit⟩

def Implementation.fickle : Implementation Client.fickle where
  make _ _ _ := (Program.perform (.update fun _ => true)).bind fun (again : Bool) =>
    if again then .done (.text "") else .crash "not yet"
  give _ _ _ := .crash "nothing to give"
  manifest _ := .done []
  construct _ _ := .done (.text "")
  job _ := .done ()

namespace Run

def fickle : Run Implementation.fickle :=
  along ⟨.ofServices false [("a", ⟨true, .made (.of "A") [] ()⟩)],
      List.replicate 2
        { todo := List.replicate 2 ((Container.get 0 "a").bind fun _ => .done ()) }⟩
    { world := World.ofServices_unbuilt _ _
      threads := fun h => by rw [List.eq_of_mem_replicate h]; exact ⟨rfl, rfl, rfl⟩ } (· % 2)

def fickleSite : Site Client.fickle := ⟨0, "a", 0, ⟨true, .made (.of "A") [] ()⟩⟩

def fickleNext (a : Except Error Instance) : Program Client.fickle Unit :=
  (Program.ofExcept a).bind fun _ => .done ()

set_option maxRecDepth 2000 in
theorem cache_faithful_fickle :
    (∃ s, s.entry = 0 ∧ fickle.Fault 0 s [] fickleNext 4 31 (.crash "not yet")) ∧
      (fickle.state 25).world.cached 0 = none ∧
      (∃ l, 14 < l ∧ l ≤ 30 ∧ (fickle.state l).activity 1 =
        .resolving (.attempt fickleSite) [.inside 0 (.service "a")] fickleNext) ∧
      (∃ k < 48, fickle.Makes 0 fickleSite.registration ⟨.of "A", 0⟩ k) ∧
      (fickle.state 68).activity 1 = .running (fickleNext (.ok ⟨.of "A", 0⟩)) := by
  obtain ⟨hfilled, hhit, hfails, hwaits, hfault⟩ := cache_faithful fickle
  refine ⟨?_, ?_, ?_, ?_, ?_⟩
  · have hbusy : ∀ l < 31, 4 < l → unanswered ((fickle.state l).activity 0) := by decide +kernel
    refine hfault 4 31 0 [] fickleNext 0 _ ⟨0, "a", ∅, _, rfl, rfl, rfl, rfl, rfl⟩ (by decide) ?_
      rfl
    intro l hl hk r he
    have := hbusy l hk hl
    rw [he] at this
    cases this
  · obtain ⟨-, hnothing⟩ := hfails 24 0
    exact (hnothing fickleSite _ fickleNext (.crash "not yet") rfl rfl).1
  · obtain hall | ⟨l, hl, hk, -, ha⟩ :=
      hwaits 14 30 1 fickleSite [.inside 0 (.service "a")] fickleNext ⟨0, .inl rfl⟩ (by decide)
    · obtain ⟨owner, ha | ha⟩ := hall 30 (by decide) (by decide) <;> cases ha
    · exact ⟨l, hl, hk, ha⟩
  · obtain ⟨-, -, hmade, -⟩ := hfilled 48 0 ⟨fickleSite.registration, some ⟨.of "A", 0⟩⟩ _ rfl rfl
    exact hmade
  · have hstands : ∀ l, 61 ≤ l → l ≤ 61 + 7 → (fickle.state l).world.Finds fickleSite := by
      intro l hl hk
      interval_cases l <;> exact ⟨_, rfl, rfl⟩
    have hfour : fickle.moved 1 61 7 = 4 := by decide +kernel
    obtain ⟨ha, -⟩ := hhit 1 .own fickleNext fickleSite ⟨.of "A", 0⟩ 61 7 rfl rfl hstands
      (Nat.le_of_eq hfour)
    rw [hfour] at ha
    exact ha

end Run

end Wiring
