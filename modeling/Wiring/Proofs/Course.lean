import Wiring.Proofs.Evaluation
import Wiring.Proofs.Termination

namespace Wiring

variable {C : Client} {α : Type}

def Activity.deed? : Activity C → Option (Deed C)
  | .running p => p.deed?
  | .resolving (.run p) _ _ => p.deed?
  | _ => none

theorem Scope.deed?_runs (L : Scope C) (p : Program C L.Answer) :
    (L.runs p).deed? = p.deed? := by
  cases L <;> rfl

/-- The world without what is being built, which is of no account to a single thread. -/
def World.settled (w : World C) : World C := { w with builds := ∅ }

theorem World.access_settled {I : Implementation C} {m : Machine C} {th : Thread C}
    (a : Action C) (hm : m.threads = [th]) (hn : th.activity ≠ .idle) :
    m.world.settled.access I th.stack a =
      (m.perform I 0 th a).map fun (r, m) => (r, m.world.settled) := by
  obtain ⟨w, threads⟩ := m
  cases hm
  cases a with
  | await ready =>
    by_cases h : ready w.state <;> simp [access, Machine.perform, settled, h]
  | awaitWaiters service count =>
    by_cases h : count ≤ w.waits.count service <;> simp [access, Machine.perform, settled, h]
  | settleDefault =>
    cases h : w.current <;> (simp [access, Machine.perform, settled, h]; try rfl)
  | join threads =>
    have hended : ∀ (v : World C) u, Machine.hasEnded ⟨v,
        [{ stack := th.stack, activity := .running (.crash ""), todo := [] }]⟩ u =
          Machine.hasEnded ⟨w, [th]⟩ u := by
      rintro v (- | u)
      · cases ha : th.activity with
        | idle => exact absurd ha hn
        | _ => simp [Machine.hasEnded, Thread.hasEnded, ha]
      · rfl
    by_cases h : threads.all (Machine.hasEnded ⟨w, [th]⟩) <;>
      simp only [access, Machine.perform, settled, funext (hended _), h]
    all_goals rfl
  | _ => rfl

inductive Returns (I : Implementation C) (S : Stack) : List (Frame C) → World C →
    Except Failure Instance → List (Deed C) → Except Failure Instance → World C → Prop
  | base {w r} : Returns I S [] w r [] r w
  | inside {c x F w r ds r' w'} (h : Returns I S F w r ds r' w') :
      Returns I S (.inside c x :: F) w r ds r' w'
  | owns {s F w r ds r' w'} (h : Returns I S F w r ds r' w') :
      Returns I S (.owns s :: F) w r ds r' w'
  | keeps {s F w r r₁ w₁ ds r' w'} (hk : w.keep (some s.entry) r = (r₁, w₁))
      (h : Returns I S F w₁ r₁ ds r' w') : Returns I S (.keeps s :: F) w r ds r' w'
  | answer {next F w a ds₁ r₁ w₁ ds₂ r' w'}
      (hn : Evaluates I (insides F ++ S) w (next a) ds₁ r₁ w₁)
      (h : Returns I S F w₁ r₁ ds₂ r' w') :
      Returns I S (.caller next :: F) w (Except.mapError .error a) (ds₁ ++ ds₂) r' w'
  | passBy {next F w s ds r' w'} (h : Returns I S F w (.error (.crash s)) ds r' w') :
      Returns I S (.caller next :: F) w (.error (.crash s)) ds r' w'

inductive Control.Comes (I : Implementation C) : Control C → Stack → World C → List (Deed C) →
    Except Failure Instance → World C → Prop
  | missing {c name o S w} (he : w.entry? c name = none) :
      Comes I (.find c name o) S w [] (.error (.error (.serviceNotFound name))) w
  | shared {c name o S w e x ds r w'} (he : w.entry? c name = some (e, x))
      (hs : (x.registration.shared && o.isEmpty) = true)
      (h : Comes I (.peek ⟨c, name, e, x.registration⟩) S w ds r w') :
      Comes I (.find c name o) S w ds r w'
  | other {c name o S w e x ds r w'} (he : w.entry? c name = some (e, x))
      (hs : (x.registration.shared && o.isEmpty) = false)
      (h : Comes I (.enter c (.service name) (.run (build c name x.registration o))) S w ds r w') :
      Comes I (.find c name o) S w ds r w'
  | hit {s S w i} (hi : w.cached s.entry = some i) : Comes I (.peek s) S w [] (.ok i) w
  | miss {s S w ds r w'} (hi : w.cached s.entry = none)
      (h : Comes I (.enter s.container (.service s.name) (.attempt s)) S w ds r w') :
      Comes I (.peek s) S w ds r w'
  | again {c x K S w chain} (hc : Stack.cycle? S c x = some chain) :
      Comes I (.enter c x K) S w [] (.error (.error (.circularDependency chain))) w
  | enter {c x K S w ds r w'} (hc : Stack.cycle? S c x = none)
      (h : Comes I K (S.enter c x) w ds r w') : Comes I (.enter c x K) S w ds r w'
  | attemptHit {s S w i} (hi : w.cached s.entry = some i) : Comes I (.attempt s) S w [] (.ok i) w
  | attempt {s S w ds r w'} (hi : w.cached s.entry = none) (h : Comes I (.claim s) S w ds r w') :
      Comes I (.attempt s) S w ds r w'
  | claim {s S w ds r w'} (h : Comes I (.recheck s) S w ds r w') : Comes I (.claim s) S w ds r w'
  | woken {s owner S w ds r w'} (h : Comes I (.attempt s) S w ds r w') :
      Comes I (.woken s owner) S w ds r w'
  | recheckHit {s S w i} (hi : w.cached s.entry = some i) : Comes I (.recheck s) S w [] (.ok i) w
  | recheck {s S w ds r w₁ r' w'} (hi : w.cached s.entry = none)
      (h : Evaluates I S w (build s.container s.name s.registration ∅) ds r w₁)
      (hk : w₁.keep (some s.entry) r = (r', w')) : Comes I (.recheck s) S w ds r' w'
  | run {p S w ds r w'} (h : Evaluates I S w p ds r w') : Comes I (.run p) S w ds r w'
  | notify {r S w} : Comes I (.notify r) S w [] r w
  | finish {r S w} : Comes I (.finish r) S w [] r w

inductive Remains (I : Implementation C) (S : Stack) (K : Control C) (G : List (Frame C))
    (w : World C) : List (Deed C) → Except Failure Instance → World C → Prop
  | mk {ds₁ r₁ w₁ ds₂ r w'} (h : K.Comes I (insides G ++ S) w ds₁ r₁ w₁)
      (hG : Returns I S G w₁ r₁ ds₂ r w') : Remains I S K G w (ds₁ ++ ds₂) r w'

section

variable {I : Implementation C} {S : Stack} {w w' : World C} {ds : List (Deed C)}
  {r r₀ : Except Failure Instance} {K K' : Control C} {G G' : List (Frame C)}

theorem Control.Comes.enter_cases {c : ContainerId} {x : Target}
    (h : Comes I (.enter c x K) S w ds r w') :
    (∃ chain, S.cycle? c x = some chain ∧ ds = [] ∧
        r = .error (.error (.circularDependency chain)) ∧ w' = w) ∨
      S.cycle? c x = none ∧ Comes I K (S.enter c x) w ds r w' := by
  cases h with
  | again hc => exact .inl ⟨_, hc, rfl, rfl, rfl⟩
  | enter hc h => exact .inr ⟨hc, h⟩

theorem Control.Comes.responds {g : Goal} (h : Comes I g.control S w ds r w') :
    Responds I S w g ds r w' := by
  have hplain {c : ContainerId} {x : Target} {p : Program C Instance}
      (ho : w.opening S g = S.opening c x p none)
      (h : Comes I (.enter c x (.run p)) S w ds r w') : Responds I S w g ds r w' := by
    obtain ⟨chain, hc, rfl, rfl, rfl⟩ | ⟨hc, h⟩ := h.enter_cases
    · exact .settled (a := .error _) (by rw [ho, Stack.opening, hc])
    · cases h with
      | run h => exact .entered (by rw [ho, Stack.opening, hc]) h rfl
  cases g with
  | «class» c type o => exact hplain rfl h
  | service c name o =>
    cases h with
    | missing he => exact .settled (a := .error _) (by simp only [World.opening, he])
    | other he hs h => exact hplain (by simp [World.opening, he, hs]) h
    | @shared _ _ _ _ _ e x _ _ _ he hs h =>
      cases h with
      | hit hi =>
        have hi : w.cached e = some _ := hi
        exact .settled (a := .ok _) (by simp [World.opening, he, hs, hi])
      | miss hi h =>
        have hi : w.cached e = none := hi
        have ho : w.opening S (.service c name o) =
            S.opening c (.service name) (build c name x.registration ∅) (some e) := by
          simp [World.opening, he, hs, hi]
        obtain ⟨chain, hc, rfl, rfl, rfl⟩ | ⟨hc, h⟩ := h.enter_cases
        · exact .settled (a := .error _) (by rw [ho, Stack.opening, hc])
        · cases h with
          | attemptHit hi' => cases hi.symm.trans hi'
          | attempt _ h =>
            cases h with
            | claim h =>
              cases h with
              | recheckHit hi' => cases hi.symm.trans hi'
              | recheck _ h hk => exact .entered (by rw [ho, Stack.opening, hc]) h hk

namespace Remains

theorem goes_on {before : List (Deed C)} {w₁ : World C} (h : Remains I S K' G w₁ ds r w')
    (hK : ∀ ds r w', K'.Comes I (insides G ++ S) w₁ ds r w' →
      K.Comes I (insides G ++ S) w (before ++ ds) r w') :
    Remains I S K G w (before ++ ds) r w' := by
  cases h with
  | mk h hG =>
    rw [← List.append_assoc]
    exact .mk (hK _ _ _ h) hG

theorem returns (h : Remains I S (.finish r₀) G w ds r w') : Returns I S G w r₀ ds r w' := by
  cases h with
  | mk h hG =>
    cases h
    exact hG

theorem comes (h : Remains I S K [] w ds r w') : K.Comes I S w ds r w' := by
  cases h with
  | mk h hG =>
    cases hG
    rwa [List.append_nil]

theorem of_returns (h : Returns I S G w r₀ ds r w') : Remains I S (.finish r₀) G w ds r w' :=
  .mk .finish h

theorem enter {c : ContainerId} {x : Target} (hc : Stack.cycle? (insides G ++ S) c x = none)
    (h : Remains I S K (.inside c x :: G) w ds r w') : Remains I S (.enter c x K) G w ds r w' := by
  cases h with
  | mk h hG =>
    cases hG with
    | inside hG => exact .mk (.enter hc h) hG

theorem claim {s : Site C} (h : Remains I S (.recheck s) (.owns s :: G) w ds r w') :
    Remains I S (.claim s) G w ds r w' := by
  cases h with
  | mk h hG =>
    cases hG with
    | owns hG => exact .mk (.claim h) hG

theorem recheck {s : Site C} (hi : w.cached s.entry = none)
    (h : Remains I S (.run (build s.container s.name s.registration ∅)) (.keeps s :: G) w ds r w') :
    Remains I S (.recheck s) G w ds r w' := by
  cases h with
  | mk h hG =>
    cases h with
    | run h =>
      cases hG with
      | keeps hk hG => exact .mk (.recheck hi h hk) hG

theorem resolve {g : Goal} {f : Except Error Instance → Program C Instance}
    (h : Remains I S g.control (.caller f :: G) w ds r w') :
    Remains I S (.run (.resolve g f)) G w (.ask g :: ds) r w' := by
  cases h with
  | mk h hG =>
    have hg := h.responds
    cases hG with
    | answer hn hG =>
      have hrun : Control.Comes I (.run (.resolve g f)) (insides G ++ S) w _ _ _ :=
        .run (.resolve hg hn)
      rw [← List.append_assoc]
      exact (Remains.mk hrun hG :)
    | passBy hG =>
      have hrun : Control.Comes I (.run (.resolve g f)) (insides G ++ S) w _ _ _ :=
        .run (.resolve_crash hg)
      exact (Remains.mk hrun hG :)

theorem release {s : Site C} (h : Remains I S (.notify r₀) G w ds r w') :
    Remains I S (.finish r₀) (.owns s :: G) w ds r w' := by
  cases h with
  | mk h hG =>
    cases h
    exact .of_returns (.owns hG)

theorem answer {f : Except Error Instance → Program C Instance} {a : Except Error Instance}
    (h : Remains I S (.run (f a)) G w ds r w') :
    Remains I S (.finish (Except.mapError .error a)) (.caller f :: G) w ds r w' := by
  cases h with
  | mk h hG =>
    cases h with
    | run h => exact .of_returns (.answer h hG)

end Remains

theorem Machine.Move.remains {m : Machine C} {th th' : Thread C} {w₁ : World C}
    {fresh : List (Thread C)} {B F F' : List (Frame C)}
    {next next' : Except Error Instance → Program C C.Report} (hm : Move I m 0 th w₁ th' fresh)
    (hl : m.threads = [th]) (hc : m.Consistent) (hfresh : fresh = [])
    (ha : th.activity = .resolving K F next) (hF : F = G ++ B) (hn : G = [] → ∀ r, K ≠ .finish r)
    (ha' : th'.activity = .resolving K' F' next') (hF' : F' = G' ++ B)
    (h : Remains I (insides B) K' G' w₁.settled ds r w') :
    Remains I (insides B) K G m.world.settled (th.activity.deed?.toList ++ ds) r w' := by
  have hth : m.threads[0]? = some th := by rw [hl]; rfl
  have hstack : th.stack = insides G ++ insides B := by
    have ho := hc.orderly hth
    rw [ha, hF] at ho
    rw [ho.stack_eq, insides, List.filterMap_append]
    rfl
  -- Most steps leave the frames as they are.
  have hstill : F' = F → (∀ ds r w', K'.Comes I (insides G ++ insides B) w₁.settled ds r w' →
      K.Comes I (insides G ++ insides B) m.world.settled (th.activity.deed?.toList ++ ds) r w') →
      Remains I (insides B) K G m.world.settled (th.activity.deed?.toList ++ ds) r w' := by
    intro hf hK
    obtain rfl : G' = G := List.append_cancel_right (hF'.symm.trans (hf.trans hF))
    exact h.goes_on hK
  have hpush : ∀ {f : Frame C}, F' = f :: F → G' = f :: G := by
    rintro f rfl
    exact List.append_cancel_right (hF'.symm.trans (congrArg (f :: ·) hF))
  have hpop : ∀ {f : Frame C} {r}, K = .finish r → F = f :: F' → G = f :: G' := by
    rintro f r hK rfl
    cases G with
    | nil => exact absurd hK (hn rfl r)
    | cons g G =>
      obtain ⟨rfl, he⟩ := List.cons.inj hF
      rw [List.append_cancel_right (he.symm.trans hF')]
  rw [ha] at hstill ⊢
  cases hm with
  | findMissing h' he =>
    cases ha.symm.trans h'; cases ha'
    exact hstill rfl fun _ _ _ hf => by cases hf; exact .missing he
  | findShared h' he hs =>
    cases ha.symm.trans h'; cases ha'
    exact hstill rfl fun _ _ _ => .shared he hs
  | findOther h' he hs =>
    cases ha.symm.trans h'; cases ha'
    exact hstill rfl fun _ _ _ => .other he hs
  | peekHit h' hi =>
    cases ha.symm.trans h'; cases ha'
    exact hstill rfl fun _ _ _ hf => by cases hf; exact .hit hi
  | peekMiss h' hi =>
    cases ha.symm.trans h'; cases ha'
    exact hstill rfl fun _ _ _ => .miss hi
  | enterAgain h' hcycle =>
    cases ha.symm.trans h'; cases ha'
    rw [hstack] at hcycle
    exact hstill rfl fun _ _ _ hf => by cases hf; exact .again hcycle
  | enterNew h' hcycle =>
    cases ha.symm.trans h'; cases ha'
    rw [hstack] at hcycle
    obtain rfl := hpush rfl
    exact h.enter hcycle
  | attemptHit h' hi =>
    cases ha.symm.trans h'; cases ha'
    exact hstill rfl fun _ _ _ hf => by cases hf; exact .attemptHit hi
  | attemptMiss h' hi =>
    cases ha.symm.trans h'; cases ha'
    exact hstill rfl fun _ _ _ => .attempt hi
  | claimFree h' ho =>
    cases ha.symm.trans h'; cases ha'
    obtain rfl := hpush rfl
    exact h.claim
  | claimCycle h' ho _ =>
    have hfree := hc.claim_free (by rw [hl]; rfl) ((activity_eq hth).trans h')
    cases hfree.symm.trans ho
  | claimWait h' ho _ =>
    have hfree := hc.claim_free (by rw [hl]; rfl) ((activity_eq hth).trans h')
    cases hfree.symm.trans ho
  | wokenAgain h' ho =>
    cases ha.symm.trans h'; cases ha'
    exact hstill rfl nofun
  | wokenFree h' ho =>
    cases ha.symm.trans h'; cases ha'
    exact hstill rfl fun _ _ _ => .woken
  | recheckHit h' hi =>
    cases ha.symm.trans h'; cases ha'
    exact hstill rfl fun _ _ _ hf => by cases hf; exact .recheckHit hi
  | recheckMiss h' hi =>
    cases ha.symm.trans h'; cases ha'
    obtain rfl := hpush rfl
    exact h.recheck hi
  | @runEnded r₀ _ _ h' =>
    cases ha.symm.trans h'; cases ha'
    have hd : (Program.ended r₀ : Program C Instance).deed? = none := by
      obtain ((e | s) | i) := r₀ <;> rfl
    refine hstill rfl fun _ _ _ hf => ?_
    cases hf
    simp only [Activity.deed?, hd]
    exact .run (.ended r₀)
  | @runAct a _ _ _ _ _ h' hp =>
    cases ha.symm.trans h'; cases ha'
    have hacc := World.access_settled (I := I) a hl (by rw [h']; exact nofun)
    rw [hp, hstack] at hacc
    exact hstill rfl fun _ _ _ hf => by cases hf with | run hf => exact .run (.act hacc hfresh hf)
  | runCall h' =>
    cases ha.symm.trans h'; cases ha'
    exact hstill rfl fun _ _ _ hf => by cases hf with | run hf => exact .run (.call hf)
  | runResolve h' =>
    cases ha.symm.trans h'; cases ha'
    obtain rfl := hpush rfl
    exact h.resolve
  | keepFirst h' hi =>
    cases ha.symm.trans h'; cases ha'
    obtain rfl := hpop rfl rfl
    have hi : m.world.settled.cached _ = none := hi
    exact .of_returns (.keeps (by rw [World.keep, hi]; rfl) h.returns)
  | keepOther h' hi =>
    cases ha.symm.trans h'; cases ha'
    obtain rfl := hpop rfl rfl
    have hi : m.world.settled.cached _ = some _ := hi
    exact .of_returns (.keeps (by rw [World.keep, hi]) h.returns)
  | keepNothing h' =>
    cases ha.symm.trans h'; cases ha'
    obtain rfl := hpop rfl rfl
    exact .of_returns (.keeps rfl h.returns)
  | release h' =>
    cases ha.symm.trans h'; cases ha'
    obtain rfl := hpop rfl rfl
    exact h.release
  | leave h' =>
    cases ha.symm.trans h'; cases ha'
    obtain rfl := hpop rfl rfl
    exact .of_returns (.inside h.returns)
  | answer h' =>
    obtain ⟨rfl, rfl, rfl⟩ := Activity.resolving.inj (ha.symm.trans h')
    cases ha'
    obtain rfl := hpop rfl rfl
    exact h.answer
  | passBy h' =>
    cases ha.symm.trans h'; cases ha'
    obtain rfl := hpop rfl rfl
    exact .of_returns (.passBy h.returns)
  | ownAnswer h' => cases ha'
  | ownCrash h' => cases ha'
  | _ => cases ha.symm.trans ‹th.activity = _›

end

theorem Machine.Stepped.settled {I : Implementation C} {m m' : Machine C} {t : ThreadId}
    {th : Thread C} (h : Stepped I m t th m')
    (hact : ∀ (L : Scope C) a rest, th.activity ≠ L.runs (.act a rest))
    (hres : ∀ K F next, th.activity = .resolving K F next →
      (∀ s, K ≠ .claim s) ∧ ∀ s F', F ≠ .keeps s :: F' ∨ ∀ r, K ≠ .finish r) :
    m'.world.settled = m.world.settled := by
  cases h with
  | notify hn => rfl
  | move hm =>
    cases hm with
    | ownAct h' _ => exact absurd h' (hact .own _ _)
    | runAct h' _ => exact absurd h' (hact (.inside _ _) _ _)
    | claimWait h' _ _ => exact absurd rfl ((hres _ _ _ h').1 _)
    | keepFirst h' _ => exact ((hres _ _ _ h').2 _ _).elim (absurd rfl) fun hr => absurd rfl (hr _)
    | _ => rfl

theorem Scope.runs_ne_act (L : Scope C) {p : Program C L.Answer} (hp : ∀ a rest, p ≠ .act a rest)
    (L' : Scope C) (a : Action C) (rest : a.Reply → Program C L'.Answer) :
    L.runs p ≠ L'.runs (.act a rest) := by
  intro h
  cases L <;> cases L' <;> cases h <;> exact hp a rest rfl

theorem Scope.runs_ne_idle (L : Scope C) (p : Program C L.Answer) : L.runs p ≠ .idle := by
  intro h
  cases L <;> cases h

theorem Scope.Receives.not_awaits {L : Scope C} {r : Except Failure Instance} {A : Activity C}
    {rest : Except Error Instance → Program C L.Answer} (h : L.Receives rest r A) :
    ¬ L.Awaits rest A := by
  rintro ⟨K, G, rfl, hG⟩
  cases L with
  | own => obtain ((e | s) | i) := r <;> cases h
  | inside F next =>
    have hlt := hG.length_le
    obtain ((e | s) | i) := r <;> cases h <;> simp [callers] at hlt

namespace Run

variable {I : Implementation C} (σ : Run I) (t : ThreadId)

def deeds (n l : ℕ) : List (Deed C) :=
  (List.range' n (l - n)).filterMap fun k =>
    if σ.mover k = some t then ((σ.state k).activity t).deed? else none

variable {σ t} {L : Scope C} {n k l m : ℕ}

@[simp] theorem deeds_self (n : ℕ) : σ.deeds t n n = [] := by simp [deeds]

theorem deeds_append (hk : n ≤ k) (hl : k ≤ l) :
    σ.deeds t n k ++ σ.deeds t k l = σ.deeds t n l := by
  have hrange : List.range' n (l - n) = List.range' n (k - n) ++ List.range' k (l - k) := by
    obtain ⟨a, rfl⟩ := Nat.exists_eq_add_of_le hk
    obtain ⟨b, rfl⟩ := Nat.exists_eq_add_of_le hl
    rw [Nat.add_sub_cancel_left, Nat.add_sub_cancel_left, Nat.add_assoc n a b,
      Nat.add_sub_cancel_left, ← List.range'_append_1]
  rw [deeds, deeds, deeds, hrange, List.filterMap_append]

theorem deeds_succ (n : ℕ) : σ.deeds t n (n + 1) =
    (if σ.mover n = some t then ((σ.state n).activity t).deed? else none).toList := by
  rw [deeds, Nat.add_sub_cancel_left]
  cases h : (if σ.mover n = some t then ((σ.state n).activity t).deed? else none) <;>
    simp [List.range', h]

theorem deeds_moved (hm : σ.mover n = some t) (hl : n < l) :
    σ.deeds t n l = ((σ.state n).activity t).deed?.toList ++ σ.deeds t (n + 1) l := by
  rw [← deeds_append (Nat.le_succ n) hl, deeds_succ, if_pos hm]

theorem deeds_rested (hm : σ.mover n ≠ some t) (hl : n < l) :
    σ.deeds t n l = σ.deeds t (n + 1) l := by
  rw [← deeds_append (Nat.le_succ n) hl, deeds_succ, if_neg hm]
  rfl

theorem threads_le (hk : n ≤ k) : (σ.state n).threads.length ≤ (σ.state k).threads.length := by
  apply σ.lasts (P := fun m => (σ.state n).threads.length ≤ m.threads.length) ?_ (Nat.le_refl _) hk
  intro m m' u _ h hs
  obtain ⟨th, -, hst⟩ := Machine.step_cases hs
  apply h.trans
  cases hst <;> simp

theorem mover_lt {u : ThreadId} (h : σ.mover n = some u) : u < (σ.state n).threads.length := by
  obtain ⟨th, hth, -⟩ := Machine.step_cases (σ.moves n u h)
  exact (List.getElem?_eq_some_iff.1 hth).1

theorem single_at {u : ThreadId} (hone : (σ.state l).threads.length = 1) (hn : n ≤ l)
    (hm : σ.mover n = some u) : u = 0 ∧ (σ.state n).threads.length = 1 := by
  have hlt := mover_lt hm
  have hle : (σ.state n).threads.length ≤ 1 := hone ▸ threads_le hn
  have hzero := Nat.lt_one_iff.1 (Nat.lt_of_lt_of_le hlt hle)
  exact ⟨hzero, Nat.le_antisymm hle (Nat.lt_of_le_of_lt (Nat.zero_le u) hlt)⟩

theorem insides_eq_stack {p : Program C L.Answer} (ha : (σ.state n).activity t = L.runs p) :
    (σ.state n).stack t = insides L.frames :=
  ((σ.reachable n).consistent.of_runs ha).1

theorem access_settled {a : Action C} {next : a.Reply → Program C L.Answer} {th : Thread C}
    (hth : (σ.state n).threads = [th]) (ha : (σ.state n).activity 0 = L.runs (.act a next)) :
    (σ.state n).world.settled.access I (insides L.frames) a =
      ((σ.state n).perform I 0 th a).map fun (r, m) => (r, m.world.settled) := by
  have ht : (σ.state n).threads[0]? = some th := by rw [hth]; rfl
  have hstack : th.stack = insides L.frames := by
    rw [← insides_eq_stack ha, Machine.stack, ht]
    rfl
  rw [← hstack]
  refine World.access_settled a hth ?_
  rw [← Machine.activity_eq ht, ha]
  exact L.runs_ne_idle _

theorem settled_runs {p : Program C L.Answer} (hm : σ.mover n = some t)
    (ha : (σ.state n).activity t = L.runs p) (hp : ∀ a rest, p ≠ .act a rest) :
    (σ.state (n + 1)).world.settled = (σ.state n).world.settled := by
  obtain ⟨th, ht, hst⟩ := Machine.step_cases (σ.moves n t hm)
  rw [Machine.activity_eq ht] at ha
  apply hst.settled
  · intro L' a rest h
    exact L.runs_ne_act hp L' a rest (ha.symm.trans h)
  · intro K F next h
    cases L <;> cases ha.symm.trans h
    exact ⟨nofun, fun _ _ => .inr nofun⟩

theorem Requests.settled {g : Goal} {next : Except Error Instance → Program C L.Answer}
    {r : Except Failure Instance} (h : σ.Requests t L g next k r l) :
    (σ.state (l + 1)).world.settled = (σ.state l).world.settled := by
  obtain ⟨th, ht, hst⟩ := Machine.step_cases (σ.moves l t h.takes)
  have ha := (Machine.activity_eq ht).symm.trans h.finishes
  apply hst.settled
  · intro L' a rest h'
    cases L' <;> cases ha.symm.trans h'
  · intro K F next h'
    cases ha.symm.trans h'
    refine ⟨nofun, fun s F' => .inl ?_⟩
    cases L <;> exact nofun

theorem Requests.remains_before {g : Goal} {next : Except Error Instance → Program C L.Answer}
    {r : Except Failure Instance} {w : World C} {ds : List (Deed C)}
    (h : σ.Requests 0 L g next k r l) (hone : (σ.state l).threads.length = 1) (hk : k < n)
    (hn : n < l) (hm : σ.mover n = some 0)
    (hnext : ∀ K G, (σ.state (n + 1)).activity 0 =
      .resolving K (G ++ L.callers next) (L.onward next) →
        Remains I (insides L.frames) K G (σ.state (n + 1)).world.settled ds r w)
    {K : Control C} {G : List (Frame C)}
    (ha : (σ.state n).activity 0 = .resolving K (G ++ L.callers next) (L.onward next)) :
    Remains I (insides L.frames) K G (σ.state n).world.settled
      (((σ.state n).activity 0).deed?.toList ++ ds) r w := by
  obtain ⟨-, hsingle⟩ := single_at hone (Nat.le_of_lt hn) hm
  obtain ⟨th, hl⟩ := List.length_eq_one_iff.1 hsingle
  obtain ⟨th', ht, hst⟩ := Machine.step_cases (σ.moves n 0 hm)
  rw [hl] at ht
  cases ht
  have hth : (σ.state n).threads[0]? = some th := by rw [hl]; rfl
  have hact := Machine.activity_eq hth
  obtain ⟨K', F', ha', G', rfl⟩ := h.awaits (n + 1) (Nat.lt_succ_of_lt hk) hn
  have hsingle' : (σ.state (n + 1)).threads.length = 1 := by
    have hbefore := threads_le (σ := σ) (Nat.le_succ n)
    have hafter : (σ.state (n + 1)).threads.length ≤ _ := threads_le hn
    rw [hsingle] at hbefore
    rw [hone] at hafter
    exact Nat.le_antisymm hafter hbefore
  have hrem := hnext K' G' ha'
  generalize σ.state (n + 1) = m' at hst ha' hsingle' hrem
  rw [hact]
  cases hst with
  | @move w₁ th' fresh hmv =>
    have hfresh : fresh = [] := by simpa [hl] using hsingle'
    have hact' :
        Machine.activity ⟨w₁, (σ.state n).threads.set 0 th' ++ fresh⟩ 0 = th'.activity := by
      rw [hl]
      rfl
    rw [← insides_callers L next] at hrem ⊢
    refine hmv.remains hl (σ.reachable n).consistent hfresh (hact.symm.trans ha) rfl ?_
      (hact'.symm.trans ha') rfl hrem
    -- The end of the request is taken up no earlier than at its last moment.
    rintro rfl r' rfl
    have hreceives : L.Receives next r' th'.activity := hmv.finish_next (hact.symm.trans ha)
    rw [← hact', ha'] at hreceives
    exact absurd ⟨K', _, rfl, List.suffix_append G' _⟩ hreceives.not_awaits
  | @notify r' F _ hn =>
    obtain ⟨rfl, rfl, rfl⟩ := Activity.resolving.inj ((hact.symm.trans ha).symm.trans hn)
    have hact' : Machine.activity ⟨(σ.state n).world, ((σ.state n).threads.map Thread.wake).set 0
        (th.goes (.finish r') (G ++ L.callers next) (L.onward next))⟩ 0 =
          .resolving (.finish r') (G ++ L.callers next) (L.onward next) := by
      rw [hl]
      rfl
    obtain ⟨rfl, hG, -⟩ := Activity.resolving.inj (hact'.symm.trans ha')
    obtain rfl := List.append_cancel_right hG
    rw [hn]
    exact hrem.goes_on fun _ _ _ hf => by cases hf; exact .notify

theorem Requests.responds {g : Goal} {next : Except Error Instance → Program C L.Answer}
    {r : Except Failure Instance} (h : σ.Requests 0 L g next k r l)
    (hone : (σ.state l).threads.length = 1) :
    Responds I ((σ.state k).stack 0) (σ.state k).world.settled g (σ.deeds 0 (k + 1) l) r
      (σ.state l).world.settled := by
  have hall : ∀ d n, n + d = l → k < n → ∀ K G, (σ.state n).activity 0 =
      .resolving K (G ++ L.callers next) (L.onward next) →
        Remains I (insides L.frames) K G (σ.state n).world.settled (σ.deeds 0 n l) r
          (σ.state l).world.settled := by
    intro d
    induction d with
    | zero =>
      intro n hnl hk K G ha
      obtain rfl : n = l := hnl
      obtain ⟨rfl, hG, -⟩ := Activity.resolving.inj (ha.symm.trans h.finishes)
      obtain rfl : G = [] := List.append_left_eq_self.1 hG
      rw [deeds_self]
      exact .of_returns .base
    | succ d ih =>
      intro n hnl hk K G ha
      have hn : n < l := by omega
      have hnext := ih (n + 1) (by omega) (Nat.lt_succ_of_lt hk)
      cases hm : σ.mover n with
      | none =>
        rw [deeds_rested (by rw [hm]; exact nofun) hn, ← σ.idles n hm]
        rw [← σ.idles n hm] at ha
        exact hnext K G ha
      | some u =>
        obtain ⟨rfl, -⟩ := single_at hone (Nat.le_of_lt hn) hm
        rw [deeds_moved hm hn]
        exact h.remains_before hone hk hn hm hnext ha
  obtain ⟨-, hsingle⟩ := single_at hone (Nat.le_of_lt h.lt) h.moves
  obtain ⟨th, ht, hst⟩ := Machine.step_cases (σ.moves k 0 h.moves)
  have hasks := (hst.runs_next ht h.makes : (σ.state (k + 1)).activity 0 = L.asks g next)
  have hworld := settled_runs h.moves h.makes nofun
  have hrem := hall (l - (k + 1)) (k + 1) (Nat.add_sub_of_le h.lt) (Nat.lt_succ_self k) g.control []
    hasks
  rw [hworld] at hrem
  rw [insides_eq_stack h.makes]
  exact hrem.comes.responds

/-- From moment `n` to moment `l` thread `t` has run the code `p` up to this end, and on the way has
done these deeds; `rest` is what it does with an answer. -/
inductive Completes (σ : Run I) (t : ThreadId) (L : Scope C) (rest : α → Program C L.Answer) :
    Program C α → ℕ → List (Deed C) → Except Failure α → ℕ → Prop
  | ended {r n} (ha : (σ.state n).activity t = L.runs ((Program.ended r).bind rest)) :
      Completes σ t L rest (.ended r) n [] r n
  | waits {p n ds r l} (hm : σ.mover n ≠ some t)
      (ha : (σ.state n).activity t = L.runs (p.bind rest))
      (h : Completes σ t L rest p (n + 1) ds r l) : Completes σ t L rest p n ds r l
  | act {a next n th reply m ds r l} (hm : σ.mover n = some t)
      (ha : (σ.state n).activity t = L.runs ((Program.act a next).bind rest))
      (ht : (σ.state n).threads[t]? = some th)
      (hp : (σ.state n).perform I t th a = some (reply, m))
      (h : Completes σ t L rest (next reply) (n + 1) ds r l) :
      Completes σ t L rest (.act a next) n (.access a :: ds) r l
  | call {k next n ds r l} (hm : σ.mover n = some t)
      (ha : (σ.state n).activity t = L.runs ((Program.call k next).bind rest))
      (h : Completes σ t L rest ((I.answer k).attempt.bind next) (n + 1) ds r l) :
      Completes σ t L rest (.call k next) n (.call k :: ds) r l
  | answered {g next n a k ds r l}
      (hr : σ.Requests t L g (fun a => (next a).bind rest) n (Except.mapError .error a) k)
      (h : Completes σ t L rest (next a) (k + 1) ds r l) :
      Completes σ t L rest (.resolve g next) n (.ask g :: (σ.deeds t (n + 1) k ++ ds)) r l
  | crashed {g next n s l}
      (hr : σ.Requests t L g (fun a => (next a).bind rest) n (.error (.crash s)) l) :
      Completes σ t L rest (.resolve g next) n (.ask g :: σ.deeds t (n + 1) l)
        (.error (.crash s)) (l + 1)

variable {rest : α → Program C L.Answer} {p : Program C α} {ds : List (Deed C)}
  {r : Except Failure α}

namespace Completes

theorem le (h : σ.Completes t L rest p n ds r l) : n ≤ l := by
  induction h with
  | ended => exact Nat.le_refl _
  | waits _ _ _ ih => exact Nat.le_of_succ_le ih
  | act _ _ _ _ _ ih => exact Nat.le_of_succ_le ih
  | call _ _ _ ih => exact Nat.le_of_succ_le ih
  | answered hr _ ih => exact (Nat.le_of_lt (Nat.lt_succ_of_lt hr.lt)).trans ih
  | crashed hr => exact Nat.le_of_lt (Nat.lt_succ_of_lt hr.lt)

theorem activity (h : σ.Completes t L rest p n ds r l) :
    (σ.state n).activity t = L.runs (p.bind rest) := by
  cases h with
  | ended ha => exact ha
  | waits _ ha => exact ha
  | act _ ha => exact ha
  | call _ ha => exact ha
  | answered hr => exact hr.makes
  | crashed hr => exact hr.makes

theorem deeds_eq (h : σ.Completes t L rest p n ds r l) : σ.deeds t n l = ds := by
  induction h with
  | ended => exact deeds_self _
  | waits hm _ h ih => rw [deeds_rested hm h.le, ih]
  | act hm ha _ _ h ih =>
    rw [deeds_moved hm h.le, ih, ha, L.deed?_runs]
    rfl
  | call hm ha h ih =>
    rw [deeds_moved hm h.le, ih, ha, L.deed?_runs]
    rfl
  | @answered g next n a k ds r l hr h ih =>
    have hk : σ.deeds t k (k + 1) = [] := by
      rw [deeds_succ, if_pos hr.takes, hr.finishes]
      rfl
    have hn := hr.lt
    have hl := h.le
    rw [deeds_moved hr.moves (Nat.lt_of_lt_of_le (Nat.lt_succ_of_lt hn) hl), hr.makes, L.deed?_runs,
      ← deeds_append hn (Nat.le_of_succ_le hl), ← deeds_append (Nat.le_succ k) hl, hk, ih]
    rfl
  | @crashed g next n s l hr =>
    have hl : σ.deeds t l (l + 1) = [] := by
      rw [deeds_succ, if_pos hr.takes, hr.finishes]
      rfl
    rw [deeds_moved hr.moves (Nat.lt_succ_of_lt hr.lt), hr.makes, L.deed?_runs,
      ← deeds_append hr.lt (Nat.le_succ l), hl, List.append_nil]
    rfl

theorem evaluates (h : σ.Completes 0 L rest p n ds r l)
    (hone : (σ.state l).threads.length = 1) :
    Evaluates I (insides L.frames) (σ.state n).world.settled p ds r
      (σ.state l).world.settled := by
  induction h with
  | ended => exact .ended _
  | @waits p n ds r l hm ha h ih =>
    have hs : σ.state (n + 1) = σ.state n := by
      apply σ.idles n
      cases hu : σ.mover n with
      | none => rfl
      | some u =>
        obtain ⟨rfl, -⟩ := single_at hone (Nat.le_of_succ_le h.le) hu
        exact absurd hu hm
    rw [← hs]
    exact ih hone
  | @act a next n th reply m ds r l hm ha ht hp h ih =>
    obtain ⟨-, hsingle⟩ := single_at hone (Nat.le_of_succ_le h.le) hm
    obtain ⟨th', hl⟩ := List.length_eq_one_iff.1 hsingle
    obtain rfl : th' = th := by
      rw [hl] at ht
      exact Option.some.inj ht
    obtain ⟨th₀, ht₀, hst⟩ := Machine.step_cases (σ.moves n 0 hm)
    cases ht.symm.trans ht₀
    obtain ⟨reply', m', hp', hw, -, hlen⟩ := hst.acts ht ha
    cases hp.symm.trans hp'
    have hacc := access_settled hl ha
    rw [hp] at hacc
    have hbrings : a.brings I = [] := by
      have hle := threads_le (σ := σ) h.le
      rw [hone, hlen, hsingle] at hle
      exact List.length_eq_zero_iff.1 (by omega)
    rw [hw] at ih
    exact .act hacc hbrings (ih hone)
  | @call k next n ds r l hm ha h ih =>
    rw [settled_runs hm ha nofun] at ih
    exact .call (ih hone)
  | @answered g next n a k ds r l hr h ih =>
    have hk : (σ.state k).threads.length = 1 :=
      (single_at hone (Nat.le_of_succ_le h.le) hr.takes).2
    rw [hr.settled] at ih
    have hg := hr.responds hk
    rw [insides_eq_stack hr.makes] at hg
    exact .resolve hg (ih hone)
  | @crashed g next n s l hr =>
    have hl : (σ.state l).threads.length = 1 := (single_at hone (Nat.le_succ l) hr.takes).2
    have hg := hr.responds hl
    rw [insides_eq_stack hr.makes] at hg
    rw [hr.settled]
    exact .resolve_crash hg

end Completes

end Run

end Wiring
