import Wiring.Proofs.Avoidance
import Wiring.Proofs.RunLog

namespace Wiring

variable {C : Client} {α β : Type}

def Event.Decides : Event → Prop
  | cacheHit _ | building _ | circular _ => True
  | _ => False

namespace Program

def told : Program C α → List Event
  | .act a _ => a.told
  | _ => []

end Program

def Due.Decides : Due → Prop
  | build _ => True
  | event e => e.Decides
  | _ => False

theorem Event.Announces.not_decides {e : Event} (h : e.Announces) : ¬ e.Decides := by
  cases e with
  | cacheHit | building | circular => exact h.elim
  | _ => exact id

theorem Action.Settles.told {a : Action C} {due : Due} (h : a.Settles due)
    (hd : ¬ due.Decides) : ∀ e ∈ a.told, ¬ e.Decides := by
  intro e he
  cases a with
  | emit e' =>
    cases List.mem_singleton.1 he
    cases due with
    | nothing => exact Event.Announces.not_decides h
    | build name => exact absurd trivial hd
    | registration =>
      obtain ⟨c, r, ⟨⟩, -⟩ := h
    | event e'' =>
      cases h
      exact hd
  | _ => cases he

theorem Action.due_not_decides (a : Action C) (r : a.Reply) : ¬ (a.due r).Decides := by
  cases a with
  | insert c name reg =>
    change Bool at r
    cases r <;> exact id
  | erase c name =>
    change Bool at r
    cases r <;> exact id
  | emit e => cases e <;> exact id
  | _ => exact id

def Program.Undeciding (p : Program C α) : Prop :=
  ∃ due : Due, p.Obeys .announcing (fun _ => True) due ∧ ¬ due.Decides

namespace Program

theorem Announces.undeciding {p : Program C α} (h : p.Announces) : p.Undeciding := ⟨_, h, id⟩

theorem Undeciding.told {p : Program C α} (h : p.Undeciding) : ∀ e ∈ p.told, ¬ e.Decides := by
  obtain ⟨due, h, hd⟩ := h
  cases p with
  | act a next => exact Action.Settles.told h.of_act.1 hd
  | _ => nofun

end Program

def Plain (G : List (Frame C)) : Prop := ∀ next, .caller next ∉ G

theorem Plain.nil : Plain ([] : List (Frame C)) := fun _ => List.not_mem_nil

theorem Plain.cons {f : Frame C} {G : List (Frame C)} (hf : ∀ next, f ≠ .caller next)
    (h : Plain G) : Plain (f :: G) := by
  intro next hn
  obtain he | hn := List.mem_cons.1 hn
  · exact hf next he.symm
  · exact h next hn

theorem Plain.of_cons {f : Frame C} {G : List (Frame C)} (h : Plain (f :: G)) :
    (∀ next, f ≠ .caller next) ∧ Plain G := by
  constructor
  · rintro next rfl
    exact h next List.mem_cons_self
  · intro next hn
    exact h next (List.mem_cons_of_mem f hn)

section

variable (s : Site C)

theorem plain_inside (c : ContainerId) (x : Target) : Plain ([.inside c x] : List (Frame C)) :=
  .cons (by rintro next ⟨⟩) .nil

theorem plain_owns : Plain [.owns s, .inside s.container (.service s.name)] :=
  .cons (by rintro next ⟨⟩) (plain_inside _ _)

theorem plain_keeps : Plain [.keeps s, .owns s, .inside s.container (.service s.name)] :=
  .cons (by rintro next ⟨⟩) (plain_owns s)

end

inductive Approach (s : Site C) (kept : Option Instance) (S : Stack) :
    Control C → List (Frame C) → Prop
  | find : Approach s kept S (.find s.container s.name ∅) []
  | peek (hs : s.registration.shared = true) : Approach s kept S (.peek s) []
  | enter {K} (hx : s.registration.shared = false ∨ kept = none)
      (hK : (K = .attempt s ∧ kept = none) ∨
        K = .run (build s.container s.name s.registration ∅)) :
      Approach s kept S (.enter s.container (.service s.name) K) []
  | attempt (hi : kept = none) (hS : (s.container, .service s.name) ∉ S) :
      Approach s kept S (.attempt s) [.inside s.container (.service s.name)]
  | claim (hi : kept = none) (hS : (s.container, .service s.name) ∉ S) :
      Approach s kept S (.claim s) [.inside s.container (.service s.name)]
  | recheck (hi : kept = none) (hS : (s.container, .service s.name) ∉ S) :
      Approach s kept S (.recheck s) [.owns s, .inside s.container (.service s.name)]
  | starts {G} (hx : s.registration.shared = false ∨ kept = none)
      (hS : (s.container, .service s.name) ∉ S) (hG : Plain G) :
      Approach s kept S (.run (build s.container s.name s.registration ∅)) G

inductive Working (B : List (Frame C)) (N : Except Error Instance → Program C C.Report) :
    Activity C → Prop
  | runs {p G} (hG : Plain G) (hp : p.Undeciding) : Working B N (.resolving (.run p) (G ++ B) N)
  | notify {r G} (hG : Plain G) : Working B N (.resolving (.notify r) (G ++ B) N)
  | finish {r G} (hG : Plain G) : Working B N (.resolving (.finish r) (G ++ B) N)
  | awaits {f : Except Error Instance → Program C Instance} {G A} (hG : Plain G)
      (hf : ∀ reply, (f reply).Announces) (h : (Scope.inside (G ++ B) N).Awaits f A) : Working B N A

theorem Approach.plain {s : Site C} {kept : Option Instance} {S : Stack} {K : Control C}
    {G : List (Frame C)} (h : Approach s kept S K G) : Plain G := by
  cases h with
  | find | peek | enter => exact .nil
  | attempt | claim => exact plain_inside _ _
  | recheck => exact plain_owns s
  | starts _ _ hG => exact hG

theorem Approach.not_finish {s : Site C} {kept : Option Instance} {S : Stack} {K : Control C}
    {G : List (Frame C)} (h : Approach s kept S K G) (r : Except Failure Instance) :
    K ≠ .finish r := by
  rintro rfl
  cases h

/-- The step that decides a get, with the one event that it tells: what is kept is handed out, or
the get comes back to a service that is being resolved, or a build begins. -/
inductive Decision (s : Site C) (kept : Option Instance) (S : Stack) (B : List (Frame C))
    (N : Except Error Instance → Program C C.Report) : Event → Activity C → Activity C → Prop
  | hit {A i} (hs : s.registration.shared = true) (hi : kept = some i) :
      Decision s kept S B N (.cacheHit s.name) A (.resolving (.finish (.ok i)) B N)
  | refused {A chain} (hx : s.registration.shared = false ∨ kept = none)
      (hS : (s.container, .service s.name) ∈ S) (hc : chain.getLast? = some s.name) :
      Decision s kept S B N (.circular chain) A
        (.resolving (.finish (.error (.error (.circularDependency chain)))) B N)
  | built {A G} (hx : s.registration.shared = false ∨ kept = none)
      (hS : (s.container, .service s.name) ∉ S) (hG : Plain G) :
      Decision s kept S B N (.building s.name)
        (.resolving (.run (build s.container s.name s.registration ∅)) (G ++ B) N) A

namespace Machine

variable {I : Implementation C} {m : Machine C} {t : ThreadId} {th th' : Thread C}
  {w : World C} {fresh : List (Thread C)} {K : Control C} {G B : List (Frame C)}
  {N : Except Error Instance → Program C C.Report} {s : Site C} {kept : Option Instance}
  {S : Stack} {x : Entry C} {L : Scope C} {f : Frame C} {r : Except Failure Instance}

theorem Move.log_runs {p : Program C L.Answer} (hm : Move I m t th w th' fresh)
    (h : th.activity = L.runs p) : th'.log = th.log ++ p.told := by
  have hended {α : Type} (r : Except Failure α) :
      th.log = th.log ++ (Program.ended r : Program C α).told := by
    obtain ((e | s) | a) := r <;> exact (List.append_nil _).symm
  cases L with
  | own =>
    cases hm with
    | @ownEnded r h' =>
      cases h.symm.trans h'
      exact (th.log_conclude _).trans (hended r)
    | @ownAct a rest r m₁ h' ha => cases h.symm.trans h'; exact a.log_mark th
    | ownCall h' => cases h.symm.trans h'; exact (List.append_nil _).symm
    | ownResolve h' => cases h.symm.trans h'; exact (List.append_nil _).symm
    | _ => cases h.symm.trans ‹th.activity = _›
  | inside F next =>
    cases hm with
    | @runEnded r F next h' => cases h.symm.trans h'; exact hended r
    | @runAct a rest r m₁ F next h' ha => cases h.symm.trans h'; exact a.log_mark th
    | runCall h' => cases h.symm.trans h'; exact (List.append_nil _).symm
    | runResolve h' => cases h.symm.trans h'; exact (List.append_nil _).symm
    | _ => cases h.symm.trans ‹th.activity = _›

theorem Move.unwinds {F : List (Frame C)} (hm : Move I m t th w th' fresh)
    (h : th.activity = .resolving (.finish r) (f :: F) N) (hf : ∀ next, f ≠ .caller next) :
    th'.activity = .resolving (.notify r) F N ∨
      ∃ r', th'.activity = .resolving (.finish r') F N := by
  cases hm with
  | keepFirst h' hi => cases h.symm.trans h'; exact .inr ⟨_, rfl⟩
  | keepOther h' hi => cases h.symm.trans h'; exact .inr ⟨_, rfl⟩
  | keepNothing h' => cases h.symm.trans h'; exact .inr ⟨_, rfl⟩
  | release h' => cases h.symm.trans h'; exact .inl rfl
  | leave h' => cases h.symm.trans h'; exact .inr ⟨_, rfl⟩
  | answer h' => cases h.symm.trans h'; exact absurd rfl (hf _)
  | passBy h' => cases h.symm.trans h'; exact absurd rfl (hf _)
  | _ => cases h.symm.trans ‹th.activity = _›

theorem Move.log_finish {F : List (Frame C)} (hm : Move I m t th w th' fresh)
    (h : th.activity = .resolving (.finish r) F N) : th'.log = th.log := by
  cases hm with
  | ownCrash h' => exact th.log_conclude _
  | keepFirst | keepOther | keepNothing | release | leave | answer | passBy | ownAnswer => rfl
  | _ => cases h.symm.trans ‹th.activity = _›

theorem Move.opens (hm : Move I m t th w th' fresh)
    (h : th.activity = .resolving K (G ++ B) N) (ho : Approach s kept S K G)
    (hx : m.world.entry? s.container s.name = some (s.entry, x))
    (hr : x.registration = s.registration) (hkept : x.cache = kept)
    (hS : th.stack = insides G ++ S)
    (hfree : ∀ F, th.activity = .resolving (.claim s) F N →
      m.world.builds.owners.get? s.key = none) :
    (∃ K' G', th'.activity = .resolving K' (G' ++ B) N ∧ Approach s kept S K' G' ∧
      th'.log = th.log ∧ w.settled = m.world.settled) ∨
    ∃ e, Decision s kept S B N e th.activity th'.activity ∧ Working B N th'.activity ∧
      th'.log = th.log ++ [e] := by
  have hcached : m.world.cached s.entry = kept := by
    obtain ⟨-, hx⟩ := World.entry?_eq_some.1 hx
    rw [World.cached, hx, Option.bind_some, hkept]
  cases ho with
  | find =>
    cases hm with
    | findMissing h' he => cases h.symm.trans h'; cases hx.symm.trans he
    | findShared h' he hs =>
      cases h.symm.trans h'
      cases hx.symm.trans he
      rw [hr] at hs ⊢
      exact .inl ⟨_, [], rfl, .peek (Bool.and_eq_true_iff.1 hs).1, rfl, rfl⟩
    | findOther h' he hs =>
      cases h.symm.trans h'
      cases hx.symm.trans he
      have hempty : (∅ : Overrides).isEmpty = true := rfl
      rw [hr, hempty, Bool.and_true] at hs
      rw [hr]
      exact .inl ⟨_, [], rfl, .enter (.inl hs) (.inr rfl), rfl, rfl⟩
    | _ => cases h.symm.trans ‹th.activity = _›
  | peek hs =>
    cases hm with
    | peekHit h' hi =>
      cases h.symm.trans h'
      exact .inr ⟨_, .hit hs (hcached.symm.trans hi), .finish .nil, th.log_tell _⟩
    | peekMiss h' hi =>
      cases h.symm.trans h'
      have hnone := hcached.symm.trans hi
      exact .inl ⟨_, [], rfl, .enter (.inr hnone) (.inl ⟨rfl, hnone⟩), rfl, rfl⟩
    | _ => cases h.symm.trans ‹th.activity = _›
  | enter hunkept hK =>
    cases hm with
    | enterAgain h' hc =>
      cases h.symm.trans h'
      refine .inr ⟨_, .refused hunkept ?_ (Stack.cycle?_ends hc).2, .finish .nil, th.log_tell _⟩
      by_contra hout
      rw [hS, ← List.append_nil S] at hc
      cases (Stack.cycle?_eq_none.2 (by simpa [insides] using hout)).symm.trans hc
    | enterNew h' hc =>
      cases h.symm.trans h'
      rw [hS] at hc
      have hout := Stack.cycle?_eq_none.1 hc
      obtain ⟨rfl, hnone⟩ | rfl := hK
      · exact .inl ⟨_, [_], rfl, .attempt hnone hout, rfl, rfl⟩
      · exact .inl ⟨_, [_], rfl, .starts hunkept hout (plain_inside _ _), rfl, rfl⟩
    | _ => cases h.symm.trans ‹th.activity = _›
  | attempt hnone hout =>
    cases hm with
    | attemptHit h' hi =>
      cases h.symm.trans h'
      cases (hcached.trans hnone).symm.trans hi
    | attemptMiss h' hi =>
      cases h.symm.trans h'
      exact .inl ⟨_, [_], rfl, .claim hnone hout, rfl, rfl⟩
    | _ => cases h.symm.trans ‹th.activity = _›
  | claim hnone hout =>
    have hfree := hfree _ h
    cases hm with
    | claimFree h' ho =>
      cases h.symm.trans h'
      exact .inl ⟨_, [_, _], rfl, .recheck hnone hout, rfl, rfl⟩
    | claimCycle h' ho hc => cases h.symm.trans h'; cases hfree.symm.trans ho
    | claimWait h' ho hc => cases h.symm.trans h'; cases hfree.symm.trans ho
    | _ => cases h.symm.trans ‹th.activity = _›
  | recheck hnone hout =>
    cases hm with
    | recheckHit h' hi =>
      cases h.symm.trans h'
      cases (hcached.trans hnone).symm.trans hi
    | recheckMiss h' hi =>
      cases h.symm.trans h'
      exact .inl ⟨_, _, rfl, .starts (.inr hnone) hout (plain_keeps s), rfl, rfl⟩
    | _ => cases h.symm.trans ‹th.activity = _›
  | starts hunkept hout hG =>
    have hbuild := build_announces s.container s.name s.registration ∅
    have hruns : th.activity = (Scope.inside (G ++ B) N).runs
        (build s.container s.name s.registration ∅) := h
    have hlog := hm.log_runs hruns
    have hnext := hm.runs_next hruns
    obtain ⟨reply, hnext⟩ := hnext
    refine .inr ⟨_, ?_, ?_, hlog⟩
    · rw [h]
      exact .built hunkept hout hG
    · rw [hnext]
      exact .runs hG (Program.Announces.undeciding (hbuild.of_act.2 reply trivial))

end Machine

namespace Run

variable {I : Implementation C} {σ : Run I} {L : Scope C} {k l i : ℕ} {s : Site C}
  {kept : Option Instance} {B G : List (Frame C)} {K : Control C} {A : Activity C} {x : Entry C}
  {N : Except Error Instance → Program C C.Report}
  {next : Except Error Instance → Program C L.Answer}

theorem working_told (hm : σ.mover i = some 0) (h : Working B N ((σ.state i).activity 0))
    (hown : ∃ K G, (σ.state i).activity 0 = .resolving K (G ++ B) N ∧ Plain G) :
    ∀ e ∈ σ.told 0 i (i + 1), ¬ e.Decides := by
  obtain ⟨th, hth, hst⟩ := Machine.step_cases (σ.moves i 0 hm)
  obtain ⟨th', hth', hmv⟩ := hst.self hth
  have hstep {more : List Event} (hlog : th'.log = th.log ++ more) :
      σ.told 0 i (i + 1) = more := by
    apply told_eq
    rw [Machine.log_eq hth, Machine.log_eq hth', hlog]
  have hquiet (hlog : th'.log = th.log) : ∀ e ∈ σ.told 0 i (i + 1), ¬ e.Decides := by
    rw [hstep (hlog.trans (List.append_nil _).symm)]
    exact nofun
  rw [Machine.activity_eq hth] at h hown
  obtain ⟨fresh, hmv⟩ | ⟨r, F, next, -, -, rfl⟩ := hmv
  · generalize ha : th.activity = A at h
    cases h with
    | @runs p G hG hp =>
      rw [hstep (hmv.log_runs (L := .inside (G ++ B) N) ha)]
      exact hp.told
    | notify hG => exact absurd ha (hmv.not_notify _)
    | finish hG => exact hquiet (hmv.log_finish ha)
    | @awaits f G₀ _ hG hf h =>
      -- Code that awaits an answer of its own has its frame among those of the get.
      obtain ⟨K, G, hG', hplain⟩ := hown
      obtain ⟨K', F, hA, H, rfl⟩ := h
      obtain ⟨-, hF, -⟩ := Activity.resolving.inj ((ha.symm.trans hG').symm.trans hA)
      have hsplit : G ++ B = (H ++ .caller f :: G₀) ++ B := by
        rw [hF, List.append_assoc]
        rfl
      apply absurd _ (hplain f)
      rw [List.append_cancel_right hsplit]
      exact List.mem_append_right H List.mem_cons_self
  · exact hquiet rfl

theorem working_next (hI : I.Announces) (hm : σ.mover i = some 0)
    (h : Working B N ((σ.state i).activity 0))
    (hB : ∃ K F, (σ.state (i + 1)).activity 0 = .resolving K F N ∧ B <:+ F) :
    Working B N ((σ.state (i + 1)).activity 0) := by
  generalize ha : (σ.state i).activity 0 = A at h
  cases h with
  | @runs p G hG hp =>
    obtain ⟨hne, -⟩ | ⟨-, hnext⟩ := runs_next (L := .inside (G ++ B) N) ha
    · exact absurd hm hne
    · cases p with
      | done a => exact hnext ▸ .finish hG
      | fail e => exact hnext ▸ .finish hG
      | crash message => exact hnext ▸ .finish hG
      | act a rest =>
        obtain ⟨reply, hnext⟩ := hnext
        obtain ⟨due, hp, -⟩ := hp
        exact hnext ▸ .runs hG ⟨_, hp.of_act.2 reply trivial, a.due_not_decides reply⟩
      | call c rest =>
        obtain ⟨due, hp, -⟩ := hp
        exact hnext ▸ .runs hG (hp.called hI).2.undeciding
      | resolve g rest =>
        obtain ⟨due, hp, -⟩ := hp
        refine .awaits hG hp.asked.2 ?_
        rw [hnext]
        exact Scope.awaits_asks (.inside (G ++ B) N) g rest
  | @notify r G hG =>
    obtain ⟨th, ht, hst⟩ := Machine.step_cases (σ.moves i 0 hm)
    obtain ⟨th', fresh, hmv, -⟩ | ⟨r', F, N', ha', hnext, -⟩ := hst.activity ht
    · exact absurd ((Machine.activity_eq ht).symm.trans ha) (hmv.not_notify _)
    · cases ha.symm.trans ha'
      exact hnext ▸ .finish hG
  | @finish r G hG =>
    cases G with
    | nil =>
      obtain ⟨th, ht, hst⟩ := Machine.step_cases (σ.moves i 0 hm)
      obtain ⟨K, F, hK, hF⟩ := hB
      exact absurd hF (hst.finish_leaves ht ha hK)
    | cons f G =>
      obtain ⟨hf, hG'⟩ := hG.of_cons
      obtain ⟨th, th', fresh, hth, hmv, hnew⟩ := σ.move 0 hm fun r F next hn => by
        cases ha.symm.trans hn
      obtain hnext | ⟨r', hnext⟩ := hmv.unwinds (hth.trans ha) hf
      · rw [hnew, hnext]
        exact .notify hG'
      · rw [hnew, hnext]
        exact .finish hG'
  | awaits hG hf h =>
    obtain h | ⟨-, r, -, hr⟩ := awaits_next (ha ▸ h)
    · exact .awaits hG hf h
    · obtain (e | message) | j := r
      · exact hr ▸ .runs hG (hf _).undeciding
      · exact hr ▸ .finish hG
      · exact hr ▸ .runs hG (hf _).undeciding

def Owns (σ : Run I) (L : Scope C) (next : Except Error Instance → Program C L.Answer) (i : ℕ) :
    Prop :=
  ∃ K G, (σ.state i).activity 0 = .resolving K (G ++ L.callers next) (L.onward next) ∧ Plain G

inductive Stands (σ : Run I) (L : Scope C) (next : Except Error Instance → Program C L.Answer)
    (s : Site C) (kept : Option Instance) (k l : ℕ) : Prop
  | undecided {K : Control C} {G : List (Frame C)} (ht : σ.told 0 (k + 1) l = [])
      (ha : (σ.state l).activity 0 = .resolving K (G ++ L.callers next) (L.onward next))
      (h : Approach s kept ((σ.state k).stack 0) K G)
      (hw : (σ.state l).world.settled = (σ.state k).world.settled)
  | decided {e : Event} {b : ℕ} {rest : List Event} (ht : σ.told 0 (k + 1) l = e :: rest)
      (hk : k < b) (hl : b < l) (hown : σ.Owns L next b)
      (h : Decision s kept ((σ.state k).stack 0) (L.callers next) (L.onward next) e
        ((σ.state b).activity 0) ((σ.state (b + 1)).activity 0))
      (hw : Working (L.callers next) (L.onward next) ((σ.state l).activity 0))

/-- What a get of a service tells, made at moment `k` and under way at moment `l`: first of all what
decides it, and nothing else of this kind itself. -/
structure Heralds (σ : Run I) (L : Scope C) (next : Except Error Instance → Program C L.Answer)
    (s : Site C) (kept : Option Instance) (k l : ℕ) : Prop where
  first : (σ.told 0 (k + 1) l = [] ∧ ∀ r,
      (σ.state l).activity 0 ≠ .resolving (.finish r) (L.callers next) (L.onward next)) ∨
    ∃ e b rest, σ.told 0 (k + 1) l = e :: rest ∧ k < b ∧ b < l ∧ σ.Owns L next b ∧
      Decision s kept ((σ.state k).stack 0) (L.callers next) (L.onward next) e
        ((σ.state b).activity 0) ((σ.state (b + 1)).activity 0)
  once (i : ℕ) (hk : k < i) (hl : i < l) (hown : σ.Owns L next i) (e : Event)
    (he : e ∈ σ.told 0 i (i + 1)) (hd : e.Decides) : σ.told 0 (k + 1) i = []

section

variable (hI : I.Announces) (h : σ.Asks 0 L (.service s.container s.name ∅) next k l)
  (hone : (σ.state l).threads.length = 1)
  (hx : (σ.state k).world.entry? s.container s.name = some (s.entry, x))
  (hr : x.registration = s.registration)

include hI h hone hx hr

theorem Stands.succ {n : ℕ} (hs : σ.Stands L next s x.cache k n) (hk : k < n) (hn : n < l) :
    σ.Stands L next s x.cache k (n + 1) := by
  cases hm : σ.mover n with
  | none =>
    have hsame : σ.told 0 (k + 1) (n + 1) = σ.told 0 (k + 1) n := by
      rw [← told_append hk (Nat.le_succ n), told_rested hm, List.append_nil]
    cases hs with
    | undecided ht ha hap hw =>
      rw [← hsame] at ht
      rw [← σ.idles n hm] at ha hw
      exact .undecided ht ha hap hw
    | decided ht hkb hbn hown hd hw =>
      rw [← hsame] at ht
      rw [← σ.idles n hm] at hw
      exact .decided ht hkb (Nat.lt_succ_of_lt hbn) hown hd hw
  | some u =>
    obtain ⟨rfl, hnow⟩ := single_at hone (Nat.le_of_lt hn) hm
    have hafter := h.awaits (n + 1) (Nat.lt_succ_of_lt hk) hn
    cases hs with
    | @undecided K G ht ha hap hw =>
      obtain ⟨th, hth, hst⟩ := Machine.step_cases (σ.moves n 0 hm)
      rw [Machine.activity_eq hth] at ha
      have hentry : (σ.state n).world.settled.entry? s.container s.name = some (s.entry, x) := by
        rw [hw]
        exact hx
      have hstack : th.stack = insides G ++ (σ.state k).stack 0 := by
        have ho := (σ.reachable n).consistent.orderly hth
        rw [ha] at ho
        rw [ho.stack_eq, insides_eq_stack h.makes, ← insides_callers L next]
        exact List.filterMap_append
      have hfree (F : List (Frame C)) (hF : th.activity = .resolving (.claim s) F (L.onward next)) :
          (σ.state n).world.builds.owners.get? s.key = none :=
        (σ.reachable n).consistent.claim_free hnow ((Machine.activity_eq hth).trans hF)
      obtain ⟨th', hth', ⟨fresh, hmv⟩ | ⟨r, F, N, hnotify, -, -⟩⟩ := hst.self hth
      · have hstep {more : List Event} (hlog : th'.log = th.log ++ more) :
            σ.told 0 n (n + 1) = more := by
          apply told_eq
          rw [Machine.log_eq hth, Machine.log_eq hth', hlog]
        have hmore := told_append (σ := σ) (t := 0) hk (Nat.le_succ n)
        rw [ht, List.nil_append] at hmore
        obtain ⟨K', G', ha', hap', hlog, hw'⟩ | ⟨e, hd, hworks, hlog⟩ :=
          hmv.opens ha hap hentry hr rfl hstack hfree
        · rw [← Machine.activity_eq hth'] at ha'
          rw [hstep (hlog.trans (List.append_nil _).symm)] at hmore
          exact .undecided hmore.symm ha' hap' (hw'.trans hw)
        · rw [← Machine.activity_eq hth, ← Machine.activity_eq hth'] at hd
          rw [← Machine.activity_eq hth'] at hworks
          rw [hstep hlog] at hmore
          have hown : σ.Owns L next n :=
            ⟨K, G, (Machine.activity_eq hth).trans ha, hap.plain⟩
          exact .decided hmore.symm hk (Nat.lt_succ_self n) hown hd hworks
      · cases ha.symm.trans hnotify
        cases hap
    | decided ht hkb hbn hown hd hw =>
      have hmore := told_append (σ := σ) (t := 0) hk (Nat.le_succ n)
      rw [ht, List.cons_append] at hmore
      exact .decided hmore.symm hkb (Nat.lt_succ_of_lt hbn) hown hd (working_next hI hm hw hafter)

theorem Asks.stands {n : ℕ} (hk : k < n) (hn : n ≤ l) : σ.Stands L next s x.cache k n := by
  induction hk with
  | refl =>
    obtain ⟨hne, -⟩ | ⟨-, hnext⟩ := runs_next h.makes
    · exact absurd h.moves hne
    · exact .undecided (G := []) (told_self _) hnext .find (settled_runs h.moves h.makes nofun)
  | step hk ih => exact (ih (Nat.le_of_succ_le hn)).succ hI h hone hx hr hk hn

theorem Asks.heralds : σ.Heralds L next s x.cache k l where
  first := by
    cases h.stands hI hone hx hr h.lt (Nat.le_refl l) with
    | undecided ht ha hap =>
      refine .inl ⟨ht, fun r hend => ?_⟩
      exact hap.not_finish r (Activity.resolving.inj (ha.symm.trans hend)).1
    | decided ht hk hl hown hd => exact .inr ⟨_, _, _, ht, hk, hl, hown, hd⟩
  once i hk hl hown e he hd := by
    cases hm : σ.mover i with
    | none =>
      rw [told_rested hm] at he
      cases he
    | some u =>
      obtain ⟨rfl, -⟩ := single_at hone (Nat.le_of_lt hl) hm
      cases h.stands hI hone hx hr hk (Nat.le_of_lt hl) with
      | undecided ht => exact ht
      | decided _ _ _ _ _ hw => exact absurd hd (working_told hm hw hown e he)

end

end Run

end Wiring
