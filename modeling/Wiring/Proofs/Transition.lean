import Wiring.Machine.Step
import Wiring.Proofs.Registry

/-!
What a step of a thread can do, said once. A step gives the world and the thread that come out of
it; other threads come in only through the waking of sleepers and through new threads.
-/
namespace Wiring

variable {C : Client}

def Program.ended {α : Type} : Except Failure α → Program C α
  | .ok a => .done a
  | .error (.error e) => .fail e
  | .error (.crash message) => .crash message

namespace Action

def mark (th : Thread C) : Action C → Thread C
  | .note r => { th with notes := th.notes ++ [r] }
  | .emit e => th.tell e
  | _ => th

def brings (I : Implementation C) : Action C → List (Thread C)
  | .spawn jobs => jobs.map (fun steps => { todo := steps.map I.job })
  | _ => []

@[simp] theorem mark_stack (th : Thread C) (a : Action C) : (a.mark th).stack = th.stack := by
  cases a <;> rfl

@[simp] theorem mark_activity (th : Thread C) (a : Action C) :
    (a.mark th).activity = th.activity := by cases a <;> rfl

@[simp] theorem mark_todo (th : Thread C) (a : Action C) : (a.mark th).todo = th.todo := by
  cases a <;> rfl

@[simp] theorem mark_records (th : Thread C) (a : Action C) : (a.mark th).records = th.records := by
  cases a <;> rfl

end Action

def Thread.Unstarted (th : Thread C) : Prop :=
  th.stack = [] ∧ th.activity = .idle ∧ th.records = []

theorem Action.brings_unstarted {I : Implementation C} {a : Action C} {th : Thread C}
    (h : th ∈ a.brings I) : th.Unstarted := by
  cases a with
  | spawn jobs =>
    obtain ⟨steps, -, rfl⟩ := List.mem_map.1 h
    exact ⟨rfl, rfl, rfl⟩
  | _ => cases h

theorem set_of_getElem? {α : Type} {l : List α} {n : Nat} {a : α} (h : l[n]? = some a) :
    l.set n a = l := by
  obtain ⟨hn, rfl⟩ := List.getElem?_eq_some_iff.1 h
  exact List.set_getElem_self hn

theorem Thread.wake_cases (th : Thread C) : th.wake = th ∨ ∃ s owner F next,
    th.activity = .resolving (.asleep s owner) F next ∧
      th.wake = th.goes (.woken s owner) F next := by
  unfold wake
  split
  · next h => exact .inr ⟨_, _, _, _, h, rfl⟩
  · exact .inl rfl

namespace Machine

inductive Move (I : Implementation C) (m : Machine C) (t : ThreadId) (th : Thread C) :
    World C → Thread C → List (Thread C) → Prop
  | begin {p rest} (h : th.activity = .idle) (hp : th.todo = p :: rest) :
      Move I m t th m.world { th with todo := rest, activity := .running p } []
  | ownEnded {r} (h : th.activity = .running (.ended r)) :
      Move I m t th m.world (th.conclude r) []
  | ownAct {a rest r m₁} (h : th.activity = .running (.act a rest))
      (ha : m.perform I t th a = some (r, m₁)) :
      Move I m t th m₁.world { a.mark th with activity := .running (rest r) } (a.brings I)
  | ownCall {k rest} (h : th.activity = .running (.call k rest)) :
      Move I m t th m.world { th with activity := .running ((I.answer k).attempt.bind rest) } []
  | ownResolve {g rest} (h : th.activity = .running (.resolve g rest)) :
      Move I m t th m.world (th.goes g.control [] rest) []
  | findMissing {c name o F next} (h : th.activity = .resolving (.find c name o) F next)
      (he : m.world.entry? c name = none) :
      Move I m t th m.world (th.goes (.finish (.error (.error (.serviceNotFound name)))) F next) []
  | findShared {c name o F next e x} (h : th.activity = .resolving (.find c name o) F next)
      (he : m.world.entry? c name = some (e, x))
      (hs : (x.registration.shared && o.isEmpty) = true) :
      Move I m t th m.world (th.goes (.peek ⟨c, name, e, x.registration⟩) F next) []
  | findOther {c name o F next e x} (h : th.activity = .resolving (.find c name o) F next)
      (he : m.world.entry? c name = some (e, x))
      (hs : (x.registration.shared && o.isEmpty) = false) :
      Move I m t th m.world
        (th.goes (.enter c (.service name) (.run (build c name x.registration o))) F next) []
  | peekHit {s F next i} (h : th.activity = .resolving (.peek s) F next)
      (hi : m.world.cached s.entry = some i) :
      Move I m t th m.world ((th.tell (.cacheHit s.name)).goes (.finish (.ok i)) F next) []
  | peekMiss {s F next} (h : th.activity = .resolving (.peek s) F next)
      (hi : m.world.cached s.entry = none) :
      Move I m t th m.world (th.goes (.enter s.container (.service s.name) (.attempt s)) F next) []
  | enterAgain {c x inside F next chain}
      (h : th.activity = .resolving (.enter c x inside) F next)
      (hc : th.stack.cycle? c x = some chain) :
      Move I m t th m.world ((th.tell (.circular chain)).goes
        (.finish (.error (.error (.circularDependency chain)))) F next) []
  | enterNew {c x inside F next} (h : th.activity = .resolving (.enter c x inside) F next)
      (hc : th.stack.cycle? c x = none) :
      Move I m t th m.world
        ({ th with stack := th.stack.enter c x }.goes inside (.inside c x :: F) next) []
  | attemptHit {s F next i} (h : th.activity = .resolving (.attempt s) F next)
      (hi : m.world.cached s.entry = some i) :
      Move I m t th m.world (th.goes (.finish (.ok i)) F next) []
  | attemptMiss {s F next} (h : th.activity = .resolving (.attempt s) F next)
      (hi : m.world.cached s.entry = none) :
      Move I m t th m.world (th.goes (.claim s) F next) []
  | claimFree {s F next} (h : th.activity = .resolving (.claim s) F next)
      (ho : m.world.builds.owners.get? s.key = none) :
      Move I m t th { m.world with builds := m.world.builds.claim s.key t }
        (th.goes (.recheck s) (.owns s :: F) next) []
  | claimCycle {s F next owner chain} (h : th.activity = .resolving (.claim s) F next)
      (ho : m.world.builds.owners.get? s.key = some owner)
      (hc : m.world.builds.waitCycle s.key t = some chain) :
      Move I m t th m.world ((th.tell (.circularAcrossThreads chain)).goes
        (.finish (.error (.error (.circularDependency chain)))) F next) []
  | claimWait {s F next owner} (h : th.activity = .resolving (.claim s) F next)
      (ho : m.world.builds.owners.get? s.key = some owner)
      (hc : m.world.builds.waitCycle s.key t = none) :
      Move I m t th { m.world with
          builds := m.world.builds.wait t s.key, waits := m.world.waits ++ [s.name] }
        ((th.tell (.waiting s.name)).goes (.asleep s owner) F next) []
  | wokenAgain {s owner F next} (h : th.activity = .resolving (.woken s owner) F next)
      (ho : m.world.builds.owners.get? s.key = some owner) :
      Move I m t th m.world (th.goes (.asleep s owner) F next) []
  | wokenFree {s owner F next} (h : th.activity = .resolving (.woken s owner) F next)
      (ho : m.world.builds.owners.get? s.key ≠ some owner) :
      Move I m t th { m.world with builds := m.world.builds.leave t }
        (th.goes (.attempt s) F next) []
  | recheckHit {s F next i} (h : th.activity = .resolving (.recheck s) F next)
      (hi : m.world.cached s.entry = some i) :
      Move I m t th m.world (th.goes (.finish (.ok i)) F next) []
  | recheckMiss {s F next} (h : th.activity = .resolving (.recheck s) F next)
      (hi : m.world.cached s.entry = none) :
      Move I m t th m.world
        (th.goes (.run (build s.container s.name s.registration ∅)) (.keeps s :: F) next) []
  | runEnded {r F next} (h : th.activity = .resolving (.run (.ended r)) F next) :
      Move I m t th m.world (th.goes (.finish r) F next) []
  | runAct {a rest r m₁ F next} (h : th.activity = .resolving (.run (.act a rest)) F next)
      (ha : m.perform I t th a = some (r, m₁)) :
      Move I m t th m₁.world ((a.mark th).goes (.run (rest r)) F next) (a.brings I)
  | runCall {k rest F next} (h : th.activity = .resolving (.run (.call k rest)) F next) :
      Move I m t th m.world (th.goes (.run ((I.answer k).attempt.bind rest)) F next) []
  | runResolve {g rest F next} (h : th.activity = .resolving (.run (.resolve g rest)) F next) :
      Move I m t th m.world (th.goes g.control (.caller rest :: F) next) []
  | keepFirst {i s F next} (h : th.activity = .resolving (.finish (.ok i)) (.keeps s :: F) next)
      (hi : m.world.cached s.entry = none) :
      Move I m t th (m.world.setCache s.entry i) (th.goes (.finish (.ok i)) F next) []
  | keepOther {i kept s F next}
      (h : th.activity = .resolving (.finish (.ok i)) (.keeps s :: F) next)
      (hi : m.world.cached s.entry = some kept) :
      Move I m t th m.world (th.goes (.finish (.ok kept)) F next) []
  | keepNothing {f s F next}
      (h : th.activity = .resolving (.finish (.error f)) (.keeps s :: F) next) :
      Move I m t th m.world (th.goes (.finish (.error f)) F next) []
  | release {r s F next} (h : th.activity = .resolving (.finish r) (.owns s :: F) next) :
      Move I m t th { m.world with builds := m.world.builds.release s.key }
        (th.goes (.notify r) F next) []
  | leave {r c x F next} (h : th.activity = .resolving (.finish r) (.inside c x :: F) next) :
      Move I m t th m.world
        ({ th with stack := th.stack.leave c }.goes (.finish r) F next) []
  | answer {a rest F next}
      (h : th.activity =
        .resolving (.finish (Except.mapError Failure.error a)) (.caller rest :: F) next) :
      Move I m t th m.world (th.goes (.run (rest a)) F next) []
  | passBy {message rest F next}
      (h : th.activity =
        .resolving (.finish (.error (.crash message))) (.caller rest :: F) next) :
      Move I m t th m.world (th.goes (.finish (.error (.crash message))) F next) []
  | ownAnswer {a next}
      (h : th.activity = .resolving (.finish (Except.mapError Failure.error a)) [] next) :
      Move I m t th m.world { th with activity := .running (next a) } []
  | ownCrash {message next}
      (h : th.activity = .resolving (.finish (.error (.crash message))) [] next) :
      Move I m t th m.world (th.conclude (.error (.crash message))) []

inductive Stepped (I : Implementation C) (m : Machine C) (t : ThreadId) (th : Thread C) :
    Machine C → Prop
  | move {w th' fresh} (h : Move I m t th w th' fresh) :
      Stepped I m t th ⟨w, m.threads.set t th' ++ fresh⟩
  | notify {r F next} (h : th.activity = .resolving (.notify r) F next) :
      Stepped I m t th
        ⟨m.world, (m.threads.map Thread.wake).set t (th.goes (.finish r) F next)⟩

variable {I : Implementation C} {m m' m₁ : Machine C} {t : ThreadId} {th : Thread C}

theorem put_eq (ht : m.threads[t]? = some th) (a : Activity C) :
    m.put t a = ⟨m.world, m.threads.set t { th with activity := a }⟩ := by
  simp only [put, Machine.mk.injEq, true_and]
  apply List.ext_getElem?
  intro n
  rw [List.getElem?_modify, List.getElem?_set]
  by_cases hn : t = n
  · subst hn
    rw [ht]
    simp [(List.getElem?_eq_some_iff.1 ht).1]
  · simp [hn]

theorem perform_threads {a : Action C} {r : a.Reply} (ht : m.threads[t]? = some th)
    (h : m.perform I t th a = some (r, m₁)) :
    m₁.threads = m.threads.set t (a.mark th) ++ a.brings I := by
  have hset : m.threads = m.threads.set t th := (set_of_getElem? ht).symm
  cases a with
  | note r => cases h; exact (List.append_nil _).symm
  | emit e => cases h; exact (List.append_nil _).symm
  | spawn jobs => cases h; exact congrArg (· ++ _) hset
  | settleDefault =>
    simp only [perform] at h
    split at h <;> cases h <;> exact hset.trans (List.append_nil _).symm
  | await ready =>
    simp only [perform] at h
    split at h <;> cases h; exact hset.trans (List.append_nil _).symm
  | awaitWaiters service count =>
    simp only [perform] at h
    split at h <;> cases h; exact hset.trans (List.append_nil _).symm
  | join threads =>
    simp only [perform] at h
    split at h <;> cases h; exact hset.trans (List.append_nil _).symm
  | _ => cases h; exact hset.trans (List.append_nil _).symm

theorem perform_put {a : Action C} {r : a.Reply} (ht : m.threads[t]? = some th)
    (h : m.perform I t th a = some (r, m₁)) (b : Activity C) :
    m₁.put t b =
      ⟨m₁.world, m.threads.set t { a.mark th with activity := b } ++ a.brings I⟩ := by
  have hl : t < m.threads.length := (List.getElem?_eq_some_iff.1 ht).1
  have hm := perform_threads ht h
  have h₁ : m₁.threads[t]? = some (a.mark th) := by
    rw [hm, List.getElem?_append_left (by simpa using hl), List.getElem?_set_self hl]
  rw [put_eq h₁, hm, List.set_append_left _ _ (by simpa using hl), List.set_set]

theorem Stepped.of_put {b : Activity C} (ht : m.threads[t]? = some th)
    (hm : m₁.threads = m.threads) (h : Move I m t th m₁.world { th with activity := b } []) :
    Stepped I m t th (m₁.put t b) := by
  rw [put_eq (hm ▸ ht), hm]
  simpa using Stepped.move h

theorem Stepped.of_act {a : Action C} {r : a.Reply} {b : Activity C}
    (ht : m.threads[t]? = some th) (ha : m.perform I t th a = some (r, m₁))
    (h : Move I m t th m₁.world { a.mark th with activity := b } (a.brings I)) :
    Stepped I m t th (m₁.put t b) := by
  rw [perform_put ht ha]
  exact .move h

theorem Stepped.of_move {w : World C} {th' : Thread C} (h : Move I m t th w th' []) :
    Stepped I m t th ⟨w, m.threads.set t th'⟩ := by
  simpa using Stepped.move h

section

variable {F : List (Frame C)} {next : Except Error Instance → Program C C.Report}

theorem runInside_cases {p : Program C Instance} (ht : m.threads[t]? = some th)
    (h : th.activity = .resolving (.run p) F next)
    (hs : m.runInside t th next I F p = some m') : Stepped I m t th m' := by
  cases p with
  | done i => cases hs; exact .of_put ht rfl (.runEnded (r := .ok i) h)
  | fail e => cases hs; exact .of_put ht rfl (.runEnded (r := .error (.error e)) h)
  | crash s => cases hs; exact .of_put ht rfl (.runEnded (r := .error (.crash s)) h)
  | act a rest =>
    obtain ⟨⟨r, m₁⟩, ha, rfl⟩ := Option.map_eq_some_iff.1 hs
    exact .of_act ht ha (.runAct h ha)
  | call k rest => cases hs; exact .of_put ht rfl (.runCall h)
  | resolve g rest => cases hs; exact .of_put ht rfl (.runResolve h)

theorem runOwn_cases {p : Program C C.Report} (ht : m.threads[t]? = some th)
    (h : th.activity = .running p) (hs : m.runOwn I t th p = some m') : Stepped I m t th m' := by
  cases p with
  | done r => cases hs; exact .of_move (.ownEnded (r := .ok r) h)
  | fail e => cases hs; exact .of_move (.ownEnded (r := .error (.error e)) h)
  | crash s => cases hs; exact .of_move (.ownEnded (r := .error (.crash s)) h)
  | act a rest =>
    obtain ⟨⟨r, m₁⟩, ha, rfl⟩ := Option.map_eq_some_iff.1 hs
    exact .of_act ht ha (.ownAct h ha)
  | call k rest => cases hs; exact .of_put ht rfl (.ownCall h)
  | resolve g rest => cases hs; exact .of_put ht rfl (.ownResolve h)

theorem finish_cases {r : Except Failure Instance} (ht : m.threads[t]? = some th)
    (h : th.activity = .resolving (.finish r) F next) :
    Stepped I m t th (m.finish t th next r F) := by
  cases F with
  | nil =>
    match r with
    | .ok i => exact .of_put ht rfl (.ownAnswer (a := .ok i) h)
    | .error (.error e) => exact .of_put ht rfl (.ownAnswer (a := .error e) h)
    | .error (.crash s) => exact .of_move (.ownCrash h)
  | cons f F =>
    cases f with
    | caller rest =>
      match r with
      | .ok i => exact .of_put ht rfl (.answer (a := .ok i) h)
      | .error (.error e) => exact .of_put ht rfl (.answer (a := .error e) h)
      | .error (.crash s) => exact .of_put ht rfl (.passBy h)
    | inside c x => exact .of_move (.leave h)
    | keeps s =>
      cases r with
      | ok i =>
        simp only [finish, keep]
        split
        · next hi => exact .of_put ht rfl (.keepOther h hi)
        · next hi => exact .of_put ht rfl (.keepFirst h hi)
      | error f => exact .of_put ht rfl (.keepNothing h)
    | owns s => exact .of_put ht rfl (.release h)

theorem advance_cases {K : Control C} (ht : m.threads[t]? = some th)
    (h : th.activity = .resolving K F next) (hs : m.advance t th next I F K = some m') :
    Stepped I m t th m' := by
  cases K with
  | find c name o =>
    cases hs
    simp only [find]
    split
    · next he => exact .of_put ht rfl (.findMissing h he)
    · next e x he =>
      split
      · next hs => exact .of_put ht rfl (.findShared h he hs)
      · next hs => exact .of_put ht rfl (.findOther h he (by simpa using hs))
  | peek s =>
    cases hs
    simp only [peek]
    split
    · next hi => exact .of_move (.peekHit h hi)
    · next hi => exact .of_put ht rfl (.peekMiss h hi)
  | enter c x inside =>
    cases hs
    simp only [enter]
    split
    · next hc => exact .of_move (.enterAgain h hc)
    · next hc => exact .of_move (.enterNew h hc)
  | attempt s =>
    cases hs
    simp only [attempt]
    split
    · next hi => exact .of_put ht rfl (.attemptHit h hi)
    · next hi => exact .of_put ht rfl (.attemptMiss h hi)
  | claim s =>
    cases hs
    simp only [claim]
    split
    · next ho => exact .of_put ht rfl (.claimFree h ho)
    · next owner ho =>
      split
      · next hc => exact .of_move (.claimCycle h ho hc)
      · next hc => exact .of_move (.claimWait h ho hc)
  | asleep s owner => cases hs
  | woken s owner =>
    cases hs
    simp only [wokenUp]
    split
    · next ho => exact .of_put ht rfl (.wokenAgain h ho)
    · next ho => exact .of_put ht rfl (.wokenFree h ho)
  | recheck s =>
    cases hs
    simp only [recheck]
    split
    · next hi => exact .of_put ht rfl (.recheckHit h hi)
    · next hi => exact .of_put ht rfl (.recheckMiss h hi)
  | run p => exact runInside_cases ht h hs
  | notify r =>
    cases hs
    have hw : m.wakeAll.threads[t]? = some th := by
      simp only [wakeAll, List.getElem?_map, ht, Option.map_some, Thread.wake, h]
    rw [go, put_eq hw]
    exact .notify h
  | finish r => cases hs; exact finish_cases ht h

end

theorem step_cases (h : m.step I t = some m') :
    ∃ th, m.threads[t]? = some th ∧ Stepped I m t th m' := by
  obtain ⟨th, ht, hs⟩ := Option.bind_eq_some_iff.1 h
  refine ⟨th, ht, ?_⟩
  split at hs
  · next ha =>
    split at hs
    · cases hs
    · next hp => cases hs; exact .of_move (.begin ha hp)
  · next ha => exact runOwn_cases ht ha hs
  · next ha => exact advance_cases ht ha hs

variable {u : ThreadId} {th' : Thread C} {w : World C} {fresh : List (Thread C)}

inductive Beside (old new : Option (Thread C)) : Prop
  | same (h : new = old)
  | woken {a} (ho : old = some a) (hn : new = some a.wake)
  | fresh {a} (ho : old = none) (hn : new = some a) (hu : a.Unstarted)

theorem Stepped.self (h : Stepped I m t th m') (ht : m.threads[t]? = some th) :
    ∃ th', m'.threads[t]? = some th' ∧
      ((∃ fresh, Move I m t th m'.world th' fresh) ∨
        ∃ r F next, th.activity = .resolving (.notify r) F next ∧ m'.world = m.world ∧
          th' = th.goes (.finish r) F next) := by
  have hl : t < m.threads.length := (List.getElem?_eq_some_iff.1 ht).1
  cases h with
  | @move w th' fresh h =>
    refine ⟨th', ?_, .inl ⟨fresh, h⟩⟩
    rw [List.getElem?_append_left (by simpa using hl), List.getElem?_set_self hl]
  | @notify r F next h =>
    exact ⟨_, List.getElem?_set_self (by simpa using hl), .inr ⟨r, F, next, h, rfl, rfl⟩⟩

theorem Move.fresh_unstarted (h : Move I m t th w th' fresh) : ∀ f ∈ fresh, f.Unstarted := by
  cases h with
  | ownAct h ha => exact fun f hf => Action.brings_unstarted hf
  | runAct h ha => exact fun f hf => Action.brings_unstarted hf
  | _ => simp

theorem Stepped.beside (h : Stepped I m t th m') (hu : u ≠ t) :
    Beside m.threads[u]? m'.threads[u]? := by
  cases h with
  | @move w th' fresh h =>
    by_cases hl : u < m.threads.length
    · refine .same ?_
      rw [List.getElem?_append_left (by simpa using hl), List.getElem?_set_ne hu.symm]
    · have hn : m.threads[u]? = none := List.getElem?_eq_none (Nat.le_of_not_lt hl)
      rw [List.getElem?_append_right (by simpa using hl), hn]
      cases hf : fresh[u - (m.threads.set t th').length]? with
      | none => exact .same rfl
      | some f => exact .fresh rfl rfl (h.fresh_unstarted f (List.mem_of_getElem? hf))
  | notify h =>
    rw [List.getElem?_set_ne hu.symm, List.getElem?_map]
    cases ho : m.threads[u]? with
    | none => exact .same rfl
    | some th => exact .woken rfl rfl

def activity (m : Machine C) (n : ThreadId) : Activity C :=
  (m.threads[n]?.map (·.activity)).getD .idle

theorem activity_eq (ht : m.threads[t]? = some th) : m.activity t = th.activity := by
  simp [activity, ht]

theorem Stepped.activity (h : Stepped I m t th m') (ht : m.threads[t]? = some th) :
    (∃ th' fresh, Move I m t th m'.world th' fresh ∧ m'.activity t = th'.activity) ∨
      ∃ r F next, m.activity t = .resolving (.notify r) F next ∧
        m'.activity t = .resolving (.finish r) F next ∧ m'.world = m.world := by
  obtain ⟨th', ht', ⟨fresh, hm⟩ | ⟨r, F, next, ha, hw, rfl⟩⟩ := h.self ht
  · exact .inl ⟨th', fresh, hm, activity_eq ht'⟩
  · exact .inr ⟨r, F, next, (activity_eq ht).trans ha, activity_eq ht', hw⟩

theorem Beside.activity (h : Beside m.threads[u]? m'.threads[u]?) :
    m'.activity u = m.activity u ∨ ∃ s owner F next,
      m.activity u = .resolving (.asleep s owner) F next ∧
        m'.activity u = .resolving (.woken s owner) F next := by
  cases h with
  | same h => exact .inl (by simp only [Machine.activity, h])
  | @woken a ho hn =>
    rw [activity_eq ho, activity_eq hn]
    obtain h | ⟨s, owner, F, next, ha, h⟩ := a.wake_cases
    · exact .inl (by rw [h])
    · exact .inr ⟨s, owner, F, next, ha, by rw [h]; rfl⟩
  | fresh ho hn hu => exact .inl (by rw [activity_eq hn, hu.2.1, Machine.activity, ho]; rfl)

end Machine

end Wiring
