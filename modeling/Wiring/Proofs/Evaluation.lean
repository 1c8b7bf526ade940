import Wiring.Proofs.FiniteRequests

/-!
What code on a single thread comes to, without the machine: its answer, error or crash, the world
that it leaves, and what it has done on the way.
-/
namespace Wiring

variable {C : Client} {α β : Type}

inductive Deed (C : Client)
  | access (a : Action C)
  | call (k : Call C)
  | ask (g : Goal)

def Program.deed? : Program C α → Option (Deed C)
  | .act a _ => some (.access a)
  | .call k _ => some (.call k)
  | .resolve g _ => some (.ask g)
  | _ => none

inductive Opening (C : Client)
  | settled (a : Except Error Instance)
  | entered (c : ContainerId) (x : Target) (p : Program C Instance) (keeps : Option EntryId)

def Stack.opening (S : Stack) (c : ContainerId) (x : Target) (p : Program C Instance)
    (keeps : Option EntryId) : Opening C :=
  match S.cycle? c x with
  | some chain => .settled (.error (.circularDependency chain))
  | none => .entered c x p keeps

namespace World

def access (I : Implementation C) (S : Stack) (w : World C) (a : Action C) :
    Option (a.Reply × World C) :=
  let th : Thread C := { stack := S, activity := .running (.crash ""), todo := [] }
  (Machine.perform I ⟨w, [th]⟩ 0 th a).map fun (r, m) => (r, m.world)

def opening (w : World C) (S : Stack) : Goal → Opening C
  | .service c name o =>
    match w.entry? c name with
    | none => .settled (.error (.serviceNotFound name))
    | some (e, x) =>
      if x.registration.shared && o.isEmpty then
        match w.cached e with
        | some i => .settled (.ok i)
        | none => S.opening c (.service name) (build c name x.registration ∅) (some e)
      else S.opening c (.service name) (build c name x.registration o) none
  | .class c type o => S.opening c (.class type.name) (construct c type o) none

def keep (w : World C) :
    Option EntryId → Except Failure Instance → Except Failure Instance × World C
  | some e, .ok i =>
    match w.cached e with
    | some kept => (.ok kept, w)
    | none => (.ok i, w.setCache e i)
  | _, r => (r, w)

@[simp] theorem keep_error (w : World C) (e : Option EntryId) (f : Failure) :
    w.keep e (.error f) = (.error f, w) := by
  cases e <;> rfl

theorem keep_crash {w w' : World C} {e : Option EntryId} {s : String}
    {a : Except Error Instance} :
    w.keep e (.error (.crash s)) ≠ (Except.mapError .error a, w') := by
  rw [keep_error]
  cases a <;> exact nofun

end World

theorem Failure.mapError_inj {a b : Except Error α}
    (h : Except.mapError Failure.error a = Except.mapError .error b) : a = b := by
  cases a <;> cases b <;> cases h <;> rfl

/-- With this stack and in this world, the program does these deeds and comes to this end. -/
inductive Evaluates (I : Implementation C) : {α : Type} → Stack → World C → Program C α →
    List (Deed C) → Except Failure α → World C → Prop
  | done {α S w} {a : α} : Evaluates I S w (.done a) [] (.ok a) w
  | fail {α S w e} : Evaluates I (α := α) S w (.fail e) [] (.error (.error e)) w
  | crash {α S w s} : Evaluates I (α := α) S w (.crash s) [] (.error (.crash s)) w
  | act {α S w a} {next : a.Reply → Program C α} {reply w₁ ds r w'}
      (ha : w.access I S a = some (reply, w₁)) (hn : a.brings I = [])
      (h : Evaluates I S w₁ (next reply) ds r w') :
      Evaluates I S w (.act a next) (.access a :: ds) r w'
  | call {α S w k} {next : Except Error k.Reply → Program C α} {ds r w'}
      (h : Evaluates I S w ((I.answer k).attempt.bind next) ds r w') :
      Evaluates I S w (.call k next) (.call k :: ds) r w'
  | settled {α S w g} {next : Except Error Instance → Program C α} {a ds r w'}
      (ho : w.opening S g = .settled a) (h : Evaluates I S w (next a) ds r w') :
      Evaluates I S w (.resolve g next) (.ask g :: ds) r w'
  | entered {α S w g} {next : Except Error Instance → Program C α} {c x p keeps ds₁ r₁ w₁ a w₂ ds₂}
      {r : Except Failure α} {w'} (ho : w.opening S g = .entered c x p keeps)
      (hp : Evaluates I (S.enter c x) w p ds₁ r₁ w₁)
      (hk : w₁.keep keeps r₁ = (Except.mapError .error a, w₂))
      (h : Evaluates I S w₂ (next a) ds₂ r w') :
      Evaluates I S w (.resolve g next) (.ask g :: (ds₁ ++ ds₂)) r w'
  | crashed {α S w g} {next : Except Error Instance → Program C α} {c x p keeps ds s w₁}
      (ho : w.opening S g = .entered c x p keeps)
      (hp : Evaluates I (S.enter c x) w p ds (.error (.crash s)) w₁) :
      Evaluates I S w (.resolve g next) (.ask g :: ds) (.error (.crash s)) w₁

inductive Responds (I : Implementation C) (S : Stack) (w : World C) (g : Goal) :
    List (Deed C) → Except Failure Instance → World C → Prop
  | settled {a} (ho : w.opening S g = .settled a) :
      Responds I S w g [] (Except.mapError .error a) w
  | entered {c x p keeps ds r w₁ r' w'} (ho : w.opening S g = .entered c x p keeps)
      (hp : Evaluates I (S.enter c x) w p ds r w₁) (hk : w₁.keep keeps r = (r', w')) :
      Responds I S w g ds r' w'

def Failure.caught : Except Failure α → Except Failure (Except Error α)
  | .ok a => .ok (.ok a)
  | .error (.error e) => .ok (.error e)
  | .error (.crash s) => .error (.crash s)

inductive Sequence (I : Implementation C) (S : Stack) (w : World C) (p : Program C α)
    (f : α → Program C β) : List (Deed C) → Except Failure β → World C → Prop
  | goes {ds₁ a w₁ ds₂ r w'} (h : Evaluates I S w p ds₁ (.ok a) w₁)
      (h' : Evaluates I S w₁ (f a) ds₂ r w') : Sequence I S w p f (ds₁ ++ ds₂) r w'
  | stops {ds e w'} (h : Evaluates I S w p ds (.error e) w') :
      Sequence I S w p f ds (.error e) w'

section

variable {I : Implementation C} {S : Stack} {w w' w₁ : World C} {p : Program C α}
  {ds ds' : List (Deed C)} {r : Except Failure α}

theorem Sequence.after {p₁ : Program C α} {f : α → Program C β} {r : Except Failure β}
    (before : List (Deed C)) (h : Sequence I S w₁ p₁ f ds r w')
    (hp : ∀ ds r w', Evaluates I S w₁ p₁ ds r w' → Evaluates I S w p (before ++ ds) r w') :
    Sequence I S w p f (before ++ ds) r w' := by
  cases h with
  | goes h h' =>
    rw [← List.append_assoc]
    exact .goes (hp _ _ _ h) h'
  | stops h => exact .stops (hp _ _ _ h)

namespace Evaluates

theorem ended (r : Except Failure α) : Evaluates I S w (.ended r) [] r w := by
  obtain ((e | s) | a) := r
  · exact .fail
  · exact .crash
  · exact .done

theorem resolve {g : Goal} {next : Except Error Instance → Program C α}
    {a : Except Error Instance} (hg : Responds I S w g ds (Except.mapError .error a) w₁)
    (h : Evaluates I S w₁ (next a) ds' r w') :
    Evaluates I S w (.resolve g next) (.ask g :: (ds ++ ds')) r w' := by
  generalize hr : Except.mapError Failure.error a = r₁ at hg
  cases hg with
  | @settled b ho =>
    obtain rfl := Failure.mapError_inj hr
    exact .settled ho h
  | entered ho hp hk => exact .entered ho hp (hr ▸ hk) h

theorem resolve_crash {g : Goal} {next : Except Error Instance → Program C α} {s : String}
    (hg : Responds I S w g ds (.error (.crash s)) w') :
    Evaluates I S w (.resolve g next) (.ask g :: ds) (.error (.crash s)) w' := by
  generalize hr : Except.error (Failure.crash s) = r₁ at hg
  cases hg with
  | @settled b ho => cases b <;> cases hr
  | @entered c x p keeps ds r₀ w₁ r' w' ho hp hk =>
    subst hr
    cases r₀ with
    | error f =>
      rw [World.keep_error] at hk
      cases hk
      exact .crashed ho hp
    | ok i =>
      unfold World.keep at hk
      split at hk
      · split at hk <;> cases hk
      · cases hk

theorem of_resolve {g : Goal} {next : Except Error Instance → Program C α}
    (h : Evaluates I S w (.resolve g next) ds r w') :
    (∃ ds₁ a w₁ ds₂, Responds I S w g ds₁ (Except.mapError .error a) w₁ ∧
        Evaluates I S w₁ (next a) ds₂ r w' ∧ ds = .ask g :: (ds₁ ++ ds₂)) ∨
      ∃ ds₁ s, Responds I S w g ds₁ (.error (.crash s)) w' ∧ r = .error (.crash s) ∧
        ds = .ask g :: ds₁ := by
  cases h with
  | settled ho h => exact .inl ⟨[], _, _, _, .settled ho, h, rfl⟩
  | entered ho hp hk h => exact .inl ⟨_, _, _, _, .entered ho hp hk, h, rfl⟩
  | crashed ho hp => exact .inr ⟨_, _, .entered ho hp (World.keep_error _ _ _), rfl, rfl⟩

theorem bind {f : α → Program C β} {a : α} {r : Except Failure β}
    (h : Evaluates I S w p ds (.ok a) w₁) (hf : Evaluates I S w₁ (f a) ds' r w') :
    Evaluates I S w (p.bind f) (ds ++ ds') r w' := by
  generalize hr : Except.ok a = r₀ at h
  induction h with
  | done => cases hr; exact hf
  | fail => cases hr
  | crash => cases hr
  | act ha hn _ ih => exact .act ha hn (ih hf hr)
  | call _ ih =>
    refine .call ?_
    rw [← Program.bind_assoc]
    exact ih hf hr
  | settled ho _ ih => exact .settled ho (ih hf hr)
  | entered ho hp hk _ _ ih =>
    rw [List.cons_append, List.append_assoc]
    exact .entered ho hp hk (ih hf hr)
  | crashed => cases hr

theorem bind_error {f : α → Program C β} {e : Failure}
    (h : Evaluates I S w p ds (.error e) w') : Evaluates I S w (p.bind f) ds (.error e) w' := by
  generalize hr : Except.error e = r₀ at h
  induction h with
  | done => cases hr
  | fail => cases hr; exact .fail
  | crash => cases hr; exact .crash
  | act ha hn _ ih => exact .act ha hn (ih hr)
  | call _ ih =>
    refine .call ?_
    rw [← Program.bind_assoc]
    exact ih hr
  | settled ho _ ih => exact .settled ho (ih hr)
  | entered ho hp hk _ _ ih => exact .entered ho hp hk (ih hr)
  | crashed ho hp => cases hr; exact .crashed ho hp

theorem of_bind {f : α → Program C β} {r : Except Failure β}
    (h : Evaluates I S w (p.bind f) ds r w') : Sequence I S w p f ds r w' := by
  generalize hq : p.bind f = q at h
  -- Code that is done has left no trace, so that all that happens is done by what follows it.
  have hdone {S w b ds r w'} {q : Program C β} (hb : f b = q) (h : Evaluates I S w q ds r w') :
      Sequence I S w (.done b) f ds r w' := .goes .done (hb ▸ h)
  induction h generalizing p with
  | done =>
    cases p with
    | done b => exact hdone hq .done
    | _ => cases hq
  | fail =>
    cases p with
    | done b => exact hdone hq .fail
    | fail e => cases hq; exact .stops .fail
    | _ => cases hq
  | crash =>
    cases p with
    | done b => exact hdone hq .crash
    | crash s => cases hq; exact .stops .crash
    | _ => cases hq
  | @act _ _ _ a _ _ _ _ _ _ ha hn h ih =>
    cases p with
    | done b => exact hdone hq (.act ha hn h)
    | act _ next => cases hq; exact (ih rfl hdone).after [.access a] fun _ _ _ => .act ha hn
    | _ => cases hq
  | @call _ _ _ k _ _ _ _ h ih =>
    cases p with
    | done b => exact hdone hq (.call h)
    | call _ next =>
      cases hq
      exact (ih (Program.bind_assoc _ _ _) hdone).after [.call k] fun _ _ _ => .call
    | _ => cases hq
  | @settled _ _ _ g _ _ _ _ _ ho h ih =>
    cases p with
    | done b => exact hdone hq (.settled ho h)
    | resolve _ next => cases hq; exact (ih rfl hdone).after [.ask g] fun _ _ _ => .settled ho
    | _ => cases hq
  | @entered _ _ _ g _ _ _ _ _ _ _ _ _ _ _ _ _ ho hp hk h _ ih =>
    cases p with
    | done b => exact hdone hq (.entered ho hp hk h)
    | resolve _ next =>
      cases hq
      exact (ih rfl hdone).after (.ask g :: _) fun _ _ _ => .entered ho hp hk
    | _ => cases hq
  | crashed ho hp =>
    cases p with
    | done b => exact hdone hq (.crashed ho hp)
    | resolve g next => cases hq; exact .stops (.crashed ho hp)
    | _ => cases hq

theorem perform {a : Action C} {reply : a.Reply} (ha : w.access I S a = some (reply, w'))
    (hn : a.brings I = []) : Evaluates I S w (Program.perform a) [.access a] (.ok reply) w' :=
  .act ha hn .done

theorem attempt (h : Evaluates I S w p ds r w') :
    Evaluates I S w p.attempt ds (Failure.caught r) w' := by
  induction h with
  | done => exact .done
  | fail => exact .done
  | crash => exact .crash
  | act ha hn _ ih => exact .act ha hn ih
  | call _ ih => rw [Program.attempt_bind_attempt] at ih; exact .call ih
  | settled ho _ ih => exact .settled ho ih
  | entered ho hp hk _ _ ih => exact .entered ho hp hk ih
  | crashed ho hp => exact .crashed ho hp

theorem ofExcept (a : Except Error α) :
    Evaluates I S w (.ofExcept a) [] (Except.mapError .error a) w := by
  cases a
  · exact .fail
  · exact .done

theorem of_ofExcept {a : Except Error α} (h : Evaluates I S w (.ofExcept a) ds r w') :
    ds = [] ∧ r = Except.mapError .error a ∧ w' = w := by
  cases a <;> cases h <;> exact ⟨rfl, rfl, rfl⟩

theorem run {k : Call C} {r : Except Failure k.Reply}
    (h : Evaluates I S w (I.answer k) ds r w') :
    Evaluates I S w (Program.run k) (.call k :: ds) r w' := by
  obtain ((e | s) | a) := r
  · exact List.append_nil ds ▸ .call (h.attempt.bind (.ofExcept (.error e)))
  · exact .call h.attempt.bind_error
  · exact List.append_nil ds ▸ .call (h.attempt.bind (.ofExcept (.ok a)))

theorem request {g : Goal} {r : Except Failure Instance} (h : Responds I S w g ds r w') :
    Evaluates I S w (Program.request g) (.ask g :: ds) r w' := by
  obtain ((e | s) | i) := r
  · exact List.append_nil ds ▸ .resolve (a := .error e) h (.ofExcept (.error e))
  · exact .resolve_crash h
  · exact List.append_nil ds ▸ .resolve (a := .ok i) h (.ofExcept (.ok i))

theorem of_request {g : Goal} {r : Except Failure Instance}
    (h : Evaluates I S w (Program.request g) ds r w') :
    ∃ ds₀, ds = .ask g :: ds₀ ∧ Responds I S w g ds₀ r w' := by
  obtain ⟨ds₁, a, w₁, ds₂, hg, h', rfl⟩ | ⟨ds₁, s, hg, rfl, rfl⟩ := h.of_resolve
  · obtain ⟨rfl, rfl, rfl⟩ := h'.of_ofExcept
    exact ⟨ds₁, by rw [List.append_nil], hg⟩
  · exact ⟨ds₁, rfl, hg⟩

theorem unique {r' : Except Failure α} (h : Evaluates I S w p ds r w')
    (h' : Evaluates I S w p ds' r' w₁) : ds = ds' ∧ r = r' ∧ w' = w₁ := by
  induction h generalizing ds' w₁ with
  | done => cases h'; exact ⟨rfl, rfl, rfl⟩
  | fail => cases h'; exact ⟨rfl, rfl, rfl⟩
  | crash => cases h'; exact ⟨rfl, rfl, rfl⟩
  | act ha _ _ ih =>
    cases h' with
    | act ha' _ h' =>
      cases ha.symm.trans ha'
      obtain ⟨rfl, rfl, rfl⟩ := ih h'
      exact ⟨rfl, rfl, rfl⟩
  | call _ ih =>
    cases h' with
    | call h' =>
      obtain ⟨rfl, rfl, rfl⟩ := ih h'
      exact ⟨rfl, rfl, rfl⟩
  | settled ho _ ih =>
    cases h' with
    | settled ho' h' =>
      cases ho.symm.trans ho'
      obtain ⟨rfl, rfl, rfl⟩ := ih h'
      exact ⟨rfl, rfl, rfl⟩
    | entered ho' => cases ho.symm.trans ho'
    | crashed ho' => cases ho.symm.trans ho'
  | @entered α S w g next c x p keeps ds₁ r₁ w₁ a w₂ ds₂ r w' ho _ hk _ ihp ih =>
    cases h' with
    | settled ho' => cases ho.symm.trans ho'
    | @entered _ _ _ _ _ _ _ _ _ _ _ _ b w₃ _ _ _ ho' hp' hk' h' =>
      cases ho.symm.trans ho'
      obtain ⟨rfl, rfl, rfl⟩ := ihp hp'
      obtain ⟨ha, rfl⟩ := Prod.mk.inj (hk.symm.trans hk')
      obtain rfl := Failure.mapError_inj ha
      obtain ⟨rfl, rfl, rfl⟩ := ih h'
      exact ⟨rfl, rfl, rfl⟩
    | crashed ho' hp' =>
      cases ho.symm.trans ho'
      obtain ⟨rfl, rfl, rfl⟩ := ihp hp'
      exact absurd hk World.keep_crash
  | crashed ho _ ihp =>
    cases h' with
    | settled ho' => cases ho.symm.trans ho'
    | entered ho' hp' hk' =>
      cases ho.symm.trans ho'
      obtain ⟨rfl, rfl, rfl⟩ := ihp hp'
      exact absurd hk' World.keep_crash
    | crashed ho' hp' =>
      cases ho.symm.trans ho'
      obtain ⟨rfl, hr, rfl⟩ := ihp hp'
      cases hr
      exact ⟨rfl, rfl, rfl⟩

end Evaluates

end

end Wiring
