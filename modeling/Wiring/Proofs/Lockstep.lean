import Wiring.Proofs.PairedMachines

namespace Wiring

variable {C : Client} (ρ : Likeness C) (c : ContainerId)

structure Site.Alike (s s' : Site C) : Prop where
  container : s.container = c ∧ s'.container = c
  name : s.name = s'.name
  entry : ρ.entry s.entry s'.entry
  registration : s.registration.Alike ρ s'.registration

inductive Control.Alike : Control C → Control C → Prop
  | find {name o o'} (h : o.Alike ρ o') : Alike (.find c name o) (.find c name o')
  | peek {s s'} (h : s.Alike ρ c s') : Alike (.peek s) (.peek s')
  | enter {x K K'} (h : Alike K K') : Alike (.enter c x K) (.enter c x K')
  | attempt {s s'} (h : s.Alike ρ c s') : Alike (.attempt s) (.attempt s')
  | claim {s s'} (h : s.Alike ρ c s') : Alike (.claim s) (.claim s')
  | recheck {s s'} (h : s.Alike ρ c s') : Alike (.recheck s) (.recheck s')
  | run {p p'} (h : p.Alike ρ c (Instance.Alike ρ) p') : Alike (.run p) (.run p')
  | notify {r r'} (h : Except.Rel Eq (Instance.Alike ρ) r r') : Alike (.notify r) (.notify r')
  | finish {r r'} (h : Except.Rel Eq (Instance.Alike ρ) r r') : Alike (.finish r) (.finish r')

inductive FramesAlike (B B' : List (Frame C)) : List (Frame C) → List (Frame C) → Prop
  | base : FramesAlike B B' B B'
  | caller {next next' F F'}
      (h : ∀ r r', Except.Rel Eq (Instance.Alike ρ) r r' →
        (next r).Alike ρ c (Instance.Alike ρ) (next' r'))
      (hF : FramesAlike B B' F F') : FramesAlike B B' (.caller next :: F) (.caller next' :: F')
  | inside {x F F'} (hF : FramesAlike B B' F F') :
      FramesAlike B B' (.inside c x :: F) (.inside c x :: F')
  | keeps {s s' F F'} (h : s.Alike ρ c s') (hF : FramesAlike B B' F F') :
      FramesAlike B B' (.keeps s :: F) (.keeps s' :: F')
  | owns {s s' F F'} (h : s.Alike ρ c s') (hF : FramesAlike B B' F F') :
      FramesAlike B B' (.owns s :: F) (.owns s' :: F')

inductive Activity.Alike (B B' : List (Frame C))
    (next next' : Except Error Instance → Program C C.Report) :
    Activity C → Activity C → Prop
  | resolving {K K' F F'} (hK : K.Alike ρ c K') (hF : FramesAlike ρ c B B' F F') :
      Alike B B' next next' (.resolving K F next) (.resolving K' F' next')

def Likeness.left (o : ObjectId) : Prop := ∃ p, ρ.object o p

def Likeness.right (p : ObjectId) : Prop := ∃ o, ρ.object o p

/-- The machines have a single thread each, and agree on container `c` and on its targets on the
thread's stack. -/
structure Twins (m m' : Machine C) : Prop where
  single : m.threads.length = 1 ∧ m'.threads.length = 1
  world : m.world.Alike ρ c m'.world
  targets : (m.stack 0).targets c = (m'.stack 0).targets c

namespace Machine

structure Spares (known : ObjectId → Prop) (m n : Machine C) : Prop where
  world : m.world.Spares c known n.world
  stack : (n.stack 0).others c = (m.stack 0).others c

def solo (w : World C) (th : Thread C) : Machine C := ⟨w, [th]⟩

end Machine

structure Twins.After (J : Activity C → Activity C → Prop) (m m' n n' : Machine C) : Prop where
  twins : Twins ρ c n n'
  spares : m.Spares c ρ.left n ∧ m'.Spares c ρ.right n'
  activities : J (n.activity 0) (n'.activity 0)

open Machine (solo)

variable {ρ c} {I : Implementation C} {w w' : World C} {th th' : Thread C}
  {J : Activity C → Activity C → Prop} {m m' n n' : Machine C}

namespace Machine

theorem Spares.refl (known : ObjectId → Prop) (m : Machine C) : m.Spares c known m :=
  ⟨.refl _, rfl⟩

theorem Spares.trans {known : ObjectId → Prop} {m n k : Machine C} (h : m.Spares c known n)
    (h' : n.Spares c known k) : m.Spares c known k :=
  ⟨h.world.trans h'.world, h'.stack.trans h.stack⟩

theorem eq_solo (h : m.threads.length = 1) : ∃ th, m = solo m.world th := by
  obtain ⟨th, hth⟩ := List.length_eq_one_iff.1 h
  exact ⟨th, by rw [solo, ← hth]⟩

theorem step_solo {K : Control C} {F : List (Frame C)}
    {next : Except Error Instance → Program C C.Report}
    (h : th.activity = .resolving K F next) :
    (solo w th).step I 0 = (solo w th).advance 0 th next I F K := by
  simp only [step, solo, List.getElem?_cons_zero, Option.bind_eq_bind, Option.bind_some, h]

theorem notify_solo {r : Except Failure Instance} {F : List (Frame C)}
    {next : Except Error Instance → Program C C.Report}
    (h : th.activity = .resolving (.notify r) F next) :
    (solo w th).advance 0 th next I F (.notify r) = some (solo w (th.goes (.finish r) F next)) := by
  have hw : (solo w th).wakeAll = solo w th := by
    simp only [wakeAll, solo, List.map, Thread.wake, h]
  simp only [advance, hw]
  rfl

end Machine

theorem Twins.still {th₁ th₁' : Thread C} {b b' : BuildGraph} {l l' : List String}
    (h : Twins ρ c (solo w th) (solo w' th'))
    (hs : th₁.stack = th.stack) (hs' : th₁'.stack = th'.stack)
    (hJ : J th₁.activity th₁'.activity) :
    After ρ c J (solo w th) (solo w' th') (solo { w with builds := b, waits := l } th₁)
      (solo { w' with builds := b', waits := l' } th₁') where
  twins := ⟨⟨rfl, rfl⟩, h.world.of_builds, by
    have ht : th.stack.targets c = th'.stack.targets c := h.targets
    change th₁.stack.targets c = th₁'.stack.targets c
    rw [hs, hs', ht]⟩
  spares := by
    constructor
    · exact ⟨.of_eq rfl rfl rfl rfl, congrArg (·.others c) hs⟩
    · exact ⟨.of_eq rfl rfl rfl rfl, congrArg (·.others c) hs'⟩
  activities := hJ

section

variable {B B' F F' : List (Frame C)} {next next' : Except Error Instance → Program C C.Report}
  {o o' : Overrides} {s s' : Site C}

theorem Twins.find (h : Twins ρ c (solo w th) (solo w' th')) (ho : o.Alike ρ o') (name : String)
    (hF : FramesAlike ρ c B B' F F') :
    After ρ c (Activity.Alike ρ c B B' next next') (solo w th) (solo w' th')
      ((solo w th).find 0 next c name o F) ((solo w' th').find 0 next' c name o' F') := by
  have he : Option.Rel _ ((solo w th).world.entry? c name) ((solo w' th').world.entry? c name) :=
    h.world.entry? name
  unfold Machine.find
  generalize (solo w th).world.entry? c name = a, (solo w' th').world.entry? c name = b at he
  cases he with
  | none => exact h.still rfl rfl (.resolving (.finish (.error rfl)) hF)
  | @some x y hxy =>
    obtain ⟨e, x⟩ := x
    obtain ⟨f, y⟩ := y
    have hr : x.registration.Alike ρ y.registration := hxy.2.registration
    simp only [hr.shared, ho.isEmpty]
    split
    · exact h.still rfl rfl (.resolving (.peek ⟨⟨rfl, rfl⟩, rfl, hxy.1, hr⟩) hF)
    · have hbuild := build_corresponds (κ := ρ.confined c) rfl hr ho name
      exact h.still rfl rfl (.resolving (.enter (.run hbuild)) hF)

theorem Twins.cached (h : Twins ρ c (solo w th) (solo w' th')) (hs : s.Alike ρ c s') :
    Option.Rel (Instance.Alike ρ) ((solo w th).world.cached s.entry)
      ((solo w' th').world.cached s'.entry) := h.world.cached hs.entry

theorem Twins.peek (h : Twins ρ c (solo w th) (solo w' th')) (hs : s.Alike ρ c s')
    (hF : FramesAlike ρ c B B' F F') :
    After ρ c (Activity.Alike ρ c B B' next next') (solo w th) (solo w' th')
      ((solo w th).peek 0 th next s F) ((solo w' th').peek 0 th' next' s' F') := by
  have hi := h.cached hs
  unfold Machine.peek
  generalize (solo w th).world.cached s.entry = a, (solo w' th').world.cached s'.entry = b at hi
  rw [hs.container.1, hs.container.2, hs.name]
  cases hi with
  | none => exact h.still rfl rfl (.resolving (.enter (.attempt hs)) hF)
  | some hi => exact h.still rfl rfl (.resolving (.finish (.ok hi)) hF)

theorem Twins.enter {x : Target} {K K' : Control C} (h : Twins ρ c (solo w th) (solo w' th'))
    (hK : K.Alike ρ c K') (hF : FramesAlike ρ c B B' F F') :
    After ρ c (Activity.Alike ρ c B B' next next') (solo w th) (solo w' th')
      ((solo w th).enter 0 th next c x K F) ((solo w' th').enter 0 th' next' c x K' F') := by
  have ht : th.stack.targets c = th'.stack.targets c := h.targets
  unfold Machine.enter
  rw [Stack.cycle?_eq ht]
  cases th'.stack.cycle? c x with
  | some chain => exact h.still rfl rfl (.resolving (.finish (.error rfl)) hF)
  | none =>
    refine ⟨⟨⟨rfl, rfl⟩, h.world, ?_⟩, ⟨⟨.refl w, ?_⟩, ⟨.refl w', ?_⟩⟩, .resolving hK hF.inside⟩
    · change (th.stack.enter c x).targets c = (th'.stack.enter c x).targets c
      rw [Stack.targets_enter, Stack.targets_enter, ht]
    · exact Stack.others_enter th.stack c x
    · exact Stack.others_enter th'.stack c x

theorem Twins.attempt (h : Twins ρ c (solo w th) (solo w' th')) (hs : s.Alike ρ c s')
    (hF : FramesAlike ρ c B B' F F') :
    After ρ c (Activity.Alike ρ c B B' next next') (solo w th) (solo w' th')
      ((solo w th).attempt 0 next s F) ((solo w' th').attempt 0 next' s' F') := by
  have hi := h.cached hs
  unfold Machine.attempt
  generalize (solo w th).world.cached s.entry = a, (solo w' th').world.cached s'.entry = b at hi
  cases hi with
  | none => exact h.still rfl rfl (.resolving (.claim hs) hF)
  | some hi => exact h.still rfl rfl (.resolving (.finish (.ok hi)) hF)

theorem Twins.claim (h : Twins ρ c (solo w th) (solo w' th')) (hs : s.Alike ρ c s')
    (hfree : w.builds.owners.get? s.key = none) (hfree' : w'.builds.owners.get? s'.key = none)
    (hF : FramesAlike ρ c B B' F F') :
    After ρ c (Activity.Alike ρ c B B' next next') (solo w th) (solo w' th')
      ((solo w th).claim 0 th next s F) ((solo w' th').claim 0 th' next' s' F') := by
  simp only [Machine.claim, solo, hfree, hfree']
  exact h.still rfl rfl (.resolving (.recheck hs) (hF.owns hs))

theorem Twins.recheck (h : Twins ρ c (solo w th) (solo w' th')) (hs : s.Alike ρ c s')
    (hF : FramesAlike ρ c B B' F F') :
    After ρ c (Activity.Alike ρ c B B' next next') (solo w th) (solo w' th')
      ((solo w th).recheck 0 next s F) ((solo w' th').recheck 0 next' s' F') := by
  have hi := h.cached hs
  unfold Machine.recheck
  generalize (solo w th).world.cached s.entry = a, (solo w' th').world.cached s'.entry = b at hi
  rw [hs.container.1, hs.container.2, hs.name]
  cases hi with
  | none =>
    have hbuild := build_corresponds (κ := ρ.confined c) rfl hs.registration .empty s'.name
    exact h.still rfl rfl (.resolving (.run hbuild) (hF.keeps hs))
  | some hi => exact h.still rfl rfl (.resolving (.finish (.ok hi)) hF)

theorem Twins.keep {i j : Instance} (h : Twins ρ c (solo w th) (solo w' th'))
    (hs : s.Alike ρ c s') (hij : i.Alike ρ j) (hF : FramesAlike ρ c B B' F F') :
    After ρ c (Activity.Alike ρ c B B' next next') (solo w th) (solo w' th')
      ((solo w th).keep 0 next s i F) ((solo w' th').keep 0 next' s' j F') := by
  have hi := h.cached hs
  unfold Machine.keep
  generalize (solo w th).world.cached s.entry = a, (solo w' th').world.cached s'.entry = b at hi
  cases hi with
  | none =>
    refine ⟨⟨⟨rfl, rfl⟩, h.world.setCache hs.entry hij, h.targets⟩, ⟨⟨?_, rfl⟩, ⟨?_, rfl⟩⟩,
      .resolving (.finish (.ok hij)) hF⟩
    · exact .setCache i fun d name hd => (h.world.own hs.entry).1 hd
    · exact .setCache j fun d name hd => (h.world.own hs.entry).2 hd
  | some hi => exact h.still rfl rfl (.resolving (.finish (.ok hi)) hF)

theorem Twins.finish {r r' : Except Failure Instance} (h : Twins ρ c (solo w th) (solo w' th'))
    (hr : Except.Rel Eq (Instance.Alike ρ) r r') (hF : FramesAlike ρ c B B' F F')
    (hend : ¬(F = B ∧ F' = B')) :
    After ρ c (Activity.Alike ρ c B B' next next') (solo w th) (solo w' th')
      ((solo w th).finish 0 th next r F) ((solo w' th').finish 0 th' next' r' F') := by
  cases hF with
  | base => exact absurd ⟨rfl, rfl⟩ hend
  | caller hnext hF =>
    cases hr with
    | ok hi => exact h.still rfl rfl (.resolving (.run (hnext _ _ (.ok hi))) hF)
    | @error f _ he =>
      cases he
      cases f with
      | error e => exact h.still rfl rfl (.resolving (.run (hnext _ _ (.error rfl))) hF)
      | crash message => exact h.still rfl rfl (.resolving (.finish (.error rfl)) hF)
  | inside hF =>
    have ht : th.stack.targets c = th'.stack.targets c := h.targets
    refine ⟨⟨⟨rfl, rfl⟩, h.world, ?_⟩, ⟨⟨.refl w, ?_⟩, ⟨.refl w', ?_⟩⟩,
      .resolving (.finish hr) hF⟩
    · change (th.stack.leave c).targets c = (th'.stack.leave c).targets c
      rw [Stack.targets_leave, Stack.targets_leave, ht]
    · exact Stack.others_leave th.stack c
    · exact Stack.others_leave th'.stack c
  | keeps hs hF =>
    cases hr with
    | ok hi => exact h.keep hs hi hF
    | error he => exact h.still rfl rfl (.resolving (.finish (.error he)) hF)
  | owns hs hF => exact h.still rfl rfl (.resolving (.notify hr) hF)

theorem Twins.perform {a b : Action C} {Rep : a.Reply → b.Reply → Prop}
    (h : Twins ρ c (solo w th) (solo w' th')) (ha : a.Alike ρ c b Rep) :
    ∃ r r' w₁ w₁', (solo w th).perform I 0 th a = some (r, solo w₁ (a.mark th)) ∧
      (solo w' th').perform I 0 th' b = some (r', solo w₁' (b.mark th')) ∧ Rep r r' ∧
      w₁.Alike ρ c w₁' ∧ w.Spares c ρ.left w₁ ∧ w'.Spares c ρ.right w₁' := by
  have hw : w.Alike ρ c w' := h.world
  cases ha with
  | @insert name r s hr =>
    refine ⟨_, _, _, _, rfl, rfl, hw.contains name, hw.insert hr name, ?_, ?_⟩
    · exact .insert name r fun d other he => (hw.own (hw.newEntries 0)).1 he
    · exact .insert name s fun d other he => (hw.own (hw.newEntries 0)).2 he
  | @erase name =>
    exact ⟨_, _, _, _, rfl, rfl, hw.contains name, hw.erase name, .erase name, .erase name⟩
  | names => exact ⟨_, _, _, _, rfl, rfl, hw.names, hw, .refl w, .refl w'⟩
  | candidates =>
    exact ⟨_, _, _, _, rfl, rfl, hw.candidates h.targets _, hw, .refl w, .refl w'⟩
  | lookup => exact ⟨_, _, _, _, rfl, rfl, hw.lookup _, hw, .refl w, .refl w'⟩
  | cached he => exact ⟨_, _, _, _, rfl, rfl, hw.cached he, hw, .refl w, .refl w'⟩
  | @allocate type v v' hv =>
    refine ⟨_, _, _, _, rfl, rfl, ⟨rfl, hw.newObjects 0⟩, hw.allocate type hv, ?_, ?_⟩
    · exact .allocate type v ⟨_, hw.newObjects 0⟩
    · exact .allocate type v' ⟨_, hw.newObjects 0⟩
  | modify ho hfg =>
    refine ⟨_, _, _, _, rfl, rfl, hw.value ho, hw.modify ho hfg, ?_, ?_⟩
    · exact .modify _ ⟨_, ho⟩
    · exact .modify _ ⟨_, ho⟩
  | update hfg =>
    refine ⟨_, _, _, _, rfl, rfl, hw.state, ?_, .of_eq rfl rfl rfl rfl, .of_eq rfl rfl rfl rfl⟩
    exact ⟨hw.inRange, hw.services, hw.entries, hw.objects, hw.newEntries, hw.newObjects, hw.own,
      hfg _ _ hw.state⟩
  | note => exact ⟨_, _, _, _, rfl, rfl, rfl, hw, .refl w, .refl w'⟩
  | emit => exact ⟨_, _, _, _, rfl, rfl, rfl, hw, .refl w, .refl w'⟩

end

def Activity.Confined (ρ : Likeness C) (c : ContainerId) (I : Implementation C) (A : Activity C) :
    Prop :=
  ∀ (L : Scope C) k next, A = L.runs (.call k next) → k.Confined ρ c I

def Machine.BothStep (I : Implementation C) (m m' : Machine C) (R : Machine C → Machine C → Prop) :
    Prop :=
  ∃ n n', m.step I 0 = some n ∧ m'.step I 0 = some n' ∧ R n n'

section

variable {B B' F F' : List (Frame C)} {next next' : Except Error Instance → Program C C.Report}

theorem Goal.Alike.control {g g' : Goal} (h : g.Alike ρ c g') :
    (g.control : Control C).Alike ρ c g'.control := by
  cases h with
  | service ho => exact .find ho
  | «class» ho => exact .enter (.run (construct_corresponds (κ := ρ.confined c) rfl ho _))

theorem Twins.run {p p' : Program C Instance} (h : Twins ρ c (solo w th) (solo w' th'))
    (hp : p.Alike ρ c (Instance.Alike ρ) p') (hF : FramesAlike ρ c B B' F F')
    (hcall : ∀ k rest, p = .call k rest → k.Confined ρ c I) :
    ∃ n n', (solo w th).runInside 0 th next I F p = some n ∧
      (solo w' th').runInside 0 th' next' I F' p' = some n' ∧
      After ρ c (Activity.Alike ρ c B B' next next') (solo w th) (solo w' th') n n' := by
  cases hp with
  | done hi => exact ⟨_, _, rfl, rfl, h.still rfl rfl (.resolving (.finish (.ok hi)) hF)⟩
  | fail he =>
    cases he
    exact ⟨_, _, rfl, rfl, h.still rfl rfl (.resolving (.finish (.error rfl)) hF)⟩
  | crash he =>
    cases he
    exact ⟨_, _, rfl, rfl, h.still rfl rfl (.resolving (.finish (.error rfl)) hF)⟩
  | @act a b Rep f g ha hnext =>
    obtain ⟨r, r', w₁, w₁', hp, hp', hr, hw, hsp, hsp'⟩ := h.perform (I := I) ha
    simp only [Machine.runInside, hp, hp', Option.map_some]
    refine ⟨_, _, rfl, rfl, ⟨⟨rfl, rfl⟩, hw, ?_⟩, ⟨⟨hsp, ?_⟩, ⟨hsp', ?_⟩⟩,
      .resolving (.run (hnext r r' hr)) hF⟩
    · change (a.mark th).stack.targets c = (b.mark th').stack.targets c
      rw [a.mark_stack, b.mark_stack]
      exact h.targets
    · exact congrArg (·.others c) (a.mark_stack th)
    · exact congrArg (·.others c) (b.mark_stack th')
  | @call d k l Rep f g hd hk hnext =>
    cases hd
    have hbody := (hcall k f rfl l Rep hk).attempt.bind hnext
    exact ⟨_, _, rfl, rfl, h.still rfl rfl (.resolving (.run hbody) hF)⟩
  | resolve hd hg hnext =>
    cases hd
    exact ⟨_, _, rfl, rfl, h.still rfl rfl (.resolving hg.control (hF.caller hnext))⟩

theorem Twins.step (h : Twins ρ c m m')
    (ha : Activity.Alike ρ c B B' next next' (m.activity 0) (m'.activity 0))
    (hm : m.Consistent) (hm' : m'.Consistent) (hreach : (m.activity 0).Confined ρ c I) :
    (∃ r r', Except.Rel Eq (Instance.Alike ρ) r r' ∧
      m.activity 0 = .resolving (.finish r) B next ∧
      m'.activity 0 = .resolving (.finish r') B' next') ∨
      Machine.BothStep I m m' (After ρ c (Activity.Alike ρ c B B' next next') m m') := by
  obtain ⟨th, hth⟩ := Machine.eq_solo h.single.1
  obtain ⟨th', hth'⟩ := Machine.eq_solo h.single.2
  generalize m.world = w at hth
  generalize m'.world = w' at hth'
  subst hth hth'
  have hA : (solo w th).activity 0 = th.activity := rfl
  have hA' : (solo w' th').activity 0 = th'.activity := rfl
  rw [hA, hA'] at ha ⊢
  rw [hA] at hreach
  generalize hB : th.activity = A, hB' : th'.activity = A' at ha
  obtain @⟨K, K', F, F', hK, hF⟩ := ha
  have hdone : ∀ n n', (solo w th).advance 0 th next I F K = some n →
      (solo w' th').advance 0 th' next' I F' K' = some n' →
      After ρ c (Activity.Alike ρ c B B' next next') (solo w th) (solo w' th') n n' →
      Machine.BothStep I (solo w th) (solo w' th')
        (After ρ c (Activity.Alike ρ c B B' next next') (solo w th) (solo w' th')) :=
    fun n n' hn hn' hafter =>
      ⟨n, n', (Machine.step_solo hB).trans hn, (Machine.step_solo hB').trans hn', hafter⟩
  cases hK with
  | find ho => exact .inr (hdone _ _ rfl rfl (h.find ho _ hF))
  | peek hs => exact .inr (hdone _ _ rfl rfl (h.peek hs hF))
  | enter hK => exact .inr (hdone _ _ rfl rfl (h.enter hK hF))
  | attempt hs => exact .inr (hdone _ _ rfl rfl (h.attempt hs hF))
  | claim hs =>
    have hfree := hm.claim_free h.single.1 (hA.trans hB)
    have hfree' := hm'.claim_free h.single.2 (hA'.trans hB')
    exact .inr (hdone _ _ rfl rfl (h.claim hs hfree hfree' hF))
  | recheck hs => exact .inr (hdone _ _ rfl rfl (h.recheck hs hF))
  | @run q q' hp =>
    have hcall : ∀ k f, q = .call k f → k.Confined ρ c I :=
      fun k f he => hreach (.inside F next) k f (by rw [hB, he]; rfl)
    obtain ⟨n, n', hn, hn', hafter⟩ := h.run hp hF hcall
    exact .inr (hdone n n' hn hn' hafter)
  | notify hr =>
    exact .inr (hdone _ _ (Machine.notify_solo hB) (Machine.notify_solo hB')
      (h.still rfl rfl (.resolving (.finish hr) hF)))
  | @finish r r' hr =>
    by_cases hend : F = B ∧ F' = B'
    · obtain ⟨rfl, rfl⟩ := hend
      exact .inl ⟨r, r', hr, rfl, rfl⟩
    · exact .inr (hdone _ _ rfl rfl (h.finish hr hF hend))

end

end Wiring
