import Wiring.Proofs.Contract
import Wiring.Proofs.Outcome
import Wiring.Proofs.Waiting

namespace Wiring

open Machine

variable {C : Client} {I : Implementation C} {w : World C} {c : ContainerId}

structure Solo (P : Contract I w c) (todo : List (Program C C.Report))
    (records : List (StepRecord C)) (m : Machine C) (th : Thread C) : Prop where
  threads : m.threads = [th]
  consistent : m.Consistent
  holds : P.Holds m.world
  todo : th.todo = todo
  records : th.records = records

inductive Arrives (P : Contract I w c) (late : ℕ → Prop) (records : List (StepRecord C))
    (goal : Machine C → Thread C → Prop) : ℕ → Machine C → Thread C → Prop
  | late {k m th} (h : late k) : Arrives P late records goal k m th
  | reached {k m th} (h : goal m th) : Arrives P late records goal k m th
  | step {k m m' th th'} (ht : m.threads = [th]) (hr : th.records = records)
      (hs : m.step I 0 = some m') (hg : P.grows m.world.objects m'.world.objects)
      (h : Arrives P late records goal (k + 1) m' th') : Arrives P late records goal k m th

def Ended (P : Contract I w c) (todo : List (Program C C.Report)) (records : List (StepRecord C))
    (F : List (Frame C)) (next : Except Error Instance → Program C C.Report)
    (Q : Except Failure Instance → List Value → Prop) (m : Machine C) (th : Thread C) : Prop :=
  Solo P todo records m th ∧
    ∃ r, th.activity = .resolving (.finish r) F next ∧ Q r m.world.objects

def Control.Moves : Control C → Prop
  | .asleep .. | .notify _ => False
  | _ => True

variable {P : Contract I w c} {todo : List (Program C C.Report)} {records : List (StepRecord C)}
  {late : ℕ → Prop} {goal goal' : Machine C → Thread C → Prop} {k b : ℕ} {m m' : Machine C}
  {th th' : Thread C} {K : Control C} {F G : List (Frame C)}
  {next : Except Error Instance → Program C C.Report}
  {Q : Except Failure Instance → List Value → Prop} {r : Except Failure Instance} {s : Site C}
  {x : Item} {y : Target} {S : List Item}

namespace Solo

theorem get (h : Solo P todo records m th) : m.threads[0]? = some th := by rw [h.threads]; rfl

theorem activity_eq (h : Solo P todo records m th) : m.activity 0 = th.activity :=
  Machine.activity_eq h.get

theorem orderly (h : Solo P todo records m th) : Orderly th.stack th.activity :=
  h.consistent.orderly h.get

theorem stack_eq (h : Solo P todo records m th) (ha : th.activity = .resolving K F next) :
    th.stack = insides F := by
  have ho := h.orderly
  rw [ha] at ho
  exact ho.stack_eq

theorem step_isSome (h : Solo P todo records m th) (ha : th.activity = .resolving K F next)
    (hK : ∀ s owner, K ≠ .asleep s owner)
    (hact : ∀ a rest, K = .run (.act a rest) → m.perform I 0 th a ≠ none) :
    (m.step I 0).isSome := by
  refine Machine.step_isSome (h.activity_eq.trans ha) hK ?_
  rintro ⟨th₀, a, hth, hp, ⟨rest, ha'⟩ | ⟨rest, F', next', ha'⟩⟩
  · cases h.get.symm.trans hth
    cases ha.symm.trans ha'
  · cases h.get.symm.trans hth
    cases ha.symm.trans ha'
    exact hact a rest rfl hp

theorem after (h : Solo P todo records m th) {todo' : List (Program C C.Report)}
    {records' : List (StepRecord C)} (hs : m.step I 0 = some m') (ht : m'.threads = [th'])
    (hw : P.Holds m'.world) (htodo : th'.todo = todo') (hrecords : th'.records = records') :
    Solo P todo' records' m' th' :=
  ⟨ht, h.consistent.step hs, hw, htodo, hrecords⟩

end Solo

def Answers (P : Contract I w c) (late : ℕ → Prop) (b : ℕ) (S : List Item) (x : Item) : Prop :=
  ∀ k todo records m th F next, b ≤ k → Solo P todo records m th →
    th.activity = .resolving (x.goal c).control F next → insides F = under c S →
      Arrives P late records (Ended P todo records F next (P.fair S x)) k m th

namespace Arrives

theorem trans (h : Arrives P late records goal k m th)
    (hnext : ∀ k' m' th', k ≤ k' → P.grows m.world.objects m'.world.objects → goal m' th' →
      Arrives P late records goal' k' m' th') : Arrives P late records goal' k m th := by
  induction h with
  | late h => exact .late h
  | reached h => exact hnext _ _ _ (Nat.le_refl _) (P.refl _) h
  | @step k m m' th th' ht hr hs hg h ih =>
    refine .step ht hr hs hg (ih fun k' m'' th'' hk hg' => ?_)
    exact hnext k' m'' th'' (Nat.le_of_succ_le hk) (P.trans hg hg')

theorem of_step (h : Solo P todo records m th) (hs : (m.step I 0).isSome)
    (hn : ∀ r F next, th.activity ≠ .resolving (.notify r) F next)
    (hnext : ∀ w' th' fresh, Move I m 0 th w' th' fresh → fresh = [] ∧ P.Holds w' ∧
      P.grows m.world.objects w'.objects ∧
      ∀ m', m'.world = w' → Solo P th'.todo th'.records m' th' →
        Arrives P late records goal (k + 1) m' th') : Arrives P late records goal k m th := by
  obtain ⟨m', hm'⟩ := Option.isSome_iff_exists.1 hs
  obtain ⟨th₀, hth, hst⟩ := step_cases hm'
  cases h.get.symm.trans hth
  cases hst with
  | @move w' th' fresh hm =>
    obtain ⟨rfl, hw, hg, hleads⟩ := hnext w' th' fresh hm
    have hthreads : m.threads.set 0 th' ++ [] = [th'] := by rw [h.threads]; rfl
    exact .step h.threads h.records hm' hg (hleads _ rfl (h.after hm' hthreads hw rfl rfl))
  | notify ha => exact absurd ha (hn _ _ _)

theorem of_move (h : Solo P todo records m th) (ha : th.activity = .resolving K G next)
    (hK : K.Moves) (hs : (m.step I 0).isSome)
    (hnext : ∀ w' th' fresh, Move I m 0 th w' th' fresh → fresh = [] ∧ P.Holds w' ∧
      P.grows m.world.objects w'.objects ∧ (∃ K' G', th'.activity = .resolving K' G' next) ∧
      ∀ m', m'.world = w' → Solo P todo records m' th' →
        Arrives P late records goal (k + 1) m' th') : Arrives P late records goal k m th := by
  refine of_step h hs ?_ fun w' th' fresh hm => ?_
  · rintro r F next' hn
    cases ha.symm.trans hn
    exact hK
  · obtain ⟨hfresh, hw, hg, ⟨K', G', ha'⟩, hleads⟩ := hnext w' th' fresh hm
    obtain ⟨htodo, hrecords⟩ := hm.resolving_rest ha'
    refine ⟨hfresh, hw, hg, fun m' hm' h' => hleads m' hm' ?_⟩
    rwa [htodo, hrecords, h.todo, h.records] at h'

theorem of_still (h : Solo P todo records m th) (ha : th.activity = .resolving K G next)
    (hK : K.Moves) (hact : ∀ a rest, K ≠ .run (.act a rest))
    (hnext : ∀ w' th' fresh, Move I m 0 th w' th' fresh → fresh = [] ∧
      w' = { m.world with builds := w'.builds, waits := w'.waits } ∧
      (∃ K' G', th'.activity = .resolving K' G' next) ∧
      ∀ m', m'.world.objects = m.world.objects → Solo P todo records m' th' →
        Arrives P late records goal (k + 1) m' th') : Arrives P late records goal k m th := by
  have hs := h.step_isSome (I := I) ha (by rintro s owner rfl; exact hK)
    fun a rest he => absurd he (hact a rest)
  refine of_move h ha hK hs fun w' th' fresh hm => ?_
  obtain ⟨hfresh, hw, hres, hleads⟩ := hnext w' th' fresh hm
  refine ⟨hfresh, ?_, ?_, hres, fun m' hm' h' => hleads m' ?_ h'⟩
  · rw [hw]
    exact h.holds.of_builds _ _
  · rw [hw]
    exact P.refl _
  · rw [hm', hw]

theorem finished (h : Solo P todo records m th)
    (ha : th.activity = .resolving (.finish r) F next) (hQ : Q r m.world.objects) :
    Arrives P late records (Ended P todo records F next Q) k m th :=
  .reached ⟨h, r, ha, hQ⟩

theorem leave (h : Solo P todo records m th)
    (ha : th.activity = .resolving (.finish r) (.inside c y :: F) next)
    (hQ : Q r m.world.objects) : Arrives P late records (Ended P todo records F next Q) k m th := by
  refine of_still h ha trivial (by rintro _ _ ⟨⟩) fun w' th' fresh hm => ?_
  cases hm with
  | leave hl =>
    cases ha.symm.trans hl
    exact ⟨rfl, rfl, ⟨_, _, rfl⟩, fun m' ho h' => finished h' rfl (ho ▸ hQ)⟩
  | _ => cases ha.symm.trans ‹th.activity = _›

theorem notify (h : Solo P todo records m th)
    (ha : th.activity = .resolving (.notify r) (.inside c y :: F) next)
    (hQ : Q r m.world.objects) : Arrives P late records (Ended P todo records F next Q) k m th := by
  have hs := h.step_isSome (I := I) ha (by rintro _ _ ⟨⟩) (by rintro _ _ ⟨⟩)
  obtain ⟨m', hm'⟩ := Option.isSome_iff_exists.1 hs
  obtain ⟨th₀, hth, hst⟩ := step_cases hm'
  cases h.get.symm.trans hth
  cases hst with
  | move hm => cases hm <;> cases ha.symm.trans ‹th.activity = _›
  | notify hn =>
    cases ha.symm.trans hn
    have hthreads : (m.threads.map Thread.wake).set 0 (th.goes (.finish r) (.inside c y :: F) next)
        = [th.goes (.finish r) (.inside c y :: F) next] := by rw [h.threads]; rfl
    have h' := h.after hm' hthreads h.holds h.todo h.records
    exact .step h.threads h.records hm' (P.refl _) (leave h' rfl hQ)

theorem release (h : Solo P todo records m th)
    (ha : th.activity = .resolving (.finish r) (.owns s :: .inside c y :: F) next)
    (hQ : Q r m.world.objects) : Arrives P late records (Ended P todo records F next Q) k m th := by
  refine of_still h ha trivial (by rintro _ _ ⟨⟩) fun w' th' fresh hm => ?_
  cases hm with
  | release hl =>
    cases ha.symm.trans hl
    exact ⟨rfl, rfl, ⟨_, _, rfl⟩, fun m' ho h' => notify h' rfl (ho ▸ hQ)⟩
  | _ => cases ha.symm.trans ‹th.activity = _›

theorem ended (h : Solo P todo records m th)
    (ha : th.activity = .resolving (.run (.ended r)) F next) (hQ : Q r m.world.objects) :
    Arrives P late records (Ended P todo records F next Q) k m th := by
  refine of_still h ha trivial ?_ fun w' th' fresh hm => ?_
  · rintro a rest ha'
    obtain ((e | s) | i) := r <;> cases ha'
  cases hm with
  | runEnded hl =>
    obtain ⟨hK, rfl, rfl⟩ := Activity.resolving.inj (ha.symm.trans hl)
    obtain rfl := Program.ended_inj (Control.run.inj hK)
    exact ⟨rfl, rfl, ⟨_, _, rfl⟩, fun m' ho h' => finished h' rfl (ho ▸ hQ)⟩
  | runAct hl => obtain ((e | s) | i) := r <;> cases ha.symm.trans hl
  | runCall hl => obtain ((e | s) | i) := r <;> cases ha.symm.trans hl
  | runResolve hl => obtain ((e | s) | i) := r <;> cases ha.symm.trans hl
  | _ => cases ha.symm.trans ‹th.activity = _›

theorem act {a : Action C} {rest : a.Reply → Program C Instance} {reply : a.Reply} {m₁ : Machine C}
    (h : Solo P todo records m th) (ha : th.activity = .resolving (.run (.act a rest)) G next)
    (hp : m.perform I 0 th a = some (reply, m₁)) (hn : a.brings I = [])
    (hw : m₁.world = { m.world with objects := m₁.world.objects, state := m₁.world.state })
    (hg : P.grows m.world.objects m₁.world.objects)
    (hnext : ∀ m' th', m'.world.objects = m₁.world.objects → Solo P todo records m' th' →
      th'.activity = .resolving (.run (rest reply)) G next →
        Arrives P late records goal (k + 1) m' th') : Arrives P late records goal k m th := by
  have hs : (m.step I 0).isSome := by
    apply h.step_isSome (I := I) ha (by rintro _ _ ⟨⟩)
    rintro a' rest' he
    cases he
    rw [hp]
    exact Option.some_ne_none _
  refine of_move h ha trivial hs fun w' th' fresh hm => ?_
  cases hm with
  | runAct hl hp' =>
    cases ha.symm.trans hl
    cases hp.symm.trans hp'
    have hholds := h.holds.grows hw hg
    exact ⟨hn, hholds, hg, ⟨_, _, rfl⟩, fun m' hm' h' => hnext m' _ (by rw [hm']) h' rfl⟩
  | @runEnded r F next hl => obtain ((e | s) | i) := r <;> cases ha.symm.trans hl
  | _ => cases ha.symm.trans ‹th.activity = _›

theorem answer {rest : Except Error Instance → Program C Instance} (h : Solo P todo records m th)
    (ha : th.activity = .resolving (.finish r) (.caller rest :: G) next)
    (hrest : ∀ a, r = Except.mapError .error a → ∀ m' th',
      m'.world.objects = m.world.objects → Solo P todo records m' th' →
        th'.activity = .resolving (.run (rest a)) G next →
          Arrives P late records (Ended P todo records G next Q) (k + 1) m' th')
    (hcrash : ∀ message, r = .error (.crash message) → Q r m.world.objects) :
    Arrives P late records (Ended P todo records G next Q) k m th := by
  refine of_still h ha trivial (by rintro _ _ ⟨⟩) fun w' th' fresh hm => ?_
  cases hm with
  | answer hl =>
    obtain ⟨hK, hG, rfl⟩ := Activity.resolving.inj (ha.symm.trans hl)
    cases hG
    exact ⟨rfl, rfl, ⟨_, _, rfl⟩, fun m' ho h' => hrest _ (Control.finish.inj hK) m' _ ho h' rfl⟩
  | passBy hl =>
    cases ha.symm.trans hl
    exact ⟨rfl, rfl, ⟨_, _, rfl⟩, fun m' ho h' => finished h' rfl (ho ▸ hcrash _ rfl)⟩
  | _ => cases ha.symm.trans ‹th.activity = _›

theorem run {p : Program C Instance} {o : List Value} (hp : Behaves I (P.setting x S) Q p o)
    (hchild : ∀ y, P.asks S x y → Answers P late b (x :: S) y) (h : Solo P todo records m th)
    (ha : th.activity = .resolving (.run p) G next) (hG : insides G = under c (x :: S))
    (ho : P.grows o m.world.objects) (hk : b ≤ k) :
    Arrives P late records (Ended P todo records G next Q) k m th := by
  -- The objects of the induction may be older than those of the machine, which only grow.
  induction hp generalizing k m th with
  | @done a o hQ => exact ended (r := .ok a) h ha (hQ _ ho)
  | @fail e o hQ => exact ended (r := .error (.error e)) h ha (hQ _ ho)
  | @crash s o hQ => exact ended (r := .error (.crash s)) h ha (hQ _ ho)
  | @read a rest reply o hr hp ih =>
    have hread : w.reads th.stack a = some reply := by
      rw [h.stack_eq ha, hG]
      exact hr
    obtain ⟨hperf, hn⟩ := h.holds.agrees.perform_eq (I := I) (t := 0) hread
    exact act h ha hperf hn rfl (P.refl _) fun m' th' hw h' ha' =>
      ih _ ho h' ha' (hw ▸ P.refl _) (Nat.le_succ_of_le hk)
  | allocate hg hp ih =>
    exact act h ha rfl rfl rfl (hg _ ho) fun m' th' hw h' ha' =>
      ih _ ho h' ha' (hw ▸ P.refl _) (Nat.le_succ_of_le hk)
  | modify hg hp ih =>
    exact act h ha rfl rfl rfl (hg _ ho) fun m' th' hw h' ha' =>
      ih _ ho h' ha' (hw ▸ P.refl _) (Nat.le_succ_of_le hk)
  | update hp ih =>
    exact act h ha rfl rfl rfl (P.refl _) fun m' th' hw h' ha' =>
      ih _ _ ho h' ha' (hw ▸ P.refl _) (Nat.le_succ_of_le hk)
  | note hp ih =>
    exact act h ha rfl rfl rfl (P.refl _) fun m' th' hw h' ha' =>
      ih _ ho h' ha' (hw ▸ P.refl _) (Nat.le_succ_of_le hk)
  | emit hp ih =>
    exact act h ha rfl rfl rfl (P.refl _) fun m' th' hw h' ha' =>
      ih _ ho h' ha' (hw ▸ P.refl _) (Nat.le_succ_of_le hk)
  | call hp ih =>
    refine of_still h ha trivial (by rintro _ _ ⟨⟩) fun w' th' fresh hm => ?_
    cases hm with
    | runCall hl =>
      cases ha.symm.trans hl
      exact ⟨rfl, rfl, ⟨_, _, rfl⟩, fun m' hw h' =>
        ih _ ho h' rfl (hw ▸ P.refl _) (Nat.le_succ_of_le hk)⟩
    | @runEnded r F next hl => obtain ((e | s) | i) := r <;> cases ha.symm.trans hl
    | _ => cases ha.symm.trans ‹th.activity = _›
  | @resolve g rest o hg hp hc ih =>
    obtain ⟨y, hy, rfl⟩ := hg
    refine of_still h ha trivial (by rintro _ _ ⟨⟩) fun w' th' fresh hm => ?_
    cases hm with
    | runResolve hl =>
      cases ha.symm.trans hl
      refine ⟨rfl, rfl, ⟨_, _, rfl⟩, fun m' hw h' => ?_⟩
      apply (hchild y hy _ _ _ _ _ _ _ (Nat.le_succ_of_le hk) h' rfl hG).trans
      rintro k₂ m₂ th₂ hk₂ hg₂ ⟨h₂, r, ha₂, hr⟩
      have ho₂ : P.grows o m₂.world.objects := P.trans ho (hw ▸ hg₂)
      apply answer h₂ ha₂
      · rintro a rfl m₃ th₃ hw₃ h₃ ha₃
        exact ih a _ ho₂ ⟨y, rfl, hr⟩ h₃ ha₃ (hw₃ ▸ P.refl _) (by omega)
      · rintro message rfl
        exact hc message _ ho₂ ⟨y, rfl, hr⟩
    | @runEnded r F next hl => obtain ((e | s) | i) := r <;> cases ha.symm.trans hl
    | _ => cases ha.symm.trans ‹th.activity = _›

theorem runInside {p : Program C Instance}
    (hp : Behaves I (P.setting x S) (P.fair S x) p m.world.objects)
    (hchild : ∀ y, P.asks S x y → Answers P late b (x :: S) y) (h : Solo P todo records m th)
    (ha : th.activity = .resolving (.run p) (.inside c x.target :: F) next)
    (hF : insides F = under c S) (hk : b ≤ k) :
    Arrives P late records (Ended P todo records F next (P.fair S x)) k m th := by
  have hG : insides (.inside c x.target :: F) = under c (x :: S) := congrArg ((c, x.target) :: ·) hF
  apply (run hp hchild h ha hG (P.refl _) hk).trans
  rintro k' m' th' - - ⟨h', r, ha', hr⟩
  exact leave h' ha' hr

variable {name : String} {e : EntryId} {entry : Entry C}

section

variable (hP : P.Solitary) (hu : w.Unbuilt) (he : w.Shares c name e entry)
  (hS : P.arises S (.service name))

include hP hu he hS

theorem keep (h : Solo P todo records m th)
    (ha : th.activity = .resolving (.finish r) (.keeps (entry.site c name e) ::
      .owns (entry.site c name e) :: .inside c (.service name) :: F) next)
    (hr : P.built S name r m.world.objects) :
    Arrives P late records (Ended P todo records F next (P.fair S (.service name))) k m th := by
  have hs := h.step_isSome (I := I) ha (by rintro _ _ ⟨⟩) (by rintro _ _ ⟨⟩)
  refine of_move h ha trivial hs fun w' th' fresh hm => ?_
  cases hm with
  | keepFirst hl hi =>
    cases ha.symm.trans hl
    have hmade := P.keep he (hP.kept name) hr
    exact ⟨rfl, h.holds.setCache hu he.entry? hmade, P.refl _, ⟨_, _, rfl⟩, fun m' hw h' =>
      release h' rfl (by rw [hw]; exact P.hit hS hmade)⟩
  | keepOther hl hi =>
    cases ha.symm.trans hl
    have hkept := P.hit hS (h.holds.cached he.entry? hi)
    exact ⟨rfl, h.holds, P.refl _, ⟨_, _, rfl⟩, fun m' hw h' =>
      release h' rfl (by rw [hw]; exact hkept)⟩
  | keepNothing hl =>
    cases ha.symm.trans hl
    exact ⟨rfl, h.holds, P.refl _, ⟨_, _, rfl⟩, fun m' hw h' =>
      release h' rfl (by rw [hw]; exact P.fails hr)⟩
  | _ => cases ha.symm.trans ‹th.activity = _›

variable (hx : ¬ (Item.service name).Barred S)
  (hchild : ∀ y, P.asks S (.service name) y → Answers P late b (.service name :: S) y)

include hx hchild

theorem recheck (h : Solo P todo records m th)
    (ha : th.activity = .resolving (.recheck (entry.site c name e))
      (.owns (entry.site c name e) :: .inside c (.service name) :: F) next)
    (hF : insides F = under c S) (hk : b ≤ k) :
    Arrives P late records (Ended P todo records F next (P.fair S (.service name))) k m th := by
  refine of_still h ha trivial (by rintro _ _ ⟨⟩) fun w' th' fresh hm => ?_
  cases hm with
  | recheckHit hl hi =>
    cases ha.symm.trans hl
    have hhit := P.hit hS (h.holds.cached he.entry? hi)
    exact ⟨rfl, rfl, ⟨_, _, rfl⟩, fun m' ho h' => release h' rfl (by rw [ho]; exact hhit)⟩
  | recheckMiss hl hi =>
    cases ha.symm.trans hl
    refine ⟨rfl, rfl, ⟨_, _, rfl⟩, fun m' ho h' => ?_⟩
    have hbuild := P.build he.entry? hS hx h'.holds.grown
    have hG : insides (.keeps (entry.site c name e) :: .owns (entry.site c name e) ::
        .inside c (.service name) :: F) = under c (.service name :: S) :=
      congrArg (List.cons (c, Target.service name)) hF
    apply (run hbuild hchild h' rfl hG (P.refl _) (Nat.le_succ_of_le hk)).trans
    rintro k₂ m₂ th₂ - - ⟨h₂, r, ha₂, hr⟩
    exact keep hP hu he hS h₂ ha₂ hr
  | _ => cases ha.symm.trans ‹th.activity = _›

theorem claim (h : Solo P todo records m th)
    (ha : th.activity = .resolving (.claim (entry.site c name e)) (.inside c (.service name) :: F)
      next)
    (hF : insides F = under c S) (hk : b ≤ k) :
    Arrives P late records (Ended P todo records F next (P.fair S (.service name))) k m th := by
  have hone : m.threads.length = 1 := by rw [h.threads]; rfl
  have hfree := h.consistent.claim_free hone (h.activity_eq.trans ha)
  refine of_still h ha trivial (by rintro _ _ ⟨⟩) fun w' th' fresh hm => ?_
  cases hm with
  | claimFree hl ho =>
    cases ha.symm.trans hl
    exact ⟨rfl, rfl, ⟨_, _, rfl⟩, fun m' _ h' =>
      recheck hP hu he hS hx hchild h' rfl hF (Nat.le_succ_of_le hk)⟩
  | claimCycle hl ho hc => cases ha.symm.trans hl; cases hfree.symm.trans ho
  | claimWait hl ho hc => cases ha.symm.trans hl; cases hfree.symm.trans ho
  | _ => cases ha.symm.trans ‹th.activity = _›

theorem attempt (h : Solo P todo records m th)
    (ha : th.activity = .resolving (.attempt (entry.site c name e))
      (.inside c (.service name) :: F) next)
    (hF : insides F = under c S) (hk : b ≤ k) :
    Arrives P late records (Ended P todo records F next (P.fair S (.service name))) k m th := by
  refine of_still h ha trivial (by rintro _ _ ⟨⟩) fun w' th' fresh hm => ?_
  cases hm with
  | attemptHit hl hi =>
    cases ha.symm.trans hl
    have hhit := P.hit hS (h.holds.cached he.entry? hi)
    exact ⟨rfl, rfl, ⟨_, _, rfl⟩, fun m' ho h' => leave h' rfl (by rw [ho]; exact hhit)⟩
  | attemptMiss hl hi =>
    cases ha.symm.trans hl
    exact ⟨rfl, rfl, ⟨_, _, rfl⟩, fun m' _ h' =>
      claim hP hu he hS hx hchild h' rfl hF (Nat.le_succ_of_le hk)⟩
  | _ => cases ha.symm.trans ‹th.activity = _›

end

theorem enter {inside : Control C} (hP : P.Solitary) (hS : P.arises S x)
    (h : Solo P todo records m th)
    (ha : th.activity = .resolving (.enter c x.target inside) F next) (hF : insides F = under c S)
    (hinside : ¬ x.Barred S → ∀ m' th', m'.world.objects = m.world.objects →
      Solo P todo records m' th' →
        th'.activity = .resolving inside (.inside c x.target :: F) next →
          Arrives P late records (Ended P todo records F next (P.fair S x)) (k + 1) m' th') :
    Arrives P late records (Ended P todo records F next (P.fair S x)) k m th := by
  have hst := h.stack_eq ha
  refine of_still h ha trivial (by rintro _ _ ⟨⟩) fun w' th' fresh hm => ?_
  cases hm with
  | enterAgain hl hc =>
    cases ha.symm.trans hl
    rw [hst, hF] at hc
    exact ⟨rfl, rfl, ⟨_, _, rfl⟩, fun m' _ h' => finished h' rfl (hP.again hS hc)⟩
  | enterNew hl hc =>
    cases ha.symm.trans hl
    rw [hst, hF, cycle?_under_eq_none] at hc
    exact ⟨rfl, rfl, ⟨_, _, rfl⟩, fun m' ho h' => hinside hc m' _ ho h' rfl⟩
  | _ => cases ha.symm.trans ‹th.activity = _›

end Arrives

namespace Answers

variable {name : String}

theorem service (hP : P.Solitary) (hu : w.Unbuilt) (hS : P.arises S (.service name))
    (hchild : ¬ (Item.service name).Barred S → ∀ y, P.asks S (.service name) y →
      Answers P late (b + 1) (.service name :: S) y) : Answers P late b S (.service name) := by
  intro k todo records m th F next hk h ha hF
  refine Arrives.of_still h ha trivial (by rintro _ _ ⟨⟩) fun w' th' fresh hm => ?_
  cases hm with
  | findMissing hl he =>
    cases ha.symm.trans hl
    have hno := h.holds.agrees.entry?_eq_none he
    exact ⟨rfl, rfl, ⟨_, _, rfl⟩, fun m' _ h' => Arrives.finished h' rfl (P.missing hno hS)⟩
  | findOther hl he hs =>
    cases ha.symm.trans hl
    obtain ⟨entry, hentry, hr⟩ := h.holds.agrees.entry? he
    rw [← hr] at hs
    have hplain :=
      World.Plain.of_entry hentry ((Bool.and_eq_false_iff.1 hs).resolve_right (by rintro ⟨⟩))
    refine ⟨rfl, rfl, ⟨_, _, rfl⟩, fun m₁ ho₁ h₁ => ?_⟩
    refine Arrives.enter hP hS h₁ rfl hF fun hx m₂ th₂ ho₂ h₂ ha₂ => ?_
    have hbuild := (P.build hentry hS hx h₂.holds.grown).imp fun r o _ hr => P.plain hplain hr
    rw [hr] at hbuild
    exact Arrives.runInside hbuild (hchild hx) h₂ ha₂ hF (by omega)
  | findShared hl he hs =>
    cases ha.symm.trans hl
    obtain ⟨entry, hentry, hr⟩ := h.holds.agrees.entry? he
    rw [← hr] at hs
    have hshares : w.Shares c name _ entry := ⟨hentry, (Bool.and_eq_true_iff.1 hs).1⟩
    refine ⟨rfl, rfl, ⟨_, _, rfl⟩, fun m₁ ho₁ h₁ => ?_⟩
    refine Arrives.of_still h₁ rfl trivial (by rintro _ _ ⟨⟩) fun w₂ th₂ fresh hm => ?_
    cases hm with
    | peekHit hl hi =>
      cases hl
      have hhit := P.hit hS (h₁.holds.cached hentry hi)
      exact ⟨rfl, rfl, ⟨_, _, rfl⟩, fun m₂ ho₂ h₂ =>
        Arrives.finished h₂ rfl (by rw [ho₂]; exact hhit)⟩
    | peekMiss hl hi =>
      cases hl
      refine ⟨rfl, rfl, ⟨_, _, rfl⟩, fun m₂ ho₂ h₂ => ?_⟩
      refine Arrives.enter hP hS h₂ rfl hF fun hx m₃ th₃ ho₃ h₃ ha₃ => ?_
      rw [← hr] at ha₃
      exact Arrives.attempt hP hu hshares hS hx (hchild hx) h₃ ha₃ hF (by omega)
    | _ => cases (‹_ = _› : Activity.resolving _ _ _ = _)
  | _ => cases ha.symm.trans ‹th.activity = _›

theorem «class» {type : TypeKey} (hP : P.Solitary) (hS : P.arises S (.class type))
    (hchild : ¬ (Item.class type).Barred S → ∀ y, P.asks S (.class type) y →
      Answers P late (b + 1) (.class type :: S) y) : Answers P late b S (.class type) := by
  intro k todo records m th F next hk h ha hF
  refine Arrives.enter hP hS h ha hF fun hx m' th' ho h' ha' => ?_
  have hconstruct := P.construction hS hx h'.holds.grown
  exact Arrives.runInside hconstruct (hchild hx) h' ha' hF (by omega)

theorem of_children (hP : P.Solitary) (hu : w.Unbuilt) (hS : P.arises S x)
    (hchild : ¬ x.Barred S → ∀ y, P.asks S x y → P.arises (x :: S) y →
      Answers P late (b + 1) (x :: S) y) : Answers P late b S x := by
  have hasked : ¬ x.Barred S → ∀ y, P.asks S x y → Answers P late (b + 1) (x :: S) y :=
    fun hx y hy => hchild hx y hy (P.asked hS hx hy)
  cases x with
  | service name => exact .service hP hu hS hasked
  | «class» type => exact .class hP hS hasked

theorem of_bound (hP : P.Solitary) (hu : w.Unbuilt) {bound n : ℕ} (hb : bound < b + n)
    (hS : P.arises S x) : Answers P (bound < ·) b S x := by
  induction n generalizing b S x with
  | zero =>
    intro k todo records m th F next hk _ _ _
    apply Arrives.late
    omega
  | succ n ih => exact .of_children hP hu hS fun _ y _ hS => ih (by omega) hS

end Answers

end Wiring
