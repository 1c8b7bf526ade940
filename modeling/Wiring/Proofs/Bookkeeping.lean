import Mathlib.Data.List.Nodup
import Wiring.Proofs.Run

namespace Wiring

variable {C : Client}

namespace Frame

def target? : Frame C → Option (ContainerId × Target)
  | .inside c x => some (c, x)
  | _ => none

def owned? : Frame C → Option BuildKey
  | .owns s => some s.key
  | _ => none

def kept? : Frame C → Option (Site C)
  | .keeps s => some s
  | _ => none

end Frame

def insides (F : List (Frame C)) : Stack := F.filterMap Frame.target?

def Activity.frames : Activity C → List (Frame C)
  | .resolving _ F _ => F
  | _ => []

def Control.awaited : Control C → Option BuildKey
  | .asleep s _ => some s.key
  | .woken s _ => some s.key
  | _ => none

def Activity.awaited : Activity C → Option BuildKey
  | .resolving K _ _ => K.awaited
  | _ => none

theorem Goal.control_awaited (g : Goal) : (g.control : Control C).awaited = none := by
  cases g <;> rfl

def Activity.owned (A : Activity C) : List BuildKey := A.frames.filterMap Frame.owned?

def Activity.kept (A : Activity C) : List (Site C) := A.frames.filterMap Frame.kept?

inductive Nested : List (Frame C) → Prop
  | nil : Nested []
  | plain {rest c x F} (h : Nested F) : Nested (.caller rest :: .inside c x :: F)
  | shared {rest s F} (h : Nested F) :
      Nested (.caller rest :: .keeps s :: .owns s :: .inside s.container (.service s.name) :: F)

inductive Stage : Control C → List (Frame C) → Prop
  | find {c name o F} (h : Nested F) : Stage (.find c name o) F
  | peek {s F} (h : Nested F) : Stage (.peek s) F
  | enterShared {s F} (h : Nested F) :
      Stage (.enter s.container (.service s.name) (.attempt s)) F
  | enterPlain {c x p F} (h : Nested F) : Stage (.enter c x (.run p)) F
  | attempt {s F} (h : Nested F) :
      Stage (.attempt s) (.inside s.container (.service s.name) :: F)
  | claim {s F} (h : Nested F) : Stage (.claim s) (.inside s.container (.service s.name) :: F)
  | asleep {s owner F} (h : Nested F) :
      Stage (.asleep s owner) (.inside s.container (.service s.name) :: F)
  | woken {s owner F} (h : Nested F) :
      Stage (.woken s owner) (.inside s.container (.service s.name) :: F)
  | recheck {s F} (h : Nested F) :
      Stage (.recheck s) (.owns s :: .inside s.container (.service s.name) :: F)
  | runPlain {p c x F} (h : Nested F) : Stage (.run p) (.inside c x :: F)
  | runShared {p s F} (h : Nested F) :
      Stage (.run p) (.keeps s :: .owns s :: .inside s.container (.service s.name) :: F)
  | notify {r c x F} (h : Nested F) : Stage (.notify r) (.inside c x :: F)
  | finish {r F} (h : Nested F) : Stage (.finish r) F
  | finishInside {r c x F} (h : Nested F) : Stage (.finish r) (.inside c x :: F)
  | finishOwner {r s F} (h : Nested F) :
      Stage (.finish r) (.owns s :: .inside s.container (.service s.name) :: F)
  | finishBuild {r s F} (h : Nested F) :
      Stage (.finish r) (.keeps s :: .owns s :: .inside s.container (.service s.name) :: F)

inductive Orderly (S : Stack) : Activity C → Prop
  | idle (hs : S = []) : Orderly S .idle
  | running {p} (hs : S = []) : Orderly S (.running p)
  | resolving {K F next} (hs : S = insides F) (hn : S.Nodup) (h : Stage K F) :
      Orderly S (.resolving K F next)

theorem Goal.stage (g : Goal) {F : List (Frame C)} (h : Nested F) :
    Stage (g.control : Control C) F := by
  cases g with
  | service c name o => exact .find h
  | «class» c type o => exact .enterPlain h

namespace Orderly

variable {S : Stack} {K K' : Control C} {F : List (Frame C)} {c : ContainerId} {x : Target}
  {next next' : Except Error Instance → Program C C.Report}

theorem stack_eq (h : Orderly S (.resolving K F next)) : S = insides F := by
  cases h with
  | resolving hs hn hk => exact hs

theorem nodup {A : Activity C} (h : Orderly S A) : S.Nodup := by
  cases h with
  | idle hs => exact hs ▸ .nil
  | running hs => exact hs ▸ .nil
  | resolving hs hn hk => exact hn

theorem stage (h : Orderly S (.resolving K F next)) : Stage K F := by
  cases h with
  | resolving hs hn hk => exact hk

theorem goes {F' : List (Frame C)} (h : Orderly S (.resolving K F next))
    (hF : insides F' = insides F) (hk : Stage K' F') : Orderly S (.resolving K' F' next') :=
  .resolving (h.stack_eq.trans hF.symm) h.nodup hk

theorem enter (h : Orderly S (.resolving K F next)) (hc : S.cycle? c x = none)
    (hk : Stage K' (.inside c x :: F)) :
    Orderly (S.enter c x) (.resolving K' (.inside c x :: F) next) :=
  .resolving (congrArg ((c, x) :: ·) h.stack_eq)
    (List.nodup_cons.2 ⟨Stack.cycle?_eq_none.1 hc, h.nodup⟩) hk

theorem leave (h : Orderly S (.resolving K (.inside c x :: F) next)) (hk : Stage K' F) :
    Orderly (S.leave c) (.resolving K' F next) := by
  have hs : S = (c, x) :: insides F := h.stack_eq
  have hl : S.leave c = insides F := hs ▸ Stack.leave_enter _ _ _
  exact .resolving hl (hl ▸ (hs ▸ h.nodup).of_cons) hk

end Orderly

namespace Machine

variable {I : Implementation C} {m m' : Machine C} {t u : ThreadId} {th th' : Thread C}
  {w : World C} {fresh : List (Thread C)}

theorem Move.orderly (hm : Move I m t th w th' fresh) (ho : Orderly th.stack th.activity) :
    Orderly th'.stack th'.activity := by
  cases hm with
  | begin h hp => rw [h] at ho; cases ho with | idle hs => exact .running hs
  | ownEnded h => rw [h] at ho; cases ho with | running hs => exact .idle hs
  | @ownAct a rest r m₁ h ha =>
    rw [h] at ho; cases ho with | running hs => exact .running ((a.mark_stack th).trans hs)
  | ownCall h => rw [h] at ho; cases ho with | running hs => exact .running hs
  | @ownResolve g rest h =>
    rw [h] at ho
    cases ho with | running hs => exact .resolving hs (hs ▸ .nil) (g.stage .nil)
  | findMissing h he =>
    rw [h] at ho
    cases ho.stage with | find hF => exact ho.goes rfl (.finish hF)
  | findShared h he hs =>
    rw [h] at ho; cases ho.stage with | find hF => exact ho.goes rfl (.peek hF)
  | findOther h he hs =>
    rw [h] at ho; cases ho.stage with | find hF => exact ho.goes rfl (.enterPlain hF)
  | peekHit h hi => rw [h] at ho; cases ho.stage with | peek hF => exact ho.goes rfl (.finish hF)
  | peekMiss h hi =>
    rw [h] at ho; cases ho.stage with | peek hF => exact ho.goes rfl (.enterShared hF)
  | enterAgain h hc =>
    rw [h] at ho
    cases ho.stage with
    | enterShared hF => exact ho.goes rfl (.finish hF)
    | enterPlain hF => exact ho.goes rfl (.finish hF)
  | enterNew h hc =>
    rw [h] at ho
    cases ho.stage with
    | enterShared hF => exact ho.enter hc (.attempt hF)
    | enterPlain hF => exact ho.enter hc (.runPlain hF)
  | attemptHit h hi =>
    rw [h] at ho; cases ho.stage with | attempt hF => exact ho.goes rfl (.finishInside hF)
  | attemptMiss h hi =>
    rw [h] at ho; cases ho.stage with | attempt hF => exact ho.goes rfl (.claim hF)
  | claimFree h hw =>
    rw [h] at ho
    cases ho.stage with | claim hF => exact ho.goes rfl (.recheck hF)
  | claimCycle h hw hc =>
    rw [h] at ho; cases ho.stage with | claim hF => exact ho.goes rfl (.finishInside hF)
  | claimWait h hw hc =>
    rw [h] at ho; cases ho.stage with | claim hF => exact ho.goes rfl (.asleep hF)
  | wokenAgain h hw =>
    rw [h] at ho; cases ho.stage with | woken hF => exact ho.goes rfl (.asleep hF)
  | wokenFree h hw =>
    rw [h] at ho; cases ho.stage with | woken hF => exact ho.goes rfl (.attempt hF)
  | recheckHit h hi =>
    rw [h] at ho; cases ho.stage with | recheck hF => exact ho.goes rfl (.finishOwner hF)
  | recheckMiss h hi =>
    rw [h] at ho; cases ho.stage with | recheck hF => exact ho.goes rfl (.runShared hF)
  | runEnded h =>
    rw [h] at ho
    cases ho.stage with
    | runPlain hF => exact ho.goes rfl (.finishInside hF)
    | runShared hF => exact ho.goes rfl (.finishBuild hF)
  | @runAct a rest r m₁ F next h ha =>
    rw [h] at ho
    refine (a.mark_stack th).symm ▸ ?_
    cases ho.stage with
    | runPlain hF => exact ho.goes rfl (.runPlain hF)
    | runShared hF => exact ho.goes rfl (.runShared hF)
  | runCall h =>
    rw [h] at ho
    cases ho.stage with
    | runPlain hF => exact ho.goes rfl (.runPlain hF)
    | runShared hF => exact ho.goes rfl (.runShared hF)
  | @runResolve g rest F next h =>
    rw [h] at ho
    cases ho.stage with
    | runPlain hF => exact ho.goes rfl (g.stage (.plain hF))
    | runShared hF => exact ho.goes rfl (g.stage (.shared hF))
  | keepFirst h hi =>
    rw [h] at ho
    cases ho.stage with
    | finish hF => cases hF
    | finishBuild hF => exact ho.goes rfl (.finishOwner hF)
  | keepOther h hi =>
    rw [h] at ho
    cases ho.stage with
    | finish hF => cases hF
    | finishBuild hF => exact ho.goes rfl (.finishOwner hF)
  | keepNothing h =>
    rw [h] at ho
    cases ho.stage with
    | finish hF => cases hF
    | finishBuild hF => exact ho.goes rfl (.finishOwner hF)
  | release h =>
    rw [h] at ho
    cases ho.stage with
    | finish hF => cases hF
    | finishOwner hF => exact ho.goes rfl (.notify hF)
  | leave h =>
    rw [h] at ho
    cases ho.stage with
    | finish hF => cases hF
    | finishInside hF => exact ho.leave (.finish hF)
  | answer h =>
    rw [h] at ho
    cases ho.stage with
    | finish hF =>
      cases hF with
      | plain hF => exact ho.goes rfl (.runPlain hF)
      | shared hF => exact ho.goes rfl (.runShared hF)
  | passBy h =>
    rw [h] at ho
    cases ho.stage with
    | finish hF =>
      cases hF with
      | plain hF => exact ho.goes rfl (.finishInside hF)
      | shared hF => exact ho.goes rfl (.finishBuild hF)
  | ownAnswer h => rw [h] at ho; exact .running ho.stack_eq
  | ownCrash h => rw [h] at ho; exact .idle ho.stack_eq

end Machine

inductive Ledger (t : ThreadId) (g : BuildGraph) (owned : List BuildKey) :
    Option BuildKey → BuildGraph → List BuildKey → Option BuildKey → Prop
  | same {a} : Ledger t g owned a g owned a
  | claim {k} (free : g.owners.get? k = none) :
      Ledger t g owned none (g.claim k t) (k :: owned) none
  | release {k rest} (h : owned = k :: rest) : Ledger t g owned none (g.release k) rest none
  | wait {k owner} (ho : g.owners.get? k = some owner) (hc : g.waitCycle k t = none) :
      Ledger t g owned none (g.wait t k) owned (some k)
  | leave {k} : Ledger t g owned (some k) (g.leave t) owned none

namespace Machine

variable {I : Implementation C} {m m' : Machine C} {t u : ThreadId} {th th' : Thread C}
  {w : World C} {fresh : List (Thread C)}

theorem Move.ledger (hm : Move I m t th w th' fresh) (ho : Orderly th.stack th.activity) :
    Ledger t m.world.builds th.activity.owned th.activity.awaited w.builds th'.activity.owned
      th'.activity.awaited := by
  cases hm with
  | ownAct h hp => rw [h, (perform_edit hp).builds]; exact .same
  | runAct h hp => rw [h, (perform_edit hp).builds]; exact .same
  | @ownResolve g rest h =>
    rw [h]
    change Ledger _ _ _ _ _ _ g.control.awaited
    rw [g.control_awaited]
    exact .same
  | @runResolve g rest F next h =>
    rw [h]
    change Ledger _ _ _ _ _ _ g.control.awaited
    rw [g.control_awaited]
    exact .same
  | enterNew h hc =>
    rw [h] at ho ⊢
    cases ho.stage with
    | enterShared hF => exact .same
    | enterPlain hF => exact .same
  | claimFree h hw => rw [h]; exact .claim hw
  | claimWait h hw hc => rw [h]; exact .wait hw hc
  | wokenFree h hw => rw [h]; exact .leave
  | release h => rw [h]; exact .release rfl
  | _ => rw [‹th.activity = _›]; exact .same

def owned (m : Machine C) (n : ThreadId) : List BuildKey := (m.activity n).owned

def awaited (m : Machine C) (n : ThreadId) : Option BuildKey := (m.activity n).awaited

theorem Beside.owned (h : Beside m.threads[u]? m'.threads[u]?) : m'.owned u = m.owned u := by
  obtain h | ⟨s, owner, F, next, ho, hn⟩ := h.activity
  · simp only [Machine.owned, h]
  · simp only [Machine.owned, ho, hn, Activity.owned, Activity.frames]

theorem Beside.awaited (h : Beside m.threads[u]? m'.threads[u]?) : m'.awaited u = m.awaited u := by
  obtain h | ⟨s, owner, F, next, ho, hn⟩ := h.activity
  · simp only [Machine.awaited, h]
  · simp only [Machine.awaited, ho, hn, Activity.awaited, Control.awaited]

theorem Stepped.ledger (h : Stepped I m t th m') (ht : m.threads[t]? = some th)
    (ho : Orderly th.stack th.activity) :
    Ledger t m.world.builds (m.owned t) (m.awaited t) m'.world.builds (m'.owned t)
      (m'.awaited t) := by
  simp only [owned, awaited, activity_eq ht]
  obtain ⟨th', ht', ⟨fresh, hm⟩ | ⟨r, F, next, ha, hw, rfl⟩⟩ := h.self ht
  · rw [activity_eq ht']
    exact hm.ledger ho
  · rw [activity_eq ht', ha, hw]
    exact .same

end Machine

def BuildKey.target (k : BuildKey) : ContainerId × Target := (k.container, .service k.name)

theorem Nested.owned_sublist {F : List (Frame C)} (h : Nested F) :
    ((F.filterMap Frame.owned?).map BuildKey.target).Sublist (insides F) := by
  induction h with
  | nil => exact .slnil
  | plain h ih => exact ih.cons _
  | shared h ih => exact ih.cons_cons _

theorem Stage.owned_sublist {K : Control C} {F : List (Frame C)} (h : Stage K F) :
    ((F.filterMap Frame.owned?).map BuildKey.target).Sublist (insides F) := by
  cases h with
  | find h | peek h | enterShared h | enterPlain h | finish h => exact h.owned_sublist
  | attempt h | claim h | asleep h | woken h | runPlain h | notify h | finishInside h =>
    exact h.owned_sublist.cons _
  | recheck h | runShared h | finishOwner h | finishBuild h => exact h.owned_sublist.cons_cons _

theorem Orderly.owned_sublist {S : Stack} {A : Activity C} (h : Orderly S A) :
    (A.owned.map BuildKey.target).Sublist S := by
  cases h with
  | idle hs => exact List.nil_sublist _
  | running hs => exact List.nil_sublist _
  | resolving hs hn h => exact hs ▸ h.owned_sublist

theorem Orderly.owned_nodup {S : Stack} {A : Activity C} (h : Orderly S A) : A.owned.Nodup :=
  List.Nodup.of_map _ (h.nodup.sublist h.owned_sublist)

theorem Nested.kept_sublist {F : List (Frame C)} (h : Nested F) :
    ((F.filterMap Frame.kept?).map Site.key).Sublist (F.filterMap Frame.owned?) := by
  induction h with
  | nil => exact .slnil
  | plain h ih => exact ih
  | shared h ih => exact ih.cons_cons _

theorem Stage.kept_sublist {K : Control C} {F : List (Frame C)} (h : Stage K F) :
    ((F.filterMap Frame.kept?).map Site.key).Sublist (F.filterMap Frame.owned?) := by
  cases h with
  | find h | peek h | enterShared h | enterPlain h | finish h => exact h.kept_sublist
  | attempt h | claim h | asleep h | woken h | runPlain h | notify h | finishInside h =>
    exact h.kept_sublist
  | recheck h | finishOwner h => exact h.kept_sublist.cons _
  | runShared h | finishBuild h => exact h.kept_sublist.cons_cons _

theorem Orderly.kept_sublist {S : Stack} {A : Activity C} (h : Orderly S A) :
    (A.kept.map Site.key).Sublist A.owned := by
  cases h with
  | idle hs => exact .slnil
  | running hs => exact .slnil
  | resolving hs hn h => exact h.kept_sublist

namespace Machine

variable {I : Implementation C} {m m' : Machine C} {t u : ThreadId} {th th' : Thread C}
  {w : World C} {fresh : List (Thread C)}

/-- The build graph agrees with the frames of the threads, and each stack with its frames. -/
structure Consistent (m : Machine C) : Prop where
  orderly {n : ThreadId} {a : Thread C} (h : m.threads[n]? = some a) :
    Orderly a.stack a.activity
  owners (k : BuildKey) (n : ThreadId) :
    m.world.builds.owners.get? k = some n ↔ k ∈ m.owned n
  waiting (n : ThreadId) : m.world.builds.waiting.get? n = m.awaited n

theorem Fresh.activity (h : m.Fresh) (t : ThreadId) : m.activity t = .idle := by
  cases ht : m.threads[t]? with
  | none => simp [Machine.activity, ht]
  | some th => rw [activity_eq ht, (h.threads (List.mem_of_getElem? ht)).2.1]

theorem Consistent.of_fresh (h : m.Fresh) : m.Consistent where
  orderly ht := by
    obtain ⟨hs, ha, -⟩ := h.threads (List.mem_of_getElem? ht)
    exact ha ▸ .idle hs
  owners k t := by
    rw [h.world.builds, owned, h.activity]
    exact ⟨fun h => (nomatch h), fun h => (nomatch h)⟩
  waiting t := by
    rw [h.world.builds, awaited, h.activity]
    rfl

theorem Consistent.owned_nodup (h : m.Consistent) (t : ThreadId) : (m.owned t).Nodup := by
  cases ht : m.threads[t]? with
  | none => simp [owned, Machine.activity, ht, Activity.owned, Activity.frames]
  | some th => rw [owned, activity_eq ht]; exact (h.orderly ht).owned_nodup

theorem Consistent.not_owned_of_claim {s : Site C} {F : List (Frame C)}
    {next : Except Error Instance → Program C C.Report} (h : m.Consistent)
    (ha : m.activity t = .resolving (.claim s) F next) : s.key ∉ m.owned t := by
  intro hk
  cases ht : m.threads[t]? with
  | none =>
    rw [Machine.activity, ht] at ha
    cases ha
  | some th =>
    have ho := h.orderly ht
    rw [activity_eq ht] at ha
    rw [owned, activity_eq ht, ha] at hk
    rw [ha] at ho
    have hstack := ho.stack_eq
    have hnodup := ho.nodup
    cases ho.stage with
    | claim hF =>
      rw [hstack] at hnodup
      have hmem := hF.owned_sublist.subset (List.mem_map_of_mem (f := BuildKey.target) hk)
      exact (List.nodup_cons.1 hnodup).1 hmem

theorem Consistent.claim_free {s : Site C} {F : List (Frame C)}
    {next : Except Error Instance → Program C C.Report} (h : m.Consistent)
    (hone : m.threads.length = 1) (ha : m.activity t = .resolving (.claim s) F next) :
    m.world.builds.owners.get? s.key = none := by
  have hzero : ∀ u, m.activity u ≠ .idle → u = 0 := by
    intro u hu
    by_contra hne
    have hl : m.threads.length ≤ u := by
      rw [hone]
      exact Nat.pos_of_ne_zero hne
    exact hu (by rw [Machine.activity, List.getElem?_eq_none hl]; rfl)
  cases ho : m.world.builds.owners.get? s.key with
  | none => rfl
  | some owner =>
    have hk := (h.owners s.key owner).1 ho
    have ht := hzero t (by rw [ha]; rintro ⟨⟩)
    have howner := hzero owner fun hidle => by rw [owned, hidle] at hk; cases hk
    rw [howner, ← ht] at hk
    exact absurd hk (h.not_owned_of_claim ha)

theorem Stepped.orderly (h : Stepped I m t th m') (ht : m.threads[t]? = some th)
    (hm : m.Consistent) (hu : m'.threads[u]? = some th') : Orderly th'.stack th'.activity := by
  by_cases he : u = t
  · subst he
    obtain ⟨a, ha, ⟨fresh, hmv⟩ | ⟨r, F, next, hn, -, rfl⟩⟩ := h.self ht
    · cases ha.symm.trans hu; exact hmv.orderly (hm.orderly ht)
    · cases ha.symm.trans hu
      have ho := hm.orderly ht
      rw [hn] at ho
      cases ho.stage with | notify hF => exact ho.goes rfl (.finishInside hF)
  · cases h.beside he with
    | same h => exact hm.orderly (h ▸ hu)
    | @woken a ho hn =>
      cases hn.symm.trans hu
      obtain h | ⟨s, owner, F, next, ha, h⟩ := a.wake_cases
      · exact h.symm ▸ hm.orderly ho
      · have ho := hm.orderly ho
        rw [ha] at ho
        rw [h]
        cases ho.stage with | asleep hF => exact ho.goes rfl (.woken hF)
    | fresh ho hn hf =>
      cases hn.symm.trans hu
      exact hf.2.1.symm ▸ .idle hf.1

theorem Ledger.owners {g g' : BuildGraph} {O O' : List BuildKey} {a a' : Option BuildKey}
    {own own' : ThreadId → List BuildKey} (h : Ledger t g O a g' O' a')
    (hg : ∀ k u, g.owners.get? k = some u ↔ k ∈ own u) (hO : own t = O) (hO' : own' t = O')
    (hu : ∀ u ≠ t, own' u = own u) (hn : O.Nodup) (k : BuildKey) (u : ThreadId) :
    g'.owners.get? k = some u ↔ k ∈ own' u := by
  have hk := hg k u
  by_cases he : u = t
  · subst he
    rw [hO] at hk
    rw [hO']
    cases h with
    | same => exact hk
    | @claim b free =>
      simp only [BuildGraph.claim, Table.get?_insert, List.mem_cons]
      grind
    | @release b rest hb =>
      subst hb
      have hout := (List.nodup_cons.1 hn).1
      simp only [BuildGraph.release, Table.get?_erase]
      grind
    | wait ho hc => exact hk
    | leave => exact hk
  · rw [hu u he]
    cases h with
    | same => exact hk
    | @claim b free =>
      simp only [BuildGraph.claim, Table.get?_insert]
      grind
    | @release b rest hb =>
      have ht := (hg b t).2 (by simp [hO, hb])
      simp only [BuildGraph.release, Table.get?_erase]
      grind
    | wait ho hc => exact hk
    | leave => exact hk

theorem Ledger.waiting {g g' : BuildGraph} {O O' : List BuildKey} {a a' : Option BuildKey}
    (h : Ledger t g O a g' O' a') (hg : g.waiting.get? t = a) :
    g'.waiting.get? t = a' ∧ ∀ u ≠ t, g'.waiting.get? u = g.waiting.get? u := by
  cases h with
  | same => exact ⟨hg, fun _ _ => rfl⟩
  | claim free => exact ⟨hg, fun _ _ => rfl⟩
  | release hb => exact ⟨hg, fun _ _ => rfl⟩
  | wait ho hc => simp +contextual [BuildGraph.wait, eq_comm]
  | leave => simp +contextual [BuildGraph.leave, eq_comm]

theorem Consistent.step (hm : m.Consistent) (hs : m.step I t = some m') : m'.Consistent := by
  obtain ⟨th, ht, h⟩ := step_cases hs
  have hl := h.ledger ht (hm.orderly ht)
  refine ⟨fun hu => h.orderly ht hm hu, ?_, ?_⟩
  · exact Ledger.owners hl hm.owners rfl rfl (fun u hu => (h.beside hu).owned) (hm.owned_nodup t)
  · intro u
    obtain ⟨hself, hother⟩ := Ledger.waiting hl (hm.waiting t)
    by_cases he : u = t
    · exact he ▸ hself
    · rw [hother u he, (h.beside he).awaited, hm.waiting]

theorem Reachable.consistent (h : m.Reachable I) : m.Consistent :=
  h.induct (fun _ => .of_fresh) (fun _ _ _ _ hm => hm.step)

end Machine

end Wiring
