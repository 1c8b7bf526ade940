import Wiring.Proofs.Advance
import Wiring.Proofs.FiniteRequests
import Wiring.Proofs.Waiting

/-!
Resolution on one thread comes to an end. Each target is entered only while it is not under way, so
that resolutions are nested no deeper than there are targets.
-/
namespace Wiring

variable {C : Client} {α : Type}

def Stack.Above (S₀ U S : Stack) : Prop := S₀ <:+ S ∧ ∀ x ∈ S, x ∈ U ∨ x ∈ S₀

def Stack.free (U S : Stack) : ℕ := (U.filter (· ∉ S)).length

theorem Stack.free_lt {U S : Stack} {x : ContainerId × Target} (hU : x ∈ U) (hS : x ∉ S) :
    free U (x :: S) < free U S := by
  have hsub : (U.filter (· ∉ x :: S)).Sublist (U.filter (· ∉ S)) := by
    refine List.monotone_filter_right U fun y hy => ?_
    simp only [List.mem_cons, not_or, decide_eq_true_eq] at hy ⊢
    exact hy.2
  refine Nat.lt_of_le_of_ne hsub.length_le fun he => ?_
  have hmem : x ∈ U.filter (· ∉ S) := by simp [hU, hS]
  rw [← hsub.eq_of_length he] at hmem
  simp at hmem

theorem Stack.Above.enter {S₀ U S : Stack} {x : ContainerId × Target} (h : Above S₀ U S)
    (hx : x ∈ U) : Above S₀ U (x :: S) := by
  constructor
  · exact h.1.trans (List.suffix_cons x S)
  · intro y hy
    obtain rfl | hy := List.mem_cons.1 hy
    · exact .inl hx
    · exact h.2 y hy

theorem Stack.Above.length_le {S₀ U S : Stack} (h : Above S₀ U S) (hn : S.Nodup) :
    ∃ new, S = new ++ S₀ ∧ (∀ x ∈ new, x ∈ U) ∧ new.length ≤ U.length := by
  obtain ⟨⟨new, rfl⟩, hall⟩ := h
  obtain ⟨hnew, -, hdisjoint⟩ := List.nodup_append.1 hn
  have hsub : ∀ x ∈ new, x ∈ U := by
    intro x hx
    apply (hall x (List.mem_append_left S₀ hx)).resolve_right
    exact fun h₀ => hdisjoint x hx x h₀ rfl
  exact ⟨new, rfl, hsub, (hnew.subperm hsub).length_le⟩

def Scope.Contains : Scope C → Activity C → Prop
  | .own, _ => True
  | .inside F next, A => ∃ K G, A = .resolving K G next ∧ F <:+ G

theorem Machine.Stepped.keeps_registry {I : Implementation C} {m m' : Machine C} {t : ThreadId}
    {th : Thread C} {size : Nat} {types : List TypeKey} {U : Stack} (h : Stepped I m t th m')
    (hact : ∀ (L : Scope C) a rest, th.activity ≠ L.runs (.act a rest))
    (hk : m.world.Kept I size types U) :
    m'.world.Kept I size types U ∧ m'.threads.length = m.threads.length := by
  cases h with
  | @move w th' fresh hm =>
    have hw : w.Kept I size types U ∧ fresh = [] := by
      cases hm with
      | ownAct h' _ => exact absurd h' (hact .own _ _)
      | runAct h' _ => exact absurd h' (hact (.inside _ _) _ _)
      | keepFirst _ _ => exact ⟨hk.setCache _ _, rfl⟩
      | _ => exact ⟨hk.of_eq rfl rfl, rfl⟩
    obtain ⟨hw, rfl⟩ := hw
    exact ⟨hw, by simp⟩
  | notify _ => exact ⟨hk, by simp⟩

namespace Run

variable {I : Implementation C} (σ : Run I) (t : ThreadId) (size : Nat) (types : List TypeKey)
  (U S₀ : Stack)

structure Calm (n : ℕ) : Prop where
  single : (σ.state n).threads.length = 1
  kept : (σ.state n).world.Kept I size types U

structure Steady (L : Scope C) (n : ℕ) : Prop extends σ.Calm size types U n where
  above : Stack.Above S₀ U ((σ.state n).stack t)
  inside : L.Contains ((σ.state n).activity t)

def Over (F : List (Frame C)) (next : Except Error Instance → Program C C.Report) (n : ℕ) : Prop :=
  σ.Calm size types U n ∧ ∃ r, (σ.state n).activity t = .resolving (.finish r) F next

def Finishes (S : Stack) : Prop :=
  ∀ F next (p : Program C Instance) n, insides F = S → p.AsksFinitely I size types (fun _ => True) →
    σ.Calm size types U n → (σ.state n).activity t = .resolving (.run p) F next →
      σ.Leads t (σ.Steady t size types U S₀ (.inside F next)) (σ.Over t size types U F next) n

variable {σ t size types U S₀} {n k : ℕ} {K : Control C} {F G : List (Frame C)}
  {next : Except Error Instance → Program C C.Report} {r : Except Failure Instance} {s : Site C}
  {c : ContainerId} {x : Target} {goal : ℕ → Prop} {L : Scope C}

theorem Calm.own {u : ThreadId} (h : σ.Calm size types U n) (hu : σ.mover n = some u) : u = 0 := by
  obtain ⟨th, hth, -⟩ := Machine.step_cases (σ.moves n u hu)
  have hlt := (List.getElem?_eq_some_iff.1 hth).1
  rw [h.single] at hlt
  exact Nat.lt_one_iff.1 hlt

theorem stack_eq_insides (ha : (σ.state n).activity t = .resolving K G next) :
    (σ.state n).stack t = insides G := by
  have ho := (σ.reachable n).consistent.orderly_activity t
  rw [ha] at ho
  exact ho.stack_eq

theorem Calm.rests (h : σ.Calm size types U n) (hk : n ≤ k) (hr : σ.Rests n k) :
    σ.Calm size types U k := by
  have hs := hr.state hk
  exact ⟨by rw [hs]; exact h.single, by rw [hs]; exact h.kept⟩

theorem Calm.step (h : σ.Calm size types U n) (hm : σ.mover n = some t)
    (hact : ∀ (L : Scope C) a rest, (σ.state n).activity t ≠ L.runs (.act a rest)) :
    σ.Calm size types U (n + 1) := by
  obtain ⟨th, ht, hst⟩ := Machine.step_cases (σ.moves n t hm)
  rw [Machine.activity_eq ht] at hact
  obtain ⟨hw, hl⟩ := hst.keeps_registry hact h.kept
  exact ⟨hl.trans h.single, hw⟩

theorem control_isSome (ha : (σ.state n).activity t = .resolving K G next)
    (hK : ∀ s owner, K ≠ .asleep s owner) (hact : ∀ a rest, K ≠ .run (.act a rest)) :
    ((σ.state n).step I t).isSome := by
  apply Machine.step_isSome ha hK
  rintro ⟨th, a, ht, -, ⟨rest, hrun⟩ | ⟨rest, F, next', hrun⟩⟩
  · cases ((Machine.activity_eq ht).symm.trans ha).symm.trans hrun
  · cases ((Machine.activity_eq ht).symm.trans ha).symm.trans hrun
    exact hact a rest rfl

theorem Leads.control (hc : σ.Calm size types U n)
    (ha : (σ.state n).activity t = .resolving K G next) (hG : F <:+ G)
    (hS : Stack.Above S₀ U (insides G)) (hK : ∀ s owner, K ≠ .asleep s owner)
    (hact : ∀ a rest, K ≠ .run (.act a rest))
    (hnext : ∀ k th, σ.Calm size types U (k + 1) → th.activity = .resolving K G next →
      th.stack = insides G → (∃ w th' fresh, Machine.Move I (σ.state n) t th w th' fresh ∧
          (σ.state (k + 1)).activity t = th'.activity) ∨
        (∃ r, K = .notify r ∧
          (σ.state (k + 1)).activity t = .resolving (.finish r) G next) →
      σ.Leads t (σ.Steady t size types U S₀ (.inside F next)) goal (k + 1)) :
    σ.Leads t (σ.Steady t size types U S₀ (.inside F next)) goal n := by
  refine .later (fun k hk hr => ?_) (control_isSome ha hK hact) fun k hk hr hm => ?_
  · refine ⟨hc.rests hk hr, ?_, ?_⟩
    · rw [hr.state hk, stack_eq_insides ha]
      exact hS
    · rw [hr.state hk]
      exact ⟨K, G, ha, hG⟩
  · have hk' := hc.rests hk hr
    rw [← hr.state hk] at ha
    have hcalm : σ.Calm size types U (k + 1) := by
      apply hk'.step hm
      intro L a rest hacts
      cases L with
      | own => cases ha.symm.trans hacts
      | inside F' next' => cases ha.symm.trans hacts; exact hact a rest rfl
    obtain ⟨th, ht, hst⟩ := Machine.step_cases (σ.moves k t hm)
    have hth := (Machine.activity_eq ht).symm.trans ha
    have hstack : th.stack = insides G := by
      rw [← stack_eq_insides ha, Machine.stack, ht]
      rfl
    apply hnext k th hcalm hth hstack
    rw [← hr.state hk]
    obtain ⟨th', fresh, hmv, hn⟩ | ⟨r, G', next', ho, hn, -⟩ := hst.activity ht
    · exact .inl ⟨_, th', fresh, hmv, hn⟩
    · cases ha.symm.trans ho
      exact .inr ⟨r, rfl, hn⟩

section

variable (hc : σ.Calm size types U n)

include hc

theorem Leads.over (ha : (σ.state n).activity t = .resolving (.finish r) F next) :
    σ.Leads t (σ.Steady t size types U S₀ (.inside F next)) (σ.Over t size types U F next) n :=
  .there ⟨hc, r, ha⟩

theorem Leads.left (ha : (σ.state n).activity t = .resolving (.finish r) (.inside c x :: F) next)
    (hS : Stack.Above S₀ U (insides (.inside c x :: F))) :
    σ.Leads t (σ.Steady t size types U S₀ (.inside F next)) (σ.Over t size types U F next) n := by
  refine .control hc ha (List.suffix_cons _ _) hS nofun nofun fun k th hk hth _ hnext => ?_
  obtain ⟨w, th', fresh, hm, hn⟩ | ⟨r', hK, -⟩ := hnext
  · cases hm with
    | leave h => cases hth.symm.trans h; exact .over hk hn
    | _ => cases hth.symm.trans ‹th.activity = _›
  · cases hK

theorem Leads.notified
    (ha : (σ.state n).activity t = .resolving (.notify r) (.inside c x :: F) next)
    (hS : Stack.Above S₀ U (insides (.inside c x :: F))) :
    σ.Leads t (σ.Steady t size types U S₀ (.inside F next)) (σ.Over t size types U F next) n := by
  refine .control hc ha (List.suffix_cons _ _) hS nofun nofun fun k th hk hth _ hnext => ?_
  obtain ⟨w, th', fresh, hm, -⟩ | ⟨r', hK, hn⟩ := hnext
  · cases hm <;> cases hth.symm.trans ‹th.activity = _›
  · exact .left hk hn hS

theorem Leads.released
    (ha : (σ.state n).activity t = .resolving (.finish r) (.owns s :: .inside c x :: F) next)
    (hS : Stack.Above S₀ U (insides (.inside c x :: F))) :
    σ.Leads t (σ.Steady t size types U S₀ (.inside F next)) (σ.Over t size types U F next) n := by
  have hG : F <:+ .owns s :: .inside c x :: F := ⟨[_, _], rfl⟩
  refine .control hc ha hG hS nofun nofun fun k th hk hth _ hnext => ?_
  obtain ⟨w, th', fresh, hm, hn⟩ | ⟨r', hK, -⟩ := hnext
  · cases hm with
    | release h => cases hth.symm.trans h; exact .notified hk hn hS
    | _ => cases hth.symm.trans ‹th.activity = _›
  · cases hK

theorem Leads.built
    (ha : (σ.state n).activity t =
      .resolving (.finish r) (.keeps s :: .owns s :: .inside c x :: F) next)
    (hS : Stack.Above S₀ U (insides (.inside c x :: F))) :
    σ.Leads t (σ.Steady t size types U S₀ (.inside F next)) (σ.Over t size types U F next) n := by
  have hG : F <:+ .keeps s :: .owns s :: .inside c x :: F := ⟨[_, _, _], rfl⟩
  refine .control hc ha hG hS nofun nofun fun k th hk hth _ hnext => ?_
  obtain ⟨w, th', fresh, hm, hn⟩ | ⟨r', hK, -⟩ := hnext
  · cases hm with
    | keepFirst h _ => cases hth.symm.trans h; exact .released hk hn hS
    | keepOther h _ => cases hth.symm.trans h; exact .released hk hn hS
    | keepNothing h => cases hth.symm.trans h; exact .released hk hn hS
    | _ => cases hth.symm.trans ‹th.activity = _›
  · cases hK

end

theorem Leads.outer (h : σ.Leads t (σ.Steady t size types U S₀ (.inside G next)) goal n)
    (hF : F <:+ G) : σ.Leads t (σ.Steady t size types U S₀ (.inside F next)) goal n := by
  refine h.imp (fun k _ hs => ⟨hs.toCalm, hs.above, ?_⟩) fun k _ hg => hg
  obtain ⟨K, G', ha, hG⟩ := hs.inside
  exact ⟨K, G', ha, hF.trans hG⟩

section

variable (hI : Classes I size types) (hc : σ.Calm size types U n)

include hI hc

theorem Leads.rechecked
    (hs : s.container < size ∧ s.registration.logic.AsksFinitely I size types)
    (hfin : σ.Finishes t size types U S₀ ((s.container, .service s.name) :: insides F))
    (ha : (σ.state n).activity t =
      .resolving (.recheck s) (.owns s :: .inside s.container (.service s.name) :: F) next)
    (hS : Stack.Above S₀ U (insides (.inside s.container (.service s.name) :: F))) :
    σ.Leads t (σ.Steady t size types U S₀ (.inside F next)) (σ.Over t size types U F next) n := by
  have hG : F <:+ .owns s :: .inside s.container (.service s.name) :: F := ⟨[_, _], rfl⟩
  refine .control hc ha hG hS nofun nofun fun k th hk hth _ hnext => ?_
  obtain ⟨w, th', fresh, hm, hn⟩ | ⟨r', hK, -⟩ := hnext
  · cases hm with
    | recheckHit h _ => cases hth.symm.trans h; exact .released hk hn hS
    | recheckMiss h _ =>
      cases hth.symm.trans h
      have hbuild := hfin (.keeps s :: .owns s :: .inside s.container (.service s.name) :: F) next
        (build s.container s.name s.registration ∅) (k + 1) rfl
        (build_asksFinitely hs.2 hI hs.1 _ _) hk hn
      apply (hbuild.outer ⟨[_, _, _], rfl⟩).trans
      rintro l - ⟨hl, r, ha⟩
      exact .built hl ha hS
    | _ => cases hth.symm.trans ‹th.activity = _›
  · cases hK

theorem Leads.claimed
    (hs : s.container < size ∧ s.registration.logic.AsksFinitely I size types)
    (hfin : σ.Finishes t size types U S₀ ((s.container, .service s.name) :: insides F))
    (ha : (σ.state n).activity t =
      .resolving (.claim s) (.inside s.container (.service s.name) :: F) next)
    (hS : Stack.Above S₀ U (insides (.inside s.container (.service s.name) :: F))) :
    σ.Leads t (σ.Steady t size types U S₀ (.inside F next)) (σ.Over t size types U F next) n := by
  have hfree := (σ.reachable n).consistent.claim_free hc.single ha
  refine .control hc ha (List.suffix_cons _ _) hS nofun nofun fun k th hk hth _ hnext => ?_
  obtain ⟨w, th', fresh, hm, hn⟩ | ⟨r', hK, -⟩ := hnext
  · cases hm with
    | claimFree h _ => cases hth.symm.trans h; exact .rechecked hI hk hs hfin hn hS
    | claimCycle h ho _ => cases hth.symm.trans h; cases hfree.symm.trans ho
    | claimWait h ho _ => cases hth.symm.trans h; cases hfree.symm.trans ho
    | _ => cases hth.symm.trans ‹th.activity = _›
  · cases hK

theorem Leads.attempted
    (hs : s.container < size ∧ s.registration.logic.AsksFinitely I size types)
    (hfin : σ.Finishes t size types U S₀ ((s.container, .service s.name) :: insides F))
    (ha : (σ.state n).activity t =
      .resolving (.attempt s) (.inside s.container (.service s.name) :: F) next)
    (hS : Stack.Above S₀ U (insides (.inside s.container (.service s.name) :: F))) :
    σ.Leads t (σ.Steady t size types U S₀ (.inside F next)) (σ.Over t size types U F next) n := by
  refine .control hc ha (List.suffix_cons _ _) hS nofun nofun fun k th hk hth _ hnext => ?_
  obtain ⟨w, th', fresh, hm, hn⟩ | ⟨r', hK, -⟩ := hnext
  · cases hm with
    | attemptHit h _ => cases hth.symm.trans h; exact .left hk hn hS
    | attemptMiss h _ => cases hth.symm.trans h; exact .claimed hI hk hs hfin hn hS
    | _ => cases hth.symm.trans ‹th.activity = _›
  · cases hK

end

theorem Leads.entered {inside : Control C} (hc : σ.Calm size types U n)
    (ha : (σ.state n).activity t = .resolving (.enter c x inside) F next)
    (hS : Stack.Above S₀ U (insides F))
    (hinside : ∀ k, (c, x) ∉ insides F → σ.Calm size types U k →
      (σ.state k).activity t = .resolving inside (.inside c x :: F) next →
      σ.Leads t (σ.Steady t size types U S₀ (.inside F next)) (σ.Over t size types U F next) k) :
    σ.Leads t (σ.Steady t size types U S₀ (.inside F next)) (σ.Over t size types U F next) n := by
  refine .control hc ha List.suffix_rfl hS nofun nofun fun k th hk hth hstack hnext => ?_
  obtain ⟨w, th', fresh, hm, hn⟩ | ⟨r', hK, -⟩ := hnext
  · cases hm with
    | enterAgain h _ => cases hth.symm.trans h; exact .over hk hn
    | enterNew h hcycle =>
      cases hth.symm.trans h
      rw [Stack.cycle?_eq_none, hstack] at hcycle
      exact hinside (k + 1) hcycle hk hn
    | _ => cases hth.symm.trans ‹th.activity = _›
  · cases hK

section

variable (hI : Classes I size types) (hc : σ.Calm size types U n)
  (hS : Stack.Above S₀ U (insides F))
  (hfin : ∀ x ∈ U, x ∉ insides F → σ.Finishes t size types U S₀ (x :: insides F))

include hc hS hfin

theorem Leads.plain {p : Program C Instance} (hx : (c, x) ∈ U)
    (hp : p.AsksFinitely I size types fun _ => True)
    (ha : (σ.state n).activity t = .resolving (.enter c x (.run p)) F next) :
    σ.Leads t (σ.Steady t size types U S₀ (.inside F next)) (σ.Over t size types U F next) n := by
  refine .entered hc ha hS fun k hnew hk hrun => ?_
  have hrun := hfin (c, x) hx hnew (.inside c x :: F) next p k rfl hp hk hrun
  apply (hrun.outer (List.suffix_cons _ _)).trans
  rintro l - ⟨hl, r, hend⟩
  exact .left hl hend (hS.enter hx)

include hI

theorem Leads.peeked (hs : s.container < size ∧ s.registration.logic.AsksFinitely I size types)
    (hx : (s.container, .service s.name) ∈ U)
    (ha : (σ.state n).activity t = .resolving (.peek s) F next) :
    σ.Leads t (σ.Steady t size types U S₀ (.inside F next)) (σ.Over t size types U F next) n := by
  refine .control hc ha List.suffix_rfl hS nofun nofun fun k th hk hth _ hnext => ?_
  obtain ⟨w, th', fresh, hm, hn⟩ | ⟨r', hK, -⟩ := hnext
  · cases hm with
    | peekHit h _ => cases hth.symm.trans h; exact .over hk hn
    | peekMiss h _ =>
      cases hth.symm.trans h
      refine .entered hk hn hS fun l hnew hl hatt => ?_
      exact .attempted hI hl hs (hfin _ hx hnew) hatt (hS.enter hx)
    | _ => cases hth.symm.trans ‹th.activity = _›
  · cases hK

theorem Leads.found {name : String} {o : Overrides}
    (ha : (σ.state n).activity t = .resolving (.find c name o) F next) :
    σ.Leads t (σ.Steady t size types U S₀ (.inside F next)) (σ.Over t size types U F next) n := by
  refine .control hc ha List.suffix_rfl hS nofun nofun fun k th hk hth _ hnext => ?_
  obtain ⟨w, th', fresh, hm, hn⟩ | ⟨r', hK, -⟩ := hnext
  · cases hm with
    | findMissing h _ => cases hth.symm.trans h; exact .over hk hn
    | findShared h he _ =>
      cases hth.symm.trans h
      obtain ⟨hlt, hx⟩ := hc.kept.services (World.entry?_eq_some.1 he).1
      exact .peeked hI hk hS hfin ⟨hlt, hc.kept.finite he⟩ hx hn
    | findOther h he _ =>
      cases hth.symm.trans h
      obtain ⟨hlt, hx⟩ := hc.kept.services (World.entry?_eq_some.1 he).1
      exact .plain hk hS hfin hx (build_asksFinitely (hc.kept.finite he) hI hlt _ _) hn
    | _ => cases hth.symm.trans ‹th.activity = _›
  · cases hK

theorem Leads.requested {g : Goal}
    (hg : ∀ c type o, g = .class c type o → c < size ∧ type ∈ types)
    (ha : (σ.state n).activity t = .resolving g.control F next) :
    σ.Leads t (σ.Steady t size types U S₀ (.inside F next)) (σ.Over t size types U F next) n := by
  cases g with
  | service c name o => exact .found hI hc hS hfin ha
  | «class» c type o =>
    obtain ⟨hlt, ht⟩ := hg c type o rfl
    exact .plain hc hS hfin (hc.kept.classes hlt ht) (construct_asksFinitely hI ht hlt o) ha

end

section

variable {rest : α → Program C L.Answer} {p q : Program C α} {b : ℕ} {Q : α → Prop}

theorem Steady.of_runs {q : Program C L.Answer} (hc : σ.Calm size types U n)
    (hS : Stack.Above S₀ U (insides L.frames)) (h : (σ.state n).activity t = L.runs q) :
    σ.Steady t size types U S₀ L n := by
  obtain ⟨hstack, -, -⟩ := (σ.reachable n).consistent.of_runs h
  refine ⟨hc, by rw [hstack]; exact hS, ?_⟩
  cases L with
  | own => trivial
  | inside F next => exact ⟨_, F, h, List.suffix_rfl⟩

theorem insides_callers (L : Scope C) (rest : Except Error Instance → Program C L.Answer) :
    insides (L.callers rest) = insides L.frames := by
  cases L <;> rfl

theorem Steady.of_callers {rest : Except Error Instance → Program C L.Answer}
    (h : σ.Steady t size types U S₀ (.inside (L.callers rest) (L.onward rest)) n) :
    σ.Steady t size types U S₀ L n := by
  refine ⟨h.toCalm, h.above, ?_⟩
  cases L with
  | own => trivial
  | inside F next =>
    obtain ⟨K, G, ha, hG⟩ := h.inside
    exact ⟨K, G, ha, (List.suffix_cons _ F).trans hG⟩

variable (hI : Classes I size types) (hS : Stack.Above S₀ U (insides L.frames))
  (hfin : ∀ x ∈ U, x ∉ insides L.frames → σ.Finishes t size types U S₀ (x :: insides L.frames))

include hS

theorem Leads.pure_step (hc : σ.Calm size types U n) (h : σ.Proceeds t L rest p b q n)
    (hact : ∀ a next, q.bind rest ≠ .act a next)
    (hnext : ∀ k, σ.Calm size types U (k + 1) → σ.Proceeds t L rest p b q k → σ.mover k = some t →
      σ.Leads t (σ.Steady t size types U S₀ L) goal (k + 1)) :
    σ.Leads t (σ.Steady t size types U S₀ L) goal n := by
  refine .later (fun k hk hr => ?_) ?_ fun k hk hr hm => ?_
  · exact .of_runs (hc.rests hk hr) hS (h.rests hk hr).activity
  · exact Machine.runs_isSome h.activity fun th a next he => absurd he (hact a next)
  · have hnow := h.rests hk hr
    refine hnext k ((hc.rests hk hr).step hm fun L' a next he => ?_) hnow hm
    have hruns := hnow.activity.symm.trans he
    cases L <;> cases L' <;> cases hq : q.bind rest <;> rw [hq] at hruns <;> cases hruns
    · exact hact _ _ hq
    · exact hact _ _ hq

include hI hfin

theorem Proceeds.leads_answer {g : Goal} {next : Except Error Instance → Program C α}
    (h : σ.Proceeds t L rest p b (.resolve g next) n) (hc : σ.Calm size types U n)
    (hg : ∀ c type o, g = .class c type o → c < size ∧ type ∈ types) :
    σ.Leads t (σ.Steady t size types U S₀ L) (fun k => σ.Calm size types U k ∧
      ((∃ a, σ.Proceeds t L rest p b (next a) k) ∨
        ∃ message, σ.Ends t L rest p b (.error (.crash message)) k)) n := by
  refine .pure_step hS hc h nofun fun k hk hnow hm => ?_
  obtain ⟨hne, -⟩ | ⟨-, hasks⟩ := runs_next hnow.activity
  · exact absurd hm hne
  let callers := L.callers fun a => (next a).bind rest
  let onward := L.onward fun a => (next a).bind rest
  have hins : insides callers = insides L.frames := insides_callers L _
  have hrequest : σ.Leads t (σ.Steady t size types U S₀ (.inside callers onward))
      (σ.Over t size types U callers onward) (k + 1) :=
    .requested hI hk (hins ▸ hS) (hins ▸ hfin) hg hasks
  apply ((hrequest.since).imp (fun _ _ hs => hs.of_callers) fun _ _ hg => hg).trans
  rintro l hl ⟨⟨hcalm, r, hend⟩, hsince⟩
  refine .later (fun i hi hr => ?_) (control_isSome hend nofun nofun) fun i hi hr hm' => ?_
  · have hs := hr.state hi
    refine ⟨hcalm.rests hi hr, ?_, ?_⟩
    · rw [hs, stack_eq_insides hend, hins]
      exact hS
    · rw [hs, hend]
      cases hL : L with
      | own => trivial
      | inside F next => subst hL; exact ⟨_, _, rfl, List.suffix_cons _ F⟩
  · have hfinish : (σ.state i).activity t = .resolving (.finish r) callers onward := by
      rw [hr.state hi, hend]
    have hrequests : σ.Requests t L g (fun a => (next a).bind rest) k r i := by
      refine ⟨⟨hnow.activity, hm, by omega, fun j hkj hji => ?_⟩, hfinish, hm'⟩
      obtain hlt | hge := Nat.lt_or_ge j l
      · exact (hsince j hkj hlt).inside
      · have hj : σ.state j = σ.state l := Rests.state (fun a ha haj => hr a ha (by omega)) hge
        rw [hj]
        exact ⟨_, _, hend, List.suffix_rfl⟩
    have hafter : σ.Calm size types U (i + 1) := by
      apply (hcalm.rests hi hr).step hm'
      intro L' a rest' he
      cases L' <;> cases hfinish.symm.trans he
    cases r with
    | ok a => exact .there ⟨hafter, .inl ⟨.ok a, hnow.answered (a := .ok a) hrequests⟩⟩
    | error f =>
      cases f with
      | error e => exact .there ⟨hafter, .inl ⟨.error e, hnow.answered (a := .error e) hrequests⟩⟩
      | crash s => exact .there ⟨hafter, .inr ⟨s, .crash hnow hrequests⟩⟩

theorem Proceeds.leads_end {s : (Discipline.finite I size types).State}
    (hq : q.Obeys (.finite I size types) Q s) (h : σ.Proceeds t L rest p b q n)
    (hc : σ.Calm size types U n) :
    σ.Leads t (σ.Steady t size types U S₀ L)
      (fun k => σ.Calm size types U k ∧ ∃ r, σ.Ends t L rest p b r k) n := by
  induction hq generalizing n with
  | @done a _ => exact .there ⟨hc, .ok a, .itself h⟩
  | @fail e => exact .there ⟨hc, .error (.error e), .itself h⟩
  | @crash s => exact .there ⟨hc, .error (.crash s), .itself h⟩
  | @act _ a next ha _ ih =>
    have hsteady : ∀ k, n ≤ k → σ.Rests n k → σ.Proceeds t L rest p b (.act a next) k →
        σ.Steady t size types U S₀ L k := fun k hk hr hnow =>
      .of_runs (hc.rests hk hr) hS hnow.activity
    refine .act h hsteady (fun th => ?_) fun k th r m hk ht hp hw hl h' => ih r trivial h' ⟨?_, ?_⟩
    · cases a <;> first | exact ha.elim | rfl
    · rw [hl, hc.single]
      cases a <;> first | exact ha.elim | rfl
    · rw [hw]
      exact hc.kept.perform ha hp
  | call hI => cases hI
  | expand hI _ ih =>
    cases hI
    refine .pure_step hS hc h nofun fun k hk hnow hm => ih (hnow.calls hm) hk
  | @resolve g next hg _ ih =>
    have hclass : ∀ c type o, g = .class c type o → c < size ∧ type ∈ types := by
      rintro c type o rfl
      exact ⟨hg.1, hg.2.1⟩
    apply (h.leads_answer hI hS hfin hc hclass).trans
    rintro k - ⟨hk, ⟨a, ha⟩ | ⟨s, hs⟩⟩
    · exact ih a (fun _ _ => trivial) ha hk
    · exact .there ⟨hk, _, hs⟩

end

theorem finishes (hI : Classes I size types) {S : Stack} (hS : Stack.Above S₀ U S) :
    σ.Finishes t size types U S₀ S := by
  induction h : Stack.free U S using Nat.strong_induction_on generalizing S with
  | _ u ih =>
    subst h
    rintro F next p n rfl hp hc ha
    have hfin : ∀ x ∈ U, x ∉ insides F → σ.Finishes t size types U S₀ (x :: insides F) :=
      fun x hx hnew => ih _ (Stack.free_lt hx hnew) (hS.enter hx) rfl
    have hbegins : σ.Proceeds t (.inside F next) .done p n p n :=
      Proceeds.of_runs (L := .inside F next) ha
    apply (hbegins.leads_end hI hS hfin hp hc).trans
    rintro k - ⟨hk, r, he⟩
    cases he with
    | itself h =>
      refine .pure_step hS hk h (fun a next he => ?_) fun l hl hnow hm => ?_
      · obtain ((e | s) | i) := r <;> cases he
      · exact .there ⟨hl, r, Proceeds.ended (L := .inside F next) hnow hm⟩
    | crash _ hr => exact .there ⟨hk, _, hr.receives⟩

end Run

def Client.errand : Client := ⟨ContainerId × String, Unit, Unit⟩

def Implementation.errand : Implementation Client.errand where
  make code _ _ := (Container.get code.1 code.2).bind fun _ => .done (.text "")
  give code _ _ := Container.get code.1 code.2
  manifest _ := .done [⟨"again", .autowired (.of "Self"), none⟩]
  construct _ _ := .done (.text "")
  job _ := .done ()

def World.errand : World Client.errand :=
  [(0, "a", (⟨true, .made (.of "A") [] (1, "b")⟩ : Registration Client.errand)),
    (1, "b", ⟨false, .made (.of "B") [] (0, "a")⟩),
    (0, "c", ⟨true, .given (.of "C") [⟨"self", .autowired (.of "Self"), none⟩] (0, "a")⟩)].foldl
    (fun w s => w.insert s.1 s.2.1 s.2.2) (World.start ()).newContainer.2

theorem World.errand_unbuilt : World.errand.Unbuilt := by
  have hedit : Edit (start (C := Client.errand) ()) (start ()).newContainer.2 :=
    .newContainer rfl rfl rfl
  exact List.foldlRecOn _ _ (hedit.unbuilt (start_unbuilt _)) fun _ h _ _ =>
    (Edit.insert _ _ _ _).unbuilt h

def Container.errand : Program Client.errand Instance :=
  (Container.get 0 "c").attempt.bind fun _ => Container.get 0 "a"

namespace Run

def errand : Run Implementation.errand :=
  along ⟨.errand, [{ todo := [Container.errand.bind fun _ => .done ()] }]⟩
    { world := World.errand_unbuilt
      threads := fun h => by rw [List.mem_singleton.1 h]; exact ⟨rfl, rfl, rfl⟩ } fun _ => 0

end Run

def Implementation.recursive : Implementation Client.plain :=
  { Implementation.plain with
    make := fun _ c _ => callMethod c (.of "M") "again" [] ∅ fun args => .run (.make () c args) }

def Program.recursive : Program Client.plain Value :=
  callMethod 0 (.of "M") "again" [] ∅ fun args => .run (.make () 0 args)

def Machine.recursive : Machine Client.plain where
  world := .start ()
  threads := [{ todo := [Program.recursive.bind fun _ => .done ()] }]

theorem Machine.recursive_fresh : recursive.Fresh where
  world := World.start_unbuilt _
  threads h := by rw [List.mem_singleton.1 h]; exact ⟨rfl, rfl, rfl⟩

namespace Run

def recursive : Run Implementation.recursive := along _ Machine.recursive_fresh fun _ => 0

end Run

end Wiring
