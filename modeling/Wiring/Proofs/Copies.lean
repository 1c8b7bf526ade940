import Mathlib.Tactic.IntervalCases
import Wiring.Proofs.Freshness

namespace Wiring

variable {C : Client} {R : Reach C}

def Container.stock (c : ContainerId) (name : String) (type : TypeKey) (v : Value) :
    Program C Unit := do
  Container.register c name ⟨false, .literal (← allocate type v) true⟩

namespace Run

variable {I : Implementation C} {σ : Run I} {t : ThreadId} {L : Scope C} {n k l : ℕ}
  {w : Instance} {v : Value} {c : ContainerId} {name : String} {type : TypeKey}
  {rest : Unit → Program C L.Answer} {ds : List (Deed C)}

/-- From moment `n` on nothing refers to the literal but registrations that hand out copies of it,
so that it is never in use. It holds `v`, and so does each of their answers, which is another object
of the same type. -/
structure Retains (σ : Run I) (R : Reach C) (w : Instance) (v : Value) (n : ℕ) : Prop where
  guarded (m : ℕ) (h : n ≤ m) : (σ.state m).Guards R w.object v true none
  unused {m i} (h : n ≤ m) (hi : (σ.state m).Shows i) : i.object ≠ w.object
  copies {t c name o f i l} (h : n ≤ f)
    (ho : σ.Obtains t c name o ⟨false, .literal w true⟩ f i l) :
    i.type = w.type ∧ i.object ≠ w.object ∧ (σ.state l).world.objects[i.object]? = some v

theorem Honest.retains (hI : σ.Honest R) (hd : I.Lacks R w.object true)
    (h : (σ.state n).Guards R w.object v true none) : σ.Retains R w v n := by
  have hguarded (m : ℕ) (hm : n ≤ m) : (σ.state m).Guards R w.object v true none :=
    guards_since hd h hm nofun
  refine ⟨hguarded, fun {m i} hm => (hguarded m hm).toConceals.shows,
    fun {t c name o f i l} hf ho => ?_⟩
  obtain ⟨v', j, hfj, hjl, hnew, hcopy⟩ := ho.newborn hI rfl rfl
  obtain ⟨htype, d, hfd, hdj, rfl⟩ := hcopy w true rfl
  have hread : (σ.state d).world.value w.object = v := by
    rw [World.value, List.getD_eq_getElem?_getD, (hguarded d (by omega)).holds]
    rfl
  refine ⟨htype, ?_, hread ▸ (hnew.guarded l hjl (Nat.le_refl l)).holds⟩
  have hold := (List.getElem?_eq_some_iff.1 (hguarded j (by omega)).holds).1
  rw [hnew.object]
  exact Nat.ne_of_gt hold

theorem Completes.retained {rest : Instance → Program C L.Answer}
    (h : σ.Completes t L rest (allocate type v) n ds (.ok w) l) (hI : σ.Honest R)
    (hrest : (rest w).Lacks R w.object true (L.Lacks R w.object)) :
    σ.Retains R w v l := by
  obtain ⟨-, k, hk, hmade⟩ := h.allocated
  have hnew := hmade.newborn hI
  have hd : I.Lacks R w.object true := (hI.unborn (Nat.le_of_eq hnew.object.symm)).1.relax
  have hguarded := hnew.guarded l hmade.lt (Nat.le_refl l)
  have hheld : (σ.state l).Conceals R w.object true (some t) := hguarded.relax
  have hgoes : (σ.state l).activity t = L.runs (rest w) := h.at_end.resolve_right nofun
  have hact : ((σ.state l).activity t).Conceals R w.object true false := by
    have hnow := hheld.activity t
    rw [hgoes, decide_eq_true rfl] at hnow
    rw [hgoes]
    exact Activity.conceals_runs.2 ⟨hrest, hnow⟩
  exact hI.retains hd ⟨hheld.frees hact, hguarded.holds⟩

theorem Completes.stocked (h : σ.Completes t L rest (Container.stock c name type v) n ds (.ok ()) l)
    (hI : σ.Honest R) :
    ∃ w a b, n < a ∧ a ≤ b ∧ b < l ∧ w.type = type ∧
      σ.Performs b t (.insert c name ⟨false, .literal w true⟩) ∧ σ.Retains R w v a := by
  obtain ⟨w, a, _, _, hmake, hregister⟩ := Completes.bind_ok h
  obtain ⟨htype, k, hk, hmade⟩ := hmake.allocated
  have hname : name ≠ "" := by
    rintro rfl
    have hfail : σ.Completes t L rest (.ended (.error (.error .emptyServiceName))) a _ (.ok ()) l :=
      hregister
    cases hfail.of_ended.1
  -- The code begins without knowing the literal, and goes on alike whatever it has been given.
  have hrest : (rest ()).Lacks R w.object false (L.Lacks R w.object) := by
    have hbegin := (hI.unborn ((objects_le hk).trans (Nat.le_of_eq hmade.object.symm))).2.activity t
    rw [h.activity, decide_eq_false nofun] at hbegin
    have hother : Program.Lacks R w.object false (L.Lacks R w.object)
        ((Container.register c name ⟨false, .literal ⟨type, w.object + 1⟩ true⟩).bind rest) :=
      (Activity.conceals_runs.1 hbegin).1.of_act.2 ⟨type, w.object + 1⟩ (Nat.succ_ne_self _)
    rw [Container.register_eq hname] at hother
    exact (hother.of_act.2 () trivial).of_act.2 false trivial
  have hcopies : Registration.Conceals R w.object true ⟨false, .literal w true⟩ :=
    .inr ⟨rfl, rfl, w.type, rfl⟩
  have hretains : σ.Retains R w v a :=
    hmake.retained hI ((Container.register_lacks hcopies c name).bind fun _ _ => hrest.relax)
  rw [Container.register_eq hname] at hregister
  obtain ⟨k₁, _, _, _, _, htell, _, _, _, hregister⟩ := hregister.acted
  obtain ⟨b, _, _, _, _, hinsert, _, _, _, hend⟩ := hregister.acted
  have hbefore := htell.le.trans (Nat.le_of_succ_le hinsert.le)
  exact ⟨w, a, b, Nat.lt_of_le_of_lt hk hmade.lt, hbefore, hend.le, htype, hinsert.performs,
    hretains⟩

theorem Obtains.standing {o : Overrides} {reg : Registration C} {f : ℕ} {i : Instance}
    {e : EntryId} {x : Entry C} (h : σ.Obtains t c name o reg f i l)
    (hx : (σ.state n).world.entry? c name = some (e, x)) (hf : n ≤ f)
    (hno : ∀ j u a, n ≤ j → j < f → σ.Performs j u a → ¬ a.Places c name) :
    reg = x.registration := by
  obtain ⟨⟨e', y, hy, rfl⟩, -⟩ := h
  obtain ⟨hs, hx⟩ := World.entry?_eq_some.1 hx
  obtain ⟨hs', hy⟩ := World.entry?_eq_some.1 hy
  rw [service_since hf hno, hs] at hs'
  cases hs'
  obtain ⟨z, hz, hreg⟩ := registration_lasts hx hf
  cases hy.symm.trans hz
  exact hreg

theorem Obtains.shared_literal {o : Overrides} {copies : Bool} {f : ℕ} {i : Instance}
    (h : σ.Obtains t c name o ⟨true, .literal w copies⟩ f i l) : i = w := by
  obtain ⟨⟨e, x, he, hreg⟩, L, next, k, hr, hkf, hfl, hm, hat⟩ := h
  obtain ⟨e', y, he', ⟨-, hcached⟩ | ⟨-, b, j, -, -, hown⟩⟩ := hr.built_at hkf hfl hm hat
  · cases he.symm.trans he'
    obtain ⟨z, hz, hi⟩ := Option.bind_eq_some_iff.1 hcached
    obtain ⟨y, hy, hsame⟩ := registration_lasts (World.entry?_eq_some.1 he).2 (Nat.le_of_lt hfl)
    cases hz.symm.trans hy
    have hlogic : z.registration.logic = .literal w copies := by rw [hsame, hreg]
    exact (σ.cached_literal hz hlogic hi).2
  · cases he.symm.trans he'
    rw [hreg] at hown
    exact hown.ensures (build_literal_ensures _ _ w copies o)

/-- Each request for a service that is answered has found a registration. If that is not shared and
its logic makes what it answers, then the answer is an object that does not exist yet when the
service is looked up, and until the answer is taken up nothing else refers to it; if the logic is a
literal, the answer is a copy of what the literal has held meanwhile. A literal that code makes and
registers as not shared is retained from then on, and so is one that code does no more with than to
register it like that, and one that nothing refers to but such registrations: it keeps its value, is
never in use, and each answer is a new object with that value. As long as a shared literal stands
under its name, each answer, overridden or not, is the literal itself. -/
theorem unshared_isolated (σ : Run I) (R : Reach C) (hI : σ.Honest R) :
    (∀ t (L : Scope C) c name o next k i l,
      σ.Requests t L (.service c name o) next k (.ok i) l →
        ∃ reg f, k < f ∧ σ.Obtains t c name o reg f i l) ∧
    (∀ t c name o reg f i l, σ.Obtains t c name o reg f i l → reg.shared = false →
      reg.logic.Creates → ∃ v j, f < j ∧ j < l ∧ σ.Newborn R t v j i l ∧
        (∀ m ≤ f, ∀ i', (σ.state m).Shows i' ∨ (σ.state m).world.Stores i' →
          i'.object ≠ i.object) ∧
        ∀ w copies, reg.logic = .literal w copies →
          i.type = w.type ∧ ∃ d, f < d ∧ d < j ∧ v = (σ.state d).world.value w.object) ∧
    (∀ t (L : Scope C) rest c name type v n ds l,
      σ.Completes t L rest (Container.stock c name type v) n ds (.ok ()) l →
        ∃ w a b, n < a ∧ a ≤ b ∧ b < l ∧ w.type = type ∧
          σ.Performs b t (.insert c name ⟨false, .literal w true⟩) ∧ σ.Retains R w v a) ∧
    (∀ t (L : Scope C) rest type v n ds w l,
      σ.Completes t L rest (allocate type v) n ds (.ok w) l →
      (rest w).Lacks R w.object true (L.Lacks R w.object) → σ.Retains R w v l) ∧
    (∀ n w v, I.Lacks R w.object true → (σ.state n).Guards R w.object v true none →
      σ.Retains R w v n) ∧
    ∀ n c name e x w copies, (σ.state n).world.entry? c name = some (e, x) →
      x.registration = ⟨true, .literal w copies⟩ → ∀ t o reg f i l, n ≤ f →
      (∀ j u a, n ≤ j → j < f → σ.Performs j u a → ¬ a.Places c name) →
      σ.Obtains t c name o reg f i l → i = w := by
  refine ⟨?_, ?_, ?_, ?_, ?_, ?_⟩
  · intro t L c name o next k i l h
    exact h.obtains
  · intro t c name o reg f i l h hs hc
    obtain ⟨v, j, hfj, hjl, hnew, hcopy⟩ := h.newborn hI hs hc
    refine ⟨v, j, hfj, hjl, hnew, fun m hm i' hi => ?_, hcopy⟩
    exact hnew.other (hm.trans (Nat.le_of_lt hfj)) hi
  · intro t L rest c name type v n ds l h
    exact h.stocked hI
  · intro t L rest type v n ds w l h hrest
    exact h.retained hI hrest
  · intro n w v hd h
    exact hI.retains hd h
  · intro n c name e x w copies hx hreg t o reg f i l hf hno h
    obtain rfl := h.standing hx hf hno
    rw [hreg] at h
    exact h.shared_literal

end Run

def Reach.none : Reach Client.plain := ⟨fun _ _ => False, fun _ _ => False, fun _ _ => False⟩

theorem Implementation.plain_lacks (p : ObjectId) :
    Implementation.plain.Lacks .none p false where
  answer {k} _ := by
    cases k with
    | make | construct => exact .done trivial
    | give => exact .crash
    | manifest type => exact .done nofun
  job _ := .done id

def Program.tally : Program Client.plain Unit := do
  Container.stock 0 "n" (.of "N") (.counter 7)
  let first ← Container.get 0 "n"
  let _ ← perform (.modify first.object fun _ => .counter 8)
  let _ ← request (.service 0 "n" ((∅ : Overrides).withName "x" first))
  let word ← allocate (.of "S") (.text "")
  Container.register 0 "s" ⟨true, .literal word true⟩
  let _ ← Container.get 0 "s"
  let _ ← Container.get 0 "f"

theorem Program.tally_lacks (p : ObjectId) :
    tally.Lacks .none p false (¬ Reach.none.report · p) := by
  have hstock : (Container.stock 0 "n" (.of "N") (.counter 7)).Lacks .none p false fun _ => True :=
    (Obeys.allocate (v := .counter 7) (.of "N") trivial).bind fun w hw =>
      Container.register_lacks (r := ⟨false, .literal w true⟩) (.inl hw) 0 "n"
  refine hstock.bind fun _ _ => (Obeys.get 0 "n").bind fun first hfirst => ?_
  refine .act ⟨fun he => absurd he hfirst, fun _ _ => trivial⟩ fun _ _ => ?_
  have hagain := (Overrides.all_empty _).withName hfirst "x"
  refine (Obeys.request (g := .service 0 "n" _) hagain).bind fun _ _ => ?_
  refine (Obeys.allocate (v := .text "") (.of "S") trivial).bind fun word hword => ?_
  have hshared : Registration.Conceals .none p false ⟨true, .literal word true⟩ := .inl hword
  refine (Container.register_lacks hshared 0 "s").bind fun _ _ => ?_
  exact (Obeys.get 0 "s").bind fun _ _ => (Obeys.get 0 "f").bind fun _ _ => .done id

namespace Run

def tally : Run Implementation.plain :=
  alone (.ofServices () [("f", ⟨false, .made (.of "F") [] ()⟩)]) (World.ofServices_unbuilt _ _)
    .tally

theorem tally_honest : tally.Honest .none := by
  intro p _
  refine ⟨Implementation.plain_lacks p, ⟨?_, nofun, id⟩, fun {u th} hu => ?_⟩
  · intro x hx
    obtain rfl := List.mem_singleton.1 hx
    exact ⟨.inl ⟨nofun, id⟩, nofun⟩
  · obtain rfl := List.mem_singleton.1 (List.mem_of_getElem? hu)
    refine ⟨trivial, fun {q} hq => ?_, nofun, nofun⟩
    obtain rfl := List.mem_singleton.1 hq
    exact Program.tally_lacks p

theorem tally_stocks : ∃ rest ds, tally.Completes 0 .own rest
    (Container.stock 0 "n" (.of "N") (.counter 7)) 1 ds (.ok ()) 4 := by
  exact ⟨_, _, .act rfl rfl rfl rfl (.act rfl rfl rfl rfl (.act rfl rfl rfl rfl
    (.ended (r := .ok ()) rfl)))⟩

theorem tally_again : tally.Obtains 0 0 "n" ((∅ : Overrides).withName "x" ⟨.of "N", 1⟩)
    ⟨false, .literal ⟨.of "N", 0⟩ true⟩ 15 ⟨.of "N", 2⟩ 22 where
  found := ⟨1, _, rfl, rfl⟩
  answers := by
    refine ⟨.own, _, 14, ⟨⟨rfl, rfl, by decide, fun j hj hl => ?_⟩, rfl, rfl⟩, by decide, by decide,
      rfl, rfl⟩
    interval_cases j <;> exact ⟨_, _, rfl, List.nil_suffix⟩

theorem tally_shared :
    tally.Obtains 0 0 "s" ∅ ⟨true, .literal ⟨.of "S", 3⟩ true⟩ 27 ⟨.of "S", 3⟩ 39 where
  found := ⟨2, _, rfl, rfl⟩
  answers := by
    refine ⟨.own, _, 26, ⟨⟨rfl, rfl, by decide, fun j hj hl => ?_⟩, rfl, rfl⟩, by decide, by decide,
      rfl, rfl⟩
    interval_cases j <;> exact ⟨_, _, rfl, List.nil_suffix⟩

set_option maxRecDepth 2000 in
theorem tally_made : tally.Obtains 0 0 "f" ∅ ⟨false, .made (.of "F") [] ()⟩ 41 ⟨.of "F", 4⟩ 48 where
  found := ⟨0, _, rfl, rfl⟩
  answers := by
    refine ⟨.own, _, 40, ⟨⟨rfl, rfl, by decide, fun j hj hl => ?_⟩, rfl, rfl⟩, by decide, by decide,
      rfl, rfl⟩
    interval_cases j <;> exact ⟨_, _, rfl, List.nil_suffix⟩

theorem unshared_isolated_tally :
    (∃ a ≤ 3, tally.Retains .none ⟨.of "N", 0⟩ (.counter 7) a) ∧
      (tally.state 22).world.objects[1]? = some (.counter 8) ∧
      (tally.state 22).world.objects[2]? = some (.counter 7) ∧
      (∃ v j, 41 < j ∧ j < 48 ∧ tally.Newborn .none 0 v j ⟨.of "F", 4⟩ 48) ∧
      (∃ i, tally.Obtains 0 0 "s" ∅ ⟨true, .literal ⟨.of "S", 3⟩ true⟩ 27 i 39) ∧
      ∀ t o reg i l, tally.Obtains t 0 "s" o reg 27 i l → i = ⟨.of "S", 3⟩ := by
  obtain ⟨-, hnew, hstock, -, -, hshared⟩ := unshared_isolated tally .none tally_honest
  obtain ⟨a, ha, hretains⟩ : ∃ a ≤ 3, tally.Retains .none ⟨.of "N", 0⟩ (.counter 7) a := by
    obtain ⟨rest, ds, hcompletes⟩ := tally_stocks
    obtain ⟨w, a, b, hn, hab, hb, -, ⟨hm, L, next, hact⟩, hretains⟩ :=
      hstock _ _ _ _ _ _ _ _ _ _ hcompletes
    have htell : (tally.state 2).activity 0 =
        .running (.act (.emit (.registering "n" false (.of "N"))) _) := rfl
    have hinsert : (tally.state 3).activity 0 =
        .running (.act (.insert 0 "n" ⟨false, .literal ⟨.of "N", 0⟩ true⟩) _) := rfl
    have hlow : 2 ≤ b := Nat.le_trans hn hab
    interval_cases b
    · cases L <;> cases htell.symm.trans hact
    · cases L <;> cases hinsert.symm.trans hact
      exact ⟨a, hab, hretains⟩
  refine ⟨⟨a, ha, hretains⟩, rfl, ?_, ?_, ⟨_, tally_shared⟩, ?_⟩
  · exact (hretains.copies (Nat.le_trans ha (by decide)) tally_again).2.2
  · obtain ⟨v, j, hj, hl, hnewborn, -, -⟩ := hnew _ _ _ _ _ _ _ _ tally_made rfl trivial
    exact ⟨v, j, hj, hl, hnewborn⟩
  · intro t o reg i l h
    refine hshared 26 0 "s" 2 _ ⟨.of "S", 3⟩ true rfl rfl t o reg 27 i l (by decide) ?_ h
    intro j u a hj hj' ⟨hm, L, next, ha⟩
    obtain rfl : j = 26 := by omega
    have hasks : (tally.state 26).activity 0 = .running (.resolve (.service 0 "s" ∅) _) := rfl
    have hu : tally.mover 26 = some 0 := rfl
    cases hm.symm.trans hu
    cases L <;> cases hasks.symm.trans ha

end Run

def Program.twofold : Program Client.plain Unit := do
  let literal ← allocate (.of "N") (.counter 7)
  Container.register 0 "a" ⟨false, .literal literal true⟩
  Container.register 0 "b" ⟨true, .literal literal true⟩
  let shown ← Container.get 0 "b"
  let _ ← perform (.modify shown.object fun _ => .counter 8)
  let _ ← Container.get 0 "a"

namespace Run

def twofold : Run Implementation.plain := alone (.start ()) (World.start_unbuilt _) .twofold

theorem twofold_shared :
    twofold.Obtains 0 0 "b" ∅ ⟨true, .literal ⟨.of "N", 0⟩ true⟩ 7 ⟨.of "N", 0⟩ 19 where
  found := ⟨1, _, rfl, rfl⟩
  answers := by
    refine ⟨.own, _, 6, ⟨⟨rfl, rfl, by decide, fun j hj hl => ?_⟩, rfl, rfl⟩, by decide, by decide,
      rfl, rfl⟩
    interval_cases j <;> exact ⟨_, _, rfl, List.nil_suffix⟩

theorem twofold_copied :
    twofold.Obtains 0 0 "a" ∅ ⟨false, .literal ⟨.of "N", 0⟩ true⟩ 22 ⟨.of "N", 1⟩ 29 where
  found := ⟨0, _, rfl, rfl⟩
  answers := by
    refine ⟨.own, _, 21, ⟨⟨rfl, rfl, by decide, fun j hj hl => ?_⟩, rfl, rfl⟩, by decide, by decide,
      rfl, rfl⟩
    interval_cases j <;> exact ⟨_, _, rfl, List.nil_suffix⟩

/-- A literal that is not shared can be handed out all the same, if its logic is registered once
more as shared. Then its copies no longer hold what it was registered with. -/
theorem literal_handed_out :
    twofold.Performs 3 0 (.insert 0 "a" ⟨false, .literal ⟨.of "N", 0⟩ true⟩) ∧
      (twofold.state 3).world.objects[0]? = some (.counter 7) ∧
      twofold.Obtains 0 0 "b" ∅ ⟨true, .literal ⟨.of "N", 0⟩ true⟩ 7 ⟨.of "N", 0⟩ 19 ∧
      twofold.Obtains 0 0 "a" ∅ ⟨false, .literal ⟨.of "N", 0⟩ true⟩ 22 ⟨.of "N", 1⟩ 29 ∧
      (twofold.state 29).world.objects[1]? = some (.counter 8) :=
  ⟨⟨rfl, .own, _, rfl⟩, rfl, twofold_shared, twofold_copied, rfl⟩

end Run

end Wiring
