import Wiring.Proofs.Entries
import Wiring.Proofs.Contract

namespace Wiring

open Relation (ReflTransGen TransGen)

variable {C : Client} {I : Implementation C} {w : World C} {c : ContainerId}

def Entry.site (x : Entry C) (c : ContainerId) (name : String) (e : EntryId) : Site C :=
  ⟨c, name, e, x.registration⟩

inductive Asked (P : Contract I w c) (n : String) (o : List Value) :
    Item → List Item → List (Frame C) → Prop
  | step (h : P.arises [] (.service n)) : Asked P n o (.service n) [] []
  | plain {x y S F rest} (h : Asked P n o y S F) (hp : w.Plain c y) (hy : ¬ y.Barred S)
      (hr : P.asks S y x)
      (hb : ∀ a o', P.grows o o' → P.fair (y :: S) x (Except.mapError .error a) o' →
        Behaves I (P.setting y S) (P.fair S y) (rest a) o')
      (hc : ∀ message o', P.grows o o' → P.fair (y :: S) x (.error (.crash message)) o' →
        P.fair S y (.error (.crash message)) o') :
      Asked P n o x (y :: S) (.caller rest :: .inside c y.target :: F)
  | shared {x name e entry S F rest} (h : Asked P n o (.service name) S F)
      (hy : ¬ (Item.service name).Barred S) (he : w.Shares c name e entry)
      (hr : P.asks S (.service name) x)
      (hb : ∀ a o', P.grows o o' → P.fair (.service name :: S) x (Except.mapError .error a) o' →
        Behaves I (P.setting (.service name) S) (P.built S name) (rest a) o')
      (hc : ∀ message o', P.grows o o' →
        P.fair (.service name :: S) x (.error (.crash message)) o' →
          P.built S name (.error (.crash message)) o') :
      Asked P n o x (.service name :: S)
        (.caller rest :: .keeps (entry.site c name e) :: .owns (entry.site c name e) ::
          .inside c (.service name) :: F)

inductive Fits (P : Contract I w c) (n : String) (o : List Value) :
    Control C → List (Frame C) → Prop
  | find {name S F} (h : Asked P n o (.service name) S F) : Fits P n o (.find c name ∅) F
  | peek {name e entry S F} (h : Asked P n o (.service name) S F)
      (he : w.Shares c name e entry) : Fits P n o (.peek (entry.site c name e)) F
  | enterShared {name e entry S F} (h : Asked P n o (.service name) S F)
      (he : w.Shares c name e entry) :
      Fits P n o (.enter c (.service name) (.attempt (entry.site c name e))) F
  | enterPlain {x p S F} (h : Asked P n o x S F) (hw : w.Plain c x)
      (hp : ¬ x.Barred S → Behaves I (P.setting x S) (P.fair S x) p o) :
      Fits P n o (.enter c x.target (.run p)) F
  | attempt {name e entry S F} (h : Asked P n o (.service name) S F)
      (hx : ¬ (Item.service name).Barred S) (he : w.Shares c name e entry) :
      Fits P n o (.attempt (entry.site c name e)) (.inside c (.service name) :: F)
  | claim {name e entry S F} (h : Asked P n o (.service name) S F)
      (hx : ¬ (Item.service name).Barred S) (he : w.Shares c name e entry) :
      Fits P n o (.claim (entry.site c name e)) (.inside c (.service name) :: F)
  | asleep {name e entry owner S F} (h : Asked P n o (.service name) S F)
      (hx : ¬ (Item.service name).Barred S) (he : w.Shares c name e entry) :
      Fits P n o (.asleep (entry.site c name e) owner) (.inside c (.service name) :: F)
  | woken {name e entry owner S F} (h : Asked P n o (.service name) S F)
      (hx : ¬ (Item.service name).Barred S) (he : w.Shares c name e entry) :
      Fits P n o (.woken (entry.site c name e) owner) (.inside c (.service name) :: F)
  | recheck {name e entry S F} (h : Asked P n o (.service name) S F)
      (hx : ¬ (Item.service name).Barred S) (he : w.Shares c name e entry) :
      Fits P n o (.recheck (entry.site c name e))
        (.owns (entry.site c name e) :: .inside c (.service name) :: F)
  | runPlain {x p S F} (h : Asked P n o x S F) (hw : w.Plain c x) (hx : ¬ x.Barred S)
      (hp : Behaves I (P.setting x S) (P.fair S x) p o) :
      Fits P n o (.run p) (.inside c x.target :: F)
  | runShared {name e entry p S F} (h : Asked P n o (.service name) S F)
      (hx : ¬ (Item.service name).Barred S) (he : w.Shares c name e entry)
      (hp : Behaves I (P.setting (.service name) S) (P.built S name) p o) :
      Fits P n o (.run p) (.keeps (entry.site c name e) :: .owns (entry.site c name e) ::
        .inside c (.service name) :: F)
  | notify {r x S F} (h : Asked P n o x S F) (hr : P.fair S x r o) :
      Fits P n o (.notify r) (.inside c x.target :: F)
  | finish {r x S F} (h : Asked P n o x S F) (hr : P.fair S x r o) : Fits P n o (.finish r) F
  | finishInside {r x S F} (h : Asked P n o x S F) (hr : P.fair S x r o) :
      Fits P n o (.finish r) (.inside c x.target :: F)
  | finishOwner {name e entry r S F} (h : Asked P n o (.service name) S F)
      (he : w.Shares c name e entry) (hr : P.fair S (.service name) r o) :
      Fits P n o (.finish r) (.owns (entry.site c name e) :: .inside c (.service name) :: F)
  | finishBuild {name e entry r S F} (h : Asked P n o (.service name) S F)
      (he : w.Shares c name e entry) (hr : P.built S name r o) :
      Fits P n o (.finish r) (.keeps (entry.site c name e) :: .owns (entry.site c name e) ::
        .inside c (.service name) :: F)

variable {P : Contract I w c} {n : String} {o o' : List Value} {x : Item} {S : List Item}
  {F : List (Frame C)} {K : Control C}

namespace Asked

theorem grows (h : Asked P n o x S F) (ho : P.grows o o') : Asked P n o' x S F := by
  induction h with
  | step h => exact .step h
  | plain h hp hy hr hb hc ih =>
    exact .plain ih hp hy hr (fun a _ h' => hb a _ (P.trans ho h'))
      fun message _ h' => hc message _ (P.trans ho h')
  | shared h hy he hr hb hc ih =>
    exact .shared ih hy he hr (fun a _ h' => hb a _ (P.trans ho h'))
      fun message _ h' => hc message _ (P.trans ho h')

theorem arises (h : Asked P n o x S F) : P.arises S x := by
  induction h with
  | step h => exact h
  | plain h hp hy hr hb hc ih => exact P.asked ih hy hr
  | shared h hy he hr hb hc ih => exact P.asked ih hy hr

theorem insides_eq (h : Asked P n o x S F) : insides F = under c S := by
  induction h with
  | step => rfl
  | plain h hp hy hr hb hc ih => exact congrArg (_ :: ·) ih
  | shared h hy he hr hb hc ih => exact congrArg (_ :: ·) ih

theorem owned_mem (h : Asked P n o x S F) {k : BuildKey}
    (hk : k ∈ F.filterMap Frame.owned?) : .service k.name ∈ S := by
  induction h with
  | step => cases hk
  | plain h hp hy hr hb hc ih => exact List.mem_cons_of_mem _ (ih hk)
  | shared h hy he hr hb hc ih =>
    obtain _ | ⟨_, hk⟩ := hk
    · exact List.mem_cons_self
    · exact List.mem_cons_of_mem _ (ih hk)

end Asked

theorem Fits.grows (h : Fits P n o K F) (ho : P.grows o o') : Fits P n o' K F := by
  cases h with
  | find h => exact .find (h.grows ho)
  | peek h he => exact .peek (h.grows ho) he
  | enterShared h he => exact .enterShared (h.grows ho) he
  | enterPlain h hw hp => exact .enterPlain (h.grows ho) hw fun hx => (hp hx).grows ho
  | attempt h hx he => exact .attempt (h.grows ho) hx he
  | claim h hx he => exact .claim (h.grows ho) hx he
  | asleep h hx he => exact .asleep (h.grows ho) hx he
  | woken h hx he => exact .woken (h.grows ho) hx he
  | recheck h hx he => exact .recheck (h.grows ho) hx he
  | runPlain h hw hx hp => exact .runPlain (h.grows ho) hw hx (hp.grows ho)
  | runShared h hx he hp => exact .runShared (h.grows ho) hx he (hp.grows ho)
  | notify h hr => exact .notify (h.grows ho) (P.stays _ _ _ _ ho hr)
  | finish h hr => exact .finish (h.grows ho) (P.stays _ _ _ _ ho hr)
  | finishInside h hr => exact .finishInside (h.grows ho) (P.stays _ _ _ _ ho hr)
  | finishOwner h he hr => exact .finishOwner (h.grows ho) he (P.stays _ _ _ _ ho hr)
  | finishBuild h he hr => exact .finishBuild (h.grows ho) he (P.endures ho hr)

theorem World.Agrees.perform_eq {m : Machine C} {t : ThreadId} {th : Thread C} {a : Action C}
    {r : a.Reply} (hw : w.Agrees m.world) (ha : w.reads th.stack a = some r) :
    m.perform I t th a = some (r, m) ∧ a.brings I = [] := by
  cases a with
  | candidates d type => cases ha; exact ⟨by rw [Machine.perform, hw.candidates], rfl⟩
  | lookup d name => cases ha; exact ⟨by rw [Machine.perform, hw.lookup], rfl⟩
  | _ => cases ha

theorem Program.ended_inj {α : Type} {r r' : Except Failure α}
    (h : (Program.ended r : Program C α) = .ended r') : r = r' := by
  obtain ((e | s) | a) := r <;> obtain ((e' | s') | a') := r' <;> cases h <;> rfl

namespace Behaves

variable {α : Type} {E : Setting C} {Q : Except Failure α → List Value → Prop} {m m₁ : Machine C}
  {t : ThreadId} {th : Thread C} {a : Action C} {rest : a.Reply → Program C α}

theorem of_ended {r : Except Failure α} (h : Behaves I E Q (.ended r) o) : Q r o := by
  obtain ((e | s) | a) := r
  · cases h with | fail h => exact h _ (E.refl _)
  · cases h with | crash h => exact h _ (E.refl _)
  · cases h with | done h => exact h _ (E.refl _)

theorem perform_eq (hE : E.reads = w.reads th.stack) (hw : w.Agrees m.world)
    (h : Behaves I E Q (.act a rest) m.world.objects) :
    ∃ r m₁, m.perform I t th a = some (r, m₁) ∧ Behaves I E Q (rest r) m₁.world.objects ∧
      E.grows m.world.objects m₁.world.objects ∧ m₁.world.containers = m.world.containers ∧
      m₁.world.entries = m.world.entries ∧ a.brings I = [] := by
  cases h with
  | read ha h =>
    obtain ⟨hp, hn⟩ := hw.perform_eq (I := I) (t := t) (hE ▸ ha)
    exact ⟨_, m, hp, h _ (E.refl _), E.refl _, rfl, rfl, hn⟩
  | allocate hg h => exact ⟨_, _, rfl, h _ (E.refl _), hg _ (E.refl _), rfl, rfl, rfl⟩
  | modify hg h => exact ⟨_, _, rfl, h _ (E.refl _), hg _ (E.refl _), rfl, rfl, rfl⟩
  | update h => exact ⟨_, _, rfl, h _ _ (E.refl _), E.refl _, rfl, rfl, rfl⟩
  | note h => exact ⟨_, _, rfl, h _ (E.refl _), E.refl _, rfl, rfl, rfl⟩
  | emit h => exact ⟨_, _, rfl, h _ (E.refl _), E.refl _, rfl, rfl, rfl⟩

end Behaves

structure Contract.Leaves (P : Contract I w c) (w₁ w₂ : World C) : Prop where
  grows : P.grows w₁.objects w₂.objects
  containers : w₂.containers = w₁.containers
  registrations : w₂.entries.map (·.registration) = w₁.entries.map (·.registration)

theorem Contract.Leaves.of_eq {w₁ w₂ : World C} (ho : w₂.objects = w₁.objects)
    (hc : w₂.containers = w₁.containers) (he : w₂.entries = w₁.entries) : P.Leaves w₁ w₂ :=
  ⟨ho ▸ P.refl _, hc, by rw [he]⟩

theorem Asked.goal_fits {y : Item} (h : Asked P n o y S F) (ho : P.grows w.objects o) :
    Fits P n o (y.goal c).control F := by
  cases y with
  | service name => exact .find h
  | «class» type =>
    exact .enterPlain h (by rintro _ _ _ ⟨⟩) fun hx => P.construction h.arises hx ho

theorem Asked.reads_eq (h : Asked P n o x S F) {T : Stack} (hT : T = (c, x.target) :: insides F) :
    (P.setting x S).reads = w.reads T := by
  rw [hT, h.insides_eq]
  rfl

theorem Fits.act {m : Machine C} {t : ThreadId} {th : Thread C} {a : Action C}
    {rest : a.Reply → Program C Instance}
    (hf : Fits P n m.world.objects (.run (.act a rest)) F) (hst : th.stack = insides F)
    (hw : w.Agrees m.world) :
    ∃ r m₁, m.perform I t th a = some (r, m₁) ∧ Fits P n m₁.world.objects (.run (rest r)) F ∧
      P.Leaves m.world m₁.world ∧ a.brings I = [] := by
  cases hf with
  | runPlain hF hp hx hb =>
    obtain ⟨r, m₁, ha, hb, hg, hc, he, hn⟩ := hb.perform_eq (t := t) (hF.reads_eq hst) hw
    exact ⟨r, m₁, ha, .runPlain (hF.grows hg) hp hx hb, ⟨hg, hc, by rw [he]⟩, hn⟩
  | runShared hF hx he hb =>
    obtain ⟨r, m₁, ha, hb, hg, hc, he', hn⟩ := hb.perform_eq (t := t) (hF.reads_eq hst) hw
    exact ⟨r, m₁, ha, .runShared (hF.grows hg) hx he hb, ⟨hg, hc, by rw [he']⟩, hn⟩

/-- Only what may be kept has been cached. -/
def Contract.Caches (P : Contract I w c) (w' : World C) : Prop :=
  ∀ name e entry, w.Shares c name e entry → (w'.cached e).isSome → P.kept name

/-- The alarms that may be raised at this moment are fair. -/
structure Contract.Warns (P : Contract I w c) (m : Machine C) : Prop where
  again {t : ThreadId} {n : String} {x : Item} {S : List Item} {F : List (Frame C)}
    {inside : Control C} {next : Except Error Instance → Program C C.Report}
    {chain : List String} (ha : m.activity t = .resolving (.enter c x.target inside) F next)
    (hF : Asked P n m.world.objects x S F)
    (hc : (under c S).cycle? c x.target = some chain) :
    P.fair S x (.error (.error (.circularDependency chain))) m.world.objects
  across {t : ThreadId} {n : String} {s : Site C} {S : List Item} {F : List (Frame C)}
    {next : Except Error Instance → Program C C.Report} {chain : List String}
    (ha : m.activity t = .resolving (.claim s) (.inside c (.service s.name) :: F) next)
    (hF : Asked P n m.world.objects (.service s.name) S F)
    (hc : m.world.builds.waitCycle s.key t = some chain) :
    P.fair S (.service s.name) (.error (.error (.circularDependency chain))) m.world.objects

namespace Machine

variable {m m' : Machine C} {t : ThreadId} {th th' : Thread C} {w' : World C}
  {fresh : List (Thread C)} {next : Except Error Instance → Program C C.Report}

theorem Move.fits (hm : Move I m t th w' th' fresh) (hat : m.activity t = th.activity)
    (h : th.activity = .resolving K F next) (hf : Fits P n m.world.objects K F)
    (hst : th.stack = insides F) (hw : P.Holds m.world) (hwarns : P.Warns m)
    (hkept : P.Caches w')
    (hend : F = [] → ∀ r, K ≠ .finish r) :
    ∃ K' F', th'.activity = .resolving K' F' next ∧ Fits P n w'.objects K' F' := by
  cases hm with
  | findMissing h' he =>
    cases h.symm.trans h'
    cases hf with
    | find hF =>
      exact ⟨_, _, rfl, .finish hF (P.missing (hw.agrees.entry?_eq_none he) hF.arises)⟩
  | findShared h' he hs =>
    cases h.symm.trans h'
    cases hf with
    | find hF =>
      obtain ⟨x, hx, hr⟩ := hw.agrees.entry? he
      rw [← hr] at hs ⊢
      exact ⟨_, _, rfl, .peek hF ⟨hx, (Bool.and_eq_true_iff.1 hs).1⟩⟩
  | findOther h' he hs =>
    cases h.symm.trans h'
    cases hf with
    | find hF =>
      obtain ⟨x, hx, hr⟩ := hw.agrees.entry? he
      rw [← hr] at hs ⊢
      have hplain :=
        World.Plain.of_entry hx ((Bool.and_eq_false_iff.1 hs).resolve_right (by rintro ⟨⟩))
      exact ⟨_, _, rfl, .enterPlain hF hplain fun hn =>
        (P.build hx hF.arises hn hw.grown).imp fun r o _ hr => P.plain hplain hr⟩
  | peekHit h' hi =>
    cases h.symm.trans h'
    cases hf with
    | peek hF he => exact ⟨_, _, rfl, .finish hF (P.hit hF.arises (hw.cached he.entry? hi))⟩
  | peekMiss h' hi =>
    cases h.symm.trans h'
    cases hf with | peek hF he => exact ⟨_, _, rfl, .enterShared hF he⟩
  | enterAgain h' hc =>
    cases h.symm.trans h'
    refine ⟨_, _, rfl, ?_⟩
    cases hf with
    | enterShared hF he =>
      rw [hst, hF.insides_eq] at hc
      exact .finish hF (hwarns.again (x := .service _) (hat.trans h) hF hc)
    | enterPlain hF hp hb =>
      rw [hst, hF.insides_eq] at hc
      exact .finish hF (hwarns.again (hat.trans h) hF hc)
  | enterNew h' hc =>
    cases h.symm.trans h'
    refine ⟨_, _, rfl, ?_⟩
    rw [hst] at hc
    cases hf with
    | @enterShared name e entry S F hF he =>
      rw [hF.insides_eq] at hc
      exact .attempt hF ((cycle?_under_eq_none (x := .service name)).1 hc) he
    | enterPlain hF hp hb =>
      rw [hF.insides_eq, cycle?_under_eq_none] at hc
      exact .runPlain hF hp hc (hb hc)
  | attemptHit h' hi =>
    cases h.symm.trans h'
    cases hf with
    | attempt hF hx he =>
      exact ⟨_, _, rfl, .finishInside hF (P.hit hF.arises (hw.cached he.entry? hi))⟩
  | attemptMiss h' hi =>
    cases h.symm.trans h'
    cases hf with | attempt hF hx he => exact ⟨_, _, rfl, .claim hF hx he⟩
  | claimFree h' ho =>
    cases h.symm.trans h'
    cases hf with | claim hF hx he => exact ⟨_, _, rfl, .recheck hF hx he⟩
  | claimCycle h' ho hc =>
    cases h.symm.trans h'
    cases hf with
    | claim hF hx he =>
      exact ⟨_, _, rfl, .finishInside hF (hwarns.across (hat.trans h) hF hc)⟩
  | claimWait h' ho hc =>
    cases h.symm.trans h'
    cases hf with | claim hF hx he => exact ⟨_, _, rfl, .asleep hF hx he⟩
  | wokenAgain h' ho =>
    cases h.symm.trans h'
    cases hf with | woken hF hx he => exact ⟨_, _, rfl, .asleep hF hx he⟩
  | wokenFree h' ho =>
    cases h.symm.trans h'
    cases hf with | woken hF hx he => exact ⟨_, _, rfl, .attempt hF hx he⟩
  | recheckHit h' hi =>
    cases h.symm.trans h'
    cases hf with
    | recheck hF hx he =>
      exact ⟨_, _, rfl, .finishOwner hF he (P.hit hF.arises (hw.cached he.entry? hi))⟩
  | recheckMiss h' hi =>
    cases h.symm.trans h'
    cases hf with
    | recheck hF hx he =>
      exact ⟨_, _, rfl, .runShared hF hx he (P.build he.entry? hF.arises hx hw.grown)⟩
  | runEnded h' =>
    cases h.symm.trans h'
    cases hf with
    | runPlain hF hp hx hb => exact ⟨_, _, rfl, .finishInside hF hb.of_ended⟩
    | runShared hF hx he hb => exact ⟨_, _, rfl, .finishBuild hF he hb.of_ended⟩
  | runAct h' ha =>
    cases h.symm.trans h'
    obtain ⟨r, m₁, ha', hf, -⟩ := hf.act (t := t) hst hw.agrees
    cases ha.symm.trans ha'
    exact ⟨_, _, rfl, hf⟩
  | runCall h' =>
    cases h.symm.trans h'
    cases hf with
    | runPlain hF hp hx hb =>
      cases hb with | call hb => exact ⟨_, _, rfl, .runPlain hF hp hx (hb _ (P.refl _))⟩
    | runShared hF hx he hb =>
      cases hb with | call hb => exact ⟨_, _, rfl, .runShared hF hx he (hb _ (P.refl _))⟩
  | runResolve h' =>
    cases h.symm.trans h'
    refine ⟨_, _, rfl, ?_⟩
    cases hf with
    | runPlain hF hp hx hb =>
      cases hb with
      | resolve hg hb hc =>
        obtain ⟨y, hy, rfl⟩ := hg
        exact (Asked.plain hF hp hx hy (fun a o ho ha => hb a o ho ⟨y, rfl, ha⟩)
          fun message o ho ha => hc message o ho ⟨y, rfl, ha⟩).goal_fits hw.grown
    | runShared hF hx he hb =>
      cases hb with
      | resolve hg hb hc =>
        obtain ⟨y, hy, rfl⟩ := hg
        exact (Asked.shared hF hx he hy (fun a o ho ha => hb a o ho ⟨y, rfl, ha⟩)
          fun message o ho ha => hc message o ho ⟨y, rfl, ha⟩).goal_fits hw.grown
  | keepFirst h' hi =>
    cases h.symm.trans h'
    cases hf with
    | finish hF hr => cases hF
    | finishBuild hF he hr =>
      have hcached := hkept _ _ _ he (hw.agrees.cached_setCache he.entry?)
      exact ⟨_, _, rfl, .finishOwner hF he (P.hit hF.arises (P.keep he hcached hr))⟩
  | keepOther h' hi =>
    cases h.symm.trans h'
    cases hf with
    | finish hF hr => cases hF
    | finishBuild hF he hr =>
      exact ⟨_, _, rfl, .finishOwner hF he (P.hit hF.arises (hw.cached he.entry? hi))⟩
  | keepNothing h' =>
    cases h.symm.trans h'
    cases hf with
    | finish hF hr => cases hF
    | finishBuild hF he hr => exact ⟨_, _, rfl, .finishOwner hF he (P.fails hr)⟩
  | release h' =>
    cases h.symm.trans h'
    cases hf with
    | finish hF hr => cases hF
    | finishOwner hF he hr => exact ⟨_, _, rfl, .notify hF hr⟩
  | leave h' =>
    cases h.symm.trans h'
    cases hf with
    | finish hF hr => cases hF
    | finishInside hF hr => exact ⟨_, _, rfl, .finish hF hr⟩
  | answer h' =>
    cases h.symm.trans h'
    cases hf with
    | finish hF hr =>
      cases hF with
      | plain hF hp hy hreq hb => exact ⟨_, _, rfl, .runPlain hF hp hy (hb _ _ (P.refl _) hr)⟩
      | shared hF hy he hreq hb => exact ⟨_, _, rfl, .runShared hF hy he (hb _ _ (P.refl _) hr)⟩
  | passBy h' =>
    cases h.symm.trans h'
    cases hf with
    | finish hF hr =>
      cases hF with
      | plain hF hp hy hreq hb hc =>
        exact ⟨_, _, rfl, .finishInside hF (hc _ _ (P.refl _) hr)⟩
      | shared hF hy he hreq hb hc =>
        exact ⟨_, _, rfl, .finishBuild hF he (hc _ _ (P.refl _) hr)⟩
  | ownAnswer h' => cases h.symm.trans h'; exact absurd rfl (hend rfl _)
  | ownCrash h' => cases h.symm.trans h'; exact absurd rfl (hend rfl _)
  | _ => cases h.symm.trans ‹th.activity = _›

theorem Move.leaves (hm : Move I m t th w' th' fresh) (h : th.activity = .resolving K F next)
    (hf : Fits P n m.world.objects K F) (hst : th.stack = insides F) (hw : P.Holds m.world) :
    P.Leaves m.world w' ∧ fresh = [] := by
  cases hm with
  | runAct h' ha =>
    cases h.symm.trans h'
    obtain ⟨r, m₁, ha', -, hl, hn⟩ := hf.act (t := t) hst hw.agrees
    cases ha.symm.trans ha'
    exact ⟨hl, hn⟩
  | keepFirst h' hi =>
    exact ⟨⟨P.refl _, rfl, (World.Agrees.setCache _ _ _).registrations⟩, rfl⟩
  | ownAct h' ha => cases h.symm.trans h'
  | _ => exact ⟨.of_eq rfl rfl rfl, rfl⟩

end Machine

end Wiring
