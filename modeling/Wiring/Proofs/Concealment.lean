import Wiring.Proofs.References
import Wiring.Proofs.Run

/-!
What a machine has of an object: nothing, or nothing but registrations that hand out copies of it
and the one thread that is about to hand it on. As long as the code is not told of the object,
steps keep it so and leave the object as it is.
-/
namespace Wiring

variable {C : Client}

section

variable (R : Reach C) (p : ObjectId)

structure Entry.Conceals (stored : Bool) (x : Entry C) : Prop where
  registration : x.registration.Conceals R p stored
  cache {i} (h : x.cache = some i) : i.object ≠ p

structure World.Conceals (stored : Bool) (w : World C) : Prop where
  entries {x} (h : x ∈ w.entries) : x.Conceals R p stored
  objects {v} (h : v ∈ w.objects) : v.Lacks p
  state : ¬ R.state w.state p

def Control.Conceals (stored : Bool) : Control C → Prop
  | find _ _ o => o.All (·.object ≠ p)
  | peek s => s.registration.Conceals R p stored
  | enter _ _ inside => inside.Conceals stored
  | attempt s => s.registration.Conceals R p stored
  | claim s => s.registration.Conceals R p stored
  | asleep s _ => s.registration.Conceals R p stored
  | woken s _ => s.registration.Conceals R p stored
  | recheck s => s.registration.Conceals R p stored
  | run q => q.Lacks R p stored (·.object ≠ p)
  | notify r => Lacking p r
  | finish r => Lacking p r

def Frame.Conceals (stored : Bool) : Frame C → Prop
  | caller next => ∀ r, Lacking p r → (next r).Lacks R p stored (·.object ≠ p)
  | inside .. => True
  | keeps s => s.registration.Conceals R p stored
  | owns s => s.registration.Conceals R p stored

def Activity.Conceals (stored holding : Bool) : Activity C → Prop
  | idle => True
  | running q => holding = false → q.Lacks R p stored (¬ R.report · p)
  | resolving K F next => (holding = false → K.Conceals R p stored) ∧
      (∀ f ∈ F, f.Conceals R p stored) ∧
      ∀ r, Lacking p r → (next r).Lacks R p stored (¬ R.report · p)

structure StepRecord.Conceals (x : StepRecord C) : Prop where
  outcome {r} (h : x.outcome = .ok r) : ¬ R.report r p
  notes {r} (h : r ∈ x.notes) : ¬ R.report r p

structure Thread.Conceals (stored holding : Bool) (th : Thread C) : Prop where
  activity : th.activity.Conceals R p stored holding
  todo {q} (h : q ∈ th.todo) : q.Lacks R p stored (¬ R.report · p)
  notes {r} (h : r ∈ th.notes) : ¬ R.report r p
  records {x} (h : x ∈ th.records) : x.Conceals R p

structure Machine.Conceals (stored : Bool) (holder : Option ThreadId) (m : Machine C) : Prop where
  world : m.world.Conceals R p stored
  threads {u : ThreadId} {th : Thread C} (h : m.threads[u]? = some th) :
    th.Conceals R p stored (holder = some u)

structure Machine.Guards (v : Value) (stored : Bool) (holder : Option ThreadId) (m : Machine C) :
    Prop extends m.Conceals R p stored holder where
  holds : m.world.objects[p]? = some v

end

variable {R : Reach C} {p : ObjectId} {stored holding : Bool}

theorem Program.Obeys.of_ended {α : Type} {D : Discipline C} {Q : α → Prop} {s : D.State}
    {r : Except Failure α} {a : α} (h : (Program.ended r : Program C α).Obeys D Q s)
    (ha : r = .ok a) : Q a := by
  subst ha
  exact h.of_done.2

theorem Lacking.of_mapError {a : Except Error Instance}
    (h : Lacking p (Except.mapError Failure.error a)) : Lacking p a := by
  rintro i rfl
  exact h i rfl

theorem Goal.Meets.control {g : Goal} (h : g.Meets (.lacking R p stored)) :
    (g.control : Control C).Conceals R p stored := by
  cases g with
  | service c name o => exact h
  | «class» c type o => exact construct_obeys (Discipline.lacking_constructs type) h.1 h.2.2

namespace World.Conceals

variable {w w' : World C}

theorem of_eq (h : w.Conceals R p stored) (he : w'.entries = w.entries)
    (ho : w'.objects = w.objects) (hs : w'.state = w.state) : w'.Conceals R p stored where
  entries hx := h.entries (he ▸ hx)
  objects hv := h.objects (ho ▸ hv)
  state := hs ▸ h.state

theorem registered (h : w.Conceals R p stored) {c : ContainerId} {name : String} {e : EntryId}
    {x : Entry C} (he : w.entry? c name = some (e, x)) : x.registration.Conceals R p stored :=
  (h.entries (List.mem_of_getElem? (World.entry?_eq_some.1 he).2)).registration

theorem cached (h : w.Conceals R p stored) {e : EntryId} {i : Instance}
    (hi : w.cached e = some i) : i.object ≠ p := by
  obtain ⟨x, hx, hi⟩ := Option.bind_eq_some_iff.1 hi
  exact (h.entries (List.mem_of_getElem? hx)).cache hi

theorem value (h : w.Conceals R p stored) (q : ObjectId) : (w.value q).Lacks p := by
  rw [World.value, List.getD_eq_getElem?_getD]
  cases hq : w.objects[q]? with
  | none => trivial
  | some v => exact h.objects (List.mem_of_getElem? hq)

theorem insert {r : Registration C} (h : w.Conceals R p stored) (hr : r.Conceals R p stored)
    (c : ContainerId) (name : String) : (w.insert c name r).Conceals R p stored where
  entries {x} hx := by
    obtain hx | rfl := (List.mem_append.1 hx).imp_right List.mem_singleton.1
    · exact h.entries hx
    · exact ⟨hr, nofun⟩
  objects := h.objects
  state := h.state

theorem setCache {i : Instance} (h : w.Conceals R p stored) (hi : i.object ≠ p) (e : EntryId) :
    (w.setCache e i).Conceals R p stored where
  entries {x} hx := by
    obtain ⟨f, hf⟩ := List.mem_iff_getElem?.1 hx
    rw [World.setCache, List.getElem?_modify] at hf
    obtain ⟨y, hy, rfl⟩ := Option.map_eq_some_iff.1 hf
    have hold := h.entries (List.mem_of_getElem? hy)
    split
    · refine ⟨hold.registration, ?_⟩
      rintro j ⟨⟩
      exact hi
    · exact hold
  objects := h.objects
  state := h.state

theorem allocate {v : Value} (h : w.Conceals R p stored) (hv : v.Lacks p) (type : TypeKey) :
    (w.allocate type v).2.Conceals R p stored where
  entries := h.entries
  objects {u} hu := by
    obtain hu | rfl := (List.mem_append.1 hu).imp_right List.mem_singleton.1
    · exact h.objects hu
    · exact hv
  state := h.state

theorem modify {f : Value → Value} (h : w.Conceals R p stored)
    (hf : ∀ v : Value, v.Lacks p → (f v).Lacks p) (q : ObjectId) :
    World.Conceals R p stored { w with objects := w.objects.modify q f } where
  entries := h.entries
  objects {u} hu := by
    obtain ⟨k, hk⟩ := List.mem_iff_getElem?.1 hu
    rw [List.getElem?_modify] at hk
    obtain ⟨v, hv, rfl⟩ := Option.map_eq_some_iff.1 hk
    have hold := h.objects (List.mem_of_getElem? hv)
    split
    · exact hf v hold
    · exact hold
  state := h.state

end World.Conceals

theorem Activity.Conceals.loosen {A : Activity C} (h : A.Conceals R p stored false) :
    A.Conceals R p stored holding := by
  cases A with
  | idle => trivial
  | running q => exact fun _ => h rfl
  | resolving K F next => exact ⟨fun _ => h.1 rfl, h.2⟩

theorem Thread.Conceals.loosen {th : Thread C} (h : th.Conceals R p stored false) :
    th.Conceals R p stored holding := ⟨h.activity.loosen, h.todo, h.notes, h.records⟩

theorem World.Conceals.relax {w : World C} (h : w.Conceals R p false) :
    w.Conceals R p stored where
  entries hx := ⟨(h.entries hx).registration.relax, (h.entries hx).cache⟩
  objects := h.objects
  state := h.state

theorem Control.Conceals.relax {K : Control C} (h : K.Conceals R p false) :
    K.Conceals R p stored := by
  induction K with
  | find | notify | finish => exact h
  | enter c x inside ih => exact ih h
  | run q => exact Program.Lacks.relax h
  | _ => exact Registration.Conceals.relax h

theorem Frame.Conceals.relax {f : Frame C} (h : f.Conceals R p false) : f.Conceals R p stored := by
  cases f with
  | caller next => exact fun r hr => (h r hr).relax
  | inside c x => trivial
  | _ => exact Registration.Conceals.relax h

theorem Activity.Conceals.relax {A : Activity C} (h : A.Conceals R p false holding) :
    A.Conceals R p stored holding := by
  cases A with
  | idle => trivial
  | running q => exact fun hh => (h hh).relax
  | resolving K F next =>
    exact ⟨fun hh => (h.1 hh).relax, fun f hf => (h.2.1 f hf).relax, fun r hr => (h.2.2 r hr).relax⟩

theorem Machine.Conceals.relax {m : Machine C} {holder : Option ThreadId}
    (h : m.Conceals R p false holder) : m.Conceals R p stored holder where
  world := h.world.relax
  threads ht := ⟨(h.threads ht).activity.relax, fun hq => ((h.threads ht).todo hq).relax,
    (h.threads ht).notes, (h.threads ht).records⟩

theorem Thread.Conceals.wake {th : Thread C} (h : th.Conceals R p stored holding) :
    th.wake.Conceals R p stored holding := by
  obtain he | ⟨s, owner, F, next, ha, he⟩ := th.wake_cases
  · rw [he]
    exact h
  · have hA := h.activity
    rw [ha] at hA
    rw [he]
    exact ⟨hA, h.todo, h.notes, h.records⟩

inductive Action.Alters : Action C → World C → World C → Prop
  | insert (c : ContainerId) (name : String) (r : Registration C) (w : World C) :
      Alters (.insert c name r) w (w.insert c name r)
  | allocate (type : TypeKey) (v : Value) (w : World C) :
      Alters (.allocate type v) w (w.allocate type v).2
  | modify (q : ObjectId) (f : Value → Value) (w : World C) :
      Alters (.modify q f) w { w with objects := w.objects.modify q f }
  | update (f : C.State → C.State) (w : World C) :
      Alters (.update f) w { w with state := f w.state }
  | nothing {a : Action C} {w w' : World C} (entries : w'.entries = w.entries)
      (objects : w'.objects = w.objects) (state : w'.state = w.state) : Alters a w w'

namespace Machine

variable {I : Implementation C} {m m' : Machine C} {t u : ThreadId} {th th' : Thread C}
  {w : World C} {fresh : List (Thread C)} {a : Action C} {r : a.Reply} {holder : Option ThreadId}

theorem perform_alters (h : m.perform I t th a = some (r, m')) : a.Alters m.world m'.world := by
  cases a with
  | insert c name reg => cases h; exact .insert c name reg _
  | allocate type v => cases h; exact .allocate type v _
  | modify q f => cases h; exact .modify q f _
  | update f => cases h; exact .update f _
  | settleDefault => simp only [perform] at h; split at h <;> cases h <;> exact .nothing rfl rfl rfl
  | await ready => simp only [perform] at h; split at h <;> cases h; exact .nothing rfl rfl rfl
  | awaitWaiters service count =>
    simp only [perform] at h
    split at h <;> cases h
    exact .nothing rfl rfl rfl
  | join threads => simp only [perform] at h; split at h <;> cases h; exact .nothing rfl rfl rfl
  | _ => cases h; exact .nothing rfl rfl rfl

theorem perform_conceals (hw : m.world.Conceals R p stored) (ha : a.Conceals R p stored)
    (h : m.perform I t th a = some (r, m')) : m'.world.Conceals R p stored := by
  have halters := perform_alters h
  generalize m'.world = w' at halters ⊢
  cases halters with
  | insert c name reg => exact hw.insert ha c name
  | allocate type v => exact hw.allocate ha type
  | modify q f => exact hw.modify ha.2 q
  | update f => exact ⟨hw.entries, hw.objects, ha _ hw.state⟩
  | nothing entries objects state => exact hw.of_eq entries objects state

theorem perform_hides (hw : m.world.Conceals R p stored)
    (hp : p < m.world.objects.length ∨ m'.world.objects.length ≤ p)
    (h : m.perform I t th a = some (r, m')) : a.Hides R p r := by
  cases a with
  | cached e => cases h; exact fun j hj => hw.cached hj
  | allocate type v =>
    cases h
    have hlen : (m.world.allocate type v).2.objects.length = m.world.objects.length + 1 :=
      List.length_append
    obtain hlt | hle := hp
    · exact Nat.ne_of_gt hlt
    · exact Nat.ne_of_lt (Nat.lt_of_succ_le (Nat.le_trans (Nat.le_of_eq hlen.symm) hle))
  | modify q f => cases h; exact hw.value q
  | update f => cases h; exact hw.state
  | _ => trivial

theorem perform_object (ha : a.Conceals R p stored) (hp : p < m.world.objects.length)
    (h : m.perform I t th a = some (r, m')) :
    m'.world.objects[p]? = m.world.objects[p]? := by
  have halters := perform_alters h
  generalize m'.world = w' at halters ⊢
  cases halters with
  | insert c name reg => rfl
  | allocate type v => exact List.getElem?_append_left hp
  | modify q f =>
    refine (List.getElem?_modify f q _ p).trans ?_
    split
    · next hq => rw [ha.1 hq, id_map]
    · exact congrFun Option.map_id _
  | update f => rfl
  | nothing entries objects state => rw [objects]

theorem brings_conceals (hI : I.Lacks R p stored) (ha : a.Conceals R p stored)
    (h : th ∈ a.brings I) : th.Conceals R p stored false := by
  cases a with
  | spawn jobs =>
    obtain ⟨steps, hs, rfl⟩ := List.mem_map.1 h
    refine ⟨trivial, fun {q} hq => ?_, nofun, nofun⟩
    obtain ⟨body, hb, rfl⟩ := List.mem_map.1 hq
    exact hI.job (ha steps hs body hb)
  | _ => cases h

theorem mark_notes (ha : a.Conceals R p stored) (hn : ∀ r ∈ th.notes, ¬ R.report r p) :
    ∀ r ∈ (a.mark th).notes, ¬ R.report r p := by
  cases a with
  | note r =>
    intro s hs
    obtain hs | rfl := (List.mem_append.1 hs).imp_right List.mem_singleton.1
    · exact hn s hs
    · exact ha
  | _ => exact hn

theorem Move.conceals_world (hm : Move I m t th w th' fresh) (hw : m.world.Conceals R p stored)
    (ht : th.Conceals R p stored false) : w.Conceals R p stored := by
  have hA := ht.activity
  cases hm with
  | ownAct h ha =>
    rw [h] at hA
    exact perform_conceals hw (hA rfl).of_act.1 ha
  | runAct h ha =>
    rw [h] at hA
    exact perform_conceals hw (hA.1 rfl).of_act.1 ha
  | keepFirst h hi =>
    rw [h] at hA
    exact hw.setCache (hA.1 rfl _ rfl) _
  | _ => exact hw.of_eq rfl rfl rfl

theorem Move.conceals_fresh (hI : I.Lacks R p stored) (hm : Move I m t th w th' fresh)
    (ht : th.Conceals R p stored false) {new : Thread C} (hnew : new ∈ fresh) :
    new.Conceals R p stored false := by
  have hA := ht.activity
  cases hm with
  | ownAct h ha =>
    rw [h] at hA
    exact brings_conceals hI (hA rfl).of_act.1 hnew
  | runAct h ha =>
    rw [h] at hA
    exact brings_conceals hI (hA.1 rfl).of_act.1 hnew
  | _ => cases hnew

theorem Move.keeps_object (hm : Move I m t th w th' fresh) (ht : th.Conceals R p stored false)
    (hp : p < m.world.objects.length) : w.objects[p]? = m.world.objects[p]? := by
  have hA := ht.activity
  cases hm with
  | ownAct h ha =>
    rw [h] at hA
    exact perform_object (hA rfl).of_act.1 hp ha
  | runAct h ha =>
    rw [h] at hA
    exact perform_object (hA.1 rfl).of_act.1 hp ha
  | _ => rfl

theorem Move.conceals_running {q : Program C C.Report} (hI : I.Lacks R p stored)
    (hm : Move I m t th w th' fresh) (hw : m.world.Conceals R p stored)
    (ht : th.Conceals R p stored false) (ha : th.activity = .running q)
    (hp : p < m.world.objects.length ∨ w.objects.length ≤ p) : th'.Conceals R p stored false := by
  have hq := ht.activity
  rw [ha] at hq
  have hq := hq rfl
  cases hm with
  | @ownEnded r h =>
    cases ha.symm.trans h
    refine ⟨trivial, ht.todo, nofun, fun {x} hx => ?_⟩
    obtain hx | rfl := (List.mem_append.1 hx).imp_right List.mem_singleton.1
    · exact ht.records hx
    · exact ⟨hq.of_ended, ht.notes⟩
  | ownAct h hact =>
    cases ha.symm.trans h
    obtain ⟨hallowed, hnext⟩ := hq.of_act
    have hnotes := mark_notes hallowed fun _ => ht.notes
    refine ⟨fun _ => hnext _ (perform_hides hw hp hact), fun {x} hx => ht.todo ?_,
      fun {x} hx => hnotes x hx, fun {x} hx => ht.records ?_⟩
    · rwa [← Action.mark_todo th]
    · rwa [← Action.mark_records th]
  | ownCall h =>
    cases ha.symm.trans h
    obtain ⟨-, hmeets, hnext⟩ := hq.of_call rfl
    exact ⟨fun _ => (hI.answer hmeets).attempt.bind hnext, ht.todo, ht.notes, ht.records⟩
  | ownResolve h =>
    cases ha.symm.trans h
    obtain ⟨-, hmeets, hnext⟩ := hq.of_resolve
    exact ⟨⟨fun _ => hmeets.control, nofun, hnext⟩, ht.todo, ht.notes, ht.records⟩
  | _ => cases ha.symm.trans ‹th.activity = _›

theorem Move.conceals_resolving {K : Control C} {F : List (Frame C)}
    {next : Except Error Instance → Program C C.Report} (hI : I.Lacks R p stored)
    (hm : Move I m t th w th' fresh) (hw : m.world.Conceals R p stored)
    (ht : th.Conceals R p stored false) (ha : th.activity = .resolving K F next)
    (hp : p < m.world.objects.length ∨ w.objects.length ≤ p) : th'.Conceals R p stored false := by
  have hA := ht.activity
  rw [ha] at hA
  obtain ⟨hK, hF, hn⟩ := hA
  have hK := hK rfl
  -- Most steps change nothing of the thread but its control and its frames.
  have goes {th' : Thread C} {K' : Control C} {F' : List (Frame C)} (htodo : th'.todo = th.todo)
      (hnotes : th'.notes = th.notes) (hrecords : th'.records = th.records)
      (hK' : K'.Conceals R p stored) (hF' : ∀ f ∈ F', f.Conceals R p stored) :
      (th'.goes K' F' next).Conceals R p stored false :=
    ⟨⟨fun _ => hK', hF', hn⟩, fun hx => ht.todo (htodo ▸ hx), fun hx => ht.notes (hnotes ▸ hx),
      fun hx => ht.records (hrecords ▸ hx)⟩
  have still {th' : Thread C} {K' : Control C} (htodo : th'.todo = th.todo)
      (hnotes : th'.notes = th.notes) (hrecords : th'.records = th.records)
      (hK' : K'.Conceals R p stored) : (th'.goes K' F next).Conceals R p stored false :=
    goes htodo hnotes hrecords hK' hF
  have push {f : Frame C} (hf : f.Conceals R p stored) : ∀ g ∈ f :: F, g.Conceals R p stored :=
    List.forall_mem_cons.2 ⟨hf, hF⟩
  cases hm with
  | findMissing h he => cases ha.symm.trans h; exact still rfl rfl rfl nofun
  | findShared h he hs => cases ha.symm.trans h; exact still rfl rfl rfl (hw.registered he)
  | findOther h he hs =>
    cases ha.symm.trans h
    exact still rfl rfl rfl
      (build_obeys trivial (fun _ => rfl) ((hw.registered he).obeys _) trivial hK)
  | peekHit h hi =>
    cases ha.symm.trans h
    refine still rfl rfl rfl ?_
    rintro i ⟨⟩
    exact hw.cached hi
  | peekMiss h hi => cases ha.symm.trans h; exact still rfl rfl rfl hK
  | enterAgain h hc => cases ha.symm.trans h; exact still rfl rfl rfl nofun
  | enterNew h hc => cases ha.symm.trans h; exact goes rfl rfl rfl hK (push trivial)
  | attemptHit h hi =>
    cases ha.symm.trans h
    refine still rfl rfl rfl ?_
    rintro i ⟨⟩
    exact hw.cached hi
  | attemptMiss h hi => cases ha.symm.trans h; exact still rfl rfl rfl hK
  | claimFree h ho => cases ha.symm.trans h; exact goes rfl rfl rfl hK (push hK)
  | claimCycle h ho hc => cases ha.symm.trans h; exact still rfl rfl rfl nofun
  | claimWait h ho hc => cases ha.symm.trans h; exact still rfl rfl rfl hK
  | wokenAgain h ho => cases ha.symm.trans h; exact still rfl rfl rfl hK
  | wokenFree h ho => cases ha.symm.trans h; exact still rfl rfl rfl hK
  | recheckHit h hi =>
    cases ha.symm.trans h
    refine still rfl rfl rfl ?_
    rintro i ⟨⟩
    exact hw.cached hi
  | recheckMiss h hi =>
    cases ha.symm.trans h
    exact goes rfl rfl rfl
      (build_obeys trivial (fun _ => rfl) (hK.obeys _) trivial (Overrides.all_empty _)) (push hK)
  | runEnded h =>
    cases ha.symm.trans h
    exact still rfl rfl rfl fun i hi => hK.of_ended hi
  | runAct h hact =>
    cases ha.symm.trans h
    obtain ⟨hallowed, hnext⟩ := Program.Obeys.of_act hK
    have hnotes := mark_notes hallowed fun _ => ht.notes
    refine ⟨⟨fun _ => hnext _ (perform_hides hw hp hact), hF, hn⟩, fun {x} hx => ht.todo ?_,
      fun {x} hx => hnotes x hx, fun {x} hx => ht.records ?_⟩
    · rwa [← Action.mark_todo th]
    · rwa [← Action.mark_records th]
  | runCall h =>
    cases ha.symm.trans h
    obtain ⟨-, hmeets, hnext⟩ := Program.Obeys.of_call hK rfl
    exact still rfl rfl rfl ((hI.answer hmeets).attempt.bind hnext)
  | runResolve h =>
    cases ha.symm.trans h
    obtain ⟨-, hmeets, hnext⟩ := Program.Obeys.of_resolve hK
    exact goes rfl rfl rfl hmeets.control (push hnext)
  | keepFirst h hi =>
    cases ha.symm.trans h
    exact goes rfl rfl rfl hK (List.forall_mem_cons.1 hF).2
  | keepOther h hi =>
    cases ha.symm.trans h
    refine goes rfl rfl rfl ?_ (List.forall_mem_cons.1 hF).2
    rintro i ⟨⟩
    exact hw.cached hi
  | keepNothing h =>
    cases ha.symm.trans h
    exact goes rfl rfl rfl nofun (List.forall_mem_cons.1 hF).2
  | release h =>
    cases ha.symm.trans h
    exact goes rfl rfl rfl hK (List.forall_mem_cons.1 hF).2
  | leave h =>
    cases ha.symm.trans h
    exact goes rfl rfl rfl hK (List.forall_mem_cons.1 hF).2
  | answer h =>
    cases ha.symm.trans h
    obtain ⟨hf, hF⟩ := List.forall_mem_cons.1 hF
    exact goes rfl rfl rfl (hf _ (Lacking.of_mapError hK)) hF
  | passBy h =>
    cases ha.symm.trans h
    exact goes rfl rfl rfl nofun (List.forall_mem_cons.1 hF).2
  | ownAnswer h =>
    cases ha.symm.trans h
    exact ⟨fun _ => hn _ (Lacking.of_mapError hK), ht.todo, ht.notes, ht.records⟩
  | ownCrash h =>
    cases ha.symm.trans h
    refine ⟨trivial, ht.todo, nofun, fun {x} hx => ?_⟩
    obtain hx | rfl := (List.mem_append.1 hx).imp_right List.mem_singleton.1
    · exact ht.records hx
    · exact ⟨nofun, ht.notes⟩
  | _ => cases ha.symm.trans ‹th.activity = _›

theorem Move.conceals (hI : I.Lacks R p stored) (hm : Move I m t th w th' fresh)
    (hw : m.world.Conceals R p stored) (ht : th.Conceals R p stored false)
    (hp : p < m.world.objects.length ∨ w.objects.length ≤ p) : th'.Conceals R p stored false := by
  cases ha : th.activity with
  | idle =>
    cases hm with
    | begin h hq =>
      refine ⟨fun _ => ht.todo (hq ▸ List.mem_cons_self), fun {x} hx => ht.todo ?_, ht.notes,
        ht.records⟩
      rw [hq]
      exact List.mem_cons_of_mem _ hx
    | _ => cases ha.symm.trans ‹th.activity = _›
  | running q => exact hm.conceals_running hI hw ht ha hp
  | resolving K F next => exact hm.conceals_resolving hI hw ht ha hp

theorem Conceals.thread (h : m.Conceals R p stored holder) (ht : m.threads[t]? = some th)
    (hn : holder ≠ some t) : th.Conceals R p stored false := by
  have hth := h.threads ht
  rwa [decide_eq_false hn] at hth

theorem Conceals.activity (h : m.Conceals R p stored holder) (t : ThreadId) :
    (m.activity t).Conceals R p stored (holder = some t) := by
  cases ht : m.threads[t]? with
  | none =>
    rw [Machine.activity, ht]
    trivial
  | some th =>
    rw [activity_eq ht]
    exact (h.threads ht).activity

theorem Conceals.frees (h : m.Conceals R p stored (some t))
    (ha : (m.activity t).Conceals R p stored false) : m.Conceals R p stored none where
  world := h.world
  threads {u th} hu := by
    have hth := h.threads hu
    by_cases ht : t = u
    · subst ht
      rw [activity_eq hu] at ha
      exact ⟨ha, hth.todo, hth.notes, hth.records⟩
    · rwa [decide_eq_false fun he => ht (Option.some.inj he)] at hth

theorem Conceals.stepped (hI : I.Lacks R p stored) (h : m.Conceals R p stored holder)
    (hst : Stepped I m t th m') (ht : m.threads[t]? = some th) (hn : holder ≠ some t)
    (hp : p < m.world.objects.length ∨ m'.world.objects.length ≤ p) :
    m'.Conceals R p stored holder := by
  have hth := h.thread ht hn
  have hl : t < m.threads.length := (List.getElem?_eq_some_iff.1 ht).1
  cases hst with
  | @move w th' fresh hm =>
    refine ⟨hm.conceals_world h.world hth, fun {u v} hv => ?_⟩
    rw [List.getElem?_append] at hv
    split at hv
    · by_cases hu : t = u
      · subst hu
        rw [List.getElem?_set_self hl] at hv
        cases hv
        exact (hm.conceals hI h.world hth hp).loosen
      · rw [List.getElem?_set_ne hu] at hv
        exact h.threads hv
    · exact (hm.conceals_fresh hI hth (List.mem_of_getElem? hv)).loosen
  | @notify r F next ha =>
    have hA := hth.activity
    rw [ha] at hA
    refine ⟨h.world, fun {u v} hv => ?_⟩
    by_cases hu : t = u
    · subst hu
      rw [List.getElem?_set_self (by simpa using hl)] at hv
      cases hv
      have hgoes : (th.goes (.finish r) F next).Conceals R p stored false :=
        ⟨hA, hth.todo, hth.notes, hth.records⟩
      exact hgoes.loosen
    · rw [List.getElem?_set_ne hu, List.getElem?_map] at hv
      obtain ⟨old, hold, rfl⟩ := Option.map_eq_some_iff.1 hv
      exact (h.threads hold).wake

theorem Conceals.keeps_object (h : m.Conceals R p stored holder) (hst : Stepped I m t th m')
    (ht : m.threads[t]? = some th) (hn : holder ≠ some t) (hp : p < m.world.objects.length) :
    m'.world.objects[p]? = m.world.objects[p]? := by
  have hth := h.thread ht hn
  cases hst with
  | move hm => exact hm.keeps_object hth hp
  | notify ha => rfl

theorem Conceals.holds (h : m.Conceals R p stored holder) (hn : ∀ u, holder = some u → u = t)
    (ht : m.threads[t]? = some th) (hw : w.Conceals R p stored)
    (hth : th'.Conceals R p stored true) :
    Machine.Conceals R p stored (some t) ⟨w, m.threads.set t th'⟩ := by
  have hl : t < m.threads.length := (List.getElem?_eq_some_iff.1 ht).1
  refine ⟨hw, fun {u v} hv => ?_⟩
  by_cases hu : t = u
  · subst hu
    rw [List.getElem?_set_self hl] at hv
    cases hv
    rwa [decide_eq_true rfl]
  · have hfree : holder ≠ some u := fun he => hu (hn u he).symm
    rw [List.getElem?_set_ne hu] at hv
    exact (h.thread hv hfree).loosen

theorem perform_objects (h : m.perform I t th a = some (r, m')) :
    m.world.objects.length ≤ m'.world.objects.length := by
  have halters := perform_alters h
  generalize m'.world = w' at halters ⊢
  cases halters with
  | insert c name reg => exact Nat.le_refl _
  | allocate type v => exact (List.sublist_append_left _ _).length_le
  | modify q f => exact Nat.le_of_eq (List.length_modify f _ q).symm
  | update f => exact Nat.le_refl _
  | nothing entries objects state => exact Nat.le_of_eq (congrArg List.length objects.symm)

theorem Stepped.objects (h : Stepped I m t th m') :
    m.world.objects.length ≤ m'.world.objects.length := by
  cases h with
  | move hm =>
    cases hm with
    | ownAct _ ha => exact (perform_objects ha :)
    | runAct _ ha => exact (perform_objects ha :)
    | _ => exact Nat.le_refl _
  | notify => exact Nat.le_refl _

end Machine

namespace Run

variable {I : Implementation C} {σ : Run I} {n k : Nat} {holder : Option ThreadId}

theorem objects_le (hk : n ≤ k) :
    (σ.state n).world.objects.length ≤ (σ.state k).world.objects.length := by
  refine σ.lasts (P := fun m => (σ.state n).world.objects.length ≤ m.world.objects.length) ?_
    (Nat.le_refl _) hk
  intro m m' t _ h hs
  obtain ⟨th, -, hst⟩ := Machine.step_cases hs
  exact Nat.le_trans h hst.objects

theorem conceals_next (hI : I.Lacks R p stored) (h : (σ.state n).Conceals R p stored holder)
    (hm : ∀ t, holder = some t → σ.mover n ≠ some t)
    (hp : p < (σ.state n).world.objects.length ∨ (σ.state (n + 1)).world.objects.length ≤ p) :
    (σ.state (n + 1)).Conceals R p stored holder := by
  cases hu : σ.mover n with
  | none => exact σ.idles n hu ▸ h
  | some u =>
    obtain ⟨th, ht, hst⟩ := Machine.step_cases (σ.moves n u hu)
    exact h.stepped hI hst ht (fun hn => hm u hn hu) hp

theorem conceals_unborn (hI : I.Lacks R p stored) (h : (σ.state n).Conceals R p stored none)
    (hp : (σ.state k).world.objects.length ≤ p) (hk : n ≤ k) :
    (σ.state k).Conceals R p stored none := by
  induction hk with
  | refl => exact h
  | @step k hk ih =>
    have hbefore := ih (Nat.le_trans (objects_le (Nat.le_succ k)) hp)
    exact conceals_next hI hbefore nofun (.inr hp)

theorem guards_next {v : Value} (hI : I.Lacks R p stored)
    (h : (σ.state n).Guards R p v stored holder)
    (hm : ∀ t, holder = some t → σ.mover n ≠ some t) :
    (σ.state (n + 1)).Guards R p v stored holder := by
  have hp : p < (σ.state n).world.objects.length := (List.getElem?_eq_some_iff.1 h.holds).1
  refine ⟨conceals_next hI h.toConceals hm (.inl hp), ?_⟩
  cases hu : σ.mover n with
  | none => exact σ.idles n hu ▸ h.holds
  | some u =>
    obtain ⟨th, ht, hst⟩ := Machine.step_cases (σ.moves n u hu)
    exact (h.keeps_object hst ht (fun hn => hm u hn hu) hp).trans h.holds

theorem guards_since {v : Value} (hI : I.Lacks R p stored)
    (h : (σ.state n).Guards R p v stored holder) (hk : n ≤ k)
    (hm : ∀ t, holder = some t → ∀ j, n ≤ j → j < k → σ.mover j ≠ some t) :
    (σ.state k).Guards R p v stored holder := by
  induction hk with
  | refl => exact h
  | @step k hk ih =>
    have hnow := ih fun t ht j hj hjk => hm t ht j hj (Nat.lt_succ_of_lt hjk)
    exact guards_next hI hnow fun t ht => hm t ht k hk (Nat.lt_succ_self k)

end Run

end Wiring
