import Wiring.Proofs.Announcement
import Wiring.Proofs.LogReplay
import Wiring.Proofs.Passage

/-!
A single thread that registers into one container. Between a registration or removal and what is
told of it the log and the registry differ; at all other moments they agree.
-/
namespace Wiring

variable {C : Client} {α : Type}

def Thread.log (th : Thread C) : List Event := th.records.flatMap (·.events) ++ th.events

theorem Thread.log_tell (th : Thread C) (e : Event) : (th.tell e).log = th.log ++ [e] :=
  (List.append_assoc _ _ _).symm

theorem Thread.log_conclude (th : Thread C) (outcome : Except Failure C.Report) :
    (th.conclude outcome).log = th.log := by
  simp [log, conclude]

namespace Action

def told : Action C → List Event
  | .emit e => [e]
  | _ => []

theorem log_mark (a : Action C) (th : Thread C) : (a.mark th).log = th.log ++ a.told := by
  cases a with
  | emit e => exact th.log_tell e
  | _ => exact (List.append_nil _).symm

end Action

theorem Event.Incidental.aside {e : Event} (h : e.Incidental) : e.Aside := by
  cases e with
  | registering | replaced | removed => exact h
  | _ => trivial

theorem Table.erase_eq_self {α β : Type} [DecidableEq α] {t : Table α β} {k : α}
    (h : t.contains k = false) : t.erase k = t := by
  have hstrike : ∀ l : List (α × β), Pairs.find? k l = none → Pairs.strike k l = l := by
    intro l
    induction l with
    | nil => exact fun _ => rfl
    | cons p rest ih => grind [Pairs.strike, Pairs.find?]
  obtain ⟨entries, hd⟩ := t
  simp only [Table.erase, mk.injEq]
  exact hstrike entries (Option.isSome_eq_false_iff.1 h |> Option.isNone_iff_eq_none.1)

structure World.AsTold (w : World C) (c : ContainerId) (R : Register) (log : List Event) :
    Prop where
  lists : w.Lists c (replay R log)
  marked : Marked R log

namespace World.AsTold

variable {w w' : World C} {c : ContainerId} {R : Register} {log : List Event} {e : Event}

theorem aside (h : w.AsTold c R log) (he : e.Aside) : w.AsTold c R (log ++ [e]) where
  lists := by
    rw [replay_append, replay_aside he]
    exact h.lists
  marked := .aside h.marked he

theorem of_eq (h : w.AsTold c R log) (hc : w'.containers = w.containers)
    (he : w'.entries = w.entries) : w'.AsTold c R log where
  lists := by
    apply h.lists.of_services
    · simp only [World.services, hc]
    · intro e x hx
      exact ⟨x, he ▸ hx, rfl⟩
  marked := h.marked

theorem setCache (h : w.AsTold c R log) (e : EntryId) (i : Instance) :
    (w.setCache e i).AsTold c R log where
  lists := by
    apply h.lists.of_services
    · rfl
    · intro a x hx
      have hr := (World.Agrees.setCache w e i).registration a
      rw [hx, Option.map_some, Option.map_eq_some_iff] at hr
      exact hr
  marked := h.marked

end World.AsTold

namespace Machine

variable {I : Implementation C} {m m₁ : Machine C} {t : ThreadId} {th : Thread C} {a : Action C}
  {r : a.Reply} {c : ContainerId} {R : Register} {log : List Event}

theorem perform_services (hp : m.perform I t th a = some (r, m₁)) (ha : a.Incidental) :
    m₁.world.services c = m.world.services c := by
  have hnew : ∀ w : World C, w.containers = m.world.containers ++ [∅] →
      w.services c = m.world.services c := by
    intro w hw
    simp only [World.services, hw, List.getD_eq_getElem?_getD, List.getElem?_append]
    split
    · rfl
    · next hc =>
      rw [List.getElem?_eq_none (Nat.le_of_not_lt hc)]
      cases c - m.world.containers.length <;> rfl
  cases a with
  | insert | erase => exact ha.elim
  | newContainer => cases hp; exact hnew _ rfl
  | settleDefault =>
    simp only [perform] at hp
    split at hp
    · cases hp; rfl
    · cases hp; exact hnew _ rfl
  | await ready => simp only [perform] at hp; split at hp <;> cases hp; rfl
  | awaitWaiters service count => simp only [perform] at hp; split at hp <;> cases hp; rfl
  | join threads => simp only [perform] at hp; split at hp <;> cases hp; rfl
  | _ => cases hp; rfl

theorem perform_asTold (hp : m.perform I t th a = some (r, m₁)) (ha : a.Incidental)
    (h : m.world.AsTold c R log) : m₁.world.AsTold c R (log ++ a.told) := by
  have hsame : m₁.world.AsTold c R log := by
    refine ⟨h.lists.of_services (perform_services hp ha) fun e x hx => ?_, h.marked⟩
    exact (perform_edit hp).develops.registration e x hx
  cases a with
  | emit e => exact hsame.aside ha.aside
  | _ =>
    change m₁.world.AsTold c R (log ++ [])
    rwa [List.append_nil]

end Machine

inductive World.Owes (c : ContainerId) (R : Register) (w : World C) (log : List Event) : Due → Prop
  | nothing (h : w.AsTold c R log) : Owes c R w log .nothing
  | build {name} (h : w.AsTold c R log) : Owes c R w log (.build name)
  | announced {name shared provides before}
      (hlog : log = before ++ [.registering name shared provides]) (h : w.AsTold c R before) :
      Owes c R w log (.registration name shared provides)
  | replaced {name before shared provides}
      (hlog : log = before ++ [.registering name shared provides]) (hm : Marked R before)
      (hc : (replay R before).contains name = true) (hw : w.Lists c (replay R log)) :
      Owes c R w log (.event (.replaced name))
  | removed {name} (hm : Marked R log) (hw : w.Lists c ((replay R log).erase name)) :
      Owes c R w log (.event (.removed name))

theorem Action.Settles.of_nothing {a : Action C} (h : a.Settles .nothing) :
    a.Incidental ∨ (∃ name shared provides, a = .emit (.registering name shared provides)) ∨
      ∃ c name, a = .erase c name := by
  cases a with
  | insert => exact h.elim
  | erase c name => exact .inr (.inr ⟨c, name, rfl⟩)
  | emit e =>
    cases e with
    | registering name shared provides => exact .inr (.inl ⟨name, shared, provides, rfl⟩)
    | _ => exact .inl h
  | _ => exact .inl trivial

def Program.Keeps (c : ContainerId) (R : Register) (w : World C) (log : List Event)
    (p : Program C α) : Prop :=
  ∃ due, w.Owes c R log due ∧ p.Obeys .announcing (fun _ => True) due

section

variable {I : Implementation C} {c : ContainerId} {R : Register} {w : World C} {log : List Event}
  {m m₁ : Machine C} {t : ThreadId} {th : Thread C} {due : Due}

theorem World.Owes.act {a : Action C} {r : a.Reply} (h : m.world.Owes c R log due)
    (ha : a.Settles due) (hp : m.perform I t th a = some (r, m₁))
    (honly : ∀ d name, a.Places d name → d = c ∧ c < m.world.containers.length) :
    m₁.world.Owes c R (log ++ a.told) (a.due r) := by
  cases h with
  | nothing h =>
    obtain ha | ⟨name, shared, provides, rfl⟩ | ⟨d, name, rfl⟩ := ha.of_nothing
    · rw [ha.due_eq]
      exact .nothing (Machine.perform_asTold hp ha h)
    · cases hp
      exact .announced rfl h
    · obtain ⟨rfl, -⟩ := honly d name (.inr rfl)
      cases hp
      have hreply := h.lists.contains name
      have hsame : log ++ (Action.erase d name : Action C).told = log := List.append_nil log
      have hlists := h.lists.erase name
      rw [hreply, hsame]
      cases hthere : (replay R log).contains name with
      | true => exact .removed h.marked hlists
      | false =>
        rw [Table.erase_eq_self hthere] at hlists
        exact .nothing ⟨hlists, h.marked⟩
  | build h =>
    cases ha
    cases hp
    exact .nothing (h.aside trivial)
  | @announced name shared provides before hlog h =>
    obtain ⟨d, reg, rfl, rfl, rfl⟩ := ha
    obtain ⟨rfl, hc⟩ := honly d name (.inl ⟨reg, rfl⟩)
    cases hp
    have hreply := h.lists.contains name
    have hlists := h.lists.insert hc name reg
    have hsame : log ++ (Action.insert d name reg).told = log := List.append_nil log
    have hreplay : replay R log =
        (replay R before).insert name (reg.shared, reg.provides) := by
      rw [hlog, replay_append]
      rfl
    rw [← hreplay] at hlists
    rw [hreply, hsame]
    cases hthere : (replay R before).contains name with
    | true => exact .replaced hlog h.marked hthere hlists
    | false =>
      refine .nothing ⟨hlists, ?_⟩
      rw [hlog]
      exact .added h.marked hthere
  | replaced hlog hm hc hw =>
    cases ha
    cases hp
    refine .nothing ⟨?_, ?_⟩
    · rw [Action.told, replay_append]
      exact hw
    · rw [hlog, Action.told, List.append_assoc]
      exact .replaced hm hc
  | removed hm hw =>
    cases ha
    cases hp
    refine .nothing ⟨?_, .removed hm⟩
    rw [Action.told, replay_append]
    exact hw

theorem World.Owes.at_rest (h : w.Owes c R log .nothing) : w.AsTold c R log := by
  cases h with
  | nothing h => exact h

end

namespace Program.Keeps

variable {I : Implementation C} {c : ContainerId} {R : Register} {w : World C} {log : List Event}
  {m m₁ : Machine C} {t : ThreadId} {th : Thread C}

theorem of_announces {p : Program C α} (h : w.AsTold c R log) (hp : p.Announces) :
    p.Keeps c R w log := ⟨_, .nothing h, hp⟩

theorem of_build {p : Program C α} {name : String} (h : w.AsTold c R log)
    (hp : p.Obeys .announcing (fun _ => True) (.build name)) : p.Keeps c R w log :=
  ⟨_, .build h, hp⟩

theorem act {a : Action C} {next : a.Reply → Program C α} {r : a.Reply}
    (h : Keeps c R m.world log (.act a next)) (hp : m.perform I t th a = some (r, m₁))
    (honly : ∀ d name, a.Places d name → d = c ∧ c < m.world.containers.length) :
    Keeps c R m₁.world (log ++ a.told) (next r) := by
  obtain ⟨due, howes, hobeys⟩ := h
  obtain ⟨ha, hnext⟩ := hobeys.of_act
  exact ⟨_, howes.act ha hp honly, hnext r trivial⟩

theorem ended {r : Except Failure α} (h : Keeps c R w log (.ended r : Program C α)) :
    w.AsTold c R log := by
  obtain ⟨due, howes, hobeys⟩ := h
  have hrest : due = .nothing := by
    by_contra hdue
    obtain ⟨a, next, he, -⟩ := hobeys.acts hdue
    obtain ((e | s) | a) := r <;> cases he
  exact (hrest ▸ howes).at_rest

theorem call {k : Call C} {next : Except Error k.Reply → Program C α} (hI : I.Announces)
    (h : Keeps c R w log (.call k next)) :
    Keeps c R w log ((I.answer k).attempt.bind next) := by
  obtain ⟨due, howes, hobeys⟩ := h
  obtain ⟨rfl, hnext⟩ := hobeys.called hI
  exact .of_announces howes.at_rest hnext

theorem resolve {g : Goal} {next : Except Error Instance → Program C α}
    (h : Keeps c R w log (.resolve g next)) : w.AsTold c R log ∧ ∀ r, (next r).Announces := by
  obtain ⟨due, howes, hobeys⟩ := h
  obtain ⟨rfl, hnext⟩ := hobeys.asked
  exact ⟨howes.at_rest, hnext⟩

end Program.Keeps

def Frame.Announces : Frame C → Prop
  | .caller next => ∀ r, (next r).Announces
  | _ => True

def Control.Begins : Control C → Prop
  | .run p => p.Announces ∨ ∃ name, p.Obeys .announcing (fun _ => True) (.build name)
  | .enter _ _ inside => inside.Begins
  | _ => True

section

variable (c : ContainerId) (R : Register) (w : World C) (log : List Event)

def Control.Keeps : Control C → Prop
  | .run p => p.Keeps c R w log
  | K => w.AsTold c R log ∧ K.Begins

def Activity.Keeps : Activity C → Prop
  | .idle => w.AsTold c R log
  | .running p => p.Keeps c R w log
  | .resolving K F next =>
    K.Keeps c R w log ∧ (∀ f ∈ F, f.Announces) ∧ ∀ r, (next r).Announces

end

theorem Control.Keeps.of_begins {c : ContainerId} {R : Register} {w : World C} {log : List Event}
    {K : Control C} (h : w.AsTold c R log) (hK : K.Begins) : K.Keeps c R w log := by
  cases K with
  | run p =>
    obtain hp | ⟨name, hp⟩ := hK
    · exact .of_announces h hp
    · exact .of_build h hp
  | _ => exact ⟨h, hK⟩

theorem Goal.begins (g : Goal) : (g.control : Control C).Begins := by
  cases g with
  | service c name o => trivial
  | «class» c type o => exact .inl (construct_announces c type o)

namespace Machine

variable {I : Implementation C} {m m' : Machine C} {t : ThreadId} {th th' : Thread C}
  {w : World C} {fresh : List (Thread C)} {c : ContainerId} {R : Register} {log : List Event}

theorem Move.keeps (hI : I.Announces) (hm : Move I m t th w th' fresh)
    (hone : ∀ (L : Scope C) a rest d name, th.activity = L.runs (.act a rest) →
      a.Places d name → d = c ∧ c < m.world.containers.length)
    (htodo : ∀ p ∈ th.todo, p.Announces) (h : th.activity.Keeps c R m.world log) :
    ∃ more, th'.log = th.log ++ more ∧ th'.activity.Keeps c R w (log ++ more) ∧
      ∀ p ∈ th'.todo, p.Announces := by
  have hquiet {th'' : Thread C} {w' : World C} (hlog : th''.log = th.log)
      (ht : th''.todo = th.todo) (hk : th''.activity.Keeps c R w' log) :
      ∃ more, th''.log = th.log ++ more ∧ th''.activity.Keeps c R w' (log ++ more) ∧
        ∀ p ∈ th''.todo, p.Announces := by
    refine ⟨[], ?_, ?_, ?_⟩
    · rw [hlog, List.append_nil]
    · rwa [List.append_nil]
    · rwa [ht]
  cases hm with
  | @begin p rest ha hp =>
    rw [ha] at h
    rw [hp] at htodo
    refine ⟨[], (List.append_nil _).symm, ?_, fun q hq => htodo q (List.mem_cons_of_mem p hq)⟩
    rw [List.append_nil]
    exact .of_announces h (htodo p List.mem_cons_self)
  | ownEnded ha =>
    rw [ha] at h
    exact hquiet (th.log_conclude _) rfl (Program.Keeps.ended h)
  | @ownAct a rest r m₁ ha hp =>
    rw [ha] at h
    refine ⟨a.told, a.log_mark th, ?_, ?_⟩
    · exact Program.Keeps.act h hp (hone .own a rest · · ha)
    · rwa [a.mark_todo]
  | ownCall ha =>
    rw [ha] at h
    exact hquiet rfl rfl (Program.Keeps.call hI h)
  | @ownResolve g rest ha =>
    rw [ha] at h
    obtain ⟨h, hnext⟩ := Program.Keeps.resolve h
    exact hquiet rfl rfl ⟨.of_begins h g.begins, nofun, hnext⟩
  | @runAct a rest r m₁ F next ha hp =>
    rw [ha] at h
    obtain ⟨h, hF, hnext⟩ := h
    refine ⟨a.told, a.log_mark th, ⟨?_, hF, hnext⟩, ?_⟩
    · exact Program.Keeps.act h hp (hone (.inside F next) a rest · · ha)
    · rwa [Thread.goes, a.mark_todo]
  | runEnded ha =>
    rw [ha] at h
    obtain ⟨h, hF, hnext⟩ := h
    exact hquiet rfl rfl ⟨⟨Program.Keeps.ended h, trivial⟩, hF, hnext⟩
  | runCall ha =>
    rw [ha] at h
    obtain ⟨h, hF, hnext⟩ := h
    exact hquiet rfl rfl ⟨Program.Keeps.call hI h, hF, hnext⟩
  | @runResolve g rest F next ha =>
    rw [ha] at h
    obtain ⟨h, hF, hnext⟩ := h
    obtain ⟨h, hrest⟩ := Program.Keeps.resolve h
    exact hquiet rfl rfl ⟨.of_begins h g.begins, List.forall_mem_cons.2 ⟨hrest, hF⟩, hnext⟩
  | findOther ha he hs =>
    rw [ha] at h
    obtain ⟨⟨h, -⟩, hF, hnext⟩ := h
    exact hquiet rfl rfl ⟨⟨h, .inr ⟨_, build_announces _ _ _ _⟩⟩, hF, hnext⟩
  | peekHit ha hi =>
    rw [ha] at h
    obtain ⟨⟨h, -⟩, hF, hnext⟩ := h
    exact ⟨_, th.log_tell _, ⟨⟨h.aside trivial, trivial⟩, hF, hnext⟩, htodo⟩
  | enterAgain ha hc =>
    rw [ha] at h
    obtain ⟨⟨h, -⟩, hF, hnext⟩ := h
    exact ⟨_, th.log_tell _, ⟨⟨h.aside trivial, trivial⟩, hF, hnext⟩, htodo⟩
  | enterNew ha hc =>
    rw [ha] at h
    obtain ⟨⟨h, hinside⟩, hF, hnext⟩ := h
    refine hquiet rfl rfl ⟨.of_begins h hinside, ?_, hnext⟩
    exact List.forall_mem_cons.2 ⟨trivial, hF⟩
  | claimFree ha ho =>
    rw [ha] at h
    obtain ⟨⟨h, -⟩, hF, hnext⟩ := h
    refine hquiet rfl rfl ⟨⟨h.of_eq rfl rfl, trivial⟩, ?_, hnext⟩
    exact List.forall_mem_cons.2 ⟨trivial, hF⟩
  | claimCycle ha ho hc =>
    rw [ha] at h
    obtain ⟨⟨h, -⟩, hF, hnext⟩ := h
    exact ⟨_, th.log_tell _, ⟨⟨h.aside trivial, trivial⟩, hF, hnext⟩, htodo⟩
  | claimWait ha ho hc =>
    rw [ha] at h
    obtain ⟨⟨h, -⟩, hF, hnext⟩ := h
    refine ⟨_, th.log_tell _, ⟨⟨.aside ?_ trivial, trivial⟩, hF, hnext⟩, htodo⟩
    exact h.of_eq rfl rfl
  | recheckMiss ha hi =>
    rw [ha] at h
    obtain ⟨⟨h, -⟩, hF, hnext⟩ := h
    refine hquiet rfl rfl ⟨.of_build h (build_announces _ _ _ _), ?_, hnext⟩
    exact List.forall_mem_cons.2 ⟨trivial, hF⟩
  | keepFirst ha hi =>
    rw [ha] at h
    obtain ⟨⟨h, -⟩, hF, hnext⟩ := h
    exact hquiet rfl rfl ⟨⟨h.setCache _ _, trivial⟩, (List.forall_mem_cons.1 hF).2, hnext⟩
  | release ha =>
    rw [ha] at h
    obtain ⟨⟨h, -⟩, hF, hnext⟩ := h
    exact hquiet rfl rfl ⟨⟨h.of_eq rfl rfl, trivial⟩, (List.forall_mem_cons.1 hF).2, hnext⟩
  | keepOther ha | keepNothing ha | leave ha | passBy ha =>
    rw [ha] at h
    obtain ⟨⟨h, -⟩, hF, hnext⟩ := h
    exact hquiet rfl rfl ⟨⟨h, trivial⟩, (List.forall_mem_cons.1 hF).2, hnext⟩
  | answer ha =>
    rw [ha] at h
    obtain ⟨⟨h, -⟩, hF, hnext⟩ := h
    obtain ⟨hrest, hF⟩ := List.forall_mem_cons.1 hF
    exact hquiet rfl rfl ⟨.of_announces h (hrest _), hF, hnext⟩
  | ownAnswer ha =>
    rw [ha] at h
    obtain ⟨⟨h, -⟩, -, hnext⟩ := h
    exact hquiet rfl rfl (.of_announces h (hnext _))
  | ownCrash ha =>
    rw [ha] at h
    obtain ⟨⟨h, -⟩, -, hnext⟩ := h
    exact hquiet (th.log_conclude _) rfl h
  | wokenFree ha ho =>
    rw [ha] at h
    obtain ⟨⟨h, -⟩, hF, hnext⟩ := h
    exact hquiet rfl rfl ⟨⟨h.of_eq rfl rfl, trivial⟩, hF, hnext⟩
  | findMissing ha | findShared ha | peekMiss ha | attemptHit ha | attemptMiss ha | wokenAgain ha
  | recheckHit ha =>
    rw [ha] at h
    obtain ⟨⟨h, -⟩, hF, hnext⟩ := h
    exact hquiet rfl rfl ⟨⟨h, trivial⟩, hF, hnext⟩

end Machine

end Wiring
