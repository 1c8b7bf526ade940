import Wiring.Proofs.Fitting
import Wiring.Proofs.WaitGraph

namespace Wiring

open Relation (ReflTransGen TransGen)

variable {C : Client} {I : Implementation C} {w : World C} {c : ContainerId}
  {P : Contract I w c} {n : String} {o o' : List Value} {x z : Item} {S : List Item}
  {F G : List (Frame C)} {K : Control C}

def Container.ask (c : ContainerId) (tell : Instance → C.Report) (name : String) :
    Program C C.Report := do
  return tell (← Container.get c name)

def report (tell : Instance → C.Report) (a : Except Error Instance) : Program C C.Report :=
  (Program.ofExcept a).bind fun i => .done (tell i)

def Contract.Tells (P : Contract I w c) (tell : Instance → C.Report) (name : String)
    (outcome : Except Failure C.Report) (o : List Value) : Prop :=
  ∃ r, P.fair [] (.service name) r o ∧ outcome = r.map tell

theorem Contract.Tells.grows {tell : Instance → C.Report} {name : String}
    {outcome : Except Failure C.Report} (h : P.Tells tell name outcome o) (ho : P.grows o o') :
    P.Tells tell name outcome o' := by
  obtain ⟨r, hr, he⟩ := h
  exact ⟨r, P.stays _ _ _ _ ho hr, he⟩

inductive Engaged (P : Contract I w c) (tell : Instance → C.Report) (o : List Value) :
    List String → Activity C → Prop
  | idle : Engaged P tell o [] .idle
  | asks {name p} (hp : p = Container.ask c tell name) : Engaged P tell o [name] (.running p)
  | busy {name K F} (hf : Fits P name o K F) :
      Engaged P tell o [name] (.resolving K F (report tell))
  | tells {name p r} (hp : p = .ended r) (hr : P.Tells tell name r o) :
      Engaged P tell o [name] (.running p)

theorem Engaged.grows {tell : Instance → C.Report} {now : List String} {a : Activity C}
    (h : Engaged P tell o now a) (ho : P.grows o o') : Engaged P tell o' now a := by
  cases h with
  | idle => exact .idle
  | asks hp => exact .asks hp
  | busy hf => exact .busy (hf.grows ho)
  | tells hp hr => exact .tells hp (hr.grows ho)

theorem report_eq (tell : Instance → C.Report) (a : Except Error Instance) :
    report tell a = .ended ((Except.mapError .error a).map tell) := by
  cases a <;> rfl

inductive Advance (P : Contract I w c) (tell : Instance → C.Report) (o : List Value)
    (now : List String) (th th' : Thread C) : Prop
  | on (he : Engaged P tell o now th'.activity) (ht : th'.todo = th.todo)
      (hr : th'.records = th.records)
  | begins {p} (hn : now = []) (ha : th'.activity = .running p) (ht : th.todo = p :: th'.todo)
      (hr : th'.records = th.records)
  | ends {name record} (hn : now = [name]) (ha : th'.activity = .idle) (ht : th'.todo = th.todo)
      (hr : th'.records = th.records ++ [record]) (ho : P.Tells tell name record.outcome o)

namespace Machine

variable {m m' : Machine C} {t : ThreadId} {th th' : Thread C} {w' : World C}
  {fresh : List (Thread C)} {next : Except Error Instance → Program C C.Report}

theorem Move.resolving_rest (hm : Move I m t th w' th' fresh)
    (h : th'.activity = .resolving K F next) : th'.todo = th.todo ∧ th'.records = th.records := by
  cases hm with
  | runAct h' ha => exact ⟨Action.mark_todo _ _, Action.mark_records _ _⟩
  | ownAct h' ha => cases h
  | ownEnded h' => cases h
  | ownCrash h' => cases h
  | begin h' hp => cases h
  | _ => exact ⟨rfl, rfl⟩

theorem Move.advance {tell : Instance → C.Report} {now : List String}
    (hm : Move I m t th w' th' fresh) (hat : m.activity t = th.activity)
    (he : Engaged P tell m.world.objects now th.activity) (hroot : P.Rooted)
    (ho : Orderly th.stack th.activity) (hw : P.Holds m.world) (hwarns : P.Warns m)
    (hkept : P.Caches w') :
    P.Leaves m.world w' ∧ fresh = [] ∧ Advance P tell w'.objects now th th' := by
  generalize ha : th.activity = a at he
  cases he with
  | idle =>
    cases hm with
    | begin h hp => exact ⟨.of_eq rfl rfl rfl, rfl, .begins rfl rfl hp rfl⟩
    | _ => cases ha.symm.trans ‹th.activity = _›
  | asks hp =>
    subst hp
    cases hm with
    | ownResolve h =>
      cases ha.symm.trans h
      exact ⟨.of_eq rfl rfl rfl, rfl, .on (.busy (.find (.step (hroot _)))) rfl rfl⟩
    | @ownEnded r h => obtain ((e | s) | i) := r <;> cases ha.symm.trans h
    | _ => cases ha.symm.trans ‹th.activity = _›
  | tells hp hr =>
    rename_i name p r
    subst hp
    cases hm with
    | ownEnded h =>
      have := Program.ended_inj (Activity.running.inj (ha.symm.trans h))
      subst this
      exact ⟨.of_eq rfl rfl rfl, rfl, .ends rfl rfl rfl rfl hr⟩
    | ownAct h => obtain ((e | s) | i) := r <;> cases ha.symm.trans h
    | ownCall h => obtain ((e | s) | i) := r <;> cases ha.symm.trans h
    | ownResolve h => obtain ((e | s) | i) := r <;> cases ha.symm.trans h
    | _ => cases ha.symm.trans ‹th.activity = _›
  | @busy name K F hf =>
    have hst : th.stack = insides F := by rw [ha] at ho; exact ho.stack_eq
    obtain ⟨hl, hn⟩ := hm.leaves ha hf hst hw
    refine ⟨hl, hn, ?_⟩
    by_cases hend : F = [] ∧ ∃ r, K = .finish r
    · obtain ⟨rfl, r, rfl⟩ := hend
      cases hf with
      | finish hF hr =>
        cases hF with
        | step =>
          cases hm with
          | @ownAnswer a next h =>
            cases ha.symm.trans h
            exact .on (.tells (report_eq tell a) ⟨_, hr, rfl⟩) rfl rfl
          | ownCrash h => cases ha.symm.trans h; exact .ends rfl rfl rfl rfl ⟨_, hr, rfl⟩
          | _ => cases ha.symm.trans ‹th.activity = _›
    · obtain ⟨K', F', ha', hf'⟩ := hm.fits hat ha hf hst hw hwarns hkept
        fun hF r hK => hend ⟨hF, r, hK⟩
      obtain ⟨ht, hr⟩ := hm.resolving_rest ha'
      exact .on (ha' ▸ .busy hf') ht hr

end Machine

def Stands (P : Contract I w c) (tell : Instance → C.Report) (names : List String)
    (o : List Value) (th : Thread C) : Prop :=
  ∃ past now rest, names = past ++ now ++ rest ∧ th.todo = rest.map (Container.ask c tell) ∧
    List.Forall₂ (fun name record => P.Tells tell name record.outcome o) past th.records ∧
    Engaged P tell o now th.activity

/-- All threads ask for services of one container, and what they do is fair. -/
structure Sound (P : Contract I w c) (tell : Instance → C.Report) (jobs : List (List String))
    (m : Machine C) : Prop where
  holds : P.Holds m.world
  length : m.threads.length = jobs.length
  stands {t : ThreadId} {th : Thread C} (ht : m.threads[t]? = some th) :
    ∃ names, jobs[t]? = some names ∧ Stands P tell names m.world.objects th

theorem Contract.Holds.leaves {w₁ w₂ : World C} (h : P.Holds w₁) (hl : P.Leaves w₁ w₂)
    (hc : ∀ name e entry i, w.entry? c name = some (e, entry) → w₂.cached e = some i →
      P.made name i w₂.objects) : P.Holds w₂ where
  agrees := h.agrees.trans ⟨hl.containers, hl.registrations⟩
  grown := P.trans h.grown hl.grows
  cached he hi := hc _ _ _ _ he hi

theorem Stands.advance {tell : Instance → C.Report} {names : List String} {th th' : Thread C}
    {past now rest : List String} (hn : names = past ++ now ++ rest)
    (ht : th.todo = rest.map (Container.ask c tell))
    (hp : List.Forall₂ (fun name record => P.Tells tell name record.outcome o) past th.records)
    (h : Advance P tell o now th th') : Stands P tell names o th' := by
  cases h with
  | on he ht' hr => exact ⟨past, now, rest, hn, ht'.trans ht, hr ▸ hp, he⟩
  | begins hnow ha ht' hr =>
    subst hnow
    rw [ht'] at ht
    cases rest with
    | nil => cases ht
    | cons name rest =>
      obtain ⟨hname, hrest⟩ := List.cons.inj ht
      exact ⟨past, [name], rest, by simpa using hn, hrest, hr ▸ hp, ha ▸ .asks hname⟩
  | @ends name record hnow ha ht' hr ho =>
    subst hnow
    refine ⟨past ++ [name], [], rest, by simpa using hn, ht'.trans ht, ?_, ha ▸ .idle⟩
    rw [hr]
    exact List.rel_append hp (.cons ho .nil)

theorem Stands.grows {tell : Instance → C.Report} {names : List String} {th : Thread C}
    (h : Stands P tell names o th) (ho : P.grows o o') : Stands P tell names o' th := by
  obtain ⟨past, now, rest, hn, ht, hp, he⟩ := h
  exact ⟨past, now, rest, hn, ht, hp.imp fun _ _ hr => hr.grows ho, he.grows ho⟩

theorem Stands.wake {tell : Instance → C.Report} {names : List String} {th : Thread C}
    (h : Stands P tell names o th) : Stands P tell names o th.wake := by
  obtain hw | ⟨s, owner, F, next, ha, hw⟩ := th.wake_cases
  · exact hw.symm ▸ h
  · obtain ⟨past, now, rest, hn, ht, hp, he⟩ := h
    rw [hw]
    refine ⟨past, now, rest, hn, ht, hp, ?_⟩
    rw [ha] at he
    cases he with
    | busy hf => cases hf with | asleep hF hx he => exact .busy (.woken hF hx he)

theorem Machine.Move.cached_made {m : Machine C} {t : ThreadId} {th th' : Thread C} {w' : World C}
    {fresh : List (Thread C)} {tell : Instance → C.Report} {now : List String}
    (hm : Move I m t th w' th' fresh) (he : Engaged P tell m.world.objects now th.activity)
    (hw : P.Holds m.world) (hu : w.Unbuilt) (hl : P.Leaves m.world w')
    (hkept : P.Caches w')
    {name : String} {e : EntryId} {entry : Entry C} {i : Instance}
    (hx : w.entry? c name = some (e, entry)) (hi : w'.cached e = some i) :
    P.made name i w'.objects := by
  have hold : m.world.cached e = some i → P.made name i w'.objects :=
    fun hi => P.lasts hl.grows (hw.cached hx hi)
  obtain hsame | ⟨j, s, F, next, ha, -, rfl⟩ := hm.cached
  · exact hold (hsame e ▸ hi)
  · have hcached := hi
    rw [World.cached_setCache] at hi
    split at hi
    · next hse =>
      cases hi
      rw [ha] at he
      cases he with
      | busy hf =>
        cases hf with
        | finish hF hr => cases hF
        | finishBuild hF hs hr =>
          have hsame := hu.single (World.entry?_eq_some.1 hs.entry?).1
            (hse.1 ▸ (World.entry?_eq_some.1 hx).1)
          cases hsame
          exact P.keep hs (hkept _ _ _ hs (hw.agrees.cached_setCache hs.entry?)) hr
    · exact hold hi

/-- Whatever is under way is linked to what it asks for. -/
def Contract.Links (P : Contract I w c) (m : Machine C) (E : Item → Item → Prop) : Prop :=
  ∀ t n K x S F G next, m.activity t = .resolving K G next → Asked P n m.world.objects x S F →
    F <:+ G → ∀ z ∈ S, ∀ T y, P.asks T z y → E z y

theorem Asked.reaches {E : Item → Item → Prop} (h : Asked P n o x S F)
    (hE : ∀ z ∈ S, ∀ T y, P.asks T z y → E z y) (hz : z ∈ S) : TransGen E z x := by
  induction h with
  | step => cases hz
  | plain h hp hy hr hb hc ih =>
    have hlast := hE _ List.mem_cons_self _ _ hr
    obtain _ | ⟨_, hz⟩ := hz
    · exact .single hlast
    · exact (ih (fun z hz => hE z (List.mem_cons_of_mem _ hz)) hz).tail hlast
  | shared h hy he hr hb hc ih =>
    have hlast := hE _ List.mem_cons_self _ _ hr
    obtain _ | ⟨_, hz⟩ := hz
    · exact .single hlast
    · exact (ih (fun z hz => hE z (List.mem_cons_of_mem _ hz)) hz).tail hlast

namespace Sound

open Machine

variable {m m' : Machine C} {t u : ThreadId} {th th' : Thread C} {tell : Instance → C.Report}
  {jobs : List (List String)} {k k' : BuildKey} {E : Item → Item → Prop} {s : Site C}
  {next : Except Error Instance → Program C C.Report}

theorem engaged (hm : Sound P tell jobs m) (u : ThreadId) :
    ∃ now, Engaged P tell m.world.objects now (m.activity u) := by
  cases hu : m.threads[u]? with
  | none => exact ⟨[], by rw [Machine.activity, hu]; exact .idle⟩
  | some th =>
    obtain ⟨names, -, past, now, rest, -, -, -, he⟩ := hm.stands hu
    exact ⟨now, (activity_eq hu).symm ▸ he⟩

theorem fits (hm : Sound P tell jobs m) (ha : m.activity t = .resolving K F next) :
    ∃ n, Fits P n m.world.objects K F := by
  obtain ⟨now, he⟩ := hm.engaged t
  rw [ha] at he
  cases he with
  | busy hf => exact ⟨_, hf⟩

theorem requests (hm : Sound P tell jobs m) (hE : P.Links m E) (ha : m.awaited u = some k)
    (hk : k' ∈ m.owned u) : TransGen E (.service k'.name) (.service k.name) := by
  cases hu : m.activity u with
  | resolving K F next =>
    obtain ⟨n, hf⟩ := hm.fits hu
    rw [Machine.awaited, hu] at ha
    rw [Machine.owned, hu] at hk
    cases hf with
    | asleep hF hx he =>
      cases ha
      exact hF.reaches (hE _ _ _ _ _ _ _ _ hu hF (List.suffix_cons _ _)) (hF.owned_mem hk)
    | woken hF hx he =>
      cases ha
      exact hF.reaches (hE _ _ _ _ _ _ _ _ hu hF (List.suffix_cons _ _)) (hF.owned_mem hk)
    | find => cases ha
    | _ => cases ha
  | _ => rw [Machine.awaited, hu] at ha; cases ha

theorem reaches_owned (hm : Sound P tell jobs m) (hc : m.Consistent) (hE : P.Links m E)
    (h : ReflTransGen m.world.builds.WaitsFor u t) (hk : k ∈ m.owned u) :
    ∃ k' ∈ m.owned t, ReflTransGen E (.service k.name) (.service k'.name) := by
  -- On the way along owners, each thread asks for what the next one owns.
  induction h using ReflTransGen.head_induction_on generalizing k with
  | refl => exact ⟨k, hk, .refl⟩
  | @head u v h _ ih =>
    obtain ⟨k₁, hw, ho⟩ := h
    rw [hc.waiting] at hw
    obtain ⟨k', hk', hreach⟩ := ih ((hc.owners k₁ v).1 ho)
    exact ⟨k', hk', (hm.requests hE hw hk).to_reflTransGen.trans hreach⟩

theorem claim_reaches (hm : Sound P tell jobs m) (hc : m.Consistent) (hE : P.Links m E)
    {chain : List String} (hcycle : m.world.builds.waitCycle s.key t = some chain) :
    ∃ k ∈ m.owned t, ReflTransGen E (.service s.name) (.service k.name) := by
  obtain ⟨owner, ho, hwaits⟩ :=
    BuildGraph.waitCycle_isSome_iff.1 (Option.isSome_iff_exists.2 ⟨chain, hcycle⟩)
  exact hm.reaches_owned hc hE hwaits ((hc.owners s.key owner).1 ho)

theorem several (hm : Sound P tell jobs m) (hc : m.Consistent) {chain : List String}
    (ha : m.activity t = .resolving (.claim s) F next)
    (hcycle : m.world.builds.waitCycle s.key t = some chain) : jobs.length ≠ 1 := by
  intro hone
  obtain ⟨owner, ho, -⟩ :=
    BuildGraph.waitCycle_isSome_iff.1 (Option.isSome_iff_exists.2 ⟨chain, hcycle⟩)
  rw [hc.claim_free (hm.length.trans hone) ha] at ho
  cases ho

theorem step (hm : Sound P tell jobs m) (hc : m.Consistent) (hu : w.Unbuilt) (hroot : P.Rooted)
    (hwarns : P.Warns m)
    (hkept : P.Caches m'.world)
    (hs : m.step I t = some m') : Sound P tell jobs m' := by
  obtain ⟨th, ht, h⟩ := step_cases hs
  have hl : t < m.threads.length := (List.getElem?_eq_some_iff.1 ht).1
  obtain ⟨names, hn, past, now, rest, hnames, htodo, hpast, he⟩ := hm.stands ht
  cases h with
  | @move w' th' fresh hmove =>
    obtain ⟨hleaves, rfl, hadv⟩ :=
      hmove.advance (activity_eq ht) he hroot (hc.orderly ht) hm.holds hwarns hkept
    refine ⟨hm.holds.leaves hleaves fun _ _ _ _ hx hi =>
      hmove.cached_made he hm.holds hu hleaves hkept hx hi, by simpa using hm.length, ?_⟩
    intro u thu hu
    rw [List.append_nil, List.getElem?_set] at hu
    split at hu
    · next htu =>
      subst htu
      cases hu
      have hpast := hpast.imp fun _ _ hr => Contract.Tells.grows hr hleaves.grows
      exact ⟨names, hn, .advance hnames htodo hpast hadv⟩
    · obtain ⟨names, hn, hstands⟩ := hm.stands hu
      exact ⟨names, hn, hstands.grows hleaves.grows⟩
  | @notify r F next ha =>
    refine ⟨hm.holds, by simpa using hm.length, ?_⟩
    intro u thu hu
    rw [List.getElem?_set] at hu
    split at hu
    · next htu =>
      subst htu
      rw [if_pos (by simpa using hl)] at hu
      cases hu
      refine ⟨names, hn, past, now, rest, hnames, htodo, hpast, ?_⟩
      rw [ha] at he
      cases he with
      | busy hf => cases hf with | notify hF hr => exact .busy (.finishInside hF hr)
    · obtain ⟨a, ha, rfl⟩ := Option.map_eq_some_iff.1 (List.getElem?_map ▸ hu)
      obtain ⟨names, hn, hstands⟩ := hm.stands ha
      exact ⟨names, hn, hstands.wake⟩

end Sound

def Machine.requests (w : World C) (c : ContainerId) (tell : Instance → C.Report)
    (jobs : List (List String)) : Machine C :=
  ⟨w, jobs.map fun names => { todo := names.map (Container.ask c tell) }⟩

namespace Machine

variable {m : Machine C} {tell : Instance → C.Report} {jobs : List (List String)}

theorem requests_fresh (hw : w.Unbuilt) : (requests w c tell jobs).Fresh where
  world := hw
  threads ht := by
    obtain ⟨names, -, rfl⟩ := List.mem_map.1 ht
    exact ⟨rfl, rfl, rfl⟩

theorem requests_sound (hw : w.Unbuilt) : Sound P tell jobs (requests w c tell jobs) where
  holds := ⟨⟨rfl, rfl⟩, P.refl _, fun he hi => by
    rw [requests, hw.uncached] at hi
    cases hi⟩
  length := List.length_map _
  stands ht := by
    obtain ⟨names, hn, rfl⟩ := Option.map_eq_some_iff.1 (List.getElem?_map ▸ ht)
    exact ⟨names, hn, [], [], names, rfl, rfl, .nil, .idle⟩

theorem Reaches.sound (hw : w.Unbuilt) (hroot : P.Rooted)
    (hwarns : ∀ m₁, Reaches I (requests w c tell jobs) m₁ → Reaches I m₁ m →
      Sound P tell jobs m₁ → P.Warns m₁)
    (hkept : P.Caches m.world)
    (h : Reaches I (requests w c tell jobs) m) : Sound P tell jobs m := by
  suffices hall : ∀ m₁, Reaches I (requests w c tell jobs) m₁ → Reaches I m₁ m →
      Sound P tell jobs m₁ from hall m h .refl
  intro m₁ h₁
  induction h₁ with
  | refl => exact fun _ => requests_sound hw
  | @tail m₁ m₂ hr hs ih =>
    intro hrest
    have hrest₁ : Reaches I m₁ m := .head hs hrest
    obtain ⟨t, hstep⟩ := hs
    have hsound := ih hrest₁
    have hreach : Reachable I m₁ := ⟨_, requests_fresh hw, hr⟩
    exact hsound.step hreach.consistent hw hroot (hwarns m₁ hr hrest₁ hsound)
      (fun name e entry he hi => hkept name e entry he (Reaches.cached hrest hi)) hstep

end Machine

theorem Sound.told {tell : Instance → C.Report} {jobs : List (List String)} {m : Machine C}
    (h : Sound P tell jobs m) {t : ThreadId} {th : Thread C} {k : Nat}
    {record : StepRecord C} (ht : m.threads[t]? = some th) (hr : th.records[k]? = some record) :
    ∃ names name, jobs[t]? = some names ∧ names[k]? = some name ∧
      P.Tells tell name record.outcome m.world.objects := by
  obtain ⟨names, hn, past, now, rest, rfl, -, hp, -⟩ := h.stands ht
  obtain ⟨hlen, hget⟩ := List.forall₂_iff_get.1 hp
  obtain ⟨hk, rfl⟩ := List.getElem?_eq_some_iff.1 hr
  have hk' : k < past.length := hlen ▸ hk
  refine ⟨_, past[k], hn, ?_, hget k hk' hk⟩
  rw [List.append_assoc, List.getElem?_append_left hk', List.getElem?_eq_getElem hk']

end Wiring
