import Wiring.Proofs.Contract

namespace Wiring

variable {C : Client} {I : Implementation C} {w : World C} {c : ContainerId} {D : Type}

def Interpretation.Comes (R : Interpretation I w c D) (good : D → Prop) (bad : Failure → Prop)
    (r : Except Failure Instance) (o : List Value) : Prop :=
  match r with
  | .ok i => ∃ d, good d ∧ R.means o i d
  | .error f => bad f

theorem Interpretation.Comes.grows {R : Interpretation I w c D} {good : D → Prop}
    {bad : Failure → Prop} {r : Except Failure Instance} {o o' : List Value}
    (h : R.Comes good bad r o) (ho : R.grows o o') : R.Comes good bad r o' := by
  cases r with
  | ok i =>
    obtain ⟨d, hd, hm⟩ := h
    exact ⟨d, hd, R.lasts ho hm⟩
  | error f => exact h

theorem Interpretation.Comes.imp {R : Interpretation I w c D} {good good' : D → Prop}
    {bad : Failure → Prop} {r : Except Failure Instance} {o : List Value}
    (h : R.Comes good bad r o) (hg : ∀ d, good d → good' d) : R.Comes good' bad r o := by
  cases r with
  | ok i =>
    obtain ⟨d, hd, hm⟩ := h
    exact ⟨d, hg d hd, hm⟩
  | error f => exact h

/-- What may be said of the requests that are made under an interpretation while `S` is under way:
which data it is good to come to, from the cache or not, and which failures are bad. What is `done`
has been built, but not been cached so far. -/
structure Judgement (R : Interpretation I w c D) where
  arises : List Item → Item → Prop
  good : List Item → Item → D → Prop
  done : List Item → Item → D → Prop
  bad : List Item → Item → Failure → Prop
  stocked : String → D → Prop
  kept : String → Prop
  makes {S : List Item} {x : Item} {d : D} (h : good S x d) : R.plan.Makes x d
  asked {S : List Item} {x y : Item} {before after : List Source} {ds : List D}
    (h : arises S x) (hx : ¬ x.Barred S) (hs : R.plan.sources x = before ++ .target y :: after)
    (hb : R.plan.FilledBy (good (x :: S)) before ds) : arises (x :: S) y
  ends {S : List Item} {x : Item} {ds : List D} {d : D} (h : arises S x) (hx : ¬ x.Barred S)
    (hd : R.plan.FilledBy (good (x :: S)) (R.plan.sources x) ds)
    (hr : R.plan.result x ds = .ok d) : done S x d
  body {S : List Item} {x : Item} {ds : List D} {f : Failure} (h : arises S x)
    (hx : ¬ x.Barred S) (hd : R.plan.FilledBy (good (x :: S)) (R.plan.sources x) ds)
    (hr : R.plan.result x ds = .error f) : bad S x f
  refused {S : List Item} {x : Item} {before after : List Source} {ds : List D} {f : Failure}
    (h : arises S x) (hx : ¬ x.Barred S) (hs : R.plan.sources x = before ++ .refused :: after)
    (hb : R.plan.FilledBy (good (x :: S)) before ds) (hf : ¬ f.Circular) : bad S x f
  source {S : List Item} {x y : Item} {before after : List Source} {ds : List D} {f : Failure}
    (h : arises S x) (hx : ¬ x.Barred S) (hs : R.plan.sources x = before ++ .target y :: after)
    (hb : R.plan.FilledBy (good (x :: S)) before ds) (hf : bad (x :: S) y f) : bad S x f
  hit {S : List Item} {name : String} {d : D} (h : arises S (.service name))
    (hd : stocked name d) : good S (.service name) d
  plain {S : List Item} {x : Item} {d : D} (hp : w.Plain c x) (h : done S x d) : good S x d
  keep {S : List Item} {name : String} {e : EntryId} {entry : Entry C} {d : D}
    (he : w.Shares c name e entry) (hk : kept name) (h : done S (.service name) d) :
    stocked name d

namespace Judgement

variable {R : Interpretation I w c D} (J : Judgement R)

def Asks (S : List Item) (x y : Item) : Prop :=
  ∃ before after ds, R.plan.sources x = before ++ .target y :: after ∧
    R.plan.FilledBy (J.good (x :: S)) before ds

def Fair (S : List Item) (x : Item) : Except Failure Instance → List Value → Prop :=
  R.Comes (J.good S x) (J.bad S x)

def Built (S : List Item) (x : Item) : Except Failure Instance → List Value → Prop :=
  R.Comes (J.done S x) (J.bad S x)

def setting (x : Item) (S : List Item) : Setting C :=
  R.toGrowth.setting w c (under c (x :: S)) (J.Asks S x) (J.Fair (x :: S))
    fun _ _ _ _ ho h => h.grows ho

/-- What comes of a source while `S` is under way. -/
def Filled (S : List Item) (s : Source) (r : Except Failure Instance) (o : List Value) : Prop :=
  match s, r with
  | .target y, r => J.Fair S y r o
  | .value i, r => r = .ok i
  | .refused, .ok _ => False
  | .refused, .error f => ¬ f.Circular

variable {J} {x y : Item} {S : List Item} {o : List Value} {p : Parameter}

theorem Asks.requests (h : J.Asks S x y) : R.plan.Requests x y := by
  obtain ⟨before, after, ds, hs, hb⟩ := h
  exact ⟨before, after, ds, hs, hb.fills fun _ _ => J.makes⟩

theorem request (hy : J.Asks S x y) :
    Behaves I (J.setting x S) (J.Filled (x :: S) (.target y)) (Program.request (y.goal c)) o :=
  .ask (fun _ _ _ _ ho h => h.grows ho) hy

theorem follow {rule : Rule} {target : String} {position : Nat}
    (hy : ∀ y, rule.source p = .target y → J.Asks S x y) :
    Behaves I (J.setting x S) (J.Filled (x :: S) (rule.source p))
      (rule.follow c target position p) o := by
  cases rule with
  | override i => exact .emit fun _ _ => .done fun _ _ => rfl
  | onlyOfType service => exact .emit fun _ _ => request (hy _ rfl)
  | narrowed => exact .emit fun _ _ => request (hy _ rfl)
  | ambiguous candidates =>
    exact .emit fun _ _ => .fail fun _ _ ⟨_, h⟩ => nomatch h
  | named => exact .emit fun _ _ => request (hy _ rfl)
  | autowired type => exact .emit fun _ _ => request (hy _ rfl)
  | default i => exact .emit fun _ _ => .done fun _ _ => rfl
  | unresolvable => exact .fail fun _ _ ⟨_, h⟩ => nomatch h

theorem fill {target : String} {position : Nat}
    (hy : ∀ y, p.source w c (under c (x :: S)) = .target y → J.Asks S x y) :
    Behaves I (J.setting x S) (J.Filled (x :: S) (p.source w c (under c (x :: S))))
      (Wiring.fill c target ∅ position p) o :=
  .bind (.choose rfl fun _ _ => follow hy)

theorem Filled.had {s : Source} {i : Instance} (h : J.Filled (x :: S) s (.ok i) o)
    (ho : R.grows w.objects o) (hs : s ∈ R.plan.sources x) :
    ∃ d, R.plan.FilledBy (J.good (x :: S)) [s] [d] ∧ R.means o i d := by
  cases s with
  | target y =>
    obtain ⟨d, hd, hm⟩ := h
    exact ⟨d, .target hd .nil, hm⟩
  | value j =>
    cases h
    exact ⟨R.plan.ready i, .value .nil, R.lasts ho (R.ready hs)⟩
  | refused => exact h.elim

theorem Filled.fails {s : Source} {f : Failure} (h : J.Filled (x :: S) s (.error f) o)
    (ha : J.arises S x) (hx : ¬ x.Barred S) {before after : List Source} {ds : List D}
    (hb : R.plan.FilledBy (J.good (x :: S)) before ds)
    (hs : R.plan.sources x = before ++ s :: after) : J.bad S x f := by
  cases s with
  | target y => exact J.source ha hx hs hb h
  | value j => cases h
  | refused => exact J.refused ha hx hs hb h

theorem fillFrom {target : String} {position : Nat} {parameters : List Parameter}
    {before : List Source} {ds : List D} (ha : J.arises S x) (hx : ¬ x.Barred S)
    (hb : R.plan.FilledBy (J.good (x :: S)) before ds)
    (hs : R.plan.sources x =
      before ++ parameters.map (·.source w c (under c (x :: S)))) (ho : R.grows w.objects o) :
    Behaves I (J.setting x S)
      (fun r o' => match r with
        | .ok values => values.map Prod.fst = parameters.map (·.name) ∧
          ∃ ds', R.plan.FilledBy (J.good (x :: S)) (R.plan.sources x) (ds ++ ds') ∧
            List.Forall₂ (R.means o') (values.map Prod.snd) ds'
        | .error f => J.bad S x f)
      (Wiring.fillFrom c target ∅ position parameters) o := by
  induction parameters generalizing before ds position o with
  | nil =>
    refine .done fun o' ho => ⟨rfl, [], ?_, .nil⟩
    rw [hs]
    simpa using hb
  | cons p rest ih =>
    rw [List.map_cons] at hs
    have hy : ∀ y, p.source w c (under c (x :: S)) = .target y → J.Asks S x y :=
      fun y hy => ⟨before, _, ds, by rw [hs, hy], hb⟩
    refine .bind ((fill (p := p) hy).imp ?_)
    rintro (f | i) o' ho' hr
    · exact hr.fails ha hx hb hs
    · have ho' := R.trans ho ho'
      obtain ⟨d, hd, hm⟩ := hr.had ho' (hs ▸ List.mem_append_right _ List.mem_cons_self)
      refine .bind ((ih (hb.append hd) (by rw [hs]; simp) ho').imp ?_)
      rintro (f | values) o'' ho'' hr
      · exact hr
      · obtain ⟨hn, ds', hf, hv⟩ := hr
        refine .done fun o₃ ho₃ => ⟨?_, d :: ds', ?_, ?_⟩
        · rw [List.map_cons, List.map_cons, hn]
        · simpa using hf
        · exact .cons (R.lasts (R.trans ho'' ho₃) hm)
            (hv.imp fun i d h => R.lasts ho₃ h)

theorem built_of_foreseen {ds : List D} {r : Except Failure Instance} (ha : J.arises S x)
    (hx : ¬ x.Barred S) (hd : R.plan.FilledBy (J.good (x :: S)) (R.plan.sources x) ds)
    (h : Foreseen (R.means o) (R.plan.result x ds) r) : J.Built S x r o := by
  cases hr : R.plan.result x ds with
  | ok d =>
    rw [hr] at h
    cases r with
    | ok i => exact ⟨d, J.ends ha hx hd hr, h⟩
    | error f => exact h.elim
  | error f =>
    rw [hr] at h
    cases r with
    | ok i => exact h.elim
    | error f' => exact J.body ha hx hd (h ▸ hr)

theorem fillAll {target : String} {make : Arguments → Program C Instance}
    (hk : w.Knows c R.plan x) (ha : J.arises S x) (hp : R.plan.Path x S) (hx : ¬ x.Barred S)
    (ho : R.grows w.objects o)
    (hmake : ∀ args ds o', R.grows w.objects o' → R.plan.Fills (R.plan.sources x) ds →
      args.Mean (R.means o') target (R.signature x) ds →
        Behaves I R.toGrowth.alone (fun r o' => Foreseen (R.means o') (R.plan.result x ds) r)
          (make args) o') :
    Behaves I (J.setting x S) (J.Built S x)
      ((Wiring.fillAll c target (R.signature x) ∅).bind make) o := by
  have hs : R.plan.sources x = [] ++ _ := (R.sources hk hp hx).symm
  refine .bind (.bind ((fillFrom ha hx .nil hs ho).imp ?_))
  rintro (f | values) o' ho' hr
  · exact hr
  · obtain ⟨hn, ds, hf, hv⟩ := hr
    refine .done fun o'' ho'' => ?_
    have hv := hv.imp fun i d h => R.lasts ho'' h
    have hm := hmake ⟨target, values⟩ ds o'' (R.trans ho (R.trans ho' ho''))
      (hf.fills fun _ _ => J.makes) ⟨rfl, hn, hv⟩
    exact hm.of_alone.imp fun r o₃ _ h => built_of_foreseen ha hx hf h

theorem build {name : String} {e : EntryId} {entry : Entry C}
    (he : w.entry? c name = some (e, entry)) (ha : J.arises S (.service name))
    (hp : R.plan.Path (.service name) S) (hx : ¬ (Item.service name).Barred S)
    (ho : R.grows w.objects o) :
    Behaves I (J.setting (.service name) S) (J.Built S (.service name))
      (Wiring.build c name entry.registration ∅) o := by
  refine .emit fun o' ho' => ?_
  change Behaves I _ _ (entry.registration.logic.parameters.bind _) o'
  refine .bind ((Behaves.of_alone (R.parameters he (R.trans ho ho'))).imp ?_)
  rintro _ o'' ho'' rfl
  have hk : w.Knows c R.plan (.service name) := by rw [World.Knows, he]; rfl
  exact fillAll hk ha hp hx (R.trans ho (R.trans ho' ho'')) fun args ds o₃ ho₃ hd hm =>
    R.invoke he ho₃ hd hm

theorem construction {type : TypeKey} (hk : w.Knows c R.plan (.class type))
    (ha : J.arises S (.class type)) (hp : R.plan.Path (.class type) S)
    (hx : ¬ (Item.class type).Barred S) (ho : R.grows w.objects o) :
    Behaves I (J.setting (.class type) S) (J.Fair S (.class type))
      (Wiring.construct c type ∅) o := by
  have hplain : w.Plain c (.class type) := by rintro _ _ _ ⟨⟩
  refine .bind ((Behaves.of_alone (R.manifest hk ho)).imp ?_)
  rintro _ o' ho' rfl
  have hfill := fillAll (J := J) hk ha hp hx (R.trans ho ho') fun args ds o'' ho'' hd hm =>
    R.construct hk ho'' hd hm
  exact hfill.imp fun r o'' _ h => h.imp fun d => J.plain hplain

theorem missing {name : String} (he : w.entry? c name = none) (ha : J.arises S (.service name))
    (hp : R.plan.Path (.service name) S) :
    J.bad S (.service name) (.error (.serviceNotFound name)) := by
  obtain ⟨hs, hr⟩ := R.missing he
  have hx : ¬ (Item.service name).Barred S := by
    intro hx
    obtain ⟨y, hy, -⟩ := Relation.TransGen.head'_iff.1 (hp.requests hx.service)
    have hneeds := hy.needs
    rw [Plan.Needs, hs] at hneeds
    cases hneeds
  exact J.body ha hx (hs ▸ .nil) hr

variable (J) in
def contract : Contract I w c where
  toGrowth := R.toGrowth
  arises S x := J.arises S x ∧ R.plan.Path x S ∧ ∀ type, x = .class type → w.Knows c R.plan x
  asks := J.Asks
  fair := J.Fair
  built S name := J.Built S (.service name)
  made name i o := ∃ d, J.stocked name d ∧ R.means o i d
  kept := J.kept
  stays _ _ _ _ ho h := h.grows ho
  endures ho h := h.grows ho
  lasts := by
    rintro name i o o' ho ⟨d, hd, hm⟩
    exact ⟨d, hd, R.lasts ho hm⟩
  asked := by
    rintro S x y ⟨ha, hp, -⟩ hx hy
    have hreq := hy.requests
    obtain ⟨before, after, ds, hs, hb⟩ := hy
    refine ⟨J.asked ha hx hs hb, .step hp hx hreq, ?_⟩
    rintro type rfl
    exact ⟨x, hreq.needs⟩
  missing he h := missing he h.1 h.2.1
  hit := by
    rintro S name i o ⟨ha, -⟩ ⟨d, hd, hm⟩
    exact ⟨d, J.hit ha hd, hm⟩
  plain hp h := h.imp fun _ => J.plain hp
  fails h := h
  keep := by
    rintro S name e entry i o he hk ⟨d, hd, hm⟩
    exact ⟨d, J.keep he hk hd, hm⟩
  build he h hx ho := build he h.1 h.2.1 hx ho
  construction h hx ho := construction (h.2.2 _ rfl) h.1 h.2.1 hx ho

theorem rooted (h : ∀ name, J.arises [] (.service name)) : J.contract.Rooted :=
  fun name => ⟨h name, .root, by rintro _ ⟨⟩⟩

end Judgement

end Wiring
