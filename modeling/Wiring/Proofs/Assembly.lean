import Mathlib.Order.WellFoundedSet
import Wiring.Proofs.NameMatching
import Wiring.Proofs.PrivateBodies
import Wiring.Proofs.Traversal

namespace Wiring

open Relation (ReflTransGen TransGen)

variable {C : Client} {I : Implementation C} {w v v' v₁ : World C} {c : ContainerId}
  {parameters : String → List Parameter} {S : Stack} {inst : String → Instance}

namespace World

def wanted (w : World C) (c : ContainerId) (parameters : String → List Parameter) (name : String) :
    List String :=
  if (w.entry? c name).isSome then (parameters name).map (·.name) else []

theorem mem_wanted {x y : String} : y ∈ w.wanted c parameters x ↔ w.Depends c parameters x y := by
  unfold wanted Depends
  split <;> simp_all

/-- All services are shared, and declare these parameters, which are untyped and named after
services. No service depends on itself. From arguments of the right types the bodies make an
instance of the declared type, and they use nothing but their arguments. -/
structure Composed (I : Implementation C) (w : World C) (c : ContainerId)
    (parameters : String → List Parameter) : Prop where
  shared {name : String} {e : EntryId} {x : Entry C} (h : w.entry? c name = some (e, x)) :
    x.registration.shared = true
  declares {name : String} {e : EntryId} {x : Entry C} (h : w.entry? c name = some (e, x)) :
    x.registration.logic.Declares I (· = .ok (parameters name))
  untyped {name : String} {p : Parameter} (h : (w.entry? c name).isSome)
    (hp : p ∈ parameters name) : p.declared = .untyped
  named {name : String} {p : Parameter} (h : (w.entry? c name).isSome)
    (hp : p ∈ parameters name) : (w.entry? c p.name).isSome
  acyclic (name : String) : ¬ TransGen (w.Depends c parameters) name name
  makes {name : String} {e : EntryId} {x : Entry C} {args : Arguments}
    (h : w.entry? c name = some (e, x)) (ha : args.Named w c name (parameters name)) :
    x.registration.logic.Makes I c args (· = .ok x.registration.provides)

structure Assembled (w : World C) (c : ContainerId) (done : List String) (v : World C) : Prop where
  agrees : w.Agrees v
  has {x : String} (h : x ∈ done) : ∃ e y i, w.entry? c x = some (e, y) ∧ v.cached e = some i ∧
    i.type = y.registration.provides
  only {e : EntryId} {i : Instance} (h : v.cached e = some i) :
    ∃ x ∈ done, ∃ y, w.entry? c x = some (e, y)

def Shows (w : World C) (c : ContainerId) (v : World C) (inst : String → Instance) : Prop :=
  ∀ x e y i, w.entry? c x = some (e, y) → v.cached e = some i → inst x = i

def bodyOf? (w : World C) (c : ContainerId) (parameters : String → List Parameter)
    (inst : String → Instance) (x : String) : Option (Call C) :=
  (w.entry? c x).bind fun (_, y) =>
    y.registration.logic.body? c ⟨x, (parameters x).map fun p => (p.name, inst p.name)⟩

structure Builds (w : World C) (c : ContainerId) (parameters : String → List Parameter)
    (done goals : List String) (v : World C) (ds : List (Deed C)) (new : List String)
    (v' : World C) : Prop where
  visits : Visits (w.wanted c parameters) goals done new
  assembled : w.Assembled c (done ++ new) v'
  keeps {e : EntryId} {i : Instance} (h : v.cached e = some i) : v'.cached e = some i
  runs {inst : String → Instance} (h : w.Shows c v' inst) :
    bodies ds = new.filterMap (w.bodyOf? c parameters inst)

theorem Assembled.type {done : List String} {x : String} {e : EntryId} {y : Entry C}
    {i : Instance} (h : w.Assembled c done v) (hx : w.entry? c x = some (e, y))
    (hi : v.cached e = some i) : i.type = y.registration.provides := by
  obtain ⟨x', hx', y', he⟩ := h.only hi
  obtain ⟨e', y'', i', he', hi', ht⟩ := h.has hx'
  cases he.symm.trans he'
  cases hi.symm.trans hi'
  have hy := (entry?_eq_some.1 hx).2.symm.trans (entry?_eq_some.1 he).2
  rw [Option.some.inj hy, ht]

namespace Builds

variable {done goals goals' new new' : List String} {ds ds' : List (Deed C)}

theorem none (h : w.Assembled c done v) : w.Builds c parameters done [] v [] [] v where
  visits := .nil
  assembled := by rwa [List.append_nil]
  keeps h := h
  runs _ := rfl

theorem trans (h : w.Builds c parameters done goals v ds new v₁)
    (h' : w.Builds c parameters (done ++ new) goals' v₁ ds' new' v') :
    w.Builds c parameters done (goals ++ goals') v (ds ++ ds') (new ++ new') v' where
  visits := h.visits.append h'.visits
  assembled := by
    rw [← List.append_assoc]
    exact h'.assembled
  keeps hi := h'.keeps (h.keeps hi)
  runs hs := by
    have hs' := h.runs fun x e y i hx hi => hs x e y i hx (h'.keeps hi)
    rw [bodies_append, List.filterMap_append, hs', h'.runs hs]

end Builds

def Gets (I : Implementation C) (w : World C) (c : ContainerId)
    (parameters : String → List Parameter) (x : String) : Prop :=
  ∀ S v done, w.Assembled c done v →
    (∀ y, ReflTransGen (w.Depends c parameters) x y → (c, .service y) ∉ S) →
    ∃ ds new i v' e y, Responds I S v (.service c x ∅) ds (.ok i) v' ∧
      w.Builds c parameters done [x] v ds new v' ∧ w.entry? c x = some (e, y) ∧
      v'.cached e = some i

section

variable {done : List String} {target : String} {position : ℕ} {p : Parameter}

theorem Gets.fill (hg : w.Gets I c parameters p.name) (hu : p.declared = .untyped)
    (ha : w.Assembled c done v)
    (hfree : ∀ y, ReflTransGen (w.Depends c parameters) p.name y →
      (c, .service y) ∉ S) :
    ∃ ds new i v' e y, Evaluates I S v (fill c target ∅ position p) ds (.ok i) v' ∧
      w.Builds c parameters done [p.name] v ds new v' ∧ w.entry? c p.name = some (e, y) ∧
      v'.cached e = some i := by
  obtain ⟨ds, new, i, v', e, y, hr, hb, he, hi⟩ := hg S v done ha hfree
  have hlook : (v.entry? c p.name).isSome := by
    obtain ⟨z, hz, -⟩ := ha.agrees.symm.entry? he
    rw [hz]
    rfl
  have htype : p.type? = none := by rw [Parameter.type?, hu]
  have hnone : Overrides.lookup ∅ position p.name = none := rfl
  obtain ⟨hchosen, hinquiry⟩ := Parameter.chosen_untyped (S := S) hnone htype hlook
  have hfollow : Evaluates I S v ((p.chosen v c S ∅ position).follow c target position p)
      (.access (.emit (.matchedByName target p.name)) :: .ask (.service c p.name ∅) :: ds)
      (.ok i) v' := by
    rw [hchosen]
    exact .act (access_emit _) rfl (.request hr)
  refine ⟨_, new, i, v', e, y, .fill hfollow, ⟨hb.visits, hb.assembled, hb.keeps, ?_⟩, he, hi⟩
  intro inst hs
  rw [hinquiry]
  exact hb.runs hs

theorem Gets.fillFrom (target : String) (position : ℕ) {ps : List Parameter}
    (hg : ∀ p ∈ ps, w.Gets I c parameters p.name) (hu : ∀ p ∈ ps, p.declared = .untyped)
    (ha : w.Assembled c done v)
    (hfree : ∀ p ∈ ps, ∀ y, ReflTransGen (w.Depends c parameters) p.name y →
      (c, .service y) ∉ S) :
    ∃ ds new values v', Evaluates I S v (fillFrom c target ∅ position ps) ds (.ok values) v' ∧
      w.Builds c parameters done (ps.map (·.name)) v ds new v' ∧
      values.map Prod.fst = ps.map (·.name) ∧
      ∀ a ∈ values, ∃ e y, w.entry? c a.1 = some (e, y) ∧ v'.cached e = some a.2 := by
  induction ps generalizing v done position with
  | nil => exact ⟨[], [], [], v, .done, .none ha, rfl, nofun⟩
  | cons p ps ih =>
    obtain ⟨ds, new, i, v₁, e, y, he, hb, hy, hi⟩ := (hg p List.mem_cons_self).fill
      (hu p List.mem_cons_self) ha (hfree p List.mem_cons_self)
    obtain ⟨ds', new', values, v', he', hb', hnames, hvalues⟩ := ih (position + 1)
      (fun q hq => hg q (List.mem_cons_of_mem p hq)) (fun q hq => hu q (List.mem_cons_of_mem p hq))
      hb.assembled fun q hq => hfree q (List.mem_cons_of_mem p hq)
    refine ⟨_, _, _, v', he.fillFrom_cons he', hb.trans hb', by simp [hnames], ?_⟩
    rintro a (_ | ⟨_, hmem⟩)
    · exact ⟨e, y, hy, hb'.keeps hi⟩
    · exact hvalues a hmem

end

namespace Composed

theorem induct (h : w.Composed I c parameters) {P : String → Prop}
    (hP : ∀ x, (w.entry? c x).isSome → (∀ p ∈ parameters x, P p.name) → P x) {x : String}
    (hx : (w.entry? c x).isSome) : P x := by
  let r (a b : String) : Prop := TransGen (w.Depends c parameters) b a
  have hstrict : IsStrictOrder String r :=
    { irrefl := h.acyclic
      trans := fun _ _ _ h h' => h'.trans h }
  have hfinite : {x | (w.entry? c x).isSome}.Finite := by
    refine ((w.services c).keys.finite_toSet).subset fun x hx => ?_
    obtain ⟨⟨e, y⟩, he⟩ := Option.isSome_iff_exists.1 hx
    refine (Table.mem_keys_iff _ _).2 ?_
    rw [Table.contains, (entry?_eq_some.1 he).1]
    rfl
  refine (hfinite.wellFoundedOn (r := r)).induction hx fun x hx ih => ?_
  exact hP x hx fun p hp => ih p.name (h.named hx hp) (.single ⟨hx, p, hp, rfl⟩)

theorem visits_acyclic (h : w.Composed I c parameters) (x : String) :
    ¬ TransGen (fun a b => b ∈ w.wanted c parameters a) x x := by
  have heq : (fun a b => b ∈ w.wanted c parameters a) = w.Depends c parameters :=
    funext fun _ => funext fun _ => propext mem_wanted
  rw [heq]
  exact h.acyclic x

end Composed

theorem Assembled.untouched {done : List String} (h : w.Assembled c done v) (hv : v.Untouched v') :
    w.Assembled c done v' where
  agrees := h.agrees.trans hv.agrees
  has hx := by
    simp only [hv.cached]
    exact h.has hx
  only hi := h.only (hv.cached _ ▸ hi)

theorem Agrees.lt_length {x : String} {e : EntryId} {y : Entry C} (h : w.Agrees v)
    (hx : w.entry? c x = some (e, y)) : e < v.entries.length := by
  obtain ⟨z, hz, -⟩ := h.symm.entry? hx
  exact (List.getElem?_eq_some_iff.1 (entry?_eq_some.1 hz).2).1

theorem Assembled.setCache {done : List String} {x : String} {e : EntryId} {y : Entry C}
    {i : Instance} (h : w.Assembled c done v) (hx : w.entry? c x = some (e, y))
    (hnone : v.cached e = none) (hi : i.type = y.registration.provides) :
    w.Assembled c (done ++ [x]) (v.setCache e i) := by
  refine ⟨h.agrees.trans (.setCache _ _ _), fun {x'} hx' => ?_, fun {e' j} hj => ?_⟩
  · obtain hx' | hx' := List.mem_append.1 hx'
    · obtain ⟨e', y', j, he', hj, ht⟩ := h.has hx'
      exact ⟨e', y', j, he', (Develops.setCache hnone).cached _ _ hj, ht⟩
    · obtain rfl := List.mem_singleton.1 hx'
      refine ⟨e, y, i, hx, ?_, hi⟩
      rw [cached_setCache, if_pos ⟨rfl, h.agrees.lt_length hx⟩]
  · rw [cached_setCache] at hj
    split at hj
    · next heq => exact ⟨x, by simp, y, heq.1 ▸ hx⟩
    · obtain ⟨x', hx', y', he'⟩ := h.only hj
      exact ⟨x', List.mem_append_left _ hx', y', he'⟩

theorem Assembled.named {done : List String} (target : String) {ps : List Parameter}
    {values : List (String × Instance)} (h : w.Assembled c done v)
    (hnames : values.map Prod.fst = ps.map (·.name))
    (hvalues : ∀ a ∈ values, ∃ e y, w.entry? c a.1 = some (e, y) ∧ v.cached e = some a.2) :
    Arguments.Named w c target ps ⟨target, values⟩ where
  target := rfl
  names := hnames
  types {name i} hmem := by
    obtain ⟨e, y, he, hi⟩ := hvalues (name, i) hmem
    exact ⟨e, y, he, h.type he hi⟩

theorem Shows.values {ps : List Parameter} {values : List (String × Instance)}
    (h : w.Shows c v inst) (hnames : values.map Prod.fst = ps.map (·.name))
    (hvalues : ∀ a ∈ values, ∃ e y, w.entry? c a.1 = some (e, y) ∧ v.cached e = some a.2) :
    values = ps.map fun p => (p.name, inst p.name) := by
  have hinst : ∀ a ∈ values, a = (a.1, inst a.1) := by
    intro a ha
    obtain ⟨e, y, he, hi⟩ := hvalues a ha
    rw [h a.1 e y a.2 he hi]
  calc values = values.map id := (List.map_id _).symm
    _ = values.map fun a => (a.1, inst a.1) := List.map_congr_left hinst
    _ = (values.map Prod.fst).map fun name => (name, inst name) := by rw [List.map_map]; rfl
    _ = ps.map fun p => (p.name, inst p.name) := by rw [hnames, List.map_map]; rfl

namespace Composed

variable {x : String} {e : EntryId} {y : Entry C} {done : List String}

theorem wanted_eq (hx : (w.entry? c x).isSome) :
    w.wanted c parameters x = (parameters x).map (·.name) := if_pos hx

theorem builds (h : w.Composed I c parameters) (he : w.entry? c x = some (e, y))
    (hg : ∀ p ∈ parameters x, w.Gets I c parameters p.name) (ha : w.Assembled c done v)
    (hfree : ∀ p ∈ parameters x, ∀ z, ReflTransGen (w.Depends c parameters) p.name z →
      (c, .service z) ∉ S) :
    ∃ ds new i v', Evaluates I S v (build c x y.registration ∅) ds (.ok i) v' ∧
      i.type = y.registration.provides ∧
      Visits (w.wanted c parameters) (w.wanted c parameters x) done new ∧
      w.Assembled c (done ++ new) v' ∧
      (∀ e i, v.cached e = some i → v'.cached e = some i) ∧
      ∀ inst, w.Shows c v' inst →
        bodies ds = (new ++ [x]).filterMap (w.bodyOf? c parameters inst) := by
  have hx : (w.entry? c x).isSome := by rw [he]; rfl
  obtain ⟨ds₁, _, v₁, hp, rfl, hv₁, hbs₁⟩ := (h.declares he).ends S v
  obtain ⟨ds₂, new, values, v₂, hf, hb, hnames, hvalues⟩ :=
    Gets.fillFrom x 0 hg (fun p hp => h.untyped hx hp) (ha.untouched hv₁) hfree
  have hargs := hb.assembled.named x hnames hvalues
  obtain ⟨ds₃, r, v₃, hi, hr, hv₃, hbs₃⟩ := (h.makes he hargs).ends y.registration.shared S v₂
  obtain ⟨i, rfl, ht⟩ : ∃ i, r = .ok i ∧ i.type = y.registration.provides := by
    cases r with
    | error f => cases hr
    | ok i => exact ⟨i, rfl, Except.ok.inj hr⟩
  refine ⟨_, new, i, v₃, .build hp hf hi ht, ht, wanted_eq hx ▸ hb.visits,
    hb.assembled.untouched hv₃, fun e' j hj => ?_, fun inst hs => ?_⟩
  · rw [hv₃.cached]
    exact hb.keeps (hv₁.cached e' ▸ hj)
  · have hs₂ : w.Shows c v₂ inst := fun z e' y' j hz hj => hs z e' y' j hz (hv₃.cached e' ▸ hj)
    have hvals := hs₂.values hnames hvalues
    have hbody : w.bodyOf? c parameters inst x =
        y.registration.logic.body? c ⟨x, values⟩ := by
      rw [bodyOf?, he, hvals]
      rfl
    rw [bodies_access, bodies_append, bodies_append, hbs₁, hb.runs hs₂, hbs₃,
      List.filterMap_append, List.nil_append, ← hbody]
    cases hbody : w.bodyOf? c parameters inst x <;> simp [hbody]

theorem gets_of_wanted (h : w.Composed I c parameters)
    (hown : ∀ {x x' e y y'}, w.entry? c x = some (e, y) → w.entry? c x' = some (e, y') → x = x')
    (hx : (w.entry? c x).isSome) (hg : ∀ p ∈ parameters x, w.Gets I c parameters p.name) :
    w.Gets I c parameters x := by
  intro S v done ha hfree
  obtain ⟨⟨e, y⟩, he⟩ := Option.isSome_iff_exists.1 hx
  obtain ⟨y', he', hreg⟩ := ha.agrees.symm.entry? he
  have hshared : y'.registration.shared = true := hreg ▸ h.shared he
  -- What was built before is had from its cache; otherwise just this service comes last.
  by_cases hd : x ∈ done
  · obtain ⟨e', y'', i, he'', hi, -⟩ := ha.has hd
    cases he.symm.trans he''
    refine ⟨[], [], i, v, e, y, .settled (opening_cached he' hshared hi),
      ⟨.seen hd .nil, ?_, id, fun _ => rfl⟩, he, hi⟩
    rwa [List.append_nil]
  · have hmiss : ∀ done' v', w.Assembled c done' v' → x ∉ done' → v'.cached e = none := by
      intro done' v' ha' hd'
      refine Option.eq_none_iff_forall_ne_some.2 fun i hi => ?_
      obtain ⟨x', hx', y'', he''⟩ := ha'.only hi
      exact hd' (hown he he'' ▸ hx')
    have hdep : ∀ p ∈ parameters x, ∀ z, ReflTransGen (w.Depends c parameters) p.name z →
        TransGen (w.Depends c parameters) x z := fun p hp z hz => .head' ⟨hx, p, hp, rfl⟩ hz
    obtain ⟨ds, new, i, v₁, hbuild, ht, hvisits, ha₁, hkeeps, hruns⟩ := h.builds
      (S := S.enter c (.service x)) he hg ha fun p hp z hz hmem => by
        obtain heq | hmem := List.mem_cons.1 hmem
        · cases heq
          exact h.acyclic x (hdep p hp x hz)
        · exact hfree z (hdep p hp z hz).to_reflTransGen hmem
    have hfresh : x ∉ done ++ new := by
      intro hmem
      obtain hmem | hmem := List.mem_append.1 hmem
      · exact hd hmem
      · obtain ⟨z, hz, hr⟩ := hvisits.reached hmem
        exact h.visits_acyclic x (.head' hz hr)
    have hnone := hmiss _ _ ha₁ hfresh
    have hkeep : v₁.keep (some e) (.ok i) = (.ok i, v₁.setCache e i) := by
      rw [keep, hnone]
    have hagain := ha₁.setCache he hnone ht
    have hlast : ∀ e' j, v₁.cached e' = some j → (v₁.setCache e i).cached e' = some j :=
      (Develops.setCache hnone).cached
    rw [← hreg] at hbuild
    refine ⟨ds, new ++ [x], i, v₁.setCache e i, e, y,
      .entered (opening_uncached he' hshared (hmiss _ _ ha hd) (hfree x .refl)) hbuild hkeep,
      ⟨hvisits.single hd, ?_, fun hj => hlast _ _ (hkeeps _ _ hj), fun {inst} hs => ?_⟩, he, ?_⟩
    · rwa [← List.append_assoc]
    · exact hruns inst fun z e' y' j hz hj => hs z e' y' j hz (hlast _ _ hj)
    · rw [cached_setCache, if_pos ⟨rfl, ha₁.agrees.lt_length he⟩]

theorem gets (h : w.Composed I c parameters)
    (hown : ∀ {x x' e y y'}, w.entry? c x = some (e, y) → w.entry? c x' = some (e, y') → x = x')
    (hx : (w.entry? c x).isSome) : w.Gets I c parameters x :=
  h.induct (fun _ hx hg => h.gets_of_wanted hown hx hg) hx

end Composed

theorem assembled_nil (h : ∀ e, w.cached e = none) : w.Assembled c [] w where
  agrees := ⟨rfl, rfl⟩
  has := nofun
  only hi := nomatch (h _).symm.trans hi

theorem exists_shows (w : World C) (c : ContainerId) (v : World C) : ∃ inst, w.Shows c v inst := by
  refine ⟨fun x => ((w.entry? c x).bind fun (e, _) => v.cached e).getD ⟨.of "", 0⟩, ?_⟩
  intro x e y i he hi
  simp only [he, Option.bind_some, hi, Option.getD_some]

end World

theorem Machine.Located.name_eq {m : Machine C} (h : m.Located) {x x' : String} {e : EntryId}
    {y y' : Entry C} (hx : m.world.entry? c x = some (e, y))
    (hx' : m.world.entry? c x' = some (e, y')) : x = x' := by
  obtain ⟨place, hplace, -⟩ := h
  obtain ⟨-, hp⟩ := hplace c x e (World.entry?_eq_some.1 hx).1
  obtain ⟨-, hp'⟩ := hplace c x' e (World.entry?_eq_some.1 hx').1
  exact congrArg BuildKey.name (hp.symm.trans hp')

/-- On a single thread, a request for a service of such a registry whose caches are empty succeeds.
It builds just the services that can be reached from the root, each once and after those that it
takes, in the order of a depth-first traversal: it runs their bodies in this order, each with the
instances that are kept in the end. -/
theorem Run.builds_once (σ : Run I) (c : ContainerId) (parameters : String → List Parameter)
    (L : Scope C) (next : Except Error Instance → Program C L.Answer) (n : ℕ) (root : String)
    (hone : (σ.state n).threads.length = 1) (hfair : σ.Attends 0)
    (ha : (σ.state n).activity 0 = L.runs (.resolve (.service c root ∅) next))
    (hw : (σ.state n).world.Composed I c parameters)
    (hcold : ∀ e, (σ.state n).world.cached e = none)
    (hroot : ((σ.state n).world.entry? c root).isSome)
    (hfree : ∀ x, ReflTransGen ((σ.state n).world.Depends c parameters) root x →
      (c, .service x) ∉ (σ.state n).stack 0) :
    ∃ k l order inst, n ≤ k ∧
      σ.Requests 0 L (.service c root ∅) next k (.ok (inst root)) l ∧
      order.Nodup ∧
      (∀ x, x ∈ order ↔ ReflTransGen ((σ.state n).world.Depends c parameters) root x) ∧
      ChildrenFirst ((σ.state n).world.wanted c parameters) order ∧
      Visits ((σ.state n).world.wanted c parameters) [root] [] order ∧
      bodies (σ.deeds 0 (k + 1) l) =
        order.filterMap ((σ.state n).world.bodyOf? c parameters inst) ∧
      ∀ e i, (σ.state l).world.cached e = some i ↔
        ∃ x ∈ order, i = inst x ∧ ∃ y, (σ.state n).world.entry? c x = some (e, y) := by
  let w := (σ.state n).world.settled
  have hw : w.Composed I c parameters :=
    ⟨hw.shared, hw.declares, hw.untyped, hw.named, hw.acyclic,
      fun he ha => hw.makes he ⟨ha.target, ha.names, ha.types⟩⟩
  have hown := @Machine.Located.name_eq _ c _ (σ.reachable n).located
  have hstack := insides_eq_stack ha
  obtain ⟨ds, order, i, v', e, y, hr, hb, he, hi⟩ := hw.gets hown hroot _ w []
    (World.assembled_nil hcold) (hstack ▸ hfree)
  obtain ⟨k, l, hk, -, hreq, hds, -, hworld⟩ := hr.requests hfair ⟨hone, rfl, ha⟩
  obtain ⟨inst, hinst⟩ := w.exists_shows c v'
  have hvisits := hb.visits
  have hreach : (fun a b => b ∈ w.wanted c parameters a) = w.Depends c parameters :=
    funext fun _ => funext fun _ => propext World.mem_wanted
  have hassembled := hb.assembled
  rw [List.nil_append] at hassembled
  have hcached : ∀ e, (σ.state l).world.cached e = v'.cached e := by
    intro e
    have hsettled := congrArg (fun v : World C => v.cached e) (hreq.settled.symm.trans hworld)
    exact hsettled
  refine ⟨k, l, order, inst, hk, hinst root e y i he hi ▸ hreq, ?_, fun x => ?_, ?_, hvisits, ?_,
    fun e' j => ⟨fun hj => ?_, ?_⟩⟩
  · exact hvisits.nodup hw.visits_acyclic List.nodup_nil
  · rw [hvisits.mem_iff, hreach]
    exact ⟨fun ⟨z, hz, hx⟩ => List.mem_singleton.1 hz ▸ hx, fun hx => ⟨root, by simp, hx⟩⟩
  · exact hvisits.childrenFirst (by intro b x a hl; simp at hl)
  · rw [hds]
    exact hb.runs hinst
  · rw [hcached] at hj
    obtain ⟨x, hx, y', he'⟩ := hassembled.only hj
    exact ⟨x, hx, (hinst x e' y' j he' hj).symm, y', he'⟩
  · rintro ⟨x, hx, rfl, y', he'⟩
    obtain ⟨e'', y'', j, he'', hj, -⟩ := hassembled.has hx
    cases he'.symm.trans he''
    rw [hcached, hinst x e' y' j he' hj, hj]

namespace World

def diamondParameters (name : String) : List Parameter :=
  if name = "top" then
    [⟨"left", .untyped, none⟩, ⟨"right", .untyped, none⟩, ⟨"left", .untyped, none⟩]
  else if name = "left" ∨ name = "right" then [⟨"base", .untyped, none⟩]
  else []

def diamond : World Client.plain :=
  ofServices () (["top", "left", "right", "base", "spare"].map fun name =>
    (name, ⟨true, .made (.of name) (diamondParameters name) ()⟩))

theorem diamond_entry {name : String} {e : EntryId} {x : Entry Client.plain}
    (h : World.entry? diamond 0 name = some (e, x)) :
    x.registration = ⟨true, .made (.of name) (diamondParameters name) ()⟩ := by
  have hmem := mem_ofServices h
  obtain ⟨other, -, heq⟩ := List.mem_map.1 hmem
  obtain ⟨rfl, hx⟩ := Prod.mk.inj heq
  exact hx.symm

def height (name : String) : ℕ :=
  if name = "top" then 2 else if name = "left" ∨ name = "right" then 1 else 0

theorem diamond_depends {x y : String} (h : diamond.Depends 0 diamondParameters x y) :
    height y < height x ∧ y ∈ ["left", "right", "base"] := by
  obtain ⟨-, p, hp, rfl⟩ := h
  unfold diamondParameters at hp
  split at hp
  · next hx => 
    subst hx
    simp only [List.mem_cons, List.not_mem_nil, or_false] at hp
    obtain rfl | rfl | rfl := hp <;> decide
  · split at hp
    · next hx =>
      obtain rfl := List.mem_singleton.1 hp
      obtain rfl | rfl := hx <;> decide
    · cases hp

theorem diamond_composed : diamond.Composed .plain 0 diamondParameters where
  shared h := by rw [diamond_entry h]
  declares h := by
    rw [diamond_entry h]
    rfl
  untyped _ hp := by
    unfold diamondParameters at hp
    split at hp
    · simp only [List.mem_cons, List.not_mem_nil, or_false] at hp
      obtain rfl | rfl | rfl := hp <;> rfl
    · split at hp
      · rw [List.mem_singleton.1 hp]
      · cases hp
  named h hp := by
    obtain ⟨-, hmem⟩ := diamond_depends ⟨h, _, hp, rfl⟩
    simp only [List.mem_cons, List.not_mem_nil, or_false] at hmem
    obtain heq | heq | heq := hmem <;> rw [heq] <;> rfl
  acyclic name h := by
    have hlt : ∀ y, TransGen (diamond.Depends 0 diamondParameters) name y →
        height y < height name := by
      intro y hy
      induction hy with
      | single h => exact (diamond_depends h).1
      | tail _ h ih => exact (diamond_depends h).1.trans ih
    exact Nat.lt_irrefl _ (hlt name h)
  makes h _ := by
    rw [diamond_entry h]
    exact .ended (r := .ok (Value.text "")) rfl

theorem diamond_visits : Visits (diamond.wanted 0 diamondParameters) ["top"] []
    ["base", "left", "right", "top"] := by
  let children := diamond.wanted 0 diamondParameters
  have hnone : Visits children (children "base") [] [] := .nil
  have hbase : Visits children (children "left") [] ["base"] := hnone.single List.not_mem_nil
  have hleft : Visits children ["left"] [] ["base", "left"] := hbase.single List.not_mem_nil
  have hseen : Visits children (children "right") ["base", "left"] [] := .seen (by decide) .nil
  have hright : Visits children ["right"] ["base", "left"] ["right"] := hseen.single (by decide)
  have hrest : Visits children ["right", "left"] ["base", "left"] ["right"] :=
    hright.append (.seen (by decide) .nil)
  have htop : Visits children (children "top") [] ["base", "left", "right"] := hleft.append hrest
  exact htop.single List.not_mem_nil

end World

namespace Run

def diamond : Run Implementation.plain :=
  alone .diamond (World.ofServices_unbuilt _ _) ((Container.get 0 "top").bind fun _ => .done ())

theorem builds_once_diamond :
    ∃ next k l, ∃ inst : String → Instance,
      diamond.Requests 0 .own (.service 0 "top" ∅) next k (.ok (inst "top")) l ∧
      bodies (diamond.deeds 0 (k + 1) l) =
        [.make () 0 ⟨"base", []⟩,
          .make () 0 ⟨"left", [("base", inst "base")]⟩,
          .make () 0 ⟨"right", [("base", inst "base")]⟩,
          .make () 0 ⟨"top", [("left", inst "left"), ("right", inst "right"),
            ("left", inst "left")]⟩] ∧
      (diamond.state l).world.cached 4 = none := by
  have hfree : ∀ x,
      ReflTransGen ((diamond.state 1).world.Depends 0 World.diamondParameters) "top" x →
        (0, .service x) ∉ (diamond.state 1).stack 0 := fun x _ => by
    have hstack : (diamond.state 1).stack 0 = [] := rfl
    rw [hstack]
    exact List.not_mem_nil
  obtain ⟨k, l, order, inst, -, hr, -, -, -, hvisits, hbodies, hcached⟩ :=
    builds_once diamond 0 World.diamondParameters .own
      (fun a => (Program.ofExcept a).bind fun _ => .done ()) 1 "top" rfl
      (along_attends _ _ _) rfl World.diamond_composed (World.ofServices_unbuilt _ _).uncached rfl
      hfree
  have horder : order = ["base", "left", "right", "top"] := by
    exact hvisits.unique World.diamond_visits
  subst horder
  refine ⟨_, k, l, inst, hr, ?_, ?_⟩
  · rw [hbodies]
    rfl
  · refine Option.eq_none_iff_forall_ne_some.2 fun i hi => ?_
    obtain ⟨x, hx, -, y, he⟩ := (hcached 4 i).1 hi
    simp only [List.mem_cons, List.not_mem_nil, or_false] at hx
    obtain rfl | rfl | rfl | rfl := hx <;> cases (World.entry?_eq_some.1 he).1

end Run

end Wiring
