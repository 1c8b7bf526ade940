import Wiring.Proofs.PlanFailures

namespace Wiring

open Machine
open Relation (ReflTransGen TransGen)

variable {C : Client} {I : Implementation C} {w : World C} {c : ContainerId}
  {parameters : String → List Parameter}

def Growth.any : Growth := ⟨fun _ _ => True, fun _ => trivial, fun _ _ => trivial⟩

def Program.Returns {α : Type} (I : Implementation C) (p : Program C α) (P : α → Prop) : Prop :=
  ∀ o, Behaves I Growth.any.alone (fun r _ => ∃ a, r = .ok a ∧ P a) p o

structure Arguments.Named (w : World C) (c : ContainerId) (target : String)
    (parameters : List Parameter) (args : Arguments) : Prop where
  target : args.target = target
  names : args.values.map Prod.fst = parameters.map (·.name)
  types {name : String} {i : Instance} (h : (name, i) ∈ args.values) :
    ∃ e x, w.entry? c name = some (e, x) ∧ i.type = x.registration.provides

namespace World

/-- The services declare these parameters, which are untyped and named after services, and from
arguments of the right types they always come to an instance of the declared type. -/
structure NameMatched (I : Implementation C) (w : World C) (c : ContainerId)
    (parameters : String → List Parameter) : Prop where
  declares {name : String} {e : EntryId} {x : Entry C} (h : w.entry? c name = some (e, x)) :
    x.registration.logic.parameters.Returns I (· = parameters name)
  untyped {name : String} {p : Parameter} (h : (w.entry? c name).isSome)
    (hp : p ∈ parameters name) : p.declared = .untyped
  named {name : String} {p : Parameter} (h : (w.entry? c name).isSome)
    (hp : p ∈ parameters name) : (w.entry? c p.name).isSome
  returns {name : String} {e : EntryId} {x : Entry C} {args : Arguments}
    (h : w.entry? c name = some (e, x)) (ha : args.Named w c name (parameters name)) :
    (x.registration.logic.invoke x.registration.shared c args).Returns I
      (·.type = x.registration.provides)

def Depends (w : World C) (c : ContainerId) (parameters : String → List Parameter)
    (x y : String) : Prop :=
  (w.entry? c x).isSome ∧ ∃ p ∈ parameters x, p.name = y

structure Cycle (w : World C) (c : ContainerId) (parameters : String → List Parameter)
    (chain : List String) : Prop where
  length : 2 ≤ chain.length
  closed : chain.head? = chain.getLast?
  distinct : chain.tail.Nodup
  linked : chain.IsChain (w.Depends c parameters)

namespace Cycle

variable {chain : List String} {n n' : String}

theorem depends (h : w.Cycle c parameters chain) (hn : chain.head? = some n) :
    TransGen (w.Depends c parameters) n n := by
  obtain ⟨hlen, hclosed, -, hlinked⟩ := h
  obtain _ | ⟨a, _ | ⟨b, rest⟩⟩ := chain
  · cases hn
  · simp at hlen
  · obtain rfl : a = n := Option.some.inj hn
    obtain ⟨hab, hrest⟩ := List.isChain_cons_cons.1 hlinked
    refine .head' hab (List.relationReflTransGen_of_exists_isChain_cons rest hrest ?_)
    rw [hn, List.getLast?_cons_cons, List.getLast?_eq_some_getLast (List.cons_ne_nil b rest)]
      at hclosed
    exact (Option.some.inj hclosed).symm

theorem exists_head (h : w.Cycle c parameters chain) : ∃ n, chain.head? = some n := by
  obtain _ | ⟨n, rest⟩ := chain
  · exact absurd h.length (by simp)
  · exact ⟨n, rfl⟩

theorem reaches (h : w.Cycle c parameters chain) (hn : chain.head? = some n) (hn' : n' ∈ chain) :
    ReflTransGen (w.Depends c parameters) n n' := by
  obtain _ | ⟨a, rest⟩ := chain
  · cases hn
  · obtain rfl : a = n := Option.some.inj hn
    have hpair := List.isChain_iff_pairwise.1 (h.linked.imp fun _ _ => ReflTransGen.single)
    obtain _ | ⟨_, hrest⟩ := hn'
    · exact .refl
    · exact (List.pairwise_cons.1 hpair).1 n' hrest

end Cycle

def namedPlan (w : World C) (c : ContainerId) (parameters : String → List Parameter) :
    Plan TypeKey where
  sources
    | .service name =>
      if (w.entry? c name).isSome then
        (parameters name).map fun p => .target (.service p.name)
      else []
    | .class _ => []
  ready i := i.type
  result
    | .service name, _ =>
      match w.entry? c name with
      | some (_, x) => .ok x.registration.provides
      | none => .error (.error (.serviceNotFound name))
    | .class type, _ => .ok type

section

variable {x y : Item} {n n' : String} {d : TypeKey}

theorem namedPlan_needs :
    (w.namedPlan c parameters).Needs x y ↔
      ∃ n n', x = .service n ∧ y = .service n' ∧ w.Depends c parameters n n' := by
  cases x with
  | service name =>
    by_cases h : (w.entry? c name).isSome
    · simp only [Plan.Needs, namedPlan, Depends, h, if_true, List.mem_map]
      constructor
      · rintro ⟨p, hp, hy⟩
        exact ⟨name, p.name, rfl, (Source.target.inj hy).symm, h, p, hp, rfl⟩
      · rintro ⟨n, n', hn, rfl, -, p, hp, rfl⟩
        exact ⟨p, Item.service.inj hn ▸ hp, rfl⟩
    · simp [Plan.Needs, namedPlan, Depends, h]
  | «class» type => simp [Plan.Needs, namedPlan]

theorem namedPlan_not_refused : .refused ∉ (w.namedPlan c parameters).sources x := by
  cases x with
  | service name =>
    simp only [namedPlan]
    split <;> simp
  | «class» type => simp [namedPlan]

theorem namedPlan_makes (h : (w.namedPlan c parameters).Makes (.service n) d) :
    ∃ e x, w.entry? c n = some (e, x) ∧ d = x.registration.provides := by
  obtain ⟨as, -, hr⟩ := h
  simp only [namedPlan] at hr
  split at hr
  · next e x he => exact ⟨e, x, he, (Except.ok.inj hr).symm⟩
  · cases hr

def Alarmed (w : World C) (c : ContainerId) (parameters : String → List Parameter) (x : Item)
    (chain : List String) : Prop :=
  ∃ n, x = .service n ∧ chain.head? = some n ∧ w.Cycle c parameters chain

theorem namedPlan_path {S : List Item} (h : (w.namedPlan c parameters).Path x S) (hy : y ∈ S) :
    ∃ n, y = .service n := by
  obtain ⟨z, hyz, -⟩ := TransGen.head'_iff.1 (h.requests hy)
  obtain ⟨n, n', rfl, -⟩ := namedPlan_needs.1 hyz.needs
  exact ⟨n, rfl⟩

theorem namedPlan_clear {S : List Item} (h : (w.namedPlan c parameters).Path x S)
    (hx : x.Barred S) : x ∈ S := by
  obtain ⟨y, hy, hyx⟩ := List.mem_map.1 hx
  obtain ⟨n, rfl⟩ := namedPlan_path h hy
  cases x with
  | service name => exact hx.service
  | «class» type => cases hyx

theorem namedPlan_announced :
    Announced (w.namedPlan c parameters) c False (w.Alarmed c parameters) where
  again {x S chain} hp h := by
    have hreq : ∀ y z, (w.namedPlan c parameters).Requests y z →
        w.Depends c parameters y.target.label z.target.label := by
      intro y z hyz
      obtain ⟨n, n', rfl, rfl, hn⟩ := namedPlan_needs.1 hyz.needs
      exact hn
    obtain ⟨inner, rfl, hmem, hnodup, hchain⟩ := hp.cycle (namedPlan_clear hp) h
    obtain ⟨n, rfl⟩ := namedPlan_path hp (hmem x List.mem_cons_self)
    refine ⟨n, rfl, rfl, by simp, ?_, ?_, ?_⟩
    · rw [List.map_append, List.map_singleton, List.getLast?_concat]
      rfl
    · have hrot : (inner ++ [Item.service n]).Nodup :=
        (List.perm_append_singleton (.service n) inner).nodup_iff.2 hnodup
      refine List.Nodup.map_on ?_ hrot
      intro y hy z hz hyz
      obtain ⟨m, rfl⟩ := namedPlan_path hp (hmem y (by simpa [or_comm] using hy))
      obtain ⟨m', rfl⟩ := namedPlan_path hp (hmem z (by simpa [or_comm] using hz))
      exact congrArg _ hyz
    · exact List.isChain_map_of_isChain _ hreq hchain
  across hs := hs.elim

end

namespace NameMatched

variable (h : w.NameMatched I c parameters) {root : String}

theorem named_of_fills {name : String} {values : List (String × Instance)} {ps : List Parameter}
    {ds : List TypeKey} (hn : values.map Prod.fst = ps.map (·.name))
    (hv : List.Forall₂ (fun i d => i.type = d) (values.map Prod.snd) ds)
    (hd : (w.namedPlan c parameters).Fills (ps.map fun p => .target (.service p.name)) ds) :
    Arguments.Named w c name ps ⟨name, values⟩ where
  target := rfl
  names := hn
  types {n i} hmem := by
    induction values generalizing ps ds with
    | nil => cases hmem
    | cons a values ih =>
      cases ps with
      | nil => cases hn
      | cons p ps =>
        obtain ⟨hname, hn⟩ := List.cons.inj hn
        cases hd with
        | target hx hr hd =>
          cases hv with
          | cons htype hv =>
            obtain _ | ⟨_, hmem⟩ := hmem
            · obtain ⟨e, x, he, hd⟩ := namedPlan_makes ⟨_, hx, hr⟩
              exact ⟨e, x, (congrArg _ hname).trans he, htype.trans hd⟩
            · exact ih hn hv hd hmem

include h in
theorem source_eq {name : String} {p : Parameter} {S : Stack} (hs : (w.entry? c name).isSome)
    (hp : p ∈ parameters name) : p.source w c S = .target (.service p.name) := by
  have hu := h.untyped hs hp
  obtain ⟨⟨e, x⟩, he⟩ := Option.isSome_iff_exists.1 (h.named hs hp)
  have htype : p.type? = none := by rw [Parameter.type?, hu]
  simp [Parameter.source, Parameter.rule, Parameter.candidates, htype, Parameter.ofCandidates?,
    Parameter.fallback, he, Parameter.accepts, Rule.source]

def interpretation : Interpretation I w c TypeKey where
  toGrowth := Growth.any
  means _ i d := i.type = d
  plan := w.namedPlan c parameters
  signature
    | .service name => parameters name
    | .class _ => []
  lasts _ hm := hm
  missing hn := by simp [namedPlan, hn]
  sources := by
    rintro (name | type) S hk hp hx
    · have hs : (w.entry? c name).isSome := hk
      simp only [namedPlan, hs, if_true]
      exact List.map_congr_left fun p hp => h.source_eq hs hp
    · rfl
  ready _ := rfl
  parameters hs _ := (h.declares hs _).imp fun r o _ ⟨a, hr, ha⟩ => hr.trans (congrArg _ ha)
  manifest hk _ := by
    obtain ⟨x, hx⟩ := hk
    obtain ⟨n, n', -, hn, -⟩ := namedPlan_needs.1 hx
    cases hn
  invoke {name e x o args ds} hs _ hd ha := by
    obtain ⟨target, values⟩ := args
    obtain ⟨rfl, hn, hv⟩ := ha
    have hsome : (w.entry? c target).isSome := by rw [hs]; rfl
    simp only [namedPlan, hsome, if_true] at hd
    refine .bind ((h.returns hs (named_of_fills hn hv hd) o).imp ?_)
    rintro _ o' - ⟨i, rfl, hi⟩
    refine Behaves.ofExcept fun o'' _ => ?_
    simp [namedPlan, hs, Instance.cast, hi, Foreseen, Except.mapError]
  construct hk _ _ _ := by
    obtain ⟨x, hx⟩ := hk
    obtain ⟨n, n', -, hn, -⟩ := namedPlan_needs.1 hx
    cases hn

theorem acyclic_of_makes {d : TypeKey} (hd : (w.namedPlan c parameters).Makes (.service root) d) :
    ¬ ∃ n, ReflTransGen (w.Depends c parameters) root n ∧
      TransGen (w.Depends c parameters) n n := by
  rintro ⟨n, hn, hc⟩
  have hneeds : ∀ n n', w.Depends c parameters n n' →
      (w.namedPlan c parameters).Needs (.service n) (.service n') :=
    fun n n' hn => namedPlan_needs.2 ⟨n, n', rfl, rfl, hn⟩
  exact Plan.not_had_of_needs (hn.lift _ hneeds) (hc.lift _ hneeds) ⟨d, hd⟩

include h in
theorem cycle_of_fails {f : Failure} (hs : (w.entry? c root).isSome)
    (hf : (w.namedPlan c parameters).Fails (w.Alarmed c parameters) (.service root) f) :
    ∃ chain, f = .error (.circularDependency chain) ∧ w.Cycle c parameters chain ∧
      ∀ n ∈ chain, ReflTransGen (w.Depends c parameters) root n := by
  have hreach : ∀ y, ReflTransGen (w.namedPlan c parameters).Requests (.service root) y →
      ∃ n, y = .service n ∧ (w.entry? c n).isSome ∧
        ReflTransGen (w.Depends c parameters) root n := by
    intro y hy
    induction hy with
    | refl => exact ⟨root, rfl, hs, .refl⟩
    | tail _ hr ih =>
      obtain ⟨n, rfl, -, hn⟩ := ih
      obtain ⟨m, n', hm, rfl, hdep⟩ := namedPlan_needs.1 hr.needs
      cases hm
      obtain ⟨hsome, p, hp, rfl⟩ := hdep
      exact ⟨p.name, rfl, h.named hsome hp, hn.tail ⟨hsome, p, hp, rfl⟩⟩
  obtain ⟨y, chain, hy, ⟨n, rfl, hhead, hcycle⟩, rfl⟩ := hf.exists_cycle fun y hy => by
    obtain ⟨n, rfl, hn, -⟩ := hreach y hy
    obtain ⟨⟨e, x⟩, he⟩ := Option.isSome_iff_exists.1 hn
    exact ⟨namedPlan_not_refused, by simp [namedPlan, he]⟩
  obtain ⟨n', hn', -, hroot⟩ := hreach _ hy
  cases hn'
  exact ⟨chain, rfl, hcycle, fun m hm => hroot.trans (hcycle.reaches hhead hm)⟩

include h in
theorem namedPlan_ends (S : List Item) (x : Item) : (w.namedPlan c parameters).Ends S x := by
  refine Plan.ends_of_finite ((w.services c).keys.map .service) (fun x y hr => ?_) S x
  obtain ⟨n, n', -, rfl, hs, p, hp, rfl⟩ := namedPlan_needs.1 hr.needs
  obtain ⟨⟨e, x⟩, he⟩ := Option.isSome_iff_exists.1 (h.named hs hp)
  refine List.mem_map_of_mem ((Table.mem_keys_iff _ _).2 ?_)
  rw [Table.contains, (World.entry?_eq_some.1 he).1]
  rfl

/-- After any plain requests on one thread, a further one comes to its end. It succeeds exactly if
no cycle of parameters can be reached from the service, and else it tells of one that can. -/
theorem request_exact (h : w.NameMatched I c parameters) (hw : w.Unbuilt) (root : String)
    (hroot : (w.entry? c root).isSome) (before : List String) (tell : Instance → C.Report) :
    (∃ m th, Reaches I (requests w c tell [before ++ [root]]) m ∧
      m.threads = [th] ∧ th.hasEnded ∧ th.records.length = before.length + 1) ∧
    ∀ m th record, Reaches I (requests w c tell [before ++ [root]]) m →
      m.threads[0]? = some th → th.records[before.length]? = some record →
      ((∃ answer, record.outcome = .ok answer) ↔
        ¬ ∃ n, ReflTransGen (w.Depends c parameters) root n ∧
          TransGen (w.Depends c parameters) n n) ∧
      ∀ f, record.outcome = .error f →
        ∃ chain, f = .error (.circularDependency chain) ∧ w.Cycle c parameters chain ∧
          ∀ n ∈ chain, ReflTransGen (w.Depends c parameters) root n := by
  have hannounced : Announced h.interpretation.plan c False (w.Alarmed c parameters) :=
    namedPlan_announced
  constructor
  · have hsolo := requests_solo (h.interpretation.failing (w.Alarmed c parameters)).contract hw
      tell (before ++ [root])
    have hanswers : ∀ n ∈ before ++ [root], Answers _ (fun _ => False) 2 [] (.service n) :=
      fun n _ => (h.namedPlan_ends [] (.service n)).answers hannounced.solitary hw
        (Announced.rooted _ _ n) 2
    rw [← List.append_nil (before ++ [root])] at hsolo
    obtain ⟨m, th, records, hm, ha, hl, hlen⟩ := hsolo.answered _ [] rfl hanswers
    rw [List.append_nil] at hm
    refine ⟨m, th, hm, hl.threads, by rw [Thread.hasEnded, ha, hl.todo]; rfl, ?_⟩
    rw [hl.records, hlen, List.length_append]
    simp
  · intro m th record hm ht hr
    have hsound := (hannounced.imp fun hne => hne rfl).sound hw hm
    obtain ⟨names, name, hnames, hname, htold⟩ := hsound.told ht hr
    cases hnames
    rw [List.getElem?_concat_length] at hname
    cases hname
    obtain ⟨r, htold, ho⟩ := htold
    rw [ho]
    cases r with
    | ok i =>
      obtain ⟨d, hd, -⟩ := htold
      exact ⟨⟨fun _ => acyclic_of_makes hd, fun _ => ⟨tell i, rfl⟩⟩, fun f hf => nomatch hf⟩
    | error f =>
      obtain ⟨chain, rfl, hcycle, hreach⟩ := h.cycle_of_fails hroot htold
      obtain ⟨n, hn⟩ := hcycle.exists_head
      have hcyclic := hreach n (List.mem_of_mem_head? hn)
      constructor
      · constructor
        · rintro ⟨answer, ha⟩
          cases ha
        · exact fun hno => absurd ⟨n, hcyclic, hcycle.depends hn⟩ hno
      · rintro f ⟨⟩
        exact ⟨chain, rfl, hcycle, hreach⟩

def entangled (shared : Bool) : World Client.plain :=
  ofServices () [("a", ⟨true, .made (.of "A") [⟨"b", .untyped, none⟩] ()⟩),
    ("b", ⟨shared, .made (.of "B") [⟨"a", .untyped, none⟩] ()⟩)]

def other (name : String) : String := if name = "a" then "b" else "a"

theorem entangled_entry {shared : Bool} {name : String} {e : EntryId} {x : Entry Client.plain}
    (h : World.entry? (entangled shared) 0 name = some (e, x)) : ∃ shared type,
      x.registration = ⟨shared, .made type [⟨other name, .untyped, none⟩] ()⟩ := by
  obtain h | h := List.mem_pair.1 (mem_ofServices h)
  · obtain ⟨rfl, hr⟩ := Prod.mk.inj h
    exact ⟨true, .of "A", hr⟩
  · obtain ⟨rfl, hr⟩ := Prod.mk.inj h
    exact ⟨shared, .of "B", hr⟩

theorem entangled_matched (shared : Bool) :
    (entangled shared).NameMatched .plain 0 fun name => [⟨other name, .untyped, none⟩] where
  declares h := by
    obtain ⟨shared, type, hx⟩ := entangled_entry h
    rw [hx]
    exact fun _ => .done fun _ _ => ⟨_, rfl, rfl⟩
  untyped _ hp := by rw [List.mem_singleton.1 hp]
  named _ hp := by
    rw [List.mem_singleton.1 hp, other]
    split <;> rfl
  returns h _ := by
    obtain ⟨shared, type, hx⟩ := entangled_entry h
    rw [hx]
    refine fun _ => .call fun _ _ => .allocate (fun _ _ => trivial) fun _ _ => ?_
    exact .done fun _ _ => ⟨_, rfl, rfl⟩

theorem request_exact_entangled :
    ∃ m th record chain,
      Reaches .plain (requests (entangled false) 0 (fun _ => ()) [["b"] ++ ["a"]]) m ∧
      m.threads = [th] ∧ th.hasEnded ∧ th.records[1]? = some record ∧
      record.outcome = .error (.error (.circularDependency chain)) := by
  obtain ⟨⟨m, th, hm, ht, hend, hlen⟩, hall⟩ :=
    request_exact (entangled_matched false) (ofServices_unbuilt _ _) "a" rfl ["b"] fun _ => ()
  obtain ⟨record, hr⟩ : ∃ record, th.records[1]? = some record :=
    ⟨_, List.getElem?_eq_getElem (by rw [hlen]; exact Nat.lt_succ_self 1)⟩
  obtain ⟨hok, herror⟩ := hall m th record hm (by rw [ht]; rfl) hr
  cases ho : record.outcome with
  | ok answer =>
    have hdep : ∀ name, (World.entry? (entangled false) 0 name).isSome →
        (entangled false).Depends 0 (fun name => [⟨other name, .untyped, none⟩]) name
          (other name) := fun name hn => ⟨hn, _, List.mem_singleton_self _, rfl⟩
    exact absurd ⟨"a", .refl, .head (hdep "a" rfl) (.single (hdep "b" rfl))⟩ (hok.1 ⟨answer, ho⟩)
  | error f =>
    obtain ⟨chain, rfl, -⟩ := herror f ho
    exact ⟨m, th, record, chain, hm, ht, hend, hr, ho⟩

end NameMatched

end World

end Wiring
