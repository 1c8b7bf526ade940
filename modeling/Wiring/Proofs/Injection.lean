import Wiring.Proofs.Passage
import Wiring.Proofs.Selection
import Wiring.Script.Routine

namespace Wiring

variable {C : Client}

/-- The class asks for one typed parameter a field, and is constructed from what is given for
them. -/
structure Implementation.Injects (I : Implementation C) (type : TypeKey) (s : Shape) : Prop where
  distinct : (s.map Prod.fst).Nodup
  manifest : I.manifest type = .done s.parameters
  construct (args : Arguments) :
    I.construct type args =
      (Program.ofExcept (s.fill args)).bind fun fields => .done (.record fields)

namespace Shape

def Suits (s : Shape) (o : Overrides) (position : ℕ) : Prop :=
  ∀ name type i, s[position]? = some (name, type) → o.lookup position name = some i → i.type = type

def Typed (s : Shape) (values : List (String × Instance)) (position : ℕ) : Prop :=
  ∀ name type i, s[position]? = some (name, type) → values[position]? = some (name, i) →
    i.type = type

variable {s : Shape} {values : List (String × Instance)} {args : Arguments} {position : ℕ}
  {name : String} {type : TypeKey} {i : Instance}

theorem fill_cons (f : String × TypeKey) (s : Shape) (args : Arguments) :
    fill (f :: s) args = (args.get f.1 f.2).bind fun i => (fill s args).map ((f.1, i) :: ·) := by
  rw [fill, List.mapM_cons]
  change Except.bind (Except.bind (args.get f.1 f.2) _) (fun p => Except.bind (fill s args) _) = _
  cases args.get f.1 f.2 with
  | error e => rfl
  | ok i => cases fill s args <;> rfl

def Names (s : Shape) (values : List (String × Instance)) : Prop :=
  values.map Prod.fst = s.map Prod.fst

theorem fill_typed (hn : s.Names values)
    (hv : ∀ v ∈ values, Pairs.find? v.1 args.values = some v.2)
    (h : ∀ position, s.Typed values position) : s.fill args = .ok values := by
  induction s generalizing values with
  | nil => cases values with
    | nil => rfl
    | cons => cases hn
  | cons f s ih =>
    cases values with
    | nil => cases hn
    | cons v values =>
      obtain ⟨name, i⟩ := v
      obtain ⟨rfl, hrest⟩ := List.cons.inj hn
      have hget : args.get f.1 f.2 = .ok i := by
        simp only [Arguments.get, Arguments.instance?, hv _ List.mem_cons_self]
        exact Instance.cast_eq_ok.2 ⟨h 0 _ _ _ rfl rfl, rfl⟩
      have hfill := ih hrest (fun v hm => hv v (List.mem_cons_of_mem _ hm)) fun p => h (p + 1)
      rw [fill_cons, hget, hfill]
      rfl

theorem fill_mistyped (hn : s.Names values)
    (hv : ∀ v ∈ values, Pairs.find? v.1 args.values = some v.2)
    (hs : s[position]? = some (name, type)) (hi : values[position]? = some (name, i))
    (hne : i.type ≠ type) (hbefore : ∀ p < position, s.Typed values p) :
    s.fill args = .error (.typeMismatch (args.label name) type i.type) := by
  induction s generalizing values position with
  | nil => cases hs
  | cons f s ih =>
    cases values with
    | nil => cases hn
    | cons v values =>
      obtain ⟨first, j⟩ := v
      obtain ⟨rfl, hrest⟩ := List.cons.inj hn
      have hget : args.get f.1 f.2 = j.cast f.2 (args.label f.1) := by
        simp only [Arguments.get, Arguments.instance?, hv _ List.mem_cons_self]
        rfl
      rw [fill_cons, hget]
      cases position with
      | zero =>
        cases hs
        cases hi
        rw [Instance.cast, if_neg hne]
        rfl
      | succ p =>
        rw [Instance.cast_eq_ok.2 ⟨hbefore 0 (Nat.zero_lt_succ p) _ _ _ rfl rfl, rfl⟩]
        change Except.map _ (fill s args) = _
        rw [ih hrest (fun v hm => hv v (List.mem_cons_of_mem _ hm)) hs hi fun q hq =>
          hbefore (q + 1) (Nat.succ_lt_succ hq)]
        rfl

end Shape

def gather (c : ContainerId) (target : String) (type : TypeKey) (o : Overrides) :
    Program C Arguments :=
  (Program.run (.manifest type)).bind fun (parameters : List Parameter) =>
    fillAll c target parameters o

def erect (type : TypeKey) (args : Arguments) : Program C Instance :=
  (Program.run (.construct type args)).bind fun (v : Value) => allocate type v

def erectFor (provides type : TypeKey) (name : String) (args : Arguments) : Program C Instance :=
  (erect type args).bind fun i => .ofExcept (i.cast provides ("service '" ++ name ++ "'"))

theorem construct_eq (c : ContainerId) (type : TypeKey) (o : Overrides) :
    (construct c type o : Program C Instance) = (gather c type.name type o).bind (erect type) :=
  (Program.bind_assoc _ _ _).symm

theorem build_constructed (c : ContainerId) (name : String) (shared : Bool)
    (provides type : TypeKey) (o : Overrides) :
    (build c name ⟨shared, .constructed provides type⟩ o : Program C Instance) =
      (emit (.building name)).bind fun _ =>
        (gather c name type o).bind (erectFor provides type name) := by
  refine congrArg (Program.act (.emit (.building name))) (funext fun _ => ?_)
  exact (Program.bind_assoc (Program.run (.manifest type)) (fun ps => fillAll c name ps o)
    (erectFor provides type name)).symm

theorem Parameter.rule_cases {w : World C} {c : ContainerId} {S : Stack} {x : Parameter}
    {type : TypeKey} (hx : x.declared = .typed type) (hd : x.default = none) :
    (∃ s, (x.rule w c S).service? x = some s) ∨ (∃ cs, x.rule w c S = .ambiguous cs) ∨
      x.rule w c S = .unresolvable := by
  unfold rule
  cases hr : x.ofCandidates? (x.candidates w c S) with
  | some rule =>
    have hne : x.candidates w c S ≠ [] := fun he => by rw [he] at hr; cases hr
    obtain ⟨rule', s, hr', hs, -⟩ | ⟨hr', -⟩ := ofCandidates?_cases hne
    · cases hr.symm.trans hr'
      exact .inl ⟨s, hs⟩
    · cases hr.symm.trans hr'
      exact .inr (.inl ⟨_, rfl⟩)
  | none =>
    simp only [fallback, autowires?, hx, hd]
    split
    · exact .inl ⟨_, rfl⟩
    · exact .inr (.inr rfl)

namespace Run

variable {I : Implementation C} {σ : Run I} {L : Scope C} {n m l : ℕ} {c : ContainerId}
  {target name : String} {o : Overrides} {position : ℕ} {type : TypeKey} {i : Instance}

/-- What the field at this position is given between two moments: an override, or else the answer to
a plain request for the service that the registry and the stack determine when the field is come
to. -/
inductive Supplied (σ : Run I) (L : Scope C) (c : ContainerId) (o : Overrides) (position : ℕ)
    (name : String) (type : TypeKey) (n m : ℕ) (i : Instance) : Prop
  | override (h : o.lookup position name = some i)
  | service {b k l s} {next : Except Error Instance → Program C L.Answer}
      (ho : o.lookup position name = none) (hn : n ≤ b) (hk : b < k) (hm : l < m)
      (hs : (Parameter.chosen (σ.state b).world c ((σ.state b).stack 0) o position
        ⟨name, .typed type, none⟩).service? ⟨name, .typed type, none⟩ = some s)
      (hoffers : (σ.state k).world.Offers c type s)
      (hr : σ.Requests 0 L (.service c s ∅) next k (.ok i) l) (htype : i.type = type)

theorem Supplied.mono {n' m' : ℕ} (h : σ.Supplied L c o position name type n m i) (hn : n' ≤ n)
    (hm : m ≤ m') : σ.Supplied L c o position name type n' m' i := by
  cases h with
  | override h => exact .override h
  | service ho hb hk hl hs hoffers hr htype =>
    exact .service ho (hn.trans hb) hk (Nat.lt_of_lt_of_le hl hm) hs hoffers hr htype

theorem Supplied.type_iff (h : σ.Supplied L c o position name type n m i) :
    i.type = type ↔ ∀ j, o.lookup position name = some j → j.type = type := by
  cases h with
  | override h =>
    constructor
    · intro hi j hj
      cases h.symm.trans hj
      exact hi
    · exact fun hall => hall i h
  | service ho _ _ _ _ _ _ htype =>
    constructor
    · intro _ j hj
      cases ho.symm.trans hj
    · exact fun _ => htype

section

variable {rest : Instance → Program C L.Answer} {x : Parameter} {ds : List (Deed C)}
  {r : Except Failure Instance}

theorem Requests.type_offered {s : String} {k : ℕ}
    {next : Except Error Instance → Program C L.Answer}
    (h : σ.Requests 0 L (.service c s ∅) next k (.ok i) l)
    (hone : (σ.state l).threads.length = 1) (hoffers : (σ.state k).world.Offers c type s) :
    i.type = type := by
  obtain ⟨f, hkf, hfl, hm, hrests, hfind⟩ := h.looks_up
  have hstill : σ.state f = σ.state (k + 1) :=
    single_rests hone hkf (Nat.le_of_lt hfl) fun j hj hjf => hrests j hj hjf
  have hworld := settled_runs h.moves h.makes nofun
  have hnow : (σ.state f).world.Offers c type s := by
    have hsettled : (σ.state (k + 1)).world.settled.Offers c type s := by
      rw [hworld]
      exact hoffers
    rw [hstill]
    exact hsettled
  obtain ⟨e, y, he, hy⟩ := hnow
  exact (h.type hkf hfl hm hfind he).trans hy

theorem Completes.supplied
    (h : σ.Completes 0 L rest (fill c target o position ⟨name, .typed type, none⟩) n ds (.ok i) l)
    (hone : (σ.state l).threads.length = 1) : σ.Supplied L c o position name type n l i := by
  obtain ⟨b, ds', hnb, hw, -, hf⟩ := h.follows hone
  cases ho : o.lookup position name with
  | some j =>
    rw [Parameter.chosen, ho] at hf
    obtain ⟨k, _, _, _, _, -, -, -, -, hdone⟩ := Completes.acted hf
    cases (hdone.of_ended (.ok j)).1
    exact .override ho
  | none =>
    have hchosen := Parameter.chosen_of_none (w := (σ.state n).world) (c := c)
      (S := (σ.state n).stack 0) (x := ⟨name, .typed type, none⟩) ho
    obtain ⟨s, hs⟩ | ⟨cs, hambiguous⟩ | hunresolvable := Parameter.rule_cases
      (w := (σ.state n).world) (c := c) (S := (σ.state n).stack 0)
      (x := ⟨name, .typed type, none⟩) rfl rfl
    · rw [← hchosen] at hs
      obtain ⟨e, he⟩ : ∃ e, (Rule.follow c target position _ _ : Program C Instance) =
        .act (.emit e) fun _ => Container.get c s := Rule.follow_of_service hs
      rw [he] at hf
      obtain ⟨k, th, _, mach, _, hreach, hp, hnext, -, hget⟩ := hf.acted
      obtain ⟨k', l', hk', hrests, hl', hr⟩ := hget.of_request
      have hkl : k' ≤ l := Nat.le_of_lt (Nat.lt_trans hr.lt hl')
      have hbefore : σ.state k = σ.state b := single_rests hone hreach.le (by omega) hreach.rests
      have hafter : σ.state k' = σ.state (k + 1) := single_rests hone hk' hkl hrests
      have hstill : (σ.state k').world.settled = (σ.state n).world.settled := by
        cases hp
        rw [hafter, hnext, ← hw, ← hbefore]
        rfl
      have hstart : (σ.state n).world.Offers c type s := by
        obtain hmem | ⟨-, rfl, hentry⟩ := Parameter.chosen_service rfl hs
        · exact (World.mem_candidates_iff.1 hmem).1
        · exact hentry
      have hoffers : (σ.state k').world.Offers c type s := by
        have hsettled : (σ.state k').world.settled.Offers c type s := by
          rw [hstill]
          exact hstart
        exact hsettled
      have hone' := (single_at hone (Nat.le_of_lt hl') hr.takes).2
      have hlt : n < k' := by
        have hbk := hreach.le
        omega
      exact .service ho (Nat.le_refl n) hlt hl' hs hoffers hr (hr.type_offered hone' hoffers)
    · rw [hchosen, hambiguous] at hf
      obtain ⟨k, _, _, _, _, -, -, -, -, hdone⟩ := Completes.acted hf
      cases (hdone.of_ended (.error (.error (.ambiguousService target name cs)))).1
    · rw [hchosen, hunresolvable] at hf
      cases (Completes.of_ended (.error (.error _)) hf).1

end

structure Gathered (σ : Run I) (L : Scope C) (c : ContainerId) (target : String) (s : Shape)
    (o : Overrides) (n m : ℕ) (args : Arguments) : Prop where
  target : args.target = target
  names : s.Names args.values
  supplied {position : ℕ} {name : String} {type : TypeKey} (h : s[position]? = some (name, type)) :
    ∃ i, args.values[position]? = some (name, i) ∧ σ.Supplied L c o position name type n m i

/-- How the construction of a class from these arguments ends: just if all overrides suit their
fields there is an object, which holds the arguments, and else the first that does not is named. -/
structure Erected (σ : Run I) (target : String) (type : TypeKey) (s : Shape) (o : Overrides)
    (args : Arguments) (r : Except Failure Instance) (l : ℕ) : Prop where
  succeeds : (∃ i, r = .ok i) ↔ ∀ position, s.Suits o position
  fails {position : ℕ} {name : String} {fieldType : TypeKey} {i : Instance}
    (hs : s[position]? = some (name, fieldType)) (ho : o.lookup position name = some i)
    (hne : i.type ≠ fieldType) (hbefore : ∀ p < position, s.Suits o p) :
    r = .error (.error
      (.typeMismatch ("parameter '" ++ name ++ "' of '" ++ target ++ "'") fieldType i.type))
  holds {i : Instance} (h : r = .ok i) :
    i.type = type ∧ (σ.state l).world.objects[i.object]? = some (.record args.values)

variable {s : Shape} {args : Arguments}

theorem Completes.suppliedFrom {rest : List (String × Instance) → Program C L.Answer} {p : ℕ}
    {values : List (String × Instance)} {ds : List (Deed C)}
    (h : σ.Completes 0 L rest (fillFrom c target o p s.parameters) n ds (.ok values) l)
    (hone : (σ.state l).threads.length = 1) :
    s.Names values ∧ ∀ {q name type}, s[q]? = some (name, type) →
      ∃ i, values[q]? = some (name, i) ∧ σ.Supplied L c o (p + q) name type n l i := by
  induction s generalizing p n l values rest ds with
  | nil =>
    cases (Completes.of_ended (.ok []) h).1
    exact ⟨rfl, nofun⟩
  | cons f s ih =>
    obtain ⟨first, firstType⟩ := f
    obtain ⟨i, b, ds₁, ds₂, hfill, hrest⟩ := Completes.bind_ok (p := fill c target o p
      ⟨first, .typed firstType, none⟩) (f := fun i => (fillFrom c target o (p + 1)
        (Shape.parameters s)).bind fun values => .done ((first, i) :: values)) h
    have hbl := hrest.le
    have hb := single_before hone hbl hrest.activity
    obtain ⟨others, m, ds₃, ds₄, hothers, hdone⟩ := hrest.bind_ok
    have hml := hdone.le
    have hm := single_before hone hml hdone.activity
    cases (hdone.of_ended (.ok ((first, i) :: others))).1
    obtain ⟨hnames, hsupplied⟩ := ih hothers hm
    refine ⟨congrArg (first :: ·) hnames, fun {q name type} hq => ?_⟩
    cases q with
    | zero =>
      cases hq
      exact ⟨i, rfl, (hfill.supplied hb).mono (Nat.le_refl n) hbl⟩
    | succ q =>
      obtain ⟨j, hj, hgiven⟩ := hsupplied hq
      rw [Nat.add_right_comm, Nat.add_assoc] at hgiven
      exact ⟨j, hj, hgiven.mono hfill.le hml⟩

theorem Completes.gathered {rest : Arguments → Program C L.Answer} {ds : List (Deed C)}
    (hI : I.Injects type s) (h : σ.Completes 0 L rest (gather c target type o) n ds (.ok args) m)
    (hone : (σ.state m).threads.length = 1) : σ.Gathered L c target s o n m args := by
  obtain ⟨parameters, k, ds₁, ds₂, hmanifest, hfill⟩ := h.bind_ok
  obtain ⟨b, ds₃, hnb, hanswer⟩ := hmanifest.called
  have hparameters : parameters = s.parameters := by
    rw [Implementation.answer, hI.manifest] at hanswer
    cases (Completes.of_ended (.ok s.parameters) hanswer).1
    rfl
  subst hparameters
  obtain ⟨values, b', ds₄, ds₅, hvalues, hdone⟩ := Completes.bind_ok (p := fillFrom c target o 0
    s.parameters) (f := fun values => (.done ⟨target, values⟩ : Program C Arguments)) hfill
  cases (Completes.of_ended (.ok (⟨target, values⟩ : Arguments)) hdone).1
  obtain ⟨hnames, hsupplied⟩ :=
    hvalues.suppliedFrom (single_before hone hdone.le hdone.activity)
  refine ⟨rfl, hnames, fun {position name type} hs => ?_⟩
  obtain ⟨i, hi, hgiven⟩ := hsupplied hs
  rw [Nat.zero_add] at hgiven
  exact ⟨i, hi, hgiven.mono hmanifest.le hdone.le⟩

theorem Gathered.typed_iff (h : σ.Gathered L c target s o n m args) (position : ℕ) :
    s.Typed args.values position ↔ s.Suits o position := by
  constructor
  · intro htyped name type i hs ho
    obtain ⟨j, hj, hgiven⟩ := h.supplied hs
    exact hgiven.type_iff.1 (htyped name type j hs hj) i ho
  · intro hsuits name type i hs hi
    obtain ⟨j, hj, hgiven⟩ := h.supplied hs
    cases hi.symm.trans hj
    exact hgiven.type_iff.2 fun i ho => hsuits name type i hs ho

theorem Gathered.find? (h : σ.Gathered L c target s o n m args) (hI : I.Injects type s) :
    ∀ v ∈ args.values, Pairs.find? v.1 args.values = some v.2 := by
  have hdistinct : (args.values.map Prod.fst).Nodup := h.names ▸ hI.distinct
  exact fun v hv => Pairs.find?_of_mem hdistinct hv

theorem Attends.erects {t : ThreadId} {rest : Instance → Program C L.Answer}
    (hfair : σ.Attends t) (hI : I.Injects type s)
    (ha : (σ.state m).activity t = L.runs ((erect type args).bind rest)) :
    ∃ ds r l, σ.Completes t L rest (erect type args) m ds r l ∧
      (∀ e, s.fill args = .error e → r = .error (.error e)) ∧
      ∀ fields, s.fill args = .ok fields → ∃ i, r = .ok i ∧ i.type = type ∧
        (σ.state l).world.objects[i.object]? = some (.record fields) := by
  obtain ⟨k, hk, hnow, hcalled⟩ := hfair.calls ha
  rw [Implementation.answer, hI.construct] at hnow hcalled
  cases hfill : s.fill args with
  | error e =>
    rw [hfill] at hnow hcalled
    refine ⟨_, _, _, hcalled _ _ _ (.ended (r := .error (.error e)) hnow), ?_, nofun⟩
    rintro e' ⟨⟩
    rfl
  | ok fields =>
    rw [hfill] at hnow hcalled
    obtain ⟨b, th, i, mach, hreach, ht, hp, hw, hnext⟩ :=
      hfair.acts (a := .allocate type (.record fields)) trivial hnow
    have hmoves := runs_until hreach.le hreach.rests hnow
    refine ⟨_, .ok i, b + 1, hcalled _ _ _ (.waited hreach.le hreach.rests hnow
      (.act hreach.performs.1 hmoves ht hp (.ended (r := .ok i) hnext))), nofun, ?_⟩
    rintro fields' ⟨⟩
    cases hp
    refine ⟨_, rfl, rfl, ?_⟩
    rw [hw]
    exact List.getElem?_concat_length

theorem Gathered.erected {t : ThreadId} {rest : Instance → Program C L.Answer} (hfair : σ.Attends t)
    (hI : I.Injects type s) (h : σ.Gathered L c target s o n m args)
    (ha : (σ.state m).activity t = L.runs ((erect type args).bind rest)) :
    ∃ ds r l, σ.Completes t L rest (erect type args) m ds r l ∧
      σ.Erected target type s o args r l := by
  obtain ⟨ds, r, l, hcompletes, herror, hok⟩ := hfair.erects hI ha
  have hfind := h.find? hI
  have hmistyped {position name fieldType i} (hs : s[position]? = some (name, fieldType))
      (ho : o.lookup position name = some i) (hne : i.type ≠ fieldType)
      (hbefore : ∀ p < position, s.Suits o p) : r = .error (.error
        (.typeMismatch ("parameter '" ++ name ++ "' of '" ++ target ++ "'") fieldType i.type)) := by
    obtain ⟨j, hj, hgiven⟩ := h.supplied hs
    have hij : j = i := by
      cases hgiven with
      | override ho' => exact Option.some.inj (ho'.symm.trans ho)
      | service ho' => cases ho'.symm.trans ho
    subst hij
    have hfill := Shape.fill_mistyped h.names hfind hs hj hne fun p hp =>
      (h.typed_iff p).2 (hbefore p hp)
    rw [Arguments.label, h.target] at hfill
    exact herror _ hfill
  have htyped (hall : ∀ position, s.Suits o position) :
      ∃ i, r = .ok i ∧ i.type = type ∧
        (σ.state l).world.objects[i.object]? = some (.record args.values) :=
    hok _ (Shape.fill_typed h.names hfind fun position => (h.typed_iff position).2 (hall position))
  have hsucceeds : (∃ i, r = .ok i) ↔ ∀ position, s.Suits o position := by
    constructor
    · rintro ⟨i, rfl⟩
      by_contra hnot
      obtain ⟨position, hfirst, hbefore⟩ : ∃ position, ¬ s.Suits o position ∧
          ∀ p < position, s.Suits o p := by
        classical
        have hex : ∃ position, ¬ s.Suits o position := not_forall.1 hnot
        exact ⟨_, Nat.find_spec hex, fun p hp => not_not.1 (Nat.find_min hex hp)⟩
      simp only [Shape.Suits, not_forall] at hfirst
      obtain ⟨name, fieldType, j, hs, ho, hne⟩ := hfirst
      cases hmistyped hs ho hne hbefore
    · intro hall
      obtain ⟨i, hi, -⟩ := htyped hall
      exact ⟨i, hi⟩
  refine ⟨ds, r, l, hcompletes, hsucceeds, hmistyped, fun {i} hi => ?_⟩
  obtain ⟨j, hj, hrest⟩ := htyped (hsucceeds.1 ⟨i, hi⟩)
  cases hi.symm.trans hj
  exact hrest

/-- A class that is constructed from its fields, on a single thread and in any state, for itself or
for a service: once all fields have been given something, there is an object just if all overrides
that apply to a field have its type, and otherwise the first one that has not is reported. Nothing
else can have a wrong type. The object holds what the fields were given: the overrides, and for the
other fields what plain requests for their services were answered. -/
theorem injectable_sound (σ : Run I) (hfair : σ.Attends 0) (hI : I.Injects type s)
    (c : ContainerId) (o : Overrides) :
    (∀ (L : Scope C) rest n ds args m, (σ.state m).threads.length = 1 →
      σ.Completes 0 L (fun args => (erect type args).bind rest) (gather c type.name type o) n ds
        (.ok args) m →
      σ.Gathered L c type.name s o n m args ∧ ∃ ds' r l, m ≤ l ∧
        σ.Completes 0 L rest (construct c type o) n ds' r l ∧
        σ.Erected type.name type s o args r l) ∧
    ∀ (L : Scope C) rest name shared n ds args m, (σ.state m).threads.length = 1 →
      σ.Completes 0 L (fun args => (erectFor type type name args).bind rest)
        ((emit (.building name)).bind fun _ => gather c name type o) n ds (.ok args) m →
      σ.Gathered L c name s o n m args ∧ ∃ ds' r l, m ≤ l ∧
        σ.Completes 0 L rest (build c name ⟨shared, .constructed type type⟩ o) n ds' r l ∧
        σ.Erected name type s o args r l := by
  constructor
  · intro L rest n ds args m hone h
    have hgathered := h.gathered hI hone
    have ha := h.at_end.resolve_right nofun
    obtain ⟨ds', r, l, herect, herected⟩ := hgathered.erected hfair hI ha
    have hconstruct := h.bind herect
    rw [← construct_eq] at hconstruct
    exact ⟨hgathered, _, r, l, herect.le, hconstruct, herected⟩
  · intro L rest name shared n ds args m hone h
    obtain ⟨_, b, ds₁, ds₂, htold, hgather⟩ := h.bind_ok
    have hgathered := hgather.gathered hI hone
    have ha : (σ.state m).activity 0 = L.runs ((erectFor type type name args).bind rest) :=
      h.at_end.resolve_right nofun
    rw [erectFor, Program.bind_assoc] at ha
    obtain ⟨ds', r, l, herect, herected⟩ := hgathered.erected hfair hI ha
    have hfor : σ.Completes 0 L rest (erectFor type type name args) m ds' r l := by
      cases r with
      | error f => exact herect.bind_error
      | ok i =>
        have hcast : i.cast type ("service '" ++ name ++ "'") = .ok i :=
          Instance.cast_eq_ok.2 ⟨(herected.holds rfl).1, rfl⟩
        have hend := herect.at_end.resolve_right nofun
        have hdone : σ.Completes 0 L rest
            (.ofExcept (i.cast type ("service '" ++ name ++ "'"))) l [] (.ok i) l := by
          simp only [Program.ended, Program.bind] at hend
          rw [hcast] at hend ⊢
          exact .ended (r := .ok i) hend
        have hall := herect.bind hdone
        rwa [List.append_nil] at hall
    have hbuild := h.bind hfor
    rw [Program.bind_assoc, ← build_constructed c name shared] at hbuild
    refine ⟨?_, _, r, l, herect.le, hbuild, herected⟩
    refine ⟨hgathered.target, hgathered.names, fun hs => ?_⟩
    obtain ⟨i, hi, hgiven⟩ := hgathered.supplied hs
    exact ⟨i, hi, hgiven.mono htold.le (Nat.le_refl m)⟩

end Run

def Shape.couple : Shape := [("a", .of "A"), ("b", .of "B")]

def Implementation.coupling : Implementation Client.plain where
  make _ _ _ := .done (.text "")
  give _ _ _ := .crash "nothing to give"
  manifest _ := .done Shape.couple.parameters
  construct _ args := (Program.ofExcept (Shape.couple.fill args)).bind fun fields =>
    .done (.record fields)
  job _ := .done ()

theorem Implementation.coupling_injects (type : TypeKey) : coupling.Injects type .couple where
  distinct := by decide
  manifest := rfl
  construct _ := rfl

def Overrides.second (type : TypeKey) : Overrides := withName ∅ "b" ⟨type, 0⟩

namespace Run

def coupled (type : TypeKey) : Run Implementation.coupling :=
  along ⟨.ofServices () [("x", ⟨false, .made (.of "A") [] ()⟩)],
      [{ todo := [(allocate type (.text "")).bind fun _ =>
          (Program.request (.class 0 (.of "P") (.second type))).bind fun _ => .done ()] }]⟩
    { world := World.ofServices_unbuilt _ _
      threads := fun h => by rw [List.mem_singleton.1 h]; exact ⟨rfl, rfl, rfl⟩ } fun _ => 0

def coupledScope : Scope Client.plain :=
  .inside [.inside 0 (.class "P")] fun a => (Program.ofExcept a).bind fun _ => .done ()

theorem coupled_gets (type : TypeKey) : ∃ ds w, Evaluates .coupling (insides coupledScope.frames)
    ((coupled type).state 4).world.settled (Container.get 0 "x") ds (.ok ⟨.of "A", 1⟩) w := by
  have hbuild : Evaluates .coupling [(0, .service "x"), (0, .class "P")]
      ((coupled type).state 4).world.settled (build 0 "x" ⟨false, .made (.of "A") [] ()⟩ ∅) _
      (.ok ⟨.of "A", 1⟩) _ := .build .done .done (.call (.act rfl rfl .done)) rfl
  exact ⟨_, _, .request (.entered rfl hbuild rfl)⟩

theorem coupled_evaluates (type : TypeKey) :
    ∃ ds w, Evaluates .coupling (insides coupledScope.frames) ((coupled type).state 4).world.settled
      (gather 0 "P" (.of "P") (.second type)) ds
      (.ok ⟨"P", [("a", ⟨.of "A", 1⟩), ("b", ⟨type, 0⟩)]⟩) w := by
  have hcandidates : ((coupled type).state 4).world.settled.candidates (insides coupledScope.frames)
      0 (.of "A") = ["x"] := by
    change World.candidates ((World.ofServices (C := Client.plain) () [("x",
      ⟨false, .made (.of "A") [] ()⟩)]).allocate (.of "A") (.text "")).2.settled [(0, .class "P")] 0
        (.of "A") = ["x"]
    decide +kernel
  have hrule : Parameter.chosen ((coupled type).state 4).world.settled 0
      (insides coupledScope.frames) (.second type) 0 ⟨"a", .typed (.of "A"), none⟩ =
        .onlyOfType "x" :=
    (Parameter.chosen_of_candidates rfl rfl (by rw [hcandidates]; rfl)).1
  obtain ⟨ds, w, hget⟩ := coupled_gets type
  have hfollow : Evaluates .coupling (insides coupledScope.frames) _
      ((Rule.onlyOfType "x").follow 0 "P" 0 ⟨"a", .typed (.of "A"), none⟩) _ _ _ :=
    .act (World.access_emit _) rfl hget
  rw [← hrule] at hfollow
  have hsecond : Evaluates .coupling (insides coupledScope.frames) w
      (fill 0 "P" (.second type) 1 ⟨"b", .typed (.of "B"), none⟩) _ (.ok ⟨type, 0⟩) w :=
    .fill (.act (World.access_emit _) rfl .done)
  have hrest : Evaluates .coupling (insides coupledScope.frames) w
      (fillFrom 0 "P" (.second type) 2 []) [] (.ok []) w := .done
  have hall := (hfollow.fill.fillFrom_cons (hsecond.fillFrom_cons hrest)).bind
    (f := fun values => .done (⟨"P", values⟩ : Arguments)) .done
  exact ⟨_, _, .call hall⟩

theorem coupled_gathers (type : TypeKey) :
    ∃ ds m, ((coupled type).state m).threads.length = 1 ∧
      (coupled type).Completes 0 coupledScope (fun args => (erect (.of "P") args).bind .done)
        (gather 0 "P" (.of "P") (.second type)) 4 ds
        (.ok ⟨"P", [("a", ⟨.of "A", 1⟩), ("b", ⟨type, 0⟩)]⟩) m := by
  obtain ⟨ds, w, he⟩ := coupled_evaluates type
  have ha : ((coupled type).state 4).activity 0 =
      coupledScope.runs ((gather 0 "P" (.of "P") (.second type)).bind fun args =>
        (erect (.of "P") args).bind .done) := by
    have herect : erect (C := Client.plain) (.of "P") =
        fun args => (erect (.of "P") args).bind .done :=
      funext fun args => (Program.bind_done _).symm
    exact congrArg coupledScope.runs ((construct_eq 0 (.of "P") (.second type)).trans
      (congrArg (Program.bind _) herect))
  obtain ⟨m, hgathers, hone, -⟩ := he.completes (along_attends _ _ _) rfl ⟨rfl, rfl, ha⟩
  exact ⟨ds, m, hone, hgathers⟩

theorem injectable_sound_coupled :
    (∃ i l, (coupled (.of "B")).Calls 0 (construct 0 (.of "P") (.second (.of "B"))) 4 (.ok i) l ∧
      ((coupled (.of "B")).state l).world.objects[i.object]? =
        some (.record [("a", ⟨.of "A", 1⟩), ("b", ⟨.of "B", 0⟩)])) ∧
      ∃ l, (coupled (.of "A")).Calls 0 (construct 0 (.of "P") (.second (.of "A"))) 4
        (.error (.error (.typeMismatch "parameter 'b' of 'P'" (.of "B") (.of "A")))) l := by
  have hsound := fun type => injectable_sound (coupled type) (along_attends _ _ _)
    (Implementation.coupling_injects (.of "P")) 0 (.second type)
  constructor
  · obtain ⟨ds, m, hone, hgathers⟩ := coupled_gathers (.of "B")
    obtain ⟨-, ds', r, l, -, hconstruct, herected⟩ := (hsound (.of "B")).1 _ _ _ _ _ _ hone hgathers
    have hsuits : ∀ position, Shape.couple.Suits (.second (.of "B")) position := by
      rintro (_ | _ | position) name type i hs ho
      · cases hs
        cases ho
      · cases hs
        cases ho
        rfl
      · cases hs
    obtain ⟨i, rfl⟩ := herected.succeeds.2 hsuits
    exact ⟨i, l, ⟨_, _, _, hconstruct⟩, (herected.holds rfl).2⟩
  · obtain ⟨ds, m, hone, hgathers⟩ := coupled_gathers (.of "A")
    obtain ⟨-, ds', r, l, -, hconstruct, herected⟩ := (hsound (.of "A")).1 _ _ _ _ _ _ hone hgathers
    have hfield : Shape.couple[1]? = some ("b", .of "B") := rfl
    have ho : (Overrides.second (.of "A")).lookup 1 "b" = some ⟨.of "A", 0⟩ := rfl
    have hr := herected.fails hfield ho (by decide) fun p hp => by
      obtain rfl := Nat.lt_one_iff.1 hp
      intro name type i hs ho
      cases hs
      cases ho
    exact ⟨l, _, _, _, hr ▸ hconstruct⟩

end Run

theorem Script.implementation_injects {tag : Script.Tag} {s : Shape} (h : tag.shape? = some s) :
    Script.implementation.Injects tag.key s := by
  cases tag <;> cases h <;> exact ⟨by decide, rfl, fun _ => rfl⟩

end Wiring
