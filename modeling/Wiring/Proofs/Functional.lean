import Wiring.Proofs.Meanings

namespace Wiring

open Relation (ReflTransGen TransGen)

variable {C : Client} {α β γ : Type}

namespace Behaves

variable {I : Implementation C} {E : Setting C} {p : Program C α} {o : List Value}

theorem bind_foretold {means : List Value → α → β → Prop} {r' : Except Failure β}
    {f : α → Program C γ} {Q : Except Failure γ → List Value → Prop}
    (h : Behaves I E (fun r o => Foretold (means o) r' r) p o)
    (hok : ∀ b a o', E.grows o o' → r' = .ok b → means o' a b → Behaves I E Q (f a) o')
    (herror : ∀ f o', E.grows o o' → r' = .error f → Q (.error f) o') :
    Behaves I E Q (p.bind f) o := by
  refine .bind (h.imp fun r o' ho hr => ?_)
  cases r with
  | error f => exact herror f o' ho (Foretold.error_right.1 hr)
  | ok a =>
    obtain ⟨b, hb, hab⟩ := Foretold.ok_right.1 hr
    exact hok b a o' ho hb hab

end Behaves

def Logic.listed : Logic C → List Parameter
  | .made _ parameters _ | .given _ parameters _ => parameters
  | .constructed .. | .literal .. => []

namespace Meanings

def Uses (M : Meanings C) (w : World C) (c : ContainerId) (type : TypeKey) : Prop :=
  (∃ name e entry provides, w.entry? c name = some (e, entry) ∧
      entry.registration.logic = .constructed provides type) ∨
    ∃ x, (M.scheme w c).Needs x (.class type)

/-- The registry's instances and code are as these meanings say, whatever objects are added. -/
structure Functional (M : Meanings C) (I : Implementation C) (w : World C) (c : ContainerId) :
    Prop where
  literal {name : String} {e : EntryId} {entry : Entry C} {value : Instance} {copies : Bool}
    (he : w.entry? c name = some (e, entry))
    (hl : entry.registration.logic = .literal value copies) :
    value.Shows w.objects (M.worth value)
  default {name : String} {e : EntryId} {entry : Entry C} {p : Parameter} {i : Instance}
    (he : w.entry? c name = some (e, entry)) (hp : p ∈ entry.registration.logic.listed)
    (hi : p.default = some i) : i.Shows w.objects (M.worth i)
  manifest {type : TypeKey} {o : List Value} (h : M.Uses w c type) (ho : w.objects <+: o) :
    Behaves I Growth.appends.alone
      (fun r o' => Foretold (List.Forall₂ (Parameter.Shows o')) (M.wants type) r)
      (Program.run (.manifest type)) o
  make {name : String} {e : EntryId} {entry : Entry C} {provides : TypeKey}
    {parameters : List Parameter} {body : C.Code} {o : List Value} {args : Arguments}
    {data : List (String × Datum)} (he : w.entry? c name = some (e, entry))
    (hl : entry.registration.logic = .made provides parameters body) (ho : w.objects <+: o)
    (ha : args.Show o data) :
    Behaves I Growth.appends.alone
      (fun r o' => Foretold (Value.Shows o') (M.make body args.target data) r)
      (Program.run (.make body c args)) o
  give {name : String} {e : EntryId} {entry : Entry C} {provides : TypeKey}
    {parameters : List Parameter} {body : C.Code} {o : List Value} {args : Arguments}
    {data : List (String × Datum)} (he : w.entry? c name = some (e, entry))
    (hl : entry.registration.logic = .given provides parameters body) (ho : w.objects <+: o)
    (ha : args.Show o data) :
    Behaves I Growth.appends.alone
      (fun r o' => Foretold (Instance.Shows o') (M.give body args.target data) r)
      (Program.run (.give body c args)) o
  construct {type : TypeKey} {o : List Value} {args : Arguments} {data : List (String × Datum)}
    (h : M.Uses w c type) (ho : w.objects <+: o) (ha : args.Show o data) :
    Behaves I Growth.appends.alone
      (fun r o' => Foretold (Value.Shows o') (M.construct type args.target data) r)
      (Program.run (.construct type args)) o

end Meanings

def Scheme.Meets (P : Scheme Datum) (c : ContainerId) (S : List Item) (s : Supply Datum)
    (r : Except Failure Instance) (o : List Value) : Prop :=
  ∃ r', P.Gives c S [s] (r'.map ([·])) ∧ Foretold (Instance.Shows o) r' r

namespace Scheme.Meets

variable {P : Scheme Datum} {c : ContainerId} {S : List Item} {s : Supply Datum}
  {r : Except Failure Instance} {i : Instance} {d : Datum} {f : Failure} {o o' : List Value}

theorem mono (h : P.Meets c S s r o) (ho : o <+: o') : P.Meets c S s r o' := by
  obtain ⟨r', hg, hr⟩ := h
  exact ⟨r', hg, hr.imp fun _ _ hs => hs.mono ho⟩

theorem value (h : i.Shows o d) : P.Meets c S (.value d) (.ok i) o :=
  ⟨.ok d, .value .nil rfl, h⟩

theorem refuse : P.Meets c S (.refuse f) (.error f) o := ⟨.error f, .refuse, rfl⟩

theorem of_ok (h : P.Meets c S s (.ok i) o) : ∃ d, P.Gives c S [s] (.ok [d]) ∧ i.Shows o d := by
  obtain ⟨r', hg, hr⟩ := h
  obtain ⟨d, rfl, hi⟩ := Foretold.ok_right.1 hr
  exact ⟨d, hg, hi⟩

theorem of_error (h : P.Meets c S s (.error f) o) : P.Gives c S [s] (.error f) := by
  obtain ⟨r', hg, hr⟩ := h
  cases Foretold.error_right.1 hr
  exact hg

end Scheme.Meets

theorem Instance.Shows.cast {o : List Value} {i : Instance} {d : Datum} (h : i.Shows o d)
    (type : TypeKey) (what : String) :
    Foretold (Instance.Shows o) (d.cast type what)
      (Except.mapError Failure.error (i.cast type what)) := by
  unfold Datum.cast Instance.cast
  rw [h.1]
  split
  · exact h
  · rfl

namespace Meanings

variable (M : Meanings C) (w : World C) (c : ContainerId)

def setting (x : Item) (S : List Item) : Setting C :=
  Growth.appends.setting w c (under c (x :: S)) ((M.scheme w c).Asks c S x)
    (fun y => (M.scheme w c).Meets c (x :: S) (.target y)) fun _ _ _ _ ho h => h.mono ho

variable {M w c} {I : Implementation C} {x y : Item} {S : List Item} {o : List Value}
  {p : Parameter} {q : Want}

theorem request (hy : (M.scheme w c).Asks c S x y) :
    Behaves I (M.setting w c x S) ((M.scheme w c).Meets c (x :: S) (.target y))
      (Program.request (y.goal c)) o :=
  .ask (fun _ _ _ _ ho h => h.mono ho) hy

theorem follow {title : String} {position : ℕ} {T : Stack} (h : p.Shows o q)
    (hy : ∀ y, q.supply w c T title position = .target y → (M.scheme w c).Asks c S x y) :
    Behaves I (M.setting w c x S)
      ((M.scheme w c).Meets c (x :: S) (q.supply w c T title position))
      ((p.rule w c T).follow c title position p) o := by
  have hrule := h.rule (w := w) (c := c) (T := T)
  obtain ⟨hname, -, hdefault⟩ := h
  unfold Want.supply at hy ⊢
  generalize q.bare.rule w c T = bare at hrule hy ⊢
  generalize p.rule w c T = rule at hrule ⊢
  cases hrule with
  | onlyOfType service => exact .emit fun _ _ => request (hy _ rfl)
  | narrowed =>
    refine .emit fun _ _ => ?_
    rw [hname]
    exact request (hy _ rfl)
  | ambiguous candidates =>
    refine .emit fun _ _ => ?_
    rw [hname]
    exact .fail fun _ _ => .refuse
  | named =>
    refine .emit fun _ _ => ?_
    rw [hname]
    exact request (hy _ rfl)
  | autowired type => exact .emit fun _ _ => request (hy _ rfl)
  | @default i hi =>
    rw [hi] at hdefault
    generalize hd : q.default = d? at hdefault
    cases hdefault with
    | @some i d hs =>
      have hsupply : Rule.supply title position q .unresolvable = .value d := by
        rw [Rule.supply, hd]
      rw [hsupply]
      exact .emit fun o' ho => .done fun o'' ho' => .value (hs.mono (List.IsPrefix.trans ho ho'))
  | unresolvable hi =>
    rw [hi] at hdefault
    generalize hd : q.default = d? at hdefault
    cases hdefault with
    | none =>
      have hsupply : Rule.supply title position q .unresolvable =
          .refuse (.error (.unresolvableParameter title q.name position)) := by
        rw [Rule.supply, hd]
      rw [hsupply, Rule.follow, hname]
      exact .fail fun _ _ => .refuse

theorem fill {title : String} {position : ℕ} (h : p.Shows o q)
    (hy : ∀ y, q.supply w c (under c (x :: S)) title position = .target y →
      (M.scheme w c).Asks c S x y) :
    Behaves I (M.setting w c x S)
      ((M.scheme w c).Meets c (x :: S) (q.supply w c (under c (x :: S)) title position))
      (Wiring.fill c title ∅ position p) o :=
  .bind (.choose rfl fun _ ho => follow (h.mono ho) hy)

theorem missing {name : String} (he : w.entry? c name = none)
    (hS : ∀ y ∈ S, TransGen (M.scheme w c).Needs y (.service name)) :
    (M.scheme w c).Meets c S (.target (.service name))
      (.error (.error (.serviceNotFound name))) o := by
  have hsources : (M.scheme w c).sources (.service name) = [] := by
    change M.sources w c [] (.service name) = []
    rw [sources, signature, he]
    rfl
  have hx : ¬ (Item.service name).Barred S := by
    intro hx
    obtain ⟨y, hy, -⟩ := TransGen.head'_iff.1 (hS _ hx.service)
    rw [Scheme.Needs, hsources] at hy
    cases hy
  have hargs : (M.scheme w c).Gives c (.service name :: S) ((M.scheme w c).sources (.service name))
      (.ok []) := by
    rw [hsources]
    exact .nil
  refine ⟨_, Scheme.Comes.enter hx hargs, ?_⟩
  change Foretold _ (M.result w c (.service name) []) _
  rw [result, he]
  rfl

def Filled (wants : List Want) (o : List Value) (values : List (String × Instance))
    (ds : List Datum) : Prop :=
  List.Forall₂ (fun a d => a.1 = d.1 ∧ a.2.Shows o d.2) values ((wants.map (·.name)).zip ds)

theorem Filled.mono {wants : List Want} {o o' : List Value} {values : List (String × Instance)}
    {ds : List Datum} (h : Filled wants o values ds) (ho : o <+: o') : Filled wants o' values ds :=
  List.Forall₂.imp (fun _ _ h => ⟨h.1, h.2.mono ho⟩) h

theorem fillFrom {title : String} {position : ℕ} {parameters : List Parameter}
    {wants : List Want} {before : List (Supply Datum)} {ds : List Datum}
    (h : List.Forall₂ (Parameter.Shows o) parameters wants)
    (hb : (M.scheme w c).Gives c (x :: S) before (.ok ds))
    (hs : (M.scheme w c).sources x =
      before ++ Want.supplies w c (under c (x :: S)) title position wants) :
    Behaves I (M.setting w c x S)
      (fun r o' => ∃ r', (M.scheme w c).Gives c (x :: S)
        (Want.supplies w c (under c (x :: S)) title position wants) r' ∧
          Foretold (Filled wants o') r' r)
      (Wiring.fillFrom c title ∅ position parameters) o := by
  induction parameters generalizing wants before ds position o with
  | nil =>
    cases h with
    | nil => exact .done fun o' _ => ⟨.ok [], .nil, .nil⟩
  | cons p rest ih =>
    cases h with
    | @cons _ q _ wants hp hrest =>
      rw [Want.supplies] at hs ⊢
      have hy : ∀ y, q.supply w c (under c (x :: S)) title position = .target y →
          (M.scheme w c).Asks c S x y :=
        fun y hy => ⟨before, _, ds, by rw [hs, hy], hb⟩
      refine .bind ((fill hp hy).imp ?_)
      rintro (f | i) o' ho' hr
      · exact ⟨.error f, .first_fails hr.of_error, rfl⟩
      · obtain ⟨d, hg, hi⟩ := hr.of_ok
        have hrest := hrest.imp fun _ _ h => Parameter.Shows.mono h ho'
        refine .bind ((ih hrest (hb.append hg) (by simp [hs])).imp ?_)
        rintro (f | values) o'' ho'' ⟨r', hg', hr'⟩
        · cases Foretold.error_right.1 hr'
          exact ⟨.error f, hg.append hg', rfl⟩
        · obtain ⟨ds', rfl, hvalues⟩ := Foretold.ok_right.1 hr'
          refine .done fun o₃ ho₃ => ⟨.ok (d :: ds'), hg.append hg', ?_⟩
          have hfirst := hi.mono (List.IsPrefix.trans ho'' ho₃)
          exact .cons ⟨hp.name, hfirst⟩ (hvalues.mono ho₃)

theorem assemble {parameters : Program C (List Parameter)}
    {make : Arguments → Program C Instance} (hM : M.Apart w c)
    (hS : ∀ y ∈ S, TransGen (M.scheme w c).Needs y x) (hx : ¬ x.Barred S)
    (hp : Behaves I Growth.appends.alone
      (fun r o' => Foretold (List.Forall₂ (Parameter.Shows o')) (M.signature w c x) r)
      parameters o)
    (hmake : ∀ args ds o', o <+: o' → args.target = x.title →
      args.Show o' (M.named w c x ds) → Behaves I Growth.appends.alone
        (fun r o' => Foretold (Instance.Shows o') (M.result w c x ds) r) (make args) o') :
    Behaves I (M.setting w c x S) ((M.scheme w c).Meets c S (.target x))
      (parameters.bind fun parameters =>
        (Wiring.fillAll c x.title parameters ∅).bind make) o := by
  have hsources := hM.sources_eq hS
  have halone := Behaves.of_alone (E := M.setting w c x S) hp
  refine halone.bind_foretold ?_ ?_
  · intro wants parameters o₁ ho₁ hw h
    have hs : Want.supplies w c (under c (x :: S)) x.title 0 wants =
        (M.scheme w c).sources x := by rw [← hsources, sources, hw]
    refine .bind (.bind ((fillFrom h .nil hs.symm).imp ?_))
    rintro (f | values) o₂ ho₂ ⟨r', hg, hr⟩
    · cases Foretold.error_right.1 hr
      rw [hs] at hg
      exact ⟨_, Scheme.Comes.enter hx hg, rfl⟩
    · obtain ⟨ds, rfl, hvalues⟩ := Foretold.ok_right.1 hr
      rw [hs] at hg
      have hcomes := Scheme.Comes.enter hx hg
      refine .done fun o₃ ho₃ => ?_
      have hargs : Arguments.Show o₃ ⟨x.title, values⟩ (M.named w c x ds) := by
        rw [named, hw]
        exact hvalues.mono ho₃
      have ho := List.IsPrefix.trans ho₁ (List.IsPrefix.trans ho₂ ho₃)
      have hb : Behaves I Growth.appends.alone ((M.scheme w c).Meets c S (.target x))
          (make ⟨x.title, values⟩) o₃ :=
        (hmake _ ds o₃ ho rfl hargs).imp fun r o₄ _ hr => ⟨_, hcomes, hr⟩
      exact Behaves.of_alone (E := M.setting w c x S) hb
  · intro f o' _ hw
    have hs : (M.scheme w c).sources x = [.refuse f] := by rw [← hsources, sources, hw]
    have hg : (M.scheme w c).Gives c (x :: S) ((M.scheme w c).sources x) (.error f) :=
      hs ▸ .refuse
    exact ⟨_, Scheme.Comes.enter hx hg, rfl⟩

theorem want_shows (h : ∀ i, p.default = some i → i.Shows o (M.worth i)) :
    p.Shows o (M.want p) where
  name := rfl
  declared := rfl
  default := by
    change Option.Rel _ p.default (p.default.map M.worth)
    cases hi : p.default with
    | none => exact .none
    | some i => exact .some (h i hi)

theorem allocates {v : Value} {content : Content} (h : v.Shows o content) (type : TypeKey) :
    Behaves I Growth.appends.alone
      (fun r o' => Foretold (Instance.Shows o') (.ok ⟨type, content⟩) r) (allocate type v) o :=
  .allocate (fun _ _ => List.prefix_append _ _) fun _ ho => .done fun _ ho' =>
    (Instance.Shows.of_new (h.mono ho) type).mono ho'

theorem new {program : Program C Value} {r' : Except Failure Content} (type : TypeKey)
    (h : Behaves I Growth.appends.alone (fun r o' => Foretold (Value.Shows o') r' r) program o) :
    Behaves I Growth.appends.alone
      (fun r o' => Foretold (Instance.Shows o') (r'.map (⟨type, ·⟩)) r)
      (program.bind (allocate type)) o := by
  refine h.bind_foretold ?_ ?_
  · rintro content v o' ho rfl hv
    exact allocates hv type
  · rintro f o' ho rfl
    rfl

theorem copy {i : Instance} {d : Datum} (h : i.Shows o d) :
    Behaves I Growth.appends.alone (fun r o' => Foretold (Instance.Shows o') (.ok d) r)
      (Wiring.copy i) o := by
  obtain ⟨ht, v, hv, hs⟩ := h
  have hsame : ∀ o' : List Value, o'.modify i.object id = o' := fun o' => List.modify_id _ _
  refine .modify (fun o' _ => (hsame o').symm ▸ List.prefix_rfl) fun o' ho => ?_
  have hvalue : o'.getD i.object default = v := by
    obtain ⟨rest, rfl⟩ := ho
    have hl := (List.getElem?_eq_some_iff.1 hv).1
    rw [List.getD_eq_getElem?_getD, List.getElem?_append_left hl, hv]
    rfl
  rw [hsame, hvalue, ht]
  exact allocates (hs.mono ho) d.type

namespace Functional

variable {name : String} {e : EntryId} {entry : Entry C}

theorem parameters (hF : M.Functional I w c) (he : w.entry? c name = some (e, entry))
    (ho : w.objects <+: o) :
    Behaves I Growth.appends.alone
      (fun r o' => Foretold (List.Forall₂ (Parameter.Shows o'))
        (M.demands entry.registration.logic) r)
      entry.registration.logic.parameters o := by
  have hlisted : ∀ {parameters o'}, entry.registration.logic.listed = parameters → o <+: o' →
      List.Forall₂ (Parameter.Shows o') parameters (parameters.map M.want) := by
    rintro _ o' rfl ho'
    refine List.forall₂_map_right_iff.2 (List.forall₂_same.2 fun p hp => want_shows fun i hi => ?_)
    exact (hF.default he hp hi).mono (List.IsPrefix.trans ho ho')
  cases hl : entry.registration.logic with
  | made provides parameters body =>
    exact .done fun o' ho' => hlisted (by rw [hl]; rfl) ho'
  | given provides parameters body =>
    exact .done fun o' ho' => hlisted (by rw [hl]; rfl) ho'
  | constructed provides type => exact hF.manifest (.inl ⟨name, e, entry, provides, he, hl⟩) ho
  | literal value copies => exact .done fun o' ho' => .nil

theorem invoke (hF : M.Functional I w c) (he : w.entry? c name = some (e, entry))
    (ho : w.objects <+: o) {args : Arguments} {data : List (String × Datum)}
    (ha : args.Show o data) (shared : Bool) :
    Behaves I Growth.appends.alone
      (fun r o' => Foretold (Instance.Shows o')
        (M.yields args.target data entry.registration.logic) r)
      (entry.registration.logic.invoke shared c args) o := by
  cases hl : entry.registration.logic with
  | made provides parameters body => exact new provides (hF.make he hl ho ha)
  | given provides parameters body => exact hF.give he hl ho ha
  | constructed provides type =>
    exact new type (hF.construct (.inl ⟨name, e, entry, provides, he, hl⟩) ho ha)
  | literal value copies =>
    have hv := hF.literal he hl
    rw [Logic.invoke]
    split
    · exact .done fun o' ho' => hv.mono (List.IsPrefix.trans ho ho')
    · exact copy (hv.mono ho)

theorem build (hF : M.Functional I w c) (hM : M.Apart w c)
    (he : w.entry? c name = some (e, entry)) (ho : w.objects <+: o)
    (hS : ∀ y ∈ S, TransGen (M.scheme w c).Needs y (.service name))
    (hx : ¬ (Item.service name).Barred S) :
    Behaves I (M.setting w c (.service name) S)
      ((M.scheme w c).Meets c S (.target (.service name)))
      (Wiring.build c name entry.registration ∅) o := by
  refine .emit fun o' ho' => assemble hM hS hx ?_ ?_
  · rw [signature, he]
    exact hF.parameters he (List.IsPrefix.trans ho ho')
  · intro args ds o'' ho'' ht ha
    have ht : args.target = name := ht
    have hresult : M.result w c (.service name) ds =
        (M.yields args.target (M.named w c (.service name) ds) entry.registration.logic).bind
          (·.cast entry.registration.provides ("service '" ++ name ++ "'")) := by
      rw [result, he, ht]
    have hobjects := List.IsPrefix.trans ho (List.IsPrefix.trans ho' ho'')
    refine (hF.invoke he hobjects ha entry.registration.shared).bind_foretold ?_ ?_
    · intro d i o₃ _ hd hi
      rw [hresult, hd]
      exact .ofExcept fun o₄ ho₄ => (hi.mono ho₄).cast _ _
    · intro f o₃ _ hd
      rw [hresult, hd]
      rfl

theorem construction (hF : M.Functional I w c) (hM : M.Apart w c) {type : TypeKey}
    (hu : M.Uses w c type) (ho : w.objects <+: o)
    (hS : ∀ y ∈ S, TransGen (M.scheme w c).Needs y (.class type))
    (hx : ¬ (Item.class type).Barred S) :
    Behaves I (M.setting w c (.class type) S)
      ((M.scheme w c).Meets c S (.target (.class type))) (Wiring.construct c type ∅) o := by
  refine assemble hM hS hx (hF.manifest hu ho) fun args ds o' ho' ht ha => ?_
  have hb := new type (hF.construct hu (List.IsPrefix.trans ho ho') ha)
  rw [ht] at hb
  exact hb

end Functional

end Meanings

end Wiring
