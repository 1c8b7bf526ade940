import Wiring.Proofs.PrivateBodies

namespace Wiring

variable {C : Client} {I : Implementation C} {α β : Type} {S : Stack} {c : ContainerId}
  {w w' v : World C}

theorem Stack.cycle?_ends {x : Target} {chain : List String} (h : S.cycle? c x = some chain) :
    chain.head? = some x.label ∧ chain.getLast? = some x.label := by
  unfold cycle? at h
  split at h
  · cases h
    constructor
    · have hdrop := List.head?_dropWhile_not (· ≠ x) (S.targets c)
      cases hl : (S.targets c).dropWhile (· ≠ x) with
      | nil => rfl
      | cons y rest =>
        rw [hl] at hdrop
        exact congrArg (fun y => some (Target.label y)) (by simpa using hdrop)
    · rw [List.map_append, List.map_singleton, List.getLast?_concat]
  · cases h

def Straight (r : Except Failure α) : Prop := ∀ f, r = .error f → ¬ f.Circular

theorem Straight.ok (a : α) : Straight (.ok a : Except Failure α) := by
  rintro f ⟨⟩

theorem Straight.error {f : Failure} (h : Straight (.error f : Except Failure α)) :
    Straight (.error f : Except Failure β) := by
  rintro _ ⟨⟩
  exact h f rfl

namespace World

/-- All parameters of the services are typed, and none is autowired or named after a service of its
own type. The bodies use only their arguments, and announce no cycles on their own. -/
structure TypeMatched (I : Implementation C) (w : World C) (c : ContainerId) : Prop where
  declares {name : String} {e : EntryId} {x : Entry C} (h : w.entry? c name = some (e, x)) :
    x.registration.logic.Declares I fun r => Straight r ∧ ∀ ps, r = .ok ps → ∀ p ∈ ps,
      ∃ type, p.declared = .typed type ∧
        ∀ e y, w.entry? c p.name = some (e, y) → y.registration.provides ≠ type
  makes {name : String} {e : EntryId} {x : Entry C} (h : w.entry? c name = some (e, x))
    (args : Arguments) : x.registration.logic.Makes I c args Straight

def Yields (I : Implementation C) (w : World C) (n : ℕ) (S : Stack) (p : Program C α)
    (Q : Except Failure α → Prop) : Prop :=
  ∀ v ds r v', w.Agrees v → Evaluates I S v p ds r v' → ds.length ≤ n → w.Agrees v' ∧ Q r

namespace Yields

variable {n : ℕ} {p : Program C α} {Q : Except Failure α → Prop}

theorem bind {f : α → Program C β} {Q' : Except Failure β → Prop} (h : w.Yields I n S p Q)
    (hf : ∀ a, Q (.ok a) → w.Yields I n S (f a) Q') (hstop : ∀ e, Q (.error e) → Q' (.error e)) :
    w.Yields I n S (p.bind f) Q' := by
  intro v ds r v' hv he hn
  cases he.of_bind with
  | goes h₁ h₂ =>
    rw [List.length_append] at hn
    obtain ⟨hv₁, hq⟩ := h _ _ _ _ hv h₁ (Nat.le_of_add_right_le hn)
    exact hf _ hq _ _ _ _ hv₁ h₂ (Nat.le_of_add_left_le hn)
  | stops h₁ => exact (h _ _ _ _ hv h₁ hn).imp_right (hstop _)

theorem of_ends {bs : List (Call C)} (h : ∀ v, p.Ends I S v bs Q) : w.Yields I n S p Q := by
  rintro v ds r v' hv he -
  obtain ⟨hq, hw, -⟩ := (h v).of_evaluates he
  exact ⟨hv.trans hw.agrees, hq⟩

theorem done {a : α} (h : Q (.ok a)) : w.Yields I n S (.done a) Q := by
  rintro v ds r v' hv he -
  cases he
  exact ⟨hv, h⟩

theorem fail {e : Error} (h : Q (.error (.error e))) : w.Yields I n S (.fail e) Q := by
  rintro v ds r v' hv he -
  cases he
  exact ⟨hv, h⟩

theorem emit {e : Event} {q : Program C α} (h : w.Yields I n S q Q) :
    w.Yields I n S (.act (.emit e) fun _ => q) Q := by
  intro v ds r v' hv he hn
  cases he with
  | act ha _ he =>
    cases ha
    exact h _ _ _ _ hv he (Nat.le_of_succ_le hn)

theorem ofExcept {a : Except Error α} (h : Q (Except.mapError .error a)) :
    w.Yields I n S (.ofExcept a) Q := by
  rintro v ds r v' hv he -
  obtain ⟨-, rfl, rfl⟩ := he.of_ofExcept
  exact ⟨hv, h⟩

theorem request {g : Goal} {Q : Except Failure Instance → Prop}
    (h : ∀ v ds r v', w.Agrees v → Responds I S v g ds r v' → ds.length < n →
      w.Agrees v' ∧ Q r) : w.Yields I n S (Program.request g) Q := by
  intro v ds r v' hv he hn
  obtain ⟨ds, rfl, hr⟩ := he.of_request
  exact h _ _ _ _ hv hr hn

end Yields

variable {n : ℕ} {o : Overrides} {position : ℕ} {x : Parameter} {target name : String}

def Admits (I : Implementation C) (w : World C) (c : ContainerId) (n : ℕ) (S : Stack) : Prop :=
  ∀ s, (c, .service s) ∉ S →
    w.Yields I n S (Container.get c s : Program C Instance) Straight

theorem Admits.fill (h : w.Admits I c n S) {type : TypeKey} (hx : x.declared = .typed type)
    (hown : ∀ e y, w.entry? c x.name = some (e, y) → y.registration.provides ≠ type) :
    w.Yields I n S (fill c target o position x) Straight := by
  intro v ds r v' hv he hn
  obtain ⟨ds, hfollow, rfl⟩ := he.of_fill
  rw [Parameter.chosen_agrees hv] at hfollow
  rw [List.length_append] at hn
  refine (?_ : w.Yields I n S ((x.chosen w c S o position).follow c target position x) Straight)
    _ _ _ _ hv hfollow (Nat.le_of_add_left_le hn)
  have htype : x.type? = some type := by rw [Parameter.type?, hx]
  have hservice : ∀ s, (x.chosen w c S o position).service? x = some s →
      (c, .service s) ∉ S := by
    intro s hs
    obtain hmem | ⟨-, rfl, e, y, hy, heq⟩ := Parameter.chosen_service htype hs
    · exact (mem_candidates_iff.1 hmem).2
    · exact absurd heq (hown e y hy)
  cases hrule : x.chosen w c S o position with
  | override i => exact .emit (.done (.ok i))
  | onlyOfType s => exact .emit (h s (hservice s (hrule ▸ rfl)))
  | narrowed => exact .emit (h x.name (hservice x.name (hrule ▸ rfl)))
  | ambiguous candidates => exact .emit (.fail (by rintro f ⟨⟩ ⟨chain, hc⟩; cases hc))
  | named => exact .emit (h x.name (hservice x.name (hrule ▸ rfl)))
  | autowired t =>
    have hauto := Parameter.chosen_autowires hrule
    rw [Parameter.autowires?, hx] at hauto
    cases hauto
  | default i => exact .emit (.done (.ok i))
  | unresolvable => exact .fail (by rintro f ⟨⟩ ⟨chain, hc⟩; cases hc)

theorem Admits.fillFrom (h : w.Admits I c n S) {ps : List Parameter}
    (hps : ∀ p ∈ ps, ∃ type, p.declared = .typed type ∧
      ∀ e y, w.entry? c p.name = some (e, y) → y.registration.provides ≠ type) :
    w.Yields I n S (fillFrom c target o position ps) Straight := by
  induction ps generalizing position with
  | nil => exact .done (.ok _)
  | cons p rest ih =>
    obtain ⟨type, hp, hown⟩ := hps p List.mem_cons_self
    refine (h.fill hp hown).bind (fun i _ => ?_) fun f hf => hf.error
    refine (ih fun q hq => hps q (List.mem_cons_of_mem p hq)).bind (fun values _ => ?_)
      fun f hf => hf.error
    exact .done (.ok _)

theorem TypeMatched.build (ht : w.TypeMatched I c) {e : EntryId} {y : Entry C}
    (hy : w.entry? c name = some (e, y)) (h : w.Admits I c n S) :
    w.Yields I n S (build c name y.registration o) Straight := by
  refine .emit ?_
  refine (Yields.of_ends fun v => (ht.declares hy).ends S v).bind (fun ps hps => ?_)
    fun f hf => hf.1.error
  refine ((h.fillFrom (hps.2 ps rfl)).bind (fun values _ => .done (.ok _))
    fun f hf => hf.error).bind (fun args _ => ?_) fun f hf => hf.error
  refine (Yields.of_ends fun v => (ht.makes hy args).ends _ S v).bind (fun i _ => .ofExcept ?_)
    fun f hf => hf.error
  rintro f hf ⟨chain, rfl⟩
  unfold Instance.cast at hf
  split at hf <;> cases hf

theorem keep_agrees (w : World C) (e : Option EntryId) (r : Except Failure Instance) :
    w.Agrees (w.keep e r).2 := by
  unfold keep
  split
  · split
    · exact ⟨rfl, rfl⟩
    · exact .setCache _ _ _
  · exact ⟨rfl, rfl⟩

theorem error_of_keep {e : Option EntryId} {r : Except Failure Instance} {f : Failure}
    (h : (w.keep e r).1 = .error f) : r = .error f := by
  unfold keep at h
  split at h
  · split at h <;> cases h
  · exact h

theorem opening_free (w : World C) (hfree : (c, .service name) ∉ S) :
    w.entry? c name = none ∧
      w.opening S (.service c name o) = .settled (.error (.serviceNotFound name)) ∨
    ∃ e y, w.entry? c name = some (e, y) ∧
      ((∃ i, w.cached e = some i ∧ w.opening S (.service c name o) = .settled (.ok i)) ∨
        ∃ o' keeps, w.opening S (.service c name o) =
          .entered c (.service name) (Wiring.build c name y.registration o') keeps) := by
  have hopen : ∀ p keeps, S.opening c (.service name) p keeps =
      (.entered c (.service name) p keeps : Opening C) := by
    intro p keeps
    rw [Stack.opening, Stack.cycle?_eq_none.2 hfree]
  simp only [opening]
  cases he : w.entry? c name with
  | none => exact .inl ⟨rfl, rfl⟩
  | some entry =>
    obtain ⟨e, y⟩ := entry
    refine .inr ⟨e, y, rfl, ?_⟩
    simp only [hopen]
    split
    · cases hi : w.cached e with
      | some i => exact .inl ⟨i, rfl, rfl⟩
      | none => exact .inr ⟨∅, some e, rfl⟩
    · exact .inr ⟨o, none, rfl⟩

theorem opening_busy {e : EntryId} {y : Entry C} (he : w.entry? c name = some (e, y))
    (hbusy : (c, .service name) ∈ S) :
    ∃ a, w.opening S (.service c name ∅) = .settled a ∧
      ((∃ i, y.registration.shared = true ∧ w.cached e = some i ∧ a = .ok i) ∨
        (y.registration.shared = false ∨ w.cached e = none) ∧
          ∃ chain, a = .error (.circularDependency chain) ∧ chain.head? = some name ∧
            chain.getLast? = some name) := by
  obtain ⟨chain, hchain⟩ : ∃ chain, S.cycle? c (.service name) = some chain := by
    refine Option.ne_none_iff_exists'.1 fun hnone => ?_
    exact Stack.cycle?_eq_none.1 hnone hbusy
  have hopen : ∀ p keeps, S.opening c (.service name) p keeps =
      (.settled (.error (.circularDependency chain)) : Opening C) := by
    intro p keeps
    rw [Stack.opening, hchain]
  have hempty : Overrides.isEmpty ∅ = true := rfl
  simp only [opening, he, hopen, hempty, Bool.and_true]
  cases hs : y.registration.shared with
  | false => exact ⟨_, rfl, .inr ⟨.inl rfl, chain, rfl, Stack.cycle?_ends hchain⟩⟩
  | true =>
    cases hi : w.cached e with
    | some i => exact ⟨_, rfl, .inl ⟨i, rfl, rfl, rfl⟩⟩
    | none => exact ⟨_, rfl, .inr ⟨.inr rfl, chain, rfl, Stack.cycle?_ends hchain⟩⟩

theorem TypeMatched.responds (ht : w.TypeMatched I c) (n : ℕ) :
    ∀ S v name o ds r v', (c, .service name) ∉ S → w.Agrees v →
      Responds I S v (.service c name o) ds r v' → ds.length < n → w.Agrees v' ∧ Straight r := by
  -- The induction is on the number of deeds. What the parameters ask for is not under way on the
  -- stack that their service is entered on, which is all that is asked of a stack.
  induction n with
  | zero => exact fun _ _ _ _ _ _ _ _ _ _ hn => absurd hn (Nat.not_lt_zero _)
  | succ n ih =>
    intro S v name o ds r v' hfree hv hr hn
    have hadmits : w.Admits I c n (S.enter c (.service name)) := fun s hs =>
      .request fun v₁ ds₁ r₁ v₂ hv₁ hr₁ hn₁ => ih _ _ _ _ _ _ _ hs hv₁ hr₁ hn₁
    cases hr with
    | settled ho =>
      refine ⟨hv, ?_⟩
      obtain ⟨-, heq⟩ | ⟨e, y, -, ⟨i, -, heq⟩ | ⟨o', keeps, heq⟩⟩ :=
        v.opening_free (o := o) hfree
      · cases ho.symm.trans heq
        rintro f ⟨⟩ ⟨chain, hc⟩
        cases hc
      · cases ho.symm.trans heq
        exact .ok i
      · cases ho.symm.trans heq
    | @entered c' x p keeps ds r₁ v₁ r v' ho hp hk =>
      obtain ⟨-, heq⟩ | ⟨e, y, hy, ⟨i, -, heq⟩ | ⟨o', keeps, heq⟩⟩ :=
        v.opening_free (o := o) hfree
      · cases ho.symm.trans heq
      · cases ho.symm.trans heq
      · cases ho.symm.trans heq
        obtain ⟨y', hy', hreg⟩ := hv.entry? hy
        rw [← hreg] at hp
        obtain ⟨hv₁, hstraight⟩ := ht.build hy' hadmits _ _ _ _ hv hp (Nat.le_of_lt_succ hn)
        have hagrees := v₁.keep_agrees keeps r₁
        have herror := @error_of_keep _ v₁ keeps r₁
        rw [hk] at hagrees herror
        refine ⟨hv₁.trans hagrees, fun f hf => hstraight f (herror hf)⟩

end World

namespace Run

variable {σ : Run I} {L : Scope C} {rest : Instance → Program C L.Answer} {n : ℕ} {o : Overrides}
  {position : ℕ} {x : Parameter} {target : String} {type : TypeKey}

theorem Stands.matches_free (hfair : σ.Attends 0) (ht : x.type? = some type)
    (ho : o.lookup position x.name = none)
    (h : (σ.state n).Stands ⟨w, L.runs ((fill c target o position x).bind rest)⟩)
    (hfree : ∃ s, w.Offers c type s ∧ (c, .service s) ∉ insides L.frames) :
    (∃ s e b, w.Offers c type s ∧ (c, .service s) ∉ insides L.frames ∧ n ≤ b ∧
        σ.deeds 0 n b = [.access (.candidates c type), .access (.emit e)] ∧
        (σ.state b).Stands ⟨w, L.runs ((Container.get c s).bind rest)⟩) ∨
      ∃ candidates l, candidates = w.candidates (insides L.frames) c type ∧
        2 ≤ candidates.length ∧ σ.Completes 0 L rest (fill c target o position x) n
          [.access (.candidates c type), .access (.emit (.ambiguous target x.name candidates))]
          (.error (.error (.ambiguousService target x.name candidates))) l := by
  obtain ⟨s, hs⟩ := hfree
  have hmem := World.mem_candidates_iff.2 hs
  obtain ⟨rule, s', hr, hs', hmem'⟩ | ⟨hr, hlen, -⟩ :=
    x.ofCandidates?_cases (List.ne_nil_of_mem hmem)
  · obtain ⟨hrule, hds⟩ := Parameter.chosen_of_candidates ho ht hr
    obtain ⟨e, b, hb, hdeeds, hget⟩ := Stands.gets hfair h (hrule ▸ hs')
    obtain ⟨hoffers, hfree⟩ := World.mem_candidates_iff.1 hmem'
    rw [hds] at hdeeds
    exact .inl ⟨s', e, b, hoffers, hfree, hb, hdeeds, hget⟩
  · obtain ⟨hrule, hds⟩ := Parameter.chosen_of_candidates ho ht hr
    have hfollow : Evaluates I (insides L.frames) w
        ((x.chosen w c (insides L.frames) o position).follow c target position x)
        [.access (.emit (.ambiguous target x.name (w.candidates (insides L.frames) c type)))]
        (.error (.error (.ambiguousService target x.name
          (w.candidates (insides L.frames) c type)))) w := by
      rw [hrule]
      exact .act (World.access_emit _) rfl .fail
    have hfill := Evaluates.fill hfollow
    rw [hds] at hfill
    obtain ⟨l, hc, -⟩ := hfill.completes hfair rfl h
    exact .inr ⟨_, l, rfl, hlen, hc⟩

theorem Stands.matches_busy (hfair : σ.Attends 0) (ht : x.type? = some type)
    (ho : o.lookup position x.name = none)
    (h : (σ.state n).Stands ⟨w, L.runs ((fill c target o position x).bind rest)⟩)
    (hbusy : ∀ s, w.Offers c type s → (c, .service s) ∈ insides L.frames)
    {e : EntryId} {y : Entry C} (he : w.entry? c x.name = some (e, y))
    (hy : y.registration.provides = type) :
    (c, .service x.name) ∈ insides L.frames ∧
      ∃ a l, σ.Completes 0 L rest (fill c target o position x) n
          [.access (.candidates c type), .access (.lookup c x.name),
            .access (.emit (.matchedByName target x.name)), .ask (.service c x.name ∅)]
          (Except.mapError .error a) l ∧ (σ.state l).world.settled = w ∧
        ((∃ i, y.registration.shared = true ∧ w.cached e = some i ∧ a = .ok i) ∨
          (y.registration.shared = false ∨ w.cached e = none) ∧
            ∃ chain, a = .error (.circularDependency chain) ∧ chain.head? = some x.name ∧
              chain.getLast? = some x.name) := by
  have hin := hbusy x.name ⟨e, y, he, hy⟩
  obtain ⟨a, hopen, ha⟩ := World.opening_busy he hin
  have hcandidates : w.candidates (insides L.frames) c type = [] := by
    refine List.eq_nil_iff_forall_not_mem.2 fun s hs => ?_
    obtain ⟨hoffers, hfree⟩ := World.mem_candidates_iff.1 hs
    exact hfree (hbusy s hoffers)
  obtain ⟨hchosen, hinquiry⟩ :=
    Parameter.chosen_named ho ht hcandidates he hy
  have hget : Evaluates I (insides L.frames) w (Container.get c x.name)
      [.ask (.service c x.name ∅)] (Except.mapError .error a) w :=
    .request (.settled hopen)
  have hfollow : Evaluates I (insides L.frames) w
      ((x.chosen w c (insides L.frames) o position).follow c target position x)
      [.access (.emit (.matchedByName target x.name)), .ask (.service c x.name ∅)]
      (Except.mapError .error a) w := by
    rw [hchosen]
    exact .act (World.access_emit _) rfl hget
  have hfill := Evaluates.fill hfollow
  rw [hinquiry] at hfill
  obtain ⟨l, hc, -, hw⟩ := hfill.completes hfair rfl h
  exact ⟨hin, a, l, hc, hw, ha⟩

/-- On a single thread a typed parameter without an override never leads back, by its type, to a
service under way. If a service of its type is not under way, the thread comes to get such a one, or
fails because there are several. If all are under way and the parameter is named after one of them,
the thread comes to ask for it and is answered at once, from the cache or with a cycle. Where all
parameters are typed, and none is autowired or named after a service of its own type, no request
for a service that is not under way tells of a cycle, unless a body makes one up: `TypeMatched`
asks that bodies use only their arguments and do not themselves fail with a circular dependency. -/
theorem type_matching_spares (σ : Run I) (c : ContainerId) :
    (∀ (L : Scope C) (rest : Instance → Program C L.Answer) (n : ℕ) (target : String)
        (o : Overrides) (position : ℕ) (x : Parameter) (type : TypeKey),
      σ.Attends 0 → (σ.state n).threads.length = 1 → x.type? = some type →
      o.lookup position x.name = none →
      (σ.state n).activity 0 = L.runs ((fill c target o position x).bind rest) →
      ((∃ s, (σ.state n).world.Offers c type s ∧ (c, .service s) ∉ (σ.state n).stack 0) →
        (∃ s e b, (σ.state n).world.Offers c type s ∧ n ≤ b ∧
          σ.deeds 0 n b = [.access (.candidates c type), .access (.emit e)] ∧
          (σ.state b).activity 0 = L.runs ((Container.get c s).bind rest) ∧
          (c, .service s) ∉ (σ.state b).stack 0 ∧
          ((σ.state b).stack 0).cycle? c (.service s) = none) ∨
        ∃ candidates l, candidates = (σ.state n).world.candidates ((σ.state n).stack 0) c type ∧
          2 ≤ candidates.length ∧ σ.Completes 0 L rest (fill c target o position x) n
            [.access (.candidates c type), .access (.emit (.ambiguous target x.name candidates))]
            (.error (.error (.ambiguousService target x.name candidates))) l) ∧
      ((∀ s, (σ.state n).world.Offers c type s → (c, .service s) ∈ (σ.state n).stack 0) →
        ∀ e y, (σ.state n).world.entry? c x.name = some (e, y) →
          y.registration.provides = type →
          (c, .service x.name) ∈ (σ.state n).stack 0 ∧
          ∃ a l, σ.Completes 0 L rest (fill c target o position x) n
              [.access (.candidates c type), .access (.lookup c x.name),
                .access (.emit (.matchedByName target x.name)), .ask (.service c x.name ∅)]
              (Except.mapError .error a) l ∧
            (σ.state l).world.settled = (σ.state n).world.settled ∧
            ((∃ i, y.registration.shared = true ∧ (σ.state n).world.cached e = some i ∧
                a = .ok i) ∨
              (y.registration.shared = false ∨ (σ.state n).world.cached e = none) ∧
                ∃ chain, a = .error (.circularDependency chain) ∧
                  chain.head? = some x.name ∧ chain.getLast? = some x.name))) ∧
    ∀ (L : Scope C) (next : Except Error Instance → Program C L.Answer) (k l : ℕ) (name : String)
        (o : Overrides) (r : Except Failure Instance),
      (σ.state k).world.TypeMatched I c → (c, .service name) ∉ (σ.state k).stack 0 →
      σ.Requests 0 L (.service c name o) next k r l → (σ.state l).threads.length = 1 →
      ∀ chain, r ≠ .error (.error (.circularDependency chain)) := by
  constructor
  · intro L rest n target o position x type hfair hone ht ho ha
    have h : (σ.state n).Stands ⟨(σ.state n).world.settled,
        L.runs ((fill c target o position x).bind rest)⟩ := ⟨hone, rfl, ha⟩
    rw [stack_of_stands h]
    refine ⟨fun hfree => (Stands.matches_free hfair ht ho h hfree).imp_left ?_,
      fun hbusy e y he hy => Stands.matches_busy hfair ht ho h hbusy he hy⟩
    rintro ⟨s, e, b, hoffers, hfree, hb, hds, hget⟩
    have hstack := stack_of_stands hget
    exact ⟨s, e, b, hoffers, hb, hds, hget.2.2, hstack ▸ hfree,
      hstack ▸ Stack.cycle?_eq_none.2 hfree⟩
  · rintro L next k l name o r ht hfree hr hone chain rfl
    have hsettled : (σ.state k).world.settled.TypeMatched I c := ⟨ht.declares, ht.makes⟩
    obtain ⟨-, hstraight⟩ := hsettled.responds _ _ _ _ _ _ _ _ hfree ⟨rfl, rfl⟩
      (hr.responds hone) (Nat.lt_succ_self _)
    exact hstraight _ rfl ⟨chain, rfl⟩

end Run

namespace World

def paired : World Client.plain :=
  ofServices () [("a", ⟨true, .made (.of "A") [⟨"p", .typed (.of "B"), none⟩] ()⟩),
    ("b", ⟨true, .made (.of "B") [⟨"q", .typed (.of "A"), some ⟨.of "A", 0⟩⟩] ()⟩)]

theorem paired_entry {name : String} {e : EntryId} {x : Entry Client.plain}
    (h : World.entry? paired 0 name = some (e, x)) :
    name = "a" ∧ x.registration = ⟨true, .made (.of "A") [⟨"p", .typed (.of "B"), none⟩] ()⟩ ∨
    name = "b" ∧
      x.registration = ⟨true, .made (.of "B") [⟨"q", .typed (.of "A"), some ⟨.of "A", 0⟩⟩] ()⟩ := by
  obtain h | h := List.mem_pair.1 (mem_ofServices h)
  · exact .inl (Prod.mk.inj h)
  · exact .inr (Prod.mk.inj h)

theorem paired_typeMatched : paired.TypeMatched .plain 0 where
  declares {name e x} h := by
    have hunnamed : ∀ name, name = "p" ∨ name = "q" →
        ∀ e y, paired.entry? 0 name = some (e, y) → False := by
      rintro name hname e y h
      obtain ⟨rfl, -⟩ | ⟨rfl, -⟩ := paired_entry h <;> simp at hname
    obtain ⟨rfl, hx⟩ | ⟨rfl, hx⟩ := paired_entry h
    all_goals
      rw [hx]
      refine ⟨nofun, ?_⟩
      rintro ps ⟨⟩ p hp
      obtain rfl := List.mem_singleton.1 hp
      exact ⟨_, rfl, fun e y h => (hunnamed _ (by simp) e y h).elim⟩
  makes {name e x} h args := by
    obtain ⟨rfl, hx⟩ | ⟨rfl, hx⟩ := paired_entry h
    all_goals
      rw [hx]
      exact .ended (r := .ok (Value.text "")) (by rintro f ⟨⟩)

def circling : World Client.plain :=
  ofServices () [("a", ⟨true, .made (.of "A") [⟨"a", .typed (.of "A"), none⟩] ()⟩)]

end World

namespace Run

def paired : Run Implementation.plain :=
  alone .paired (World.ofServices_unbuilt _ _) ((Container.get 0 "a").bind fun _ => .done ())

def choosing : Run Implementation.plain :=
  alone .paired (World.ofServices_unbuilt _ _)
    ((fill 0 "t" ∅ 0 ⟨"p", .typed (.of "B"), none⟩).bind fun _ => .done ())

def circling : Run Implementation.plain :=
  alone .circling (World.ofServices_unbuilt _ _) ((Container.get 0 "a").bind fun _ => .done ())

theorem paired_requests : ∃ r l, paired.Requests 0 .own (.service 0 "a" ∅)
    (fun a => (Program.ofExcept a).bind fun _ => .done ()) 1 r l ∧
      (paired.state l).threads.length = 1 := by
  have hm : paired.mover 1 = some 0 := by decide +kernel
  have hidle : (paired.state 60).hasEnded 0 := by decide +kernel
  have hone : (paired.state 60).threads.length = 1 := by decide +kernel
  obtain ⟨r, l, hl, hr⟩ : ∃ r l, l < 60 ∧ paired.Requests 0 .own (.service 0 "a" ∅)
      (fun a => (Program.ofExcept a).bind fun _ => .done ()) 1 r l := by
    refine Requests.of_over rfl hm (by decide) ?_
    rw [Machine.activity_of_hasEnded hidle]
    rintro ⟨K, G, h, -⟩
    cases h
  exact ⟨r, l, hr, (single_at hone (Nat.le_of_lt hl) hr.takes).2⟩

theorem circling_fills : ∃ F next rest, (circling.state 9).activity 0 =
    (Scope.inside F next).runs ((fill 0 "a" ∅ 0 ⟨"a", .typed (.of "A"), none⟩).bind rest) := by
  let body (args : Arguments) : Program Client.plain Instance :=
    (Logic.invoke true 0 args (.made (.of "A") [⟨"a", .typed (.of "A"), none⟩] ())).bind fun i =>
      .ofExcept (i.cast (.of "A") "service 'a'")
  obtain ⟨F, next, h⟩ : ∃ F next, (circling.state 9).activity 0 =
      .resolving (.run ((fillAll 0 "a" [⟨"a", .typed (.of "A"), none⟩] ∅).bind body)) F next :=
    ⟨_, _, rfl⟩
  have hfill : (fillAll 0 "a" [⟨"a", .typed (.of "A"), none⟩] ∅).bind body =
      (fill 0 "a" ∅ 0 ⟨"a", .typed (.of "A"), none⟩).bind fun i => body ⟨"a", [("a", i)]⟩ := by
    exact (Program.bind_assoc _ _ _).trans (Program.bind_assoc _ _ _)
  exact ⟨F, next, _, h.trans (congrArg (fun p => Activity.resolving (.run p) F next) hfill)⟩

theorem type_matching_spares_paired :
    (∃ e b, choosing.deeds 0 1 b = [.access (.candidates 0 (.of "B")), .access (.emit e)] ∧
      (choosing.state b).activity 0 =
        .running ((Container.get 0 "b").bind fun _ => .done ())) ∧
    (∃ L rest l chain, circling.Completes 0 L rest (fill 0 "a" ∅ 0 ⟨"a", .typed (.of "A"), none⟩) 9
      [.access (.candidates 0 (.of "A")), .access (.lookup 0 "a"),
        .access (.emit (.matchedByName "a" "a")), .ask (.service 0 "a" ∅)]
      (.error (.error (.circularDependency chain))) l ∧ chain.head? = some "a" ∧
      chain.getLast? = some "a") ∧
    ∃ next r l, paired.Requests 0 .own (.service 0 "a" ∅) next 1 r l ∧
      ∀ chain, r ≠ .error (.error (.circularDependency chain)) := by
  refine ⟨?_, ?_, ?_⟩
  · obtain ⟨hfill, -⟩ := type_matching_spares choosing 0
    obtain ⟨hfree, -⟩ := hfill .own (fun _ => .done ()) 1 "t" ∅ 0
      ⟨"p", .typed (.of "B"), none⟩ (.of "B")
      (along_attends _ _ _) rfl rfl rfl rfl
    obtain ⟨s, e, b, ⟨e', y, hs, hy⟩, -, hds, ha, -⟩ | ⟨candidates, l, rfl, hlen, -⟩ :=
      hfree ⟨"b", ⟨1, _, rfl, rfl⟩, nofun⟩
    · obtain ⟨rfl, hx⟩ | ⟨rfl, -⟩ := World.paired_entry hs
      · rw [hx] at hy
        exact absurd hy (by decide)
      · exact ⟨e, b, hds, ha⟩
    · exact absurd hlen (by decide +kernel)
  · obtain ⟨hfill, -⟩ := type_matching_spares circling 0
    obtain ⟨F, next, rest, ha⟩ := circling_fills
    obtain ⟨-, hbusy⟩ := hfill (.inside F next) rest 9 "a" ∅ 0
      ⟨"a", .typed (.of "A"), none⟩ (.of "A")
      (along_attends _ _ _) rfl rfl rfl ha
    have hall : ∀ s, (circling.state 9).world.Offers 0 (.of "A") s →
        (0, .service s) ∈ (circling.state 9).stack 0 := by
      rintro s ⟨e, y, hs, -⟩
      have hs : World.circling.entry? 0 s = some (e, y) := hs
      obtain rfl : s = "a" := (Prod.mk.inj (List.mem_singleton.1 (World.mem_ofServices hs))).1
      exact List.mem_cons_self
    obtain ⟨-, a, l, hc, -, hends⟩ := hbusy hall 0 _ rfl rfl
    obtain ⟨i, -, hi, -⟩ | ⟨-, chain, rfl, hends⟩ := hends
    · cases hi
    · exact ⟨.inside F next, rest, l, chain, hc, hends⟩
  · obtain ⟨r, l, hr, hone⟩ := paired_requests
    obtain ⟨-, hspares⟩ := type_matching_spares paired 0
    exact ⟨_, r, l, hr,
      hspares .own _ 1 l "a" ∅ r World.paired_typeMatched (by decide +kernel) hr hone⟩

end Run

end Wiring
