import Wiring.Proofs.Filling
import Wiring.Proofs.Interpretation
import Wiring.Proofs.Passage
import Wiring.Proofs.Realization

namespace Wiring

variable {C : Client} {I : Implementation C} {w w' : World C} {c : ContainerId} {S : Stack}

namespace World

theorem access_candidates (type : TypeKey) :
    w.access I S (.candidates c type) = some (w.candidates S c type, w) := rfl

theorem access_lookup (name : String) :
    w.access I S (.lookup c name) =
      some ((w.entry? c name).map fun (e, y) => (e, y.registration), w) := rfl

theorem access_emit (e : Event) : w.access I S (.emit e) = some ((), w) := rfl

def Offers (w : World C) (c : ContainerId) (type : TypeKey) (s : String) : Prop :=
  ∃ e y, w.entry? c s = some (e, y) ∧ y.registration.provides = type

theorem mem_candidates_iff {type : TypeKey} {s : String} :
    s ∈ w.candidates S c type ↔ w.Offers c type s ∧ (c, .service s) ∉ S := by
  have hfree : (!S.isResolving c s) = true ↔ (c, .service s) ∉ S := by simp [Stack.isResolving]
  simp only [candidates, sortNames, List.mem_mergeSort, List.mem_filter, hfree,
    Table.mem_keysWhere, provides, Option.any_eq_true, Offers]
  refine and_congr_left' ⟨?_, ?_⟩
  · rintro ⟨e, hs, y, hy, ht⟩
    exact ⟨e, y, entry?_eq_some.2 ⟨hs, hy⟩, of_decide_eq_true ht⟩
  · rintro ⟨e, y, he, ht⟩
    obtain ⟨hs, hy⟩ := entry?_eq_some.1 he
    exact ⟨e, hs, y, hy, decide_eq_true ht⟩

section

variable {name : String} {e : EntryId} {y : Entry C}

theorem opening_cached {i : Instance} (he : w.entry? c name = some (e, y))
    (hs : y.registration.shared = true) (hi : w.cached e = some i) :
    w.opening S (.service c name ∅) = .settled (.ok i) := by
  have hempty : Overrides.isEmpty ∅ = true := rfl
  simp only [opening, he, hs, hempty, Bool.and_self, if_true, hi]

theorem opening_uncached (he : w.entry? c name = some (e, y))
    (hs : y.registration.shared = true) (hi : w.cached e = none)
    (hfree : (c, .service name) ∉ S) :
    w.opening S (.service c name ∅) =
      .entered c (.service name) (build c name y.registration ∅) (some e) := by
  have hempty : Overrides.isEmpty ∅ = true := rfl
  simp only [opening, he, hs, hempty, Bool.and_self, if_true, hi]
  rw [Stack.opening, Stack.cycle?_eq_none.2 hfree]

end

end World

namespace Parameter

variable (w c S) (o : Overrides) (position : ℕ) (x : Parameter)

def chosen : Rule :=
  match o.lookup position x.name with
  | some i => .override i
  | none => x.rule w c S

def inquiry : List (Deed C) :=
  match o.lookup position x.name with
  | some _ => []
  | none => (x.type?.map fun type => .access (.candidates c type)).toList ++
      if (x.ofCandidates? (x.candidates w c S)).isSome then [] else [.access (.lookup c x.name)]

end Parameter

namespace Parameter

variable {o : Overrides} {position : ℕ} {x : Parameter}

theorem chosen_of_none (ho : o.lookup position x.name = none) :
    x.chosen w c S o position = x.rule w c S := by
  rw [chosen, ho]

theorem candidates_of_type {type : TypeKey} (ht : x.type? = some type) :
    x.candidates w c S = w.candidates S c type := by
  rw [candidates, ht]

theorem ofCandidates?_cases {candidates : List String} (h : candidates ≠ []) :
    (∃ rule s, x.ofCandidates? candidates = some rule ∧ rule.service? x = some s ∧
      s ∈ candidates) ∨
    x.ofCandidates? candidates = some (.ambiguous candidates) ∧ 2 ≤ candidates.length ∧
      x.name ∉ candidates := by
  match candidates with
  | [] => exact absurd rfl h
  | [only] => exact .inl ⟨_, only, rfl, rfl, List.mem_cons_self⟩
  | first :: second :: others =>
    by_cases hmem : x.name ∈ first :: second :: others
    · exact .inl ⟨.narrowed, x.name, by simp only [ofCandidates?, if_pos hmem], rfl, hmem⟩
    · exact .inr ⟨by simp only [ofCandidates?, if_neg hmem], by simp, hmem⟩

theorem chosen_of_candidates {type : TypeKey} {rule : Rule}
    (ho : o.lookup position x.name = none) (ht : x.type? = some type)
    (hr : x.ofCandidates? (w.candidates S c type) = some rule) :
    x.chosen w c S o position = rule ∧
      x.inquiry w c S o position = [.access (.candidates c type)] := by
  rw [chosen_of_none ho, Parameter.rule, inquiry, ho, candidates_of_type ht, hr, ht]
  exact ⟨rfl, rfl⟩

theorem chosen_named {type : TypeKey} {e : EntryId} {y : Entry C}
    (ho : o.lookup position x.name = none) (ht : x.type? = some type)
    (hc : w.candidates S c type = []) (he : w.entry? c x.name = some (e, y))
    (hy : y.registration.provides = type) :
    x.chosen w c S o position = .named ∧
      x.inquiry w c S o position = [.access (.candidates c type), .access (.lookup c x.name)] := by
  have haccepts : x.accepts y.registration.provides = true := hy ▸ accepts_of_type ht
  rw [chosen_of_none ho, Parameter.rule, inquiry, ho, candidates_of_type ht, hc, ht, he]
  simp only [ofCandidates?, fallback, Option.map_some, Option.any_some, haccepts]
  exact ⟨rfl, rfl⟩

theorem chosen_untyped (ho : o.lookup position x.name = none) (ht : x.type? = none)
    (he : (w.entry? c x.name).isSome) :
    x.chosen w c S o position = .named ∧
      x.inquiry w c S o position = [.access (.lookup c x.name)] := by
  obtain ⟨⟨e, y⟩, he⟩ := Option.isSome_iff_exists.1 he
  have haccepts : x.accepts y.registration.provides = true := by rw [accepts, ht]
  rw [chosen_of_none ho, Parameter.rule, inquiry, ho, candidates, ht, he]
  simp only [ofCandidates?, fallback, Option.map_some, Option.any_some, haccepts]
  exact ⟨rfl, rfl⟩

theorem rule_agrees (h : w.Agrees w') : x.rule w' c S = x.rule w c S := by
  have hcandidates : x.candidates w' c S = x.candidates w c S := by
    unfold candidates
    cases x.type? with
    | none => rfl
    | some type => exact h.candidates S c type
  have hlook := congrArg (Option.map (·.2.provides)) (h.lookup c x.name)
  rw [Option.map_map, Option.map_map] at hlook
  unfold rule
  rw [hcandidates]
  cases x.ofCandidates? (x.candidates w c S) with
  | some rule => rfl
  | none => exact congrArg x.fallback hlook

theorem chosen_agrees (h : w.Agrees w') :
    x.chosen w' c S o position = x.chosen w c S o position := by
  unfold chosen
  rw [rule_agrees h]

theorem rule_service {type : TypeKey} {s : String} (ht : x.type? = some type)
    (hs : (x.rule w c S).service? x = some s) :
    s ∈ w.candidates S c type ∨ w.candidates S c type = [] ∧ s = x.name ∧
      ∃ e y, w.entry? c x.name = some (e, y) ∧ y.registration.provides = type := by
  unfold rule at hs
  rw [candidates_of_type ht] at hs
  cases hr : x.ofCandidates? (w.candidates S c type) with
  | some rule =>
    rw [hr] at hs
    exact .inl (mem_of_ofCandidates? hr hs)
  | none =>
    rw [hr] at hs
    obtain ⟨rfl, provided, hp, ha⟩ := fallback_service hs
    obtain ⟨⟨e, y⟩, he, rfl⟩ := Option.map_eq_some_iff.1 hp
    refine .inr ⟨ofCandidates?_eq_none hr, rfl, e, y, he, ?_⟩
    rw [accepts, ht] at ha
    exact (of_decide_eq_true ha).symm

theorem chosen_service {type : TypeKey} {s : String} (ht : x.type? = some type)
    (hs : (x.chosen w c S o position).service? x = some s) :
    s ∈ w.candidates S c type ∨ w.candidates S c type = [] ∧ s = x.name ∧
      ∃ e y, w.entry? c x.name = some (e, y) ∧ y.registration.provides = type := by
  unfold chosen at hs
  split at hs
  · cases hs
  · exact rule_service ht hs

theorem rule_autowires {type : TypeKey} (h : x.rule w c S = .autowired type) :
    x.autowires? = some type := by
  unfold rule at h
  split at h
  · next rule hr =>
    subst h
    generalize x.candidates w c S = candidates at hr
    match candidates with
    | [] => cases hr
    | [_] => cases hr
    | _ :: _ :: _ =>
      simp only [ofCandidates?, Option.some.injEq] at hr
      split at hr <;> cases hr
  · unfold fallback at h
    split at h
    · cases h
    · split at h
      · next hauto => cases h; exact hauto
      · cases h
      · cases h

theorem chosen_autowires {type : TypeKey} (h : x.chosen w c S o position = .autowired type) :
    x.autowires? = some type := by
  unfold chosen at h
  split at h
  · cases h
  · exact rule_autowires h

end Parameter

theorem Rule.choose_of_none {o : Overrides} {position : ℕ} {x : Parameter}
    (ho : o.lookup position x.name = none) :
    (choose c o position x : Program C Rule) = choose c ∅ position x := by
  have hempty : (∅ : Overrides).lookup position x.name = none := rfl
  simp only [choose, ho, hempty]

namespace Evaluates

variable {o : Overrides} {position : ℕ} {x : Parameter} {target : String} {ds : List (Deed C)}
  {r : Except Failure Instance}

theorem scan : Evaluates I S w (x.scan c)
    (x.type?.map fun type => .access (.candidates c type)).toList (.ok (x.candidates w c S)) w := by
  unfold Parameter.scan Parameter.candidates
  cases x.type? with
  | none => exact .done
  | some type => exact .perform (World.access_candidates type) rfl

theorem choose : Evaluates I S w (Rule.choose c o position x) (x.inquiry w c S o position)
    (.ok (x.chosen w c S o position)) w := by
  unfold Parameter.inquiry Parameter.chosen
  cases ho : o.lookup position x.name with
  | some i =>
    simp only [Rule.choose, ho]
    exact .done
  | none =>
    rw [Rule.choose_of_none ho, Rule.choose_empty]
    refine scan.bind ?_
    unfold Parameter.rule
    cases x.ofCandidates? (x.candidates w c S) with
    | some rule => exact .done
    | none =>
      have hlook := World.access_lookup (I := I) (w := w) (c := c) (S := S) x.name
      refine (Evaluates.perform hlook rfl).bind ?_
      dsimp only
      rw [Option.map_map]
      exact .done

theorem of_fill (h : Evaluates I S w (fill c target o position x) ds r w') :
    ∃ ds', Evaluates I S w ((x.chosen w c S o position).follow c target position x) ds' r w' ∧
      ds = x.inquiry w c S o position ++ ds' := by
  cases h.of_bind with
  | goes h₁ h₂ =>
    obtain ⟨rfl, hr, rfl⟩ := h₁.unique choose
    cases hr
    exact ⟨_, h₂, rfl⟩
  | stops h₁ => cases (h₁.unique choose).2.1

theorem fill {ds' : List (Deed C)}
    (h : Evaluates I S w ((x.chosen w c S o position).follow c target position x) ds' r w') :
    Evaluates I S w (Wiring.fill c target o position x) (x.inquiry w c S o position ++ ds') r w' :=
  choose.bind h

theorem fillFrom_cons {ps : List Parameter} {i : Instance} {values : List (String × Instance)}
    {w₁ w₂ : World C} {ds₁ ds₂ : List (Deed C)}
    (h : Evaluates I S w (Wiring.fill c target o position x) ds₁ (.ok i) w₁)
    (hrest : Evaluates I S w₁ (fillFrom c target o (position + 1) ps) ds₂ (.ok values) w₂) :
    Evaluates I S w (fillFrom c target o position (x :: ps)) (ds₁ ++ ds₂)
      (.ok ((x.name, i) :: values)) w₂ := by
  refine h.bind ?_
  have hall := hrest.bind (f := fun values => .done ((x.name, i) :: values)) .done
  rwa [List.append_nil] at hall

theorem build {name : String} {reg : Registration C} {ps : List Parameter}
    {values : List (String × Instance)} {i : Instance} {w₁ w₂ w₃ : World C}
    {ds₁ ds₂ ds₃ : List (Deed C)}
    (hp : Evaluates I S w reg.logic.parameters ds₁ (.ok ps) w₁)
    (hf : Evaluates I S w₁ (fillFrom c name o 0 ps) ds₂ (.ok values) w₂)
    (hi : Evaluates I S w₂ (reg.logic.invoke reg.shared c ⟨name, values⟩) ds₃ (.ok i) w₃)
    (ht : i.type = reg.provides) :
    Evaluates I S w (Wiring.build c name reg o)
      (.access (.emit (.building name)) :: (ds₁ ++ (ds₂ ++ ds₃))) (.ok i) w₃ := by
  refine .act (World.access_emit _) rfl (hp.bind ?_)
  have hargs := hf.bind (f := fun values => .done (⟨name, values⟩ : Arguments)) .done
  have hcast : Evaluates I S w₃
      (.ofExcept (i.cast reg.provides ("service '" ++ name ++ "'"))) [] (.ok i) w₃ := by
    rw [Instance.cast_eq_ok.2 ⟨ht, rfl⟩]
    exact .done
  have hall := hargs.bind (f := fun args => (reg.logic.invoke reg.shared c args).bind fun i =>
    .ofExcept (i.cast reg.provides ("service '" ++ name ++ "'"))) (hi.bind hcast)
  rwa [List.append_nil, List.append_nil] at hall

end Evaluates

namespace Run

variable {σ : Run I} {L : Scope C} {rest : Instance → Program C L.Answer} {n : ℕ} {o : Overrides}
  {position : ℕ} {x : Parameter} {target : String}

theorem Requests.of_over {t : ThreadId} {g : Goal} {k : ℕ}
    {next : Except Error Instance → Program C L.Answer}
    (ha : (σ.state n).activity t = L.runs (.resolve g next)) (hm : σ.mover n = some t)
    (hk : n < k) (hover : ¬ L.Awaits next ((σ.state k).activity t)) :
    ∃ r l, l < k ∧ σ.Requests t L g next n r l := by
  obtain ⟨hne, -⟩ | ⟨-, hnext⟩ := runs_next ha
  · exact absurd hm hne
  · have hasks : σ.Asks t L g next n (n + 1) := by
      refine ⟨ha, hm, Nat.lt_succ_self n, fun i hi hi' => ?_⟩
      obtain rfl : i = n + 1 := by omega
      exact hnext ▸ L.awaits_asks g _
    obtain hstill | ⟨r, l, -, hl, hr⟩ := hasks.goes_on hk
    · exact absurd (hstill.awaits k hk (Nat.le_refl k)) hover
    · exact ⟨r, l, hl, hr⟩

theorem stack_of_stands {p : Program C L.Answer} (h : (σ.state n).Stands ⟨w, L.runs p⟩) :
    (σ.state n).stack 0 = insides L.frames :=
  insides_eq_stack h.2.2

theorem Stands.answers {α : Type} {p : Program C α} {f : α → Program C L.Answer} {a : α}
    {ds : List (Deed C)} (hfair : σ.Attends 0)
    (h : (σ.state n).Stands ⟨w, L.runs (p.bind f)⟩)
    (he : Evaluates I (insides L.frames) w p ds (.ok a) w') :
    ∃ b, n ≤ b ∧ σ.deeds 0 n b = ds ∧ (σ.state b).Stands ⟨w', L.runs (f a)⟩ := by
  obtain ⟨b, hc, hone, hw⟩ := he.completes hfair rfl h
  obtain ha | ⟨s, hs, -⟩ := hc.at_end
  · exact ⟨b, hc.le, hc.deeds_eq, hone, hw, ha⟩
  · cases hs

theorem Stands.follows (hfair : σ.Attends 0)
    (h : (σ.state n).Stands ⟨w, L.runs ((fill c target o position x).bind rest)⟩) :
    ∃ b, n ≤ b ∧ σ.deeds 0 n b = x.inquiry w c (insides L.frames) o position ∧
      (σ.state b).Stands ⟨w, L.runs (((x.chosen w c (insides L.frames) o position).follow c target
        position x).bind rest)⟩ := by
  have hfill : (fill c target o position x).bind rest =
      (Rule.choose c o position x).bind fun rule => (rule.follow c target position x).bind rest :=
    Program.bind_assoc _ _ _
  rw [hfill] at h
  exact Stands.answers (f := fun rule => (rule.follow c target position x).bind rest) hfair h
    .choose

theorem Completes.follows {ds : List (Deed C)} {r : Except Failure Instance} {l : ℕ}
    (h : σ.Completes 0 L rest (fill c target o position x) n ds r l)
    (hone : (σ.state l).threads.length = 1) :
    ∃ b ds', n ≤ b ∧ (σ.state b).world.settled = (σ.state n).world.settled ∧
      ds = x.inquiry (σ.state n).world c ((σ.state n).stack 0) o position ++ ds' ∧
      σ.Completes 0 L rest ((x.chosen (σ.state n).world c ((σ.state n).stack 0) o position).follow c
        target position x) b ds' r l := by
  have hstack := insides_eq_stack h.activity
  have h : σ.Completes 0 L rest ((Rule.choose c o position x).bind fun rule =>
      rule.follow c target position x) n ds r l := h
  obtain ⟨r₁, b, ds₁, ds₂, hp, hf, rfl⟩ := h.of_bind
  cases hf with
  | goes hf =>
    have hone' := single_before hone hf.le hf.activity
    obtain ⟨hds, hrule, hw⟩ := (hp.evaluates hone').unique Evaluates.choose
    cases hrule
    exact ⟨b, ds₂, hp.le, hw, hstack ▸ congrArg (· ++ ds₂) hds, hstack ▸ hf⟩
  | stops => cases ((hp.evaluates hone).unique Evaluates.choose).2.1

theorem Stands.gets {s : String} (hfair : σ.Attends 0)
    (h : (σ.state n).Stands ⟨w, L.runs ((fill c target o position x).bind rest)⟩)
    (hs : (x.chosen w c (insides L.frames) o position).service? x = some s) :
    ∃ e b, n ≤ b ∧ σ.deeds 0 n b =
        x.inquiry w c (insides L.frames) o position ++ [.access (.emit e)] ∧
      (σ.state b).Stands ⟨w, L.runs ((Container.get c s).bind rest)⟩ := by
  obtain ⟨k, hk, hds, hfollow⟩ := Stands.follows hfair h
  obtain ⟨e, he⟩ : ∃ e, ((x.chosen w c (insides L.frames) o position).follow c target position x :
      Program C Instance) = .act (.emit e) fun _ => Container.get c s := Rule.follow_of_service hs
  rw [he] at hfollow
  have hemit :=
    Evaluates.perform (World.access_emit (I := I) (S := insides L.frames) (w := w) e) rfl
  obtain ⟨b, hb, hds', hget⟩ := Stands.answers (f := fun _ => (Container.get c s).bind rest) hfair
    hfollow hemit
  exact ⟨e, b, hk.trans hb, by rw [← deeds_append hk hb, hds, hds'], hget⟩

def alone (w : World Client.plain) (hw : w.Unbuilt) (p : Program Client.plain Unit) :
    Run Implementation.plain :=
  along ⟨w, [{ todo := [p] }]⟩
    { world := hw
      threads := fun h => by rw [List.mem_singleton.1 h]; exact ⟨rfl, rfl, rfl⟩ } fun _ => 0

end Run

end Wiring
