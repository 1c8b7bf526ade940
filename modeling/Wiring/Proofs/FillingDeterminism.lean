import Wiring.Proofs.EqualRuns
import Wiring.Proofs.Isolation
import Wiring.Proofs.Selection

namespace Wiring

variable {C : Client} {I : Implementation C} {w w' : World C} {S S' : Stack} {c : ContainerId}
  {κ : Kinship C} {o o' : Overrides} {position : ℕ} {x x' : Parameter}

theorem World.candidates_increasing (w : World C) (S : Stack) (c : ContainerId) (type : TypeKey) :
    (w.candidates S c type).Pairwise (· < ·) := by
  have hsorted : (w.candidates S c type).Pairwise (· ≤ ·) := by
    refine (List.pairwise_mergeSort (fun a b d hab hbd => ?_) (fun a b => ?_) _).imp
      of_decide_eq_true
    · exact decide_eq_true (String.le_trans (of_decide_eq_true hab) (of_decide_eq_true hbd))
    · simpa using String.le_total a b
  have hdistinct : (w.candidates S c type).Nodup :=
    (List.mergeSort_perm _ _).nodup_iff.2 ((Table.keysWhere_nodup _ _).filter _)
  refine (hsorted.and hdistinct).imp fun {a b} hab => ?_
  exact Decidable.byContradiction fun hlt =>
    hab.2 (String.le_antisymm hab.1 (String.not_lt.1 hlt))

namespace Parameter

theorem chosen_ambiguous {candidates : List String}
    (h : x.chosen w c S o position = .ambiguous candidates) :
    ∃ type, x.type? = some type ∧ candidates = w.candidates S c type ∧ 2 ≤ candidates.length ∧
      x.name ∉ candidates := by
  unfold chosen at h
  split at h
  · cases h
  · have hfallback : ∀ named, x.fallback named ≠ .ambiguous candidates := by
      intro named
      unfold fallback
      split
      · exact nofun
      · split <;> exact nofun
    unfold rule at h
    by_cases hnone : x.candidates w c S = []
    · rw [hnone] at h
      exact absurd h (hfallback _)
    · obtain ⟨type, ht⟩ : ∃ type, x.type? = some type := by
        unfold Parameter.candidates at hnone
        split at hnone
        · next type ht => exact ⟨type, ht⟩
        · exact absurd rfl hnone
      rw [candidates_of_type ht] at h hnone
      obtain ⟨rule, s, hr, hs, -⟩ | ⟨hr, hlen, hname⟩ := ofCandidates?_cases (x := x) hnone
      · rw [hr] at h
        subst h
        cases hs
      · rw [hr] at h
        cases h
        exact ⟨type, ht, rfl, hlen, hname⟩

theorem rule_kin (hw : w.Kin κ w') (hS : κ.stack S S') (hx : x.Alike κ.toLikeness x') :
    (x.rule w c S).Alike κ.toLikeness (x'.rule w' c S') := by
  have hcandidates : x.candidates w c S = x'.candidates w' c S' := by
    unfold candidates
    rw [hx.type?]
    split
    · exact hw.candidates hS c _
    · rfl
  have hsame : x.ofCandidates? (x.candidates w c S) = x'.ofCandidates? (x'.candidates w' c S') := by
    rw [hcandidates]
    unfold ofCandidates?
    rw [hx.name]
  have he := hw.entry? c x.name
  unfold rule
  rw [hsame, ← hx.name]
  split
  · next hr => exact ofCandidates?_same hr
  · generalize w.entry? c x.name = a, w'.entry? c x.name = b at he
    cases he with
    | none => exact hx.fallback none
    | some hy =>
      rw [Option.map_some, Option.map_some, hy.2.provides]
      exact hx.fallback _

theorem chosen_kin (hw : w.Kin κ w') (hS : κ.stack S S') (ho : o.Alike κ.toLikeness o')
    (hx : x.Alike κ.toLikeness x') (position : ℕ) :
    (x.chosen w c S o position).Alike κ.toLikeness (x'.chosen w' c S' o' position) := by
  have hl := ho.lookup position x.name
  unfold chosen
  rw [← hx.name]
  generalize o.lookup position x.name = a, o'.lookup position x.name = b at hl
  cases hl with
  | some hi => exact .override hi
  | none => exact rule_kin hw hS hx

end Parameter

structure World.SameServices (w w' : World C) : Prop where
  containers : w.containers.length = w'.containers.length
  services (c : ContainerId) (name : String) :
    (w.entry? c name).map Prod.snd = (w'.entry? c name).map Prod.snd
  objects : w.objects = w'.objects
  current : w.current = w'.current
  waits : w.waits = w'.waits
  state : w.state = w'.state

def Likeness.namesakes (w w' : World C) (hw : w.Unmixed) (hw' : w'.Unmixed) : Likeness C where
  object := Eq
  entry e f :=
    (∃ c name, (w.services c).get? name = some e ∧ (w'.services c).get? name = some f) ∨
      ∃ k, e = w.entries.length + k ∧ f = w'.entries.length + k
  state := Eq
  object_unique := @eq_unique
  entry_unique {e e' f f'} h h' := by
    obtain ⟨c, name, he, hf⟩ | ⟨k, rfl, rfl⟩ := h
    · have hpe := hw c name e he
      have hpf := hw' c name f hf
      obtain ⟨d, other, he', hf'⟩ | ⟨k', rfl, rfl⟩ := h'
      · constructor
        · rintro rfl
          obtain ⟨rfl, rfl⟩ := hpe.2 d other he'
          exact Option.some.inj (hf.symm.trans hf')
        · rintro rfl
          obtain ⟨rfl, rfl⟩ := hpf.2 d other hf'
          exact Option.some.inj (he.symm.trans he')
      · exact iff_of_false (Nat.ne_of_lt (Nat.lt_add_right k' hpe.1))
          (Nat.ne_of_lt (Nat.lt_add_right k' hpf.1))
    · obtain ⟨d, other, he', hf'⟩ | ⟨k', rfl, rfl⟩ := h'
      · exact iff_of_false (Nat.ne_of_gt (Nat.lt_add_right k (hw d other e' he').1))
          (Nat.ne_of_gt (Nat.lt_add_right k (hw' d other f' hf').1))
      · rw [Nat.add_right_inj, Nat.add_right_inj]

theorem World.Unmixed.entry? {name : String} {e : EntryId} (hw : w.Unmixed)
    (he : (w.services c).get? name = some e) : ∃ x, w.entry? c name = some (e, x) :=
  ⟨_, entry?_eq_some.2 ⟨he, List.getElem?_eq_getElem (hw c name e he).1⟩⟩

theorem Likeness.namesakes_rigid (hw : w.Unmixed) (hw' : w'.Unmixed) :
    (namesakes w w' hw hw').Rigid := fun _ _ => Iff.rfl

theorem World.SameServices.entries_eq (h : w.SameServices w') (hw : w.Unmixed) (hw' : w'.Unmixed)
    {e f : EntryId} (hef : (Likeness.namesakes w w' hw hw').entry e f) :
    w.entries[e]? = w'.entries[f]? := by
  obtain ⟨c, name, he, hf⟩ | ⟨k, rfl, rfl⟩ := hef
  · obtain ⟨x, hx⟩ := hw.entry? he
    obtain ⟨y, hy⟩ := hw'.entry? hf
    have hsame := h.services c name
    rw [hx, hy] at hsame
    obtain rfl : x = y := Option.some.inj hsame
    rw [(entry?_eq_some.1 hx).2, (entry?_eq_some.1 hy).2]
  · rw [List.getElem?_eq_none (Nat.le_add_right _ _),
      List.getElem?_eq_none (Nat.le_add_right _ _)]

theorem World.SameServices.namesakes (h : w.SameServices w') (hw : w.Unmixed) (hw' : w'.Unmixed)
    (c : ContainerId) (name : String) :
    Option.Rel (Likeness.namesakes w w' hw hw').entry ((w.services c).get? name)
      ((w'.services c).get? name) := by
  have hsame := h.services c name
  cases he : (w.services c).get? name with
  | none =>
    cases hf : (w'.services c).get? name with
    | none => exact .none
    | some f =>
      obtain ⟨y, hy⟩ := hw'.entry? hf
      rw [hy, World.entry?, he] at hsame
      cases hsame
  | some e =>
    obtain ⟨x, hx⟩ := hw.entry? he
    cases hf : (w'.services c).get? name with
    | none =>
      rw [hx, World.entry?, hf] at hsame
      cases hsame
    | some f => exact .some (.inl ⟨c, name, he, hf⟩)

theorem World.SameServices.kin (h : w.SameServices w') (hw : w.Unmixed) (hw' : w'.Unmixed) :
    w.Kin (Likeness.namesakes w w' hw hw').loose w' where
  containers := h.containers
  services := h.namesakes hw hw'
  entries {e f} hef := by
    rw [h.entries_eq hw hw' hef]
    cases w'.entries[f]? with
    | none => exact .none
    | some x => exact .some ((Registration.alike_iff_eq (Likeness.namesakes_rigid hw hw')).2 rfl)
  caches hef _ := by
    rw [World.cached, World.cached, h.entries_eq hw hw' hef]
    exact (cacheAlike_iff_eq (Likeness.namesakes_rigid hw hw')).2 rfl
  newEntries k := .inr ⟨k, rfl, rfl⟩
  aside ha := ha.elim
  objects {o p} hop := by
    obtain rfl : o = p := hop
    rw [h.objects]
    exact (optionRel_iff_eq fun _ _ => Value.alike_iff_eq (Likeness.namesakes_rigid hw hw')).2 rfl
  newObjects k := by
    change w.objects.length + k = w'.objects.length + k
    rw [h.objects]
  current := h.current
  waits := h.waits
  state := h.state

namespace Run

/-- By moment `l` the parameters have been filled one after the other, the first of them from moment
`n` on: each one by what becomes of the rule that is chosen for it when it is come to. The first one
that fails is the last one. -/
inductive FillsInTurn (σ : Run I) (L : Scope C) (c : ContainerId) (target : String) (o : Overrides)
    (l : ℕ) : ℕ → List Parameter → ℕ → List (Deed C) → Except Failure (List (String × Instance)) →
      Prop
  | nil {position n} (hl : n ≤ l) : FillsInTurn σ L c target o l position [] n [] (.ok [])
  | cons {position x ps n b m ds ds' i r} {rest : Instance → Program C L.Answer}
      (hfill : σ.Completes 0 L rest (fill c target o position x) n
        (x.inquiry (σ.state n).world c ((σ.state n).stack 0) o position ++ ds) (.ok i) m)
      (hb : n ≤ b)
      (hfollow : σ.Completes 0 L rest ((x.chosen (σ.state n).world c ((σ.state n).stack 0) o
        position).follow c target position x) b ds (.ok i) m)
      (hrest : FillsInTurn σ L c target o l (position + 1) ps m ds' r) :
      FillsInTurn σ L c target o l position (x :: ps) n
        (x.inquiry (σ.state n).world c ((σ.state n).stack 0) o position ++ ds ++ ds')
        (r.map ((x.name, i) :: ·))
  | fails {position x ps n b m ds e} {rest : Instance → Program C L.Answer}
      (hfill : σ.Completes 0 L rest (fill c target o position x) n
        (x.inquiry (σ.state n).world c ((σ.state n).stack 0) o position ++ ds) (.error e) m)
      (hb : n ≤ b)
      (hfollow : σ.Completes 0 L rest ((x.chosen (σ.state n).world c ((σ.state n).stack 0) o
        position).follow c target position x) b ds (.error e) m)
      (hl : m ≤ l) :
      FillsInTurn σ L c target o l position (x :: ps) n
        (x.inquiry (σ.state n).world c ((σ.state n).stack 0) o position ++ ds) (.error e)

variable {σ : Run I} {L : Scope C} {target : String} {ps : List Parameter} {n l m : ℕ}
  {ds : List (Deed C)}

theorem Completes.fillsInTurn {rest : List (String × Instance) → Program C L.Answer}
    {r : Except Failure (List (String × Instance))}
    (h : σ.Completes 0 L rest (fillFrom c target o position ps) n ds r l)
    (hone : (σ.state l).threads.length = 1) (hm : l ≤ m) :
    σ.FillsInTurn L c target o m position ps n ds r := by
  induction ps generalizing position n l ds r rest with
  | nil =>
    obtain ⟨rfl, -, rfl⟩ := Completes.of_ended (.ok []) h
    exact .nil (h.le.trans hm)
  | cons x ps ih =>
    have h : σ.Completes 0 L rest ((fill c target o position x).bind fun i =>
      (fillFrom c target o (position + 1) ps).bind fun values => .done ((x.name, i) :: values)) n ds
        r l := h
    obtain ⟨r₁, k, ds₁, ds₂, hfill, hafter, rfl⟩ := h.of_bind
    cases hafter with
    | goes hafter =>
      obtain ⟨b, ds₃, hb, -, rfl, hfollow⟩ :=
        hfill.follows (single_before hone hafter.le hafter.activity)
      obtain ⟨r₂, k₂, ds₄, ds₅, hothers, hdone, rfl⟩ := hafter.of_bind
      cases hdone with
      | goes hdone =>
        obtain ⟨rfl, -, rfl⟩ := hdone.of_ended (.ok (_ :: _))
        rw [List.append_nil]
        exact .cons hfill hb hfollow
          (ih hothers (single_before hone hdone.le hdone.activity) (hdone.le.trans hm))
      | stops =>
        rw [List.append_nil]
        exact .cons hfill hb hfollow (ih hothers hone hm)
    | stops =>
      obtain ⟨b, ds₃, hb, -, rfl, hfollow⟩ := hfill.follows hone
      rw [List.append_nil]
      exact .fails hfill hb hfollow hm

/-- A single thread that fills a parameter follows the rule that is chosen for it, and if the choice
is ambiguous, the candidates are all the services of its type that are not under way, in strictly
increasing order. The choice is the same in any other world with like services and like caches and
on any stack with the same targets. Arguments are filled one after the other by the rules that are
chosen so. All that becomes of them is the same in the other world, too: each one in turn is filled
by the same rule from the same service, or the filling fails for the same reason, but for the chain
that a circular dependency lists. -/
theorem arguments_determined (σ σ' : Run I) (ρ : Likeness C) (c : ContainerId) (n n' : ℕ)
    (hone : (σ.state n).threads.length = 1) (hone' : (σ'.state n').threads.length = 1)
    (hfair : σ.Attends 0) (hfair' : σ'.Attends 0)
    (hS : ∀ y, y ∈ (σ.state n).stack 0 ↔ y ∈ (σ'.state n').stack 0)
    (hw : (σ.state n).world.settled.Kin ρ.loose (σ'.state n').world.settled) :
    (∀ (L : Scope C) (rest : Instance → Program C L.Answer) (target : String) (o : Overrides)
        (position : ℕ) (x : Parameter),
      (σ.state n).activity 0 = L.runs ((fill c target o position x).bind rest) →
      ∃ rule b, rule = x.chosen (σ.state n).world c ((σ.state n).stack 0) o position ∧ n ≤ b ∧
        (σ.state b).activity 0 = L.runs ((rule.follow c target position x).bind rest) ∧
        (σ.state b).world.settled = (σ.state n).world.settled ∧
        ∀ candidates, rule = .ambiguous candidates →
          ∃ type, x.type? = some type ∧ candidates.Pairwise (· < ·) ∧ 2 ≤ candidates.length ∧
            x.name ∉ candidates ∧ ∀ s, s ∈ candidates ↔
              (σ.state n).world.Offers c type s ∧ (c, .service s) ∉ (σ.state n).stack 0) ∧
    (∀ (o o' : Overrides) (position : ℕ) (x x' : Parameter), o.Alike ρ o' → x.Alike ρ x' →
      (x.chosen (σ.state n).world c ((σ.state n).stack 0) o position).Alike ρ
        (x'.chosen (σ'.state n').world c ((σ'.state n').stack 0) o' position)) ∧
    (∀ (L : Scope C) (rest : Arguments → Program C L.Answer) (target : String) (o : Overrides)
        (ps : List Parameter) (ds : List (Deed C)) (r : Except Failure Arguments) (l : ℕ),
      σ.Completes 0 L rest (fillAll c target ps o) n ds r l → (σ.state l).threads.length = 1 →
      ∃ values, σ.FillsInTurn L c target o l 0 ps n ds values ∧ r = values.map (⟨target, ·⟩)) ∧
    ∀ (L L' : Scope C) (rest : Arguments → Program C L.Answer)
        (rest' : Arguments → Program C L'.Answer) (target : String) (o o' : Overrides)
        (ps ps' : List Parameter) (ds : List (Deed C)) (r : Except Failure Arguments) (l : ℕ),
      I.Respects ρ.loose → o.Alike ρ o' → ParametersAlike ρ ps ps' →
      σ.Completes 0 L rest (fillAll c target ps o) n ds r l → (σ.state l).threads.length = 1 →
      (σ'.state n').activity 0 = L'.runs ((fillAll c target ps' o').bind rest') →
      ∃ ds' r' l', σ'.Completes 0 L' rest' (fillAll c target ps' o') n' ds' r' l' ∧
        List.Forall₂ (Deed.Kin ρ) ds ds' ∧ ρ.loose.Ends (Arguments.Alike ρ) r r' ∧
        (σ.state l).world.settled.Kin ρ.loose (σ'.state l').world.settled := by
  refine ⟨?_, ?_, ?_, ?_⟩
  · intro L rest target o position x ha
    have hstands : (σ.state n).Stands ⟨(σ.state n).world.settled,
        L.runs ((fill c target o position x).bind rest)⟩ := ⟨hone, rfl, ha⟩
    obtain ⟨b, hb, -, -, hsettled, hfollows⟩ := Stands.follows hfair hstands
    rw [stack_of_stands hstands]
    refine ⟨_, b, rfl, hb, hfollows, hsettled, fun candidates hr => ?_⟩
    obtain ⟨type, ht, rfl, hlen, hname⟩ := Parameter.chosen_ambiguous hr
    exact ⟨type, ht, World.candidates_increasing _ _ _ _, hlen, hname,
      fun s => World.mem_candidates_iff⟩
  · intro o o' position x x' ho hx
    exact Parameter.chosen_kin hw hS ho hx position
  · intro L rest target o ps ds r l h hend
    have h : σ.Completes 0 L rest ((fillFrom c target o 0 ps).bind fun values =>
      .done (⟨target, values⟩ : Arguments)) n ds r l := h
    obtain ⟨values, k, ds₁, ds₂, hfills, hdone, rfl⟩ := h.of_bind
    cases hdone with
    | goes hdone =>
      obtain ⟨rfl, -, rfl⟩ := hdone.of_ended (.ok _)
      rw [List.append_nil]
      exact ⟨_, hfills.fillsInTurn (single_before hend hdone.le hdone.activity) hdone.le, rfl⟩
    | stops =>
      rw [List.append_nil]
      exact ⟨_, hfills.fillsInTurn hend (Nat.le_refl l), rfl⟩
  · intro L L' rest rest' target o o' ps ps' ds r l hI ho hps hc hend ha
    obtain ⟨ds', r', l', hc', -, hds, hr, hw'⟩ := hc.counterpart hI hend hfair' hone' ha
      (fillAll_corresponds trivial ho hps target) hS hw fun d _ => d.not_looks_loose
    exact ⟨ds', r', l', hc', hds, hr, hw'⟩

end Run

def Implementation.gathering : Implementation Client.homing where
  make body c _ := (Container.get c body).attempt.bind fun _ =>
    (Container.get c "m").attempt.bind fun _ => .done (.text "")
  give _ _ _ := .crash "nothing to give"
  manifest _ := .done []
  construct _ _ := .done (.text "")
  job _ := .done ()

theorem Implementation.gathering_respects (κ : Kinship Client.homing) : gathering.Respects κ := by
  intro c k l Rep h
  have hget : ∀ name, (Container.get c name : Program Client.homing Instance).Kin κ
      (Instance.Alike κ.toLikeness) (Container.get c name) := Container.get_corresponds trivial
  cases h with
  | make _ =>
    refine (hget _).attempt.bind fun _ _ _ => ?_
    exact (hget _).attempt.bind fun _ _ _ => .done (.plain nofun)
  | give _ => exact .crash .same
  | manifest => exact .done .nil
  | construct _ => exact .done (.plain nofun)

def Registration.first : Registration Client.homing := ⟨true, .made (.of "A") [] "b"⟩

def Registration.second : Registration Client.homing := ⟨true, .made (.of "B") [] "a"⟩

def Registration.third : Registration Client.homing :=
  ⟨true, .made (.of "M") [⟨"a", .untyped, none⟩] ""⟩

namespace World

def ordered : World Client.homing :=
  ofServices () [("a", .first), ("b", .second), ("m", .third)]

def shuffled : World Client.homing :=
  ofServices () [("m", .third), ("b", .first), ("a", .first), ("b", .second)]

theorem ordered_sameServices : ordered.SameServices shuffled where
  containers := rfl
  services c name := by
    match c with
    | 0 =>
      simp only [World.entry?]
      change Option.map _ ((Pairs.find? name [("a", 0), ("b", 1), ("m", 2)]).bind _) =
        Option.map _ ((Pairs.find? name [("m", 0), ("b", 3), ("a", 2)]).bind _)
      simp only [Pairs.find?]
      by_cases ha : "a" = name
      · subst ha; rfl
      · by_cases hb : "b" = name
        · subst hb; rfl
        · by_cases hm : "m" = name
          · subst hm; rfl
          · simp only [ha, hb, hm, if_false]
            rfl
    | _ + 1 => rfl
  objects := rfl
  current := rfl
  waits := rfl
  state := rfl

end World

namespace Run

def gathering (w : World Client.homing) (hw : w.Unbuilt) (name : String) :
    Run Implementation.gathering :=
  along ⟨w, [{ todo := [(Container.get 0 name).bind fun _ => .done ()] }]⟩
    { world := hw
      threads := fun h => by rw [List.mem_singleton.1 h]; exact ⟨rfl, rfl, rfl⟩ } fun _ => 0

def ordered : Run Implementation.gathering := gathering .ordered (World.ofServices_unbuilt _ _) "a"

def shuffled : Run Implementation.gathering :=
  gathering .shuffled (World.ofServices_unbuilt _ _) "b"

set_option maxRecDepth 2000 in
theorem gathering_world : (ordered.state 32).world.settled = .ordered ∧
    (shuffled.state 32).world.settled = .shuffled := ⟨rfl, rfl⟩

set_option maxRecDepth 2000 in
theorem gathering_fills (σ : Run Implementation.gathering) (hσ : σ = ordered ∨ σ = shuffled) :
    ∃ F next rest, (σ.state 32).activity 0 = (Scope.inside F next).runs
      ((fillAll 0 "m" [⟨"a", .untyped, none⟩] ∅).bind rest) := by
  obtain rfl | rfl := hσ <;> exact ⟨_, _, _, rfl⟩

theorem arguments_determined_shuffled :
    (ordered.state 32).stack 0 = [(0, .service "m"), (0, .service "b"), (0, .service "a")] ∧
      (shuffled.state 32).stack 0 = [(0, .service "m"), (0, .service "a"), (0, .service "b")] ∧
      ∃ ρ L L' rest rest' ds ds' r r' l l',
        ordered.Completes 0 L rest (fillAll 0 "m" [⟨"a", .untyped, none⟩] ∅) 32 ds r l ∧
        shuffled.Completes 0 L' rest' (fillAll 0 "m" [⟨"a", .untyped, none⟩] ∅) 32 ds' r' l' ∧
        List.Forall₂ (Deed.Kin ρ) ds ds' ∧ (Likeness.loose ρ).Ends (Arguments.Alike ρ) r r' := by
  have hstack : (ordered.state 32).stack 0 =
      [(0, .service "m"), (0, .service "b"), (0, .service "a")] := by decide +kernel
  have hstack' : (shuffled.state 32).stack 0 =
      [(0, .service "m"), (0, .service "a"), (0, .service "b")] := by decide +kernel
  have hone : (ordered.state 32).threads.length = 1 := by decide +kernel
  have hone' : (shuffled.state 32).threads.length = 1 := by decide +kernel
  obtain ⟨hw, hw'⟩ := gathering_world
  obtain ⟨F, next, rest, ha⟩ := gathering_fills ordered (.inl rfl)
  obtain ⟨F', next', rest', ha'⟩ := gathering_fills shuffled (.inr rfl)
  have hfills : Evaluates .gathering [(0, .service "m"), (0, .service "b"), (0, .service "a")]
      World.ordered (fillAll 0 "m" [⟨"a", .untyped, none⟩] ∅)
      [.access (.lookup 0 "a"), .access (.emit (.matchedByName "m" "a")), .ask (.service 0 "a" ∅)]
      (.error (.error (.circularDependency ["a", "b", "m", "a"]))) World.ordered :=
    .act rfl rfl (.act rfl rfl (.settled rfl .fail))
  obtain ⟨l, hc, hend, -⟩ := hfills.completes (along_attends _ _ _)
    ((insides_eq_stack ha).symm.trans hstack) ⟨hone, hw, ha⟩
  obtain ⟨ρ, hkin⟩ : ∃ ρ : Likeness Client.homing, World.ordered.Kin ρ.loose World.shuffled :=
    ⟨_, World.ordered_sameServices.kin (ordered.reachable 0).unmixed (shuffled.reachable 0).unmixed⟩
  rw [← hw, ← hw'] at hkin
  obtain ⟨-, -, -, hsame⟩ := arguments_determined ordered shuffled ρ 0 32 32 hone hone'
    (along_attends _ _ _) (along_attends _ _ _) (fun y => by rw [hstack, hstack']; simp [or_comm])
    hkin
  obtain ⟨ds', r', l', hc', hds, hr, -⟩ := hsame _ (.inside F' next') rest rest' "m" ∅ ∅ _ _ _ _ l
    (Implementation.gathering_respects _) .empty (.cons ⟨rfl, rfl, .none⟩ .nil) hc hend ha'
  exact ⟨hstack, hstack', ρ, _, _, rest, rest', _, ds', _, r', l, l', hc, hc', hds, hr⟩

end Run

end Wiring
