import Wiring.Proofs.ComparedWorlds

namespace Wiring

variable {C : Client} {α : Type} {w : World C} {c : ContainerId} {name : String} {e : EntryId}

theorem Likeness.eq_unique {n n' m m' : ℕ} (h : n = m) (h' : n' = m') : n = n' ↔ m = m' :=
  h.congr h'

def Likeness.same : Likeness C where
  object := Eq
  entry := Eq
  state := Eq
  object_unique := @eq_unique
  entry_unique := @eq_unique

section

variable {β : Type}

theorem optionRel_iff_eq {R : β → β → Prop} (h : ∀ a b, R a b ↔ a = b) {x y : Option β} :
    Option.Rel R x y ↔ x = y := by
  constructor
  · rintro (h' | _)
    · rw [(h _ _).1 h']
    · rfl
  · rintro rfl
    cases x with
    | none => exact .none
    | some a => exact .some ((h a a).2 rfl)

theorem forall₂_iff_eq {R : β → β → Prop} (h : ∀ a b, R a b ↔ a = b) {l l' : List β} :
    List.Forall₂ R l l' ↔ l = l' := by
  have hR : R = Eq := funext fun a => funext fun b => propext (h a b)
  rw [hR, List.forall₂_eq_eq_eq]

end

def Likeness.Rigid (ρ : Likeness C) : Prop := ∀ o p, ρ.object o p ↔ o = p

theorem Likeness.same_rigid : (same : Likeness C).Rigid := fun _ _ => Iff.rfl

section

variable {ρ : Likeness C} (hρ : ρ.Rigid)

include hρ

theorem Instance.alike_iff_eq {i j : Instance} : i.Alike ρ j ↔ i = j := by
  obtain ⟨t, o⟩ := i
  obtain ⟨u, p⟩ := j
  rw [Instance.mk.injEq]
  exact ⟨fun h => ⟨h.type, (hρ _ _).1 h.object⟩, fun h => ⟨h.1, (hρ _ _).2 h.2⟩⟩

theorem cacheAlike_iff_eq {x y : Option Instance} :
    Option.Rel (Instance.Alike ρ) x y ↔ x = y :=
  optionRel_iff_eq fun _ _ => Instance.alike_iff_eq hρ

theorem fieldsAlike_iff_eq {l l' : List (String × Instance)} : FieldsAlike ρ l l' ↔ l = l' := by
  refine forall₂_iff_eq fun p q => ?_
  rw [Instance.alike_iff_eq hρ, Prod.ext_iff]

theorem Value.alike_iff_eq {v v' : Value} : v.Alike ρ v' ↔ v = v' := by
  constructor
  · rintro (_ | h)
    · rfl
    · rw [(fieldsAlike_iff_eq hρ).1 h]
  · rintro rfl
    by_cases h : ∃ fields, v = .record fields
    · obtain ⟨fields, rfl⟩ := h
      exact .record ((fieldsAlike_iff_eq hρ).2 rfl)
    · exact .plain fun fields hv => h ⟨fields, hv⟩

theorem parametersAlike_iff_eq {l l' : List Parameter} : ParametersAlike ρ l l' ↔ l = l' := by
  refine forall₂_iff_eq fun p q => ?_
  obtain ⟨n, t, d⟩ := p
  obtain ⟨n', t', d'⟩ := q
  rw [Parameter.mk.injEq]
  constructor
  · intro h
    exact ⟨h.name, h.declared, (cacheAlike_iff_eq hρ).1 h.default⟩
  · rintro ⟨rfl, rfl, rfl⟩
    exact ⟨rfl, rfl, (cacheAlike_iff_eq hρ).2 rfl⟩

theorem Registration.alike_iff_eq {r s : Registration C} : r.Alike ρ s ↔ r = s := by
  obtain ⟨b, logic⟩ := r
  obtain ⟨b', logic'⟩ := s
  rw [Registration.mk.injEq]
  constructor
  · rintro ⟨h, hl⟩
    refine ⟨h, ?_⟩
    cases hl with
    | made hp => rw [(parametersAlike_iff_eq hρ).1 hp]
    | given hp => rw [(parametersAlike_iff_eq hρ).1 hp]
    | constructed => rfl
    | literal hi => rw [(Instance.alike_iff_eq hρ).1 hi]
  · rintro ⟨rfl, rfl⟩
    refine ⟨rfl, ?_⟩
    cases logic with
    | made _ l _ => exact .made ((parametersAlike_iff_eq hρ).2 rfl)
    | given _ l _ => exact .given ((parametersAlike_iff_eq hρ).2 rfl)
    | constructed => exact .constructed
    | literal => exact .literal ((Instance.alike_iff_eq hρ).2 rfl)

theorem Arguments.alike_iff_eq {a b : Arguments} : a.Alike ρ b ↔ a = b := by
  obtain ⟨t, l⟩ := a
  obtain ⟨t', l'⟩ := b
  rw [Arguments.mk.injEq]
  exact ⟨fun h => ⟨h.target, (fieldsAlike_iff_eq hρ).1 h.values⟩,
    fun h => ⟨h.1, (fieldsAlike_iff_eq hρ).2 h.2⟩⟩

theorem Overrides.alike_refl (o : Overrides) : o.Alike ρ o where
  isEmpty := rfl
  positional _ := (cacheAlike_iff_eq hρ).2 rfl
  named _ := (cacheAlike_iff_eq hρ).2 rfl

theorem Goal.alike_refl (g : Goal) : ∃ c, g.Alike ρ c g := by
  cases g with
  | service c name o => exact ⟨c, .service (o.alike_refl hρ)⟩
  | «class» c type o => exact ⟨c, .class (o.alike_refl hρ)⟩

theorem Call.alike_refl (k : Call C) : ∃ c Rep, k.Alike ρ c k Rep ∧ ∀ r s, Rep r s → r = s := by
  cases k with
  | make body c args =>
    exact ⟨c, _, .make ((Arguments.alike_iff_eq hρ).2 rfl), fun _ _ => (Value.alike_iff_eq hρ).1⟩
  | give body c args =>
    exact ⟨c, _, .give ((Arguments.alike_iff_eq hρ).2 rfl), fun _ _ => (Instance.alike_iff_eq hρ).1⟩
  | manifest type => exact ⟨0, _, .manifest, fun _ _ => (parametersAlike_iff_eq hρ).1⟩
  | construct type args =>
    exact ⟨0, _, .construct ((Arguments.alike_iff_eq hρ).2 rfl),
      fun _ _ => (Value.alike_iff_eq hρ).1⟩

end

theorem Action.kin_same (a : Action C) :
    ∃ Rep, a.Kin Likeness.same a Rep ∧ ∀ r s, Rep r s → r = s := by
  have hρ := Likeness.same_rigid (C := C)
  cases a with
  | insert c name r =>
    exact ⟨_, .within (.insert ((Registration.alike_iff_eq hρ).2 rfl)), fun _ _ => id⟩
  | erase c name => exact ⟨_, .within .erase, fun _ _ => id⟩
  | names c => exact ⟨_, .within .names, fun _ _ => id⟩
  | candidates c type => exact ⟨_, .within .candidates, fun _ _ => id⟩
  | lookup c name =>
    refine ⟨_, .within .lookup, fun r s => (optionRel_iff_eq fun x y => ?_).1⟩
    rw [Registration.alike_iff_eq hρ, Prod.ext_iff]
    rfl
  | cached e => exact ⟨_, .within (c := 0) (.cached rfl), fun _ _ => (cacheAlike_iff_eq hρ).1⟩
  | newContainer => exact ⟨_, .newContainer, fun _ _ => id⟩
  | allocate type v =>
    exact ⟨_, .within (c := 0) (.allocate ((Value.alike_iff_eq hρ).2 rfl)),
      fun _ _ => (Instance.alike_iff_eq hρ).1⟩
  | modify o f =>
    refine ⟨_, .within (c := 0) (.modify rfl fun v v' h => ?_),
      fun _ _ => (Value.alike_iff_eq hρ).1⟩
    rw [(Value.alike_iff_eq hρ).1 h]
    exact (Value.alike_iff_eq hρ).2 rfl
  | installDefault c => exact ⟨_, .installDefault, fun _ _ => id⟩
  | currentDefault => exact ⟨_, .currentDefault, fun _ _ => id⟩
  | settleDefault => exact ⟨_, .settleDefault, fun _ _ => id⟩
  | resetDefault => exact ⟨_, .resetDefault, fun _ _ => id⟩
  | update f => exact ⟨_, .within (c := 0) (.update fun _ _ => congrArg f), fun _ _ => id⟩
  | await f => exact ⟨_, .await fun _ _ => congrArg f, fun _ _ => id⟩
  | awaitWaiters service count => exact ⟨_, .awaitWaiters, fun _ _ => id⟩
  | note r => exact ⟨_, .note, fun _ _ => id⟩
  | emit e => exact ⟨_, .within (c := 0) .emit, fun _ _ => id⟩
  | spawn jobs => exact ⟨_, .spawn, fun _ _ => id⟩
  | join threads => exact ⟨_, .join, fun _ _ => id⟩

theorem Except.Rel.eq_of_eq {β : Type} {Q : β → β → Prop} {a b : Except Error β}
    (h : Except.Rel Eq Q a b) (hQ : ∀ a b, Q a b → a = b) : a = b := by
  cases h with
  | ok h => rw [hQ _ _ h]
  | error h => rw [h]

theorem Kinship.Ends.eq {β : Type} {ρ : Likeness C} {Q : β → β → Prop} {r r' : Except Failure β}
    (h : (ρ.strict e c name).Ends Q r r') (hQ : ∀ a b, Q a b → a = b) : r = r' := by
  cases h with
  | ok h => rw [hQ _ _ h]
  | @error a b h =>
    obtain rfl : a = b := h
    rfl
  | crash h =>
    cases h with
    | same => rfl
    | @shows before a b h =>
      obtain rfl : a = b := h
      rfl

theorem Program.kin_same {Q : α → α → Prop} (hQ : ∀ a, Q a a) (p : Program C α) :
    p.Kin (Likeness.same.strict e c name) Q p := by
  have hρ := Likeness.same_rigid (C := C)
  induction p with
  | done a => exact .done (hQ a)
  | fail error => exact .fail rfl
  | crash message => exact .crash .same
  | act a next ih =>
    obtain ⟨Rep, ha, hRep⟩ := a.kin_same
    exact .act ha fun r s h => hRep r s h ▸ ih r
  | call k next ih =>
    obtain ⟨d, Rep, hk, hRep⟩ := k.alike_refl hρ
    exact .call trivial hk fun r s h => Except.Rel.eq_of_eq h hRep ▸ ih r
  | resolve g next ih =>
    obtain ⟨d, hg⟩ := g.alike_refl hρ
    refine .resolve trivial hg fun r s h => ?_
    rw [Except.Rel.eq_of_eq h fun _ _ => (Instance.alike_iff_eq hρ).1]
    exact ih s

theorem Implementation.respects_same (I : Implementation C) :
    I.Respects (Likeness.same.strict e c name) := by
  have hρ := Likeness.same_rigid (C := C)
  intro d k l Rep h
  cases h with
  | make h =>
    rw [(Arguments.alike_iff_eq hρ).1 h]
    exact Program.kin_same (fun _ => (Value.alike_iff_eq hρ).2 rfl) _
  | give h =>
    rw [(Arguments.alike_iff_eq hρ).1 h]
    exact Program.kin_same (fun _ => (Instance.alike_iff_eq hρ).2 rfl) _
  | manifest => exact Program.kin_same (fun _ => (parametersAlike_iff_eq hρ).2 rfl) _
  | construct h =>
    rw [(Arguments.alike_iff_eq hρ).1 h]
    exact Program.kin_same (fun _ => (Value.alike_iff_eq hρ).2 rfl) _

def World.recached (w : World C) (e : EntryId) (cache : Option Instance) : World C :=
  { w with entries := w.entries.modify e fun x => { x with cache := cache } }

theorem World.kin_recached (h : w.Placed e c name) (cache : Option Instance) :
    w.Kin (Likeness.same.strict e c name) (w.recached e cache) where
  containers := rfl
  services d other := (optionRel_iff_eq fun _ _ => Iff.rfl).2 rfl
  entries {f f'} hf := by
    obtain rfl : f = f' := hf
    simp only [recached, List.getElem?_modify]
    cases w.entries[f]? with
    | none => exact .none
    | some x =>
      refine .some ?_
      split <;> exact (Registration.alike_iff_eq Likeness.same_rigid).2 rfl
  caches {f f'} hf ha := by
    obtain rfl : f = f' := hf
    have hne : e ≠ f := fun he => ha c name ⟨he.symm, rfl, rfl⟩
    have hcached : (w.recached e cache).cached f = w.cached f := by
      simp only [World.cached, recached, List.getElem?_modify_ne _ _ hne]
    rw [hcached]
    exact (cacheAlike_iff_eq Likeness.same_rigid).2 rfl
  newEntries k := by
    change w.entries.length + k = (w.entries.modify e _).length + k
    rw [List.length_modify]
  aside ha := by
    obtain ⟨rfl, rfl, rfl⟩ := ha
    exact h
  objects {o p} ho := by
    obtain rfl : o = p := ho
    exact (optionRel_iff_eq fun _ _ => Value.alike_iff_eq Likeness.same_rigid).2 rfl
  newObjects k := rfl
  current := rfl
  waits := rfl
  state := rfl

end Wiring
