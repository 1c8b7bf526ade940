import Wiring.Proofs.Realization
import Wiring.Proofs.RunComparison

/-!
Worlds of two runs that need not be told apart. Code that does not tell the runs apart does the same
in both of them and comes to the same end, as long as no cache is looked at that is put aside.
-/
namespace Wiring

variable {C : Client} {α β : Type}

theorem Table.keysWhere_perm {α β γ : Type} [DecidableEq α] {t : Table α β} {t' : Table α γ}
    {p : β → Bool} {p' : γ → Bool} (h : ∀ k, (t.get? k).any p = (t'.get? k).any p') :
    (t.keysWhere p).Perm (t'.keysWhere p') := by
  refine (List.perm_ext_iff_of_nodup (keysWhere_nodup _ _) (keysWhere_nodup _ _)).2 fun k => ?_
  have hk := h k
  rw [Bool.eq_iff_iff, Option.any_eq_true, Option.any_eq_true] at hk
  rw [mem_keysWhere, mem_keysWhere]
  exact hk

theorem World.services_newContainer (w : World C) (c : ContainerId) :
    w.newContainer.2.services c = w.services c := by
  simp only [newContainer, services, List.getD_eq_getElem?_getD, List.getElem?_append]
  split
  · rfl
  · next hc =>
    rw [List.getElem?_eq_none (Nat.le_of_not_lt hc)]
    cases c - w.containers.length <;> rfl

def World.Placed (w : World C) (e : EntryId) (c : ContainerId) (name : String) : Prop :=
  e < w.entries.length ∧
    ∀ d other, (w.services d).get? other = some e → d = c ∧ other = name

namespace World.Placed

variable {w w' : World C} {e : EntryId} {c : ContainerId} {name : String}

theorem edit (h : w.Placed e c name) (hw : w.Edit w') : w'.Placed e c name := by
  obtain ⟨he, honly⟩ := h
  obtain ⟨_, hnew⟩ := hw.services
  refine ⟨Nat.lt_of_lt_of_le he hw.entries.length_le, fun d other hd => ?_⟩
  obtain hd | ⟨rfl, -, -⟩ := hnew d other e hd
  · exact honly d other hd
  · exact absurd he (Nat.lt_irrefl _)

theorem setCache (h : w.Placed e c name) (f : EntryId) (i : Instance) :
    (w.setCache f i).Placed e c name :=
  ⟨h.1.trans_eq (List.length_modify ..).symm, h.2⟩

end World.Placed

def World.Unmixed (w : World C) : Prop :=
  ∀ c name e, (w.services c).get? name = some e → w.Placed e c name

theorem Machine.Reachable.unmixed {I : Implementation C} {m : Machine C} (h : m.Reachable I) :
    m.world.Unmixed := by
  intro c name e he
  obtain ⟨place, hplace, -⟩ := h.located
  obtain ⟨hlt, hkey⟩ := hplace c name e he
  refine ⟨hlt, fun d other hd => ?_⟩
  obtain ⟨-, hother⟩ := hplace d other e hd
  cases hkey.symm.trans hother
  exact ⟨rfl, rfl⟩

variable (κ : Kinship C)

/-- Like services stand under the same names, with like caches unless they are put aside, and like
objects hold like values. What is new will be paired. -/
structure World.Kin (w w' : World C) : Prop where
  containers : w.containers.length = w'.containers.length
  services (c : ContainerId) (name : String) :
    Option.Rel κ.entry ((w.services c).get? name) ((w'.services c).get? name)
  entries {e f : EntryId} (h : κ.entry e f) :
    Option.Rel (fun x y => x.registration.Alike κ.toLikeness y.registration) w.entries[e]?
      w'.entries[f]?
  caches {e f : EntryId} (h : κ.entry e f) (he : ∀ c name, ¬ κ.aside e c name) :
    Option.Rel (Instance.Alike κ.toLikeness) (w.cached e) (w'.cached f)
  newEntries (k : ℕ) : κ.entry (w.entries.length + k) (w'.entries.length + k)
  aside {e : EntryId} {c : ContainerId} {name : String} (h : κ.aside e c name) :
    w.Placed e c name
  objects {o p : ObjectId} (h : κ.object o p) :
    Option.Rel (Value.Alike κ.toLikeness) w.objects[o]? w'.objects[p]?
  newObjects (k : ℕ) : κ.object (w.objects.length + k) (w'.objects.length + k)
  current : w.current = w'.current
  waits : w.waits = w'.waits
  state : κ.state w.state w'.state

namespace World.Kin

variable {κ} {w w' : World C} {e f : EntryId} {o p : ObjectId} {i j : Instance} {S S' : Stack}
  {c : ContainerId}

theorem entry? (h : w.Kin κ w') (c : ContainerId) (name : String) :
    Option.Rel (fun x y => κ.entry x.1 y.1 ∧
      x.2.registration.Alike κ.toLikeness y.2.registration) (w.entry? c name)
      (w'.entry? c name) := by
  have hs := h.services c name
  simp only [World.entry?, Option.bind_eq_bind]
  generalize (w.services c).get? name = a, (w'.services c).get? name = b at hs
  cases hs with
  | none => exact .none
  | @some e f hef =>
    have he := h.entries hef
    simp only [Option.bind_some]
    generalize w.entries[e]? = x, w'.entries[f]? = y at he
    cases he with
    | none => exact .none
    | some hxy => exact .some ⟨hef, hxy⟩

theorem lookup (h : w.Kin κ w') (c : ContainerId) (name : String) :
    Option.Rel (fun x y => κ.entry x.1 y.1 ∧ x.2.Alike κ.toLikeness y.2)
      ((w.entry? c name).map fun (e, x) => (e, x.registration))
      ((w'.entry? c name).map fun (e, x) => (e, x.registration)) := by
  have he := h.entry? c name
  generalize w.entry? c name = a, w'.entry? c name = b at he
  cases he with
  | none => exact .none
  | some hxy => exact .some hxy

theorem value (h : w.Kin κ w') (hop : κ.object o p) :
    (w.value o).Alike κ.toLikeness (w'.value p) := by
  have hv := h.objects hop
  simp only [World.value, List.getD_eq_getElem?_getD]
  generalize w.objects[o]? = x, w'.objects[p]? = y at hv
  cases hv with
  | none => exact .plain fun _ hf => by cases hf
  | some hxy => exact hxy

theorem contains (h : w.Kin κ w') (c : ContainerId) (name : String) :
    (w.services c).contains name = (w'.services c).contains name := by
  have hs := h.services c name
  simp only [Table.contains]
  generalize (w.services c).get? name = a, (w'.services c).get? name = b at hs
  cases hs <;> rfl

theorem names (h : w.Kin κ w') (c : ContainerId) : w.names c = w'.names c := by
  apply sortNames_perm
  have hdistinct := (w.services c).distinct
  refine (List.perm_ext_iff_of_nodup hdistinct (w'.services c).distinct).2 fun name => ?_
  change name ∈ (w.services c).keys ↔ name ∈ (w'.services c).keys
  rw [Table.mem_keys_iff, Table.mem_keys_iff, h.contains]

theorem isResolving (hS : κ.stack S S') (c : ContainerId) (name : String) :
    S.isResolving c name = S'.isResolving c name := by
  have hfree : (c, .service name) ∉ S ↔ (c, .service name) ∉ S' := by
    rw [← Stack.cycle?_eq_none, ← Stack.cycle?_eq_none]
    have hc := κ.stack_cycle c (.service name) hS
    generalize S.cycle? c (.service name) = a, S'.cycle? c (.service name) = b at hc
    cases hc <;> simp
  rw [Stack.isResolving, Stack.isResolving, Bool.eq_iff_iff, List.contains_iff_mem,
    List.contains_iff_mem]
  exact not_iff_not.1 hfree

theorem candidates (h : w.Kin κ w') (hS : κ.stack S S') (c : ContainerId) (type : TypeKey) :
    w.candidates S c type = w'.candidates S' c type := by
  have hfilter : (fun name => !S.isResolving c name) = fun name => !S'.isResolving c name :=
    funext fun name => by rw [isResolving hS]
  apply sortNames_perm
  rw [hfilter]
  refine (Table.keysWhere_perm fun name => ?_).filter _
  have hs := h.services c name
  generalize (w.services c).get? name = a, (w'.services c).get? name = b at hs
  cases hs with
  | none => rfl
  | @some e f hef =>
    have he := h.entries hef
    simp only [Option.any_some, World.provides]
    generalize w.entries[e]? = x, w'.entries[f]? = y at he
    cases he with
    | none => rfl
    | some hxy => simp only [Option.any_some, hxy.provides]

theorem erase (h : w.Kin κ w') (c : ContainerId) (name : String) :
    (w.erase c name).Kin κ (w'.erase c name) where
  containers := by simpa only [World.erase, setServices, List.length_set] using h.containers
  services d other := by
    simp only [World.erase, services_setServices, h.containers]
    split
    · rw [Table.get?_erase, Table.get?_erase]
      split
      · exact .none
      · exact h.services c other
    · exact h.services d other
  entries := h.entries
  caches := h.caches
  newEntries := h.newEntries
  aside ha := (h.aside ha).edit (.erase w c name)
  objects := h.objects
  newObjects := h.newObjects
  current := h.current
  waits := h.waits
  state := h.state

theorem insert (h : w.Kin κ w') {r s : Registration C} (hr : r.Alike κ.toLikeness s)
    (c : ContainerId) (name : String) : (w.insert c name r).Kin κ (w'.insert c name s) where
  containers := by simpa only [World.insert, setServices, List.length_set] using h.containers
  services d other := by
    simp only [get?_insert, h.containers]
    split
    · exact .some (h.newEntries 0)
    · exact h.services d other
  entries {e f} hef := by
    change Option.Rel _ (w.entries ++ [⟨r, none⟩])[e]? (w'.entries ++ [⟨s, none⟩])[f]?
    have hnew := h.newEntries 0
    by_cases he : e = w.entries.length
    · subst he
      obtain rfl := (κ.entry_unique hef hnew).1 rfl
      simp only [Nat.add_zero, List.getElem?_concat_length]
      exact .some hr
    · have hf : f ≠ w'.entries.length := fun hf => he ((κ.entry_unique hef hnew).2 hf)
      rw [getElem?_concat_ne he, getElem?_concat_ne hf]
      exact h.entries hef
  caches {e f} hef ha := by
    rw [(Edit.insert w c name r).cached, (Edit.insert w' c name s).cached]
    exact h.caches hef ha
  newEntries k := by
    have hk := h.newEntries (k + 1)
    simpa only [World.insert, setServices, List.length_append, List.length_singleton,
      Nat.add_assoc, Nat.add_comm 1 k] using hk
  aside ha := (h.aside ha).edit (.insert w c name r)
  objects := h.objects
  newObjects := h.newObjects
  current := h.current
  waits := h.waits
  state := h.state

theorem allocate (h : w.Kin κ w') (type : TypeKey) {v v' : Value} (hv : v.Alike κ.toLikeness v') :
    World.Kin κ (w.allocate type v).2 (w'.allocate type v').2 :=
  { h with
    objects := fun {o p} hop => by
      change Option.Rel _ (w.objects ++ [v])[o]? (w'.objects ++ [v'])[p]?
      have hnew := h.newObjects 0
      by_cases ho : o = w.objects.length
      · subst ho
        obtain rfl := (κ.object_unique hop hnew).1 rfl
        simp only [Nat.add_zero, List.getElem?_concat_length]
        exact .some hv
      · have hp : p ≠ w'.objects.length := fun hp => ho ((κ.object_unique hop hnew).2 hp)
        rw [getElem?_concat_ne ho, getElem?_concat_ne hp]
        exact h.objects hop
    newObjects := fun k => by
      have hk := h.newObjects (k + 1)
      simpa only [World.allocate, List.length_append, List.length_singleton, Nat.add_assoc,
        Nat.add_comm 1 k] using hk }

theorem modify (h : w.Kin κ w') {g g' : Value → Value} (hop : κ.object o p)
    (hg : ∀ v v' : Value, v.Alike κ.toLikeness v' → (g v).Alike κ.toLikeness (g' v')) :
    World.Kin κ { w with objects := w.objects.modify o g }
      { w' with objects := w'.objects.modify p g' } :=
  { h with
    objects := fun {o' p'} hop' => by
      have hv := h.objects hop'
      simp only [List.getElem?_modify, κ.object_unique hop hop']
      generalize w.objects[o']? = x, w'.objects[p']? = y at hv
      cases hv with
      | none => exact .none
      | some hxy =>
        by_cases he : p = p'
        · simp only [he, if_true, Option.map_eq_map, Option.map_some]
          exact .some (hg _ _ hxy)
        · simp only [he, if_false, Option.map_eq_map, Option.map_some]
          exact .some hxy
    newObjects := fun k => by simpa only [List.length_modify] using h.newObjects k }

theorem inRange (h : w.Kin κ w') (hef : κ.entry e f) :
    e < w.entries.length ↔ f < w'.entries.length := by
  have he := h.entries hef
  rw [← not_iff_not, Nat.not_lt, Nat.not_lt, ← List.getElem?_eq_none_iff,
    ← List.getElem?_eq_none_iff]
  generalize w.entries[e]? = x, w'.entries[f]? = y at he
  cases he <;> simp

theorem setCache (h : w.Kin κ w') (hef : κ.entry e f) (hi : i.Alike κ.toLikeness j) :
    (w.setCache e i).Kin κ (w'.setCache f j) :=
  { h with
    entries := fun {e' f'} hef' => by
      have hx := h.entries hef'
      simp only [World.setCache, List.getElem?_modify, κ.entry_unique hef hef']
      generalize w.entries[e']? = x, w'.entries[f']? = y at hx
      cases hx with
      | none => exact .none
      | some hxy =>
        by_cases he : f = f'
        · simp only [he, if_true, Option.map_eq_map, Option.map_some]
          exact .some hxy
        · simp only [he, if_false, Option.map_eq_map, Option.map_some]
          exact .some hxy
    caches := fun {e' f'} hef' ha => by
      rw [cached_setCache, cached_setCache]
      simp only [κ.entry_unique hef hef', h.inRange hef']
      split
      · exact .some hi
      · exact h.caches hef' ha
    newEntries := fun k => by
      simpa only [World.setCache, List.length_modify] using h.newEntries k
    aside := fun ha => (h.aside ha).setCache e i }

theorem newContainer (h : w.Kin κ w') : w.newContainer.2.Kin κ w'.newContainer.2 :=
  { h with
    containers := by simp only [World.newContainer, List.length_append, h.containers]
    services := fun c name => by
      rw [services_newContainer, services_newContainer]
      exact h.services c name
    aside := fun ha => (h.aside ha).edit (.newContainer rfl rfl rfl) }

end World.Kin

variable {κ : Kinship C} {I : Implementation C} {w w' w₁ : World C} {S S' : Stack}

theorem World.Kin.access_within (h : w.Kin κ w') (hS : κ.stack S S') {c : ContainerId}
    {a b : Action C} {Rep : a.Reply → b.Reply → Prop} (ha : a.Alike κ.toLikeness c b Rep)
    (hl : ¬ (Deed.access a).Looks κ) {r : a.Reply} (hacc : w.access I S a = some (r, w₁)) :
    ∃ s w₁', w'.access I S' b = some (s, w₁') ∧ Rep r s ∧ w₁.Kin κ w₁' := by
  cases ha with
  | insert hr => cases hacc; exact ⟨_, _, rfl, h.contains _ _, h.insert hr _ _⟩
  | erase => cases hacc; exact ⟨_, _, rfl, h.contains _ _, h.erase _ _⟩
  | names => cases hacc; exact ⟨_, _, rfl, h.names _, h⟩
  | candidates => cases hacc; exact ⟨_, _, rfl, h.candidates hS _ _, h⟩
  | lookup => cases hacc; exact ⟨_, _, rfl, h.lookup _ _, h⟩
  | cached he => cases hacc; exact ⟨_, _, rfl, h.caches he fun c name hn => hl ⟨c, name, hn⟩, h⟩
  | @allocate type _ _ hv =>
    cases hacc
    exact ⟨_, _, rfl, ⟨rfl, h.newObjects 0⟩, h.allocate type hv⟩
  | modify ho hf => cases hacc; exact ⟨_, _, rfl, h.value ho, h.modify ho hf⟩
  | update hf => cases hacc; exact ⟨_, _, rfl, h.state, { h with state := hf _ _ h.state }⟩
  | note => cases hacc; exact ⟨_, _, rfl, rfl, h⟩
  | emit => cases hacc; exact ⟨_, _, rfl, rfl, h⟩

theorem World.Kin.access (h : w.Kin κ w') (hS : κ.stack S S') {a b : Action C}
    {Rep : a.Reply → b.Reply → Prop} (ha : a.Kin κ.toLikeness b Rep)
    (hl : ¬ (Deed.access a).Looks κ) {r : a.Reply} (hacc : w.access I S a = some (r, w₁)) :
    ∃ s w₁', w'.access I S' b = some (s, w₁') ∧ Rep r s ∧ w₁.Kin κ w₁' := by
  cases ha with
  | within ha => exact h.access_within hS ha hl hacc
  | newContainer => cases hacc; exact ⟨_, _, rfl, h.containers, h.newContainer⟩
  | installDefault => cases hacc; exact ⟨_, _, rfl, h.current, { h with current := rfl }⟩
  | currentDefault => cases hacc; exact ⟨_, _, rfl, h.current, h⟩
  | settleDefault =>
    have hcurrent := h.current
    simp only [World.access, Machine.perform] at hacc ⊢
    generalize hd : w.current = d, hd' : w'.current = d' at hacc hcurrent ⊢
    subst hcurrent
    cases d with
    | some c => cases hacc; exact ⟨_, _, rfl, rfl, h⟩
    | none =>
      cases hacc
      exact ⟨_, _, rfl, h.containers, { h.newContainer with current := congrArg some h.containers }⟩
  | resetDefault => cases hacc; exact ⟨_, _, rfl, h.current, { h with current := rfl }⟩
  | await hf =>
    simp only [World.access, Machine.perform, hf _ _ h.state] at hacc ⊢
    split at hacc
    · next hready => cases hacc; exact ⟨(), w', by rw [if_pos hready]; rfl, rfl, h⟩
    · cases hacc
  | awaitWaiters =>
    simp only [World.access, Machine.perform, h.waits] at hacc ⊢
    split at hacc
    · next hready => cases hacc; exact ⟨(), w', by rw [if_pos hready]; rfl, rfl, h⟩
    · cases hacc
  | note => cases hacc; exact ⟨_, _, rfl, rfl, h⟩
  | spawn => cases hacc; exact ⟨_, _, rfl, rfl, h⟩
  | @join threads =>
    have hended : ∀ (v : World C) (T : Stack) u, Machine.hasEnded ⟨v,
        [{ stack := T, activity := .running (.crash ""), todo := [] }]⟩ u = !(u == 0) := by
      rintro v T (- | u) <;> rfl
    simp only [World.access, Machine.perform, funext (hended _ _)] at hacc ⊢
    split at hacc
    · next hready => cases hacc; exact ⟨(), w', by rw [if_pos hready]; rfl, rfl, h⟩
    · cases hacc

theorem Action.Kin.brings {a b : Action C} {Rep : a.Reply → b.Reply → Prop}
    (h : a.Kin κ.toLikeness b Rep) (ha : a.brings I = []) : b.brings I = [] := by
  cases h with
  | within h => cases h <;> rfl
  | spawn => exact ha
  | _ => rfl

inductive Opening.Kin (κ : Kinship C) : Opening C → Opening C → Prop
  | settled {a b} (h : Except.Rel κ.error (Instance.Alike κ.toLikeness) a b) :
      Kin κ (.settled a) (.settled b)
  | entered {c x p q keeps keeps'} (hp : p.Kin κ (Instance.Alike κ.toLikeness) q)
      (hk : Option.Rel (fun e f => κ.entry e f ∧ ∀ c name, ¬ κ.aside e c name) keeps keeps') :
      Kin κ (.entered c x p keeps) (.entered c x q keeps')

theorem Stack.opening_kin (hS : κ.stack S S') (c : ContainerId) (x : Target)
    {p q : Program C Instance} {keeps keeps' : Option EntryId}
    (hp : p.Kin κ (Instance.Alike κ.toLikeness) q)
    (hk : Option.Rel (fun e f => κ.entry e f ∧ ∀ c name, ¬ κ.aside e c name) keeps keeps') :
    (S.opening c x p keeps).Kin κ (S'.opening c x q keeps') := by
  have hc := κ.stack_cycle c x hS
  unfold opening
  generalize S.cycle? c x = a, S'.cycle? c x = b at hc
  cases hc with
  | none => exact .entered hp hk
  | some h => exact .settled (.error h)

theorem World.Kin.opening (h : w.Kin κ w') (hS : κ.stack S S') {c : ContainerId} {g g' : Goal}
    (hg : g.Alike κ.toLikeness c g') (hl : ¬ (Deed.ask g : Deed C).Looks κ) :
    (w.opening S g).Kin κ (w'.opening S' g') := by
  cases hg with
  | «class» ho =>
    exact Stack.opening_kin hS c _ (construct_corresponds (κ := κ.comparison) trivial ho _) .none
  | @service name o o' ho =>
    have he := h.entry? c name
    have haside : ∀ e x, w.entry? c name = some (e, x) → o.isEmpty = true →
        ∀ d other, ¬ κ.aside e d other := by
      intro e x hx hempty d other ha
      obtain ⟨rfl, rfl⟩ := (h.aside ha).2 c name (entry?_eq_some.1 hx).1
      exact hl ⟨hempty, e, ha⟩
    simp only [World.opening]
    generalize hx : w.entry? c name = x, w'.entry? c name = y at he
    cases he with
    | none => exact .settled (.error (κ.error_refl _))
    | @some x y hxy =>
      obtain ⟨e, x⟩ := x
      obtain ⟨f, y⟩ := y
      obtain ⟨hef, hr⟩ := hxy
      dsimp only at hef hr ⊢
      have hbuild {o o' : Overrides} (ho : o.Alike κ.toLikeness o') :=
        build_corresponds (κ := κ.comparison) (c := c) trivial hr ho name
      rw [hr.shared, ho.isEmpty]
      split
      · next hcond =>
        have hfree := haside e x hx (ho.isEmpty.trans (Bool.and_eq_true_iff.1 hcond).2)
        have hcached := h.caches hef hfree
        generalize w.cached e = a, w'.cached f = b at hcached
        cases hcached with
        | some hi => exact .settled (.ok hi)
        | none => exact Stack.opening_kin hS c _ (hbuild .empty) (.some ⟨hef, hfree⟩)
      · exact Stack.opening_kin hS c _ (hbuild ho) .none

theorem World.Kin.opening_settled (h : w.Kin κ w') (hS : κ.stack S S') {c : ContainerId}
    {g g' : Goal} {a : Except Error Instance} (hg : g.Alike κ.toLikeness c g')
    (hl : ¬ (Deed.ask g : Deed C).Looks κ) (ho : w.opening S g = .settled a) :
    ∃ b, w'.opening S' g' = .settled b ∧ Except.Rel κ.error (Instance.Alike κ.toLikeness) a b := by
  have hopen := h.opening hS hg hl
  rw [ho] at hopen
  generalize w'.opening S' g' = o' at hopen
  cases hopen with
  | settled hab => exact ⟨_, rfl, hab⟩

theorem World.Kin.opening_entered (h : w.Kin κ w') (hS : κ.stack S S') {c d : ContainerId}
    {g g' : Goal} {x : Target} {p : Program C Instance} {keeps : Option EntryId}
    (hg : g.Alike κ.toLikeness c g') (hl : ¬ (Deed.ask g : Deed C).Looks κ)
    (ho : w.opening S g = .entered d x p keeps) :
    ∃ q keeps', w'.opening S' g' = .entered d x q keeps' ∧
      p.Kin κ (Instance.Alike κ.toLikeness) q ∧
      Option.Rel (fun e f => κ.entry e f ∧ ∀ c name, ¬ κ.aside e c name) keeps keeps' := by
  have hopen := h.opening hS hg hl
  rw [ho] at hopen
  generalize w'.opening S' g' = o' at hopen
  cases hopen with
  | entered hp hk => exact ⟨_, _, rfl, hp, hk⟩

theorem World.Kin.keep (h : w.Kin κ w') {keeps keeps' : Option EntryId}
    {r r' : Except Failure Instance}
    (hk : Option.Rel (fun e f => κ.entry e f ∧ ∀ c name, ¬ κ.aside e c name) keeps keeps')
    (hr : κ.Ends (Instance.Alike κ.toLikeness) r r') :
    κ.Ends (Instance.Alike κ.toLikeness) (w.keep keeps r).1 (w'.keep keeps' r').1 ∧
      (w.keep keeps r).2.Kin κ (w'.keep keeps' r').2 := by
  cases hk with
  | none => exact ⟨hr, h⟩
  | @some e f hef =>
    obtain ⟨hef, hfree⟩ := hef
    cases hr with
    | error he => exact ⟨.error he, h⟩
    | crash hs => exact ⟨.crash hs, h⟩
    | ok hi =>
      have hcached := h.caches hef hfree
      simp only [World.keep]
      generalize w.cached e = a, w'.cached f = b at hcached
      cases hcached with
      | none => exact ⟨.ok hi, h.setCache hef hi⟩
      | some hkept => exact ⟨.ok hkept, h⟩

theorem Evaluates.kin (hI : I.Respects κ) {p : Program C α} {ds : List (Deed C)}
    {r : Except Failure α} (h : Evaluates I S w p ds r w₁) :
    ∀ {β : Type} {Q : α → β → Prop} {q : Program C β} {S' : Stack} {w' : World C},
      p.Kin κ Q q → κ.stack S S' → w.Kin κ w' → (∀ d ∈ ds, ¬ d.Looks κ) →
        ∃ ds' r' w₁', Evaluates I S' w' q ds' r' w₁' ∧
          List.Forall₂ (Deed.Kin κ.toLikeness) ds ds' ∧ κ.Ends Q r r' ∧ w₁.Kin κ w₁' := by
  -- What the second program ends with has a type of its own, which changes from part to part.
  induction h with
  | done =>
    intro β Q q S' w' hp _ hw _
    cases hp with
    | done h => exact ⟨[], _, w', .done, .nil, .ok h, hw⟩
  | fail =>
    intro β Q q S' w' hp _ hw _
    cases hp with
    | fail h => exact ⟨[], _, w', .fail, .nil, .error h, hw⟩
  | crash =>
    intro β Q q S' w' hp _ hw _
    cases hp with
    | crash h => exact ⟨[], _, w', .crash, .nil, .crash h, hw⟩
  | act ha hn _ ih =>
    intro β Q q S' w' hp hS hw hl
    obtain ⟨hl₁, hl₂⟩ := List.forall_mem_cons.1 hl
    cases hp with
    | act hab hnext =>
      obtain ⟨s, w₂, hb, hrs, hw₂⟩ := hw.access hS hab hl₁ ha
      obtain ⟨ds', r', w₃, he, hds, hend⟩ := ih (hnext _ _ hrs) hS hw₂ hl₂
      exact ⟨_, r', w₃, .act hb (hab.brings hn) he, .cons (.access hab) hds, hend⟩
  | call _ ih =>
    intro β Q q S' w' hp hS hw hl
    obtain ⟨-, hl₂⟩ := List.forall_mem_cons.1 hl
    cases hp with
    | call _ hk hnext =>
      obtain ⟨ds', r', w₃, he, hds, hend⟩ := ih ((hI _ _ _ _ hk).attempt.bind hnext) hS hw hl₂
      exact ⟨_, r', w₃, .call he, .cons (.call hk) hds, hend⟩
  | settled ho _ ih =>
    intro β Q q S' w' hp hS hw hl
    obtain ⟨hl₁, hl₂⟩ := List.forall_mem_cons.1 hl
    cases hp with
    | resolve _ hg hnext =>
      obtain ⟨b, ho', hab⟩ := hw.opening_settled hS hg hl₁ ho
      obtain ⟨ds', r', w₃, he, hds, hend⟩ := ih (hnext _ _ hab) hS hw hl₂
      exact ⟨_, r', w₃, .settled ho' he, .cons (.ask hg) hds, hend⟩
  | entered ho _ hk _ ihp ih =>
    intro β Q q S' w' hp hS hw hl
    obtain ⟨hl₁, hl₂⟩ := List.forall_mem_cons.1 hl
    obtain ⟨hlp, hlr⟩ := List.forall_mem_append.1 hl₂
    cases hp with
    | resolve _ hg hnext =>
      obtain ⟨q, keeps', ho', hpq, hkeeps⟩ := hw.opening_entered hS hg hl₁ ho
      obtain ⟨ds₁, r₁, w₂, he₁, hds₁, hr₁, hw₂⟩ := ihp hpq (κ.stack_enter _ _ hS) hw hlp
      obtain ⟨hr₂, hw₃⟩ := hw₂.keep hkeeps hr₁
      rw [hk] at hr₂ hw₃
      obtain ⟨b, hb, hab⟩ := hr₂.of_answer
      obtain ⟨ds₂, r', w₄, he₂, hds₂, hend⟩ := ih (hnext _ _ hab) hS hw₃ hlr
      exact ⟨_, r', w₄, .entered ho' he₁ (Prod.ext hb rfl) he₂,
        .cons (.ask hg) (List.rel_append hds₁ hds₂), hend⟩
  | crashed ho _ ihp =>
    intro β Q q S' w' hp hS hw hl
    obtain ⟨hl₁, hl₂⟩ := List.forall_mem_cons.1 hl
    cases hp with
    | resolve _ hg hnext =>
      obtain ⟨q, keeps', ho', hpq, -⟩ := hw.opening_entered hS hg hl₁ ho
      obtain ⟨ds₁, r₁, w₂, he₁, hds₁, hr₁, hw₂⟩ := ihp hpq (κ.stack_enter _ _ hS) hw hl₂
      obtain ⟨s', rfl, hs⟩ := hr₁.of_crash
      exact ⟨_, _, w₂, .crashed ho' he₁, .cons (.ask hg) hds₁, .crash hs, hw₂⟩

theorem Responds.kin (hI : I.Respects κ) {c : ContainerId} {g g' : Goal} {ds : List (Deed C)}
    {r : Except Failure Instance} (h : Responds I S w g ds r w₁) (hg : g.Alike κ.toLikeness c g')
    (hS : κ.stack S S') (hw : w.Kin κ w') (hl : ∀ d ∈ Deed.ask g :: ds, ¬ d.Looks κ) :
    ∃ ds' r' w₁', Responds I S' w' g' ds' r' w₁' ∧
      List.Forall₂ (Deed.Kin κ.toLikeness) ds ds' ∧
      κ.Ends (Instance.Alike κ.toLikeness) r r' ∧ w₁.Kin κ w₁' := by
  obtain ⟨hl₁, hl₂⟩ := List.forall_mem_cons.1 hl
  cases h with
  | settled ho =>
    obtain ⟨b, ho', hab⟩ := hw.opening_settled hS hg hl₁ ho
    exact ⟨[], _, w', .settled ho', .nil, .of_rel hab, hw⟩
  | entered ho hp hk =>
    obtain ⟨q, keeps', ho', hpq, hkeeps⟩ := hw.opening_entered hS hg hl₁ ho
    obtain ⟨ds', r', w₂, he, hds, hr, hw₂⟩ := hp.kin hI hpq (κ.stack_enter _ _ hS) hw hl₂
    obtain ⟨hr₂, hw₃⟩ := hw₂.keep hkeeps hr
    rw [hk] at hr₂ hw₃
    exact ⟨ds', _, _, .entered ho' he rfl, hds, hr₂, hw₃⟩

namespace Run

variable {σ σ' : Run I} {L L' : Scope C} {k n l : ℕ}

theorem Requests.counterpart (hI : I.Respects κ) {c : ContainerId} {g g' : Goal}
    {next : Except Error Instance → Program C L.Answer}
    {next' : Except Error Instance → Program C L'.Answer} {r : Except Failure Instance}
    (hr : σ.Requests 0 L g next k r l) (hone : (σ.state l).threads.length = 1)
    (hfair : σ'.Attends 0) (hone' : (σ'.state n).threads.length = 1)
    (ha : (σ'.state n).activity 0 = L'.runs (.resolve g' next')) (hg : g.Alike κ.toLikeness c g')
    (hS : κ.stack ((σ.state k).stack 0) ((σ'.state n).stack 0))
    (hw : (σ.state k).world.settled.Kin κ (σ'.state n).world.settled)
    (hl : ∀ d ∈ Deed.ask g :: σ.deeds 0 (k + 1) l, ¬ d.Looks κ) :
    ∃ k' r' l', n ≤ k' ∧ σ'.Rests n k' ∧ σ'.Requests 0 L' g' next' k' r' l' ∧
      List.Forall₂ (Deed.Kin κ.toLikeness) (σ.deeds 0 (k + 1) l) (σ'.deeds 0 (k' + 1) l') ∧
      κ.Ends (Instance.Alike κ.toLikeness) r r' ∧
      (σ.state (l + 1)).world.settled.Kin κ (σ'.state (l' + 1)).world.settled := by
  obtain ⟨ds', r', w', hresp, hds, hend, hw'⟩ := (hr.responds hone).kin hI hg hS hw hl
  rw [insides_eq_stack ha] at hresp
  obtain ⟨k', l', hk, hrests, hr', rfl, -, rfl⟩ := hresp.requests hfair ⟨hone', rfl, ha⟩
  rw [← hr.settled] at hw'
  exact ⟨k', r', l', hk, hrests, hr', hds, hend, hw'⟩

theorem Completes.counterpart (hI : I.Respects κ) {Q : α → β → Prop} {p : Program C α}
    {q : Program C β} {rest : α → Program C L.Answer} {rest' : β → Program C L'.Answer}
    {ds : List (Deed C)} {r : Except Failure α} (hc : σ.Completes 0 L rest p k ds r l)
    (hone : (σ.state l).threads.length = 1) (hfair : σ'.Attends 0)
    (hone' : (σ'.state n).threads.length = 1)
    (ha : (σ'.state n).activity 0 = L'.runs (q.bind rest')) (hp : p.Kin κ Q q)
    (hS : κ.stack ((σ.state k).stack 0) ((σ'.state n).stack 0))
    (hw : (σ.state k).world.settled.Kin κ (σ'.state n).world.settled)
    (hl : ∀ d ∈ ds, ¬ d.Looks κ) :
    ∃ ds' r' l', σ'.Completes 0 L' rest' q n ds' r' l' ∧ (σ'.state l').threads.length = 1 ∧
      List.Forall₂ (Deed.Kin κ.toLikeness) ds ds' ∧ κ.Ends Q r r' ∧
      (σ.state l).world.settled.Kin κ (σ'.state l').world.settled := by
  rw [insides_eq_stack hc.activity, insides_eq_stack ha] at hS
  obtain ⟨ds', r', w', he, hds, hend, hw'⟩ := (hc.evaluates hone).kin hI hp hS hw hl
  obtain ⟨l', hc', hone'', rfl⟩ := he.completes hfair rfl ⟨hone', rfl, ha⟩
  exact ⟨ds', r', l', hc', hone'', hds, hend, hw'⟩

end Run

end Wiring
