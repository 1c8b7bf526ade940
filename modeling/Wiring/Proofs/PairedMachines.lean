import Wiring.Proofs.Advance
import Wiring.Proofs.Correspondence

namespace Wiring

variable {C : Client}

namespace Stack

variable (S : Stack) (c : ContainerId)

def others : Stack := S.filter (·.1 ≠ c)

theorem targets_cons (y : ContainerId × Target) :
    targets (y :: S) c = if y.1 = c then S.targets c ++ [y.2] else S.targets c := by
  simp only [targets, List.reverse_cons, List.filter_append, List.map_append]
  split <;> simp_all

theorem targets_enter (x : Target) : (S.enter c x).targets c = S.targets c ++ [x] := by
  rw [enter, targets_cons, if_pos rfl]

theorem others_enter (x : Target) : (S.enter c x).others c = S.others c := by simp [enter, others]

theorem mem_targets {x : Target} : x ∈ S.targets c ↔ (c, x) ∈ S := by
  simp only [targets, List.mem_map, List.mem_filter, List.mem_reverse, decide_eq_true_eq]
  constructor
  · rintro ⟨y, ⟨hy, rfl⟩, rfl⟩
    exact hy
  · exact fun h => ⟨(c, x), ⟨h, rfl⟩, rfl⟩

theorem targets_leave : (S.leave c).targets c = (S.targets c).dropLast := by
  induction S with
  | nil => rfl
  | cons y S ih =>
    rw [leave, List.eraseP_cons, targets_cons]
    by_cases h : y.1 = c
    · simp [h]
    · simp only [h, decide_false, cond_false, if_false, targets_cons]
      exact ih

theorem others_leave : (S.leave c).others c = S.others c := by
  induction S with
  | nil => rfl
  | cons y S ih =>
    rw [leave, List.eraseP_cons]
    by_cases h : y.1 = c
    · simp [h, others]
    · simp only [h, decide_false, cond_false, others, List.filter_cons]
      exact congrArg (fun T => if decide (y.1 ≠ c) = true then y :: T else T) ih

variable {S c} {S' : Stack}

theorem isResolving_eq (h : S.targets c = S'.targets c) (name : String) :
    S.isResolving c name = S'.isResolving c name := by
  have hmem : (c, Target.service name) ∈ S ↔ (c, Target.service name) ∈ S' := by
    rw [← mem_targets, h, mem_targets]
  rw [isResolving, isResolving, Bool.eq_iff_iff, List.contains_iff_mem, List.contains_iff_mem, hmem]

theorem cycle?_eq (h : S.targets c = S'.targets c) (x : Target) :
    S.cycle? c x = S'.cycle? c x := by
  have hmem : (c, x) ∈ S ↔ (c, x) ∈ S' := by rw [← mem_targets, h, mem_targets]
  simp only [cycle?, List.contains_iff_mem, hmem, h]

end Stack

theorem Table.mem_keysWhere {α β : Type} [DecidableEq α] {t : Table α β} {p : β → Bool} {k : α} :
    k ∈ t.keysWhere p ↔ ∃ v, t.get? k = some v ∧ p v := by
  refine ⟨get?_of_mem_keysWhere, ?_⟩
  rintro ⟨v, hv, hp⟩
  have hk : k ∈ t.keys := (mem_keys_iff t k).2 (by rw [contains, hv]; rfl)
  obtain ⟨⟨a, v'⟩, hmem, rfl⟩ := List.mem_map.1 hk
  have hv' := Pairs.find?_of_mem t.distinct hmem
  obtain rfl : v' = v := Option.some.inj (hv'.symm.trans hv)
  exact List.mem_map.2 ⟨(a, v'), List.mem_filter.2 ⟨hmem, hp⟩, rfl⟩

theorem Table.keysWhere_nodup {α β : Type} [DecidableEq α] (t : Table α β) (p : β → Bool) :
    (t.keysWhere p).Nodup := t.distinct.sublist (List.filter_sublist.map _)

theorem getElem?_concat_ne {α : Type} {l : List α} {n : Nat} (h : n ≠ l.length) (a : α) :
    (l ++ [a])[n]? = l[n]? := by
  obtain hlt | hgt := Nat.lt_or_gt_of_ne h
  · exact List.getElem?_append_left hlt
  · rw [List.getElem?_eq_none (by simp; omega), List.getElem?_eq_none (Nat.le_of_lt hgt)]

namespace World

theorem sortNames_perm {l l' : List String} (h : l.Perm l') : sortNames l = sortNames l' := by
  have htrans : ∀ a b c : String, decide (a ≤ b) = true → decide (b ≤ c) = true →
      decide (a ≤ c) = true := fun a b c hab hbc =>
    decide_eq_true (String.le_trans (of_decide_eq_true hab) (of_decide_eq_true hbc))
  have htotal : ∀ a b : String, (decide (a ≤ b) || decide (b ≤ a)) = true := by
    intro a b
    simpa using String.le_total a b
  have hp : (sortNames l).Perm (sortNames l') :=
    (List.mergeSort_perm _ _).trans (h.trans (List.mergeSort_perm _ _).symm)
  refine hp.eq_of_pairwise (fun a b _ _ hab hba => ?_) (List.pairwise_mergeSort htrans htotal l)
    (List.pairwise_mergeSort htrans htotal l')
  exact String.le_antisymm (of_decide_eq_true hab) (of_decide_eq_true hba)

structure Spares (c : ContainerId) (known : ObjectId → Prop) (w w' : World C) : Prop where
  containers : w'.containers.length = w.containers.length
  current : w'.current = w.current
  entry? {d : ContainerId} (name : String) (hd : d ≠ c) : w'.entry? d name = w.entry? d name
  objects {o : ObjectId} (ho : ¬known o) : w'.objects[o]? = w.objects[o]?

namespace Spares

variable {c : ContainerId} {known : ObjectId → Prop} {w w' w'' : World C}

theorem of_eq (hc : w'.containers = w.containers) (he : w'.entries = w.entries)
    (ho : w'.objects = w.objects) (hd : w'.current = w.current) : w.Spares c known w' where
  containers := congrArg _ hc
  current := hd
  entry? name _ := by simp only [World.entry?, World.services, hc, he]
  objects _ := by rw [ho]

theorem refl (w : World C) : w.Spares c known w := of_eq rfl rfl rfl rfl

theorem trans (h : w.Spares c known w') (h' : w'.Spares c known w'') : w.Spares c known w'' where
  containers := h'.containers.trans h.containers
  current := h'.current.trans h.current
  entry? name hd := (h'.entry? name hd).trans (h.entry? name hd)
  objects ho := (h'.objects ho).trans (h.objects ho)

theorem services_ne {d : ContainerId} {t : Table String EntryId} (hd : d ≠ c) :
    World.services (w.setServices c t) d = w.services d := by
  rw [services_setServices, if_neg fun h => hd h.1.symm]

theorem insert (name : String) (r : Registration C)
    (hnew : ∀ d other, (w.services d).get? other = some w.entries.length → d = c) :
    w.Spares c known (w.insert c name r) where
  containers := List.length_set
  current := rfl
  entry? {d} other hd := by
    have hs : (w.insert c name r).services d = w.services d := services_ne hd
    rw [World.entry?, hs, World.entry?]
    cases he : (w.services d).get? other with
    | none => rfl
    | some e =>
      have hne : e ≠ w.entries.length := by
        rintro rfl
        exact hd (hnew d other he)
      have hget : (w.insert c name r).entries[e]? = w.entries[e]? := getElem?_concat_ne hne _
      simp only [Option.bind_eq_bind, Option.bind_some, hget]
  objects _ := rfl

theorem erase (name : String) : w.Spares c known (w.erase c name) where
  containers := List.length_set
  current := rfl
  entry? {d} other hd := by
    have hs : (w.erase c name).services d = w.services d := services_ne hd
    rw [World.entry?, hs, World.entry?]
    rfl
  objects _ := rfl

theorem allocate (type : TypeKey) (v : Value) (h : known w.objects.length) :
    w.Spares c known (w.allocate type v).2 where
  containers := rfl
  current := rfl
  entry? _ _ := rfl
  objects {o} ho := by
    have hne : o ≠ w.objects.length := fun he => ho (he ▸ h)
    exact getElem?_concat_ne hne v

theorem modify {o : ObjectId} (f : Value → Value) (h : known o) :
    w.Spares c known { w with objects := w.objects.modify o f } where
  containers := rfl
  current := rfl
  entry? _ _ := rfl
  objects {p} hp := by
    have hne : o ≠ p := fun he => hp (he ▸ h)
    change (w.objects.modify o f)[p]? = w.objects[p]?
    rw [List.getElem?_modify_ne _ _ hne]

theorem setCache {e : EntryId} (i : Instance)
    (h : ∀ d name, (w.services d).get? name = some e → d = c) :
    w.Spares c known (w.setCache e i) where
  containers := rfl
  current := rfl
  entry? {d} name hd := by
    have hs : World.services (w.setCache e i) d = w.services d := rfl
    rw [World.entry?, hs, World.entry?]
    cases hf : (w.services d).get? name with
    | none => rfl
    | some f =>
      have hne : e ≠ f := by
        rintro rfl
        exact hd (h d name hf)
      have hget : (w.setCache e i).entries[f]? = w.entries[f]? := List.getElem?_modify_ne _ _ hne
      simp only [Option.bind_eq_bind, Option.bind_some, hget]
  objects _ := rfl

end Spares

end World

variable (ρ : Likeness C) (c : ContainerId)

structure Entry.Alike (x y : Entry C) : Prop where
  registration : x.registration.Alike ρ y.registration
  cache : Option.Rel (Instance.Alike ρ) x.cache y.cache

structure World.Alike (w w' : World C) : Prop where
  inRange : c < w.containers.length ∧ c < w'.containers.length
  services (name : String) :
    Option.Rel ρ.entry ((w.services c).get? name) ((w'.services c).get? name)
  entries {e f : EntryId} (h : ρ.entry e f) :
    Option.Rel (Entry.Alike ρ) w.entries[e]? w'.entries[f]?
  objects {o p : ObjectId} (h : ρ.object o p) :
    Option.Rel (Value.Alike ρ) w.objects[o]? w'.objects[p]?
  newEntries (k : Nat) : ρ.entry (w.entries.length + k) (w'.entries.length + k)
  newObjects (k : Nat) : ρ.object (w.objects.length + k) (w'.objects.length + k)
  own {e f : EntryId} {d : ContainerId} {name : String} (h : ρ.entry e f) :
    ((w.services d).get? name = some e → d = c) ∧ ((w'.services d).get? name = some f → d = c)
  state : ρ.state w.state w'.state

namespace World.Alike

variable {ρ c} {w w' : World C} {e f : EntryId} {o p : ObjectId} {i j : Instance}

theorem of_builds (h : w.Alike ρ c w') {b b' : BuildGraph} {n n' : List String} :
    World.Alike ρ c { w with builds := b, waits := n } { w' with builds := b', waits := n' } :=
  ⟨h.inRange, h.services, h.entries, h.objects, h.newEntries, h.newObjects, h.own, h.state⟩

theorem entry? (h : w.Alike ρ c w') (name : String) :
    Option.Rel (fun x y => ρ.entry x.1 y.1 ∧ x.2.Alike ρ y.2) (w.entry? c name)
      (w'.entry? c name) := by
  have hs := h.services name
  simp only [World.entry?, Option.bind_eq_bind]
  generalize (w.services c).get? name = a, (w'.services c).get? name = b at hs
  cases hs with
  | none => exact .none
  | @some e f hef =>
    have he := h.entries hef
    simp only [Option.bind_some]
    generalize w.entries[e]? = x, w'.entries[f]? = y at he
    cases he with
    | none => exact .none
    | some hxy => exact .some ⟨hef, hxy⟩

theorem lookup (h : w.Alike ρ c w') (name : String) :
    Option.Rel (fun x y => ρ.entry x.1 y.1 ∧ x.2.Alike ρ y.2)
      ((w.entry? c name).map fun (e, x) => (e, x.registration))
      ((w'.entry? c name).map fun (e, x) => (e, x.registration)) := by
  have he := h.entry? name
  generalize w.entry? c name = a, w'.entry? c name = b at he
  cases he with
  | none => exact .none
  | some hxy => exact .some ⟨hxy.1, hxy.2.registration⟩

theorem cached (h : w.Alike ρ c w') (hef : ρ.entry e f) :
    Option.Rel (Instance.Alike ρ) (w.cached e) (w'.cached f) := by
  have he := h.entries hef
  simp only [World.cached]
  generalize w.entries[e]? = x, w'.entries[f]? = y at he
  cases he with
  | none => exact .none
  | some hxy => exact hxy.cache

theorem provides (h : w.Alike ρ c w') (hef : ρ.entry e f) (type : TypeKey) :
    w.provides e type = w'.provides f type := by
  have he := h.entries hef
  simp only [World.provides]
  generalize w.entries[e]? = x, w'.entries[f]? = y at he
  cases he with
  | none => rfl
  | some hxy => simp only [Option.any_some, hxy.registration.provides]

theorem value (h : w.Alike ρ c w') (hop : ρ.object o p) : (w.value o).Alike ρ (w'.value p) := by
  have hv := h.objects hop
  simp only [World.value, List.getD_eq_getElem?_getD]
  generalize w.objects[o]? = x, w'.objects[p]? = y at hv
  cases hv with
  | none => exact .plain nofun
  | some hxy => exact hxy

theorem contains (h : w.Alike ρ c w') (name : String) :
    (w.services c).contains name = (w'.services c).contains name := by
  have hs := h.services name
  simp only [Table.contains]
  generalize (w.services c).get? name = a, (w'.services c).get? name = b at hs
  cases hs <;> rfl

theorem names (h : w.Alike ρ c w') : w.names c = w'.names c := by
  apply sortNames_perm
  have hdistinct := (w.services c).distinct
  refine (List.perm_ext_iff_of_nodup hdistinct (w'.services c).distinct).2 fun name => ?_
  change name ∈ (w.services c).keys ↔ name ∈ (w'.services c).keys
  rw [Table.mem_keys_iff, Table.mem_keys_iff, h.contains]

theorem candidates (h : w.Alike ρ c w') {S S' : Stack} (hS : S.targets c = S'.targets c)
    (type : TypeKey) : w.candidates S c type = w'.candidates S' c type := by
  have hmem : ∀ name, name ∈ (w.services c).keysWhere (w.provides · type) ↔
      name ∈ (w'.services c).keysWhere (w'.provides · type) := by
    intro name
    rw [Table.mem_keysWhere, Table.mem_keysWhere]
    have hs := h.services name
    generalize (w.services c).get? name = a, (w'.services c).get? name = b at hs
    cases hs with
    | none => simp
    | some hef => simp [h.provides hef]
  have hperm := (List.perm_ext_iff_of_nodup (Table.keysWhere_nodup _ _)
    (Table.keysWhere_nodup _ _)).2 hmem
  have hfilter : (fun name => !S.isResolving c name) = fun name => !S'.isResolving c name :=
    funext fun name => by rw [Stack.isResolving_eq hS]
  apply sortNames_perm
  rw [hfilter]
  exact hperm.filter _

theorem erase (h : w.Alike ρ c w') (name : String) :
    (w.erase c name).Alike ρ c (w'.erase c name) where
  inRange := by simpa only [World.erase, World.setServices, List.length_set] using h.inRange
  services other := by
    rw [World.get?_erase, World.get?_erase]
    split
    · exact .none
    · exact h.services other
  entries := h.entries
  objects := h.objects
  newEntries := h.newEntries
  newObjects := h.newObjects
  own hef := by
    constructor
    · intro hs
      rw [World.get?_erase] at hs
      split at hs
      · cases hs
      · exact (h.own hef).1 hs
    · intro hs
      rw [World.get?_erase] at hs
      split at hs
      · cases hs
      · exact (h.own hef).2 hs
  state := h.state

theorem insert (h : w.Alike ρ c w') {r s : Registration C} (hr : r.Alike ρ s) (name : String) :
    (w.insert c name r).Alike ρ c (w'.insert c name s) where
  inRange := by
    simpa only [World.insert, World.setServices, List.length_set] using h.inRange
  services other := by
    simp only [World.get?_insert, h.inRange, and_true]
    split
    · exact .some (h.newEntries 0)
    · exact h.services other
  entries {e f} hef := by
    change Option.Rel _ (w.entries ++ [⟨r, none⟩])[e]? (w'.entries ++ [⟨s, none⟩])[f]?
    have hnew := h.newEntries 0
    by_cases he : e = w.entries.length
    · subst he
      obtain rfl := (ρ.entry_unique hef hnew).1 rfl
      simp only [Nat.add_zero, List.getElem?_concat_length]
      exact .some ⟨hr, .none⟩
    · have hf : f ≠ w'.entries.length := fun hf => he ((ρ.entry_unique hef hnew).2 hf)
      rw [getElem?_concat_ne he, getElem?_concat_ne hf]
      exact h.entries hef
  objects := h.objects
  newEntries k := by
    have hk := h.newEntries (k + 1)
    simpa only [World.insert, World.setServices, List.length_append, List.length_singleton,
      Nat.add_assoc, Nat.add_comm 1 k] using hk
  newObjects := h.newObjects
  own {e f d other} hef := by
    simp only [World.get?_insert]
    constructor
    · split
      · next hd => exact fun _ => (Prod.mk.inj hd.1).1.symm
      · exact (h.own hef).1
    · split
      · next hd => exact fun _ => (Prod.mk.inj hd.1).1.symm
      · exact (h.own hef).2
  state := h.state

theorem allocate (h : w.Alike ρ c w') (type : TypeKey) {v v' : Value} (hv : v.Alike ρ v') :
    World.Alike ρ c (w.allocate type v).2 (w'.allocate type v').2 where
  inRange := h.inRange
  services := h.services
  entries := h.entries
  objects {o p} hop := by
    change Option.Rel _ (w.objects ++ [v])[o]? (w'.objects ++ [v'])[p]?
    have hnew := h.newObjects 0
    by_cases ho : o = w.objects.length
    · subst ho
      obtain rfl := (ρ.object_unique hop hnew).1 rfl
      simp only [Nat.add_zero, List.getElem?_concat_length]
      exact .some hv
    · have hp : p ≠ w'.objects.length := fun hp => ho ((ρ.object_unique hop hnew).2 hp)
      rw [getElem?_concat_ne ho, getElem?_concat_ne hp]
      exact h.objects hop
  newEntries := h.newEntries
  newObjects k := by
    have hk := h.newObjects (k + 1)
    simpa only [World.allocate, List.length_append, List.length_singleton, Nat.add_assoc,
      Nat.add_comm 1 k] using hk
  own := h.own
  state := h.state

theorem modify (h : w.Alike ρ c w') {f g : Value → Value} (hop : ρ.object o p)
    (hfg : ∀ v v' : Value, v.Alike ρ v' → (f v).Alike ρ (g v')) :
    World.Alike ρ c { w with objects := w.objects.modify o f }
      { w' with objects := w'.objects.modify p g } where
  inRange := h.inRange
  services := h.services
  entries := h.entries
  objects {o' p'} hop' := by
    have hv := h.objects hop'
    simp only [List.getElem?_modify, ρ.object_unique hop hop']
    generalize w.objects[o']? = x, w'.objects[p']? = y at hv
    cases hv with
    | none => exact .none
    | some hxy =>
      by_cases he : p = p'
      · simp only [he, if_true, Option.map_eq_map, Option.map_some]
        exact .some (hfg _ _ hxy)
      · simp only [he, if_false, Option.map_eq_map, Option.map_some]
        exact .some hxy
  newEntries := h.newEntries
  newObjects k := by simpa only [List.length_modify] using h.newObjects k
  own := h.own
  state := h.state

theorem setCache (h : w.Alike ρ c w') (hef : ρ.entry e f) (hi : i.Alike ρ j) :
    (w.setCache e i).Alike ρ c (w'.setCache f j) where
  inRange := h.inRange
  services := h.services
  entries {e' f'} hef' := by
    have hx := h.entries hef'
    simp only [World.setCache, List.getElem?_modify, ρ.entry_unique hef hef']
    generalize w.entries[e']? = x, w'.entries[f']? = y at hx
    cases hx with
    | none => exact .none
    | some hxy =>
      by_cases he : f = f'
      · simp only [he, if_true, Option.map_eq_map, Option.map_some]
        exact .some ⟨hxy.registration, .some hi⟩
      · simp only [he, if_false, Option.map_eq_map, Option.map_some]
        exact .some hxy
  objects := h.objects
  newEntries k := by simpa only [World.setCache, List.length_modify] using h.newEntries k
  newObjects := h.newObjects
  own := h.own
  state := h.state

end World.Alike

end Wiring
