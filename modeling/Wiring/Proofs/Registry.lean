import Wiring.Machine

namespace Wiring

variable {C : Client}

namespace World

variable {w w' : World C} {c d : ContainerId} {name : String} {e : EntryId} {i : Instance}

theorem services_setServices (w : World C) (c d : ContainerId) (t : Table String EntryId) :
    (w.setServices c t).services d =
      if c = d ∧ c < w.containers.length then t else w.services d := by
  simp only [services, setServices, List.getD_eq_getElem?_getD, List.getElem?_set]
  by_cases h : c = d
  · by_cases hc : d < w.containers.length
    · simp [h, hc]
    · simp [h, hc]
  · simp [h]

theorem get?_insert (w : World C) (c d : ContainerId) (name other : String) (r : Registration C) :
    ((w.insert c name r).services d).get? other =
      if (c, name) = (d, other) ∧ c < w.containers.length then some w.entries.length
      else (w.services d).get? other := by
  simp only [insert, services_setServices]
  by_cases hc : c = d ∧ c < w.containers.length
  · obtain ⟨rfl, hl⟩ := hc
    rw [if_pos ⟨rfl, hl⟩, Table.get?_insert]
    by_cases hn : name = other
    · simp [hn, hl]
    · simp [hn]
  · rw [if_neg hc, if_neg fun h => hc ⟨(Prod.mk.inj h.1).1, h.2⟩]
    rfl

theorem entry?_eq_some {x : Entry C} :
    w.entry? c name = some (e, x) ↔
      (w.services c).get? name = some e ∧ w.entries[e]? = some x := by
  simp only [World.entry?, Option.bind_eq_bind, Option.bind_eq_some_iff, Option.pure_def,
    Option.some.injEq, Prod.mk.injEq]
  constructor
  · rintro ⟨a, ha, y, hy, rfl, rfl⟩
    exact ⟨ha, hy⟩
  · rintro ⟨he, hx⟩
    exact ⟨e, he, x, hx, rfl, rfl⟩

theorem cached_setCache (w : World C) (a e : EntryId) (i : Instance) :
    (w.setCache a i).cached e = if a = e ∧ e < w.entries.length then some i else w.cached e := by
  simp only [cached, setCache, List.getElem?_modify]
  by_cases h : a = e
  · by_cases he : e < w.entries.length
    · simp [h, he]
    · simp [h, he]
  · simp [h]

structure Edit (w w' : World C) : Prop where
  builds : w'.builds = w.builds
  cached (e : EntryId) : w'.cached e = w.cached e
  entries : w.entries <+: w'.entries
  services : ∃ place : ContainerId × String, ∀ c name e, (w'.services c).get? name = some e →
    (w.services c).get? name = some e ∨
      e = w.entries.length ∧ e < w'.entries.length ∧ (c, name) = place

theorem Edit.of_eq (hc : w'.containers = w.containers) (he : w'.entries = w.entries)
    (hb : w'.builds = w.builds) : Edit w w' where
  builds := hb
  cached e := by simp only [World.cached, he]
  entries := he ▸ List.prefix_rfl
  services := ⟨(0, ""), fun c name e h => .inl (by simpa only [World.services, hc] using h)⟩

theorem Edit.newContainer (hc : w'.containers = w.containers ++ [∅]) (he : w'.entries = w.entries)
    (hb : w'.builds = w.builds) : Edit w w' where
  builds := hb
  cached e := by simp only [World.cached, he]
  entries := he ▸ List.prefix_rfl
  services := by
    refine ⟨(0, ""), fun c name e h => .inl ?_⟩
    simp only [World.services, hc, List.getD_eq_getElem?_getD, List.getElem?_append] at h ⊢
    split at h
    · exact h
    · cases hi : ([∅] : List (Table String EntryId))[c - w.containers.length]? with
      | none => simp [hi] at h
      | some t => grind [Table.get?_empty]

theorem Edit.insert (w : World C) (c : ContainerId) (name : String) (r : Registration C) :
    Edit w (w.insert c name r) where
  builds := rfl
  cached e := by
    simp only [World.cached, World.insert, setServices, List.getElem?_append]
    split
    · rfl
    · next he =>
      rw [List.getElem?_eq_none (l := w.entries) (Nat.le_of_not_lt he)]
      cases h : ([⟨r, none⟩] : List (Entry C))[e - w.entries.length]? with
      | none => rfl
      | some x => grind
  entries := List.prefix_append _ _
  services := by
    refine ⟨(c, name), fun d n e h => ?_⟩
    simp only [World.insert, services_setServices] at h
    split at h
    · next hc =>
      rw [Table.get?_insert] at h
      split at h
      · next hn =>
        refine .inr ⟨(Option.some.inj h).symm, ?_, by rw [hc.1, hn]⟩
        simp [World.insert, setServices, ← Option.some.inj h]
      · exact .inl (hc.1 ▸ h)
    · exact .inl h

theorem Edit.erase (w : World C) (c : ContainerId) (name : String) : Edit w (w.erase c name) where
  builds := rfl
  cached _ := rfl
  entries := List.prefix_rfl
  services := by
    refine ⟨(0, ""), fun d n e h => .inl ?_⟩
    simp only [World.erase, services_setServices] at h
    split at h
    · next hc =>
      rw [Table.get?_erase] at h
      split at h
      · cases h
      · exact hc.1 ▸ h
    · exact h

structure Develops (w w' : World C) : Prop where
  size : w.entries.length ≤ w'.entries.length
  registration (a : EntryId) (x : Entry C) (h : w.entries[a]? = some x) :
    ∃ x', w'.entries[a]? = some x' ∧ x'.registration = x.registration
  cached (a : EntryId) (j : Instance) (h : w.cached a = some j) : w'.cached a = some j
  services : ∃ place : ContainerId × String, ∀ c name e, (w'.services c).get? name = some e →
    (w.services c).get? name = some e ∨
      e = w.entries.length ∧ e < w'.entries.length ∧ (c, name) = place

theorem Edit.develops (h : Edit w w') : Develops w w' where
  size := h.entries.length_le
  registration a x hx := by
    obtain ⟨rest, hr⟩ := h.entries
    exact ⟨_, by rw [← hr, List.getElem?_append_left (List.getElem?_eq_some_iff.1 hx).1, hx], rfl⟩
  cached a j hj := (h.cached a).trans hj
  services := h.services

theorem Develops.of_eq (hc : w'.containers = w.containers) (he : w'.entries = w.entries) :
    Develops w w' where
  size := he ▸ Nat.le_refl _
  registration a x hx := ⟨x, he ▸ hx, rfl⟩
  cached a j hj := by simpa only [World.cached, he] using hj
  services := ⟨(0, ""), fun _ _ _ h => .inl (by simpa only [World.services, hc] using h)⟩

theorem Develops.setCache (h : w.cached e = none) : Develops w (w.setCache e i) where
  size := by simp [World.setCache]
  registration a x hx := by
    simp only [World.setCache, List.getElem?_modify, hx]
    split <;> exact ⟨_, rfl, rfl⟩
  cached a j hj := by
    rw [cached_setCache, if_neg (by rintro ⟨rfl, -⟩; simp [h] at hj), hj]
  services := ⟨(0, ""), fun _ _ _ h => .inl h⟩

structure Agrees (w w' : World C) : Prop where
  containers : w'.containers = w.containers
  registrations : w'.entries.map (·.registration) = w.entries.map (·.registration)

namespace Agrees

theorem registration (h : Agrees w w') (e : EntryId) :
    w'.entries[e]?.map (·.registration) = w.entries[e]?.map (·.registration) := by
  rw [← List.getElem?_map, h.registrations, List.getElem?_map]

theorem services (h : Agrees w w') (c : ContainerId) : w'.services c = w.services c := by
  rw [World.services, h.containers, World.services]

theorem entry? (h : Agrees w w') {x' : Entry C} (he : w'.entry? c name = some (e, x')) :
    ∃ x, w.entry? c name = some (e, x) ∧ x.registration = x'.registration := by
  obtain ⟨hs, hx'⟩ := entry?_eq_some.1 he
  have hr := h.registration e
  rw [hx'] at hr
  obtain ⟨x, hx, hreg⟩ := Option.map_eq_some_iff.1 hr.symm
  exact ⟨x, entry?_eq_some.2 ⟨h.services c ▸ hs, hx⟩, hreg⟩

theorem symm (h : Agrees w w') : Agrees w' w := ⟨h.containers.symm, h.registrations.symm⟩

theorem trans {w'' : World C} (h : Agrees w w') (h' : Agrees w' w'') : Agrees w w'' :=
  ⟨h'.containers.trans h.containers, h'.registrations.trans h.registrations⟩

theorem setCache (w : World C) (e : EntryId) (i : Instance) : Agrees w (w.setCache e i) where
  containers := rfl
  registrations := by
    apply List.ext_getElem?
    intro n
    simp only [World.setCache, List.getElem?_map, List.getElem?_modify]
    cases w.entries[n]? with
    | none => rfl
    | some x => by_cases h : e = n <;> simp [h]

theorem cached_setCache {x : Entry C} {i : Instance} (h : Agrees w w')
    (he : w.entry? c name = some (e, x)) : ((w'.setCache e i).cached e).isSome := by
  obtain ⟨x', hx', -⟩ := h.symm.entry? he
  have hlt := (List.getElem?_eq_some_iff.1 (entry?_eq_some.1 hx').2).1
  rw [World.cached_setCache, if_pos ⟨rfl, hlt⟩]
  rfl

theorem entry?_eq_none (h : Agrees w w') (he : w'.entry? c name = none) :
    w.entry? c name = none := by
  cases hw : w.entry? c name with
  | none => rfl
  | some p =>
    obtain ⟨e, x'⟩ := p
    obtain ⟨x, hx, -⟩ := h.symm.entry? hw
    rw [he] at hx
    cases hx

theorem lookup (h : Agrees w w') (c : ContainerId) (name : String) :
    (w'.entry? c name).map (fun (e, x) => (e, x.registration)) =
      (w.entry? c name).map (fun (e, x) => (e, x.registration)) := by
  cases he : w'.entry? c name with
  | none => rw [h.entry?_eq_none he]
  | some p =>
    obtain ⟨e, x'⟩ := p
    obtain ⟨x, hx, hr⟩ := h.entry? he
    rw [hx, Option.map_some, Option.map_some]
    exact congrArg (fun r => some (e, r)) hr.symm

theorem candidates (h : Agrees w w') (S : Stack) (c : ContainerId) (type : TypeKey) :
    w'.candidates S c type = w.candidates S c type := by
  have hp : ∀ e, w'.provides e type = w.provides e type := by
    intro e
    have hr := congrArg (Option.any (·.provides = type)) (h.registration e)
    simpa only [World.provides, Option.any_map, Function.comp_def] using hr
  simp only [World.candidates, h.services c, hp]

end Agrees

end World

namespace Machine

variable {I : Implementation C} {m m' : Machine C} {t : ThreadId} {th : Thread C}

theorem perform_edit {a : Action C} {r : a.Reply} (h : m.perform I t th a = some (r, m')) :
    m.world.Edit m'.world := by
  cases a with
  | insert c name r => cases h; exact .insert _ _ _ _
  | erase c name => cases h; exact .erase _ _ _
  | newContainer => cases h; exact .newContainer rfl rfl rfl
  | settleDefault =>
    simp only [perform] at h
    split at h
    · cases h; exact .of_eq rfl rfl rfl
    · cases h; exact .newContainer rfl rfl rfl
  | await ready => simp only [perform] at h; split at h <;> cases h; exact .of_eq rfl rfl rfl
  | awaitWaiters service count =>
    simp only [perform] at h; split at h <;> cases h; exact .of_eq rfl rfl rfl
  | join threads => simp only [perform] at h; split at h <;> cases h; exact .of_eq rfl rfl rfl
  | _ => cases h; exact .of_eq rfl rfl rfl

end Machine

end Wiring
