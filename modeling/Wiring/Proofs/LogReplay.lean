import Wiring.Proofs.Registry

namespace Wiring

theorem Pairs.keys_strike {α β : Type} [DecidableEq α] (k : α) (l : List (α × β)) :
    (strike k l).map Prod.fst = (l.map Prod.fst).filter (· ≠ k) := by
  induction l with
  | nil => rfl
  | cons p rest ih => grind [strike]

theorem Table.keys_erase {α β : Type} [DecidableEq α] (t : Table α β) (k : α) :
    (t.erase k).keys = t.keys.filter (· ≠ k) := Pairs.keys_strike k t.entries

abbrev Register := Table String (Bool × TypeKey)

def Event.enter : Event → Register → Register
  | registering name shared provides, R => R.insert name (shared, provides)
  | removed name, R => R.erase name
  | _, R => R

def replay (R : Register) (log : List Event) : Register :=
  log.foldl (fun R e => e.enter R) R

def Event.Aside : Event → Prop
  | registering .. | replaced _ | removed _ => False
  | _ => True

/-- In the log `replaced` stands where the name was registered already, directly after the new
registration, and nowhere else. -/
inductive Marked (R : Register) : List Event → Prop
  | start : Marked R []
  | added {log name shared provides} (h : Marked R log)
      (hn : (replay R log).contains name = false) :
      Marked R (log ++ [.registering name shared provides])
  | replaced {log name shared provides} (h : Marked R log)
      (hn : (replay R log).contains name = true) :
      Marked R (log ++ [.registering name shared provides, .replaced name])
  | removed {log name} (h : Marked R log) : Marked R (log ++ [.removed name])
  | aside {log e} (h : Marked R log) (he : e.Aside) : Marked R (log ++ [e])

section

variable {R : Register} {log pre post : List Event} {e : Event} {name : String} {shared : Bool}
  {provides : TypeKey}

@[simp] theorem replay_nil : replay R [] = R := rfl

@[simp] theorem replay_append (log more : List Event) :
    replay R (log ++ more) = replay (replay R log) more := List.foldl_append

theorem replay_aside (he : e.Aside) : replay R [e] = R := by
  cases e with
  | registering | replaced | removed => exact he.elim
  | _ => rfl

theorem concat_eq_iff {α : Type} {l pre post : List α} {a x : α} :
    l ++ [a] = pre ++ x :: post ↔
      (post = [] ∧ l = pre ∧ a = x) ∨ ∃ rest, post = rest ++ [a] ∧ l = pre ++ x :: rest := by
  constructor
  · intro h
    obtain rfl | ⟨rest, b, rfl⟩ := List.eq_nil_or_concat post
    · obtain ⟨rfl, ha⟩ := List.append_inj' h rfl
      exact .inl ⟨rfl, rfl, (List.cons.inj ha).1⟩
    · rw [List.concat_eq_append, ← List.cons_append, ← List.append_assoc] at h
      obtain ⟨rfl, hb⟩ := List.append_inj' h rfl
      exact .inr ⟨rest, by rw [List.concat_eq_append, (List.cons.inj hb).1], rfl⟩
  · rintro (⟨rfl, rfl, rfl⟩ | ⟨rest, rfl, rfl⟩)
    · rfl
    · simp

namespace Marked

theorem head_iff (h : Marked R log) (hl : log = pre ++ .registering name shared provides :: post) :
    post.head? = some (.replaced name) ↔ (replay R pre).contains name := by
  induction h generalizing post with
  | start => simp at hl
  | added _ hn ih =>
    obtain ⟨rfl, rfl, he⟩ | ⟨rest, rfl, hold⟩ := concat_eq_iff.1 hl
    · cases he
      simp [hn]
    · rw [← ih hold]
      cases rest <;> simp
  | replaced _ hn ih =>
    rw [List.append_cons] at hl
    obtain ⟨-, -, he⟩ | ⟨rest, rfl, hold⟩ := concat_eq_iff.1 hl
    · cases he
    · obtain ⟨rfl, rfl, he⟩ | ⟨more, rfl, holder⟩ := concat_eq_iff.1 hold
      · cases he
        simp [hn]
      · rw [← ih holder]
        cases more <;> simp
  | removed _ ih =>
    obtain ⟨-, -, he⟩ | ⟨rest, rfl, hold⟩ := concat_eq_iff.1 hl
    · cases he
    · rw [← ih hold]
      cases rest <;> simp
  | @aside log e _ he ih =>
    obtain ⟨-, -, rfl⟩ | ⟨rest, rfl, hold⟩ := concat_eq_iff.1 hl
    · exact he.elim
    · have hne : e ≠ .replaced name := by
        rintro rfl
        exact he
      rw [← ih hold]
      cases rest <;> simp [hne]

theorem follows (h : Marked R log) (hl : log = pre ++ .replaced name :: post) :
    ∃ shared provides, pre.getLast? = some (.registering name shared provides) := by
  induction h generalizing post with
  | start => simp at hl
  | replaced _ _ ih =>
    rw [List.append_cons] at hl
    obtain ⟨-, rfl, he⟩ | ⟨rest, -, hold⟩ := concat_eq_iff.1 hl
    · cases he
      exact ⟨_, _, List.getLast?_concat⟩
    · obtain ⟨-, -, he⟩ | ⟨more, -, holder⟩ := concat_eq_iff.1 hold
      · cases he
      · exact ih holder
  | aside _ he ih =>
    obtain ⟨-, -, rfl⟩ | ⟨rest, -, hold⟩ := concat_eq_iff.1 hl
    · exact he.elim
    · exact ih hold
  | added _ _ ih | removed _ ih =>
    obtain ⟨-, -, he⟩ | ⟨rest, -, hold⟩ := concat_eq_iff.1 hl
    · cases he
    · exact ih hold

end Marked

end

namespace World

variable {C : Client} {w w' : World C} {c : ContainerId} {R : Register} {name : String}

structure Lists (w : World C) (c : ContainerId) (R : Register) : Prop where
  keys : (w.services c).keys = R.keys
  entry (name : String) :
    (w.entry? c name).map (fun (_, x) => (x.registration.shared, x.registration.provides)) =
      R.get? name

namespace Lists

theorem names (h : w.Lists c R) : w.names c = sortNames R.keys := by rw [World.names, h.keys]

theorem isSome_entry? (h : w.Lists c R) (name : String) :
    (w.entry? c name).isSome = R.contains name := by
  rw [Table.contains, ← h.entry, Option.isSome_map]

theorem contains (h : w.Lists c R) (name : String) :
    (w.services c).contains name = R.contains name := by
  rw [Bool.eq_iff_iff, ← Table.mem_keys_iff, ← Table.mem_keys_iff, h.keys]

theorem entry_of_get? {e : EntryId} (h : w.Lists c R) (hs : (w.services c).get? name = some e) :
    ∃ x, w.entries[e]? = some x := by
  have hc : (w.entry? c name).isSome := by
    rw [h.isSome_entry?, ← h.contains, Table.contains, hs]
    rfl
  obtain ⟨⟨e', x⟩, hx⟩ := Option.isSome_iff_exists.1 hc
  obtain ⟨hs', hx⟩ := entry?_eq_some.1 hx
  cases hs.symm.trans hs'
  exact ⟨x, hx⟩

theorem of_services (h : w.Lists c R) (hs : w'.services c = w.services c)
    (he : ∀ (e : EntryId) (x : Entry C), w.entries[e]? = some x →
      ∃ x' : Entry C, w'.entries[e]? = some x' ∧ x'.registration = x.registration) :
    w'.Lists c R where
  keys := by rw [hs, h.keys]
  entry name := by
    rw [← h.entry]
    cases hg : (w.services c).get? name with
    | none => simp [World.entry?, hs, hg]
    | some e =>
      obtain ⟨x, hx⟩ := h.entry_of_get? hg
      obtain ⟨x', hx', hr⟩ := he e x hx
      simp [World.entry?, hs, hg, hx, hx', hr]

theorem insert (h : w.Lists c R) (hc : c < w.containers.length) (name : String)
    (r : Registration C) : (w.insert c name r).Lists c (R.insert name (r.shared, r.provides)) := by
  have hs : (w.insert c name r).services c = (w.services c).insert name w.entries.length := by
    simp only [World.insert, services_setServices, hc, and_self, if_pos]
  have he : (w.insert c name r).entries = w.entries ++ [⟨r, none⟩] := rfl
  constructor
  · rw [hs, Table.keys_insert, Table.keys_insert, h.keys]
  · intro other
    rw [Table.get?_insert, ← h.entry]
    by_cases hn : name = other
    · subst hn
      simp [World.entry?, hs, he]
    · cases hg : (w.services c).get? other with
      | none => simp [World.entry?, hs, hn, hg]
      | some e =>
        obtain ⟨x, hx⟩ := h.entry_of_get? hg
        have hl := (List.getElem?_eq_some_iff.1 hx).1
        simp [World.entry?, hs, he, hn, hg, List.getElem?_append_left hl]

theorem erase (h : w.Lists c R) (name : String) : (w.erase c name).Lists c (R.erase name) := by
  have hs : (w.erase c name).services c = (w.services c).erase name := by
    simp only [World.erase, services_setServices, true_and]
    split
    · rfl
    · next hc =>
      have hout : w.services c = ∅ := by
        rw [services, List.getD_eq_getElem?_getD, List.getElem?_eq_none (Nat.le_of_not_lt hc)]
        rfl
      rw [hout]
      rfl
  constructor
  · rw [hs, Table.keys_erase, Table.keys_erase, h.keys]
  · intro other
    rw [Table.get?_erase, ← h.entry]
    have he : World.entry? (w.erase c name) c other =
        if name = other then none else w.entry? c other := by
      simp only [World.entry?, hs, Table.get?_erase]
      split
      · rfl
      · rfl
    rw [he]
    split
    · rfl
    · rfl

end Lists

end World

end Wiring
