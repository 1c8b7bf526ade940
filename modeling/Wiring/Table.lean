namespace Wiring

variable {α β : Type} [DecidableEq α]

namespace Pairs

def find? (k : α) : List (α × β) → Option β
  | [] => none
  | (a, b) :: rest => if a = k then some b else find? k rest

def assign (k : α) (v : β) : List (α × β) → List (α × β)
  | [] => [(k, v)]
  | (a, b) :: rest => if a = k then (k, v) :: rest else (a, b) :: assign k v rest

def strike (k : α) : List (α × β) → List (α × β)
  | [] => []
  | (a, b) :: rest => if a = k then strike k rest else (a, b) :: strike k rest

theorem find?_assign (k a : α) (v : β) (l : List (α × β)) :
    find? a (assign k v l) = if k = a then some v else find? a l := by
  induction l with
  | nil => rfl
  | cons p rest ih => grind [assign, find?]

theorem find?_strike (k a : α) (l : List (α × β)) :
    find? a (strike k l) = if k = a then none else find? a l := by
  induction l with
  | nil => simp [strike, find?]
  | cons p rest ih => grind [strike, find?]

theorem keys_assign (k : α) (v : β) (l : List (α × β)) :
    (assign k v l).map Prod.fst =
      if k ∈ l.map Prod.fst then l.map Prod.fst else l.map Prod.fst ++ [k] := by
  induction l with
  | nil => rfl
  | cons p rest ih => grind [assign]

theorem strike_sublist (k : α) (l : List (α × β)) : (strike k l).Sublist l := by
  induction l with
  | nil => exact .slnil
  | cons p rest ih =>
    unfold strike
    split
    · exact ih.cons _
    · exact ih.cons_cons _

theorem find?_isSome_iff (k : α) (l : List (α × β)) :
    (find? k l).isSome ↔ k ∈ l.map Prod.fst := by
  induction l with
  | nil => simp [find?]
  | cons p rest ih => grind [find?]

theorem find?_of_mem {k : α} {v : β} {l : List (α × β)} (hd : (l.map Prod.fst).Nodup)
    (h : (k, v) ∈ l) : find? k l = some v := by
  induction l with
  | nil => cases h
  | cons p rest ih =>
    obtain ⟨hp, hd⟩ := List.nodup_cons.1 hd
    obtain _ | ⟨_, h⟩ := h
    · exact if_pos rfl
    · have hne : p.1 ≠ k := fun he => hp (he ▸ List.mem_map_of_mem h)
      exact (if_neg hne).trans (ih hd h)

end Pairs

structure Table (α β : Type) where
  entries : List (α × β)
  distinct : (entries.map Prod.fst).Nodup

namespace Table

instance : EmptyCollection (Table α β) := ⟨⟨[], by simp⟩⟩
instance : Inhabited (Table α β) := ⟨∅⟩

def get? (t : Table α β) (k : α) : Option β := Pairs.find? k t.entries

def contains (t : Table α β) (k : α) : Bool := (t.get? k).isSome

def keys (t : Table α β) : List α := t.entries.map Prod.fst

def size (t : Table α β) : Nat := t.entries.length

def insert (t : Table α β) (k : α) (v : β) : Table α β where
  entries := Pairs.assign k v t.entries
  distinct := by
    rw [Pairs.keys_assign]
    split
    · exact t.distinct
    · rename_i h
      exact List.nodup_append.2 ⟨t.distinct, by simp, fun a ha b hb e =>
        h (List.mem_singleton.1 hb ▸ e ▸ ha)⟩

def erase (t : Table α β) (k : α) : Table α β where
  entries := Pairs.strike k t.entries
  distinct := t.distinct.sublist ((Pairs.strike_sublist k t.entries).map _)

def keysWhere (t : Table α β) (p : β → Bool) : List α :=
  (t.entries.filter (fun e => p e.2)).map Prod.fst

@[simp] theorem get?_empty (k : α) : (∅ : Table α β).get? k = none := rfl

@[simp] theorem get?_insert (t : Table α β) (k a : α) (v : β) :
    (t.insert k v).get? a = if k = a then some v else t.get? a :=
  Pairs.find?_assign k a v t.entries

@[simp] theorem get?_erase (t : Table α β) (k a : α) :
    (t.erase k).get? a = if k = a then none else t.get? a :=
  Pairs.find?_strike k a t.entries

theorem keys_insert (t : Table α β) (k : α) (v : β) :
    (t.insert k v).keys = if k ∈ t.keys then t.keys else t.keys ++ [k] :=
  Pairs.keys_assign k v t.entries

theorem mem_keys_iff (t : Table α β) (k : α) : k ∈ t.keys ↔ t.contains k :=
  (Pairs.find?_isSome_iff k t.entries).symm

theorem get?_of_mem_keysWhere {t : Table α β} {p : β → Bool} {k : α} (h : k ∈ t.keysWhere p) :
    ∃ v, t.get? k = some v ∧ p v := by
  obtain ⟨⟨a, v⟩, hv, rfl⟩ := List.mem_map.1 h
  obtain ⟨hv, hp⟩ := List.mem_filter.1 hv
  exact ⟨v, Pairs.find?_of_mem t.distinct hv, hp⟩

theorem eq_empty_of_get? {t : Table α β} (h : ∀ k, t.get? k = none) : t = ∅ := by
  obtain ⟨entries, hd⟩ := t
  cases entries with
  | nil => rfl
  | cons p rest =>
    have hp := h p.1
    simp [get?, Pairs.find?] at hp

end Table

end Wiring
