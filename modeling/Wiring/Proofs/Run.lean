import Mathlib.Logic.Relation
import Wiring.Proofs.Transition

namespace Wiring

variable {C : Client}

/-- Services may be registered, but nothing is built or being built, and no entry stands under two
names. -/
structure World.Unbuilt (w : World C) : Prop where
  builds : w.builds = ∅
  uncached (e : EntryId) : w.cached e = none
  inRange {c name e} (h : (w.services c).get? name = some e) : e < w.entries.length
  single {c name d other e} (h : (w.services c).get? name = some e)
    (h' : (w.services d).get? other = some e) : (c, name) = (d, other)

theorem World.start_unbuilt (state : C.State) : (World.start state).Unbuilt := by
  have h : ∀ c name e, ((World.start state).services c).get? name ≠ some e := by
    intro c name e
    cases c <;> exact fun h => nomatch h
  exact ⟨rfl, fun _ => rfl, fun hs => absurd hs (h _ _ _), fun hs => absurd hs (h _ _ _)⟩

theorem World.Edit.unbuilt {w w' : World C} (he : Edit w w') (h : w.Unbuilt) : w'.Unbuilt where
  builds := he.builds.trans h.builds
  uncached e := (he.cached e).trans (h.uncached e)
  inRange hs := by
    obtain ⟨place, hp⟩ := he.services
    obtain hs | ⟨-, hl, -⟩ := hp _ _ _ hs
    · exact Nat.lt_of_lt_of_le (h.inRange hs) he.entries.length_le
    · exact hl
  single hs hs' := by
    obtain ⟨place, hp⟩ := he.services
    obtain hs | ⟨hn, -, hs⟩ := hp _ _ _ hs <;> obtain hs' | ⟨hn', -, hs'⟩ := hp _ _ _ hs'
    · exact h.single hs hs'
    · have hlt := h.inRange hs
      exact absurd (hn' ▸ hlt) (Nat.lt_irrefl _)
    · have hlt := h.inRange hs'
      exact absurd (hn ▸ hlt) (Nat.lt_irrefl _)
    · exact hs.trans hs'.symm

def World.ofServices (state : C.State) (services : List (String × Registration C)) : World C :=
  services.foldl (fun w s => w.insert 0 s.1 s.2) (start state)

theorem World.ofServices_unbuilt (state : C.State) (services : List (String × Registration C)) :
    (ofServices state services).Unbuilt :=
  List.foldlRecOn services _ (start_unbuilt state) fun _ h _ _ => (Edit.insert _ _ _ _).unbuilt h

theorem World.entry?_insert {w : World C} {c d : ContainerId} {name other : String}
    {r : Registration C} {e : EntryId} {x : Entry C} (hw : w.Unbuilt)
    (h : World.entry? (w.insert c name r) d other = some (e, x)) :
    (name = other ∧ x.registration = r) ∨ w.entry? d other = some (e, x) := by
  obtain ⟨hs, hx⟩ := entry?_eq_some.1 h
  have hx : (w.entries ++ [⟨r, none⟩])[e]? = some x := hx
  rw [get?_insert] at hs
  split at hs
  · next hplace =>
    cases hs
    rw [List.getElem?_concat_length] at hx
    cases hx
    exact .inl ⟨(Prod.mk.inj hplace.1).2, rfl⟩
  · rw [List.getElem?_append_left (hw.inRange hs)] at hx
    exact .inr (entry?_eq_some.2 ⟨hs, hx⟩)

theorem World.mem_ofServices {state : C.State} {services : List (String × Registration C)}
    {name : String} {e : EntryId} {x : Entry C}
    (h : World.entry? (ofServices state services) 0 name = some (e, x)) :
    (name, x.registration) ∈ services := by
  have hall : (ofServices state services).Unbuilt ∧ ∀ name e x,
      World.entry? (ofServices state services) 0 name = some (e, x) →
        (name, x.registration) ∈ services := by
    refine List.foldlRecOn (motive := fun w : World C => w.Unbuilt ∧ ∀ name e x,
      w.entry? 0 name = some (e, x) → (name, x.registration) ∈ services) services _
      ⟨start_unbuilt state, fun name e x h => ?_⟩ fun w hw s hs => ?_
    · obtain ⟨hs, -⟩ := entry?_eq_some.1 h
      cases hs
    · refine ⟨(Edit.insert _ _ _ _).unbuilt hw.1, fun name e x h => ?_⟩
      obtain ⟨rfl, hr⟩ | h := entry?_insert hw.1 h
      · rw [hr]
        exact hs
      · exact hw.2 name e x h
  exact hall.2 name e x h

namespace Machine

structure Fresh (m : Machine C) : Prop where
  world : m.world.Unbuilt
  threads {th} (h : th ∈ m.threads) : th.Unstarted

def Steps (I : Implementation C) (m m' : Machine C) : Prop := ∃ t, m.step I t = some m'

def Reaches (I : Implementation C) : Machine C → Machine C → Prop :=
  Relation.ReflTransGen (Steps I)

def Reachable (I : Implementation C) (m : Machine C) : Prop := ∃ m₀, Fresh m₀ ∧ Reaches I m₀ m

theorem Reachable.of_fresh {I : Implementation C} {m : Machine C} (h : m.Fresh) : Reachable I m :=
  ⟨m, h, .refl⟩

theorem Reachable.trans {I : Implementation C} {m m' : Machine C} (h : Reachable I m)
    (hs : Reaches I m m') : Reachable I m' := by
  obtain ⟨m₀, hf, hr⟩ := h
  exact ⟨m₀, hf, Relation.ReflTransGen.trans hr hs⟩

theorem Reachable.induct {I : Implementation C} {P : Machine C → Prop}
    (fresh : ∀ m, m.Fresh → P m)
    (step : ∀ m m' t, Reachable I m → P m → m.step I t = some m' → P m') {m : Machine C}
    (h : Reachable I m) : P m := by
  obtain ⟨m₀, hf, hr⟩ := h
  induction hr with
  | refl => exact fresh _ hf
  | tail hr hs ih =>
    obtain ⟨t, hs⟩ := hs
    exact step _ _ t ⟨m₀, hf, hr⟩ ih hs

def follow (I : Implementation C) (m : Machine C) (schedule : List ThreadId) : Machine C :=
  schedule.foldl (fun m t => (m.step I t).getD m) m

theorem follow_reaches (I : Implementation C) (m : Machine C) (schedule : List ThreadId) :
    Reaches I m (m.follow I schedule) := by
  induction schedule generalizing m with
  | nil => exact .refl
  | cons t rest ih =>
    cases h : m.step I t with
    | none => simpa only [follow, List.foldl_cons, h, Option.getD_none] using ih m
    | some m' =>
      simpa only [follow, List.foldl_cons, h, Option.getD_some] using .head ⟨t, h⟩ (ih m')

def always (I : Implementation C) (test : Machine C → Bool) : Nat → Machine C → Bool
  | 0, _ => false
  | n + 1, m =>
    test m && m.threads.length == 1 &&
      match m.step I 0 with
      | none => true
      | some m' => always I test n m'

theorem Reaches.always {I : Implementation C} {m m' : Machine C} (hr : Reaches I m m')
    (test : Machine C → Bool) (n : Nat) (h : Machine.always I test n m) : test m' := by
  induction n generalizing m with
  | zero => cases h
  | succ n ih =>
    simp only [Machine.always, Bool.and_eq_true, beq_iff_eq] at h
    obtain ⟨⟨ht, hone⟩, hrest⟩ := h
    obtain rfl | ⟨m₁, ⟨t, hs⟩, hr⟩ := hr.cases_head
    · exact ht
    · obtain ⟨th, hth, -⟩ := step_cases hs
      obtain ⟨hl, -⟩ := List.getElem?_eq_some_iff.1 hth
      obtain rfl : t = 0 := Nat.lt_one_iff.1 (hone ▸ hl)
      rw [hs] at hrest
      exact ih hr hrest

end Machine

/-- The machines that a run passes through, with the thread that takes each step; at some moments
none does. -/
structure Run (I : Implementation C) where
  state : Nat → Machine C
  mover : Nat → Option ThreadId
  fresh : (state 0).Fresh
  idles (n : Nat) (h : mover n = none) : state (n + 1) = state n
  moves (n : Nat) (t : ThreadId) (h : mover n = some t) :
    (state n).step I t = some (state (n + 1))

namespace Run

variable {I : Implementation C} (σ : Run I)

theorem reachable (n : Nat) : (σ.state n).Reachable I := by
  induction n with
  | zero => exact .of_fresh σ.fresh
  | succ n ih =>
    cases h : σ.mover n with
    | none => exact σ.idles n h ▸ ih
    | some t => exact ih.trans (.single ⟨t, σ.moves n t h⟩)

theorem lasts {P : Machine C → Prop}
    (step : ∀ m m' t, m.Reachable I → P m → m.step I t = some m' → P m') {n k : Nat}
    (h : P (σ.state n)) (hk : n ≤ k) : P (σ.state k) := by
  induction hk with
  | refl => exact h
  | @step k hk ih =>
    cases hm : σ.mover k with
    | none => exact σ.idles k hm ▸ ih
    | some t => exact step _ _ t (σ.reachable k) ih (σ.moves k t hm)

def along (m : Machine C) (hm : m.Fresh) (pick : Nat → ThreadId) : Run I where
  state n := m.follow I ((List.range n).map pick)
  mover n :=
    if ((m.follow I ((List.range n).map pick)).step I (pick n)).isSome then some (pick n) else none
  fresh := hm
  idles n h := by
    split at h
    · cases h
    · next hs =>
      rw [Bool.not_eq_true, Option.isSome_eq_false_iff, Option.isNone_iff_eq_none] at hs
      simp only [List.range_succ, List.map_append, Machine.follow, List.foldl_append] at hs ⊢
      simp only [List.map_cons, List.map_nil, List.foldl_cons, List.foldl_nil, hs, Option.getD_none]
  moves n t h := by
    split at h
    · next hs =>
      cases h
      obtain ⟨m', hm'⟩ := Option.isSome_iff_exists.1 hs
      simp only [List.range_succ, List.map_append, Machine.follow, List.foldl_append] at hm' ⊢
      simp only [List.map_cons, List.map_nil, List.foldl_cons, List.foldl_nil, hm',
        Option.getD_some]
    · cases h

end Run

def Client.plain : Client := ⟨Unit, Unit, Unit⟩

def Implementation.plain : Implementation Client.plain where
  make _ _ _ := .done (.text "")
  give _ _ _ := .crash "nothing to give"
  manifest _ := .done []
  construct _ _ := .done (.text "")
  job _ := .done ()

def Machine.rivals : Machine Client.plain where
  world := .ofServices () [("a", ⟨true, .made (.of "A") [] ()⟩)]
  threads := List.replicate 2 { todo := [(Container.get 0 "a").bind fun _ => .done ()] }

theorem Machine.rivals_fresh : rivals.Fresh where
  world := World.ofServices_unbuilt _ _
  threads h := by
    rw [List.eq_of_mem_replicate h]
    exact ⟨rfl, rfl, rfl⟩

end Wiring
