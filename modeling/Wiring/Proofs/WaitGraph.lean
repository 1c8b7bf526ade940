import Mathlib.Data.Finset.Card
import Mathlib.Data.Nat.Find
import Mathlib.Logic.Relation
import Wiring.Build.Graph

namespace Wiring

namespace BuildGraph

open Relation (ReflTransGen TransGen)

variable {g g' : BuildGraph} {t u v me : ThreadId} {key : BuildKey} {n k : Nat}

def WaitsFor (g : BuildGraph) (t u : ThreadId) : Prop :=
  ∃ k, g.waiting.get? t = some k ∧ g.owners.get? k = some u

def blocker? (g : BuildGraph) (t : ThreadId) : Option ThreadId :=
  (g.waiting.get? t).bind g.owners.get?

theorem blocker?_eq_some : g.blocker? t = some u ↔ g.WaitsFor t u := by
  simp only [blocker?, WaitsFor, Option.bind_eq_some_iff]

def after (g : BuildGraph) : Nat → ThreadId → Option ThreadId
  | 0, t => some t
  | n + 1, t => (g.blocker? t).bind (g.after n)

theorem after_add (n k : Nat) (t : ThreadId) :
    g.after (n + k) t = (g.after n t).bind (g.after k) := by
  induction n generalizing t with
  | zero => rw [Nat.zero_add]; rfl
  | succ n ih =>
    rw [Nat.succ_add, after, after, Option.bind_assoc]
    exact Option.bind_congr fun u _ => ih u

theorem reflTransGen_iff_after : ReflTransGen g.WaitsFor t u ↔ ∃ n, g.after n t = some u := by
  constructor
  · intro h
    induction h using ReflTransGen.head_induction_on with
    | refl => exact ⟨0, rfl⟩
    | head h _ ih =>
      obtain ⟨n, hn⟩ := ih
      exact ⟨n + 1, by rw [after, blocker?_eq_some.2 h]; exact hn⟩
  · rintro ⟨n, h⟩
    induction n generalizing t with
    | zero => cases h; exact .refl
    | succ n ih =>
      obtain ⟨v, hv, hn⟩ := Option.bind_eq_some_iff.1 h
      exact .head (blocker?_eq_some.1 hv) (ih hn)

theorem transGen_of_after (h : g.after (n + 1) t = some u) : TransGen g.WaitsFor t u := by
  obtain ⟨v, hv, hn⟩ := Option.bind_eq_some_iff.1 h
  exact .head' (blocker?_eq_some.1 hv) (reflTransGen_iff_after.2 ⟨n, hn⟩)

theorem le_size (hw : ∀ i < n, ∃ u, g.after i t = some u ∧ (g.waiting.get? u).isSome)
    (hd : ∀ i j u, i < j → j < n → g.after i t = some u → g.after j t ≠ some u) :
    n ≤ g.waiting.size := by
  have hinj : Set.InjOn (fun i => (g.after i t).getD 0) (Finset.range n) := by
    intro i hi j hj hij
    obtain ⟨u, hu, -⟩ := hw i (Finset.mem_range.1 hi)
    obtain ⟨v, hv, -⟩ := hw j (Finset.mem_range.1 hj)
    have huv : u = v := by simpa [hu, hv] using hij
    subst huv
    obtain h | h | h := Nat.lt_trichotomy i j
    · exact absurd hv (hd i j u h (Finset.mem_range.1 hj) hu)
    · exact h
    · exact absurd hu (hd j i u h (Finset.mem_range.1 hi) hv)
  have hmap : Set.MapsTo (fun i => (g.after i t).getD 0) (Finset.range n)
      (g.waiting.keys.toFinset : Finset ThreadId) := by
    intro i hi
    obtain ⟨u, hu, hk⟩ := hw i (Finset.mem_range.1 hi)
    simpa [hu] using (g.waiting.mem_keys_iff u).2 hk
  calc n = (Finset.range n).card := (Finset.card_range n).symm
    _ ≤ g.waiting.keys.toFinset.card := Finset.card_le_card_of_injOn _ hmap hinj
    _ ≤ g.waiting.keys.length := List.toFinset_card_le _
    _ = g.waiting.size := by simp [Table.keys, Table.size]

theorem waits_of_after_succ {i : Nat} (h : i < n) (hn : g.after n t = some u) :
    ∃ v, g.after i t = some v ∧ (g.waiting.get? v).isSome := by
  obtain ⟨k, rfl⟩ := Nat.exists_eq_add_of_lt h
  rw [Nat.add_assoc, after_add] at hn
  obtain ⟨v, hv, hk⟩ := Option.bind_eq_some_iff.1 hn
  obtain ⟨w, hw, -⟩ := Option.bind_eq_some_iff.1 hk
  obtain ⟨key, hkey, -⟩ := blocker?_eq_some.1 hw
  exact ⟨v, hv, by rw [hkey]; rfl⟩

theorem exists_after_le_size (h : ReflTransGen g.WaitsFor t me) :
    ∃ n ≤ g.waiting.size, g.after n t = some me := by
  have hex := reflTransGen_iff_after.1 h
  have hn := Nat.find_spec hex
  refine ⟨Nat.find hex, le_size (t := t) (fun i hi => waits_of_after_succ hi hn) ?_, hn⟩
  intro i j u hij hj hi hju
  obtain ⟨k, hk⟩ := Nat.exists_eq_add_of_lt hj
  rw [hk, Nat.add_assoc, after_add, hju, Option.bind_some] at hn
  have hshort : g.after (i + (k + 1)) t = some me := by rw [after_add, hi, Option.bind_some, hn]
  exact Nat.find_min hex (m := i + (k + 1)) (by omega) hshort

theorem walk_isSome_iff (rounds : Nat) (key : BuildKey) (walked : List String) :
    (g.walk me rounds key walked).isSome ↔
      ∃ n < rounds, ∃ owner, g.owners.get? key = some owner ∧ g.after n owner = some me := by
  induction rounds generalizing key walked with
  | zero => simp [walk]
  | succ rounds ih =>
    rw [walk]
    cases ho : g.owners.get? key with
    | none => simp
    | some owner =>
      by_cases he : owner = me
      · simp only [if_pos he, Option.isSome_some, true_iff]
        exact ⟨0, Nat.succ_pos _, owner, rfl, congrArg some he⟩
      · simp only [if_neg he]
        cases hw : g.waiting.get? owner with
        | none =>
          simp only [Option.isSome_none, Bool.false_eq_true, false_iff]
          rintro ⟨n, -, _, h, hn⟩
          cases h
          cases n with
          | zero => exact he (Option.some.inj hn)
          | succ n => simp [after, blocker?, hw] at hn
        | some next =>
          simp only [ih]
          constructor
          · rintro ⟨n, hn, other, hother, hme⟩
            refine ⟨n + 1, Nat.succ_lt_succ hn, owner, rfl, ?_⟩
            rw [after, blocker?_eq_some.2 ⟨next, hw, hother⟩]
            exact hme
          · rintro ⟨n, hn, _, h, hme⟩
            cases h
            cases n with
            | zero => exact absurd (Option.some.inj hme) he
            | succ n =>
              obtain ⟨other, hother, hme⟩ := Option.bind_eq_some_iff.1 hme
              obtain ⟨k, hk, hk'⟩ := blocker?_eq_some.1 hother
              cases hw.symm.trans hk
              exact ⟨n, Nat.lt_of_succ_lt_succ hn, other, hk', hme⟩

theorem waitCycle_isSome_iff :
    (g.waitCycle key me).isSome ↔
      ∃ owner, g.owners.get? key = some owner ∧ ReflTransGen g.WaitsFor owner me := by
  rw [waitCycle, walk_isSome_iff]
  constructor
  · rintro ⟨n, -, owner, ho, hn⟩
    exact ⟨owner, ho, reflTransGen_iff_after.2 ⟨n, hn⟩⟩
  · rintro ⟨owner, ho, h⟩
    obtain ⟨n, hle, hn⟩ := exists_after_le_size h
    exact ⟨n, Nat.lt_succ_of_le hle, owner, ho, hn⟩

def Acyclic (g : BuildGraph) : Prop := ∀ t, ¬ TransGen g.WaitsFor t t

theorem Acyclic.exists_last (h : g.Acyclic) (t : ThreadId) :
    ∃ u, ReflTransGen g.WaitsFor t u ∧ ∀ v, ¬ g.WaitsFor u v := by
  by_contra hno
  -- Otherwise there are longer ways than there are waiting threads.
  have hlong : ∀ n, ∃ u, g.after n t = some u := by
    intro n
    induction n with
    | zero => exact ⟨t, rfl⟩
    | succ n ih =>
      obtain ⟨u, hu⟩ := ih
      have hv : ∃ v, g.WaitsFor u v := by
        by_contra hv
        exact hno ⟨u, reflTransGen_iff_after.2 ⟨n, hu⟩, not_exists.1 hv⟩
      obtain ⟨v, hv⟩ := hv
      refine ⟨v, ?_⟩
      rw [after_add, hu, Option.bind_some, after, blocker?_eq_some.2 hv]
      rfl
  obtain ⟨u, hu⟩ := hlong (g.waiting.size + 1)
  have hle := le_size (g := g) (t := t) (fun i hi => waits_of_after_succ hi hu) ?_
  · exact absurd hle (Nat.not_succ_le_self _)
  · intro i j u hij hj hi hju
    obtain ⟨k, rfl⟩ := Nat.exists_eq_add_of_lt hij
    rw [Nat.add_assoc, after_add, hi, Option.bind_some] at hju
    exact h u (transGen_of_after hju)

theorem Acyclic.mono (h : g.Acyclic) (hsub : ∀ t u, g'.WaitsFor t u → g.WaitsFor t u) :
    g'.Acyclic := fun t ht => h t (TransGen.mono hsub _ _ ht)

theorem Acyclic.of_edges_to (h : g.Acyclic) (me : ThreadId) (hme : ∀ v, ¬ g'.WaitsFor me v)
    (hold : ∀ t u, g'.WaitsFor t u → g.WaitsFor t u ∨ u = me) : g'.Acyclic := by
  have hgen : ∀ t u, TransGen g'.WaitsFor t u → TransGen g.WaitsFor t u ∨ u = me := by
    intro t u htu
    induction htu with
    | single h => exact (hold _ _ h).imp_left .single
    | tail _ h ih =>
      obtain ih | rfl := ih
      · exact (hold _ _ h).imp_left ih.tail
      · exact absurd h (hme _)
  intro t ht
  obtain ht | rfl := hgen t t ht
  · exact h t ht
  · obtain ⟨v, hv, -⟩ := TransGen.head'_iff.1 ht
    exact hme v hv

theorem Acyclic.of_edge (h : g.Acyclic) (me owner : ThreadId)
    (hno : ¬ ReflTransGen g.WaitsFor owner me)
    (hold : ∀ t u, g'.WaitsFor t u → g.WaitsFor t u ∨ t = me ∧ u = owner) : g'.Acyclic := by
  -- A way in the new graph is an old one, or else goes on from `owner` after `me`.
  have hgen : ∀ t u, TransGen g'.WaitsFor t u →
      TransGen g.WaitsFor t u ∨ ReflTransGen g.WaitsFor t me ∧ ReflTransGen g.WaitsFor owner u := by
    intro t u htu
    induction htu with
    | single h =>
      obtain h | ⟨rfl, rfl⟩ := hold _ _ h
      · exact .inl (.single h)
      · exact .inr ⟨.refl, .refl⟩
    | tail _ h ih =>
      obtain h | ⟨rfl, rfl⟩ := hold _ _ h
      · exact ih.imp (·.tail h) (fun ih => ⟨ih.1, ih.2.tail h⟩)
      · exact .inr ⟨ih.elim (·.to_reflTransGen) (·.1), .refl⟩
  intro t ht
  obtain ht | ⟨htm, hot⟩ := hgen t t ht
  · exact h t ht
  · exact hno (hot.trans htm)

end BuildGraph

end Wiring
