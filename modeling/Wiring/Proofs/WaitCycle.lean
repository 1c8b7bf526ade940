import Mathlib.Data.List.Chain
import Wiring.Proofs.WaitGraph

namespace Wiring

namespace BuildGraph

open Relation (ReflTransGen)

variable {g : BuildGraph} {me owner : ThreadId} {key next last : BuildKey}
variable {walked rest : List BuildKey} {names chain : List String} {rounds : Nat}

def Follows (g : BuildGraph) (a b : BuildKey) : Prop :=
  ∃ owner, g.owners.get? a = some owner ∧ g.waiting.get? owner = some b

/-- `walked` goes from `key` to the first build on the way that `me` owns, which is `last`. -/
structure LeadsBack (g : BuildGraph) (me : ThreadId) (key : BuildKey) (walked : List BuildKey)
    (last : BuildKey) : Prop where
  starts : walked.head? = some key
  linked : walked.IsChain g.Follows
  ends : walked.getLast? = some last
  owned : g.owners.get? last = some me
  earliest : ∀ b ∈ walked.dropLast, g.owners.get? b ≠ some me

theorem Follows.unique {a b b' : BuildKey} (h : g.Follows a b) (h' : g.Follows a b') : b = b' := by
  obtain ⟨owner, ho, hw⟩ := h
  obtain ⟨owner', ho', hw'⟩ := h'
  obtain rfl : owner = owner' := Option.some.inj (ho.symm.trans ho')
  exact Option.some.inj (hw.symm.trans hw')

theorem LeadsBack.single (h : g.owners.get? key = some me) : g.LeadsBack me key [key] key := by
  constructor
  · rfl
  · exact .singleton key
  · rfl
  · exact h
  · intro b hb
    cases hb

theorem LeadsBack.cons (hne : g.owners.get? key ≠ some me) (hf : g.Follows key next)
    (h : g.LeadsBack me next walked last) : g.LeadsBack me key (key :: walked) last := by
  obtain _ | ⟨first, rest⟩ := walked
  · cases h.starts
  obtain rfl : first = next := Option.some.inj h.starts
  constructor
  · rfl
  · exact List.isChain_cons_cons.2 ⟨hf, h.linked⟩
  · rw [List.getLast?_cons_cons]
    exact h.ends
  · exact h.owned
  · intro b hb
    rw [List.dropLast_cons_cons] at hb
    obtain rfl | hb := List.mem_cons.1 hb
    · exact hne
    · exact h.earliest b hb

theorem LeadsBack.cases (h : g.LeadsBack me key (key :: rest) last) :
    (rest = [] ∧ last = key ∧ g.owners.get? key = some me) ∨
      g.owners.get? key ≠ some me ∧
        ∃ next more, rest = next :: more ∧ g.Follows key next ∧
          g.LeadsBack me next (next :: more) last := by
  obtain ⟨-, hlinked, hends, howned, hearliest⟩ := h
  obtain _ | ⟨next, more⟩ := rest
  · obtain rfl : key = last := Option.some.inj hends
    exact .inl ⟨rfl, rfl, howned⟩
  right
  rw [List.dropLast_cons_cons] at hearliest
  rw [List.getLast?_cons_cons] at hends
  obtain ⟨hf, hlinked⟩ := List.isChain_cons_cons.1 hlinked
  refine ⟨hearliest key List.mem_cons_self, next, more, rfl, hf, ?_⟩
  exact ⟨rfl, hlinked, hends, howned, fun b hb => hearliest b (List.mem_cons_of_mem _ hb)⟩

theorem LeadsBack.reaches (h : g.LeadsBack me key (key :: rest) last) :
    ReflTransGen g.Follows key last := by
  refine List.relationReflTransGen_of_exists_isChain_cons rest h.linked ?_
  have hlast := List.getLast?_eq_some_getLast (List.cons_ne_nil key rest)
  exact Option.some.inj (hlast.symm.trans h.ends)

theorem walk_eq_some_iff : g.walk me rounds key names = some chain ↔
    ∃ rest last, g.LeadsBack me key (key :: rest) last ∧ rest.length < rounds ∧
      chain = last.name :: (names ++ rest.map (·.name)) := by
  induction rounds generalizing key names with
  | zero => simp [walk]
  | succ rounds ih =>
    rw [walk]
    cases ho : g.owners.get? key with
    | none =>
      simp only [reduceCtorEq, false_iff]
      rintro ⟨rest, last, h, -⟩
      obtain ⟨-, -, hown⟩ | ⟨-, next, more, -, ⟨owner, hown, -⟩, -⟩ := h.cases
      · cases ho.symm.trans hown
      · cases ho.symm.trans hown
    | some owner =>
      by_cases he : owner = me
      · subst he
        simp only [if_pos, Option.some.injEq]
        constructor
        · rintro rfl
          exact ⟨[], key, .single ho, Nat.succ_pos _, by simp⟩
        · rintro ⟨rest, last, h, -, rfl⟩
          obtain ⟨rfl, rfl, -⟩ | ⟨hne, -⟩ := h.cases
          · simp
          · exact absurd ho hne
      · have hne : g.owners.get? key ≠ some me := by
          rw [ho]
          exact fun h => he (Option.some.inj h)
        simp only [if_neg he]
        cases hw : g.waiting.get? owner with
        | none =>
          simp only [reduceCtorEq, false_iff]
          rintro ⟨rest, last, h, -⟩
          obtain ⟨-, -, hown⟩ | ⟨-, next, more, -, ⟨owner', hown, hwait⟩, -⟩ := h.cases
          · exact hne hown
          · cases ho.symm.trans hown
            cases hw.symm.trans hwait
        | some next =>
          have hf : g.Follows key next := ⟨owner, ho, hw⟩
          simp only [ih]
          constructor
          · rintro ⟨rest, last, h, hlen, rfl⟩
            exact ⟨next :: rest, last, h.cons hne hf, Nat.succ_lt_succ hlen, by simp⟩
          · rintro ⟨rest, last, h, hlen, rfl⟩
            obtain ⟨-, -, hown⟩ | ⟨-, next', more, rfl, hf', h⟩ := h.cases
            · exact absurd hown hne
            · obtain rfl : next' = next := hf'.unique hf
              exact ⟨more, last, h, Nat.lt_of_succ_lt_succ hlen, by simp⟩

theorem walk_mono {rounds' : Nat} (h : g.walk me rounds key names = some chain)
    (hle : rounds ≤ rounds') : g.walk me rounds' key names = some chain := by
  obtain ⟨rest, last, hback, hlen, rfl⟩ := walk_eq_some_iff.1 h
  exact walk_eq_some_iff.2 ⟨rest, last, hback, hlen.trans_le hle, rfl⟩

theorem reflTransGen_waitsFor {a b : BuildKey} (h : ReflTransGen g.Follows a b)
    (hb : g.owners.get? b = some me) :
    ∃ owner, g.owners.get? a = some owner ∧ ReflTransGen g.WaitsFor owner me := by
  induction h using ReflTransGen.head_induction_on with
  | refl => exact ⟨me, hb, .refl⟩
  | head h _ ih =>
    obtain ⟨owner, ho, hw⟩ := h
    obtain ⟨blocker, hblocker, hme⟩ := ih
    exact ⟨owner, ho, .head ⟨_, hw, hblocker⟩ hme⟩

theorem waitCycle_isSome_of_reaches (h : ReflTransGen g.Follows key last)
    (hl : g.owners.get? last = some me) : (g.waitCycle key me).isSome :=
  waitCycle_isSome_iff.2 (reflTransGen_waitsFor h hl)

theorem walk_iff_waitCycle :
    (∃ rounds, g.walk me rounds key [key.name] = some chain) ↔
      g.waitCycle key me = some chain := by
  constructor
  · rintro ⟨rounds, h⟩
    obtain ⟨rest, last, hback, -, -⟩ := walk_eq_some_iff.1 h
    have hsome := waitCycle_isSome_of_reaches hback.reaches hback.owned
    obtain ⟨found, hfound⟩ := Option.isSome_iff_exists.1 hsome
    have hlong := walk_mono hfound (Nat.le_max_left _ rounds)
    have hlong' := walk_mono h (Nat.le_max_right (g.waiting.size + 1) rounds)
    rw [hfound, ← hlong, hlong']
  · intro h
    exact ⟨g.waiting.size + 1, h⟩

theorem waitCycle_eq_some_iff : g.waitCycle key me = some chain ↔
    ∃ walked last, g.LeadsBack me key walked last ∧
      chain = last.name :: walked.map (·.name) := by
  rw [← walk_iff_waitCycle]
  constructor
  · rintro ⟨rounds, h⟩
    obtain ⟨rest, last, hback, -, rfl⟩ := walk_eq_some_iff.1 h
    exact ⟨key :: rest, last, hback, by simp⟩
  · rintro ⟨walked, last, h, rfl⟩
    obtain _ | ⟨first, rest⟩ := walked
    · cases h.starts
    obtain rfl : first = key := Option.some.inj h.starts
    exact ⟨rest.length + 1, walk_eq_some_iff.2 ⟨rest, last, h, Nat.lt_succ_self _, by simp⟩⟩

theorem LeadsBack.closes (h : g.LeadsBack me key walked last)
    (hc : chain = last.name :: walked.map (·.name)) :
    2 ≤ chain.length ∧ chain.head? = chain.getLast? := by
  subst hc
  obtain _ | ⟨first, rest⟩ := walked
  · cases h.starts
  constructor
  · simp
  · rw [List.map_cons, List.getLast?_cons_cons, ← List.map_cons, List.getLast?_map, h.ends]
    rfl

/-- Waiting is found to close a cycle just if the way along owners and the builds that they wait
for comes to a build of `me`, however many rounds that takes. -/
theorem waitCycle_exact (g : BuildGraph) (key : BuildKey) (me : ThreadId) :
    ((g.waitCycle key me).isSome ↔
      ∃ last, ReflTransGen g.Follows key last ∧ g.owners.get? last = some me) ∧
    (∀ chain, g.waitCycle key me = some chain ↔
      ∃ walked last, g.LeadsBack me key walked last ∧
        chain = last.name :: walked.map (·.name) ∧
        2 ≤ chain.length ∧ chain.head? = chain.getLast?) ∧
    ∀ chain, (∃ rounds, g.walk me rounds key [key.name] = some chain) ↔
      g.waitCycle key me = some chain := by
  refine ⟨⟨?_, ?_⟩, ?_, fun _ => walk_iff_waitCycle⟩
  · intro h
    obtain ⟨chain, h⟩ := Option.isSome_iff_exists.1 h
    obtain ⟨walked, last, h, -⟩ := waitCycle_eq_some_iff.1 h
    obtain _ | ⟨first, rest⟩ := walked
    · cases h.starts
    obtain rfl : first = key := Option.some.inj h.starts
    exact ⟨last, h.reaches, h.owned⟩
  · rintro ⟨last, h, hl⟩
    exact waitCycle_isSome_of_reaches h hl
  · intro chain
    rw [waitCycle_eq_some_iff]
    constructor
    · rintro ⟨walked, last, h, hc⟩
      exact ⟨walked, last, h, hc, h.closes hc⟩
    · rintro ⟨walked, last, h, hc, -⟩
      exact ⟨walked, last, h, hc⟩

example :
    let build (name : String) : BuildKey := ⟨0, name⟩
    let g : BuildGraph :=
      ⟨(((((∅ : Table BuildKey ThreadId).insert (build "a") 1).insert (build "b") 2).insert
          (build "c") 0).insert (build "x") 3).insert (build "y") 4,
        ((((∅ : Table ThreadId BuildKey).insert 1 (build "b")).insert 2 (build "c")).insert 3
          (build "y")).insert 4 (build "x")⟩
    g.waitCycle (build "a") 0 = some ["c", "a", "b", "c"] ∧ g.waitCycle (build "x") 0 = none := by
  decide

end BuildGraph

end Wiring
