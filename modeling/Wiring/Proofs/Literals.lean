import Wiring.Proofs.Avoidance

namespace Wiring

variable {C : Client} {I : Implementation C} {S : Stack} {w : World C} {c : ContainerId}
  {name : String} {v : Instance} {value : Value} {copies : Bool} {k : EntryId} {x : Entry C}
  {o : Overrides}

theorem build_literal_ensures (c : ContainerId) (name : String) (v : Instance) (copies : Bool)
    (o : Overrides) :
    (build c name ⟨true, .literal v copies⟩ o : Program C Instance).Ensures (· = v) := by
  apply Program.Ensures.bind
  intro _
  apply Program.Ensures.bind
  intro parameters
  apply Program.Ensures.bind
  intro args
  apply Program.Ensures.ofExcept
  intro i hi
  exact (Instance.cast_eq_ok.1 hi).2

theorem Run.cached_literal (σ : Run I) {n : ℕ} {i : Instance}
    (hx : (σ.state n).world.entries[k]? = some x)
    (hr : x.registration.logic = .literal v copies) (hi : x.cache = some i) :
    x.registration.shared = true ∧ i = v := by
  obtain ⟨hs, l, -, t, s, F, next, b, -, hreg, hb⟩ := σ.cached_makes hx hi
  refine ⟨hs, hb.ensures (P := (· = v)) ?_⟩
  have hsite : s.registration = ⟨true, .literal v copies⟩ := by
    rw [hreg]
    exact congrArg₂ Registration.mk hs hr
  rw [hsite]
  exact build_literal_ensures _ _ v copies ∅

theorem World.opening_unshared (he : w.entry? c name = some (k, x))
    (hs : x.registration.shared = false) (hfree : (c, .service name) ∉ S) :
    w.opening S (.service c name o) =
      .entered c (.service name) (build c name x.registration o) none := by
  have hno : ¬ ((false && o.isEmpty) = true) := nofun
  simp only [opening, he, hs]
  rw [if_neg hno, Stack.opening, Stack.cycle?_eq_none.2 hfree]

namespace Evaluates

theorem build_shared_literal (c : ContainerId) (name : String) (v : Instance) (copies : Bool)
    (o : Overrides) :
    ∃ ds, Evaluates I S w (Wiring.build c name ⟨true, .literal v copies⟩ o) ds (.ok v) w :=
  ⟨_, .build .done .done .done rfl⟩

theorem copy (i : Instance) :
    Evaluates I S w (Wiring.copy i)
      [.access (.modify i.object id), .access (.allocate i.type (w.value i.object))]
      (.ok ⟨i.type, w.objects.length⟩) { w with objects := w.objects ++ [w.value i.object] } := by
  have hread : w.access I S (.modify i.object id) = some (w.value i.object, w) := by
    have hid : w.objects.modify i.object id = w.objects := List.modify_id _ _
    change some (w.value i.object, { w with objects := w.objects.modify i.object id }) = _
    rw [hid]
  exact .act hread rfl (.act rfl rfl .done)

theorem build_copied_literal (c : ContainerId) (name : String) (v : Instance) (o : Overrides) :
    ∃ ds, Evaluates I S w (Wiring.build c name ⟨false, .literal v true⟩ o) ds
      (.ok ⟨v.type, w.objects.length⟩) { w with objects := w.objects ++ [w.value v.object] } :=
  ⟨_, .build .done .done (.copy v) rfl⟩

end Evaluates

inductive Offered (c : ContainerId) (name : String) (S : Stack) (shared : Bool) (v : Instance)
    (value : Value) (objects : List Value) : Except Failure Instance → Prop
  | given {i : Instance} (type : i.type = v.type) (holds : objects[i.object]? = some value)
      (stored : shared = true → i = v) : Offered c name S shared v value objects (.ok i)
  | circular {chain : List String} (busy : (c, .service name) ∈ S) :
      Offered c name S shared v value objects (.error (.error (.circularDependency chain)))

theorem World.responds_literal {shared : Bool} {cache : Option Instance} (I : Implementation C)
    (S : Stack) (he : w.entry? c name = some (k, ⟨⟨shared, .literal v true⟩, cache⟩))
    (hcache : ∀ i, cache = some i → shared = true ∧ i = v)
    (hv : w.objects[v.object]? = some value) :
    ∃ ds r w', Responds I S w (.service c name ∅) ds r w' ∧
      Offered c name S shared v value w'.objects r := by
  have hcached : w.cached k = cache := by
    rw [World.cached, (World.entry?_eq_some.1 he).2]
    rfl
  by_cases hbusy : (c, .service name) ∈ S
  · obtain ⟨a, hopen, ⟨i, hs, hi, rfl⟩ | ⟨-, chain, rfl, -⟩⟩ := World.opening_busy he hbusy
    · obtain ⟨-, rfl⟩ := hcache i (hcached ▸ hi)
      exact ⟨_, _, w, .settled hopen, .given rfl hv fun _ => rfl⟩
    · exact ⟨_, _, w, .settled hopen, .circular hbusy⟩
  · cases shared with
    | false =>
      obtain ⟨ds, hbuild⟩ := Evaluates.build_copied_literal (I := I)
        (S := S.enter c (.service name)) (w := w) c name v ∅
      refine ⟨ds, _, _, .entered (World.opening_unshared he rfl hbusy) hbuild rfl, ?_⟩
      have hvalue : w.value v.object = value := by rw [World.value, List.getD, hv]; rfl
      refine .given rfl ?_ fun hs => absurd hs Bool.false_ne_true
      rw [hvalue]
      exact List.getElem?_concat_length
    | true =>
      cases hx : cache with
      | some i =>
        obtain ⟨-, rfl⟩ := hcache i hx
        exact ⟨_, _, w, .settled (World.opening_cached he rfl (hcached.trans hx)),
          .given rfl hv fun _ => rfl⟩
      | none =>
        have hnone := hcached.trans hx
        obtain ⟨ds, hbuild⟩ := Evaluates.build_shared_literal (I := I)
          (S := S.enter c (.service name)) (w := w) c name v true ∅
        have hkeep : w.keep (some k) (.ok v) = (.ok v, w.setCache k v) := by
          rw [World.keep, hnone]
        exact ⟨ds, _, _, .entered (World.opening_uncached he rfl hnone hbusy) hbuild hkeep,
          .given rfl hv fun _ => rfl⟩

end Wiring
