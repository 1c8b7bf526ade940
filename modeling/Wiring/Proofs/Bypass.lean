import Wiring.Proofs.EqualRuns
import Wiring.Proofs.Selection

namespace Wiring

variable {C : Client} {I : Implementation C} {α : Type} {S : Stack} {w w' : World C}
  {c : ContainerId} {name : String} {e : EntryId}

def Deed.Consults (e : EntryId) (c : ContainerId) (name : String) : Deed C → Prop
  | .access (.cached f) => f = e
  | .ask (.service d other o) => d = c ∧ other = name ∧ o.isEmpty = true
  | _ => False

theorem Deed.Looks.consults {ρ : Likeness C} {d : Deed C} (h : d.Looks (ρ.strict e c name)) :
    d.Consults e c name := by
  cases d with
  | access a =>
    cases a with
    | cached f =>
      obtain ⟨d, other, rfl, -, -⟩ := h
      exact rfl
    | _ => exact h.elim
  | call k => exact h.elim
  | ask g =>
    cases g with
    | service d other o =>
      obtain ⟨ho, f, -, rfl, rfl⟩ := h
      exact ⟨rfl, rfl, ho⟩
    | «class» d type o => exact h.elim

namespace World

theorem opening_keeps {g : Goal} {x : Target} {p : Program C Instance} {f : EntryId}
    (h : w.opening S g = .entered c x p (some f)) :
    ∃ other y, x = .service other ∧ w.entry? c other = some (f, y) ∧ (c, x) ∉ S := by
  have hentered : ∀ (d : ContainerId) (z : Target) (q : Program C Instance)
      (keeps : Option EntryId), S.opening d z q keeps = .entered c x p (some f) →
        d = c ∧ z = x ∧ keeps = some f ∧ (c, x) ∉ S := by
    intro d z q keeps hz
    unfold Stack.opening at hz
    split at hz
    · cases hz
    · next hfree =>
      cases hz
      exact ⟨rfl, rfl, rfl, Stack.cycle?_eq_none.1 hfree⟩
  cases g with
  | «class» d type o =>
    obtain ⟨-, -, hnone, -⟩ := hentered _ _ _ _ h
    cases hnone
  | service d other o =>
    simp only [opening] at h
    split at h
    · cases h
    · next f' y he =>
      split at h
      · split at h
        · cases h
        · obtain ⟨rfl, rfl, hf, hfree⟩ := hentered _ _ _ _ h
          cases hf
          exact ⟨other, y, rfl, he, hfree⟩
      · obtain ⟨-, -, hnone, -⟩ := hentered _ _ _ _ h
        cases hnone

theorem opening_overridden {o : Overrides} (ho : o.isEmpty = false) {d : ContainerId} {x : Target}
    {p : Program C Instance} {keeps : Option EntryId}
    (h : w.opening S (.service c name o) = .entered d x p keeps) :
    d = c ∧ x = .service name ∧ keeps = none := by
  simp only [opening, ho, Bool.and_false, Bool.false_eq_true, if_false, Stack.opening] at h
  split at h
  · cases h
  · split at h
    · cases h
    · cases h
      exact ⟨rfl, rfl, rfl⟩

theorem access_edit {a : Action C} {reply : a.Reply} (h : w.access I S a = some (reply, w')) :
    w.Edit w' := by
  obtain ⟨⟨r, m⟩, hp, hm⟩ := Option.map_eq_some_iff.1 h
  cases hm
  exact Machine.perform_edit hp

theorem Placed.keep (h : w.Placed e c name) {keeps : Option EntryId} (hne : keeps ≠ some e)
    (r : Except Failure Instance) :
    (w.keep keeps r).2.cached e = w.cached e ∧ (w.keep keeps r).2.Placed e c name := by
  unfold World.keep
  split
  · next f i =>
    split
    · exact ⟨rfl, h⟩
    · have hf : f ≠ e := fun hf => hne (congrArg some hf)
      exact ⟨by rw [cached_setCache, if_neg fun hh => hf hh.1], h.setCache f i⟩
  · exact ⟨rfl, h⟩

end World

theorem Evaluates.spares {p : Program C α} {ds : List (Deed C)} {r : Except Failure α}
    (h : Evaluates I S w p ds r w') (hin : (c, .service name) ∈ S) (hp : w.Placed e c name) :
    w'.cached e = w.cached e ∧ w'.Placed e c name := by
  -- What is entered on the way was free, so that it cannot be what is under way here.
  have hother : ∀ {S : Stack} {w : World C} {g d x} {q : Program C Instance} {keeps},
      w.opening S g = .entered d x q keeps → (c, .service name) ∈ S → w.Placed e c name →
        keeps ≠ some e := by
    rintro S w g d x q keeps ho hin hp rfl
    obtain ⟨other, y, rfl, he, hfree⟩ := World.opening_keeps ho
    obtain ⟨rfl, rfl⟩ := hp.2 d other (World.entry?_eq_some.1 he).1
    exact hfree hin
  induction h with
  | done | fail | crash => exact ⟨rfl, hp⟩
  | act ha _ _ ih =>
    have hedit := World.access_edit ha
    obtain ⟨hcached, hplaced⟩ := ih hin (hp.edit hedit)
    exact ⟨hcached.trans (hedit.cached e), hplaced⟩
  | call _ ih => exact ih hin hp
  | settled _ _ ih => exact ih hin hp
  | @entered _ _ _ _ _ _ _ _ _ _ r₁ w₁ _ _ _ _ _ ho _ hk _ ihp ih =>
    obtain ⟨hcached, hplaced⟩ := ihp (List.mem_cons_of_mem _ hin) hp
    obtain ⟨hkept, hplaced⟩ := hplaced.keep (hother ho hin hp) r₁
    rw [hk] at hkept hplaced
    obtain ⟨hrest, hplaced⟩ := ih hin hplaced
    exact ⟨hrest.trans (hkept.trans hcached), hplaced⟩
  | crashed _ _ ihp => exact ihp (List.mem_cons_of_mem _ hin) hp

theorem Responds.spares {o : Overrides} {ds : List (Deed C)} {r : Except Failure Instance}
    (h : Responds I S w (.service c name o) ds r w') (ho : o.isEmpty = false)
    (hp : w.Placed e c name) : w'.cached e = w.cached e := by
  cases h with
  | settled _ => rfl
  | entered hopen he hk =>
    obtain ⟨rfl, rfl, rfl⟩ := World.opening_overridden ho hopen
    cases hk
    exact (he.spares List.mem_cons_self hp).1

def Goal.supplied (i : Instance) : Goal := .service 0 "x" (Overrides.withName ∅ "y" i)

def Implementation.revisiting : Implementation Client.reporting where
  make _ c _ := (Container.get c "x").attempt.bind fun
    | .ok _ => .fail .emptyServiceName
    | .error _ => .done (.text "")
  give _ _ _ := .crash "nothing to give"
  manifest _ := .done []
  construct _ _ := .done (.text "")
  job _ := .done none

def Run.revisiting (before : Program Client.reporting Instance) : Run Implementation.revisiting :=
  along ⟨.ofServices () [("x", ⟨true, .made (.of "X") [] ()⟩)],
      [{ todo := [before.bind fun i =>
          (Program.request (.supplied i)).bind fun j => .done (some j)] }]⟩
    { world := World.ofServices_unbuilt _ _
      threads := fun h => by rw [List.mem_singleton.1 h]; exact ⟨rfl, rfl, rfl⟩ } fun _ => 0

def Run.unvisited : Run Implementation.revisiting := revisiting (allocate (.of "X") (.text ""))

def Run.visited : Run Implementation.revisiting := revisiting (Container.get 0 "x")

/-- Two worlds differ in nothing but the cache of a service, and the same request with an override
is made next. It is answered in one of them and fails in the other, since the body of the service
comes back to the cache. -/
theorem Run.override_comes_back :
    (unvisited.state 2).world.cached 0 = none ∧
      (visited.state 22).world.settled =
        (unvisited.state 2).world.settled.recached 0 (some ⟨.of "X", 0⟩) ∧
      (unvisited.state 2).threads.length = 1 ∧ (visited.state 22).threads.length = 1 ∧
      (visited.state 22).stack 0 = (unvisited.state 2).stack 0 ∧
      (unvisited.state 2).activity 0 =
        .running ((Program.request (.supplied ⟨.of "X", 0⟩)).bind fun j => .done (some j)) ∧
      (visited.state 22).activity 0 = (unvisited.state 2).activity 0 ∧
      (unvisited.state 17).threads[0]?.any (·.records.any
        (·.outcome matches .ok (some ⟨.of "X", 1⟩))) ∧
      (visited.state 35).threads[0]?.any (·.records.any
        (·.outcome matches .error (.error .emptyServiceName))) := by
  refine ⟨?_, rfl, ?_, ?_, ?_, rfl, rfl, ?_, ?_⟩ <;> decide +kernel

namespace Run

/-- On a single thread a service is requested with overrides. This leaves the cache of the service
as it is. If nothing on the way looks at the cache or asks for the service without overrides, the
request comes to the same end wherever it is made with something else in the cache: with the same
answer or failure if there is no other difference, and with one that is like it if the rest of the
world is numbered differently and no code can tell. -/
theorem override_bypasses (σ : Run I) (L : Scope C)
    (next : Except Error Instance → Program C L.Answer) (c : ContainerId) (name : String)
    (o : Overrides) (e : EntryId) (y : Entry C) (r : Except Failure Instance) (k l : ℕ)
    (he : (σ.state k).world.entry? c name = some (e, y)) (ho : o.isEmpty = false)
    (hr : σ.Requests 0 L (.service c name o) next k r l)
    (hone : (σ.state l).threads.length = 1) :
    (σ.state l).world.cached e = (σ.state k).world.cached e ∧
    ((∀ d ∈ σ.deeds 0 (k + 1) l, ¬ d.Consults e c name) →
      ∀ (σ' : Run I) (L' : Scope C) (next' : Except Error Instance → Program C L'.Answer) (n : ℕ),
        σ'.Attends 0 → (σ'.state n).threads.length = 1 →
        (σ'.state n).stack 0 = (σ.state k).stack 0 →
        (∀ cache, (σ'.state n).world.settled = (σ.state k).world.settled.recached e cache →
          (σ'.state n).activity 0 = L'.runs (.resolve (.service c name o) next') →
          ∃ k' l', n ≤ k' ∧ σ'.Rests n k' ∧
            σ'.Requests 0 L' (.service c name o) next' k' r l') ∧
        ∀ (ρ : Likeness C) (o' : Overrides), I.Respects (ρ.strict e c name) → o.Alike ρ o' →
          (σ.state k).world.settled.Kin (ρ.strict e c name) (σ'.state n).world.settled →
          (σ'.state n).activity 0 = L'.runs (.resolve (.service c name o') next') →
          ∃ k' r' l', n ≤ k' ∧ σ'.Rests n k' ∧
            σ'.Requests 0 L' (.service c name o') next' k' r' l' ∧
            (ρ.strict e c name).Ends (Instance.Alike ρ) r r' ∧
            (σ.state (l + 1)).world.settled.Kin (ρ.strict e c name)
              (σ'.state (l' + 1)).world.settled) := by
  have hp : (σ.state k).world.settled.Placed e c name :=
    (σ.reachable k).unmixed c name e (World.entry?_eq_some.1 he).1
  refine ⟨(hr.responds hone).spares ho hp, fun hno σ' L' next' n hfair hone' hstack => ?_⟩
  have hlooks : ∀ (ρ : Likeness C), ∀ d ∈ .ask (.service c name o) :: σ.deeds 0 (k + 1) l,
      ¬ d.Looks (ρ.strict e c name) := by
    intro ρ d hd hlook
    obtain rfl | hd := List.mem_cons.1 hd
    · exact Bool.false_ne_true (ho.symm.trans hlook.1)
    · exact hno d hd hlook.consults
  constructor
  · intro cache hw ha
    obtain ⟨k', r', l', hk, hrests, hr', -, hend, -⟩ := hr.counterpart I.respects_same hone hfair
      hone' ha (.service (o.alike_refl Likeness.same_rigid)) hstack.symm
      (hw ▸ World.kin_recached hp cache) (hlooks _)
    obtain rfl := hend.eq fun _ _ => (Instance.alike_iff_eq Likeness.same_rigid).1
    exact ⟨k', l', hk, hrests, hr'⟩
  · intro ρ o' hI ho' hw ha
    obtain ⟨k', r', l', hk, hrests, hr', -, hend, hw'⟩ := hr.counterpart hI hone hfair hone' ha
      (.service ho') hstack.symm hw (hlooks ρ)
    exact ⟨k', r', l', hk, hrests, hr', hend, hw'⟩

def supplied (before : Program Client.plain Instance) : Run Implementation.plain :=
  alone (.ofServices () [("x", ⟨true, .made (.of "X") [] ()⟩)]) (World.ofServices_unbuilt _ _)
    (before.bind fun i => (Program.request (.supplied i)).bind fun _ => .done ())

def unstocked : Run Implementation.plain := supplied (allocate (.of "X") (.text ""))

def stocked : Run Implementation.plain := supplied (Container.get 0 "x")

def restocked : Run Implementation.plain :=
  supplied ((Container.get 0 "x").bind fun _ => allocate (.of "X") (.text ""))

end Run

def Likeness.ahead : Likeness Client.plain where
  object o p := p = o + 1
  entry := Eq
  state := Eq
  object_unique h h' := by rw [h, h', Nat.add_right_cancel_iff]
  entry_unique := @eq_unique

theorem Implementation.plain_respects (κ : Kinship Client.plain) : plain.Respects κ := by
  intro c k l Rep h
  cases h with
  | make _ => exact .done (.plain nofun)
  | give _ => exact .crash .same
  | manifest => exact .done .nil
  | construct _ => exact .done (.plain nofun)

namespace Run

theorem unstocked_ahead : (unstocked.state 2).world.settled.Kin (Likeness.ahead.strict 0 0 "x")
    (restocked.state 18).world.settled where
  containers := rfl
  services c other := (optionRel_iff_eq fun _ _ => Iff.rfl).2 rfl
  entries {e f} h := by
    obtain rfl : e = f := h
    match e with
    | 0 => exact .some ⟨rfl, .made .nil⟩
    | _ + 1 => exact .none
  caches {e f} h he := by
    obtain rfl : e = f := h
    match e with
    | 0 => exact absurd ⟨rfl, rfl, rfl⟩ (he 0 "x")
    | _ + 1 => exact .none
  newEntries _ := rfl
  aside h := by
    obtain ⟨rfl, rfl, rfl⟩ := h
    exact (unstocked.reachable 2).unmixed 0 "x" 0 rfl
  objects {o p} h := by
    obtain rfl : p = o + 1 := h
    match o with
    | 0 => exact .some (.plain nofun)
    | _ + 1 => exact .none
  newObjects k := Nat.add_right_comm 1 1 k
  current := rfl
  waits := rfl
  state := rfl

theorem unstocked_requests : ∃ r l, l < 12 ∧ unstocked.Requests 0 .own (.supplied ⟨.of "X", 0⟩)
    (fun a => (Program.ofExcept a).bind fun _ => .done ()) 2 r l := by
  have hidle : (unstocked.state 12).hasEnded 0 := by decide +kernel
  refine Requests.of_over rfl (by decide +kernel) (by decide) ?_
  rw [Machine.activity_of_hasEnded hidle]
  rintro ⟨K, G, h, -⟩
  cases h

theorem override_bypasses_stocked :
    ∃ next r l, unstocked.Requests 0 .own (.supplied ⟨.of "X", 0⟩) next 2 r l ∧
      (unstocked.state l).world.cached 0 = none ∧
      (∃ k' l', 17 ≤ k' ∧ stocked.Requests 0 .own (.supplied ⟨.of "X", 0⟩) next k' r l') ∧
      ∃ k' r' l', 18 ≤ k' ∧ restocked.Requests 0 .own (.supplied ⟨.of "X", 1⟩) next k' r' l' ∧
        (Likeness.ahead.strict 0 0 "x").Ends (Instance.Alike .ahead) r r' := by
  obtain ⟨r, l, hl, hr⟩ := unstocked_requests
  have hone : (unstocked.state l).threads.length = 1 :=
    (single_at (by decide +kernel : (unstocked.state 12).threads.length = 1) (Nat.le_of_lt hl)
      hr.takes).2
  have hall : unstocked.deeds 0 3 12 =
      [.access (.emit (.building "x")), .call (.make () 0 ⟨"x", []⟩),
        .access (.allocate (.of "X") (.text ""))] := rfl
  have hno : ∀ d ∈ unstocked.deeds 0 3 l, ¬ d.Consults 0 0 "x" := by
    intro d hd
    rw [← deeds_append hr.lt (Nat.le_of_lt hl)] at hall
    have hd : d ∈ unstocked.deeds 0 3 l ++ unstocked.deeds 0 l 12 := List.mem_append_left _ hd
    rw [hall] at hd
    simp only [List.mem_cons, List.not_mem_nil, or_false] at hd
    rcases hd with rfl | rfl | rfl <;> exact id
  obtain ⟨hcache, hsame⟩ := override_bypasses unstocked .own _ 0 "x" _ 0 _ r 2 l rfl rfl hr hone
  obtain ⟨hstocked, -⟩ := hsame hno stocked .own
    (fun a => (Program.ofExcept a).bind fun _ => .done ()) 17 (along_attends _ _ _) rfl rfl
  obtain ⟨-, hrestocked⟩ := hsame hno restocked .own
    (fun a => (Program.ofExcept a).bind fun _ => .done ()) 18 (along_attends _ _ _) rfl rfl
  obtain ⟨k', l', hk, -, hr'⟩ := hstocked (some ⟨.of "X", 0⟩) rfl rfl
  have ho : Overrides.Alike Likeness.ahead (Overrides.withName ∅ "y" ⟨.of "X", 0⟩)
      (Overrides.withName ∅ "y" ⟨.of "X", 1⟩) := by
    refine ⟨rfl, fun _ => .none, fun other => ?_⟩
    change Option.Rel _ (Pairs.find? other [("y", _)]) (Pairs.find? other [("y", _)])
    simp only [Pairs.find?]
    split
    · exact .some ⟨rfl, rfl⟩
    · exact .none
  obtain ⟨k'', r'', l'', hk', -, hr'', hend, -⟩ := hrestocked .ahead _
    (Implementation.plain_respects _) ho unstocked_ahead rfl
  exact ⟨_, r, l, hr, hcache, ⟨k', l', hk, hr'⟩, k'', r'', l'', hk', hr'', hend⟩

end Run

end Wiring
