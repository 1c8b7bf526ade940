import Mathlib.Tactic.IntervalCases
import Wiring.Proofs.GetDecision
import Wiring.Proofs.ScriptAnnouncement

namespace Wiring

variable {C : Client} {α : Type}

section

variable {c : ContainerId} {R : Register} {w : World C} {log pre post : List Event} {name : String}

theorem Program.Keeps.follows {p : Program C α} (h : p.Keeps c R w log)
    (hl : log = pre ++ .replaced name :: post) :
    ∃ shared provides, pre.getLast? = some (.registering name shared provides) := by
  have hannounced {before : List Event} {other : String} {shared : Bool} {provides : TypeKey}
      (hm : Marked R before) (hb : log = before ++ [.registering other shared provides]) :
      ∃ shared provides, pre.getLast? = some (.registering name shared provides) := by
    obtain ⟨-, -, he⟩ | ⟨rest, -, hold⟩ := concat_eq_iff.1 (hb.symm.trans hl)
    · cases he
    · exact hm.follows hold
  obtain ⟨due, howes, -⟩ := h
  cases howes with
  | nothing h => exact h.marked.follows hl
  | build h => exact h.marked.follows hl
  | announced hlog h => exact hannounced h.marked hlog
  | replaced hlog hm => exact hannounced hm hlog
  | removed hm => exact hm.follows hl

theorem Activity.Keeps.follows {A : Activity C} (h : A.Keeps c R w log)
    (hl : log = pre ++ .replaced name :: post) :
    ∃ shared provides, pre.getLast? = some (.registering name shared provides) := by
  cases A with
  | idle => exact World.AsTold.marked h |>.follows hl
  | running p => exact Program.Keeps.follows h hl
  | resolving K F next =>
    cases K with
    | run p => exact Program.Keeps.follows h.1 hl
    | _ => exact h.1.1.marked.follows hl

end

namespace Run

variable {I : Implementation C} {σ : Run I} {n k l : ℕ} {c : ContainerId} {R : Register}
  {L : Scope C} {e : Event}

theorem Performs.told {t : ThreadId} (h : σ.Performs n t (.emit e)) :
    σ.told t n (n + 1) = [e] := by
  obtain ⟨hm, L, rest, ha⟩ := h
  obtain ⟨th, hth, hst⟩ := Machine.step_cases (σ.moves n t hm)
  obtain ⟨th', hth', ⟨fresh, hmv⟩ | ⟨r, F, next, hn, -⟩⟩ := hst.self hth
  · apply told_eq
    rw [Machine.log_eq hth, Machine.log_eq hth']
    exact hmv.log_runs ((Machine.activity_eq hth).symm.trans ha)
  · exact absurd ((Machine.activity_eq hth).trans hn) (not_notify_of_runs ha _ _ _)

/-- What the container answers from moment `n` to moment `k` agrees with the register. -/
structure Reports (σ : Run I) (c : ContainerId) (Q : Register) (n k : ℕ) : Prop where
  names {L : Scope C} {rest : List String → Program C L.Answer} {ds : List (Deed C)}
    {r : Except Failure (List String)} (h : σ.Completes 0 L rest (Container.names c) n ds r k) :
    r = .ok (World.sortNames Q.keys)
  has {L : Scope C} {rest : Bool → Program C L.Answer} {ds : List (Deed C)}
    {r : Except Failure Bool} {name : String}
    (h : σ.Completes 0 L rest (Container.has c name) n ds r k) : r = .ok (Q.contains name)
  describe {L : Scope C} {rest : Option ServiceInfo → Program C L.Answer} {ds : List (Deed C)}
    {r : Except Failure (Option ServiceInfo)} {name : String}
    (h : σ.Completes 0 L rest (Container.describe c name) n ds r k) :
    σ.Describes n k name (Q.get? name) r

namespace Registers

theorem follows (h : σ.Registers c R l) (hn : n ≤ l) {pre post : List Event} {name : String}
    (hl : σ.told 0 0 n = pre ++ .replaced name :: post) :
    ∃ shared provides, pre.getLast? = some (.registering name shared provides) := by
  obtain ⟨th, ht⟩ := single_thread h.alone hn
  exact (h.keeps hn ht).1.follows hl

theorem replaces (h : σ.Registers c R l) {name : String} {shared : Bool} {provides : TypeKey}
    (hp : σ.Performs n 0 (.emit (.registering name shared provides))) (hn : n < k) (hk : k ≤ l)
    (hb : ¬ ((σ.state k).activity 0).Between) :
    (σ.told 0 (n + 1) k).head? = some (.replaced name) ↔
      ((σ.state n).world.entry? c name).isSome := by
  obtain ⟨L, rest, ha⟩ := hp.2
  have hbefore := h.asTold_of_runs (Nat.le_trans (Nat.le_of_lt hn) hk) ha id
  have hsplit : σ.told 0 0 k =
      σ.told 0 0 n ++ .registering name shared provides :: σ.told 0 (n + 1) k := by
    rw [← told_append (Nat.zero_le n) (Nat.le_of_lt hn), ← told_append (Nat.le_succ n) hn, hp.told]
    rfl
  rw [(h.asTold hk hb).marked.head_iff hsplit, hbefore.lists.isSome_entry?]

end Registers

/-- On a single thread that registers into one container, replaying what has been told of
registrations and removals gives the registry, but for the moments at which one of them is under
way. What names, looks up and describes services answers accordingly. A replacement is told of just
after a registration, and if and only if the name was registered then. The first thing that a get of
a registered service tells is how it is decided, and it tells this once. -/
theorem log_faithful (h : σ.Registers c R l) :
    (∀ n ≤ l, ¬ ((σ.state n).activity 0).Between →
      (σ.state n).world.Lists c (replay R (σ.told 0 0 n))) ∧
    (∀ n, ∀ k ≤ l, σ.Reports c (replay R (σ.told 0 0 n)) n k) ∧
    (∀ n name shared provides, σ.Performs n 0 (.emit (.registering name shared provides)) →
      ∀ k ≤ l, n < k → ¬ ((σ.state k).activity 0).Between →
        ((σ.told 0 (n + 1) k).head? = some (.replaced name) ↔
          ((σ.state n).world.entry? c name).isSome)) ∧
    (∀ n ≤ l, ∀ pre name post, σ.told 0 0 n = pre ++ .replaced name :: post →
      ∃ shared provides, pre.getLast? = some (.registering name shared provides)) ∧
    ∀ (L : Scope C) next d name e x n, ∀ k ≤ l, σ.Asks 0 L (.service d name ∅) next n k →
      (σ.state n).world.entry? d name = some (e, x) →
        σ.Heralds L next ⟨d, name, e, x.registration⟩ x.cache n k := by
  refine ⟨fun n hn hb => (h.asTold hn hb).lists, fun n k hk => ?_, ?_, ?_, ?_⟩
  · exact ⟨h.names hk, h.has hk, h.describe hk⟩
  · intro n name shared provides hp k hk hn hb
    exact h.replaces hp hn hk hb
  · intro n hn pre name post hl
    exact h.follows hn hl
  · intro L next d name e x n k hk hasks hx
    exact Asks.heralds (s := ⟨d, name, e, x.registration⟩) h.bodies hasks (single h.alone hk) hx rfl

def placed? : Activity C → Option ContainerId
  | .running (.act (.insert c ..) _) => some c
  | .running (.act (.erase c _) _) => some c
  | .resolving (.run (.act (.insert c ..) _)) _ _ => some c
  | .resolving (.run (.act (.erase c _) _)) _ _ => some c
  | _ => none

theorem Performs.placed {t : ThreadId} {a : Action C} {d : ContainerId} {name : String}
    (h : σ.Performs n t a) (ha : a.Places d name) : placed? ((σ.state n).activity t) = some d := by
  obtain ⟨-, L, rest, hact⟩ := h
  rw [hact]
  obtain ⟨r, rfl⟩ | rfl := ha
  · cases L <;> rfl
  · cases L <;> rfl

def recordedScript : List Script.Expr :=
  [.add none .set "a" true (.containerFactory .text (.sequence
      [.add none .set "b" true (.factory .text (.crash "nothing to make")),
        .literal ⟨.text, .text "x"⟩])),
    .get none "a", .get none "a",
    .add none .set "a" true (.withParameters .text [.mk "a" none false none] (.argument "a" .text)),
    .get none "a", .get none "b", .remove none "b", .names none]

def recorded : Run Script.implementation :=
  along ⟨.start {}, [{ todo := recordedScript.map (Script.eval · {}) }]⟩
    { world := World.start_unbuilt _
      threads := fun h => by rw [List.mem_singleton.1 h]; exact ⟨rfl, rfl, rfl⟩ } fun _ => 0

set_option maxRecDepth 4000 in
theorem recorded_registers : recorded.Registers 0 ∅ 87 where
  alone := by decide +kernel
  bodies := Script.implementation_announces
  jobs {th p} h hp := by
    rw [List.mem_singleton.1 h] at hp
    obtain ⟨e, -, rfl⟩ := List.mem_map.1 hp
    exact Script.eval_announces e {}
  lists := ⟨rfl, fun _ => rfl⟩
  only {n a d name} hn h ha := by
    have hall : ∀ n < 87, (placed? ((recorded.state n).activity 0)).all (· = 0) ∧
        0 < (recorded.state n).world.containers.length := by decide +kernel
    obtain ⟨hplaced, hlen⟩ := hall n hn
    rw [h.placed ha] at hplaced
    exact ⟨of_decide_eq_true hplaced, hlen⟩

set_option maxRecDepth 2000 in
theorem log_faithful_recorded :
    (recorded.state 87).world.Lists 0 (replay ∅ (recorded.told 0 0 87)) ∧
      (replay ∅ (recorded.told 0 0 87)).keys = ["a"] ∧
      recorded.Reports 0 (replay ∅ (recorded.told 0 0 85)) 85 86 ∧
      (recorded.told 0 2 4).head? ≠ some (.replaced "a") ∧
      (recorded.told 0 35 38).head? = some (.replaced "a") ∧
      (recorded.told 0 6 25 = [.building "a", .registering "b" true .text] ∧
        ∃ next, ∃ x : Entry Script.client, x.cache = none ∧
          recorded.Heralds .own next ⟨0, "a", 0, x.registration⟩ x.cache 5 25) ∧
      (recorded.told 0 29 31 = [.cacheHit "a"] ∧
        ∃ next, ∃ x : Entry Script.client, x.cache.isSome ∧
          recorded.Heralds .own next ⟨0, "a", 0, x.registration⟩ x.cache 28 31) ∧
      recorded.told 0 50 53 = [.circular ["a", "a"]] ∧
        ∃ F N next, ∃ x : Entry Script.client,
          recorded.Heralds (.inside F N) next ⟨0, "a", 2, x.registration⟩ x.cache 49 53 := by
  obtain ⟨hlists, hreports, hreplaced, -, hgets⟩ := log_faithful recorded_registers
  have hidle {n : ℕ} (h : (recorded.state n).activity 0 = .idle) :
      ¬ ((recorded.state n).activity 0).Between := by
    rintro ⟨L, a, rest, ha, -⟩
    cases L <;> cases h.symm.trans ha
  have hbuilt : ∃ next, recorded.Asks 0 .own (.service 0 "a" ∅) next 5 25 := by
    refine ⟨_, rfl, rfl, by decide, fun i hk hl => ?_⟩
    interval_cases i <;> exact ⟨_, _, rfl, List.nil_suffix⟩
  have hhit : ∃ next, recorded.Asks 0 .own (.service 0 "a" ∅) next 28 31 := by
    refine ⟨_, rfl, rfl, by decide, fun i hk hl => ?_⟩
    interval_cases i <;> exact ⟨_, _, rfl, List.nil_suffix⟩
  have hrefused : ∃ F N next,
      recorded.Asks 0 (.inside F N) (.service 0 "a" ∅) next 49 53 := by
    refine ⟨_, _, _, rfl, rfl, by decide, fun i hk hl => ?_⟩
    interval_cases i <;> exact ⟨_, _, rfl, List.suffix_rfl⟩
  refine ⟨hlists 87 (by decide) (hidle rfl), by decide +kernel, hreports 85 86 (by decide), ?_, ?_,
    ⟨by decide +kernel, ?_⟩, ⟨by decide +kernel, ?_⟩, by decide +kernel, ?_⟩
  · rw [Ne, hreplaced 1 "a" true .text ⟨rfl, .own, _, rfl⟩ 4 (by decide) (by decide) (hidle rfl)]
    decide +kernel
  · rw [hreplaced 34 "a" true .text ⟨rfl, .own, _, rfl⟩ 38 (by decide) (by decide) (hidle rfl)]
    decide +kernel
  · obtain ⟨next, h⟩ := hbuilt
    exact ⟨next, _, rfl, hgets .own next 0 "a" 0 _ 5 25 (by decide) h rfl⟩
  · obtain ⟨next, h⟩ := hhit
    exact ⟨next, _, rfl, hgets .own next 0 "a" 0 _ 28 31 (by decide) h rfl⟩
  · obtain ⟨F, N, next, h⟩ := hrefused
    exact ⟨F, N, next, _, hgets _ next 0 "a" 2 _ 49 53 (by decide) h rfl⟩

end Run

end Wiring
