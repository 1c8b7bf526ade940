import Wiring.Proofs.LogInvariant

namespace Wiring

variable {C : Client} {α : Type}

def Action.Pending : Action C → Prop
  | .insert .. => True
  | .emit (.replaced _) => True
  | .emit (.removed _) => True
  | _ => False

def Activity.Between (A : Activity C) : Prop :=
  ∃ (L : Scope C) (a : Action C) (rest : a.Reply → Program C L.Answer),
    A = L.runs (.act a rest) ∧ a.Pending

theorem Scope.runs_act_inj {L L' : Scope C} {a a' : Action C} {rest : a.Reply → Program C L.Answer}
    {rest' : a'.Reply → Program C L'.Answer} (h : L.runs (.act a rest) = L'.runs (.act a' rest')) :
    a = a' := by
  cases L <;> cases L' <;> cases h <;> rfl

theorem Activity.not_between {L : Scope C} {a : Action C} {rest : a.Reply → Program C L.Answer}
    (ha : ¬ a.Pending) : ¬ (L.runs (.act a rest)).Between := by
  rintro ⟨L', a', rest', h, hp⟩
  exact ha (Scope.runs_act_inj h ▸ hp)

section

variable {c : ContainerId} {R : Register} {w : World C} {log : List Event}

theorem Program.Keeps.asTold {p : Program C α} (h : p.Keeps c R w log)
    (hp : ∀ a rest, p = .act a rest → ¬ a.Pending) : w.AsTold c R log := by
  obtain ⟨due, howes, hobeys⟩ := h
  have hacts (hdue : due ≠ .nothing) : ∃ a : Action C, ¬ a.Pending ∧ a.Settles due := by
    obtain ⟨a, rest, he, ha⟩ := hobeys.acts hdue
    exact ⟨a, hp a rest he, ha⟩
  cases howes with
  | nothing h => exact h
  | build h => exact h
  | announced =>
    obtain ⟨a, ha, d, reg, rfl, -⟩ := hacts nofun
    exact absurd trivial ha
  | replaced =>
    obtain ⟨a, ha, rfl⟩ := hacts nofun
    exact absurd trivial ha
  | removed =>
    obtain ⟨a, ha, rfl⟩ := hacts nofun
    exact absurd trivial ha

theorem Activity.Keeps.asTold {A : Activity C} (h : A.Keeps c R w log) (hA : ¬ A.Between) :
    w.AsTold c R log := by
  cases A with
  | idle => exact h
  | running p =>
    refine Program.Keeps.asTold h fun a rest hp ha => hA ⟨.own, a, rest, ?_, ha⟩
    rw [hp]
    rfl
  | resolving K F next =>
    obtain ⟨h, -⟩ := h
    cases K with
    | run p =>
      refine Program.Keeps.asTold h fun a rest hp ha => hA ⟨.inside F next, a, rest, ?_, ha⟩
      rw [hp]
      rfl
    | _ => exact h.1

end

namespace Machine

variable {I : Implementation C} {m m' : Machine C} {t u : ThreadId} {th th' : Thread C}
  {w : World C} {fresh : List (Thread C)}

def log (m : Machine C) (t : ThreadId) : List Event := (m.threads[t]?.map (·.log)).getD []

theorem log_eq (ht : m.threads[t]? = some th) : m.log t = th.log := by simp [log, ht]

theorem Move.log_grows (hm : Move I m t th w th' fresh) : th.log <+: th'.log := by
  have htell (e : Event) : th.log <+: (th.tell e).log := ⟨[e], (th.log_tell e).symm⟩
  cases hm with
  | ownEnded h => rw [th.log_conclude]
  | ownCrash h => rw [th.log_conclude]
  | @ownAct a rest r m₁ h ha => exact ⟨a.told, (a.log_mark th).symm⟩
  | @runAct a rest r m₁ F next h ha => exact ⟨a.told, (a.log_mark th).symm⟩
  | peekHit => exact htell _
  | enterAgain => exact htell _
  | claimCycle => exact htell _
  | claimWait => exact htell _
  | _ => exact List.prefix_rfl

theorem Stepped.log_grows (h : Stepped I m t th m') (ht : m.threads[t]? = some th) :
    m.log t <+: m'.log t := by
  obtain ⟨th', ht', ⟨fresh, hm⟩ | ⟨r, F, next, -, -, rfl⟩⟩ := h.self ht
  · rw [log_eq ht, log_eq ht']
    exact hm.log_grows
  · rw [log_eq ht, log_eq ht']
    exact List.prefix_rfl

theorem Beside.log_grows (h : Beside m.threads[u]? m'.threads[u]?) : m.log u <+: m'.log u := by
  cases h with
  | same h => rw [log, log, h]
  | @woken a ho hn =>
    rw [log_eq ho, log_eq hn]
    obtain h | ⟨s, owner, F, next, -, h⟩ := a.wake_cases
    · rw [h]
    · rw [h]
      exact List.prefix_rfl
  | fresh ho =>
    rw [log, ho]
    exact ⟨_, List.nil_append _⟩

end Machine

namespace Run

variable {I : Implementation C} (σ : Run I) (t : ThreadId)

def told (n l : ℕ) : List Event := ((σ.state l).log t).drop ((σ.state n).log t).length

variable {σ t} {n k l : ℕ} {c : ContainerId} {R : Register} {L : Scope C}

theorem log_grows (hk : n ≤ k) : (σ.state n).log t <+: (σ.state k).log t := by
  induction hk with
  | refl => exact List.prefix_rfl
  | @step k _ ih =>
    apply ih.trans
    by_cases hm : σ.mover k = some t
    · obtain ⟨th, ht, hst⟩ := Machine.step_cases (σ.moves k t hm)
      exact hst.log_grows ht
    · exact (σ.beside t hm).log_grows

theorem log_told (hk : n ≤ k) : (σ.state n).log t ++ σ.told t n k = (σ.state k).log t := by
  obtain ⟨more, hmore⟩ := log_grows (σ := σ) (t := t) hk
  rw [told, ← hmore, List.drop_left]

@[simp] theorem told_self (n : ℕ) : σ.told t n n = [] := List.drop_length

theorem told_append (hk : n ≤ k) (hl : k ≤ l) :
    σ.told t n k ++ σ.told t k l = σ.told t n l := by
  have hlog : (σ.state n).log t ++ (σ.told t n k ++ σ.told t k l) =
      (σ.state n).log t ++ σ.told t n l := by
    rw [← List.append_assoc, log_told hk, log_told hl, log_told (Nat.le_trans hk hl)]
  exact List.append_cancel_left hlog

theorem told_rested (hm : σ.mover n = none) : σ.told t n (n + 1) = [] := by
  rw [told, σ.idles n hm]
  exact List.drop_length

theorem told_eq {more : List Event} (h : (σ.state l).log t = (σ.state n).log t ++ more) :
    σ.told t n l = more := by
  rw [told, h, List.drop_left]

theorem single (hone : (σ.state l).threads.length = 1) (hn : n ≤ l) :
    (σ.state n).threads.length = 1 := by
  obtain ⟨d, rfl⟩ := Nat.exists_eq_add_of_le hn
  induction d generalizing n with
  | zero => exact hone
  | succ d ih =>
    rw [← Nat.succ_add_eq_add_succ] at hone
    cases hm : σ.mover n with
    | none =>
      rw [← σ.idles n hm]
      exact ih hone (Nat.le_add_right _ _)
    | some u => exact (single_at hone (by omega) hm).2

theorem single_thread (hone : (σ.state l).threads.length = 1) (hn : n ≤ l) :
    ∃ th, (σ.state n).threads[0]? = some th := by
  obtain ⟨th, hth⟩ := List.length_eq_one_iff.1 (single hone hn)
  exact ⟨th, by rw [hth]; rfl⟩

/-- Up to moment `l` the run has one thread, whose code registers and removes services by the
functions of a container and registers into no container but this one, which has at first what the
register says. -/
structure Registers (σ : Run I) (c : ContainerId) (R : Register) (l : ℕ) : Prop where
  alone : (σ.state l).threads.length = 1
  bodies : I.Announces
  jobs {th p} (h : th ∈ (σ.state 0).threads) (hp : p ∈ th.todo) : p.Announces
  lists : (σ.state 0).world.Lists c R
  only {n a d name} (hn : n < l) (h : σ.Performs n 0 a) (ha : a.Places d name) :
    d = c ∧ c < (σ.state n).world.containers.length

inductive Describes (σ : Run I) (n k : ℕ) (name : String) :
    Option (Bool × TypeKey) → Except Failure (Option ServiceInfo) → Prop
  | missing : Describes σ n k name none (.ok none)
  | found {info : ServiceInfo} (h : info.name = name) :
      Describes σ n k name (some (info.shared, info.type)) (.ok (some info))
  | failed {x f} (h : ∃ type b, n ≤ b ∧ σ.Calls 0 (Program.run (.manifest type)) b (.error f) k) :
      Describes σ n k name (some x) (.error f)

namespace Registers

theorem keeps (h : σ.Registers c R l) (hn : n ≤ l) {th : Thread C}
    (ht : (σ.state n).threads[0]? = some th) :
    th.activity.Keeps c R (σ.state n).world (σ.told 0 0 n) ∧ ∀ p ∈ th.todo, p.Announces := by
  induction n generalizing th with
  | zero =>
    have hmem := List.mem_of_getElem? ht
    refine ⟨?_, fun p hp => h.jobs hmem hp⟩
    rw [(σ.fresh.threads hmem).2.1, told_self]
    exact ⟨h.lists, .start⟩
  | succ n ih =>
    cases hm : σ.mover n with
    | none =>
      rw [← told_append (Nat.zero_le n) (Nat.le_succ n), told_rested hm, List.append_nil,
        σ.idles n hm]
      rw [σ.idles n hm] at ht
      exact ih (Nat.le_of_succ_le hn) ht
    | some u =>
      obtain ⟨rfl, -⟩ := single_at h.alone (Nat.le_of_succ_le hn) hm
      obtain ⟨th₀, ht₀, hst⟩ := Machine.step_cases (σ.moves n 0 hm)
      obtain ⟨hkeeps, htodo⟩ := ih (Nat.le_of_succ_le hn) ht₀
      have hadd {more : List Event} (hlog : th.log = th₀.log ++ more) :
          σ.told 0 0 (n + 1) = σ.told 0 0 n ++ more := by
        rw [← told_append (Nat.zero_le n) (Nat.le_succ n)]
        congr 1
        apply told_eq
        rw [Machine.log_eq ht, Machine.log_eq ht₀, hlog]
      obtain ⟨th', ht', ⟨fresh, hmv⟩ | ⟨r, F, next, ha, hw, rfl⟩⟩ := hst.self ht₀
      · cases ht.symm.trans ht'
        obtain ⟨more, hlog, hkeeps', htodo'⟩ := hmv.keeps h.bodies (fun L a rest d name ha hp => by
          refine h.only hn ⟨hm, L, rest, ?_⟩ hp
          rw [Machine.activity_eq ht₀, ha]) htodo hkeeps
        rw [hadd hlog]
        exact ⟨hkeeps', htodo'⟩
      · cases ht.symm.trans ht'
        rw [ha] at hkeeps
        rw [hadd (List.append_nil _).symm, List.append_nil, hw]
        exact ⟨hkeeps, htodo⟩

theorem asTold (h : σ.Registers c R l) (hn : n ≤ l) (hb : ¬ ((σ.state n).activity 0).Between) :
    (σ.state n).world.AsTold c R (σ.told 0 0 n) := by
  obtain ⟨th, ht⟩ := single_thread h.alone hn
  rw [Machine.activity_eq ht] at hb
  exact (h.keeps hn ht).1.asTold hb

theorem asTold_of_runs {a : Action C} {rest : a.Reply → Program C L.Answer}
    (h : σ.Registers c R l) (hn : n ≤ l) (ha : (σ.state n).activity 0 = L.runs (.act a rest))
    (hp : ¬ a.Pending) : (σ.state n).world.AsTold c R (σ.told 0 0 n) := by
  apply h.asTold hn
  rw [ha]
  exact Activity.not_between hp

variable {α : Type} {rest : α → Program C L.Answer} {ds : List (Deed C)}

theorem first {a : Action C} {next : a.Reply → Program C α} {r : Except Failure α}
    (h : σ.Registers c R l) (hk : k ≤ l) (hp : ¬ a.Pending)
    (hc : σ.Completes 0 L rest (.act a next) n ds r k) :
    ∃ th reply m b ds', n ≤ b ∧ (σ.state n).perform I 0 th a = some (reply, m) ∧
      (σ.state n).world.AsTold c R (σ.told 0 0 n) ∧
      σ.Completes 0 L rest (next reply) b ds' r k := by
  obtain ⟨j, th, reply, m, ds', hreach, hperform, -, -, hrest⟩ := hc.acted
  have hj : j ≤ l := Nat.le_trans (Nat.le_of_succ_le hrest.le) hk
  rw [single_rests h.alone hreach.le hj hreach.rests] at hperform
  exact ⟨th, reply, m, j + 1, ds', Nat.le_succ_of_le hreach.le, hperform,
    h.asTold_of_runs (Nat.le_trans hc.le hk) hc.activity hp, hrest⟩

theorem names {rest : List String → Program C L.Answer} {r : Except Failure (List String)}
    (h : σ.Registers c R l) (hk : k ≤ l)
    (hc : σ.Completes 0 L rest (Container.names c) n ds r k) :
    r = .ok (World.sortNames (replay R (σ.told 0 0 n)).keys) := by
  obtain ⟨th, reply, m, b, ds', hb, hp, htold, hrest⟩ := h.first (a := .names c) hk id hc
  cases hp
  rw [(hrest.of_ended (.ok _)).1, htold.lists.names]

theorem has {rest : Bool → Program C L.Answer} {r : Except Failure Bool} {name : String}
    (h : σ.Registers c R l) (hk : k ≤ l)
    (hc : σ.Completes 0 L rest (Container.has c name) n ds r k) :
    r = .ok ((replay R (σ.told 0 0 n)).contains name) := by
  obtain ⟨th, reply, m, b, ds', hb, hp, htold, hrest⟩ := h.first (a := .lookup c name) hk id hc
  cases hp
  rw [(hrest.of_ended (.ok _)).1, Option.isSome_map, htold.lists.isSome_entry?]

theorem describe {rest : Option ServiceInfo → Program C L.Answer}
    {r : Except Failure (Option ServiceInfo)} {name : String} (h : σ.Registers c R l) (hk : k ≤ l)
    (hc : σ.Completes 0 L rest (Container.describe c name) n ds r k) :
    σ.Describes n k name ((replay R (σ.told 0 0 n)).get? name) r := by
  obtain ⟨th, reply, m, b, ds', hb, hp, htold, hrest⟩ := h.first (a := .lookup c name) hk id hc
  cases hp
  have hentry := htold.lists.entry name
  rw [← hentry]
  cases he : (σ.state n).world.entry? c name with
  | none =>
    rw [he] at hrest
    rw [(hrest.of_ended (.ok none)).1]
    exact .missing
  | some found =>
    obtain ⟨e, x⟩ := found
    rw [he] at hrest
    obtain ⟨r₁, i, ds₁, ds₂, hparameters, hensues, -⟩ :=
      Completes.of_bind (p := x.registration.logic.parameters) hrest
    cases hensues with
    | goes hcached =>
      obtain ⟨i, th, cached, m, ds', -, -, -, -, hdone⟩ := Completes.acted (a := .cached e) hcached
      rw [(hdone.of_ended (.ok _)).1]
      exact @Describes.found C I σ n k name ⟨name, _, _, _, _⟩ rfl
    | stops =>
      refine .failed ?_
      cases hlogic : x.registration.logic with
      | constructed provides type =>
        rw [hlogic] at hparameters
        exact ⟨type, b, hb, _, _, _, hparameters⟩
      | _ =>
        rw [hlogic] at hparameters
        cases (hparameters.of_ended (.ok _)).1

end Registers

end Run

end Wiring
