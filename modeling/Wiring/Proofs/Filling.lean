import Wiring.Proofs.Advance

namespace Wiring

variable {C : Client} {α : Type}

theorem World.of_mem_candidates {w : World C} {S : Stack} {c : ContainerId} {type : TypeKey}
    {name : String} (h : name ∈ w.candidates S c type) :
    ∃ e y, w.entry? c name = some (e, y) ∧ y.registration.provides = type := by
  have hkeys := (List.mem_filter.1 (List.mem_mergeSort.1 h)).1
  obtain ⟨e, hs, hp⟩ := Table.get?_of_mem_keysWhere hkeys
  obtain ⟨y, hy, htype⟩ := (Option.any_eq_true _ _).1 hp
  exact ⟨e, y, World.entry?_eq_some.2 ⟨hs, hy⟩, of_decide_eq_true htype⟩

namespace Rule

variable {c : ContainerId} {target : String} {position : ℕ} {x : Parameter} {rule : Rule}
  {s : String}

def service? (x : Parameter) : Rule → Option String
  | onlyOfType service => some service
  | narrowed => some x.name
  | named => some x.name
  | _ => none

def Settles (target : String) (position : ℕ) (x : Parameter) (r : Except Failure Instance) :
    Rule → Prop
  | override i => r = .ok i
  | ambiguous candidates => r = .error (.error (.ambiguousService target x.name candidates))
  | default i => r = .ok i
  | unresolvable => r = .error (.error (.unresolvableParameter target x.name position))
  | _ => True

theorem follow_of_service (h : rule.service? x = some s) :
    ∃ e, (rule.follow c target position x : Program C Instance) =
      .act (.emit e) fun _ => Container.get c s := by
  cases rule with
  | onlyOfType service => cases h; exact ⟨_, rfl⟩
  | narrowed => cases h; exact ⟨_, rfl⟩
  | named => cases h; exact ⟨_, rfl⟩
  | _ => cases h

theorem settles_of_service (h : rule.service? x = some s) (r : Except Failure Instance) :
    rule.Settles target position x r := by
  cases rule with
  | onlyOfType service => trivial
  | narrowed => trivial
  | named => trivial
  | _ => cases h

end Rule

namespace Parameter

variable {c : ContainerId} {target : String} {o : Overrides} {position : ℕ} {x : Parameter}
  {rule : Rule} {s : String} {type : TypeKey} {candidates : List String}

theorem accepts_of_type (h : x.type? = some type) : x.accepts type := by
  rw [accepts, h]
  exact decide_eq_true rfl

theorem mem_of_ofCandidates? (hr : x.ofCandidates? candidates = some rule)
    (hs : rule.service? x = some s) : s ∈ candidates := by
  match candidates with
  | [] => cases hr
  | [only] =>
    cases hr
    cases hs
    exact List.mem_cons_self
  | first :: second :: others =>
    simp only [ofCandidates?, Option.some.injEq] at hr
    split at hr
    · next hmem =>
      cases hr
      cases hs
      exact hmem
    · cases hr
      cases hs

theorem ofCandidates?_eq_none (h : x.ofCandidates? candidates = none) : candidates = [] := by
  match candidates with
  | [] => rfl
  | [_] => cases h
  | _ :: _ :: _ => cases h

theorem fallback_service {provided : Option TypeKey}
    (h : (x.fallback provided).service? x = some s) :
    s = x.name ∧ ∃ type, provided = some type ∧ x.accepts type := by
  unfold fallback at h
  split at h
  · next hany =>
    cases h
    exact ⟨rfl, (Option.any_eq_true _ _).1 hany⟩
  · split at h <;> cases h

def fillByName (c : ContainerId) (target : String) (position : ℕ) (x : Parameter) :
    Program C Instance :=
  .act (.lookup c x.name) fun (found : Option (EntryId × Registration C)) =>
    (x.fallback (found.map (·.2.provides))).follow c target position x

theorem fill_overridden {i : Instance} (h : o.lookup position x.name = some i) :
    (fill c target o position x : Program C Instance) =
      (Rule.override i).follow c target position x := by
  simp only [fill, Rule.choose, h]
  rfl

theorem fill_untyped (ho : o.lookup position x.name = none) (ht : x.type? = none) :
    (fill c target o position x : Program C Instance) = x.fillByName c target position := by
  simp only [fill, Rule.choose, ho, ht]
  rfl

theorem fill_typed (ho : o.lookup position x.name = none) (ht : x.type? = some type) :
    (fill c target o position x : Program C Instance) =
      .act (.candidates c type) fun (candidates : List String) =>
        match x.ofCandidates? candidates with
        | some rule => rule.follow c target position x
        | none => x.fillByName c target position := by
  simp only [fill, Rule.choose, ho, ht]
  refine congrArg (Program.act (.candidates c type)) (funext fun (candidates : List String) => ?_)
  change Program.bind (match x.ofCandidates? candidates with
    | some rule => _
    | none => _) _ = _
  cases x.ofCandidates? candidates <;> rfl

end Parameter

namespace Run

variable {I : Implementation C} (σ : Run I) (t : ThreadId) (c : ContainerId)

/-- By moment `b` thread `t` has chosen the rule for the parameter that it has been filling since
moment `n`: by an override, by the services of its type at that moment, or by the service of its
name at that moment if there was no service of its type before. -/
inductive Chooses (o : Overrides) (position : ℕ) (x : Parameter) (n : ℕ) : Rule → ℕ → Prop
  | override {i} (h : o.lookup position x.name = some i) : Chooses o position x n (.override i) n
  | scan {b type rule} (ho : o.lookup position x.name = none) (hb : n ≤ b)
      (ht : x.type? = some type) (hp : σ.Performs b t (.candidates c type))
      (hr : x.ofCandidates? ((σ.state b).world.candidates ((σ.state b).stack t) c type) =
        some rule) : Chooses o position x n rule b
  | name {b} (ho : o.lookup position x.name = none) (hb : n ≤ b)
      (hp : σ.Performs b t (.lookup c x.name))
      (hscan : ∀ type, x.type? = some type → ∃ a, n ≤ a ∧ a < b ∧
        σ.Performs a t (.candidates c type) ∧
        (σ.state a).world.candidates ((σ.state a).stack t) c type = []) :
      Chooses o position x n
        (x.fallback (((σ.state b).world.entry? c x.name).map (·.2.registration.provides))) b

structure Fetches (s : String) (r : Except Failure Instance) (f : ℕ) : Prop where
  moves : σ.mover f = some t
  finds : ∃ F next, (σ.state f).activity t = .resolving (.find c s ∅) F next
  missing (h : (σ.state f).world.entry? c s = none) : r = .error (.error (.serviceNotFound s))
  type {e y i} (h : (σ.state f).world.entry? c s = some (e, y)) (hr : r = .ok i) :
    i.type = y.registration.provides

variable {σ t c} {L : Scope C} {rest : α → Program C L.Answer} {p q : Program C α}
  {n j k m l b f : ℕ} {target s : String} {o : Overrides} {position : ℕ} {x : Parameter}
  {rule : Rule} {r : Except Failure Instance} {g : Goal}

theorem Proceeds.moves_on (h : σ.Proceeds t L rest p n q j) (hk : j ≤ k) :
    σ.Proceeds t L rest p n q k ∨
      ∃ m, j ≤ m ∧ m < k ∧ σ.Proceeds t L rest p n q m ∧ σ.mover m = some t := by
  induction hk with
  | refl => exact .inl h
  | @step k hk ih =>
    obtain hnow | ⟨m, hj, hm, hrest⟩ := ih
    · by_cases hm : σ.mover k = some t
      · exact .inr ⟨k, hk, Nat.lt_succ_self k, hnow, hm⟩
      · exact .inl (hnow.stays hm)
    · exact .inr ⟨m, hj, Nat.lt_succ_of_lt hm, hrest⟩

theorem Proceeds.acted {a : Action C} {next : a.Reply → Program C α}
    (h : σ.Proceeds t L rest p n (.act a next) j) (hk : j ≤ k) :
    σ.UnderWay t L rest p n k ∨ ∃ m th reply M, j ≤ m ∧ m < k ∧ σ.Performs m t a ∧
      (σ.state m).threads[t]? = some th ∧ (σ.state m).perform I t th a = some (reply, M) ∧
      σ.Proceeds t L rest p n (next reply) (m + 1) := by
  obtain hnow | ⟨m, hj, hmk, hq, hm⟩ := h.moves_on hk
  · exact .inl (.runs hnow)
  · obtain ⟨th, ht, hst⟩ := Machine.step_cases (σ.moves m t hm)
    obtain ⟨reply, M, hp, -, ha, -⟩ := hst.acts ht hq.activity
    exact .inr ⟨m, th, reply, M, hj, hmk, ⟨hm, L, _, hq.activity⟩, ht, hp, hq.acts hm ha⟩

theorem Proceeds.told {e : Event} (h : σ.Proceeds t L rest p n (.act (.emit e) fun _ => q) j)
    (hk : j ≤ k) :
    σ.UnderWay t L rest p n k ∨ ∃ m, j < m ∧ m ≤ k ∧ σ.Proceeds t L rest p n q m := by
  obtain hu | ⟨m, th, reply, M, hj, hmk, -, -, -, hq⟩ := h.acted hk
  · exact .inl hu
  · exact .inr ⟨m + 1, Nat.lt_succ_of_le hj, hmk, hq⟩

theorem Asks.goes_on {f : Except Error Instance → Program C L.Answer}
    (h : σ.Asks t L g f j m) (hk : m ≤ k) :
    σ.Asks t L g f j k ∨ ∃ r l, m ≤ l ∧ l < k ∧ σ.Requests t L g f j r l := by
  induction hk with
  | refl => exact .inl h
  | @step k hk ih =>
    obtain hnow | ⟨r, l, hl, hlk, hr⟩ := ih
    · obtain hnext | ⟨hm, r, hf, -⟩ := awaits_next (hnow.awaits k hnow.lt (Nat.le_refl k))
      · exact .inl (hnow.succ hnext)
      · exact .inr ⟨r, k, hk, Nat.lt_succ_self k, hnow, hf, hm⟩
    · exact .inr ⟨r, l, hl, Nat.lt_succ_of_lt hlk, hr⟩

section

variable {rest : Instance → Program C L.Answer} {p : Program C Instance}

theorem Proceeds.requested (h : σ.Proceeds t L rest p n (.request g) j) (hk : j ≤ k) :
    σ.UnderWay t L rest p n k ∨ ∃ r m l, j ≤ m ∧ l < k ∧
      σ.Requests t L g (fun a => (Program.ofExcept a).bind rest) m r l ∧
      σ.Ends t L rest p n r (l + 1) := by
  obtain hnow | ⟨m, hj, hmk, hq, hm⟩ := h.moves_on hk
  · exact .inl (.runs hnow)
  · obtain ⟨hne, -⟩ | ⟨-, hnext⟩ := runs_next hq.activity
    · exact absurd hm hne
    · obtain ha | ⟨r, l, -, hlk, hr⟩ := (hq.asks hm hnext).goes_on hmk
      · exact .inl (.awaits hq ha)
      · refine .inr ⟨r, m, l, hj, hlk, hr, ?_⟩
        obtain ((e | message) | i) := r
        · exact .itself (r := .error (.error e)) (hq.answered (a := .error e) hr)
        · exact .crash hq hr
        · exact .itself (r := .ok i) (hq.answered (a := .ok i) hr)

theorem Requests.type {next : Except Error Instance → Program C L.Answer} {i : Instance}
    {e : EntryId} {y : Entry C} (h : σ.Requests t L (.service c s ∅) next m (.ok i) l)
    (hf : m < f) (hl : f < l) (hm : σ.mover f = some t)
    (ha : (σ.state f).activity t = .resolving (.find c s ∅) (L.callers next) (L.onward next))
    (he : (σ.state f).world.entry? c s = some (e, y)) : i.type = y.registration.provides := by
  obtain ⟨e', y', he', hfrom⟩ := h.found_at hf hl hm ha
  cases he.symm.trans he'
  obtain ⟨-, hc⟩ | ⟨-, F, next', b, j, -, -, hown⟩ := hfrom
  · obtain ⟨z, hz, hi⟩ := Option.bind_eq_some_iff.1 hc
    obtain ⟨z', hz', hreg⟩ := registration_lasts (World.entry?_eq_some.1 he).2 (Nat.le_of_lt hl)
    cases hz.symm.trans hz'
    obtain ⟨-, k, -, hmade⟩ := σ.cached_makes hz hi
    exact hreg ▸ hmade.type
  · exact hown.ensures (build_ensures _ _ _ _)

theorem Proceeds.fetched (h : σ.Proceeds t L rest p n (Container.get c s) j) (hk : j ≤ k) :
    σ.UnderWay t L rest p n k ∨ ∃ r l f, j < f ∧ f < l ∧ l ≤ k ∧ σ.Ends t L rest p n r l ∧
      σ.Fetches t c s r f := by
  obtain hu | ⟨r, m, l, hj, hlk, hr, he⟩ := h.requested hk
  · exact .inl hu
  · obtain ⟨f, hmf, hfl, hm, ha⟩ := hr.finds
    refine .inr ⟨r, l + 1, f, Nat.lt_of_le_of_lt hj hmf, Nat.lt_succ_of_lt hfl, hlk, he, hm,
      ⟨_, _, ha⟩, fun hnone => hr.missed hmf hfl hm ha hnone, ?_⟩
    rintro e y i hentry rfl
    exact hr.type hmf hfl hm ha hentry

theorem Proceeds.settled (h : σ.Proceeds t L rest p n (rule.follow c target position x) j)
    (hk : j ≤ k) (hs : rule.service? x = none) :
    σ.UnderWay t L rest p n k ∨ ∃ r l, j ≤ l ∧ l ≤ k ∧ σ.Ends t L rest p n r l ∧
      rule.Settles target position x r := by
  cases rule with
  | override i =>
    refine (h.told hk).imp_right fun ⟨m, hj, hmk, hq⟩ => ?_
    exact ⟨.ok i, m, Nat.le_of_lt hj, hmk, .itself hq, rfl⟩
  | ambiguous candidates =>
    refine (h.told hk).imp_right fun ⟨m, hj, hmk, hq⟩ => ?_
    exact ⟨.error (.error _), m, Nat.le_of_lt hj, hmk, .itself hq, rfl⟩
  | autowired type =>
    obtain hu | ⟨m, hj, hmk, hq⟩ := h.told hk
    · exact .inl hu
    · refine (hq.requested hmk).imp_right fun ⟨r, m', l, hm', hlk, hr, he⟩ => ?_
      have hl := hr.lt
      exact ⟨r, l + 1, by omega, hlk, he, trivial⟩
  | default i =>
    refine (h.told hk).imp_right fun ⟨m, hj, hmk, hq⟩ => ?_
    exact ⟨.ok i, m, Nat.le_of_lt hj, hmk, .itself hq, rfl⟩
  | unresolvable => exact .inr ⟨.error (.error _), j, Nat.le_refl j, hk, .itself h, rfl⟩
  | _ => cases hs

theorem Proceeds.followed (h : σ.Proceeds t L rest p n (rule.follow c target position x) j)
    (hk : j ≤ k) :
    σ.UnderWay t L rest p n k ∨ ∃ r l, j ≤ l ∧ l ≤ k ∧ σ.Ends t L rest p n r l ∧
      rule.Settles target position x r ∧
      ∀ s, rule.service? x = some s → ∃ f, j < f ∧ f < l ∧ σ.Fetches t c s r f := by
  cases hs : rule.service? x with
  | none =>
    refine (h.settled hk hs).imp_right fun ⟨r, l, hj, hlk, he, hsettles⟩ => ?_
    exact ⟨r, l, hj, hlk, he, hsettles, nofun⟩
  | some s =>
    obtain ⟨e, hfollow⟩ := Rule.follow_of_service (C := C) hs
    rw [hfollow] at h
    obtain hu | ⟨m, hj, hmk, hq⟩ := h.told hk
    · exact .inl hu
    · refine (hq.fetched hmk).imp_right fun ⟨r, l, f, hmf, hfl, hlk, he, hfetch⟩ => ?_
      refine ⟨r, l, by omega, hlk, he, Rule.settles_of_service hs r, ?_⟩
      rintro s ⟨⟩
      exact ⟨f, Nat.lt_trans hj hmf, hfl, hfetch⟩

theorem Proceeds.chooses_by_name (h : σ.Proceeds t L rest p n (x.fillByName c target position) j)
    (hk : j ≤ k) (ho : o.lookup position x.name = none) (hn : n ≤ j)
    (hscan : ∀ type, x.type? = some type → ∃ a, n ≤ a ∧ a < j ∧
      σ.Performs a t (.candidates c type) ∧
      (σ.state a).world.candidates ((σ.state a).stack t) c type = []) :
    σ.UnderWay t L rest p n k ∨ ∃ m rule b, b ≤ m ∧ m ≤ k ∧ σ.Chooses t c o position x n rule b ∧
      σ.Proceeds t L rest p n (rule.follow c target position x) m := by
  obtain hu | ⟨m, th, reply, M, hj, hmk, hp, -, hperform, hq⟩ := h.acted hk
  · exact .inl hu
  · cases hperform
    rw [Option.map_map] at hq
    refine .inr ⟨m + 1, _, m, Nat.le_succ m, hmk, .name ho (Nat.le_trans hn hj) hp ?_, hq⟩
    intro type ht
    obtain ⟨a, hna, haj, hscans, hempty⟩ := hscan type ht
    exact ⟨a, hna, Nat.lt_of_lt_of_le haj hj, hscans, hempty⟩

theorem Proceeds.chooses (h : σ.Proceeds t L rest p n (fill c target o position x) n)
    (hk : n ≤ k) :
    σ.UnderWay t L rest p n k ∨ ∃ m rule b, b ≤ m ∧ m ≤ k ∧ σ.Chooses t c o position x n rule b ∧
      σ.Proceeds t L rest p n (rule.follow c target position x) m := by
  cases ho : o.lookup position x.name with
  | some i =>
    rw [Parameter.fill_overridden ho] at h
    exact .inr ⟨n, _, n, Nat.le_refl n, hk, .override ho, h⟩
  | none =>
    cases ht : x.type? with
    | none =>
      rw [Parameter.fill_untyped ho ht] at h
      exact h.chooses_by_name hk ho (Nat.le_refl n) fun type ht' => nomatch ht.symm.trans ht'
    | some type =>
      rw [Parameter.fill_typed ho ht] at h
      obtain hu | ⟨a, th, reply, M, hna, hak, hp, hth, hperform, hq⟩ := h.acted hk
      · exact .inl hu
      · cases hperform
        have hstack : (σ.state a).stack t = th.stack := by rw [Machine.stack, hth]; rfl
        cases hr : x.ofCandidates? ((σ.state a).world.candidates th.stack c type) with
        | some rule =>
          simp only [hr] at hq
          rw [← hstack] at hr
          exact .inr ⟨a + 1, rule, a, Nat.le_succ a, hak, .scan ho hna ht hp hr, hq⟩
        | none =>
          simp only [hr] at hq
          refine hq.chooses_by_name hak ho (Nat.le_succ_of_le hna) fun type' ht' => ?_
          cases ht.symm.trans ht'
          refine ⟨a, hna, Nat.lt_succ_self a, hp, ?_⟩
          rw [hstack]
          exact Parameter.ofCandidates?_eq_none hr

theorem Chooses.accepted (h : σ.Chooses t c o position x n rule b)
    (hs : rule.service? x = some s) :
    ∃ e y, (σ.state b).world.entry? c s = some (e, y) ∧ x.accepts y.registration.provides := by
  cases h with
  | override h => cases hs
  | scan ho hb ht hp hr =>
    obtain ⟨e, y, he, htype⟩ := World.of_mem_candidates (Parameter.mem_of_ofCandidates? hr hs)
    exact ⟨e, y, he, htype ▸ Parameter.accepts_of_type ht⟩
  | name ho hb hp hscan =>
    obtain ⟨rfl, type, htype, ha⟩ := Parameter.fallback_service hs
    obtain ⟨⟨e, y⟩, he, rfl⟩ := Option.map_eq_some_iff.1 htype
    exact ⟨e, y, he, ha⟩

theorem Chooses.still (h : σ.Chooses t c o position x n rule b) (hs : rule.service? x = some s) :
    (σ.state (b + 1)).world = (σ.state b).world := by
  cases h with
  | override h => cases hs
  | scan ho hb ht hp hr =>
    obtain ⟨th, reply, m, hperform, hw⟩ := hp.world
    cases hperform
    exact hw
  | name ho hb hp hscan =>
    obtain ⟨th, reply, m, hperform, hw⟩ := hp.world
    cases hperform
    exact hw

theorem service_since (hb : b ≤ f)
    (h : ∀ j u a, b ≤ j → j < f → σ.Performs j u a → ¬ a.Places c s) :
    ((σ.state f).world.services c).get? s = ((σ.state b).world.services c).get? s := by
  induction hb with
  | refl => rfl
  | @step f hb ih =>
    rw [service_next fun u a => h f u a hb (Nat.lt_succ_self f)]
    exact ih fun j u a hbj hj => h j u a hbj (Nat.lt_succ_of_lt hj)

theorem Chooses.kept (h : σ.Chooses t c o position x n rule b) (hs : rule.service? x = some s)
    (hf : b < f) (hno : ∀ j u a, b < j → j < f → σ.Performs j u a → ¬ a.Places c s) :
    ∃ e y z, (σ.state b).world.entry? c s = some (e, y) ∧
      (σ.state f).world.entry? c s = some (e, z) ∧ z.registration = y.registration ∧
      x.accepts y.registration.provides := by
  obtain ⟨e, y, he, ha⟩ := h.accepted hs
  obtain ⟨hget, hy⟩ := World.entry?_eq_some.1 he
  obtain ⟨z, hz, hreg⟩ := registration_lasts hy (Nat.le_of_lt hf)
  have hsame : ((σ.state f).world.services c).get? s = some e := by
    rw [service_since hf fun j u a hj hjf => hno j u a hj hjf, h.still hs]
    exact hget
  exact ⟨e, y, z, he, World.entry?_eq_some.2 ⟨hsame, hz⟩, hreg, ha⟩

end

/-- While a thread fills a parameter, other threads may register and remove services as they like.
The filling is under way, or has ended by the rule that was chosen for it at some moment. If the
rule names a service, the service is fetched at a later moment. If there is none of that name then,
the filling fails for this reason and tries no other rule; a value that it ends with has the type
that is declared by what is registered then. If the name was neither registered nor removed in
between, the fetch finds what was chosen, and a value has the type that the parameter declares. -/
theorem parameter_filled (σ : Run I) (t : ThreadId) (L : Scope C)
    (rest : Instance → Program C L.Answer) (c : ContainerId) (target : String) (o : Overrides)
    (position : ℕ) (x : Parameter) (n k : ℕ)
    (ha : (σ.state n).activity t = L.runs ((fill c target o position x).bind rest)) (hk : n ≤ k) :
    σ.UnderWay t L rest (fill c target o position x) n k ∨
      ∃ r l rule b, b ≤ l ∧ l ≤ k ∧ σ.Ends t L rest (fill c target o position x) n r l ∧
        σ.Chooses t c o position x n rule b ∧ rule.Settles target position x r ∧
        ∀ s, rule.service? x = some s → ∃ f, b < f ∧ f < l ∧ σ.Fetches t c s r f ∧
          ((∀ j u a, b < j → j < f → σ.Performs j u a → ¬ a.Places c s) →
            ∃ e y z, (σ.state b).world.entry? c s = some (e, y) ∧
              (σ.state f).world.entry? c s = some (e, z) ∧ z.registration = y.registration ∧
              ∀ i, r = .ok i → x.accepts i.type) := by
  have hbegun : σ.Proceeds t L rest (fill c target o position x) n (fill c target o position x) n :=
    .begins ha
  obtain hu | ⟨m, rule, b, hbm, hmk, hchosen, hfollow⟩ := hbegun.chooses hk
  · exact .inl hu
  · refine (hfollow.followed hmk).imp_right fun ⟨r, l, hml, hlk, he, hsettles, hfetch⟩ => ?_
    refine ⟨r, l, rule, b, Nat.le_trans hbm hml, hlk, he, hchosen, hsettles, fun s hs => ?_⟩
    obtain ⟨f, hmf, hfl, hfetches⟩ := hfetch s hs
    have hbf : b < f := Nat.lt_of_le_of_lt hbm hmf
    refine ⟨f, hbf, hfl, hfetches, fun hno => ?_⟩
    obtain ⟨e, y, z, hy, hz, hreg, haccepts⟩ := hchosen.kept hs hbf hno
    refine ⟨e, y, z, hy, hz, hreg, fun i hr => ?_⟩
    rw [hfetches.type hz hr, hreg]
    exact haccepts

end Run

def Client.reporting : Client := ⟨Unit, Unit, Option Instance⟩

def Implementation.reporting : Implementation Client.reporting where
  make _ _ _ := .done (.text "")
  give _ _ _ := .crash "nothing to give"
  manifest _ := .done []
  construct _ _ := .done (.text "")
  job _ := .done none

def Parameter.wanted (default : Instance) : Parameter := ⟨"a", .typed (.of "A"), some default⟩

def Run.filling (meanwhile : Program Client.reporting (Option Instance)) :
    Run Implementation.reporting :=
  along ⟨.ofServices () [("a", ⟨true, .made (.of "A") [] ()⟩)],
      [{ todo := [(allocate (.of "A") (.text "")).bind fun default =>
          (fill 0 "t" ∅ 0 (.wanted default)).bind fun i => .done (some i)] },
        { todo := [meanwhile] }]⟩
    { world := World.ofServices_unbuilt _ _
      threads := fun h => by
        obtain rfl | rfl := List.mem_pair.1 h
        · exact ⟨rfl, rfl, rfl⟩
        · exact ⟨rfl, rfl, rfl⟩ }
    fun n => if n < 3 then 0 else if n < 6 then 1 else 0

def Container.withdrawal : Program Client.reporting (Option Instance) :=
  (Container.remove 0 "a").bind fun _ => .done none

def Container.replacement : Program Client.reporting (Option Instance) :=
  (Container.register 0 "a" ⟨true, .made (.of "B") [] ()⟩).bind fun _ => .done none

namespace Run

/-- The only service of the parameter's type is chosen. If it is removed before it is fetched, the
filling fails in spite of the default; if a service of another type takes its place, the parameter
is filled by an instance of that type. -/
theorem chosen_before_fetched :
    ((filling Container.withdrawal).state 2).world.candidates [] 0 (.of "A") = ["a"] ∧
      ((filling Container.withdrawal).state 20).threads[0]?.any (·.records.any
        (·.outcome matches .error (.error (.serviceNotFound "a")))) ∧
      ((filling Container.replacement).state 2).world.candidates [] 0 (.of "A") = ["a"] ∧
      ((filling Container.replacement).state 40).threads[0]?.any (·.records.any
        (·.outcome matches .ok (some ⟨.of "B", _⟩))) := by
  decide +kernel

theorem parameter_filled_withdrawn :
    ∃ r l rule b, b ≤ l ∧ l ≤ 20 ∧
      (filling Container.withdrawal).Ends 0 .own (fun i => .done (some i))
        (fill 0 "t" ∅ 0 (.wanted ⟨.of "A", 0⟩)) 2 r l ∧
      (filling Container.withdrawal).Chooses 0 0 ∅ 0 (.wanted ⟨.of "A", 0⟩) 2 rule b ∧
      ∀ s, rule.service? (.wanted ⟨.of "A", 0⟩) = some s →
        ∃ f, b < f ∧ f < l ∧ (filling Container.withdrawal).Fetches 0 0 s r f := by
  obtain hu | ⟨r, l, rule, b, hbl, hlk, he, hchosen, -, hfetch⟩ :=
    parameter_filled (filling Container.withdrawal) 0 .own (fun i => .done (some i)) 0 "t" ∅ 0
      (.wanted ⟨.of "A", 0⟩) 2 20 rfl (by decide)
  · have hidle : ((filling Container.withdrawal).state 20).hasEnded 0 := by decide +kernel
    exact absurd (Machine.activity_of_hasEnded hidle) hu.activity_ne_idle
  · refine ⟨r, l, rule, b, hbl, hlk, he, hchosen, fun s hs => ?_⟩
    obtain ⟨f, hbf, hfl, hfetches, -⟩ := hfetch s hs
    exact ⟨f, hbf, hfl, hfetches⟩

end Run

end Wiring
