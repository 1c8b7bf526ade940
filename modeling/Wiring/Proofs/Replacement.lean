import Mathlib.Tactic.IntervalCases
import Wiring.Proofs.Caching

namespace Wiring

variable {C : Client} {α : Type}

namespace World

theorem get?_erase (w : World C) (c d : ContainerId) (name other : String) :
    ((w.erase c name).services d).get? other =
      if (c, name) = (d, other) then none else (w.services d).get? other := by
  simp only [erase, services_setServices]
  by_cases hc : c = d ∧ c < w.containers.length
  · obtain ⟨rfl, hl⟩ := hc
    rw [if_pos ⟨rfl, hl⟩, Table.get?_erase]
    by_cases hn : name = other
    · simp [hn]
    · simp [hn]
  · rw [if_neg hc]
    by_cases he : (c, name) = (d, other)
    · obtain ⟨rfl, rfl⟩ := Prod.mk.inj he
      have hout : w.containers.length ≤ c := Nat.le_of_not_lt fun hl => hc ⟨rfl, hl⟩
      simp [services, List.getD_eq_getElem?_getD, List.getElem?_eq_none hout]
    · rw [if_neg he]

end World

def Action.Places (c : ContainerId) (name : String) (a : Action C) : Prop :=
  (∃ r, a = .insert c name r) ∨ a = .erase c name

def Container.miss (c : ContainerId) (name : String) (o : Overrides) : List (Control C) :=
  [.find c name o, .finish (.error (.error (.serviceNotFound name)))]

theorem Container.miss_prompt (c : ContainerId) (name : String) (o : Overrides) :
    ∀ K ∈ (miss c name o : List (Control C)), K.Prompt := by
  simp [miss, Control.Prompt]

namespace Machine

variable {I : Implementation C} {m m' : Machine C} {t u : ThreadId} {th th' : Thread C}
  {w : World C} {fresh : List (Thread C)} {s : Site C} {F : List (Frame C)} {c : ContainerId}
  {name : String} {o : Overrides} {e : EntryId} {a : Action C}
  {next : Except Error Instance → Program C C.Report} {L : Scope C}
  {rest : Except Error Instance → Program C L.Answer} {d : ℕ}

theorem perform_service {r : a.Reply} (h : m.perform I t th a = some (r, m'))
    (ha : ¬ a.Places c name) :
    (m'.world.services c).get? name = (m.world.services c).get? name := by
  have hnew : ∀ w : World C, w.containers = m.world.containers ++ [∅] →
      (w.services c).get? name = (m.world.services c).get? name := by
    intro w hw
    simp only [World.services, hw, List.getD_eq_getElem?_getD, List.getElem?_append]
    split
    · rfl
    · next hc =>
      rw [List.getElem?_eq_none (Nat.le_of_not_lt hc)]
      cases hi : ([∅] : List (Table String EntryId))[c - m.world.containers.length]? with
      | none => rfl
      | some T => grind [Table.get?_empty]
  cases a with
  | insert d other reg =>
    cases h
    refine (World.get?_insert _ _ _ _ _ _).trans (if_neg ?_)
    rintro ⟨he, -⟩
    obtain ⟨rfl, rfl⟩ := Prod.mk.inj he
    exact ha (.inl ⟨_, rfl⟩)
  | erase d other =>
    cases h
    refine (World.get?_erase _ _ _ _ _).trans (if_neg ?_)
    intro he
    obtain ⟨rfl, rfl⟩ := Prod.mk.inj he
    exact ha (.inr rfl)
  | newContainer => cases h; exact hnew _ rfl
  | settleDefault =>
    simp only [perform] at h
    split at h
    · cases h; rfl
    · cases h; exact hnew _ rfl
  | await ready => simp only [perform] at h; split at h <;> cases h; rfl
  | awaitWaiters service count => simp only [perform] at h; split at h <;> cases h; rfl
  | join threads => simp only [perform] at h; split at h <;> cases h; rfl
  | _ => cases h; rfl

theorem Move.acts {rest : a.Reply → Program C L.Answer} (hm : Move I m t th w th' fresh)
    (h : th.activity = L.runs (.act a rest)) :
    ∃ r m₁, m.perform I t th a = some (r, m₁) ∧ w = m₁.world ∧
      th'.activity = L.runs (rest r) ∧ fresh = a.brings I := by
  cases L with
  | own =>
    cases hm with
    | ownAct h' ha => cases h.symm.trans h'; exact ⟨_, _, ha, rfl, rfl, rfl⟩
    | @ownEnded r h' => obtain ((e | s) | i) := r <;> cases h.symm.trans h'
    | _ => cases h.symm.trans ‹th.activity = _›
  | inside F next =>
    cases hm with
    | runAct h' ha => cases h.symm.trans h'; exact ⟨_, _, ha, rfl, rfl, rfl⟩
    | @runEnded r F next h' => obtain ((e | s) | i) := r <;> cases h.symm.trans h'
    | _ => cases h.symm.trans ‹th.activity = _›

theorem Move.service (hm : Move I m t th w th' fresh)
    (h : ∀ (L : Scope C) a rest, th.activity = L.runs (.act a rest) → ¬ a.Places c name) :
    (w.services c).get? name = (m.world.services c).get? name := by
  cases hm with
  | ownAct h' ha => exact perform_service ha (h .own _ _ h')
  | @runAct a rest r m₁ F next h' ha => exact perform_service ha (h (.inside F next) _ _ h')
  | _ => rfl

theorem Move.entry (hm : Move I m t th w th' fresh) {x : Entry C}
    (h : ∀ i s F next, th.activity = .resolving (.finish (.ok i)) (.keeps s :: F) next →
      s.entry ≠ e) (hx : m.world.entries[e]? = some x) : w.entries[e]? = some x := by
  have hprefix : m.world.entries <+: w.entries → w.entries[e]? = some x := by
    rintro ⟨rest, hr⟩
    rw [← hr, List.getElem?_append_left (List.getElem?_eq_some_iff.1 hx).1, hx]
  cases hm with
  | ownAct h' ha => exact hprefix (perform_edit ha).entries
  | runAct h' ha => exact hprefix (perform_edit ha).entries
  | keepFirst h' hi =>
    simp only [World.setCache, List.getElem?_modify, hx, if_neg (h _ _ _ _ h')]
    rfl
  | _ => exact hx

theorem Move.find_cases (hm : Move I m t th w th' fresh)
    (h : th.activity = .resolving (.find c name o) F next) :
    (m.world.entry? c name = none ∧
        th'.activity = .resolving (.finish (.error (.error (.serviceNotFound name)))) F next) ∨
      ∃ e x, m.world.entry? c name = some (e, x) ∧
        (((x.registration.shared && o.isEmpty) = true ∧
            th'.activity = .resolving (.peek ⟨c, name, e, x.registration⟩) F next) ∨
          (x.registration.shared && o.isEmpty) = false ∧
            th'.activity =
              .resolving (.enter c (.service name) (.run (build c name x.registration o))) F
                next) := by
  cases hm with
  | findMissing h' he => cases h.symm.trans h'; exact .inl ⟨he, rfl⟩
  | findShared h' he hs => cases h.symm.trans h'; exact .inr ⟨_, _, he, .inl ⟨hs, rfl⟩⟩
  | findOther h' he hs => cases h.symm.trans h'; exact .inr ⟨_, _, he, .inr ⟨hs, rfl⟩⟩
  | _ => cases h.symm.trans ‹th.activity = _›

theorem Move.enter_cases {x : Target} {inside : Control C} (hm : Move I m t th w th' fresh)
    (h : th.activity = .resolving (.enter c x inside) F next) :
    (∃ f, th'.activity = .resolving (.finish (.error f)) F next) ∨
      th'.activity = .resolving inside (.inside c x :: F) next := by
  cases hm with
  | enterAgain h' hc => cases h.symm.trans h'; exact .inl ⟨_, rfl⟩
  | enterNew h' hc => cases h.symm.trans h'; exact .inr rfl
  | _ => cases h.symm.trans ‹th.activity = _›

theorem Move.leaves_target {r : Except Failure Instance} {x : Target}
    (hm : Move I m t th w th' fresh)
    (h : th.activity = .resolving (.finish r) (.inside c x :: F) next) :
    th'.activity = .resolving (.finish r) F next := by
  cases hm with
  | leave h' => cases h.symm.trans h'; rfl
  | _ => cases h.symm.trans ‹th.activity = _›

theorem Move.miss (hm : Move I m t th w th' fresh)
    (h : th.activity = L.stages rest (.service c name o) (Container.miss c name o)
      (.error (.serviceNotFound name)) d)
    (hd : d < 3) (hn : m.world.entry? c name = none) :
    th'.activity = L.stages rest (.service c name o) (Container.miss c name o)
      (.error (.serviceNotFound name)) (d + 1) := by
  match d, hd with
  | 0, _ => exact hm.runs_next h
  | 1, _ =>
    obtain ⟨-, ha⟩ | ⟨e, x, he, -⟩ := hm.find_cases h
    · exact ha
    · cases hn.symm.trans he
  | 2, _ => exact hm.finish_next h

end Machine

namespace Run

variable {I : Implementation C} (σ : Run I) {n k l b : ℕ} {t u : ThreadId} {c : ContainerId}
  {name : String} {e : EntryId} {x : Entry C} {i : Instance} {r : Registration C} {o : Overrides}
  {K : Control C} {F G : List (Frame C)} {g : Goal}
  {next : Except Error Instance → Program C C.Report} {L : Scope C}

def Performs (n : ℕ) (u : ThreadId) (a : Action C) : Prop :=
  σ.mover n = some u ∧ ∃ (L : Scope C) (rest : a.Reply → Program C L.Answer),
    (σ.state n).activity u = L.runs (.act a rest)

variable {σ}

theorem not_notify_of_runs {p : Program C L.Answer} (h : (σ.state n).activity t = L.runs p)
    (r : Except Failure Instance) (F : List (Frame C))
    (next : Except Error Instance → Program C C.Report) :
    (σ.state n).activity t ≠ .resolving (.notify r) F next := by
  rw [h]
  cases L <;> exact nofun

theorem Performs.world {a : Action C} (h : σ.Performs n u a) :
    ∃ (th : Thread C) (reply : a.Reply) (m : Machine C),
      (σ.state n).perform I u th a = some (reply, m) ∧ (σ.state (n + 1)).world = m.world := by
  obtain ⟨hm, L, rest, ha⟩ := h
  obtain ⟨th, th', fresh, hth, hmv, -⟩ := σ.move u hm (not_notify_of_runs ha)
  obtain ⟨reply, m, hp, hw, -⟩ := hmv.acts (hth.trans ha)
  exact ⟨th, reply, m, hp, hw⟩

theorem Performs.inserted (h : σ.Performs n u (.insert c name r)) :
    (σ.state (n + 1)).world = (σ.state n).world.insert c name r := by
  obtain ⟨th, reply, m, hp, hw⟩ := h.world
  cases hp
  exact hw

theorem Performs.erased (h : σ.Performs n u (.erase c name)) :
    (σ.state (n + 1)).world = (σ.state n).world.erase c name := by
  obtain ⟨th, reply, m, hp, hw⟩ := h.world
  cases hp
  exact hw

theorem service_next (h : ∀ u a, σ.Performs n u a → ¬ a.Places c name) :
    ((σ.state (n + 1)).world.services c).get? name =
      ((σ.state n).world.services c).get? name := by
  cases hm : σ.mover n with
  | none => rw [σ.idles n hm]
  | some u =>
    obtain ⟨th, ht, hst⟩ := Machine.step_cases (σ.moves n u hm)
    obtain ⟨th', fresh, hmv, -⟩ | ⟨r, F, next, -, -, hw⟩ := hst.activity ht
    · refine hmv.service fun L a rest ha => h u a ⟨hm, L, rest, ?_⟩
      exact (Machine.activity_eq ht).trans ha
    · rw [hw]

theorem entry_next (h : ∀ u a, σ.Performs n u a → ¬ a.Places c name)
    (hb : ∀ t i s F next, σ.mover n = some t →
      (σ.state n).activity t = .resolving (.finish (.ok i)) (.keeps s :: F) next → s.entry ≠ e)
    (he : (σ.state n).world.entry? c name = some (e, x)) :
    (σ.state (n + 1)).world.entry? c name = some (e, x) := by
  obtain ⟨hs, hx⟩ := World.entry?_eq_some.1 he
  refine World.entry?_eq_some.2 ⟨(service_next h).trans hs, ?_⟩
  cases hm : σ.mover n with
  | none => rw [σ.idles n hm]; exact hx
  | some u =>
    obtain ⟨th, ht, hst⟩ := Machine.step_cases (σ.moves n u hm)
    obtain ⟨th', fresh, hmv, -⟩ | ⟨r, F, next, -, -, hw⟩ := hst.activity ht
    · exact hmv.entry (fun i s F next ha => hb u i s F next hm ((Machine.activity_eq ht).trans ha))
        hx
    · rw [hw]
      exact hx

theorem entry_eq_none (h : ((σ.state n).world.services c).get? name = none) :
    (σ.state n).world.entry? c name = none := by
  cases he : (σ.state n).world.entry? c name with
  | none => rfl
  | some p => cases h.symm.trans (World.entry?_eq_some.1 he).1

theorem Performs.gone (h : σ.Performs n u (.erase c name)) (hk : n < k)
    (hno : ∀ l, n < l → l < k → ∀ v r, ¬ σ.Performs l v (.insert c name r)) :
    ((σ.state k).world.services c).get? name = none := by
  have hnone : ∀ l v, σ.Performs l v (.erase c name) →
      ((σ.state (l + 1)).world.services c).get? name = none := by
    intro l v h
    rw [h.erased, World.get?_erase, if_pos rfl]
  induction hk with
  | refl => exact hnone n u h
  | @step l hl ih =>
    have hold := ih fun j hn hj => hno j hn (by omega)
    by_cases herase : ∃ v, σ.Performs l v (.erase c name)
    · obtain ⟨v, hv⟩ := herase
      exact hnone l v hv
    · refine (service_next fun v a hv ha => ?_).trans hold
      obtain ⟨r, rfl⟩ | rfl := ha
      · exact hno l hl (Nat.lt_succ_self l) v r hv
      · exact herase ⟨v, hv⟩

theorem Performs.newer (h : σ.Performs n u (.insert c name r)) (hk : n < k)
    (hs : ((σ.state k).world.services c).get? name = some e) :
    (σ.state n).world.entries.length ≤ e := by
  have hsize : (σ.state n).world.entries.length ≤ (σ.state k).world.entries.length ∧
      ∀ e, ((σ.state k).world.services c).get? name = some e →
        (σ.state n).world.entries.length ≤ e := by
    clear hs
    induction hk with
    | refl =>
      rw [h.inserted]
      constructor
      · simp [World.insert, World.setServices]
      · intro e he
        rw [World.get?_insert] at he
        split at he
        · exact Nat.le_of_eq (Option.some.inj he)
        · next hc =>
          have hout : (σ.state n).world.containers.length ≤ c := by
            by_contra hlt
            exact hc ⟨rfl, Nat.lt_of_not_le hlt⟩
          rw [World.services, List.getD_eq_getElem?_getD, List.getElem?_eq_none hout] at he
          cases he
    | @step l hl ih =>
      cases hm : σ.mover l with
      | none => rw [σ.idles l hm]; exact ih
      | some v =>
        obtain ⟨th, ht, hst⟩ := Machine.step_cases (σ.moves l v hm)
        have hd := hst.develops ht
        obtain ⟨place, hplace⟩ := hd.services
        refine ⟨Nat.le_trans ih.1 hd.size, fun e he => ?_⟩
        obtain he | ⟨rfl, -, -⟩ := hplace c name e he
        · exact ih.2 e he
        · exact ih.1
  exact hsize.2 e hs

theorem moves_on {A : Activity C} (ha : (σ.state n).activity t = A)
    (hA : ∀ s owner F next, A ≠ .resolving (.asleep s owner) F next) (hk : n ≤ k) :
    (σ.state k).activity t = A ∨
      ∃ m, n ≤ m ∧ m < k ∧ (σ.state m).activity t = A ∧ σ.mover m = some t := by
  induction hk with
  | refl => exact .inl ha
  | @step k hk ih =>
    obtain hnow | ⟨m, hn, hm, hrest⟩ := ih
    · by_cases hm : σ.mover k = some t
      · exact .inr ⟨k, hk, Nat.lt_succ_self k, hnow, hm⟩
      · obtain hb | ⟨s, owner, F, next, ho, -⟩ := (σ.beside t hm).activity
        · exact .inl (hb.trans hnow)
        · exact absurd (hnow.symm.trans ho) (hA _ _ _ _)
    · exact .inr ⟨m, hn, Nat.lt_succ_of_lt hm, hrest⟩

theorem Requests.within {next : Except Error Instance → Program C L.Answer}
    {r : Except Failure Instance} (h : σ.Requests t L g next k r l) :
    σ.Within t (L.callers next) (L.onward next) (k + 1) l :=
  fun j hj hl => h.awaits j hj hl

theorem Ends.requests {rest : Instance → Program C L.Answer} {r : Except Failure Instance}
    (h : σ.Ends t L rest (Program.request g) n r l) : ∃ k l', n ≤ k ∧ l' ≤ l ∧
      σ.Requests t L g (fun a => (Program.ofExcept a).bind rest) k r l' := by
  have hway : ∀ q k, σ.Proceeds t L rest (Program.request g) n q k →
      q = .request g ∨ ∃ a k' l', n ≤ k' ∧ l' < k ∧ q = .ofExcept a ∧
        σ.Requests t L g (fun a => (Program.ofExcept a).bind rest) k' (Except.mapError .error a)
          l' := by
    intro q k hp
    induction hp with
    | begins h => exact .inl rfl
    | stays h hm ih =>
      obtain rfl | ⟨a, k', l', hk, hl, rfl, hr⟩ := ih
      · exact .inl rfl
      · exact .inr ⟨a, k', l', hk, Nat.lt_succ_of_lt hl, rfl, hr⟩
    | acts h hm ha ih =>
      obtain he | ⟨a, k', l', -, -, he, -⟩ := ih
      · cases he
      · cases a <;> cases he
    | calls h hm ih =>
      obtain he | ⟨a, k', l', -, -, he, -⟩ := ih
      · cases he
      · cases a <;> cases he
    | @answered g' next a k' l' h hr ih =>
      obtain he | ⟨b, k', l', -, -, he, -⟩ := ih
      · cases he
        exact .inr ⟨a, k', l', h.begins_with.1, Nat.lt_succ_self l', rfl, hr⟩
      · cases b <;> cases he
  cases h with
  | @itself r k h =>
    obtain he | ⟨a, k', l', hk, hl, he, hr⟩ := hway _ _ h
    · obtain ((e | s) | i) := r <;> cases he
    · have hra : r = Except.mapError .error a := by
        cases a <;> obtain ((e | s) | i) := r <;> cases he <;> rfl
      exact ⟨k', l', hk, Nat.le_of_lt hl, hra ▸ hr⟩
  | @crash g' next message k l h hr =>
    obtain he | ⟨a, k', l', -, -, he, -⟩ := hway _ _ h
    · cases he
      exact ⟨k, l, h.begins_with.1, Nat.le_succ l, hr⟩
    · cases a <;> cases he

theorem LooksUp.answered (h : σ.LooksUp n t F next e) (hl : n < l)
    (hw : σ.Within t F next (n + 1) l)
    (ha : (σ.state l).activity t = .resolving (.finish (.ok i)) F next) :
    (σ.state l).world.cached e = some i := by
  obtain ⟨s, rfl, hlen, hpeek⟩ := h.peeks
  have hway : ∀ k, n < k → k ≤ l → (σ.state l).world.cached s.entry = some i ∨
      s.entry < (σ.state k).world.entries.length ∧ ∃ K G,
        (σ.state k).activity t = .resolving K G next ∧ Serving (σ.state k).world s F K G := by
    intro k hk hkl
    induction hk with
    | refl => exact .inr ⟨hlen, _, _, hpeek, .peek⟩
    | @step k hk ih =>
      obtain hc | ⟨hlen, K, G, hK, hs⟩ := ih (by omega)
      · exact .inl hc
      · obtain ⟨hlen, K', G', hK', hs'⟩ := served_next hK hs hlen
        cases hs' with
        | serving hs' => exact .inr ⟨hlen, K', G', hK', hs'⟩
        | answered hr =>
          cases (hw.finished (Nat.le_succ_of_le hk) hkl hK').symm.trans ha
          exact .inl (σ.cached_lasts hkl (hr i rfl))
  obtain hc | ⟨-, K, G, hK, hs⟩ := hway l hl (Nat.le_refl l)
  · exact hc
  · cases ha.symm.trans hK
    exact (Served.serving hs).cached

theorem entered_answered {x : Target} {p : Program C Instance}
    (ha : (σ.state n).activity t = .resolving (.enter c x (.run p)) F next)
    (hw : σ.Within t F next n l) (hl : n ≤ l)
    (hend : (σ.state l).activity t = .resolving (.finish (.ok i)) F next) :
    ∃ b j, n < b ∧ j ≤ l ∧ σ.Ends t (.inside (.inside c x :: F) next) .done p b (.ok i) j := by
  obtain hsame | ⟨m, hn, hml, hat, hm⟩ := moves_on ha nofun hl
  · cases hsame.symm.trans hend
  · obtain ⟨th, th', fresh, hth, hmv, ha'⟩ := σ.move t hm (by rw [hat]; exact nofun)
    obtain ⟨f, hf⟩ | hin := hmv.enter_cases (hth.trans hat)
    · have hstay := hw.finished (by omega) hml (ha'.trans hf)
      cases hstay.symm.trans hend
    · obtain hu | ⟨r, j, l', hj, hl', he, hended⟩ :=
        ended_or_underWay (L := .inside (.inside c x :: F) next) (ha'.trans hin) hml
      · have hlt := hu.frames_lt hend nofun
        simp only [List.length_cons] at hlt
        omega
      · have hb := he.begins_with.1
        obtain hsame | ⟨m', hm', hml', hat', hmove⟩ := moves_on hended nofun hl'
        · cases hsame.symm.trans hend
        · obtain ⟨th, th', fresh, hth, hmv, ha'⟩ := σ.move t hmove (by rw [hat']; exact nofun)
          have hleft := ha'.trans (hmv.leaves_target (hth.trans hat'))
          cases (hw.finished (by omega) hml' hleft).symm.trans hend
          exact ⟨m + 1, j, by omega, by omega, he⟩

theorem Requests.finds {next : Except Error Instance → Program C L.Answer}
    {r : Except Failure Instance} (h : σ.Requests t L (.service c name o) next k r l) :
    ∃ m, k < m ∧ m < l ∧ σ.mover m = some t ∧
      (σ.state m).activity t = .resolving (.find c name o) (L.callers next) (L.onward next) := by
  have hfind : (σ.state (k + 1)).activity t =
      .resolving (.find c name o) (L.callers next) (L.onward next) := by
    obtain ⟨hne, -⟩ | ⟨-, hnext⟩ := runs_next h.makes
    · exact absurd h.moves hne
    · exact hnext
  obtain hsame | ⟨m, hkm, hml, hat, hm⟩ := moves_on hfind nofun (Nat.succ_le_of_lt h.lt)
  · cases hsame.symm.trans h.finishes
  · exact ⟨m, hkm, hml, hm, hat⟩

theorem Requests.missed {next : Except Error Instance → Program C L.Answer}
    {r : Except Failure Instance} (h : σ.Requests t L (.service c name o) next k r l) {m : ℕ}
    (hkm : k < m) (hml : m < l) (hm : σ.mover m = some t)
    (hat : (σ.state m).activity t =
      .resolving (.find c name o) (L.callers next) (L.onward next))
    (hnone : (σ.state m).world.entry? c name = none) :
    r = .error (.error (.serviceNotFound name)) := by
  obtain ⟨th, th', fresh, hth, hmv, ha'⟩ := σ.move t hm (by rw [hat]; exact nofun)
  obtain ⟨-, hmiss⟩ | ⟨e, x, he, -⟩ := hmv.find_cases (hth.trans hat)
  · have hstay := h.within.finished (Nat.succ_le_succ (Nat.le_of_lt hkm)) hml (ha'.trans hmiss)
    cases h.finishes.symm.trans hstay
    rfl
  · cases hnone.symm.trans he

theorem Requests.built_at {next : Except Error Instance → Program C L.Answer}
    (h : σ.Requests t L (.service c name o) next k (.ok i) l) {m : ℕ} (hkm : k < m) (hml : m < l)
    (hm : σ.mover m = some t)
    (hat : (σ.state m).activity t =
      .resolving (.find c name o) (L.callers next) (L.onward next)) :
    ∃ e x, (σ.state m).world.entry? c name = some (e, x) ∧
      (x.registration.shared = true ∧ (σ.state l).world.cached e = some i ∨
        (x.registration.shared && o.isEmpty) = false ∧ ∃ b j, m < b ∧ j ≤ l ∧
          σ.Ends t (.inside (.inside c (.service name) :: L.callers next) (L.onward next)) .done
            (build c name x.registration o) b (.ok i) j) := by
  have hw := h.within
  have hend := h.finishes
  obtain ⟨th, th', fresh, hth, hmv, ha'⟩ := σ.move t hm (by rw [hat]; exact nofun)
  obtain ⟨hnone, -⟩ | ⟨e, x, he, ⟨hs, hpeek⟩ | ⟨hs, henter⟩⟩ := hmv.find_cases (hth.trans hat)
  · cases h.missed hkm hml hm hat hnone
  · obtain ⟨hshared, hempty⟩ := Bool.and_eq_true_iff.1 hs
    have hlook : σ.LooksUp m t (L.callers next) (L.onward next) e :=
      ⟨c, name, o, x, hm, hat, he, hshared, hempty⟩
    have hcached := hlook.answered hml (fun j hj => hw j (by omega)) hend
    exact ⟨e, x, he, .inl ⟨hshared, hcached⟩⟩
  · obtain ⟨b, j, hb, hj, hown⟩ :=
      entered_answered (ha'.trans henter) (fun j hj => hw j (by omega)) hml hend
    exact ⟨e, x, he, .inr ⟨hs, b, j, by omega, hj, hown⟩⟩

theorem Requests.found_at {next : Except Error Instance → Program C L.Answer}
    (h : σ.Requests t L (.service c name ∅) next k (.ok i) l) {m : ℕ} (hkm : k < m) (hml : m < l)
    (hm : σ.mover m = some t)
    (hat : (σ.state m).activity t =
      .resolving (.find c name ∅) (L.callers next) (L.onward next)) :
    ∃ e x, (σ.state m).world.entry? c name = some (e, x) ∧
      (x.registration.shared = true ∧ (σ.state l).world.cached e = some i ∨
        x.registration.shared = false ∧ ∃ F next b j, m < b ∧ j ≤ l ∧
          σ.Ends t (.inside (.inside c (.service name) :: F) next) .done
            (build c name x.registration ∅) b (.ok i) j) := by
  obtain ⟨e, x, he, hcached | ⟨hs, b, j, hb, hj, hown⟩⟩ := h.built_at hkm hml hm hat
  · exact ⟨e, x, he, .inl hcached⟩
  · have hplain : x.registration.shared = false := by
      rw [← hs, show (∅ : Overrides).isEmpty = true from rfl, Bool.and_true]
    exact ⟨e, x, he, .inr ⟨hplain, _, _, b, j, hb, hj, hown⟩⟩

theorem Requests.found {next : Except Error Instance → Program C L.Answer}
    (h : σ.Requests t L (.service c name ∅) next k (.ok i) l) :
    ∃ m e x, k < m ∧ m < l ∧ (σ.state m).world.entry? c name = some (e, x) ∧
      (x.registration.shared = true ∧ (σ.state l).world.cached e = some i ∨
        x.registration.shared = false ∧ ∃ F next b j, m < b ∧ j ≤ l ∧
          σ.Ends t (.inside (.inside c (.service name) :: F) next) .done
            (build c name x.registration ∅) b (.ok i) j) := by
  obtain ⟨m, hkm, hml, hm, hat⟩ := h.finds
  obtain ⟨e, x, he, hfrom⟩ := h.found_at hkm hml hm hat
  exact ⟨m, e, x, hkm, hml, he, hfrom⟩

theorem registration_lasts (hx : (σ.state n).world.entries[e]? = some x) (hk : n ≤ k) :
    ∃ y, (σ.state k).world.entries[e]? = some y ∧ y.registration = x.registration := by
  refine σ.lasts (P := fun m => ∃ y, m.world.entries[e]? = some y ∧
    y.registration = x.registration) ?_ ⟨x, hx, rfl⟩ hk
  rintro m m' t - ⟨y, hy, hr⟩ hs
  obtain ⟨th, ht, hst⟩ := Machine.step_cases hs
  obtain ⟨z, hz, hr'⟩ := (hst.develops ht).registration e y hy
  exact ⟨z, hz, hr'.trans hr⟩

/-- Once a service has been registered, a plain request for it that begins later is answered with
what an entry not older than this one has cached, made by a build of this entry, or with what its
own build of such an entry makes; and the end of a build of an older entry changes nothing about
what is registered and cached under the name. Once a service has been removed, a request for it that
begins later, before it is registered again, fails without fail, since there is no such service. -/
theorem never_stale (σ : Run I) (c : ContainerId) (name : String) :
    (∀ n u r, σ.Performs n u (.insert c name r) →
      (∀ t (L : Scope C) rest k i l, n < k →
        σ.Ends t L rest (Container.get c name) k (.ok i) l →
        ∃ m e x, k < m ∧ m < l ∧ (σ.state m).world.entry? c name = some (e, x) ∧
          (σ.state n).world.entries.length ≤ e ∧
          (x.registration.shared = true ∧ (σ.state l).world.cached e = some i ∧
              (∃ j < l, σ.Makes e x.registration i j) ∨
            x.registration.shared = false ∧ ∃ F next b j, m < b ∧ j ≤ l ∧
              σ.Ends t (.inside (.inside c (.service name) :: F) next) .done
                (build c name x.registration ∅) b (.ok i) j)) ∧
      ∀ t s F next res k, s.entry < (σ.state n).world.entries.length → n < k →
        σ.mover k = some t →
        (σ.state k).activity t = .resolving (.finish res) (.keeps s :: F) next →
        (σ.state (k + 1)).world.entry? c name = (σ.state k).world.entry? c name) ∧
    ∀ n u, σ.Performs n u (.erase c name) → ∀ t (L : Scope C) rest o k d, n < k →
      (∀ l, n < l → l < k + d → ∀ v r, ¬ σ.Performs l v (.insert c name r)) →
      (σ.state k).activity t = L.runs (.resolve (.service c name o) rest) →
      σ.moved t k d ≤ 3 →
      (σ.state (k + d)).activity t = L.stages rest (.service c name o) (Container.miss c name o)
          (.error (.serviceNotFound name)) (σ.moved t k d) ∧
        (σ.moved t k d < 3 → ((σ.state (k + d)).step I t).isSome) := by
  refine ⟨fun n u r hp => ⟨?_, ?_⟩, ?_⟩
  · intro t L rest k i l hk he
    obtain ⟨k', l', hk', hl', hr⟩ := he.requests
    obtain ⟨m, e, x, hkm, hml, hentry, hfrom⟩ := hr.found
    obtain ⟨hs, hx⟩ := World.entry?_eq_some.1 hentry
    refine ⟨m, e, x, by omega, by omega, hentry, hp.newer (by omega) hs, ?_⟩
    obtain ⟨hshared, hc⟩ | ⟨hplain, F, next, b, j, hb, hj, hown⟩ := hfrom
    · obtain ⟨y, hy, hyi⟩ := Option.bind_eq_some_iff.1 hc
      obtain ⟨z, hz, hreg⟩ := registration_lasts hx (Nat.le_of_lt hml)
      cases hy.symm.trans hz
      obtain ⟨-, j, hj, hmade⟩ := σ.cached_makes hy hyi
      exact .inl ⟨hshared, σ.cached_lasts hl' hc, j, by omega, hreg ▸ hmade⟩
    · exact .inr ⟨hplain, F, next, b, j, hb, by omega, hown⟩
  · intro t s F next res k hold hk hm ha
    have hno : ∀ v a, σ.Performs k v a → ¬ a.Places c name := by
      rintro v a ⟨hv, L, rest, hacts⟩ -
      cases hm.symm.trans hv
      cases L <;> cases ha.symm.trans hacts
    cases he : (σ.state k).world.entry? c name with
    | some p =>
      obtain ⟨e, x⟩ := p
      have hnewer := hp.newer hk (World.entry?_eq_some.1 he).1
      refine entry_next hno (fun v i a G next' hv hb => ?_) he
      cases hm.symm.trans hv
      cases ha.symm.trans hb
      exact Nat.ne_of_lt (Nat.lt_of_lt_of_le hold hnewer)
    | none =>
      apply entry_eq_none
      rw [service_next hno]
      cases hs : ((σ.state k).world.services c).get? name with
      | none => rfl
      | some e =>
        obtain ⟨place, hplace, -⟩ := (σ.reachable k).located
        have hx := List.getElem?_eq_getElem (hplace c name e hs).1
        cases he.symm.trans (World.entry?_eq_some.2 ⟨hs, hx⟩)
  · intro n u hp t L rest o k d hk hno ha hd
    have hnow := at_stage (Container.miss_prompt c name o) (a := .error (.serviceNotFound name))
      (fun l j th th' fresh hn hl hj hm hth => hm.miss hth hj (entry_eq_none
        (hp.gone (by omega) fun i hi hil => hno i hi (by omega)))) ha hd
    exact ⟨hnow, fun hlt => Machine.stages_isSome (Container.miss_prompt c name o) hnow
      (Nat.le_of_lt_succ hlt)⟩

def replaced : Run Implementation.plain :=
  along ⟨.ofServices () [("a", ⟨true, .made (.of "A") [] ()⟩)],
      [{ todo := [(Container.get 0 "a").bind fun _ => .done ()] },
        { todo := [Container.register 0 "a" ⟨true, .made (.of "B") [] ()⟩,
            (Container.get 0 "a").bind fun _ => .done (),
            (Container.remove 0 "a").bind fun _ => .done (),
            (Container.get 0 "a").bind fun _ => .done ()] }]⟩
    { world := World.ofServices_unbuilt _ _
      threads := fun h => by
        obtain rfl | rfl := List.mem_pair.1 h
        · exact ⟨rfl, rfl, rfl⟩
        · exact ⟨rfl, rfl, rfl⟩ }
    fun n => if n < 8 then 0 else if n < 13 then 1 else if n < 22 then 0 else 1

def inserting : Activity C → Bool
  | .running (.act (.insert ..) _) => true
  | .resolving (.run (.act (.insert ..) _)) _ _ => true
  | _ => false

theorem replaced_requests :
    replaced.Requests 1 .own (.service 0 "a" ∅)
      (fun a => (Program.ofExcept a).bind fun _ => .done ()) 23 (.ok ⟨.of "B", 1⟩) 38 where
  makes := rfl
  moves := rfl
  lt := by decide
  awaits j hj hl := by
    have hj' : 24 ≤ j := hj
    interval_cases j <;> exact ⟨_, _, rfl, List.nil_suffix⟩
  finishes := rfl
  takes := rfl

set_option maxRecDepth 2000 in
theorem never_stale_replaced :
    (∃ m e x, 23 < m ∧ m < 39 ∧ (replaced.state m).world.entry? 0 "a" = some (e, x) ∧ 1 ≤ e) ∧
      (replaced.state 18).world.entry? 0 "a" = (replaced.state 17).world.entry? 0 "a" ∧
      (replaced.state 48).activity 1 =
        .running ((Program.ofExcept (.error (.serviceNotFound "a"))).bind fun (_ : Instance) =>
          .done ()) := by
  obtain ⟨hreplaced, hremoved⟩ := never_stale replaced 0 "a"
  obtain ⟨hget, hold⟩ := hreplaced 10 1 ⟨true, .made (.of "B") [] ()⟩ ⟨rfl, .own, _, rfl⟩
  have hends : replaced.Ends 1 .own (fun _ : Instance => .done ()) (Container.get 0 "a") 23
      (.ok ⟨.of "B", 1⟩) 39 := by
    apply Ends.itself
    apply Proceeds.answered (a := Except.ok (Instance.mk (.of "B") 1)) _ replaced_requests
    exact .begins rfl
  obtain ⟨m, e, x, hm, hm', hentry, hnew, -⟩ := hget 1 .own _ 23 _ 39 (by decide) hends
  refine ⟨⟨m, e, x, hm, hm', hentry, hnew⟩, ?_, ?_⟩
  · exact hold 0 ⟨0, "a", 0, ⟨true, .made (.of "A") [] ()⟩⟩ _ _ _ 17 (by decide) (by decide) rfl rfl
  · have hthree : replaced.moved 1 45 3 = 3 := by decide +kernel
    have hquiet : ∀ l, 41 < l → l < 45 + 3 → ∀ v r, ¬ replaced.Performs l v (.insert 0 "a" r) := by
      rintro l hl hl' v r ⟨hv, L, rest, ha⟩
      have hmover : ∀ l < 48, 41 < l → replaced.mover l = some 1 := by decide +kernel
      have hno : ∀ l < 48, 41 < l → inserting ((replaced.state l).activity 1) = false := by
        decide +kernel
      cases hv.symm.trans (hmover l hl' hl)
      have hfalse := hno l hl' hl
      rw [ha] at hfalse
      cases L <;> cases hfalse
    have herase : replaced.Performs 41 1 (.erase 0 "a") := ⟨rfl, .own, _, rfl⟩
    obtain ⟨ha, -⟩ := hremoved 41 1 herase 1 .own _ ∅ 45 3 (by decide) hquiet rfl
      (Nat.le_of_eq hthree)
    rw [hthree] at ha
    exact ha

end Run

end Wiring
