import Wiring.Proofs.Entries

namespace Wiring

variable {C : Client}

namespace Machine

variable {m : Machine C} {t u : ThreadId}

def Builds (m : Machine C) (t : ThreadId) (k : BuildKey) : Prop :=
  ∃ s ∈ (m.activity t).kept, s.key = k

theorem Consistent.builds_unique (hm : m.Consistent) {k : BuildKey} (ht : m.Builds t k)
    (hu : m.Builds u k) : t = u := by
  obtain ⟨a, ha, rfl⟩ := ht
  obtain ⟨b, hb, hk⟩ := hu
  have ht := (hm.owners a.key t).2 (hm.kept_owned ha)
  have hu := (hm.owners b.key u).2 (hm.kept_owned hb)
  rw [hk, ht] at hu
  exact Option.some.inj hu

end Machine

inductive Serving (w : World C) (s : Site C) (F : List (Frame C)) :
    Control C → List (Frame C) → Prop
  | peek : Serving w s F (.peek s) F
  | enter : Serving w s F (.enter s.container (.service s.name) (.attempt s)) F
  | attempt : Serving w s F (.attempt s) (.inside s.container (.service s.name) :: F)
  | claim : Serving w s F (.claim s) (.inside s.container (.service s.name) :: F)
  | asleep {owner} : Serving w s F (.asleep s owner) (.inside s.container (.service s.name) :: F)
  | woken {owner} : Serving w s F (.woken s owner) (.inside s.container (.service s.name) :: F)
  | recheck :
      Serving w s F (.recheck s) (.owns s :: .inside s.container (.service s.name) :: F)
  | build {K G} (h : .keeps s :: .owns s :: .inside s.container (.service s.name) :: F <:+ G) :
      Serving w s F K G
  | built {r} (h : ∀ i, r = .ok i → w.cached s.entry = some i) :
      Serving w s F (.finish r) (.owns s :: .inside s.container (.service s.name) :: F)
  | notify {r} (h : ∀ i, r = .ok i → w.cached s.entry = some i) :
      Serving w s F (.notify r) (.inside s.container (.service s.name) :: F)
  | leave {r} (h : ∀ i, r = .ok i → w.cached s.entry = some i) :
      Serving w s F (.finish r) (.inside s.container (.service s.name) :: F)

inductive Served (w : World C) (s : Site C) (F : List (Frame C)) :
    Control C → List (Frame C) → Prop
  | serving {K G} (h : Serving w s F K G) : Served w s F K G
  | answered {r} (h : ∀ i, r = .ok i → w.cached s.entry = some i) : Served w s F (.finish r) F

namespace Served

variable {w w' : World C} {s : Site C} {F G : List (Frame C)} {K : Control C}

theorem develops (h : Served w s F K G) (hd : w.Develops w') : Served w' s F K G := by
  have hc {r : Except Failure Instance} (h : ∀ i, r = .ok i → w.cached s.entry = some i) :
      ∀ i, r = .ok i → w'.cached s.entry = some i := fun i hi => hd.cached _ _ (h i hi)
  cases h with
  | answered h => exact .answered (hc h)
  | serving h =>
    refine .serving ?_
    cases h with
    | built h => exact .built (hc h)
    | notify h => exact .notify (hc h)
    | leave h => exact .leave (hc h)
    | peek => exact .peek
    | enter => exact .enter
    | attempt => exact .attempt
    | claim => exact .claim
    | asleep => exact .asleep
    | woken => exact .woken
    | recheck => exact .recheck
    | build h => exact .build h

theorem cached {i : Instance} (h : Served w s F (.finish (.ok i)) F) :
    w.cached s.entry = some i := by
  generalize hK : Control.finish (.ok i) = K at h
  generalize hG : F = G at h
  cases h with
  | answered h => cases hK; exact h i rfl
  | serving h =>
    cases h with
    | build h =>
      have hl := h.length_le
      rw [← hG] at hl
      simp only [List.length_cons] at hl
      omega
    | _ => cases hK

end Served

namespace Machine

variable {I : Implementation C} {m m' : Machine C} {t u : ThreadId} {th th' : Thread C}
  {w : World C} {fresh : List (Thread C)} {s : Site C} {K : Control C} {F G : List (Frame C)}
  {next : Except Error Instance → Program C C.Report}

theorem Move.frames (hm : Move I m t th w th' fresh) (h : th.activity = .resolving K G next) :
    (∃ K' G', th'.activity = .resolving K' G' next ∧ G <:+ G') ∨
      ∃ r, K = .finish r ∧
        (G = [] ∨ ∃ f K' G', G = f :: G' ∧ th'.activity = .resolving K' G' next) := by
  cases hm with
  | enterNew h' hc =>
    cases h.symm.trans h'
    exact .inl ⟨_, _, rfl, List.suffix_cons _ _⟩
  | claimFree h' ho =>
    cases h.symm.trans h'
    exact .inl ⟨_, _, rfl, List.suffix_cons _ _⟩
  | recheckMiss h' hi =>
    cases h.symm.trans h'
    exact .inl ⟨_, _, rfl, List.suffix_cons _ _⟩
  | runResolve h' =>
    cases h.symm.trans h'
    exact .inl ⟨_, _, rfl, List.suffix_cons _ _⟩
  | keepFirst h' hi =>
    cases h.symm.trans h'
    exact .inr ⟨_, rfl, .inr ⟨_, _, _, rfl, rfl⟩⟩
  | keepOther h' hi =>
    cases h.symm.trans h'
    exact .inr ⟨_, rfl, .inr ⟨_, _, _, rfl, rfl⟩⟩
  | keepNothing h' =>
    cases h.symm.trans h'
    exact .inr ⟨_, rfl, .inr ⟨_, _, _, rfl, rfl⟩⟩
  | release h' =>
    cases h.symm.trans h'
    exact .inr ⟨_, rfl, .inr ⟨_, _, _, rfl, rfl⟩⟩
  | leave h' =>
    cases h.symm.trans h'
    exact .inr ⟨_, rfl, .inr ⟨_, _, _, rfl, rfl⟩⟩
  | answer h' =>
    cases h.symm.trans h'
    exact .inr ⟨_, rfl, .inr ⟨_, _, _, rfl, rfl⟩⟩
  | passBy h' =>
    cases h.symm.trans h'
    exact .inr ⟨_, rfl, .inr ⟨_, _, _, rfl, rfl⟩⟩
  | ownAnswer h' => cases h.symm.trans h'; exact .inr ⟨_, rfl, .inl rfl⟩
  | ownCrash h' => cases h.symm.trans h'; exact .inr ⟨_, rfl, .inl rfl⟩
  | _ => cases h.symm.trans ‹th.activity = _› <;> exact .inl ⟨_, _, rfl, List.suffix_rfl⟩

theorem Move.found {c : ContainerId} {name : String} {o : Overrides} {e : EntryId} {x : Entry C}
    (hm : Move I m t th w th' fresh) (h : th.activity = .resolving (.find c name o) F next)
    (he : m.world.entry? c name = some (e, x))
    (hs : (x.registration.shared && o.isEmpty) = true) :
    th'.activity = .resolving (.peek ⟨c, name, e, x.registration⟩) F next := by
  cases hm with
  | findMissing h' he' => cases h.symm.trans h'; cases he.symm.trans he'
  | findShared h' he' hs' => cases h.symm.trans h'; cases he.symm.trans he'; rfl
  | findOther h' he' hs' =>
    cases h.symm.trans h'
    cases he.symm.trans he'
    cases hs.symm.trans hs'
  | _ => cases h.symm.trans ‹th.activity = _›

theorem Move.built {r : Except Failure Instance} (hm : Move I m t th w th' fresh)
    (h : th.activity = .resolving (.finish r) (.keeps s :: F) next)
    (hl : s.entry < m.world.entries.length) :
    ∃ r', th'.activity = .resolving (.finish r') F next ∧ r'.isOk = r.isOk ∧
      ∀ i, r' = .ok i → w.cached s.entry = some i := by
  cases hm with
  | keepFirst h' hi =>
    cases h.symm.trans h'
    refine ⟨_, rfl, rfl, fun i hi => ?_⟩
    cases hi
    rw [World.cached_setCache, if_pos ⟨rfl, hl⟩]
  | keepOther h' hi =>
    cases h.symm.trans h'
    refine ⟨_, rfl, rfl, fun i hi' => ?_⟩
    cases hi'
    exact hi
  | keepNothing h' =>
    cases h.symm.trans h'
    exact ⟨_, rfl, rfl, fun i hi => nomatch hi⟩
  | _ => cases h.symm.trans ‹th.activity = _›

theorem Move.served (hm : Move I m t th w th' fresh) (h : th.activity = .resolving K G next)
    (hs : Serving m.world s F K G) (hl : s.entry < m.world.entries.length) :
    ∃ K' G', th'.activity = .resolving K' G' next ∧ Served w s F K' G' := by
  cases hs with
  | peek =>
    cases hm with
    | peekHit h' hi =>
      cases h.symm.trans h'
      exact ⟨_, _, rfl, .answered fun i hi' => by cases hi'; exact hi⟩
    | peekMiss h' hi => cases h.symm.trans h'; exact ⟨_, _, rfl, .serving .enter⟩
    | _ => cases h.symm.trans ‹th.activity = _›
  | enter =>
    cases hm with
    | enterAgain h' hc =>
      cases h.symm.trans h'
      exact ⟨_, _, rfl, .answered fun i hi => nomatch hi⟩
    | enterNew h' hc => cases h.symm.trans h'; exact ⟨_, _, rfl, .serving .attempt⟩
    | _ => cases h.symm.trans ‹th.activity = _›
  | attempt =>
    cases hm with
    | attemptHit h' hi =>
      cases h.symm.trans h'
      exact ⟨_, _, rfl, .serving (.leave fun i hi' => by cases hi'; exact hi)⟩
    | attemptMiss h' hi => cases h.symm.trans h'; exact ⟨_, _, rfl, .serving .claim⟩
    | _ => cases h.symm.trans ‹th.activity = _›
  | claim =>
    cases hm with
    | claimFree h' ho => cases h.symm.trans h'; exact ⟨_, _, rfl, .serving .recheck⟩
    | claimCycle h' ho hc =>
      cases h.symm.trans h'
      exact ⟨_, _, rfl, .serving (.leave fun i hi => nomatch hi)⟩
    | claimWait h' ho hc => cases h.symm.trans h'; exact ⟨_, _, rfl, .serving .asleep⟩
    | _ => cases h.symm.trans ‹th.activity = _›
  | asleep => cases hm <;> cases h.symm.trans ‹th.activity = _›
  | woken =>
    cases hm with
    | wokenAgain h' ho => cases h.symm.trans h'; exact ⟨_, _, rfl, .serving .asleep⟩
    | wokenFree h' ho => cases h.symm.trans h'; exact ⟨_, _, rfl, .serving .attempt⟩
    | _ => cases h.symm.trans ‹th.activity = _›
  | recheck =>
    cases hm with
    | recheckHit h' hi =>
      cases h.symm.trans h'
      exact ⟨_, _, rfl, .serving (.built fun i hi' => by cases hi'; exact hi)⟩
    | recheckMiss h' hi =>
      cases h.symm.trans h'
      exact ⟨_, _, rfl, .serving (.build List.suffix_rfl)⟩
    | _ => cases h.symm.trans ‹th.activity = _›
  | build hG =>
    obtain ⟨K', G', ha, hG'⟩ | ⟨r, rfl, rfl | ⟨f, K', G', rfl, ha⟩⟩ := hm.frames h
    · exact ⟨K', G', ha, .serving (.build (hG.trans hG'))⟩
    · cases List.suffix_nil.1 hG
    · obtain hG | hG := List.suffix_cons_iff.1 hG
      · cases hG
        obtain ⟨r', ha, -, hr⟩ := hm.built h hl
        exact ⟨_, _, ha, .serving (.built hr)⟩
      · exact ⟨K', G', ha, .serving (.build hG)⟩
  | built hr =>
    cases hm with
    | release h' => cases h.symm.trans h'; exact ⟨_, _, rfl, .serving (.notify hr)⟩
    | _ => cases h.symm.trans ‹th.activity = _›
  | notify hr => cases hm <;> cases h.symm.trans ‹th.activity = _›
  | leave hr =>
    cases hm with
    | leave h' => cases h.symm.trans h'; exact ⟨_, _, rfl, .answered hr⟩
    | _ => cases h.symm.trans ‹th.activity = _›

theorem Stepped.served (h : Stepped I m t th m') (ht : m.threads[t]? = some th)
    (ha : m.activity u = .resolving K G next) (hs : Serving m.world s F K G)
    (hl : s.entry < m.world.entries.length) :
    ∃ K' G', m'.activity u = .resolving K' G' next ∧ Served m'.world s F K' G' := by
  by_cases he : u = t
  · subst he
    obtain ⟨th', fresh, hm, ha'⟩ | ⟨r, G, next, ho, hn, hw⟩ := h.activity ht
    · rw [ha']
      exact hm.served ((activity_eq ht).symm.trans ha) hs hl
    · rw [hn, hw]
      cases ha.symm.trans ho
      refine ⟨_, _, rfl, ?_⟩
      cases hs with
      | notify hr => exact .serving (.leave hr)
      | build hG => exact .serving (.build hG)
  · have hd := h.develops ht
    obtain hb | ⟨a, owner, G, next, ho, hn⟩ := (h.beside he).activity
    · exact ⟨K, G, hb.trans ha, (Served.serving hs).develops hd⟩
    · cases ha.symm.trans ho
      refine ⟨_, _, hn, ?_⟩
      cases hs with
      | asleep => exact .serving .woken
      | build hG => exact .serving (.build hG)

theorem Stepped.built (h : Stepped I m t th m') (ht : m.threads[t]? = some th) {i : Instance}
    (ha : m.activity t = .resolving (.finish (.ok i)) (.keeps s :: F) next)
    (hl : s.entry < m.world.entries.length) : ∃ j, m'.world.cached s.entry = some j := by
  obtain ⟨th', fresh, hm, -⟩ | ⟨r, G, next, ho, -⟩ := h.activity ht
  · obtain ⟨r, -, hok, hr⟩ := hm.built ((activity_eq ht).symm.trans ha) hl
    cases r with
    | ok j => exact ⟨j, hr j rfl⟩
    | error f => cases hok
  · cases ha.symm.trans ho

theorem Located.kept_lt (hm : m.Located) (hs : s ∈ (m.activity u).kept) :
    s.entry < m.world.entries.length := by
  obtain ⟨place, -, hsite⟩ := hm
  obtain ⟨⟨x, hx, -⟩, -⟩ := hsite u s (Activity.kept_subset_sites _ hs)
  exact (List.getElem?_eq_some_iff.1 hx).1

end Machine

namespace Run

variable {I : Implementation C} (σ : Run I) {n k : Nat} {t : ThreadId} {e : EntryId}
  {i j : Instance} {F : List (Frame C)} {next : Except Error Instance → Program C C.Report}

def Succeeds (n : Nat) (e : EntryId) : Prop :=
  ∃ t i s F next, σ.mover n = some t ∧ s.entry = e ∧
    (σ.state n).activity t = .resolving (.finish (.ok i)) (.keeps s :: F) next

def LooksUp (n : Nat) (t : ThreadId) (F : List (Frame C))
    (next : Except Error Instance → Program C C.Report) (e : EntryId) : Prop :=
  ∃ c name o x, σ.mover n = some t ∧ (σ.state n).activity t = .resolving (.find c name o) F next ∧
    (σ.state n).world.entry? c name = some (e, x) ∧ x.registration.shared = true ∧
    o.isEmpty = true

/-- A plain request that looked up the shared entry is answered with the instance: this is the
first end that comes to the frames of whoever made the request. -/
def Answers (e : EntryId) (i : Instance) : Prop :=
  ∃ n k t F next, n < k ∧ σ.LooksUp n t F next e ∧
    (σ.state k).activity t = .resolving (.finish (.ok i)) F next ∧
    ∀ l, n < l → l < k → ∀ r, (σ.state l).activity t ≠ .resolving (.finish r) F next

theorem cached_lasts (hk : n ≤ k) (h : (σ.state n).world.cached e = some i) :
    (σ.state k).world.cached e = some i := by
  refine σ.lasts (P := fun m => m.world.cached e = some i) ?_ h hk
  intro m m' t hr hi hs
  obtain ⟨th, ht, h⟩ := Machine.step_cases hs
  exact (h.develops ht).cached e i hi

variable {σ}

theorem Succeeds.cached (h : σ.Succeeds n e) :
    (∃ t, ∃ s ∈ ((σ.state n).activity t).kept, s.entry = e) ∧
      ∃ i, (σ.state (n + 1)).world.cached e = some i := by
  obtain ⟨t, i, s, F, next, hm, rfl, ha⟩ := h
  have hk : s ∈ ((σ.state n).activity t).kept := by rw [ha]; exact List.mem_cons_self
  obtain ⟨th, ht, hst⟩ := Machine.step_cases (σ.moves n t hm)
  exact ⟨⟨t, s, hk, rfl⟩, hst.built ht ha ((σ.reachable n).located.kept_lt hk)⟩

theorem Succeeds.not_lt (h : σ.Succeeds n e) (h' : σ.Succeeds k e) : ¬ n < k := by
  intro hlt
  obtain ⟨-, i, hi⟩ := h.cached
  obtain ⟨⟨t, s, hs, rfl⟩, -⟩ := h'.cached
  -- What the first build has cached would still be there when the second one ends.
  have hc := σ.cached_lasts (Nat.succ_le_of_lt hlt) hi
  rw [(σ.reachable k).pristine t s hs] at hc
  cases hc

theorem LooksUp.peeks (h : σ.LooksUp n t F next e) : ∃ s, s.entry = e ∧
    e < (σ.state (n + 1)).world.entries.length ∧
      (σ.state (n + 1)).activity t = .resolving (.peek s) F next := by
  obtain ⟨c, name, o, x, hm, ha, he, hs, ho⟩ := h
  obtain ⟨th, ht, hst⟩ := Machine.step_cases (σ.moves n t hm)
  have hl := (List.getElem?_eq_some_iff.1 (World.entry?_eq_some.1 he).2).1
  have hd := (hst.develops ht).size
  obtain ⟨th', fresh, hmv, ha'⟩ | ⟨r, G, next, hno, -⟩ := hst.activity ht
  · have h' := hmv.found ((Machine.activity_eq ht).symm.trans ha) he (by simp [hs, ho])
    exact ⟨_, rfl, Nat.lt_of_lt_of_le hl hd, ha'.trans h'⟩
  · cases ha.symm.trans hno

theorem served_next {s : Site C} {K : Control C} {G : List (Frame C)}
    (ha : (σ.state n).activity t = .resolving K G next) (hs : Serving (σ.state n).world s F K G)
    (hl : s.entry < (σ.state n).world.entries.length) :
    s.entry < (σ.state (n + 1)).world.entries.length ∧ ∃ K' G',
      (σ.state (n + 1)).activity t = .resolving K' G' next ∧
        Served (σ.state (n + 1)).world s F K' G' := by
  cases hm : σ.mover n with
  | none =>
    rw [σ.idles n hm]
    exact ⟨hl, K, G, ha, .serving hs⟩
  | some u =>
    obtain ⟨th, ht, hst⟩ := Machine.step_cases (σ.moves n u hm)
    exact ⟨Nat.lt_of_lt_of_le hl (hst.develops ht).size, hst.served ht ha hs hl⟩

theorem LooksUp.served (h : σ.LooksUp n t F next e) (hk : n < k)
    (hfirst : ∀ l, n < l → l < k → ∀ r, (σ.state l).activity t ≠ .resolving (.finish r) F next) :
    ∃ s K G, s.entry = e ∧ e < (σ.state k).world.entries.length ∧
      (σ.state k).activity t = .resolving K G next ∧ Served (σ.state k).world s F K G := by
  induction hk with
  | refl =>
    obtain ⟨s, he, hl, ha⟩ := h.peeks
    exact ⟨s, _, _, he, hl, ha, .serving .peek⟩
  | @step k hk ih =>
    obtain ⟨s, K, G, rfl, hl, ha, hs⟩ := ih fun l hn hl => hfirst l hn (by omega)
    cases hs with
    | answered hr => exact absurd ha (hfirst k hk (Nat.lt_succ_self k) _)
    | serving hs =>
      obtain ⟨hl, K', G', ha', hs'⟩ := served_next ha hs hl
      exact ⟨s, K', G', rfl, hl, ha', hs'⟩

theorem Answers.cached (h : σ.Answers e i) : ∃ k, (σ.state k).world.cached e = some i := by
  obtain ⟨n, k, t, F, next, hk, hl, ha, hfirst⟩ := h
  obtain ⟨s, K, G, rfl, -, ha', hs⟩ := hl.served hk hfirst
  cases ha.symm.trans ha'
  exact ⟨k, hs.cached⟩

/-- Along every run each shared entry is built with success at most once, no two threads build a
service for everyone at the same time, and all plain requests that found the entry and succeed get
the same instance. -/
theorem shared_once (σ : Run I) :
    (∀ e n k, σ.Succeeds n e → σ.Succeeds k e → n = k) ∧
      (∀ n key t u, (σ.state n).Builds t key → (σ.state n).Builds u key → t = u) ∧
      ∀ e i j, σ.Answers e i → σ.Answers e j → i = j := by
  refine ⟨fun e n k hn hk => ?_, fun n key t u => (σ.reachable n).consistent.builds_unique,
    fun e i j hi hj => ?_⟩
  · have hle := hk.not_lt hn
    have hge := hn.not_lt hk
    omega
  · obtain ⟨n, hn⟩ := hi.cached
    obtain ⟨k, hk⟩ := hj.cached
    have hi := σ.cached_lasts (Nat.le_max_left n k) hn
    have hj := σ.cached_lasts (Nat.le_max_right n k) hk
    exact Option.some.inj (hi.symm.trans hj)

def unanswered : Activity C → Bool
  | .resolving (.finish _) [] _ => false
  | _ => true

def turns : Run Implementation.plain := along Machine.rivals Machine.rivals_fresh (· % 2)

theorem shared_once_turns :
    turns.Succeeds 24 0 ∧ (∀ n, turns.Succeeds n 0 → n = 24) ∧
      turns.Answers 0 ⟨.of "A", 0⟩ ∧ ∀ i, turns.Answers 0 i → i = ⟨.of "A", 0⟩ := by
  obtain ⟨hone, -, hsame⟩ := shared_once turns
  have hs : turns.Succeeds 24 0 := ⟨0, _, _, _, _, rfl, rfl, rfl⟩
  have ha : turns.Answers 0 ⟨.of "A", 0⟩ := by
    have hbusy : ∀ l < 34, 5 < l → unanswered ((turns.state l).activity 1) := by decide +kernel
    refine ⟨5, 34, 1, [], _, by decide, ⟨0, "a", ∅, _, rfl, rfl, rfl, rfl, rfl⟩, rfl, ?_⟩
    intro l hl hk r he
    have := hbusy l hk hl
    rw [he] at this
    cases this
  exact ⟨hs, fun n hn => hone 0 n 24 hn hs, ha, fun i hi => hsame 0 i _ hi ha⟩

end Run

end Wiring
