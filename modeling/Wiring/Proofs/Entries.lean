import Wiring.Proofs.Bookkeeping

namespace Wiring

variable {C : Client}

def Control.site? : Control C → Option (Site C)
  | .peek s => some s
  | .attempt s => some s
  | .claim s => some s
  | .asleep s _ => some s
  | .woken s _ => some s
  | .recheck s => some s
  | .enter _ _ inside => inside.site?
  | _ => none

def Frame.site? : Frame C → Option (Site C)
  | .keeps s => some s
  | .owns s => some s
  | _ => none

def Activity.sites : Activity C → List (Site C)
  | .resolving K F _ => K.site?.toList ++ F.filterMap Frame.site?
  | _ => []

theorem Goal.control_site? (g : Goal) : (g.control : Control C).site? = none := by cases g <;> rfl

def World.Finds (w : World C) (s : Site C) : Prop :=
  ∃ x, w.entry? s.container s.name = some (s.entry, x) ∧ x.registration = s.registration

namespace Machine

variable {I : Implementation C} {m m' : Machine C} {t u : ThreadId} {th th' : Thread C}
  {w : World C} {fresh : List (Thread C)} {s : Site C}

theorem Move.develops (hm : Move I m t th w th' fresh) : m.world.Develops w := by
  cases hm with
  | ownAct h ha => exact (perform_edit ha).develops
  | runAct h ha => exact (perform_edit ha).develops
  | keepFirst h hi => exact .setCache hi
  | _ => exact .of_eq rfl rfl

theorem Move.cached (hm : Move I m t th w th' fresh) :
    (∀ e, w.cached e = m.world.cached e) ∨
      ∃ i s F next, th.activity = .resolving (.finish (.ok i)) (.keeps s :: F) next ∧
        th'.activity = .resolving (.finish (.ok i)) F next ∧ w = m.world.setCache s.entry i := by
  cases hm with
  | ownAct h ha => exact .inl (perform_edit ha).cached
  | runAct h ha => exact .inl (perform_edit ha).cached
  | keepFirst h hi => exact .inr ⟨_, _, _, _, h, rfl, rfl⟩
  | _ => exact .inl fun _ => rfl

theorem Move.sites (hm : Move I m t th w th' fresh) (hs : s ∈ th'.activity.sites) :
    s ∈ th.activity.sites ∨ m.world.Finds s ∧ s.registration.shared = true := by
  cases hm with
  | findShared h he hf =>
    rw [h]
    simp only [Activity.sites, Thread.goes, Control.site?, Option.toList_some,
      Option.toList_none, List.singleton_append, List.nil_append, List.mem_cons] at hs ⊢
    obtain rfl | hs := hs
    · exact .inr ⟨⟨_, he, rfl⟩, (Bool.and_eq_true_iff.1 hf).1⟩
    · exact .inl hs
  | _ =>
    refine .inl ?_
    rw [‹th.activity = _›]
    simp_all [Activity.sites, Thread.goes, Thread.conclude, Control.site?, Frame.site?,
      Goal.control_site?]

theorem Move.kept (hm : Move I m t th w th' fresh) (hs : s ∈ th'.activity.kept) :
    s ∈ th.activity.kept ∨ m.world.cached s.entry = none := by
  cases hm with
  | recheckMiss h hi =>
    rw [h]
    obtain _ | ⟨_, hs⟩ := hs
    · exact .inr hi
    · exact .inl hs
  | _ =>
    refine .inl ?_
    rw [‹th.activity = _›]
    simp_all [Activity.kept, Activity.frames, Thread.goes, Thread.conclude, Frame.kept?]

def Located (m : Machine C) : Prop := ∃ place : EntryId → BuildKey,
  (∀ c name e, (m.world.services c).get? name = some e →
    e < m.world.entries.length ∧ place e = ⟨c, name⟩) ∧
  ∀ u, ∀ s ∈ (m.activity u).sites,
    (∃ x, m.world.entries[s.entry]? = some x ∧ x.registration = s.registration) ∧
      place s.entry = s.key

theorem Located.of_fresh (h : m.Fresh) : m.Located := by
  have : Nonempty BuildKey := ⟨⟨0, ""⟩⟩
  let Stands (e : EntryId) (k : BuildKey) := (m.world.services k.container).get? k.name = some e
  refine ⟨fun e => Classical.epsilon (Stands e), fun c name e he => ⟨h.world.inRange he, ?_⟩,
    fun u s hs => ?_⟩
  · have hk : Stands e (Classical.epsilon (Stands e)) := Classical.epsilon_spec ⟨⟨c, name⟩, he⟩
    have heq := h.world.single hk he
    beta_reduce
    generalize Classical.epsilon (Stands e) = k at heq ⊢
    cases heq
    rfl
  · rw [h.activity] at hs
    cases hs

theorem Stepped.sites (h : Stepped I m t th m') (ht : m.threads[t]? = some th)
    (hs : s ∈ (m'.activity u).sites) :
    s ∈ (m.activity u).sites ∨ m.world.Finds s ∧ s.registration.shared = true := by
  by_cases he : u = t
  · subst he
    obtain ⟨th', fresh, hm, ha⟩ | ⟨r, F, next, ho, hn, -⟩ := h.activity ht
    · rw [ha] at hs
      rw [activity_eq ht]
      exact hm.sites hs
    · rw [hn] at hs
      exact .inl (ho ▸ hs)
  · obtain ha | ⟨a, owner, F, next, ho, hn⟩ := (h.beside he).activity
    · exact .inl (ha ▸ hs)
    · rw [hn] at hs
      exact .inl (ho ▸ hs)

theorem Stepped.develops (h : Stepped I m t th m') (ht : m.threads[t]? = some th) :
    m.world.Develops m'.world := by
  obtain ⟨th', fresh, hm, -⟩ | ⟨r, F, next, -, -, hw⟩ := h.activity ht
  · exact hm.develops
  · exact hw ▸ .of_eq rfl rfl

theorem Reaches.cached {e : EntryId} (h : Reaches I m m') (hi : (m.world.cached e).isSome) :
    (m'.world.cached e).isSome := by
  induction h with
  | refl => exact hi
  | tail _ hs ih =>
    obtain ⟨t, hs⟩ := hs
    obtain ⟨th, ht, h⟩ := step_cases hs
    obtain ⟨i, hi⟩ := Option.isSome_iff_exists.1 ih
    exact Option.isSome_iff_exists.2 ⟨i, (h.develops ht).cached _ _ hi⟩

theorem Located.step (hm : m.Located) (hs : m.step I t = some m') : m'.Located := by
  obtain ⟨th, ht, h⟩ := step_cases hs
  have hd := h.develops ht
  obtain ⟨place, hserv, hsite⟩ := hm
  obtain ⟨new, hnew⟩ := hd.services
  -- The entry that is made in this step, if any, gets the new place.
  refine ⟨fun e => if e = m.world.entries.length then ⟨new.1, new.2⟩ else place e, ?_, ?_⟩
  · intro c name e he
    beta_reduce
    obtain ho | ⟨rfl, hl, hp⟩ := hnew c name e he
    · obtain ⟨hl, hp⟩ := hserv c name e ho
      exact ⟨Nat.lt_of_lt_of_le hl hd.size, by rw [if_neg (Nat.ne_of_lt hl), hp]⟩
    · exact ⟨hl, by rw [if_pos rfl, ← hp]⟩
  · intro u s hs
    have hold : (∃ x, m.world.entries[s.entry]? = some x ∧ x.registration = s.registration) ∧
        place s.entry = s.key := by
      obtain hs | ⟨⟨x, hf, hx⟩, -⟩ := h.sites ht hs
      · exact hsite u s hs
      · obtain ⟨he, hx'⟩ := World.entry?_eq_some.1 hf
        exact ⟨⟨x, hx', hx⟩, (hserv _ _ _ he).2⟩
    obtain ⟨⟨x, hx, hr⟩, hp⟩ := hold
    obtain ⟨x', hx', hr'⟩ := hd.registration _ x hx
    refine ⟨⟨x', hx', hr'.trans hr⟩, ?_⟩
    beta_reduce
    rw [if_neg (Nat.ne_of_lt (List.getElem?_eq_some_iff.1 hx).1), hp]

theorem Reachable.located (h : m.Reachable I) : m.Located :=
  h.induct (fun _ => .of_fresh) (fun _ _ _ _ hm => hm.step)

def Pristine (m : Machine C) : Prop :=
  ∀ u, ∀ s ∈ (m.activity u).kept, m.world.cached s.entry = none

end Machine

theorem Activity.kept_subset_sites (A : Activity C) : A.kept ⊆ A.sites := by
  intro s hs
  cases A with
  | idle => cases hs
  | running p => cases hs
  | resolving K F next =>
    obtain ⟨f, hf, hk⟩ := List.mem_filterMap.1 hs
    refine List.mem_append_right _ (List.mem_filterMap.2 ⟨f, hf, ?_⟩)
    cases f with
    | keeps a => exact hk
    | _ => cases hk

namespace Machine

variable {I : Implementation C} {m m' : Machine C} {t u : ThreadId} {th th' : Thread C}
  {w : World C} {fresh : List (Thread C)} {s : Site C}

theorem Consistent.kept_owned (hm : m.Consistent) (hs : s ∈ (m.activity u).kept) :
    s.key ∈ m.owned u := by
  cases ht : m.threads[u]? with
  | none => rw [Machine.activity, ht] at hs; cases hs
  | some th =>
    rw [activity_eq ht] at hs
    rw [owned, activity_eq ht]
    exact (hm.orderly ht).kept_sublist.subset (List.mem_map_of_mem hs)

theorem Consistent.kept_entry_ne {a b : Site C} {K : Control C} {F : List (Frame C)}
    {next : Except Error Instance → Program C C.Report} (hm : m.Consistent) (hl : m.Located)
    (ha : m.activity t = .resolving K (.keeps a :: F) next)
    (hb : if u = t then b ∈ F.filterMap Frame.kept? else b ∈ (m.activity u).kept) :
    b.entry ≠ a.entry := by
  intro he
  obtain ⟨place, -, hsite⟩ := hl
  have hka : a ∈ (m.activity t).kept := by rw [ha]; exact List.mem_cons_self
  have hkb : b ∈ (m.activity u).kept := by
    split at hb
    · next hut => rw [hut, ha]; exact List.mem_cons_of_mem _ hb
    · exact hb
  have hkey : b.key = a.key := by
    rw [← (hsite u b (Activity.kept_subset_sites _ hkb)).2, he,
      (hsite t a (Activity.kept_subset_sites _ hka)).2]
  have hown := (hm.owners a.key u).2 (hkey ▸ hm.kept_owned hkb)
  rw [(hm.owners a.key t).2 (hm.kept_owned hka)] at hown
  cases hown
  rw [if_pos rfl] at hb
  cases ht : m.threads[t]? with
  | none => rw [Machine.activity, ht] at ha; cases ha
  | some th =>
    rw [activity_eq ht] at ha
    have hn := (hm.orderly ht).owned_nodup.sublist (hm.orderly ht).kept_sublist
    rw [ha] at hn
    exact (List.nodup_cons.1 hn).1 (hkey ▸ List.mem_map_of_mem hb)

theorem Stepped.kept (h : Stepped I m t th m') (ht : m.threads[t]? = some th)
    (hs : s ∈ (m'.activity u).kept) :
    s ∈ (m.activity u).kept ∨ m.world.cached s.entry = none := by
  by_cases he : u = t
  · subst he
    obtain ⟨th', fresh, hm, ha⟩ | ⟨r, F, next, ho, hn, -⟩ := h.activity ht
    · rw [ha] at hs
      rw [activity_eq ht]
      exact hm.kept hs
    · rw [hn] at hs
      exact .inl (ho ▸ hs)
  · obtain ha | ⟨a, owner, F, next, ho, hn⟩ := (h.beside he).activity
    · exact .inl (ha ▸ hs)
    · rw [hn] at hs
      exact .inl (ho ▸ hs)

theorem Pristine.step (hp : m.Pristine) (hc : m.Consistent) (hl : m.Located)
    (hs : m.step I t = some m') : m'.Pristine := by
  obtain ⟨th, ht, h⟩ := step_cases hs
  intro u s hk
  have hold : m.world.cached s.entry = none := (h.kept ht hk).elim (hp u s) id
  obtain ⟨th', fresh, hm, ha⟩ | ⟨r, F, next, -, -, hw⟩ := h.activity ht
  · obtain hsame | ⟨i, a, F, next, hbefore, hafter, hw⟩ := hm.cached
    · rw [hsame, hold]
    · have hat := (activity_eq ht).trans hbefore
      have hne : s.entry ≠ a.entry := by
        refine hc.kept_entry_ne hl hat (u := u) ?_
        split
        · next hut =>
          rw [hut, ha, hafter] at hk
          exact hk
        · next hut =>
          obtain hb | ⟨b, owner, G, next, ho, hn⟩ := (h.beside hut).activity
          · exact hb ▸ hk
          · rw [hn] at hk
            exact ho ▸ hk
      rw [hw, World.cached_setCache, if_neg (fun hh => hne hh.1.symm), hold]
  · rw [hw, hold]

theorem Reachable.pristine (h : m.Reachable I) : m.Pristine :=
  h.induct (fun _ hf u s hs => by rw [hf.activity] at hs; cases hs)
    (fun _ _ _ hr hp hs => hp.step hr.consistent hr.located hs)

end Machine

end Wiring
