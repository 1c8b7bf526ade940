import Wiring.Config.Text
import Wiring.Proofs.Advance

namespace Wiring

variable {C : Client} {α β : Type}

theorem Pairs.mem_assign [DecidableEq α] {k : α} {v : β} {p : α × β} {l : List (α × β)}
    (h : p ∈ assign k v l) : p = (k, v) ∨ p ∈ l := by
  induction l with
  | nil => exact .inl (List.mem_singleton.1 h)
  | cons q rest ih => grind [assign]

namespace Yaml.Reading

def Gives (P : α → Prop) (x : Reading α) : Prop := ∀ n a n', x.run n = .ok (a, n') → P a

theorem Gives.pure {P : α → Prop} {a : α} (h : P a) : Gives P (pure a) := by
  intro n b n' hb
  cases hb
  exact h

theorem Gives.bind {P : β → Prop} {Q : α → Prop} {x : Reading α} {f : α → Reading β}
    (hx : Gives Q x) (hf : ∀ a, Q a → Gives P (f a)) : Gives P (x >>= f) := by
  intro n b n' hb
  rw [StateT.run_bind] at hb
  cases h : x.run n with
  | error e => rw [h] at hb; cases hb
  | ok a =>
    rw [h] at hb
    exact hf a.1 (hx n a.1 a.2 h) _ _ _ hb

theorem Gives.any (x : Reading α) : Gives (fun _ => True) x := fun _ _ _ _ => trivial

theorem Gives.problem {P : α → Prop} (path : Path) (p : Problem) :
    Gives P (Reading.problem path p) := by
  intro n a n' h
  cases h

theorem pairs_mapping (d : Document) (depth : ℕ) (path : Path) (expected : String)
    (p : Properties) (l : List (Node Nat × Node Nat)) :
    pairs d (depth + 1) path expected (.mapping p l) = pure (l, depth) := rfl

end Yaml.Reading

namespace Config

open Yaml (Reading Document Node Path)
open Yaml.Reading (Gives)

def Each (P : String → Entry → Prop) (t : Table String Entry) : Prop := ∀ p ∈ t.entries, P p.1 p.2

def Named (t : Table String Entry) : Prop := Each (fun name e => e.name = name) t

variable {d : Document} {depth : Nat} {path : Path} {t : Table String Entry}
  {P : String → Entry → Prop}

section

variable (hP : ∀ depth path name n, Gives (P name) (readEntry d depth path name n))

include hP

theorem readEntries_each (pairs : List (Node Nat × Node Nat)) (ht : Each P t) :
    Gives (Each P) (readEntries d depth path t pairs) := by
  induction pairs generalizing t with
  | nil => exact .pure ht
  | cons p rest ih =>
    refine .bind (.any _) fun name _ => .bind (hP _ _ name p.2) fun e he => ih ?_
    intro q hq
    obtain rfl | hq := Pairs.mem_assign hq
    · exact he
    · exact ht q hq

theorem readRoot_each (pairs : List (Node Nat × Node Nat)) {found : Option (Table String Entry)}
    (hf : ∀ t, found = some t → Each P t) :
    Gives (fun r => ∀ t, r = some t → Each P t) (readRoot d depth found pairs) := by
  induction pairs generalizing found with
  | nil => exact .pure hf
  | cons p rest ih =>
    refine .bind (.any _) fun name _ => ?_
    have hservices : Gives (Each P) (readServices d depth [Reading.stepOf p.1] p.2) :=
      .bind (.any _) fun q _ => readEntries_each hP q.1 nofun
    have hnext : Gives (fun r => ∀ t, r = some t → Each P t)
        (readServices d depth [Reading.stepOf p.1] p.2 >>=
          fun t => readRoot d depth (some t) rest) :=
      hservices.bind fun t ht => ih fun u hu => Option.some.inj hu ▸ ht
    dsimp only
    split
    · split
      · exact .bind (Q := fun _ => False) (.problem [] _) fun _ h => h.elim
      · exact hnext
    · exact .problem [] _

theorem readDocument_each : Gives (Each P) (readDocument d) := by
  unfold readDocument
  split
  · exact .pure nofun
  · refine .bind (.any _) fun p _ => .bind (readRoot_each hP p.1 nofun) fun r hr => .pure ?_
    cases r with
    | none => exact nofun
    | some t => exact hr t rfl

end

theorem readEntry_named (name : String) (n : Node Nat) :
    Gives (·.name = name) (readEntry d depth path name n) := by
  refine .bind (.any _) fun p _ => .bind (.any _) fun f _ => ?_
  cases f.value with
  | none => exact .problem _ _
  | some value => exact .pure rfl

theorem readDocument_named : Gives Named (readDocument d) :=
  readDocument_each fun _ _ => readEntry_named

theorem sortEntries_sorted (t : Table String Entry) :
    (sortEntries t).Pairwise (·.name ≤ ·.name) := by
  have htrans : ∀ a b c : Entry, decide (a.name ≤ b.name) = true → decide (b.name ≤ c.name) = true →
      decide (a.name ≤ c.name) = true := fun a b c hab hbc =>
    decide_eq_true (String.le_trans (of_decide_eq_true hab) (of_decide_eq_true hbc))
  have htotal : ∀ a b : Entry, (decide (a.name ≤ b.name) || decide (b.name ≤ a.name)) = true := by
    intro a b
    simpa using String.le_total a.name b.name
  exact (List.pairwise_mergeSort htrans htotal _).imp of_decide_eq_true

theorem sortEntries_nodup (ht : Named t) : ((sortEntries t).map (·.name)).Nodup := by
  have hp : ((sortEntries t).map (·.name)).Perm ((t.entries.map Prod.snd).map (·.name)) :=
    (List.mergeSort_perm _ _).map _
  have hkeys : (t.entries.map Prod.snd).map (·.name) = t.entries.map Prod.fst := by
    rw [List.map_map]
    exact List.map_congr_left fun p hp => ht p hp
  exact hp.nodup_iff.2 (hkeys ▸ t.distinct)

theorem ofText_read {text : String} {entries : List Entry} (h : ofText text = .ok entries) :
    ∃ d t n, (readDocument d).run 0 = .ok (t, n) ∧ entries = sortEntries t := by
  unfold ofText at h
  split at h
  · next l hread =>
    cases h
    unfold read at hread
    split at hread
    · cases hread
    · next d _ =>
      change Except.map sortEntries (Except.map Prod.fst ((readDocument d).run 0)) = .ok _ at hread
      cases hrun : (readDocument d).run 0 with
      | error f => rw [hrun] at hread; cases hread
      | ok r =>
        rw [hrun] at hread
        cases hread
        exact ⟨d, r.1, r.2, hrun, rfl⟩
  · cases h

/-- What the parser reads are services of distinct names, in the order of these names. -/
structure Parser.Orderly (parse : Parser) : Prop where
  distinct {text : String} {entries : List Entry} (h : parse text = .ok entries) :
    (entries.map (·.name)).Nodup
  sorted {text : String} {entries : List Entry} (h : parse text = .ok entries) :
    entries.Pairwise (·.name ≤ ·.name)

theorem ofText_orderly : ofText.Orderly where
  distinct h := by
    obtain ⟨d, t, n, hrun, rfl⟩ := ofText_read h
    exact sortEntries_nodup (readDocument_named 0 t n hrun)
  sorted h := by
    obtain ⟨d, t, n, hrun, rfl⟩ := ofText_read h
    exact sortEntries_sorted t

theorem empty_first {entries : List Entry} (hs : entries.Pairwise (·.name ≤ ·.name))
    (h : "" ∈ entries.map (·.name)) : ∃ e rest, entries = e :: rest ∧ e.name = "" := by
  cases entries with
  | nil => cases h
  | cons e rest =>
    refine ⟨e, rest, rfl, String.le_antisymm ?_ ?_⟩
    · obtain ⟨a, ha, hname⟩ := List.mem_map.1 h
      obtain rfl | ha := List.mem_cons.1 ha
      · exact hname ▸ String.le_refl _
      · exact hname ▸ (List.pairwise_cons.1 hs).1 a ha
    · show ¬ e.name < ""
      rw [String.lt_iff]
      simp

end Config

def Action.alone (w : World C) : (a : Action C) → Option (a.Reply × World C)
  | .insert c name r => some (((w.services c).contains name : Bool), w.insert c name r)
  | .allocate type v => some (w.allocate type v)
  | .emit _ => some ((), w)
  | _ => none

def Program.alone : Program C α → World C → Option (Except Failure α × World C)
  | .done a, w => some (.ok a, w)
  | .fail e, w => some (.error (.error e), w)
  | .crash message, w => some (.error (.crash message), w)
  | .act a next, w => (a.alone w).bind fun (r, w') => (next r).alone w'
  | .call .., _ => none
  | .resolve .., _ => none

theorem Program.alone_bind {p : Program C α} {w w' : World C} {a : α}
    (h : p.alone w = some (.ok a, w')) (f : α → Program C β) :
    (p.bind f).alone w = (f a).alone w' := by
  induction p generalizing w with
  | done b => cases h; rfl
  | fail e => cases h
  | crash s => cases h
  | act b next ih =>
    obtain ⟨⟨r, w₁⟩, hb, hnext⟩ := Option.bind_eq_some_iff.1 h
    simp only [Program.bind, alone, hb, Option.bind_some]
    exact ih r hnext
  | call k next ih => cases h
  | resolve g next ih => cases h

theorem Action.alone_performs {I : Implementation C} {m : Machine C} {t : ThreadId} (th : Thread C)
    {a : Action C} {r : a.Reply} {w : World C} (h : a.alone m.world = some (r, w)) :
    ∃ m', m.perform I t th a = some (r, m') ∧ m'.world = w := by
  cases a <;> cases h <;> exact ⟨_, rfl, rfl⟩

def World.Grounded (w : World C) : Prop :=
  ∀ c name e, (w.services c).get? name = some e → e < w.entries.length

namespace Config

def place (c : ContainerId) (w : World C) (e : Entry) : World C :=
  let (i, w) := w.allocate (literal e.value).1 (literal e.value).2
  w.insert c e.name ⟨e.shared, .literal i true⟩

structure Placed (c : ContainerId) (entries : List Entry) (w w' : World C) : Prop where
  registered {e : Entry} (h : e ∈ entries) : ∃ n object,
    w'.entry? c e.name =
      some (n, ⟨⟨e.shared, .literal ⟨(literal e.value).1, object⟩ true⟩, none⟩) ∧
    w.entries.length ≤ n ∧ w'.objects[object]? = some (literal e.value).2
  others {d : ContainerId} {name : String} (h : d = c → name ∉ entries.map (·.name)) :
    w'.entry? d name = w.entry? d name
  rest : w' =
    { w with containers := w'.containers, entries := w'.entries, objects := w'.objects }
  size : w'.containers.length = w.containers.length
  older : w.entries <+: w'.entries
  objects : w.objects <+: w'.objects

variable {c d : ContainerId} {w : World C} {e : Entry} {entries : List Entry} {name : String}

theorem place_grounded (h : w.Grounded) : (place c w e).Grounded := by
  intro d name n hn
  have hlen : (place c w e).entries.length = w.entries.length + 1 := by
    simp [place, World.insert, World.setServices, World.allocate]
  rw [place, World.get?_insert] at hn
  split at hn
  · cases hn
    rw [hlen]
    exact Nat.lt_succ_self _
  · rw [hlen]
    exact Nat.lt_succ_of_lt (h d name n hn)

theorem entry?_place (hc : c < w.containers.length) (h : w.Grounded) :
    World.entry? (place c w e) d name = if (c, e.name) = (d, name) then
        some (w.entries.length,
          ⟨⟨e.shared, .literal ⟨(literal e.value).1, w.objects.length⟩ true⟩, none⟩)
      else w.entry? d name := by
  split
  · next he =>
    refine World.entry?_eq_some.2 ⟨?_, List.getElem?_concat_length⟩
    exact (World.get?_insert _ _ _ _ _ _).trans (if_pos ⟨he, hc⟩)
  · next hne =>
    have hs : ((place c w e).services d).get? name = (w.services d).get? name :=
      (World.get?_insert _ _ _ _ _ _).trans (if_neg fun h => hne h.1)
    simp only [World.entry?, hs]
    cases hn : (w.services d).get? name with
    | none => rfl
    | some n =>
      have hlt := h d name n hn
      have he : (place c w e).entries[n]? = w.entries[n]? := List.getElem?_append_left hlt
      simp only [Option.bind_eq_bind, Option.bind_some, he]

theorem placed (hc : c < w.containers.length) (h : w.Grounded)
    (hn : (entries.map (·.name)).Nodup) : Placed c entries w (entries.foldl (place c) w) := by
  induction entries generalizing w with
  | nil => exact ⟨nofun, fun _ => rfl, rfl, rfl, List.prefix_rfl, List.prefix_rfl⟩
  | cons e rest ih =>
    obtain ⟨he, hn⟩ := List.nodup_cons.1 hn
    have hsize : (place c w e).containers.length = w.containers.length := List.length_set
    have ih := ih (w := place c w e) (hsize ▸ hc) (place_grounded h) hn
    have holder : w.entries <+: (place c w e).entries := List.prefix_append _ _
    have hobjects : w.objects <+: (place c w e).objects := List.prefix_append _ _
    refine ⟨?_, ?_, ?_, ih.size.trans hsize, holder.trans ih.older, hobjects.trans ih.objects⟩
    · intro a ha
      obtain rfl | ha := List.mem_cons.1 ha
      · refine ⟨w.entries.length, w.objects.length, ?_, Nat.le_refl _, ?_⟩
        · rw [List.foldl_cons, ih.others fun _ => he, entry?_place hc h, if_pos rfl]
        · have hnew : (place c w a).objects[w.objects.length]? = some (literal a.value).2 :=
            List.getElem?_concat_length
          obtain ⟨later, hlater⟩ := ih.objects
          rw [List.foldl_cons, ← hlater, List.getElem?_append_left, hnew]
          exact (List.getElem?_eq_some_iff.1 hnew).1
      · obtain ⟨n, object, hentry, hn, hobject⟩ := ih.registered ha
        exact ⟨n, object, hentry, Nat.le_trans holder.length_le hn, hobject⟩
    · intro d name hout
      rw [List.foldl_cons, ih.others fun hd hm => hout hd (List.mem_cons_of_mem _ hm),
        entry?_place hc h, if_neg]
      rintro hsame
      obtain ⟨rfl, rfl⟩ := Prod.mk.inj hsame
      exact hout rfl List.mem_cons_self
    · rw [List.foldl_cons, ih.rest]
      rfl

theorem register_alone {r : Registration C} (hname : name ≠ "") :
    (Container.register c name r).alone w = some (.ok (), w.insert c name r) := by
  unfold Container.register
  rw [if_neg hname]
  show Program.alone (if _ then _ else _) _ = _
  split <;> rfl

theorem registerAll_alone (h : "" ∉ entries.map (·.name)) :
    (registerAll c entries).alone w = some (.ok (), entries.foldl (place c) w) := by
  induction entries generalizing w with
  | nil => rfl
  | cons e rest ih =>
    have hname : e.name ≠ "" := fun he => h (he ▸ List.mem_cons_self)
    have hreg := register_alone (c := c)
      (w := (w.allocate (literal e.value).1 (literal e.value).2).2)
      (r := ⟨e.shared, .literal (w.allocate (literal e.value).1 (literal e.value).2).1 true⟩) hname
    calc (registerAll c (e :: rest)).alone w = (registerAll c rest).alone (place c w e) :=
          Program.alone_bind hreg _
      _ = _ := ih fun hm => h (List.mem_cons_of_mem _ hm)

inductive Source
  | text (s : String)
  | file (f : File)

namespace Source

variable (parse : Parser)

def configuration : Source → Except Error (List Entry)
  | text s => parse s
  | file f => f.text.bind parse

def load (c : ContainerId) : Source → Program C Nat
  | text s => Config.load parse c s
  | file f => loadFile parse c f

def Refused (s : Source) (e : Error) : Prop :=
  s.configuration parse = .error e ∨ e = .emptyServiceName ∧
    ∃ entries, s.configuration parse = .ok entries ∧ "" ∈ entries.map (·.name)

/-- How the loading of a configuration ends: all of it is registered, or nothing is. -/
inductive Loads (s : Source) (c : ContainerId) (w : World C) :
    Except Failure Nat → World C → Prop
  | refused {e w'} (h : s.Refused parse e) (hw : w' = { w with objects := w'.objects })
      (ho : w.objects <+: w'.objects) : Loads s c w (.error (.error e)) w'
  | placed {entries w'} (h : s.configuration parse = .ok entries)
      (hn : (entries.map (·.name)).Nodup) (hp : Placed c entries w w') :
      Loads s c w (.ok entries.length) w'

end Source

variable {parse : Parser}

theorem apply_alone (s : Source) (hc : c < w.containers.length) (h : w.Grounded)
    (hs : s.configuration parse = .ok entries) (hn : (entries.map (·.name)).Nodup)
    (hsorted : entries.Pairwise (·.name ≤ ·.name)) :
    ∃ r w', (apply c entries).alone w = some (r, w') ∧ s.Loads parse c w r w' := by
  by_cases hempty : "" ∈ entries.map (·.name)
  · obtain ⟨e, rest, rfl, he⟩ := empty_first hsorted hempty
    refine ⟨.error (.error .emptyServiceName),
      (w.allocate (literal e.value).1 (literal e.value).2).2, ?_, ?_⟩
    · simp only [apply, registerAll, Container.register, he, if_pos]
      rfl
    · exact .refused (.inr ⟨rfl, _, hs, hempty⟩) rfl (List.prefix_append _ _)
  · refine ⟨.ok entries.length, entries.foldl (place c) w, ?_, .placed hs hn (placed hc h hn)⟩
    exact Program.alone_bind (registerAll_alone hempty) _

theorem load_alone (hparse : parse.Orderly) (s : Source) (hc : c < w.containers.length)
    (h : w.Grounded) :
    ∃ r w', (s.load parse c).alone w = some (r, w') ∧ s.Loads parse c w r w' := by
  have hrefused : ∀ e, s.configuration parse = .error e →
      s.Loads parse c w (.error (.error e)) w := fun e he => .refused (.inl he) rfl List.prefix_rfl
  have hload : ∀ text, s.configuration parse = parse text →
      ∃ r w', (Config.load parse c text : Program C Nat).alone w = some (r, w') ∧
        s.Loads parse c w r w' := by
    intro text hs
    cases ht : parse text with
    | error e =>
      refine ⟨_, _, ?_, hrefused e (hs.trans ht)⟩
      simp only [Config.load, ht]
      rfl
    | ok entries =>
      obtain ⟨r, w', ha, hl⟩ :=
        apply_alone s hc h (hs.trans ht) (hparse.distinct ht) (hparse.sorted ht)
      refine ⟨r, w', ?_, hl⟩
      simp only [Config.load, ht]
      exact ha
  cases s with
  | text text => exact hload text rfl
  | file f =>
    cases hf : f.text with
    | error e =>
      refine ⟨_, _, ?_, hrefused e (by rw [Source.configuration, hf]; rfl)⟩
      simp only [Source.load, loadFile, hf]
      rfl
    | ok text =>
      obtain ⟨r, w', ha, hl⟩ := hload text (by rw [Source.configuration, hf]; rfl)
      refine ⟨r, w', ?_, hl⟩
      simp only [Source.load, loadFile, hf]
      exact ha

end Config

theorem Machine.Reachable.grounded {I : Implementation C} {m : Machine C} (h : m.Reachable I) :
    m.world.Grounded := by
  obtain ⟨place, hplace, -⟩ := h.located
  exact fun c name e he => (hplace c name e he).1

namespace Run

variable {I : Implementation C} {σ : Run I} {t : ThreadId} {L : Scope C}
  {rest : α → Program C L.Answer} {p q : Program C α} {b n : ℕ}

theorem Proceeds.leads_alone {r : Except Failure α} {w : World C}
    (h : σ.Proceeds t L rest p b q n) (hq : q.alone (σ.state n).world = some (r, w)) :
    σ.Leads t (σ.UnderWay t L rest p b)
      (fun k => σ.Ends t L rest p b r k ∧ (σ.state k).world = w) n := by
  induction q generalizing n with
  | done a => cases hq; exact .there ⟨.itself h, rfl⟩
  | fail e => cases hq; exact .there ⟨.itself h, rfl⟩
  | crash s => cases hq; exact .there ⟨.itself h, rfl⟩
  | act a next ih =>
    obtain ⟨⟨r', w'⟩, ha, hnext⟩ := Option.bind_eq_some_iff.1 hq
    have hperf := fun th => Action.alone_performs (I := I) (t := t) th ha
    refine .act h (fun k _ _ hk => .runs hk) (fun th => ?_) fun k th r'' m hk ht hp hw _ h' => ?_
    · obtain ⟨m', hm', -⟩ := hperf th
      rw [hm']
      rfl
    · obtain ⟨m', hm', hw'⟩ := hperf th
      cases hp.symm.trans hm'
      exact ih r' h' (by rw [hw, hw']; exact hnext)
  | call k next ih => cases hq
  | resolve g next ih => cases hq

/-- A configuration that a thread loads while nobody else takes a step is registered as a whole, or
everything stays as it was, whatever parser reads it. The load goes on without being held up, and it
comes to its end if the thread is not passed over for ever. -/
theorem load_all_or_nothing (σ : Run I) {parse : Config.Parser} (hparse : parse.Orderly)
    (t : ThreadId) (L : Scope C) (rest : Nat → Program C L.Answer) (s : Config.Source)
    (c : ContainerId) (n : ℕ) (hc : c < (σ.state n).world.containers.length)
    (ha : (σ.state n).activity t = L.runs ((s.load parse c).bind rest)) :
    ∃ r w, s.Loads parse c (σ.state n).world r w ∧
      (∀ k, n ≤ k → σ.Alone t n k →
        (∃ l, n ≤ l ∧ l ≤ k ∧ σ.Ends t L rest (s.load parse c) n r l ∧ (σ.state l).world = w) ∨
          σ.UnderWay t L rest (s.load parse c) n k ∧ ((σ.state k).step I t).isSome) ∧
      (σ.Attends t →
        (∀ j u, σ.UnderWay t L rest (s.load parse c) n j → σ.mover j = some u → u = t) →
        ∃ l, n ≤ l ∧ σ.Ends t L rest (s.load parse c) n r l ∧ (σ.state l).world = w) := by
  obtain ⟨r, w, halone, hl⟩ := Config.load_alone hparse s hc (σ.reachable n).grounded
  have hleads := (Proceeds.begins ha : σ.Proceeds t L rest _ n _ n).leads_alone halone
  refine ⟨r, w, hl, fun k hk hown => ?_, fun hfair hown => ?_⟩
  · obtain ⟨l, hn, hlk, ⟨he, hw⟩, -⟩ | ⟨hway, hs⟩ :=
      hleads.arrived_or_onWay hk fun j u hj hjk _ => hown j u hj hjk
    · exact .inl ⟨l, hn, hlk, he, hw⟩
    · exact .inr ⟨hway k hk (Nat.le_refl k), hs⟩
  · obtain ⟨l, hn, ⟨he, hw⟩, -⟩ := hleads.arrives hfair fun j u _ => hown j u
    exact ⟨l, hn, he, hw⟩

def settlementText : String := "services: {b: {value: x, shared: false}, a: {value: 1}}"

def settlement : Config.Source := .text settlementText

section

open Config Yaml

def word (s : String) : Node Nat := .scalar {} .plain s

def settlementNode : Node Nat :=
  .mapping {} [(word "services", .mapping {} [
    (word "b", .mapping {} [(word "value", word "x"), (word "shared", word "false")]),
    (word "a", .mapping {} [(word "value", word "1")])])]

theorem document?_settlement :
    ∃ size anchored, document? settlementText = some ⟨some settlementNode, size, anchored⟩ := by
  have htokens : tokens? settlementText = some [.blockMappingStart,
      .key, .scalar .plain "services", .value, .flowMappingStart,
      .key, .scalar .plain "b", .value, .flowMappingStart,
      .key, .scalar .plain "value", .value, .scalar .plain "x", .flowEntry,
      .key, .scalar .plain "shared", .value, .scalar .plain "false", .flowMappingEnd, .flowEntry,
      .key, .scalar .plain "a", .value, .flowMappingStart,
      .key, .scalar .plain "value", .value, .scalar .plain "1", .flowMappingEnd,
      .flowMappingEnd, .blockEnd, .streamEnd] := by
    decide +kernel
  unfold document?
  rw [htokens]
  exact ⟨_, _, rfl⟩

def settlementTable : Table String Config.Entry :=
  (Table.insert ∅ "b" ⟨"b", .text "x", false⟩).insert "a" ⟨"a", .integer 1, true⟩

theorem readDocument_settlement (size : ℕ) (anchored : ℕ → Option (Node Nat)) :
    readDocument ⟨some settlementNode, size, anchored⟩ = pure settlementTable := by
  have htext (d path expected s) : Reading.text d path expected (word s) = pure s := rfl
  have hfalse (d path) : Reading.boolean d path (word "false") = pure false := rfl
  have hx (d depth path) : Reading.tree d depth path (word "x") = pure (.text "x") := by
    unfold Reading.tree
    rfl
  have hone (d depth path) : Reading.tree d depth path (word "1") = pure (.integer 1) := by
    unfold Reading.tree
    rfl
  simp [settlementNode, settlementTable, readDocument, readRoot, readServices, readEntries,
    readEntry, readFields, depthLimit, Reading.pairs_mapping, htext, hfalse, hx, hone]

theorem settlement_read :
    settlement.configuration ofText =
      .ok [⟨"a", .integer 1, true⟩, ⟨"b", .text "x", false⟩] := by
  obtain ⟨size, anchored, hd⟩ := document?_settlement
  have hread : Config.read settlementText = .ok (sortEntries settlementTable) := by
    unfold Config.read
    rw [hd]
    dsimp only
    rw [readDocument_settlement]
    rfl
  have hsorted : sortEntries settlementTable =
      [⟨"a", .integer 1, true⟩, ⟨"b", .text "x", false⟩] := by
    change List.mergeSort [_, _] _ = _
    simp [List.mergeSort]
  unfold settlement Source.configuration ofText
  dsimp only
  rw [hread, hsorted]

end

def settling : Run Implementation.plain :=
  along ⟨.ofServices () [("a", ⟨true, .made (.of "A") [] ()⟩)],
    [{ todo := [(Container.get 0 "a").bind fun _ => .done (),
        (settlement.load Config.ofText 0).bind fun _ => .done ()] }]⟩
    { world := World.ofServices_unbuilt _ _
      threads := fun h => by rw [List.mem_singleton.1 h]; exact ⟨rfl, rfl, rfl⟩ } fun _ => 0

theorem load_all_or_nothing_settling :
    (settling.state 19).world.entry? 0 "a" =
        some (0, ⟨⟨true, .made (.of "A") [] ()⟩, some ⟨.of "A", 0⟩⟩) ∧
      ∃ l, settling.Ends 0 .own (fun _ => .done ()) (settlement.load Config.ofText 0) 19 (.ok 2) l ∧
        ∃ n object, (settling.state l).world.entry? 0 "a" =
          some (n, ⟨⟨true, .literal ⟨.i64, object⟩ true⟩, none⟩) := by
  obtain ⟨r, w, hl, -, hends⟩ := load_all_or_nothing settling Config.ofText_orderly 0 .own
    (fun _ => .done ()) settlement 0 19 (by decide +kernel) rfl
  refine ⟨rfl, ?_⟩
  obtain ⟨l, -, he, hw⟩ := hends (along_attends _ _ _) fun j u _ hm => along_mover hm
  cases hl with
  | refused h _ _ =>
    obtain h | ⟨-, entries, h, hempty⟩ := h
    · cases settlement_read.symm.trans h
    · cases settlement_read.symm.trans h
      simp at hempty
  | placed h _ hp =>
    cases settlement_read.symm.trans h
    obtain ⟨n, object, hentry, -, -⟩ := hp.registered List.mem_cons_self
    exact ⟨l, he, n, object, hw ▸ hentry⟩

end Run

end Wiring
