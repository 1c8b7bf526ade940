import Wiring.Proofs.Functional
import Wiring.Proofs.Series

namespace Wiring

open Machine
open Relation (ReflTransGen TransGen)

variable {C : Client} {I : Implementation C} {M : Meanings C} {w : World C} {c : ContainerId}
  {tell : Instance → C.Report} {name : String} {names : List String} {S : List Item} {x : Item}

def Meanings.Functional.contract (hF : M.Functional I w c) (hM : M.Apart w c)
    (hD : (M.scheme w c).Distinct) : Contract I w c where
  toGrowth := Growth.appends
  arises S x := (∀ y ∈ S, TransGen (M.scheme w c).Needs y x) ∧
    ∀ type, x = .class type → M.Uses w c type
  asks := (M.scheme w c).Asks c
  fair S x := (M.scheme w c).Meets c S (.target x)
  built S name := (M.scheme w c).Meets c S (.target (.service name))
  kept _ := True
  made name i o := ∃ d, (M.scheme w c).Makes c (.service name) d ∧ i.Shows o d
  stays _ _ _ _ ho h := h.mono ho
  endures ho h := h.mono ho
  lasts := by
    rintro name i o o' ho ⟨d, hd, hi⟩
    exact ⟨d, hd, hi.mono ho⟩
  asked := by
    rintro S x y ⟨hS, -⟩ hx hy
    have hneeds := hy.needs
    refine ⟨fun z hz => ?_, fun type hy => .inr ⟨x, hy ▸ hneeds⟩⟩
    obtain _ | ⟨_, hz⟩ := hz
    · exact .single hneeds
    · exact (hS z hz).tail hneeds
  missing he h := Meanings.missing he h.1
  hit := by
    rintro S name i o ⟨hS, -⟩ ⟨d, hd, hi⟩
    exact ⟨.ok d, hd.comes hD hS, hi⟩
  plain _ h := h
  fails h := h
  keep _ _ h := by
    obtain ⟨d, hd, hi⟩ := h.of_ok
    exact ⟨d, ⟨_, hd⟩, hi⟩
  build he h hx ho := hF.build hM he ho h.1 hx
  construction h hx ho := hF.construction hM (h.2 _ rfl) ho h.1 hx

section

variable (hF : M.Functional I w c) (hM : M.Apart w c) (hD : (M.scheme w c).Distinct)

theorem Meanings.Functional.rooted : (hF.contract hM hD).Rooted :=
  fun _ => ⟨by rintro _ ⟨⟩, by rintro _ ⟨⟩⟩

theorem Meanings.Functional.solitary : (hF.contract hM hD).Solitary where
  again _ hc := ⟨_, Scheme.Comes.again hc, rfl⟩
  kept _ := trivial

end

theorem Scheme.Ends.answers (hF : M.Functional I w c) (hM : M.Apart w c)
    (hD : (M.scheme w c).Distinct) (hu : w.Unbuilt)
    (h : (M.scheme w c).Ends c S x) (hx : (hF.contract hM hD).arises S x) (b : ℕ) :
    Answers (hF.contract hM hD) (fun _ => False) b S x := by
  induction h generalizing b with
  | again hbarred => exact .of_children (hF.solitary hM hD) hu hx fun hn => absurd hbarred hn
  | enter h ih => exact .of_children (hF.solitary hM hD) hu hx fun _ y hy hS => ih y hy hS _

def Machine.Outcome (I : Implementation C) (w : World C) (c : ContainerId)
    (tell : Instance → C.Report) (names : List String) (k : ℕ) (outcome : Except Failure C.Report)
    (o : List Value) : Prop :=
  ∃ m th record, Reaches I (requests w c tell [names]) m ∧ m.threads = [th] ∧
    th.records[k]? = some record ∧ record.outcome = outcome ∧ m.world.objects = o

def Alike (tell : Instance → C.Report) (outcome : Except Failure C.Report) (o : List Value)
    (outcome' : Except Failure C.Report) (o' : List Value) : Prop :=
  (∃ f, outcome = .error f ∧ outcome' = .error f) ∨
    ∃ i i' d, outcome = .ok (tell i) ∧ outcome' = .ok (tell i') ∧ i.Shows o d ∧ i'.Shows o' d

theorem Foretold.alike {o o' : List Value} {d : Except Failure Datum}
    {r r' : Except Failure Instance} (h : Foretold (Instance.Shows o) d r)
    (h' : Foretold (Instance.Shows o') d r') : Alike tell (r.map tell) o (r'.map tell) o' := by
  cases d with
  | error f =>
    cases Foretold.error_left.1 h
    cases Foretold.error_left.1 h'
    exact .inl ⟨f, rfl, rfl⟩
  | ok d =>
    obtain ⟨i, rfl, hi⟩ := Foretold.ok_left.1 h
    obtain ⟨i', rfl, hi'⟩ := Foretold.ok_left.1 h'
    exact .inr ⟨i, i', d, rfl, rfl, hi, hi'⟩

namespace Meanings.Functional

variable (hF : M.Functional I w c) (hM : M.Apart w c) (hD : (M.scheme w c).Distinct)
  (hu : w.Unbuilt)

include hF hM hD hu

theorem outcome_tells {k : ℕ} {outcome : Except Failure C.Report} {o : List Value}
    (h : Outcome I w c tell names k outcome o) :
    ∃ name, names[k]? = some name ∧ (hF.contract hM hD).Tells tell name outcome o := by
  obtain ⟨m, th, record, hreach, ht, hk, rfl, rfl⟩ := h
  obtain ⟨n, hn⟩ := hreach.takes
  have hsolo := requests_solo (hF.contract hM hD) hu tell names
  obtain ⟨th', new, ht', hr, -, hall⟩ := hsolo.told (hF.solitary hM hD) (hF.rooted hM hD) hu rfl hn
  cases ht.symm.trans ht'
  rw [hr] at hk
  exact hall k record hk

theorem exists_outcome (hends : ∀ name ∈ names, (M.scheme w c).Ends c [] (.service name))
    {k : ℕ} (hk : k < names.length) : ∃ outcome o, Outcome I w c tell names k outcome o := by
  have hsolo := requests_solo (hF.contract hM hD) hu tell names
  have htodo : names.map (Container.ask c tell) = (names ++ []).map (Container.ask c tell) := by
    rw [List.append_nil]
  rw [htodo] at hsolo
  obtain ⟨m, th, records, hreach, -, h, hlen⟩ := hsolo.answered names [] rfl fun n hn =>
    (hends n hn).answers hF hM hD hu (hF.rooted hM hD n) 2
  have hk : k < th.records.length := by
    rw [h.records, hlen, List.length_nil]
    omega
  exact ⟨_, _, m, th, th.records[k], hreach, h.threads, List.getElem?_eq_getElem hk, rfl, rfl⟩

theorem ends_of_outcome {k : ℕ} {outcome : Except Failure C.Report} {o : List Value}
    (h : Outcome I w c tell names k outcome o) (hk : names[k]? = some name) :
    (M.scheme w c).Ends c [] (.service name) := by
  obtain ⟨n, hn, r, ⟨r', hr', -⟩, -⟩ := hF.outcome_tells hM hD hu h
  cases hk.symm.trans hn
  exact Scheme.Comes.ends hr'

/-- After any earlier requests of a thread on its own, a request ends just as it does in the
untouched container. If the earlier requests have come to their ends, so does this one, provided it
does in the untouched container. Everything comes to its end if finitely many classes only have
anything injected. -/
theorem order_irrelevant (tell : Instance → C.Report) (history : List String) (name : String) :
    (∀ outcome o outcome' o',
      Outcome I w c tell (history ++ [name]) history.length outcome o →
        Outcome I w c tell [name] 0 outcome' o' → Alike tell outcome o outcome' o') ∧
      ((∀ k < history.length, ∃ outcome o,
        Outcome I w c tell (history ++ [name]) k outcome o) →
          ((∃ outcome o, Outcome I w c tell (history ++ [name]) history.length outcome o) ↔
            ∃ outcome o, Outcome I w c tell [name] 0 outcome o)) ∧
      ({type | ∃ y, (M.scheme w c).Needs (.class type) y}.Finite →
        (∀ k ≤ history.length, ∃ outcome o,
          Outcome I w c tell (history ++ [name]) k outcome o) ∧
            ∃ outcome o, Outcome I w c tell [name] 0 outcome o) := by
  have hlast : (history ++ [name])[history.length]? = some name := List.getElem?_concat_length
  refine ⟨fun outcome o outcome' o' h h' => ?_, fun hall => ⟨?_, ?_⟩, fun hfin => ⟨?_, ?_⟩⟩
  · obtain ⟨n, hn, r, ⟨d, hd, hr⟩, rfl⟩ := hF.outcome_tells hM hD hu h
    obtain ⟨n', hn', r', ⟨d', hd', hr'⟩, rfl⟩ := hF.outcome_tells hM hD hu h'
    cases hlast.symm.trans hn
    cases hn'
    cases Scheme.Comes.unique hd hd'
    exact hr.alike hr'
  · rintro ⟨outcome, o, h⟩
    refine hF.exists_outcome hM hD hu (fun n hn => ?_) Nat.one_pos
    rw [List.mem_singleton.1 hn]
    exact hF.ends_of_outcome hM hD hu h hlast
  · rintro ⟨outcome, o, h⟩
    refine hF.exists_outcome hM hD hu (fun n hn => ?_) (by simp)
    obtain hn | hn := List.mem_append.1 hn
    · obtain ⟨k, hk, rfl⟩ := List.getElem_of_mem hn
      obtain ⟨outcome', o', h'⟩ := hall k hk
      refine hF.ends_of_outcome hM hD hu h' ?_
      rw [List.getElem?_append_left hk, List.getElem?_eq_getElem hk]
    · rw [List.mem_singleton.1 hn]
      exact hF.ends_of_outcome hM hD hu h rfl
  · exact fun k hk => hF.exists_outcome hM hD hu
      (fun n _ => Scheme.ends_of_finite (Meanings.needs_finite hfin) _ _) (by simp; omega)
  · exact hF.exists_outcome hM hD hu
      (fun n _ => Scheme.ends_of_finite (Meanings.needs_finite hfin) _ _) Nat.one_pos

end Meanings.Functional

abbrev Client.assembly : Client := ⟨Unit, Unit, Instance⟩

def Implementation.assembly : Implementation Client.assembly where
  make _ _ args := .done (.record args.values)
  give _ _ _ := .crash "nothing to give"
  manifest _ := (allocate (.of "Level") (.text "info")).bind fun i =>
    .done [⟨"level", .typed (.of "Level"), some i⟩]
  construct _ args := .done (.record args.values)
  job _ := .crash "no job"

def World.assembly : World Client.assembly :=
  { World.ofServices () [("port", ⟨false, .literal ⟨.i64, 0⟩ true⟩),
      ("server", ⟨true, .made (.of "Server")
        [⟨"port", .untyped, none⟩, ⟨"log", .autowired (.of "Log"), none⟩] ()⟩),
      ("app", ⟨true, .made (.of "App") [⟨"server", .typed (.of "Server"), none⟩] ()⟩)] with
    objects := [.integer 8080] }

def Meanings.assembly : Meanings Client.assembly where
  worth _ := ⟨.i64, .plain (.integer 8080)⟩
  wants _ := .ok [⟨"level", .typed (.of "Level"), some ⟨.of "Level", .plain (.text "info")⟩⟩]
  make _ _ data := .ok (.record (data.map Datum.field))
  give _ _ _ := .error (.crash "nothing to give")
  construct _ _ data := .ok (.record (data.map Datum.field))

theorem World.assembly_entry {name : String} {e : EntryId} {entry : Entry Client.assembly}
    (h : World.assembly.entry? 0 name = some (e, entry)) :
    name = "port" ∧ entry.registration = ⟨false, .literal ⟨.i64, 0⟩ true⟩ ∨
      name = "server" ∧ entry.registration = ⟨true, .made (.of "Server")
        [⟨"port", .untyped, none⟩, ⟨"log", .autowired (.of "Log"), none⟩] ()⟩ ∨
      name = "app" ∧ entry.registration =
        ⟨true, .made (.of "App") [⟨"server", .typed (.of "Server"), none⟩] ()⟩ := by
  have hmem := mem_ofServices (show World.entry? (ofServices () _) 0 name = some (e, entry) from h)
  simpa using hmem

theorem World.assembly_unbuilt : World.assembly.Unbuilt :=
  (Edit.of_eq rfl rfl rfl : Edit (ofServices () _) assembly).unbuilt (ofServices_unbuilt _ _)

theorem Meanings.assembly_functional :
    Meanings.assembly.Functional .assembly .assembly 0 where
  literal he hl := by
    obtain ⟨-, hr⟩ | ⟨-, hr⟩ | ⟨-, hr⟩ := World.assembly_entry he
    · rw [hr] at hl
      cases hl
      exact ⟨rfl, _, rfl, .plain (by rintro _ ⟨⟩)⟩
    · rw [hr] at hl
      cases hl
    · rw [hr] at hl
      cases hl
  default he hp hi := by
    obtain ⟨-, hr⟩ | ⟨-, hr⟩ | ⟨-, hr⟩ := World.assembly_entry he
    all_goals
      rw [hr] at hp
      simp only [Logic.listed, List.mem_cons, List.not_mem_nil, or_false] at hp
    · obtain rfl | rfl := hp <;> cases hi
    · subst hp
      cases hi
  manifest _ _ := by
    refine .call fun o₁ _ => .allocate (fun _ _ => List.prefix_append _ _) fun o₂ _ => ?_
    refine .done fun o₃ ho₃ => .cons ⟨rfl, rfl, .some ?_⟩ .nil
    exact (Instance.Shows.of_new (.plain (by rintro _ ⟨⟩)) _).mono ho₃
  make _ _ _ ha := .call fun _ ho => .done fun _ ho' => ha.record.mono (ho.trans ho')
  give _ _ _ _ := .call fun _ _ => .crash fun _ _ => rfl
  construct _ _ ha := .call fun _ ho => .done fun _ ho' => ha.record.mono (ho.trans ho')

theorem Meanings.assembly_wants {x : Item} {wants : List Want} {q : Want}
    (h : Meanings.assembly.signature .assembly 0 x = .ok wants) (hq : q ∈ wants) :
    q = ⟨"port", .untyped, none⟩ ∨ q = ⟨"log", .autowired (.of "Log"), none⟩ ∨
      q = ⟨"level", .typed (.of "Level"), some ⟨.of "Level", .plain (.text "info")⟩⟩ ∨
      x = .service "app" ∧ q = ⟨"server", .typed (.of "Server"), none⟩ := by
  cases x with
  | «class» type =>
    cases h
    exact .inr (.inr (.inl (List.mem_singleton.1 hq)))
  | service name =>
    cases he : World.assembly.entry? 0 name with
    | none =>
      simp only [signature, he] at h
      cases h
      cases hq
    | some found =>
      obtain ⟨e, entry⟩ := found
      simp only [signature, he] at h
      obtain ⟨rfl, hr⟩ | ⟨rfl, hr⟩ | ⟨rfl, hr⟩ := World.assembly_entry he
      all_goals
        rw [hr] at h
        cases h
      · cases hq
      · obtain hq | hq := List.mem_pair.1 hq
        · exact .inl hq
        · exact .inr (.inl hq)
      · exact .inr (.inr (.inr ⟨rfl, List.mem_singleton.1 hq⟩))

theorem Meanings.assembly_level :
    (Want.bare ⟨"level", .typed (.of "Level"), some ⟨.of "Level", .plain (.text "info")⟩⟩).rule
      World.assembly 0 [] = .unresolvable := by
  decide +kernel

theorem Meanings.assembly_apart : Meanings.assembly.Apart .assembly 0 := by
  have happ : ∀ x, ¬ (Meanings.assembly.scheme .assembly 0).Needs x (.service "app") := by
    intro x hx
    obtain ⟨wants, hw, q, hq, position, hs⟩ := needs_cases hx
    unfold Want.supply at hs
    obtain rfl | rfl | rfl | ⟨-, rfl⟩ := assembly_wants hw hq
    · have hrule : (Want.bare ⟨"port", .untyped, none⟩).rule World.assembly 0 [] = .named := by
        decide +kernel
      rw [hrule] at hs
      exact absurd (Supply.target.inj hs) (by decide)
    · have hrule : (Want.bare ⟨"log", .autowired (.of "Log"), none⟩).rule World.assembly 0 [] =
          .autowired (.of "Log") := by decide +kernel
      rw [hrule] at hs
      cases hs
    · rw [assembly_level] at hs
      cases hs
    · have hrule : (Want.bare ⟨"server", .typed (.of "Server"), none⟩).rule World.assembly 0 [] =
          .onlyOfType "server" := by decide +kernel
      rw [hrule] at hs
      exact absurd (Supply.target.inj hs) (by decide)
  intro name e entry x wants q type he hx hw hq ht
  have hdeclared : type ∈ [.of "Log", .of "Level"] ∨
      x = .service "app" ∧ type = .of "Server" := by
    obtain rfl | rfl | rfl | ⟨rfl, rfl⟩ := assembly_wants hw hq <;> cases ht
    · exact .inl (by simp)
    · exact .inl (by simp)
    · exact .inr ⟨rfl, rfl⟩
  intro hprovides
  obtain ⟨-, hr⟩ | ⟨rfl, hr⟩ | ⟨-, hr⟩ := World.assembly_entry he
  · have htype : type = .i64 := by rw [← hprovides, hr]; rfl
    rw [htype] at hdeclared
    exact absurd (hdeclared.imp_right And.right) (by decide)
  · have htype : type = .of "Server" := by rw [← hprovides, hr]; rfl
    rw [htype] at hdeclared
    obtain h | ⟨rfl, -⟩ := hdeclared
    · exact absurd h (by decide)
    · obtain h | ⟨z, -, hz⟩ := hx.cases_tail
      · exact absurd h (by decide)
      · exact happ z hz
  · have htype : type = .of "App" := by rw [← hprovides, hr]; rfl
    rw [htype] at hdeclared
    exact absurd (hdeclared.imp_right And.right) (by decide)

theorem Meanings.assembly_class {type : TypeKey} {y : Item} :
    ¬ (Meanings.assembly.scheme .assembly 0).Needs (.class type) y := by
  intro h
  obtain ⟨wants, hw, q, hq, position, hs⟩ := needs_cases h
  cases hw
  obtain rfl := List.mem_singleton.1 hq
  unfold Want.supply at hs
  rw [assembly_level] at hs
  cases hs

theorem Meanings.assembly_distinct : (Meanings.assembly.scheme .assembly 0).Distinct := by
  intro x y h hxy
  cases x with
  | «class» type =>
    obtain ⟨z, hz, -⟩ := TransGen.head'_iff.1 h
    exact absurd hz assembly_class
  | service name =>
    cases y with
    | «class» type => cases hxy
    | service name' => exact congrArg Item.service (Target.service.inj hxy)

theorem Machine.Outcome.of_follow {k : ℕ} {outcome : Except Failure C.Report}
    (schedule : List ThreadId)
    (h : ((requests w c tell [names]).follow I schedule).threads.map
      (fun th => th.records[k]?.map (·.outcome)) = [some outcome]) :
    Outcome I w c tell names k outcome
      ((requests w c tell [names]).follow I schedule).world.objects := by
  obtain ⟨th, ht, hk⟩ := List.map_eq_singleton_iff.1 h
  obtain ⟨record, hr, ho⟩ := Option.map_eq_some_iff.1 hk
  exact ⟨_, th, record, follow_reaches _ _ _, ht, hr, ho, rfl⟩

theorem Meanings.Functional.order_irrelevant_assembly : ∃ i i' d o o',
    Outcome .assembly .assembly 0 id (["server", "port"] ++ ["app"]) 2 (.ok i) o ∧
      Outcome .assembly .assembly 0 id ["app"] 0 (.ok i') o' ∧ i.Shows o d ∧ i'.Shows o' d := by
  obtain ⟨halike, -⟩ := order_irrelevant Meanings.assembly_functional Meanings.assembly_apart
    Meanings.assembly_distinct World.assembly_unbuilt id ["server", "port"] "app"
  have h : Outcome .assembly .assembly 0 id (["server", "port"] ++ ["app"]) 2
      (.ok ⟨.of "App", 6⟩) _ := Outcome.of_follow (List.replicate 100 0) (by decide +kernel)
  have h' : Outcome .assembly .assembly 0 id ["app"] 0 (.ok ⟨.of "App", 5⟩) _ :=
    Outcome.of_follow (List.replicate 80 0) (by decide +kernel)
  obtain ⟨f, hf, -⟩ | ⟨i, i', d, hi, hi', hd, hd'⟩ := halike _ _ _ _ h h'
  · cases hf
  · exact ⟨i, i', d, _, _, hi ▸ h, hi' ▸ h', hd, hd'⟩

def Implementation.homonyms : Implementation Client.assembly :=
  { Implementation.assembly with
    manifest := fun type => .done (if type.id = 0 then [⟨"s", .untyped, none⟩] else []) }

def World.homonyms : World Client.assembly :=
  .ofServices () [("x", ⟨true, .made (.of "X") [⟨"n", .autowired ⟨"N", 0⟩, none⟩] ()⟩),
    ("s", ⟨true, .made (.of "S") [⟨"n", .autowired ⟨"N", 1⟩, none⟩] ()⟩)]

def Meanings.homonyms : Meanings Client.assembly :=
  { Meanings.assembly with
    wants := fun type => .ok (if type.id = 0 then [⟨"s", .untyped, none⟩] else []) }

theorem World.homonyms_entry {name : String} {e : EntryId} {entry : Entry Client.assembly}
    (h : World.homonyms.entry? 0 name = some (e, entry)) :
    entry.registration = ⟨true, .made (.of "X") [⟨"n", .autowired ⟨"N", 0⟩, none⟩] ()⟩ ∨
      entry.registration = ⟨true, .made (.of "S") [⟨"n", .autowired ⟨"N", 1⟩, none⟩] ()⟩ := by
  have hmem := mem_ofServices h
  simp only [List.mem_cons, Prod.mk.injEq, List.not_mem_nil, or_false] at hmem
  exact hmem.imp And.right And.right

theorem Meanings.homonyms_functional : Meanings.homonyms.Functional .homonyms .homonyms 0 where
  literal he hl := by
    obtain hr | hr := World.homonyms_entry he <;> rw [hr] at hl <;> cases hl
  default he hp hi := by
    obtain hr | hr := World.homonyms_entry he
    all_goals
      rw [hr] at hp
      cases List.mem_singleton.1 hp
      cases hi
  manifest {type o} _ _ := by
    refine .call fun o₁ _ => .done fun o₂ _ => ?_
    change List.Forall₂ _ (if type.id = 0 then _ else []) (if type.id = 0 then _ else [])
    split
    · exact .cons ⟨rfl, rfl, .none⟩ .nil
    · exact .nil
  make _ _ _ ha := .call fun _ ho => .done fun _ ho' => ha.record.mono (ho.trans ho')
  give _ _ _ _ := .call fun _ _ => .crash fun _ _ => rfl
  construct _ _ ha := .call fun _ ho => .done fun _ ho' => ha.record.mono (ho.trans ho')

theorem Meanings.homonyms_apart : Meanings.homonyms.Apart .homonyms 0 := by
  rintro name e entry x wants q type he - hw hq ht
  have htype : type.name = "N" := by
    cases x with
    | «class» type' =>
      cases hw
      have hq : q ∈ if type'.id = 0 then [⟨"s", .untyped, none⟩] else [] := hq
      split at hq
      · cases List.mem_singleton.1 hq
        cases ht
      · cases hq
    | service name' =>
      cases hx : World.homonyms.entry? 0 name' with
      | none =>
        simp only [signature, hx] at hw
        cases hw
        cases hq
      | some found =>
        obtain ⟨e', entry'⟩ := found
        simp only [signature, hx] at hw
        obtain hr | hr := World.homonyms_entry hx
        all_goals
          rw [hr] at hw
          cases hw
          cases List.mem_singleton.1 hq
          cases ht
          rfl
  rintro rfl
  obtain hr | hr := World.homonyms_entry he
  all_goals
    rw [hr] at htype
    exact absurd htype (by decide)

def Implementation.counting : Implementation ⟨Unit, ℕ, Instance⟩ where
  make _ _ _ := .crash "nothing to make"
  give _ _ _ := .crash "nothing to give"
  manifest _ := .act (.update (· + 1)) fun (n : ℕ) =>
    (allocate .i64 (.integer n)).bind fun i => .done [⟨"number", .typed .i64, some i⟩]
  construct _ args :=
    (Program.ofExcept (args.get "number" .i64)).bind fun i => .act (.modify i.object id) fun v =>
      if v matches .integer 0 then .done v else .fail .emptyServiceName
  job _ := .crash "no job"

def World.counting : World ⟨Unit, ℕ, Instance⟩ :=
  .ofServices 0 [("ticket", ⟨false, .constructed (.of "Ticket") (.of "Ticket")⟩)]

/-- Requests before one matter if there are two classes of one name, or if a class declares
something else each time. -/
theorem order_relevant :
    (Meanings.homonyms.Functional .homonyms .homonyms 0 ∧ Meanings.homonyms.Apart .homonyms 0 ∧
      (∃ o, Outcome .homonyms .homonyms 0 id ["x"] 0
        (.error (.error (.circularDependency ["class N", "s", "class N"]))) o) ∧
      ∃ i o, Outcome .homonyms .homonyms 0 id (["s"] ++ ["x"]) 1 (.ok i) o) ∧
    (∃ i o, Outcome .counting .counting 0 id ["ticket"] 0 (.ok i) o) ∧
      ∃ o, Outcome .counting .counting 0 id (["ticket"] ++ ["ticket"]) 1
        (.error (.error .emptyServiceName)) o := by
  refine ⟨⟨Meanings.homonyms_functional, Meanings.homonyms_apart, ?_, ?_⟩, ?_, ?_⟩
  · exact ⟨_, Outcome.of_follow (List.replicate 80 0) (by decide +kernel)⟩
  · have h : Outcome .homonyms .homonyms 0 id (["s"] ++ ["x"]) 1 (.ok ⟨.of "X", 3⟩) _ :=
      Outcome.of_follow (List.replicate 80 0) (by decide +kernel)
    exact ⟨_, _, h⟩
  · have h : Outcome .counting .counting 0 id ["ticket"] 0 (.ok ⟨.of "Ticket", 1⟩) _ :=
      Outcome.of_follow (List.replicate 40 0) (by decide +kernel)
    exact ⟨_, _, h⟩
  · exact ⟨_, Outcome.of_follow (List.replicate 60 0) (by decide +kernel)⟩

end Wiring
