import Wiring.Proofs.Selection

namespace Wiring

variable {C : Client} {I : Implementation C} {α β : Type} {S : Stack} {c : ContainerId}
  {w w' w₁ : World C}

def Action.Private : Action C → Prop
  | .allocate .. | .modify .. | .update _ | .note _ | .emit _ => True
  | _ => False

/-- The program makes finitely many private accesses, whatever is replied, and ends as `Q` says. -/
inductive Program.EndsPrivately (Q : Except Failure α → Prop) : Program C α → Prop
  | ended {r} (h : Q r) : Program.EndsPrivately Q (.ended r)
  | act {a next} (ha : a.Private) (h : ∀ reply, Program.EndsPrivately Q (next reply)) :
      Program.EndsPrivately Q (.act a next)

def Deed.body? : Deed C → Option (Call C)
  | .call (.manifest _) => none
  | .call k => some k
  | _ => none

def bodies (ds : List (Deed C)) : List (Call C) := ds.filterMap Deed.body?

@[simp] theorem bodies_append (ds ds' : List (Deed C)) :
    bodies (ds ++ ds') = bodies ds ++ bodies ds' := List.filterMap_append

@[simp] theorem bodies_access (a : Action C) (ds : List (Deed C)) :
    bodies (.access a :: ds) = bodies ds := rfl

structure World.Untouched (w w' : World C) : Prop where
  containers : w'.containers = w.containers
  entries : w'.entries = w.entries

namespace World.Untouched

theorem refl (w : World C) : w.Untouched w := ⟨rfl, rfl⟩

theorem trans (h : w.Untouched w₁) (h' : w₁.Untouched w') : w.Untouched w' :=
  ⟨h'.containers.trans h.containers, h'.entries.trans h.entries⟩

theorem agrees (h : w.Untouched w') : w.Agrees w' := ⟨h.containers, by rw [h.entries]⟩

theorem cached (h : w.Untouched w') (e : EntryId) : w'.cached e = w.cached e := by
  rw [World.cached, World.cached, h.entries]

end World.Untouched

theorem Action.Private.access {a : Action C} (h : a.Private) (S : Stack) (w : World C) :
    ∃ reply w', w.access I S a = some (reply, w') ∧ a.brings I = [] ∧ w.Untouched w' := by
  cases a with
  | allocate type v => exact ⟨_, _, rfl, rfl, rfl, rfl⟩
  | modify object f => exact ⟨_, _, rfl, rfl, rfl, rfl⟩
  | update f => exact ⟨_, _, rfl, rfl, rfl, rfl⟩
  | note r => exact ⟨_, _, rfl, rfl, rfl, rfl⟩
  | emit e => exact ⟨_, _, rfl, rfl, rfl, rfl⟩
  | _ => exact h.elim

def Program.Ends (I : Implementation C) (S : Stack) (w : World C) (p : Program C α)
    (bs : List (Call C)) (Q : Except Failure α → Prop) : Prop :=
  ∃ ds r w', Evaluates I S w p ds r w' ∧ Q r ∧ w.Untouched w' ∧ bodies ds = bs

namespace Program

variable {Q : Except Failure α → Prop} {p : Program C α} {bs : List (Call C)}

theorem Ends.of_evaluates {ds : List (Deed C)} {r : Except Failure α} (h : p.Ends I S w bs Q)
    (he : Evaluates I S w p ds r w') : Q r ∧ w.Untouched w' ∧ bodies ds = bs := by
  obtain ⟨ds', r', w'', he', hq⟩ := h
  obtain ⟨rfl, rfl, rfl⟩ := he.unique he'
  exact hq

theorem Ends.bind {f : α → Program C β} {Q' : Except Failure β → Prop} (h : p.Ends I S w bs Q)
    (hf : ∀ a w', Q (.ok a) → (f a).Ends I S w' [] Q') (hstop : ∀ e, Q (.error e) → Q' (.error e)) :
    (p.bind f).Ends I S w bs Q' := by
  obtain ⟨ds, e | a, w', he, hq, hw, rfl⟩ := h
  · exact ⟨ds, _, w', he.bind_error, hstop e hq, hw, rfl⟩
  · obtain ⟨ds', r, w'', he', hq', hw', hbs⟩ := hf a w' hq
    exact ⟨ds ++ ds', r, w'', he.bind he', hq', hw.trans hw', by simp [hbs]⟩

theorem EndsPrivately.ends (h : p.EndsPrivately Q) (S : Stack) (w : World C) :
    p.Ends I S w [] Q := by
  induction h generalizing w with
  | ended h => exact ⟨[], _, w, .ended _, h, .refl w, rfl⟩
  | @act a next ha _ ih =>
    obtain ⟨reply, w₁, hacc, hn, hw₁⟩ := ha.access (I := I) S w
    obtain ⟨ds, r, w', he, hq, hw', hbs⟩ := ih reply w₁
    exact ⟨.access a :: ds, r, w', .act hacc hn he, hq, hw₁.trans hw', hbs⟩

end Program

namespace Logic

def Declares (I : Implementation C) (Q : Except Failure (List Parameter) → Prop) : Logic C → Prop
  | made _ parameters _ => Q (.ok parameters)
  | given _ parameters _ => Q (.ok parameters)
  | constructed _ type => (I.manifest type).EndsPrivately Q
  | literal .. => Q (.ok [])

def Makes (I : Implementation C) (c : ContainerId) (args : Arguments)
    (Q : Except Failure TypeKey → Prop) : Logic C → Prop
  | made provides _ body => (I.make body c args).EndsPrivately fun r => Q (r.map fun _ => provides)
  | given _ _ body => (I.give body c args).EndsPrivately fun r => Q (r.map (·.type))
  | constructed _ type => (I.construct type args).EndsPrivately fun r => Q (r.map fun _ => type)
  | literal value _ => Q (.ok value.type)

def body? (c : ContainerId) (args : Arguments) : Logic C → Option (Call C)
  | made _ _ body => some (.make body c args)
  | given _ _ body => some (.give body c args)
  | constructed _ type => some (.construct type args)
  | literal .. => none

variable {logic : Logic C} {args : Arguments}

theorem run_ends {k : Call C} {Q : Except Failure k.Reply → Prop} (h : (I.answer k).EndsPrivately Q)
    (S : Stack) (w : World C) :
    (Program.run k).Ends I S w (bodies [.call k]) Q := by
  obtain ⟨ds, r, w', he, hq, hw, hbs⟩ := h.ends (I := I) S w
  refine ⟨.call k :: ds, r, w', he.run, hq, hw, ?_⟩
  rw [← List.singleton_append, bodies_append, hbs, List.append_nil]

theorem allocate_ends {Q : Except Failure Instance → Prop} {type : TypeKey} {v : Value}
    (h : ∀ i : Instance, i.type = type → Q (.ok i)) :
    (allocate type v : Program C Instance).Ends I S w [] Q :=
  ⟨_, _, _, .perform rfl rfl, h _ rfl, ⟨rfl, rfl⟩, rfl⟩

theorem Declares.ends {Q : Except Failure (List Parameter) → Prop} (h : logic.Declares I Q)
    (S : Stack) (w : World C) : logic.parameters.Ends I S w [] Q := by
  cases logic with
  | made provides parameters body => exact ⟨_, _, _, .done, h, .refl w, rfl⟩
  | given provides parameters body => exact ⟨_, _, _, .done, h, .refl w, rfl⟩
  | constructed provides type => exact run_ends (k := .manifest type) h S w
  | literal value copies => exact ⟨_, _, _, .done, h, .refl w, rfl⟩

theorem Makes.ends {Q : Except Failure TypeKey → Prop} (h : logic.Makes I c args Q) (shared : Bool)
    (S : Stack) (w : World C) :
    (logic.invoke shared c args).Ends I S w (logic.body? c args).toList
      fun r => Q (r.map (·.type)) := by
  cases logic with
  | made provides parameters body =>
    refine (run_ends (k := .make body c args) h S w).bind (fun v w' hq => allocate_ends ?_)
      fun e he => he
    rintro i rfl
    exact hq
  | given provides parameters body => exact run_ends (k := .give body c args) h S w
  | constructed provides type =>
    refine (run_ends (k := .construct type args) h S w).bind (fun v w' hq => allocate_ends ?_)
      fun e he => he
    rintro i rfl
    exact hq
  | literal value copies =>
    simp only [invoke]
    split
    · exact ⟨_, _, _, .done, h, .refl w, rfl⟩
    · have hread : Evaluates I S w (read value) [.access (.modify value.object id)]
          (.ok (w.value value.object)) { w with objects := w.objects.modify value.object id } :=
        .perform rfl rfl
      exact ⟨_, _, _, hread.bind (.perform rfl rfl), h, ⟨rfl, rfl⟩, rfl⟩

end Logic

end Wiring
