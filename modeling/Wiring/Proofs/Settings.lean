import Wiring.Proofs.Literals
import Wiring.Proofs.Loading
import Wiring.Proofs.Passage

namespace Wiring

variable {C : Client} {I : Implementation C} {S : Stack} {w : World C} {c : ContainerId}
  {name : String} {k : EntryId} {x : Entry C}

namespace Yaml.Tree

def Sized (t : Tree) : Prop := ∀ n, t.untagged = .integer n → -2 ^ 63 ≤ n ∧ n ≤ 2 ^ 64 - 1

end Yaml.Tree

namespace Yaml

def Scalar.Sized : Scalar → Prop
  | .integer n => -2 ^ 63 ≤ n ∧ n ≤ 2 ^ 64 - 1
  | _ => True

namespace Scalar

theorem ofInteger?_sized {n : ℤ} {v : Scalar} (h : ofInteger? n = some v) : v.Sized := by
  unfold ofInteger? at h
  split at h
  · next hn =>
    cases h
    obtain ⟨hl, hu⟩ := Bool.and_eq_true_iff.1 hn
    exact ⟨of_decide_eq_true hl, Int.le_sub_one_of_lt (of_decide_eq_true hu)⟩
  · split at h <;> cases h
    trivial

theorem integer?_sized {s : String} {v : Scalar} (h : (integer? s).bind ofInteger? = some v) :
    v.Sized := by
  obtain ⟨n, -, hn⟩ := Option.bind_eq_some_iff.1 h
  exact ofInteger?_sized hn

theorem ofPlain_sized (s : String) : (ofPlain s).Sized := by
  unfold ofPlain
  split
  · trivial
  · split
    · trivial
    · split
      · next hv => exact integer?_sized hv
      · split
        · trivial
        · split <;> trivial

theorem orMismatch_sized {s expected : String} {o : Option Scalar} {v : Scalar}
    (ho : ∀ v, o = some v → v.Sized) (h : orMismatch s expected o = .ok v) : v.Sized := by
  cases o with
  | none => cases h
  | some u =>
    cases h
    exact ho v rfl

theorem resolve_sized {tag : Option Octets} {style : Style} {s : String} {v : Scalar}
    (h : resolve tag style s = .ok v) : v.Sized := by
  have hplain : (if style = .plain then ofPlain s else text s).Sized := by
    split
    · exact ofPlain_sized s
    · trivial
  unfold resolve at h
  cases tag with
  | none =>
    cases h
    exact hplain
  | some t =>
    dsimp only at h
    split at h
    · refine orMismatch_sized (fun v hv => ?_) h
      obtain ⟨b, -, rfl⟩ := Option.map_eq_some_iff.1 hv
      trivial
    split at h
    · exact orMismatch_sized (fun v hv => integer?_sized hv) h
    split at h
    · refine orMismatch_sized (fun v hv => ?_) h
      obtain ⟨bits, -, rfl⟩ := Option.map_eq_some_iff.1 hv
      trivial
    split at h
    · refine orMismatch_sized (fun v hv => ?_) h
      split at hv <;> cases hv
      trivial
    split at h
    · cases h
      exact hplain
    · cases h
      trivial

end Scalar

namespace Reading

theorem tree_sized (d : Document) (depth : ℕ) (path : Path) (n : Node ℕ) :
    Gives Tree.Sized (tree d depth path n) := by
  have hwrap : ∀ (tag : Option String) {t : Tree}, t.Sized → (wrap tag t).Sized := by
    rintro (_ | tag) t ht
    · exact ht
    · exact ht
  have hplain : ∀ {t : Tree}, (∀ n, t.untagged ≠ .integer n) → t.Sized := fun ht n hn =>
    absurd hn (ht n)
  unfold tree
  refine .bind (.any _) fun n _ => ?_
  cases n with
  | scalar p style s =>
    refine Gives.bind (Q := Scalar.Sized) ?_ fun v hv => ?_
    · unfold scalar
      split
      · next h => exact .pure (Scalar.resolve_sized h)
      · exact .problem _ _
    · refine Gives.bind (Q := Tree.Sized) ?_ fun t ht => .pure (hwrap _ ht)
      cases v with
      | integer n =>
        refine .pure fun m hm => ?_
        cases hm
        exact hv
      | wide n => exact .problem _ _
      | _ => exact .pure (hplain nofun)
  | sequence p items =>
    cases depth with
    | zero => exact fun _ _ _ h => nomatch h
    | succ depth => exact .bind (.any _) fun items _ => .pure (hwrap _ (hplain nofun))
  | mapping p pairs =>
    cases depth with
    | zero => exact fun _ _ _ h => nomatch h
    | succ depth => exact .bind (.any _) fun pairs _ => .pure (hwrap _ (hplain nofun))
  | «alias» id => exact fun _ _ _ h => nomatch h

end Reading

end Yaml

namespace Config

open Yaml (Tree)

open Yaml.Reading (Gives)

theorem readFields_sized {d : Yaml.Document} {depth : ℕ} {path : Yaml.Path}
    (pairs : List (Yaml.Node ℕ × Yaml.Node ℕ)) {f : Fields}
    (hf : ∀ v, f.value = some v → v.Sized) :
    Gives (fun f => ∀ v, f.value = some v → v.Sized) (readFields d depth path f pairs) := by
  have hproblem : ∀ {α : Type} {P : α → Prop} {path p} {next : Unit → Yaml.Reading α},
      Gives P (Yaml.Reading.problem path p >>= next) := .bind (Q := fun _ => False) (.problem _ _)
        fun _ h => h.elim
  induction pairs generalizing f with
  | nil => exact .pure hf
  | cons p rest ih =>
    refine .bind (.any _) fun name _ => ?_
    dsimp only
    split
    · have hvalue := (Yaml.Reading.tree_sized d depth (path ++ [Yaml.Reading.stepOf p.1]) p.2).bind
        (f := fun value => readFields d depth path { f with value := some value } rest)
        fun value hv => ih fun v h => Option.some.inj h ▸ hv
      split
      · exact hproblem
      · exact hvalue
    · split
      · have hshared := (Gives.any (Yaml.Reading.boolean d (path ++ [Yaml.Reading.stepOf p.1])
          p.2)).bind (f := fun shared => readFields d depth path { f with shared := some shared }
            rest) fun shared _ => ih hf
        split
        · exact hproblem
        · exact hshared
      · exact .problem _ _

theorem readEntry_sized {d : Yaml.Document} {depth : ℕ} {path : Yaml.Path} (name : String)
    (n : Yaml.Node ℕ) : Gives (·.value.Sized) (readEntry d depth path name n) := by
  refine .bind (.any _) fun p _ => .bind (readFields_sized p.1 nofun) fun f hf => ?_
  cases hv : f.value with
  | none => exact .problem _ _
  | some value => exact .pure (hf value hv)

theorem ofText_sized {text : String} {entries : List Entry} (h : ofText text = .ok entries)
    {e : Entry} (he : e ∈ entries) : e.value.Sized := by
  obtain ⟨d, t, n, hrun, rfl⟩ := ofText_read h
  have hall : Each (fun _ e => e.value.Sized) t :=
    readDocument_each (fun _ _ => readEntry_sized) 0 t n hrun
  obtain ⟨p, hp, rfl⟩ := List.mem_map.1 (List.mem_mergeSort.1 he)
  exact hall p hp

/-- The type and value of the service that is configured by a YAML value. -/
inductive Means : Tree → TypeKey → Value → Prop
  | text (s : String) : Means (.text s) .text (.text s)
  | boolean (b : Bool) : Means (.boolean b) .boolean (.boolean b)
  | signed {n : Int} (hl : -2 ^ 63 ≤ n) (hu : n ≤ 2 ^ 63 - 1) :
      Means (.integer n) .i64 (.integer n)
  | unsigned {n : Int} (hl : 2 ^ 63 ≤ n) (hu : n ≤ 2 ^ 64 - 1) :
      Means (.integer n) .u64 (.integer n)
  | float (bits : UInt64) : Means (.float bits) .f64 (.float bits)
  | null : Means .null .yaml (.document .null)
  | sequence (items : List Tree) : Means (.sequence items) .yaml (.document (.sequence items))
  | mapping (pairs : List (Tree × Tree)) :
      Means (.mapping pairs) .yaml (.document (.mapping pairs))
  | tagged (tag : String) {t : Tree} {type : TypeKey} {v : Value} (h : Means t type v) :
      Means (.tagged tag t) type v

def origin : Value → Tree
  | .text s => .text s
  | .boolean b => .boolean b
  | .integer n => .integer n
  | .float bits => .float bits
  | .document t => t
  | _ => .null

namespace Means

variable {t t' : Tree} {type type' : TypeKey} {v : Value}

theorem untagged_eq (h : Means t type v) : t.untagged = origin v := by
  induction h with
  | tagged tag h ih => exact ih
  | _ => rfl

theorem injective (h : Means t type v) (h' : Means t' type' v) : t.untagged = t'.untagged :=
  h.untagged_eq.trans h'.untagged_eq.symm

theorem literal (h : Means t type v) : Config.literal t = (type, v) := by
  induction h with
  | signed hl hu =>
    have hlt : _ < Int.pow 2 63 := Int.lt_of_le_sub_one hu
    simp only [Config.literal, Tree.untagged, if_pos hlt]
  | unsigned hl hu =>
    have hge : ¬ _ < Int.pow 2 63 := Int.not_lt.2 hl
    simp only [Config.literal, Tree.untagged, if_neg hge]
  | tagged tag h ih => exact ih
  | _ => rfl

theorem of_sized (h : t.Sized) : ∃ type v, Means t type v := by
  fun_induction Tree.untagged t with
  | case1 tag t ih =>
    obtain ⟨type, v, hm⟩ := ih h
    exact ⟨type, v, hm.tagged tag⟩
  | case2 t ht =>
    cases t with
    | null => exact ⟨_, _, .null⟩
    | boolean b => exact ⟨_, _, .boolean b⟩
    | integer n =>
      obtain ⟨hl, hu⟩ := h n rfl
      obtain hlt | hge := Int.lt_or_le n (2 ^ 63)
      · exact ⟨_, _, .signed hl (Int.le_sub_one_of_lt hlt)⟩
      · exact ⟨_, _, .unsigned hge hu⟩
    | float bits => exact ⟨_, _, .float bits⟩
    | text s => exact ⟨_, _, .text s⟩
    | sequence items => exact ⟨_, _, .sequence items⟩
    | mapping pairs => exact ⟨_, _, .mapping pairs⟩
    | tagged tag t => exact absurd rfl (ht tag t)

end Means

end Config

theorem Evaluates.of_alone {α : Type} {p : Program C α} {r : Except Failure α} {w' : World C}
    (I : Implementation C) (S : Stack) (h : p.alone w = some (r, w')) :
    ∃ ds, Evaluates I S w p ds r w' := by
  induction p generalizing w with
  | done a => cases h; exact ⟨_, .done⟩
  | fail e => cases h; exact ⟨_, .fail⟩
  | crash s => cases h; exact ⟨_, .crash⟩
  | act a next ih =>
    obtain ⟨⟨reply, w₁⟩, ha, hnext⟩ := Option.bind_eq_some_iff.1 h
    obtain ⟨ds, he⟩ := ih reply hnext
    cases a <;> cases ha <;> exact ⟨_, .act rfl rfl he⟩
  | call k next ih => cases h
  | resolve g next ih => cases h

theorem World.describes_literal {shared copies : Bool} {v : Instance} (I : Implementation C)
    (S : Stack) (he : w.entry? c name = some (k, x))
    (hr : x.registration = ⟨shared, .literal v copies⟩) :
    Evaluates I S w (Container.describe c name) [.access (.lookup c name), .access (.cached k)]
      (.ok (some ⟨name, shared, v.type, [], x.cache.isSome⟩)) w := by
  have hcached : w.cached k = x.cache := by
    rw [World.cached, (World.entry?_eq_some.1 he).2]
    rfl
  refine .act (World.access_lookup name) rfl ?_
  simp only [he, Option.map_some, hr]
  refine .act rfl rfl ?_
  rw [hcached]
  exact .done

namespace Run

variable {σ : Run I} {n l m : ℕ} {shared : Bool} {type : TypeKey} {object : ObjectId}
  {value : Value}

/-- The value is registered under the name at moment `l`. From then on, as long as the name stands
for this entry, all answers to requests for the service have the type, a single thread is told of
just this type, and it gets the value, too, unless somebody has changed the stored one. -/
structure Serves (σ : Run I) (c : ContainerId) (name : String) (shared : Bool) (type : TypeKey)
    (object : ObjectId) (value : Value) (k : EntryId) (l : ℕ) : Prop where
  registered : (σ.state l).world.entry? c name =
    some (k, ⟨⟨shared, .literal ⟨type, object⟩ true⟩, none⟩)
  stored : (σ.state l).world.objects[object]? = some value
  answers {t : ThreadId} {L : Scope C} {next : Except Error Instance → Program C L.Answer}
    {a f b : ℕ} {i : Instance} {x : Entry C}
    (hr : σ.Requests t L (.service c name ∅) next a (.ok i) b) (hf : a < f) (hb : f < b)
    (hm : σ.mover f = some t)
    (ha : (σ.state f).activity t = .resolving (.find c name ∅) (L.callers next) (L.onward next))
    (hl : l ≤ f) (hx : (σ.state f).world.entry? c name = some (k, x)) : i.type = type
  describes {L : Scope C} {rest : Option ServiceInfo → Program C L.Answer} {m : ℕ} {x : Entry C}
    (hl : l ≤ m) (hone : (σ.state m).threads.length = 1)
    (hx : (σ.state m).world.entry? c name = some (k, x))
    (ha : (σ.state m).activity 0 = L.runs ((Container.describe c name).bind rest)) :
    ∃ ds b, σ.Completes 0 L rest (Container.describe c name) m ds
        (.ok (some ⟨name, shared, type, [], x.cache.isSome⟩)) b ∧
      (σ.state b).threads.length = 1 ∧ (σ.state b).world.settled = (σ.state m).world.settled
  gets {L : Scope C} {rest : Instance → Program C L.Answer} {m : ℕ} {x : Entry C}
    (hl : l ≤ m) (hone : (σ.state m).threads.length = 1)
    (hx : (σ.state m).world.entry? c name = some (k, x))
    (hv : (σ.state m).world.objects[object]? = some value)
    (ha : (σ.state m).activity 0 = L.runs ((Container.get c name).bind rest)) :
    ∃ ds r b, σ.Completes 0 L rest (Container.get c name) m ds r b ∧
      Offered c name ((σ.state m).stack 0) shared ⟨type, object⟩ value (σ.state b).world.objects r

theorem Serves.of_registered (hfair : σ.Attends 0)
    (he : (σ.state l).world.entry? c name =
      some (k, ⟨⟨shared, .literal ⟨type, object⟩ true⟩, none⟩))
    (hv : (σ.state l).world.objects[object]? = some value) :
    σ.Serves c name shared type object value k l := by
  have hregistered : ∀ {m x}, l ≤ m → (σ.state m).world.entry? c name = some (k, x) →
      x.registration = ⟨shared, .literal ⟨type, object⟩ true⟩ := by
    intro m x hm hx
    obtain ⟨y, hy, hr⟩ := registration_lasts (World.entry?_eq_some.1 he).2 hm
    cases (World.entry?_eq_some.1 hx).2.symm.trans hy
    exact hr
  refine ⟨he, hv, ?_, ?_, ?_⟩
  · intro t L next a f b i x hr hf hb hm ha hl hx
    rw [hr.type hf hb hm ha hx, Registration.provides, hregistered hl hx]
    rfl
  · intro L rest m x hl hone hx ha
    have hx' : (σ.state m).world.settled.entry? c name = some (k, x) := hx
    have hdescribe := World.describes_literal I (insides L.frames) hx' (hregistered hl hx)
    obtain ⟨b, hcompletes, hend⟩ := hdescribe.completes hfair rfl ⟨hone, rfl, ha⟩
    exact ⟨_, b, hcompletes, hend⟩
  · intro L rest m x hl hone hx hv ha
    have hreg := hregistered hl hx
    obtain ⟨r, cache⟩ := x
    obtain rfl : r = _ := hreg
    have hx' : (σ.state m).world.settled.entry? c name =
      some (k, ⟨⟨shared, .literal ⟨type, object⟩ true⟩, cache⟩) := hx
    have hcache : ∀ i, cache = some i → shared = true ∧ i = ⟨type, object⟩ := fun i hi =>
      σ.cached_literal (World.entry?_eq_some.1 hx).2 rfl hi
    obtain ⟨ds, r, w', hresponds, hoffered⟩ := World.responds_literal I (insides L.frames)
      hx' hcache hv
    obtain ⟨b, hcompletes, -, hw⟩ :=
      (Evaluates.request hresponds).completes hfair rfl ⟨hone, rfl, ha⟩
    refine ⟨_, r, b, hcompletes, ?_⟩
    rw [insides_eq_stack ha]
    subst hw
    exact hoffered

/-- Each entry of a configuration with names is registered with the type and value that its YAML
value means. It is described with this type from the beginning, before anything is resolved, and
handed out with both. Every YAML value whose integers take 64 bits has a meaning, and values that
differ, but for their outermost tags, do not come to equal ones. -/
theorem configured_values_kept (hfair : σ.Attends 0) :
    (∀ (L : Scope C) (rest : ℕ → Program C L.Answer) (c : ContainerId) (entries : List Config.Entry)
      (n : ℕ), (σ.state n).threads.length = 1 → c < (σ.state n).world.containers.length →
      (entries.map (·.name)).Nodup → "" ∉ entries.map (·.name) →
      (σ.state n).activity 0 = L.runs ((Config.apply c entries).bind rest) →
      ∃ ds l, σ.Completes 0 L rest (Config.apply c entries) n ds (.ok entries.length) l ∧
        (σ.state l).threads.length = 1 ∧
        ∀ e ∈ entries, ∀ type value, Config.Means e.value type value →
          ∃ k object, σ.Serves c e.name e.shared type object value k l) ∧
      (∀ t : Yaml.Tree, t.Sized → ∃ type value, Config.Means t type value) ∧
      ∀ t t' type type' value, Config.Means t type value → Config.Means t' type' value →
        t.untagged = t'.untagged := by
  refine ⟨?_, fun t => Config.Means.of_sized, fun t t' type type' value h h' => h.injective h'⟩
  intro L rest c entries n hone hc hnames hempty ha
  have halone : (Config.apply c entries : Program C ℕ).alone (σ.state n).world.settled =
      some (.ok entries.length, entries.foldl (Config.place c) (σ.state n).world.settled) :=
    Program.alone_bind (Config.registerAll_alone hempty) _
  have hplaced := Config.placed (w := (σ.state n).world.settled) hc (σ.reachable n).grounded hnames
  obtain ⟨ds, happly⟩ := Evaluates.of_alone I (insides L.frames) halone
  obtain ⟨l, hcompletes, hl, hw⟩ := happly.completes hfair rfl ⟨hone, rfl, ha⟩
  rw [← hw] at hplaced
  refine ⟨ds, l, hcompletes, hl, fun e he type value hmeans => ?_⟩
  obtain ⟨k, object, hentry, -, hobject⟩ := hplaced.registered he
  rw [hmeans.literal] at hentry hobject
  exact ⟨k, object, .of_registered hfair hentry hobject⟩

def limits : List Config.Entry :=
  [⟨"limit", .tagged "size" (.integer (2 ^ 63)), true⟩, ⟨"title", .text "x", false⟩]

def configuring : Run Implementation.plain :=
  along ⟨.start (), [{ todo := [(Config.apply 0 limits).bind fun _ =>
      (Container.describe 0 "limit").bind fun _ => (Container.get 0 "title").bind fun _ =>
        .done ()] }]⟩
    { world := World.start_unbuilt _
      threads := fun h => by rw [List.mem_singleton.1 h]; exact ⟨rfl, rfl, rfl⟩ } fun _ => 0

theorem configured_values_kept_configuring :
    ∃ l b d, configuring.Calls 0 (Config.apply 0 limits) 1 (.ok 2) l ∧
      configuring.Calls 0 (Container.describe 0 "limit") l
        (.ok (some ⟨"limit", true, .u64, [], false⟩)) b ∧
      ∃ i, configuring.Calls 0 (Container.get 0 "title") b (.ok i) d ∧ i.type = .text ∧
        (configuring.state d).world.objects[i.object]? = some (.text "x") := by
  obtain ⟨happly, -⟩ := configured_values_kept (σ := configuring) (along_attends _ _ _)
  obtain ⟨ds, l, hcompletes, hone, hserves⟩ := happly .own _ 0 limits 1 rfl (by decide)
    (by decide) (by decide) rfl
  have hlimit : Config.Means (.tagged "size" (.integer (2 ^ 63))) .u64 (.integer (2 ^ 63)) :=
    .tagged "size" (.unsigned (by decide) (by decide))
  obtain ⟨k, object, hfirst⟩ := hserves _ List.mem_cons_self _ _ hlimit
  obtain ⟨j, other, hsecond⟩ :=
    hserves _ (List.mem_cons_of_mem _ List.mem_cons_self) _ _ (.text "x")
  have hafter := hcompletes.at_end.resolve_right nofun
  obtain ⟨ds', b, hdescribes, hone', hsame⟩ :=
    hfirst.describes (Nat.le_refl l) hone hfirst.registered hafter
  have hx : (configuring.state b).world.settled.entry? 0 "title" =
      some (j, ⟨⟨false, .literal ⟨.text, other⟩ true⟩, none⟩) := by
    rw [hsame]
    exact hsecond.registered
  have hv : (configuring.state b).world.settled.objects[other]? = some (.text "x") := by
    rw [hsame]
    exact hsecond.stored
  have hnext := hdescribes.at_end.resolve_right nofun
  obtain ⟨ds'', r, d, hgets, hoffered⟩ := hsecond.gets hdescribes.le hone' hx hv hnext
  rw [insides_eq_stack hnext] at hoffered
  refine ⟨l, b, d, ⟨_, _, _, hcompletes⟩, ⟨_, _, _, hdescribes⟩, ?_⟩
  cases hoffered with
  | given htype hholds _ => exact ⟨_, ⟨_, _, _, hgets⟩, htype, hholds⟩
  | circular hbusy => cases hbusy

end Run

end Wiring
