import Wiring.Proofs.Datum
import Wiring.Proofs.Scheme

/-!
Registries in terms of data: what a registry makes of each service and class if its code is a
function of the data of its arguments, and when the supply of each argument is the same for whoever
asks.
-/
namespace Wiring

open Relation (ReflTransGen TransGen)

variable {C : Client}

def Item.title : Item → String
  | service name => name
  | .class type => type.name

def Datum.cast (d : Datum) (type : TypeKey) (what : String) : Except Failure Datum :=
  if d.type = type then .ok d else .error (.error (.typeMismatch what type d.type))

def Rule.supply (title : String) (position : ℕ) (q : Want) : Rule → Supply Datum
  | onlyOfType service => .target (.service service)
  | narrowed | named => .target (.service q.name)
  | ambiguous candidates => .refuse (.error (.ambiguousService title q.name candidates))
  | autowired type => .target (.class type)
  | override _ | default _ | unresolvable =>
    match q.default with
    | some d => .value d
    | none => .refuse (.error (.unresolvableParameter title q.name position))

namespace Want

def bare (q : Want) : Parameter := ⟨q.name, q.declared, none⟩

variable (w : World C) (c : ContainerId) (T : Stack)

def supply (title : String) (position : ℕ) (q : Want) : Supply Datum :=
  (q.bare.rule w c T).supply title position q

def supplies (title : String) : ℕ → List Want → List (Supply Datum)
  | _, [] => []
  | position, q :: rest =>
    q.supply w c T title position :: supplies title (position + 1) rest

variable {w c T}

theorem mem_supplies {title : String} {position : ℕ} {wants : List Want} {s : Supply Datum}
    (h : s ∈ supplies w c T title position wants) :
    ∃ q ∈ wants, ∃ position, s = q.supply w c T title position := by
  induction wants generalizing position with
  | nil => cases h
  | cons q rest ih =>
    obtain _ | ⟨_, h⟩ := h
    · exact ⟨q, List.mem_cons_self, position, rfl⟩
    · obtain ⟨q', hq, hs⟩ := ih h
      exact ⟨q', List.mem_cons_of_mem _ hq, hs⟩

end Want

/-- What instances come to, and what code makes of arguments that come to these data; the text is
the name of the service or class that the arguments are for. -/
structure Meanings (C : Client) where
  worth : Instance → Datum
  wants : TypeKey → Except Failure (List Want)
  make : C.Code → String → List (String × Datum) → Except Failure Content
  give : C.Code → String → List (String × Datum) → Except Failure Datum
  construct : TypeKey → String → List (String × Datum) → Except Failure Content

namespace Meanings

variable (M : Meanings C)

def want (p : Parameter) : Want := ⟨p.name, p.declared, p.default.map M.worth⟩

def demands : Logic C → Except Failure (List Want)
  | .made _ parameters _ | .given _ parameters _ => .ok (parameters.map M.want)
  | .constructed _ type => M.wants type
  | .literal .. => .ok []

def yields (title : String) (data : List (String × Datum)) : Logic C → Except Failure Datum
  | .made provides _ body => (M.make body title data).map (⟨provides, ·⟩)
  | .given _ _ body => M.give body title data
  | .constructed _ type => (M.construct type title data).map (⟨type, ·⟩)
  | .literal value _ => .ok (M.worth value)

variable (w : World C) (c : ContainerId)

def signature : Item → Except Failure (List Want)
  | .service name =>
    match w.entry? c name with
    | some (_, x) => M.demands x.registration.logic
    | none => .ok []
  | .class type => M.wants type

def sources (T : Stack) (x : Item) : List (Supply Datum) :=
  match M.signature w c x with
  | .ok wants => Want.supplies w c T x.title 0 wants
  | .error f => [.refuse f]

def named (x : Item) (ds : List Datum) : List (String × Datum) :=
  match M.signature w c x with
  | .ok wants => (wants.map (·.name)).zip ds
  | .error _ => []

def result (x : Item) (ds : List Datum) : Except Failure Datum :=
  match x with
  | .service name =>
    match w.entry? c name with
    | some (_, x) =>
      (M.yields name (M.named w c (.service name) ds) x.registration.logic).bind
        (·.cast x.registration.provides ("service '" ++ name ++ "'"))
    | none => .error (.error (.serviceNotFound name))
  | .class type =>
    (M.construct type type.name (M.named w c (.class type) ds)).map (⟨type, ·⟩)

def scheme : Scheme Datum := ⟨M.sources w c [], M.result w c⟩

/-- No service provides a type that it declares for a parameter, or that a service or class that it
needs in the end does. -/
def Apart : Prop :=
  ∀ name e entry x wants q type, w.entry? c name = some (e, entry) →
    ReflTransGen (M.scheme w c).Needs (.service name) x → M.signature w c x = .ok wants →
    q ∈ wants → q.bare.type? = some type → entry.registration.provides ≠ type

variable {M w c} {T : Stack} {S : List Item} {x : Item} {p : Parameter} {q : Want}
  {o : List Value}

theorem needs_cases {y : Item} (h : (M.scheme w c).Needs x y) :
    ∃ wants, M.signature w c x = .ok wants ∧ ∃ q ∈ wants, ∃ position,
      q.supply w c [] x.title position = .target y := by
  have h : .target y ∈ M.sources w c [] x := h
  unfold Meanings.sources at h
  cases hw : M.signature w c x with
  | error f =>
    rw [hw] at h
    simp at h
  | ok wants =>
    rw [hw] at h
    obtain ⟨q, hq, position, hs⟩ := Want.mem_supplies h
    exact ⟨wants, rfl, q, hq, position, hs.symm⟩

theorem needs_finite (h : {type | ∃ y, (M.scheme w c).Needs (.class type) y}.Finite) :
    {x | ∃ y, (M.scheme w c).Needs x y}.Finite := by
  have hservices : {name | name ∈ (w.services c).keys}.Finite := List.finite_toSet _
  refine ((hservices.image Item.service).union (h.image Item.class)).subset ?_
  rintro x ⟨y, hy⟩
  cases x with
  | «class» type => exact .inr ⟨type, ⟨y, hy⟩, rfl⟩
  | service name =>
    refine .inl ⟨name, ?_, rfl⟩
    obtain ⟨wants, hw, q, hq, -⟩ := needs_cases hy
    cases he : w.entry? c name with
    | none =>
      rw [signature, he] at hw
      cases hw
      cases hq
    | some found =>
      have hget := (World.entry?_eq_some.1 he).1
      change name ∈ (w.services c).keys
      rw [Table.mem_keys_iff, Table.contains, hget]
      rfl

theorem candidates_eq {type : TypeKey}
    (h : ∀ name e entry, w.entry? c name = some (e, entry) → T.isResolving c name →
      entry.registration.provides ≠ type) :
    w.candidates T c type = w.candidates [] c type := by
  refine congrArg World.sortNames (List.filter_congr fun name hname => ?_)
  obtain ⟨e, he, hp⟩ := Table.get?_of_mem_keysWhere hname
  obtain ⟨entry, hentry, htype⟩ := (Option.any_eq_true _ _).1 hp
  have hfound := World.entry?_eq_some.2 ⟨he, hentry⟩
  have hnot : T.isResolving c name = false := by
    by_contra hr
    exact h name e entry hfound (by simpa using hr) (of_decide_eq_true htype)
  rw [hnot]
  rfl

theorem supply_eq {title : String} {position : ℕ}
    (h : ∀ type, q.bare.type? = some type → w.candidates T c type = w.candidates [] c type) :
    q.supply w c T title position = q.supply w c [] title position := by
  have hc : q.bare.candidates w c T = q.bare.candidates w c [] := by
    unfold Parameter.candidates
    cases ht : q.bare.type? with
    | none => rfl
    | some type => exact h type ht
  unfold Want.supply Parameter.rule
  rw [hc]

theorem supplies_eq {title : String} {position : ℕ} {wants : List Want}
    (h : ∀ q ∈ wants, ∀ type, q.bare.type? = some type →
      w.candidates T c type = w.candidates [] c type) :
    Want.supplies w c T title position wants = Want.supplies w c [] title position wants := by
  induction wants generalizing position with
  | nil => rfl
  | cons q rest ih =>
    rw [Want.supplies, Want.supplies, supply_eq (h q List.mem_cons_self),
      ih fun q hq => h q (List.mem_cons_of_mem _ hq)]

theorem Apart.sources_eq (hM : M.Apart w c)
    (hS : ∀ y ∈ S, TransGen (M.scheme w c).Needs y x) :
    M.sources w c (under c (x :: S)) x = (M.scheme w c).sources x := by
  change _ = M.sources w c [] x
  unfold sources
  cases hs : M.signature w c x with
  | error f => rfl
  | ok wants =>
    refine supplies_eq fun q hq type ht => candidates_eq fun name e entry he hr => ?_
    have hmem : Item.service name ∈ x :: S :=
      (mem_under (x := .service name).1 (List.contains_iff_mem.1 hr)).service
    apply hM name e entry x wants q type he ?_ hs hq ht
    obtain hx | hx := List.mem_cons.1 hmem
    · rw [hx]
    · exact (hS _ hx).to_reflTransGen

end Meanings

inductive Rule.Completes (i? : Option Instance) : Rule → Rule → Prop
  | onlyOfType (service) : Completes i? (.onlyOfType service) (.onlyOfType service)
  | narrowed : Completes i? .narrowed .narrowed
  | ambiguous (candidates) : Completes i? (.ambiguous candidates) (.ambiguous candidates)
  | named : Completes i? .named .named
  | autowired (type) : Completes i? (.autowired type) (.autowired type)
  | default {i} (h : i? = some i) : Completes i? .unresolvable (.default i)
  | unresolvable (h : i? = none) : Completes i? .unresolvable .unresolvable

theorem Parameter.Shows.rule {o : List Value} {p : Parameter} {q : Want} {w : World C}
    {c : ContainerId} {T : Stack} (h : p.Shows o q) :
    Rule.Completes p.default (q.bare.rule w c T) (p.rule w c T) := by
  obtain ⟨name, declared, i?⟩ := p
  obtain ⟨name', declared', d?⟩ := q
  obtain ⟨rfl, rfl, -⟩ := h
  have hc : Parameter.candidates w c T ⟨name, declared, none⟩ =
      Parameter.candidates w c T ⟨name, declared, i?⟩ := rfl
  unfold Want.bare Parameter.rule
  rw [hc]
  generalize Parameter.candidates w c T ⟨name, declared, i?⟩ = candidates
  match candidates with
  | [only] => exact .onlyOfType only
  | first :: second :: rest =>
    simp only [Parameter.ofCandidates?]
    split
    · exact .narrowed
    · exact .ambiguous _
  | [] =>
    have ha : Parameter.accepts ⟨name, declared, none⟩ = Parameter.accepts ⟨name, declared, i?⟩ :=
      rfl
    simp only [Parameter.ofCandidates?, Parameter.fallback, Parameter.autowires?, ha]
    split
    · exact .named
    · cases declared with
      | autowired type => exact .autowired type
      | untyped | typed => cases i? with
        | none => exact .unresolvable rfl
        | some i => exact .default rfl

end Wiring
