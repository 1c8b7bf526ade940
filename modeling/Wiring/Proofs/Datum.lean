import Wiring.Proofs.Behaviour

namespace Wiring

variable {C : Client} {α β : Type}

inductive Content
  | plain (v : Value)
  | record (fields : List (String × TypeKey × Content))

structure Datum where
  type : TypeKey
  content : Content

inductive Value.Shows (o : List Value) : Value → Content → Prop
  | plain {v} (h : ∀ fields, v ≠ .record fields) : Shows o v (.plain v)
  | record {fields : List (String × Instance)} {data : List (String × TypeKey × Content)}
      {value : ℕ → Value}
      (hn : fields.map (fun f => (f.1, f.2.type)) = data.map (fun d => (d.1, d.2.1)))
      (hv : ∀ k name i, fields[k]? = some (name, i) → o[i.object]? = some (value k))
      (hd : ∀ k name type content, data[k]? = some (name, type, content) →
        Shows o (value k) content) :
      Shows o (.record fields) (.record data)

theorem Value.Shows.mono {o o' : List Value} {v : Value} {content : Content}
    (h : v.Shows o content) (ho : o <+: o') : v.Shows o' content := by
  induction h with
  | plain h => exact .plain h
  | record hn hv hd ih =>
    refine .record hn (fun k name i hi => ?_) ih
    obtain ⟨rest, rfl⟩ := ho
    have hk := hv k name i hi
    rw [List.getElem?_append_left (List.getElem?_eq_some_iff.1 hk).1, hk]

theorem Value.Shows.unique {o : List Value} {v : Value} {content content' : Content}
    (h : v.Shows o content) (h' : v.Shows o content') : content = content' := by
  induction h generalizing content' with
  | plain h =>
    cases h' with
    | plain h' => rfl
    | record => exact absurd rfl (h _)
  | @record fields data value hn hv hd ih =>
    cases h' with
    | plain h' => exact absurd rfl (h' _)
    | @record _ data' value' hn' hv' hd' =>
      refine congrArg Content.record (List.ext_getElem? fun k => ?_)
      have hk := congrArg (·[k]?) hn
      have hk' := congrArg (·[k]?) hn'
      simp only [List.getElem?_map] at hk hk'
      cases hf : fields[k]? with
      | none =>
        rw [hf] at hk hk'
        rw [Option.map_eq_none_iff.1 hk.symm, Option.map_eq_none_iff.1 hk'.symm]
      | some f =>
        rw [hf] at hk hk'
        obtain ⟨⟨name, type, content⟩, hd₁, he⟩ := Option.map_eq_some_iff.1 hk.symm
        obtain ⟨⟨name', type', content'⟩, hd₂, he'⟩ := Option.map_eq_some_iff.1 hk'.symm
        cases he
        cases he'
        have hvalue : value k = value' k :=
          Option.some.inj ((hv k _ _ hf).symm.trans (hv' k _ _ hf))
        have hcontent := ih k _ _ _ hd₁ (hvalue ▸ hd' k _ _ _ hd₂)
        rw [hd₁, hd₂, hcontent]

def Instance.Shows (o : List Value) (i : Instance) (d : Datum) : Prop :=
  i.type = d.type ∧ ∃ v, o[i.object]? = some v ∧ v.Shows o d.content

namespace Instance.Shows

variable {o o' : List Value} {i : Instance} {d d' : Datum}

theorem mono (h : i.Shows o d) (ho : o <+: o') : i.Shows o' d := by
  obtain ⟨ht, v, hv, hs⟩ := h
  refine ⟨ht, v, ?_, hs.mono ho⟩
  obtain ⟨rest, rfl⟩ := ho
  rw [List.getElem?_append_left (List.getElem?_eq_some_iff.1 hv).1, hv]

theorem unique (h : i.Shows o d) (h' : i.Shows o d') : d = d' := by
  obtain ⟨ht, v, hv, hs⟩ := h
  obtain ⟨ht', v', hv', hs'⟩ := h'
  cases hv.symm.trans hv'
  cases d
  cases d'
  cases ht.symm.trans ht'
  exact congrArg _ (hs.unique hs')

theorem of_new {v : Value} {content : Content} (h : v.Shows o content) (type : TypeKey) :
    Shows (o ++ [v]) ⟨type, o.length⟩ ⟨type, content⟩ :=
  ⟨rfl, v, List.getElem?_concat_length, h.mono (List.prefix_append _ _)⟩

end Instance.Shows

def Foretold (means : α → β → Prop) : Except Failure β → Except Failure α → Prop
  | .ok b, .ok a => means a b
  | .error f, .error f' => f = f'
  | _, _ => False

namespace Foretold

variable {means means' : α → β → Prop} {r : Except Failure α} {r' : Except Failure β}

theorem ok_left {b : β} : Foretold means (.ok b) r ↔ ∃ a, r = .ok a ∧ means a b := by
  cases r <;> simp [Foretold]

theorem error_left {f : Failure} : Foretold means (.error f) r ↔ r = .error f := by
  cases r <;> simp [Foretold, eq_comm]

theorem ok_right {a : α} : Foretold means r' (.ok a) ↔ ∃ b, r' = .ok b ∧ means a b := by
  cases r' <;> simp [Foretold]

theorem error_right {f : Failure} : Foretold means r' (.error f) ↔ r' = .error f := by
  cases r' <;> simp [Foretold]

theorem imp (h : Foretold means r' r) (hm : ∀ a b, means a b → means' a b) :
    Foretold means' r' r := by
  cases r with
  | error f => exact error_right.2 (error_right.1 h)
  | ok a =>
    obtain ⟨b, hb, hab⟩ := ok_right.1 h
    exact ok_right.2 ⟨b, hb, hm a b hab⟩

end Foretold

def Arguments.Show (o : List Value) (args : Arguments) (data : List (String × Datum)) : Prop :=
  List.Forall₂ (fun a d => a.1 = d.1 ∧ a.2.Shows o d.2) args.values data

def Datum.field (d : String × Datum) : String × TypeKey × Content := (d.1, d.2.type, d.2.content)

theorem Arguments.Show.record {o : List Value} {args : Arguments} {data : List (String × Datum)}
    (h : args.Show o data) :
    Value.Shows o (.record args.values) (.record (data.map Datum.field)) := by
  obtain ⟨hlen, hget⟩ := List.forall₂_iff_get.1 h
  let value (k : ℕ) : Value := ((args.values[k]?.bind fun a => o[a.2.object]?)).getD default
  refine @Value.Shows.record o _ _ value ?_ ?_ ?_
  · refine List.ext_getElem (by simpa using hlen) fun k hk hk' => ?_
    simp only [List.length_map] at hk hk'
    obtain ⟨hname, htype, -⟩ := hget k hk hk'
    simpa [Datum.field] using ⟨hname, htype⟩
  · intro k name i hi
    obtain ⟨hk, hi'⟩ := List.getElem?_eq_some_iff.1 hi
    obtain ⟨-, -, v, hv, -⟩ := hget k hk (hlen ▸ hk)
    have hv : o[i.object]? = some v := by simpa [hi'] using hv
    simp [value, hi, hv]
  · intro k name type content hd
    rw [List.getElem?_map] at hd
    obtain ⟨d, hd, he⟩ := Option.map_eq_some_iff.1 hd
    obtain ⟨hk, rfl⟩ := List.getElem?_eq_some_iff.1 hd
    cases he
    have hk : k < args.values.length := hlen ▸ hk
    obtain ⟨-, -, v, hv, hs⟩ := hget k hk (hlen ▸ hk)
    have hvalue : value k = v := by
      have hv : o[args.values[k].2.object]? = some v := hv
      simp [value, List.getElem?_eq_getElem hk, hv]
    rw [hvalue]
    exact hs

structure Want where
  name : String
  declared : Declared
  default : Option Datum

structure Parameter.Shows (o : List Value) (p : Parameter) (q : Want) : Prop where
  name : p.name = q.name
  declared : p.declared = q.declared
  default : Option.Rel (Instance.Shows o) p.default q.default

theorem Parameter.Shows.mono {o o' : List Value} {p : Parameter} {q : Want} (h : p.Shows o q)
    (ho : o <+: o') : p.Shows o' q where
  name := h.name
  declared := h.declared
  default := by
    obtain ⟨-, -, hd⟩ := h
    generalize p.default = i at hd ⊢
    generalize q.default = d at hd ⊢
    cases hd with
    | none => exact .none
    | some hd => exact .some (hd.mono ho)

def Growth.appends : Growth where
  grows o o' := o <+: o'
  refl _ := List.prefix_rfl
  trans := List.IsPrefix.trans

end Wiring
