import Wiring.Error
import Wiring.Yaml.Tree

namespace Wiring

abbrev ObjectId := Nat

structure Instance where
  type : TypeKey
  object : ObjectId
  deriving DecidableEq, Repr

inductive Value
  | text (s : String)
  | integer (n : Int)
  | float (bits : UInt64)
  | boolean (b : Bool)
  | document (tree : Yaml.Tree)
  | counter (count : UInt64)
  | record (fields : List (String × Instance))
  deriving Inhabited

def Instance.cast (i : Instance) (type : TypeKey) (what : String) : Except Error Instance :=
  if i.type = type then .ok i else .error (.typeMismatch what type i.type)

theorem Instance.cast_eq_ok {i j : Instance} {type : TypeKey} {what : String} :
    i.cast type what = .ok j ↔ i.type = type ∧ j = i := by
  unfold cast; split <;> simp_all [eq_comm]

end Wiring
