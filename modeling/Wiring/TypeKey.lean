/-!
Types of instances. Several types may have one name, as when a function declares a type of its own
in each of two blocks; `id` tells them apart.
-/
namespace Wiring

structure TypeKey where
  name : String
  id : Nat
  deriving DecidableEq, Repr, Inhabited

namespace TypeKey

def of (name : String) : TypeKey := ⟨name, 0⟩

def text : TypeKey := .of "alloc::string::String"
def i64 : TypeKey := .of "i64"
def u64 : TypeKey := .of "u64"
def f64 : TypeKey := .of "f64"
def boolean : TypeKey := .of "bool"
def yaml : TypeKey := .of "serde_yaml::value::Value"

end TypeKey

end Wiring
