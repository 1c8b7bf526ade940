import Wiring.Resolution
import Wiring.Yaml.Tree

namespace Wiring

namespace Config

structure Entry where
  name : String
  value : Yaml.Tree
  shared : Bool

/-- The type and value of a configured service. Tags around the whole value are dropped; what has
no type of its own stays a YAML value. -/
def literal (tree : Yaml.Tree) : TypeKey × Value :=
  match tree.untagged with
  | .text s => (.text, .text s)
  | .boolean b => (.boolean, .boolean b)
  | .integer n => if n < Int.pow 2 63 then (.i64, .integer n) else (.u64, .integer n)
  | .float bits => (.f64, .float bits)
  | t => (.yaml, .document t)

variable {C : Client}

def registerAll (c : ContainerId) : List Entry → Program C Unit
  | [] => .done ()
  | e :: rest => do
    let (type, v) := literal e.value
    Container.register c e.name ⟨e.shared, .literal (← allocate type v) true⟩
    registerAll c rest

def apply (c : ContainerId) (entries : List Entry) : Program C Nat := do
  registerAll c entries
  emit (.configured entries.length)
  return entries.length

abbrev Parser := String → Except Error (List Entry)

def load (parse : Parser) (c : ContainerId) (text : String) : Program C Nat := do
  apply c (← .ofExcept (parse text))

inductive File
  | unreadable (reason : String)
  | contents (bytes : List UInt8)

namespace File

def missing : File := .unreadable "No such file or directory (os error 2)"

def directory : File := .unreadable "Is a directory (os error 21)"

def text : File → Except Error String
  | unreadable reason => .error (.reading reason)
  | contents bytes =>
    match String.fromUTF8? (ByteArray.mk bytes.toArray) with
    | some s => .ok s
    | none => .error (.reading "stream did not contain valid UTF-8")

end File

def loadFile (parse : Parser) (c : ContainerId) (file : File) : Program C Nat := do
  emit .loading
  load parse c (← .ofExcept file.text)

end Config

end Wiring
