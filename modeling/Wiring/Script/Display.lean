import Wiring.Script.Expr
import Wiring.Script.Answer

namespace Wiring.Script

open Text (quoted bracketed)

def recordText (type : TypeKey) : String :=
  match Tag.ofKey? type with
  | some (.numbered n) => "class " ++ toString n
  | some tag => ((Tag.named.find? (·.2 = tag)).map (·.1)).getD type.name
  | none => type.name

def valueText (type : TypeKey) : Value → String
  | .text s => if type = Tag.greeter.key then greeting s else s
  | .integer n => toString n
  | .float bits => Decimal.bitsText bits
  | .boolean b => toString b
  | .document t => (Answer.ofTree t).compact
  | .counter n => toString n.toNat
  | .record _ => recordText type

def braced (name : String) (members : List (String × String)) : String :=
  name ++ " \x7b " ++ ", ".intercalate (members.map (fun (k, v) => k ++ ": " ++ v)) ++ " \x7d"

def instanceText (i : Instance) : String := "Instance(" ++ i.type.name ++ ")"

def parameterText (p : Parameter) : String :=
  braced "Parameter"
    [("name", quoted p.name),
      ("type", match p.type? with | some t => "Some(" ++ quoted t.name ++ ")" | none => "None"),
      ("has_default", toString p.default.isSome),
      ("autowire", toString p.autowires?.isSome)]

def argumentsText (a : Arguments) : String :=
  braced "Arguments"
    [("target", quoted a.target),
      ("values", bracketed (a.values.map (fun (n, i) =>
        "(" ++ quoted n ++ ", " ++ instanceText i ++ ")")))]

def logicText : Logic client → String
  | .made provides .. => "Factory(" ++ provides.name ++ ")"
  | .given provides .. => "Factory(" ++ provides.name ++ ")"
  | .constructed provides _ => "Class(" ++ provides.name ++ ")"
  | .literal value _ => "Literal(" ++ value.type.name ++ ")"

def serviceText (name : String) (r : Registration client) : String :=
  braced "RawService"
    [("name", quoted name), ("shared", toString r.shared), ("logic", logicText r.logic)]

def containerText (names : List String) : String :=
  braced "Container" [("id", "#"), ("services", bracketed (names.map quoted))]

def parameterInfo (p : Parameter) : Result :=
  .object
    [("name", .text p.name),
      ("type", match p.type? with | some t => .text t.name | none => .null),
      ("default", match p.default with | some i => .instance i | none => .null),
      ("debug", .text (parameterText p))]

def serviceInfo (info : ServiceInfo) : Result :=
  .object
    [("name", .text info.name),
      ("shared", .boolean info.shared),
      ("type", .text info.type.name),
      ("params", .list (info.parameters.map .text)),
      ("cached", .boolean info.cached)]

def argumentsInfo (a : Arguments) : Result :=
  .object
    [("target", .text a.target),
      ("len", .number a.values.length),
      ("is_empty", .boolean a.values.isEmpty),
      ("items", .list (a.values.map (fun (n, i) => .list [.text n, .instance i]))),
      ("debug", .text (argumentsText a))]

def logicInfo (name : String) (r : Registration client) (parameters : List Parameter) : Result :=
  .object
    [("provides", .text r.provides.name),
      ("name", .text name),
      ("shared", .boolean r.shared),
      ("params", .list (parameters.map parameterInfo)),
      ("same_logic_params", .boolean true),
      ("debug", .text (logicText r.logic)),
      ("raw_debug", .text (serviceText name r))]

def typesInfo (a b : TypeKey) : Result :=
  .object
    [("eq", .boolean (a = b)),
      ("id_eq", .boolean (a = b)),
      ("hash_eq", .boolean (a = b)),
      ("name", .text a.name),
      ("debug", .text ("TypeKey(" ++ a.name ++ ")"))]

def instanceInfo (i : Instance) : Result :=
  .object
    [("type", .text i.type.name),
      ("key", .text i.type.name),
      ("debug", .text (instanceText i))]

def entryInfo (e : Config.Entry) : Result :=
  .object [("name", .text e.name), ("shared", .boolean e.shared), ("value", .tree e.value)]

end Wiring.Script
