import Wiring.Config.Text
import Wiring.Script.Display

namespace Wiring.Script

open Program (perform run request)

structure Scope where
  container : Option ContainerId := none
  arguments : Option Arguments := none

namespace Scope

def pick (s : Scope) (c : Option ContainerId) : ContainerId := (c.or s.container).getD 0

def theArguments (s : Scope) : Program client Arguments :=
  match s.arguments with
  | some a => return a
  | none => .crash "no arguments here"

end Scope

def note (r : Result) : Program client Unit := perform (.note r)

def change (f : Board → Board) : Program client Board := perform (.update f)

def board : Program client Board := change id

def asInstance : Result → Program client Instance
  | .instance i => .done i
  | .text s => allocate .text (.text s)
  | .boolean b => allocate .boolean (.boolean b)
  | _ => .crash "not an instance"

def textOf (i : Instance) : Program client String := do return valueText i.type (← read i)

def newText (s : String) : Program client Result := do
  return .instance (← allocate .text (.text s))

def tally (key : String) : Program client Nat := do
  let before ← change (fun b =>
    { b with counts := b.counts.insert key ((b.counts.get? key).getD 0 + 1) })
  return (before.counts.get? key).getD 0 + 1

def increment (i : Instance) : Program client Instance := do
  let i ← .ofExcept (i.cast Tag.counter.key "incr")
  let _ : Value ← perform (.modify i.object (fun
    | .counter n => .counter (n + 1)
    | v => v))
  return i

def asGreeter (i : Instance) (what : String) : Program client Instance := do
  let i ← .ofExcept (i.cast Tag.english.key what)
  return ⟨Tag.greeter.key, i.object⟩

def index (c : Option ContainerId) : Result :=
  match c with
  | some c => .number c
  | none => .null

def isLiteral : Recipe → Bool
  | .literal _ => true
  | _ => false

def register (c : ContainerId) (via : Via) (name : String) (r : Registration client) :
    Program client Unit := do
  if let .direct also := via then also.forM (Container.register · name r)
  Container.register c name r

def declared (type : Option Tag) (autowire : Bool) : Declared :=
  match type with
  | none => .untyped
  | some t => if autowire then .autowired t.key else .typed t.key

mutual

def eval : Expr → Scope → Program client Result
  | .literal l, _ => do return .instance (← allocate l.type.key l.value)
  | .store name e, s => do
    let i ← asInstance (← eval e s)
    let _ ← change (fun b => { b with named := b.named.insert name i })
    return .instance i
  | .recall name, _ => do
    match (← board).named.get? name with
    | some i => return .instance i
    | none => .crash ("no variable " ++ name)
  | .sequence es, s => do return (← evalAll es s).getLast?.getD .null
  | .list es, s => do return .list (← evalAll es s)
  | .attempt e none, s => do
    match ← (eval e s).attempt with
    | .ok r => return r
    | .error err => do note (.failure err); return .null
  | .attempt e (some otherwise), s => do
    match ← (eval e s).attempt with
    | .ok r => return r
    | .error err => do note (.failure err); eval otherwise s
  | .note e, s => do note (← eval e s); return .null
  | .fail e, _ => .fail e
  | .crash message, _ => .crash message
  | .count key, _ => do
    return .instance (← allocate Tag.u32.key (.integer (← tally key)))
  | .ifCount key limit within beyond, s => do
    if (← tally key) ≤ limit then eval within s else eval beyond s
  | .increment e, s => do return .instance (← increment (← asInstance (← eval e s)))
  | .concat es, s => do newText (← evalTexts es s)
  | .argument name type, s => do
    return .instance (← .ofExcept ((← s.theArguments).get name type.key))
  | .nthArgument position type, s => do
    return .instance (← .ofExcept ((← s.theArguments).nth position type.key))
  | .argumentInstance name, s => do
    return .instance (← .ofExcept ((← s.theArguments).instance? name))
  | .arguments, s => do return argumentsInfo (← s.theArguments)
  | .withoutArguments target e, s => eval e { s with arguments := some ⟨target, []⟩ }
  | .newContainer, _ => do return .number (← perform .newContainer)
  | .add c via name shared recipe, s => do
    let logic ← logic recipe name s
    let shared := shared || match via with | .convenience => isLiteral recipe | _ => false
    register (s.pick c) via name ⟨shared, logic⟩
    return .null
  | .get c name, s => do return .instance (← Container.get (s.pick c) name)
  | .getAs c name type, s => do return .instance (← Container.getAs (s.pick c) name type.key)
  | .has c name, s => do return .boolean (← Container.has (s.pick c) name)
  | .remove c name, s => do return .boolean (← Container.remove (s.pick c) name)
  | .names c, s => do return .list ((← Container.names (s.pick c)).map .text)
  | .describe c name, s => do
    match ← Container.describe (s.pick c) name with
    | some info => return serviceInfo info
    | none => return .null
  | .load c text, s => do return .number (← Config.load Config.ofText (s.pick c) text)
  | .loadFile c file, s => do return .number (← Config.loadFile Config.ofText (s.pick c) file)
  | .config text, _ => do return .list ((← .ofExcept (Config.ofText text)).map entryInfo)
  | .showContainer c, s => do return .text (containerText (← Container.names (s.pick c)))
  | .construct c type overrides, s => do
    return .instance (← request (.class (s.pick c) type.key (← supplied overrides s)))
  | .service c name overrides, s => do
    return .instance (← request (.service (s.pick c) name (← supplied overrides s)))
  | .method c on type name parameters body overrides, s => do
    let i ← .ofExcept ((← asInstance (← eval on s)).cast type.key "method target")
    let parameters ← formals parameters s
    note (.text ("method " ++ name ++ "/" ++ toString parameters.length))
    let overrides ← supplied overrides s
    callMethod (s.pick c) type.key name parameters overrides (fun args => do
      note (.text (name ++ " on " ++ (← textOf i)))
      eval body ⟨none, some args⟩)
  | .isA e type, s => do return .boolean ((← asInstance (← eval e s)).type = type.key)
  | .downcast e type, s => do
    let i ← asInstance (← eval e s)
    return if i.type = type.key then .instance i else .null
  | .cast e type what, s => do
    return .instance (← .ofExcept ((← asInstance (← eval e s)).cast type.key what))
  | .asGreeter e, s => do
    return .instance (← asGreeter (← asInstance (← eval e s)) "as_greeter")
  | .same a b, s => do
    let i ← asInstance (← eval a s)
    let j ← asInstance (← eval b s)
    return .boolean (i = j)
  | .showInstance e, s => do return instanceInfo (← asInstance (← eval e s))
  | .compareTypes a b, _ => return typesInfo a.key b.key
  | .showParameter p, s => do return parameterInfo (← formal p s)
  | .manifest type, _ => do return .list ((← run (.manifest type.key)).map parameterInfo)
  | .showLogic name shared recipe, s => do
    let logic ← logic recipe name s
    return logicInfo name ⟨shared, logic⟩ (← logic.parameters)
  | .defineClass n parameters fields, _ => do
    let _ ← change (fun b => { b with classes := b.classes.insert n ⟨parameters, fields⟩ })
    return .null
  | .installDefault c, _ => do return index (← DefaultContainer.install c)
  | .currentDefault, _ => do return index (← DefaultContainer.current)
  | .getOrInstallDefault, _ => do return .number (← DefaultContainer.getOrInstall)
  | .resetDefault, _ => do return index (← DefaultContainer.reset)
  | .insistDefault type name, _ => do return .instance (← Wiring.insistDefault type.key name)
  | .insistFrom c type name, s => do
    return .instance (← Wiring.insistFrom (s.pick c) type.key name)
  | .threads steps, _ => do
    let ts : List ThreadId ← perform (.spawn (steps.map (·.map .step)))
    perform (.join ts)
    return .threads ts
  | .signal latch, _ => do
    let _ ← change (fun b =>
      { b with latches := b.latches.insert latch ((b.latches.get? latch).getD 0 + 1) })
    return .null
  | .wait latch n, _ => do
    perform (.await (fun b => n ≤ (b.latches.get? latch).getD 0))
    return .null
  | .waitBlocked service n, _ => do
    perform (.awaitWaiters service n)
    return .null

def evalAll : List Expr → Scope → Program client (List Result)
  | [], _ => return []
  | e :: rest, s => do
    let r ← eval e s
    return r :: (← evalAll rest s)

def evalTexts : List Expr → Scope → Program client String
  | [], _ => return ""
  | e :: rest, s => do
    let t ← textOf (← asInstance (← eval e s))
    return t ++ (← evalTexts rest s)

def evalFields : List (String × Expr) → Scope → Program client (List (String × Instance))
  | [], _ => return []
  | (name, e) :: rest, s => do
    let i ← asInstance (← eval e s)
    return (name, i) :: (← evalFields rest s)

def evalPositions : List (Nat × Expr) → Scope → Program client (List (Nat × Instance))
  | [], _ => return []
  | (position, e) :: rest, s => do
    let i ← asInstance (← eval e s)
    return (position, i) :: (← evalPositions rest s)

def supplied : Supplied → Scope → Program client Overrides
  | .mk positional named, s => do
    let positional ← evalPositions positional s
    let named ← evalFields named s
    let o := positional.foldl (fun o (n, i) => o.withPosition n i) (∅ : Overrides)
    return named.foldl (fun o (n, i) => o.withName n i) o

def formal : Formal → Scope → Program client Parameter
  | .mk name type autowire none, _ => return ⟨name, declared type autowire, none⟩
  | .mk name type autowire (some e), s => do
    return ⟨name, declared type autowire, some (← asInstance (← eval e s))⟩

def formals : List Formal → Scope → Program client (List Parameter)
  | [], _ => return []
  | p :: rest, s => do
    let p ← formal p s
    return p :: (← formals rest s)

def logic : Recipe → String → Scope → Program client (Logic client)
  | .literal l, _, _ => do return .literal (← allocate l.type.key l.value) true
  | .factory type body, name, _ => return .made type.key [] (.factory name type body)
  | .containerFactory type body, name, _ =>
    return .made type.key [] (.containerFactory name type body)
  | .withParameters type parameters body, name, s => do
    return .made type.key (← formals parameters s) (.withParameters name type body)
  | .greeter body, name, _ => return .given Tag.greeter.key [] (.greeter name body)
  | .class type, _, _ => return .constructed type.key type.key
  | .variant type parameters body, name, s => do
    return .given type.key (← formals parameters s) (.free name body)
  | .classVariant type built, _, _ => return .constructed type.key built.key
  | .literalVariant body, _, s => do
    return .literal (← asInstance (← eval body { s with container := none })) false
  | .custom type parameters body, name, s => do
    return .given type.key (← formals parameters s) (.free name body)

end

end Wiring.Script
