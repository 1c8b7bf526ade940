import Wiring.Record
import Wiring.Decimal.Layout

namespace Wiring.Script

inductive Tag
  | text | i64 | u64 | i32 | u32 | u16 | u8 | usize | f64 | boolean | yaml
  | counter | english | greeter
  | numbered (n : Nat)
  | report | pair | nested | unit
  deriving DecidableEq, Repr

namespace Tag

def key : Tag → TypeKey
  | text => .text
  | i64 => .i64
  | u64 => .u64
  | i32 => .of "i32"
  | u32 => .of "u32"
  | u16 => .of "u16"
  | u8 => .of "u8"
  | usize => .of "usize"
  | f64 => .f64
  | boolean => .boolean
  | yaml => .yaml
  | counter => .of "oracle::Counter"
  | english => .of "oracle::English"
  | greeter => .of "dyn oracle::Greeter"
  | numbered n => .of ("oracle::Class<" ++ toString n ++ ">")
  | report => .of "oracle::Report"
  | pair => .of "oracle::Pair"
  | nested => .of "oracle::Nested"
  | unit => .of "oracle::Unit"

def named : List (String × Tag) :=
  [("String", text), ("i64", i64), ("u64", u64), ("i32", i32), ("u32", u32), ("u16", u16),
    ("u8", u8), ("usize", usize), ("f64", f64), ("bool", boolean), ("Value", yaml),
    ("Counter", counter), ("English", english), ("Greeter", greeter), ("Report", report),
    ("Pair", pair), ("Nested", nested), ("Unit", unit)] ++
  (List.range 6).map (fun n => ("C" ++ toString n, numbered n))

def ofName? (name : String) : Option Tag := named.lookup name

def ofKey? (k : TypeKey) : Option Tag := (named.map Prod.snd).find? (·.key = k)

def shape? : Tag → Option Shape
  | report => some [("title", text.key), ("counter", counter.key)]
  | pair => some [("left", text.key), ("right", text.key)]
  | nested => some [("report", report.key), ("level", u8.key), ("greeter", greeter.key)]
  | unit => some []
  | _ => none

end Tag

def greeting (name : String) : String := "Hello, " ++ name ++ "!"

end Wiring.Script
