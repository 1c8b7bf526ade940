import Wiring.Parameter

namespace Wiring

abbrev Shape := List (String × TypeKey)

namespace Shape

def parameters (s : Shape) : List Parameter := s.map (fun (name, type) => ⟨name, .typed type, none⟩)

def fill (s : Shape) (args : Arguments) : Except Error (List (String × Instance)) :=
  s.mapM (fun (name, type) => do return (name, ← args.get name type))

end Shape

end Wiring
