import OnAir.Id

set_option autoImplicit false

namespace OnAir

inductive Fault where
  | notFound (name : Name)
  | duplicate (name : Name)
  | negativeDuration (item : Id .item) (duration : Int64)
  | cancelled
  /-- A pass that settles no layer met a settled one. -/
  | diverged
  /-- A line that was moved is not in the running order afterwards. -/
  | lostWhileMoving (line : Id .line)
  deriving DecidableEq, Repr

def Fault.message : Fault → String
  | .notFound name => name.kind.word ++ " not found: " ++ name.text
  | .duplicate name => "Invalid state: duplicate " ++ name.kind.word ++ " id " ++ name.text
  | .negativeDuration item duration =>
    "Invalid state: infinite item " ++ item.text ++ " has negative expected duration " ++
      toString duration.toInt ++ "ms"
  | .cancelled => "Recompute cancelled"
  | .diverged => "Invalid state: run-to-end pass reported divergence"
  | .lostWhileMoving line => "Invalid state: line " ++ line.text ++ " lost while moving"

end OnAir
