import OnAir.Edit
import OnAir.Publisher

set_option autoImplicit false

namespace OnAir

structure Session where
  rundown : Rundown
  publisher : Publisher

namespace Session

def start (rundown : Rundown) (settings : Settings) : Except Fault Session :=
  match (Publisher.fresh settings).recompute rundown none .runToEnd .unset with
  | (.error fault, _) => .error fault
  | (.ok _, publisher) => .ok ⟨rundown, publisher⟩

def keepUp (publisher : Publisher) (rundown : Rundown) (token : Token) :
    Upkeep → Except Fault Report × Publisher
  | .recompute start mode removed => publisher.update rundown start mode token removed
  | .forget line =>
    let (report, publisher) := publisher.forget [line]
    (.ok report, publisher)

/-- Makes an edit and brings the board up to date. When either fails, the rundown is again the one
from before. -/
def apply (session : Session) (edit : Edit) (token : Token) : Except Fault Report × Session :=
  match edit.change.apply session.rundown with
  | (.error fault, _) => (.error fault, session)
  | (.ok upkeep, rundown) =>
    match keepUp session.publisher rundown token upkeep with
    | (.error fault, publisher) => (.error fault, { session with publisher })
    | (.ok report, publisher) => (.ok report, ⟨rundown, publisher⟩)

end Session

end OnAir
