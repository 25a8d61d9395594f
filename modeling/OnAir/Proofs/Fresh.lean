import OnAir.Proofs.Acceptance
import OnAir.Proofs.Command
import OnAir.Proofs.Counting
import OnAir.Proofs.Rundown.RoundTrip
import OnAir.Proofs.Snapshot.RoundTrip
import OnAir.Proofs.Start

set_option autoImplicit false

namespace OnAir

namespace Lane

end Lane

namespace Walk

variable {walk : Walk} {feeds : Feeds} {last : Option (Id .segment)} {spots : List Spot}

end Walk

namespace Publisher

variable {publisher : Publisher} {rundown : Rundown} {layers : List (Id .layer)} {spots : List Spot}

end Publisher

namespace Command

open Publisher

section Host

variable {m : Type → Type} [Monad m] [LawfulMonad m] [Host m]

def present (rundown : Rundown) (report : Report) (board : Board) (output : Option String) :
    Step m Unit := do
  print (resolvedLine report)
  printAll (rundownLines rundown board)
  output.forM (saveSnapshot board)

end Host

variable {folder : Folder}

end Command

end OnAir
