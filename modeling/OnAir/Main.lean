import OnAir.Command.Run

set_option autoImplicit false

namespace OnAir.Command

/-- A name that is too long is told by its number, which may come negated. -/
def HostFault.ofError : IO.Error → HostFault
  | .noFileOrDirectory _ _ _ => .missing
  | .noSuchThing _ _ _ => .missing
  | .inappropriateType _ 20 _ => .notDirectory
  | .inappropriateType _ 21 _ => .isDirectory
  | .illegalOperation 21 _ => .isDirectory
  | .permissionDenied _ code _ => ⟨"Permission denied", code.toNat⟩
  | .invalidArgument _ code _ =>
    if code = 36 || code = 0 - 36 then .nameTooLong else ⟨"Invalid argument", 22⟩
  | error => ⟨toString error, 5⟩

def attempt {α : Type} (action : IO α) : IO (Except HostFault α) := do
  try
    return .ok (← action)
  catch error =>
    return .error (.ofError error)

instance : Host IO where
  load path := attempt do
    return (← IO.FS.readBinFile path).toList
  save path bytes := attempt (IO.FS.writeBinFile path ⟨bytes.toArray⟩)
  printLine s := IO.println s

end OnAir.Command

def main (args : List String) : IO UInt32 := do
  let ending ← OnAir.Command.run args
  unless ending.error.isEmpty do
    IO.eprintln ending.error
  return ending.code.toUInt32
