set_option autoImplicit false

namespace OnAir.Command

structure HostFault where
  words : String
  code : Nat
  deriving DecidableEq, Repr

namespace HostFault

def missing : HostFault := ⟨"No such file or directory", 2⟩

def notDirectory : HostFault := ⟨"Not a directory", 20⟩

/-- A directory can be opened, but not read or written. -/
def isDirectory : HostFault := ⟨"Is a directory", 21⟩

def nameTooLong : HostFault := ⟨"File name too long", 36⟩

def message (fault : HostFault) : String :=
  fault.words ++ " (os error " ++ toString fault.code ++ ")"

end HostFault

class Host (m : Type → Type) where
  load : String → m (Except HostFault (List UInt8))
  save : String → List UInt8 → m (Except HostFault Unit)
  printLine : String → m Unit

end OnAir.Command
