import OnAir.Command.Host

set_option autoImplicit false

/-!
A folder of files in memory, as a host. Paths are followed name by name, as POSIX lays down; of what
is outside the folder, only what every system has is known.
-/
namespace OnAir.Command

structure Folder where
  files : List (String × List UInt8)
  printed : String

namespace Folder

inductive Directory where
  | inside (names : List String)
  | above
  | system (names : List String)
  deriving DecidableEq, Repr

def Directory.parent : Directory → Directory
  | inside [] => above
  | inside names => inside names.dropLast
  | above => above
  | system names => system names.dropLast

inductive Entry where
  | file (name : String)
  | directory (place : Directory)
  /-- Holds nothing, and keeps nothing of what is written to it. -/
  | nullDevice
  deriving DecidableEq, Repr

def stays (name : String) : Bool := name = "" || name = "."

def steps (path : String) : List String := (path.splitOn "/").filter fun name => !stays name

def nameLimit : Nat := 255

def pathLimit : Nat := 4095

/-- The directories at the root (Filesystem Hierarchy Standard). -/
def rootDirectories : List String :=
  ["bin", "boot", "dev", "etc", "home", "lib", "media", "mnt", "opt", "proc", "root", "run", "sbin",
    "srv", "sys", "tmp", "usr", "var"]

def entry? (folder : Folder) (place : Directory) (name : String) : Option Entry :=
  match place with
  | .inside names =>
    let names := names ++ [name]
    match folder.files.find? fun f => steps f.1 = names with
    | some f => some (.file f.1)
    | none =>
      if folder.files.any fun f => names.isPrefixOf (steps f.1) then
        some (.directory (.inside names))
      else none
  | .above => none
  | .system [] =>
    if rootDirectories.contains name then some (.directory (.system [name])) else none
  | .system names => if names ++ [name] = ["dev", "null"] then some .nullDevice else none

def lookUp (folder : Folder) (place : Directory) (name : String) :
    Except HostFault (Option Entry) :=
  if nameLimit < name.utf8ByteSize then .error .nameTooLong else .ok (folder.entry? place name)

/-- Follows names, of which each but the last has to lead to a directory. -/
def follow (folder : Folder) : Entry → List String → Except HostFault Entry
  | entry, [] => .ok entry
  | .directory place, name :: rest =>
    if stays name then follow folder (.directory place) rest
    else if name = ".." then follow folder (.directory place.parent) rest
    else
      match folder.lookUp place name with
      | .error fault => .error fault
      | .ok none => .error .missing
      | .ok (some entry) => follow folder entry rest
  | .file _, _ :: _ => .error .notDirectory
  | .nullDevice, _ :: _ => .error .notDirectory

def origin (path : String) : Directory :=
  if path.toList.head? = some '/' then .system [] else .inside []

def find (folder : Folder) (path : String) : Except HostFault Entry :=
  if pathLimit < path.utf8ByteSize then .error .nameTooLong
  else folder.follow (.directory (origin path)) (path.splitOn "/")

def splitLast? (path : String) : Option (List String × String × Bool) :=
  match (path.splitOn "/").reverse with
  | [] => none
  | last :: before =>
    match (last :: before).dropWhile (· = "") with
    | [] => none
    | name :: before => some (before.reverse, name, last = "")

/-- The place for a new file, or what is there already. A file is not made under a name that has to
be a directory's. -/
def findOrMake (folder : Folder) (path : String) : Except HostFault (Entry ⊕ Directory × String) :=
  if pathLimit < path.utf8ByteSize then .error .nameTooLong
  else
    match splitLast? path with
    | none => .error .isDirectory
    | some (before, name, slash) =>
      match folder.follow (.directory (origin path)) before with
      | .error fault => .error fault
      | .ok (.directory place) =>
        if stays name || name = ".." || slash then .error .isDirectory
        else
          (folder.lookUp place name).map fun
            | some entry => .inl entry
            | none => .inr (place, name)
      | .ok _ => .error .notDirectory

def load (folder : Folder) (path : String) : Except HostFault (List UInt8) :=
  match folder.find path with
  | .error fault => .error fault
  | .ok (.file name) => .ok ((folder.files.lookup name).getD [])
  | .ok (.directory _) => .error .isDirectory
  | .ok .nullDevice => .ok []

def put (folder : Folder) (name : String) (bytes : List UInt8) : Folder :=
  { folder with files := (name, bytes) :: folder.files.filter fun f => f.1 ≠ name }

def save (folder : Folder) (path : String) (bytes : List UInt8) :
    Except HostFault Unit × Folder :=
  match folder.findOrMake path with
  | .error fault => (.error fault, folder)
  | .ok (.inl (.file name)) => (.ok (), folder.put name bytes)
  | .ok (.inl (.directory _)) => (.error .isDirectory, folder)
  | .ok (.inl .nullDevice) => (.ok (), folder)
  | .ok (.inr (.inside names, name)) =>
    (.ok (), folder.put ("/".intercalate (names ++ [name])) bytes)
  | .ok (.inr _) => (.ok (), folder)

end Folder

instance : Host (StateM Folder) where
  load path := return (← get).load path
  save path bytes := modifyGet fun folder => folder.save path bytes
  printLine s := modify fun folder => { folder with printed := folder.printed ++ s ++ "\n" }

end OnAir.Command
