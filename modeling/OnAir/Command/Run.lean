import OnAir.Command.Arguments
import OnAir.Command.Folder
import OnAir.Command.Listing
import OnAir.Edit.Json
import OnAir.Session
import OnAir.Snapshot.Reader
import OnAir.Snapshot.Writer

set_option autoImplicit false

namespace OnAir.Command

structure Failure where
  context : String
  causes : List String
  deriving DecidableEq, Repr

namespace Failure

def indent (first rest : String) (cause : String) : List String :=
  match cause.splitOn "\n" with
  | [] => []
  | line :: lines => (first ++ line) :: lines.map (rest ++ ·)

def causeLines : List String → List String
  | [cause] => indent "    " "    " cause
  | causes => causes.zipIdx.flatMap fun (cause, n) =>
    indent ("    " ++ toString n ++ ": ") "       " cause

def message (failure : Failure) : String :=
  let head := "Error: " ++ failure.context
  if failure.causes.isEmpty then head
  else "\n".intercalate (head :: "" :: "Caused by:" :: causeLines failure.causes)

end Failure

structure Ending where
  code : UInt8
  error : String
  deriving DecidableEq, Repr

variable {m : Type → Type} [Monad m] [Host m]

abbrev Step (m : Type → Type) (α : Type) : Type := ExceptT Failure m α

def print (s : String) : Step m Unit := ExceptT.lift (Host.printLine s)

def printAll (lines : List String) : Step m Unit := lines.forM print

def loadRundown (path : String) : Step m Rundown := do
  match ← ExceptT.lift (Host.load path) with
  | .error fault => throw ⟨"Failed to read " ++ path, [fault.message]⟩
  | .ok bytes =>
    match Utf8.decode bytes with
    | .error _ => throw ⟨"Failed to read " ++ path, ["stream did not contain valid UTF-8"]⟩
    | .ok s =>
      match Rundown.parse? s with
      | some rundown => return rundown
      | none => throw ⟨"Failed to parse rundown " ++ path, ["not the JSON of a rundown"]⟩

def loadEdits (path : String) : Step m (List Edit) := do
  let unreadable : Failure := ⟨"Failed to parse edit script", ["not the JSON of an edit script"]⟩
  match ← ExceptT.lift (Host.load path) with
  | .error fault =>
    if fault = .isDirectory then
      throw unreadable
    throw ⟨"Failed to open " ++ path, [fault.message]⟩
  | .ok bytes =>
    match (Utf8.decode bytes).toOption.bind Edit.parseScript? with
    | some edits => return edits
    | none => throw unreadable

/-- The causes of a snapshot's fault: data that ends early is the system's own fault. -/
def snapshotCauses (fault : Snapshot.Fault) : List String :=
  match fault with
  | .endOfData => [fault.message, Snapshot.Fault.endOfDataCause]
  | fault => [fault.message]

def orSnapshotFault {α : Type} (context : String) : Except Snapshot.Fault α → Step m α
  | .ok a => return a
  | .error fault => throw ⟨context, snapshotCauses fault⟩

def loadSnapshot (path : String) : Step m Snapshot := do
  let context := "Failed to read snapshot"
  match ← ExceptT.lift (Host.load path) with
  | .error fault =>
    if fault = .isDirectory then
      throw ⟨context, ["IO error: " ++ fault.message, fault.message]⟩
    throw ⟨"Failed to open snapshot file", [fault.message]⟩
  | .ok bytes => orSnapshotFault context (Snapshot.read bytes)

/-- The file is there, empty, before the snapshot is made. -/
def saveSnapshot (board : Board) (path : String) : Step m Unit := do
  let write (bytes : List UInt8) : Step m Unit := do
    match ← ExceptT.lift (Host.save path bytes) with
    | .error fault => throw ⟨"Failed to create snapshot file", [fault.message]⟩
    | .ok () => pure ()
  write []
  let snapshot ← orSnapshotFault "Failed to capture snapshot" (Snapshot.ofBoard board)
  write (← orSnapshotFault "Failed to write snapshot" snapshot.write)
  print ("Wrote snapshot to " ++ path)

def orFailedToResolve {α : Type} : Except Fault α → Step m α
  | .ok a => return a
  | .error fault => throw ⟨"Failed to resolve rundown", [fault.message]⟩

def replayEdits (session : Session) : Nat → List Edit → Step m Session
  | _, [] => return session
  | index, edit :: rest => do
    let (result, session) := session.apply edit .unset
    print (editLine index result)
    replayEdits session (index + 1) rest

def perform (settings : Settings) : Task → Step m Unit
  | .resolve input start runToEnd output => do
    let rundown ← loadRundown input
    let (result, publisher) := (Publisher.fresh settings).recompute rundown (start.map Id.mk)
      (if runToEnd then .runToEnd else .suffix) false
    print (resolvedLine (← orFailedToResolve result))
    printAll (rundownLines rundown publisher.board)
    output.forM (saveSnapshot publisher.board)
  | .replay input edits output => do
    let rundown ← loadRundown input
    let edits ← loadEdits edits
    let session ← orFailedToResolve (Session.start rundown settings)
    print ("Replaying " ++ toString edits.length ++ " edits")
    let session ← replayEdits session 0 edits
    printAll (rundownLines session.rundown session.publisher.board)
    output.forM (saveSnapshot session.publisher.board)
  | .inspect input => do
    let snapshot ← loadSnapshot input
    printAll (snapshotLines snapshot)

def usage : String := "Usage: rundown [OPTIONS] <COMMAND>"

def helpLines : List String :=
  ["Rundown continuity - resolve infinite items across lines and segments", "", usage, "",
    "Commands:",
    "  resolve INPUT [--from LINE] [--run-to-end] [-o FILE]",
    "  replay INPUT EDITS [-o FILE]",
    "  inspect INPUT", "",
    "Options:",
    "  --cancel-check-interval N  Lines walked between cancellation checks",
    "  --keep-orphans             Keep entries of lines that are no longer in the rundown",
    "  -h, --help                 Print help",
    "  -V, --version              Print version"]

def version : String := "rundown 0.1.0"

def run (args : List String) : m Ending := do
  match ofArguments args with
  | .error .usage => return ⟨2, usage⟩
  | .error .version =>
    Host.printLine version
    return ⟨0, ""⟩
  | .error .help =>
    helpLines.forM Host.printLine
    return ⟨0, ""⟩
  | .ok (settings, task) =>
    match ← (perform settings task).run with
    | .ok () => return ⟨0, ""⟩
    | .error failure => return ⟨1, failure.message⟩

def runIn (folder : Folder) (args : List String) : Ending × Folder :=
  (run args : StateM Folder Ending).run folder

end OnAir.Command
