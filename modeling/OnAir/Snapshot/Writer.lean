import OnAir.Bytes
import OnAir.Snapshot.Basic

set_option autoImplicit false

namespace OnAir.Snapshot

def Header.bytes (header : Header) : List UInt8 :=
  magic ++ Bytes.ofNat 2 header.format.toNat ++ Bytes.ofNat 8 header.boardVersion.toNat ++
    Bytes.ofNat 4 header.lineCount.toNat

def count? (counted : Counted) (n : Nat) : Except Fault UInt32 :=
  if n < UInt32.size then .ok (.ofNat n) else .error (.tooMany counted n)

def countBytes (counted : Counted) (n : Nat) : Except Fault (List UInt8) :=
  (count? counted n).map fun c => Bytes.ofNat 4 c.toNat

def textBytes (s : String) : Except Fault (List UInt8) :=
  (countBytes .identifierBytes (Utf8.encode s).length).map (· ++ Utf8.encode s)

def flagByte (flag : Bool) : UInt8 := if flag then 1 else 0

def durationBytes : Option Int64 → List UInt8
  | none => [0]
  | some duration => 1 :: Bytes.ofNat 8 duration.toUInt64.toNat

def airingBytes (airing : Airing) : Except Fault (List UInt8) := do
  let origin ← textBytes airing.origin.text
  let originLine ← textBytes airing.originLine.text
  return origin ++ originLine ++ [airing.reach.byte, flagByte airing.continued] ++
    Bytes.ofNat 8 airing.elapsed.toNat ++ durationBytes airing.duration

def entryBytes (entry : Id .layer × Option Airing) : Except Fault (List UInt8) := do
  let layer ← textBytes entry.1.text
  match entry.2 with
  | none => return layer ++ [0]
  | some airing => return layer ++ 1 :: (← airingBytes airing)

def lineBytes (line : Id .line × Lineup) : Except Fault (List UInt8) := do
  let id ← textBytes line.1.text
  let count ← countBytes .layers line.2.size
  let entries ← line.2.entries.mapM entryBytes
  return id ++ count ++ entries.flatten

def write (snapshot : Snapshot) : Except Fault (List UInt8) := do
  let lines ← snapshot.board.lines.entries.mapM lineBytes
  return snapshot.header.bytes ++ lines.flatten

def ofBoard (board : Board) : Except Fault Snapshot := do
  let count ← count? .lines board.lines.size
  return ⟨⟨currentFormat, board.version, count⟩, board⟩

end OnAir.Snapshot
