import OnAir.Bytes
import OnAir.Snapshot.Basic

set_option autoImplicit false

namespace OnAir.Snapshot

abbrev Reader (α : Type) : Type := StateT (List UInt8) (Except Fault) α

namespace Reader

def take (n : Nat) : Reader (List UInt8) := do
  match Bytes.split? n (← get) with
  | none => throw .endOfData
  | some (taken, rest) =>
    set rest
    return taken

def number (width : Nat) : Reader Nat := return Bytes.toNat (← take width)

def byte : Reader UInt8 := return .ofNat (← number 1)

def header : Reader Header := do
  if (← take 4) ≠ magic then
    throw .badMagic
  let format := UInt16.ofNat (← number 2)
  if format ≠ currentFormat then
    throw (.format format)
  let boardVersion := UInt64.ofNat (← number 8)
  let lineCount := UInt32.ofNat (← number 4)
  return ⟨format, boardVersion, lineCount⟩

def text : Reader String := do
  let length ← number 4
  let bytes ← get
  match Bytes.split? length bytes with
  | none => throw (.identifierTruncated length bytes.length)
  | some (taken, rest) =>
    set rest
    match Utf8.decode taken with
    | .error fault => throw (.identifierEncoding fault)
    | .ok s => return s

def duration : Reader (Option Int64) := do
  if (← byte) = 0 then
    return none
  return some (UInt64.ofNat (← number 8)).toInt64

def airing : Reader Airing := do
  let origin : Id .item := ⟨← text⟩
  let originLine : Id .line := ⟨← text⟩
  let code ← byte
  match Reach.ofByte? code with
  | none => throw (.reach origin code)
  | some reach =>
    let continued := (← byte) ≠ 0
    let elapsed := UInt64.ofNat (← number 8)
    let duration ← duration
    return { origin, originLine, reach, continued, elapsed, duration }

def entry (line : Id .line) (layer : Id .layer) : Reader (Option Airing) := do
  let tag ← byte
  if tag = 0 then
    return none
  else if tag = 1 then
    return some (← airing)
  else
    throw (.presence line layer tag)

def entries (line : Id .line) : Nat → Lineup → Reader Lineup
  | 0, lineup => return lineup
  | n + 1, lineup => do
    let layer : Id .layer := ⟨← text⟩
    let entry ← entry line layer
    entries line n (lineup.insert layer entry)

def lines : Nat → Board → Reader Board
  | 0, board => return board
  | n + 1, board => do
    let line : Id .line := ⟨← text⟩
    let count ← number 4
    let lineup ← entries line count .empty
    lines n (board.put line lineup)

def snapshot : Reader Snapshot := do
  let header ← header
  let board ← lines header.lineCount.toNat ⟨header.boardVersion, .empty⟩
  return ⟨header, board⟩

end Reader

/-- Reads a snapshot off the front of some bytes; what follows it does not matter. -/
def read (bytes : List UInt8) : Except Fault Snapshot := (Reader.snapshot.run bytes).map Prod.fst

def Header.read (bytes : List UInt8) : Except Fault Header :=
  (Reader.header.run bytes).map Prod.fst

end OnAir.Snapshot
