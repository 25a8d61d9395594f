import OnAir.Board
import OnAir.Utf8

set_option autoImplicit false

namespace OnAir.Snapshot

structure Header where
  format : UInt16
  boardVersion : UInt64
  lineCount : UInt32
  deriving DecidableEq, Repr

def currentFormat : UInt16 := 1

/-- The bytes with which every snapshot begins: `RDNS`. -/
def magic : List UInt8 := [0x52, 0x44, 0x4E, 0x53]

inductive Counted where
  | lines | layers | identifierBytes
  deriving DecidableEq, Repr

def Counted.word : Counted → String
  | lines => "line"
  | layers => "layer"
  | identifierBytes => "identifier byte"

inductive Fault where
  /-- The bytes end inside a number or the magic. -/
  | endOfData
  | badMagic
  | format (version : UInt16)
  | identifierTruncated (expected found : Nat)
  | identifierEncoding (fault : Utf8.Fault)
  | presence (line : Id .line) (layer : Id .layer) (tag : UInt8)
  | reach (origin : Id .item) (code : UInt8)
  | tooMany (counted : Counted) (count : Nat)
  deriving DecidableEq, Repr

namespace Fault

def detail : Fault → Option String
  | identifierTruncated expected found =>
    some ("identifier truncated: expected " ++ toString expected ++ " bytes, found " ++
      toString found)
  | identifierEncoding fault => some ("non-UTF-8 identifier: " ++ fault.message)
  | presence line layer tag =>
    some ("line " ++ line.text ++ " layer " ++ layer.text ++ ": bad presence tag " ++
      toString tag.toNat)
  | reach origin code =>
    some ("item " ++ origin.text ++ ": unknown infinite mode " ++ toString code.toNat)
  | tooMany counted count =>
    some (counted.word ++ " count " ++ toString count ++ " exceeds the format limit")
  | endOfData | badMagic | format _ => none

/-- The words of the system for data that ends early. -/
def endOfDataCause : String := "failed to fill whole buffer"

def message (fault : Fault) : String :=
  match fault with
  | endOfData => "IO error: " ++ endOfDataCause
  | badMagic => "Invalid magic bytes, expected 'RDNS'"
  | format version => "Unsupported version: " ++ toString version.toNat
  | fault => "Invalid snapshot entry: " ++ fault.detail.getD ""

end Fault

end OnAir.Snapshot

namespace OnAir

/-- A board under a header of its own, so that what was read can be written again as announced. -/
structure Snapshot where
  header : Snapshot.Header
  board : Board
  deriving DecidableEq

def Reach.byte : Reach → UInt8
  | ownLine => 0
  | nextItem => 1
  | segmentEnd => 2
  | rundownEnd => 3

def Reach.ofByte? (code : UInt8) : Option Reach :=
  [ownLine, nextItem, segmentEnd, rundownEnd].find? fun reach => reach.byte = code

theorem Reach.ofByte?_byte (reach : Reach) : Reach.ofByte? reach.byte = some reach := by
  cases reach <;> rfl

end OnAir
