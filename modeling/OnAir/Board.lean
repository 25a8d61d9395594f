import OnAir.IdMap
import OnAir.Item

set_option autoImplicit false

namespace OnAir

/-- What a layer shows on one line: an item, since when, and for how long. -/
structure Airing where
  origin : Id .item
  originLine : Id .line
  reach : Reach
  /-- The item was declared on an earlier line. -/
  continued : Bool
  /-- Milliseconds on air when the line starts. -/
  elapsed : UInt64
  /-- Milliseconds inside the line; `none` fills the rest of it. -/
  duration : Option Int64
  deriving DecidableEq, Repr

def Airing.declared (item : Item) (line : Id .line) : Airing where
  origin := item.id
  originLine := line
  reach := item.reach
  continued := false
  elapsed := 0
  duration := if item.reach.lasts && item.duration == 0 then none else some item.duration

/-- Adds two spans of milliseconds; past the largest representable one, the sum stays there. -/
def addTime (a b : UInt64) : UInt64 := .ofNatClamp (a.toNat + b.toNat)

theorem toNat_addTime (a b : UInt64) :
    (addTime a b).toNat = min (a.toNat + b.toNat) (UInt64.size - 1) := by
  unfold addTime UInt64.ofNatClamp
  split
  · rw [UInt64.toNat_ofNatLT]; omega
  · rw [UInt64.toNat_ofNatLT]; omega

/-- What is on air on each layer of one line. An entry `none` says that nothing is. -/
abbrev Lineup : Type := IdMap .layer (Option Airing)

namespace Lineup

def onAir? (lineup : Lineup) (layer : Id .layer) : Option Airing := (lineup.get? layer).join

def activeCount (lineup : Lineup) : Nat := lineup.entries.countP (·.2.isSome)

end Lineup

structure Board where
  version : UInt64
  lines : IdMap .line Lineup
  deriving DecidableEq

namespace Board

def empty : Board := ⟨0, .empty⟩

def line? (board : Board) (id : Id .line) : Option Lineup := board.lines.get? id

def onAir? (board : Board) (line : Id .line) (layer : Id .layer) : Option Airing :=
  (board.line? line).bind (Lineup.onAir? · layer)

def put (board : Board) (id : Id .line) (lineup : Lineup) : Board :=
  { board with lines := board.lines.insert id lineup }

def putAll (board : Board) (lines : List (Id .line × Lineup)) : Board :=
  lines.foldl (fun board e => board.put e.1 e.2) board

def drop (board : Board) (id : Id .line) : Board := { board with lines := board.lines.erase id }

def keep (board : Board) (pass : Id .line → Bool) : Board :=
  { board with lines := board.lines.filter pass }

def advance (board : Board) : Board := { board with version := board.version + 1 }

/-- Two boards show the same, whatever their versions: they have as many lines, and each line of one
is on the other with the same entries. -/
def sameLines (a b : Board) : Bool := a.lines.size == b.lines.size && a.lines.within b.lines

theorem sameLines_iff {a b : Board} : a.sameLines b = true ↔ ∀ id, a.line? id = b.line? id := by
  rw [sameLines, Bool.and_eq_true, beq_iff_eq]
  constructor
  · rintro ⟨hsize, hwithin⟩ id
    exact congrArg (IdMap.get? · id) (IdMap.eq_of_within hsize hwithin)
  · intro h
    rw [show a.lines = b.lines from IdMap.ext h]
    exact ⟨rfl, IdMap.within_iff.mpr (List.Subset.refl _)⟩

theorem line?_put (board : Board) (id id' : Id .line) (lineup : Lineup) :
    (board.put id lineup).line? id' = if id = id' then some lineup else board.line? id' :=
  IdMap.get?_insert board.lines id id' lineup

theorem line?_drop (board : Board) (id id' : Id .line) :
    (board.drop id).line? id' = if id' = id then none else board.line? id' :=
  IdMap.get?_erase board.lines id id'

theorem line?_keep (board : Board) (pass : Id .line → Bool) (id : Id .line) :
    (board.keep pass).line? id = if pass id then board.line? id else none :=
  IdMap.get?_filter board.lines pass id

def activeLines (board : Board) : Nat := board.lines.entries.countP fun e => 0 < e.2.activeCount

end Board

end OnAir
