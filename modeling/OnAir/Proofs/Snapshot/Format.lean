import OnAir.Bytes
import OnAir.Snapshot.Basic

set_option autoImplicit false

/-!
The format of snapshots. A document has what the bytes of a snapshot say, record by record, with the
limits of the format in its types; it describes the snapshot in which of two records of one line,
and of two entries of one layer, the later counts.
-/
namespace OnAir

theorem IdMap.get?_ofList_text {kind : Kind} {α ν : Type} (text : α → String) (value : α → ν)
    (l : List α) (k : Id kind) :
    (IdMap.ofList (l.map fun x => ((⟨text x⟩ : Id kind), value x))).get? k =
      (l.filter fun x => decide (text x = k.text)).getLast?.map value := by
  rw [get?_ofList_map (fun x => (⟨text x⟩ : Id kind))]
  cases k
  simp only [Id.mk.injEq]

theorem Board.putAll_eq (board : Board) (writes : List (Id .line × Lineup)) :
    board.putAll writes = ⟨board.version, board.lines.insertAll writes⟩ := by
  induction writes generalizing board with
  | nil => rfl
  | cons write rest ih => exact ih (board.put write.1 write.2)

namespace Snapshot

structure Word where
  text : String
  fits : (Utf8.encode text).length < UInt32.size

def Word.bytes (word : Word) : List UInt8 :=
  Bytes.ofNat 4 (Utf8.encode word.text).length ++ Utf8.encode word.text

/-- How long an item is shown, after a byte that says whether this is known. -/
inductive Span where
  | rest
  | lasting (flag : UInt8) (known : flag ≠ 0) (duration : Int64)

namespace Span

def bytes : Span → List UInt8
  | rest => [0]
  | lasting flag _ duration => flag :: Bytes.ofNat 8 duration.toUInt64.toNat

def duration : Span → Option Int64
  | rest => none
  | lasting _ _ duration => some duration

end Span

structure Shown where
  origin : Word
  originLine : Word
  reach : Reach
  continued : UInt8
  elapsed : UInt64
  span : Span

namespace Shown

def bytes (shown : Shown) : List UInt8 :=
  shown.origin.bytes ++ shown.originLine.bytes ++ [shown.reach.byte, shown.continued] ++
    Bytes.ofNat 8 shown.elapsed.toNat ++ shown.span.bytes

def airing (shown : Shown) : Airing where
  origin := ⟨shown.origin.text⟩
  originLine := ⟨shown.originLine.text⟩
  reach := shown.reach
  continued := decide (shown.continued ≠ 0)
  elapsed := shown.elapsed
  duration := shown.span.duration

def optionBytes : Option Shown → List UInt8
  | none => [0]
  | some shown => 1 :: shown.bytes

end Shown

structure Entry where
  layer : Word
  shown : Option Shown

namespace Entry

def bytes (entry : Entry) : List UInt8 := entry.layer.bytes ++ Shown.optionBytes entry.shown

def airing (entry : Entry) : Option Airing := entry.shown.map Shown.airing

def pair (entry : Entry) : Id .layer × Option Airing := (⟨entry.layer.text⟩, entry.airing)

end Entry

structure Record where
  line : Word
  entries : List Entry
  fits : entries.length < UInt32.size

namespace Record

def bytes (record : Record) : List UInt8 :=
  record.line.bytes ++ Bytes.ofNat 4 record.entries.length ++ record.entries.flatMap Entry.bytes

def entry? (record : Record) (layer : Id .layer) : Option (Option Airing) :=
  (record.entries.filter fun entry => decide (entry.layer.text = layer.text)).getLast?.map
    Entry.airing

def lineup (record : Record) : Lineup :=
  .ofList (record.entries.map Entry.pair)

def pair (record : Record) : Id .line × Lineup := (⟨record.line.text⟩, record.lineup)

theorem get?_lineup (record : Record) (layer : Id .layer) :
    record.lineup.get? layer = record.entry? layer :=
  IdMap.get?_ofList_text (fun entry : Entry => entry.layer.text) Entry.airing record.entries layer

end Record

structure Document where
  version : UInt64
  records : List Record
  fits : records.length < UInt32.size

namespace Document

def bytes (document : Document) : List UInt8 :=
  magic ++ Bytes.ofNat 2 1 ++ Bytes.ofNat 8 document.version.toNat ++
    Bytes.ofNat 4 document.records.length ++ document.records.flatMap Record.bytes

def record? (document : Document) (line : Id .line) : Option Record :=
  (document.records.filter fun record => decide (record.line.text = line.text)).getLast?

/-- The header counts the records, and the board shows what the last record of each line says. -/
structure Describes (document : Document) (snapshot : Snapshot) : Prop where
  header : snapshot.header = ⟨1, document.version, .ofNat document.records.length⟩
  version : snapshot.board.version = document.version
  shows : ∀ line, match document.record? line with
    | none => snapshot.board.line? line = none
    | some record => ∃ lineup, snapshot.board.line? line = some lineup ∧
        ∀ layer, lineup.get? layer = record.entry? layer

def snapshot (document : Document) : Snapshot where
  header := ⟨1, document.version, .ofNat document.records.length⟩
  board := ⟨document.version, .ofList (document.records.map Record.pair)⟩

theorem toNat_count (document : Document) :
    (UInt32.ofNat document.records.length).toNat = document.records.length :=
  UInt32.toNat_ofNat_of_lt document.fits

theorem line?_snapshot (document : Document) (line : Id .line) :
    document.snapshot.board.line? line = (document.record? line).map Record.lineup :=
  IdMap.get?_ofList_text (fun record : Record => record.line.text) Record.lineup document.records
    line

theorem describes_iff {document : Document} {snapshot : Snapshot} :
    document.Describes snapshot ↔ snapshot = document.snapshot := by
  constructor
  · rintro ⟨hheader, hversion, shows⟩
    obtain ⟨header, board⟩ := snapshot
    obtain ⟨version, lines⟩ := board
    obtain rfl : header = document.snapshot.header := hheader
    obtain rfl : version = document.version := hversion
    refine congrArg (Snapshot.mk _ ⟨_, ·⟩) (IdMap.ext fun line => ?_)
    have hline := shows line
    refine Eq.trans ?_ (document.line?_snapshot line).symm
    cases hrecord : document.record? line with
    | none =>
      rw [hrecord] at hline
      exact hline
    | some record =>
      rw [hrecord] at hline
      obtain ⟨lineup, hlineup, entries⟩ := hline
      obtain rfl : lineup = record.lineup :=
        IdMap.ext fun layer => (entries layer).trans (record.get?_lineup layer).symm
      exact hlineup
  · rintro rfl
    refine ⟨rfl, rfl, fun line => ?_⟩
    have hline := document.line?_snapshot line
    split
    · next hrecord => rw [hline, hrecord]; rfl
    · next record hrecord => exact ⟨record.lineup, by rw [hline, hrecord]; rfl, record.get?_lineup⟩

end Document

end Snapshot

end OnAir
