import Mathlib.Data.List.Dedup
import OnAir.Proofs.Counting
import OnAir.Proofs.Snapshot.Truncation

set_option autoImplicit false

namespace OnAir

namespace IdMap

variable {kind : Kind} {ν : Type}

theorem mem_of_mem_insertAll {m : IdMap kind ν} {l : List (Id kind × ν)} {e : Id kind × ν}
    (h : e ∈ (m.insertAll l).entries) : e ∈ m.entries ∨ e ∈ l := by
  induction l generalizing m with
  | nil => exact .inl h
  | cons first rest ih =>
    rcases ih h with h | h
    · exact (mem_place h).elim (fun h => .inr (h ▸ List.mem_cons_self)) .inl
    · exact .inr (List.mem_cons_of_mem _ h)

theorem mem_of_mem_ofList {l : List (Id kind × ν)} {e : Id kind × ν}
    (h : e ∈ (ofList l).entries) : e ∈ l :=
  (mem_of_mem_insertAll h).resolve_left List.not_mem_nil

theorem mem_keys_insertAll {m : IdMap kind ν} {l : List (Id kind × ν)} {k : Id kind} :
    k ∈ (m.insertAll l).keys ↔ k ∈ m.keys ∨ k ∈ l.map Prod.fst := by
  induction l generalizing m with
  | nil => exact (or_iff_left List.not_mem_nil).symm
  | cons first rest ih =>
    refine ih.trans ?_
    rw [List.map_cons, List.mem_cons, ← or_assoc, mem_keys_iff, mem_keys_iff, get?_insert]
    split
    · next h => simp [h]
    · next h => simp [Ne.symm h]

theorem size_ofList (l : List (Id kind × ν)) :
    (ofList l).size = (l.map Prod.fst).dedup.length := by
  have hperm : (ofList l).keys.Perm (l.map Prod.fst).dedup := by
    refine (List.perm_ext_iff_of_nodup (keys_nodup _) (List.nodup_dedup _)).mpr fun k => ?_
    rw [List.mem_dedup, ofList, mem_keys_insertAll]
    exact or_iff_right List.not_mem_nil
  rw [← hperm.length_eq, keys, List.length_map, size]

theorem size_ofList_le (l : List (Id kind × ν)) : (ofList l).size ≤ l.length := by
  rw [size_ofList, ← List.length_map Prod.fst]
  exact (List.dedup_sublist _).length_le

end IdMap

theorem length_dedup_eq_iff {α : Type} [DecidableEq α] (l : List α) :
    l.dedup.length = l.length ↔ l.Nodup :=
  ⟨fun h => List.dedup_eq_self.mp ((List.dedup_sublist l).eq_of_length h),
    fun h => by rw [List.dedup_eq_self.mpr h]⟩

namespace Snapshot

def Document.lineIds (document : Document) : List (Id .line) :=
  document.records.map fun record => record.pair.1

theorem Document.length_lineIds (document : Document) :
    document.lineIds.length = document.records.length := List.length_map _

theorem Document.size_snapshot (document : Document) :
    document.snapshot.board.lines.size = document.lineIds.dedup.length := by
  rw [snapshot, IdMap.size_ofList, List.map_map]
  rfl

theorem Document.fits_snapshot (document : Document) : document.snapshot.board.Fits := by
  have hline {line : Id .line × Lineup} (h : line ∈ document.snapshot.board.lines.entries) :
      ∃ record ∈ document.records, record.pair = line :=
    List.mem_map.mp (IdMap.mem_of_mem_ofList h)
  have hentry {record : Record} {entry : Id .layer × Option Airing}
      (h : entry ∈ record.pair.2.entries) : ∃ form ∈ record.entries, form.pair = entry :=
    List.mem_map.mp (IdMap.mem_of_mem_ofList h)
  constructor
  case lines =>
    have hle := IdMap.size_ofList_le (document.records.map Record.pair)
    rw [List.length_map] at hle
    exact Nat.lt_of_le_of_lt hle document.fits
  case layers =>
    intro line hl
    obtain ⟨record, -, rfl⟩ := hline hl
    have hle := IdMap.size_ofList_le (record.entries.map Entry.pair)
    rw [List.length_map] at hle
    exact Nat.lt_of_le_of_lt hle record.fits
  case lineIds =>
    intro line hl
    obtain ⟨record, -, rfl⟩ := hline hl
    exact record.line.fits
  case layerIds =>
    intro line hl entry he
    obtain ⟨record, -, rfl⟩ := hline hl
    obtain ⟨form, -, rfl⟩ := hentry he
    exact form.layer.fits
  case origins =>
    intro line hl entry he airing ha
    obtain ⟨record, -, rfl⟩ := hline hl
    obtain ⟨form, -, rfl⟩ := hentry he
    obtain ⟨shown, -, rfl⟩ := Option.map_eq_some_iff.mp (Option.mem_def.mp ha)
    exact ⟨shown.origin.fits, shown.originLine.fits⟩

theorem Document.fieldBytes_headFields (document : Document) :
    fieldBytes document.headFields = document.snapshot.header.bytes := by
  rw [Header.bytes, snapshot, document.toNat_count]
  rfl

theorem Document.bytes_eq (document : Document) :
    document.bytes = document.snapshot.header.bytes ++ document.records.flatMap Record.bytes := by
  rw [← document.bytes_fields, fields, fieldBytes_append, document.fieldBytes_headFields,
    fieldBytes_flatMap Record.bytes_fields]

/-- Where fewer records come than the header announces, the data ends. -/
theorem read_of_missing (document : Document) {records : List Record}
    (h : records.length < document.records.length) :
    read (document.snapshot.header.bytes ++ records.flatMap Record.bytes) =
      .error .endOfData := by
  -- The records are the first of a document that goes on with empty ones.
  let blank : Record := ⟨⟨"", by decide +kernel⟩, [], by decide⟩
  obtain ⟨missing, hmissing⟩ := Nat.exists_eq_add_of_lt h
  have hlength : (records ++ List.replicate (missing + 1) blank).length =
      document.records.length := by
    rw [List.length_append, List.length_replicate, hmissing, Nat.add_assoc]
  let long : Document := ⟨document.version, records ++ List.replicate (missing + 1) blank,
    hlength ▸ document.fits⟩
  have hheader : fieldBytes long.headFields = document.snapshot.header.bytes := by
    rw [long.fieldBytes_headFields, Document.snapshot, Document.snapshot, hlength]
  have hfields : long.fields = (long.headFields ++ records.flatMap Record.fields) ++
      .word blank.line :: (.plain (Bytes.ofNat 4 0) ::
        (List.replicate missing blank).flatMap Record.fields) := by
    rw [Document.fields, List.flatMap_append, List.replicate_succ, List.flatMap_cons,
      List.append_assoc]
    rfl
  have hread := Document.read_before_word hfields
  rwa [fieldBytes_append, hheader, fieldBytes_flatMap Record.bytes_fields] at hread

theorem write_snapshot (document : Document) :
    ∃ records : List Record,
      records.map Record.pair = document.snapshot.board.lines.entries ∧
      write document.snapshot =
        .ok (document.snapshot.header.bytes ++ records.flatMap Record.bytes) := by
  obtain ⟨records, hrecords, hbytes⟩ := mapM_lineBytes_of_fits document.fits_snapshot
  refine ⟨records, hrecords, ?_⟩
  rw [write, hbytes, List.flatMap_def]
  rfl

theorem read_of_write {document : Document} {written : List UInt8}
    (h : write document.snapshot = .ok written) :
    (document.lineIds.Nodup → read written = .ok document.snapshot) ∧
      (¬ document.lineIds.Nodup → read written = .error .endOfData) := by
  obtain ⟨records, hrecords, hwrite⟩ := write_snapshot document
  obtain rfl := Except.ok.inj (h.symm.trans hwrite)
  have hcount : records.length = document.lineIds.dedup.length := by
    rw [← document.size_snapshot, IdMap.size, ← hrecords, List.length_map]
  constructor
  · intro hnodup
    have hlength : records.length = document.records.length := by
      rw [hcount, (length_dedup_eq_iff _).mpr hnodup, document.length_lineIds]
    let sorted : Document := ⟨document.version, records, hlength ▸ document.fits⟩
    have hheader : sorted.snapshot.header = document.snapshot.header := by
      rw [Document.snapshot, Document.snapshot, hlength]
    have hboard : sorted.snapshot.board = document.snapshot.board := by
      rw [Document.snapshot, hrecords, IdMap.ofList_entries]
      rfl
    have hsnapshot := congr (congrArg OnAir.Snapshot.mk hheader) hboard
    refine read_eq_ok_iff.mpr ⟨sorted, [], ?_, hsnapshot⟩
    rw [List.append_nil, sorted.bytes_eq, hheader]
  · intro hrepeat
    refine read_of_missing document ?_
    have hle := (List.dedup_sublist document.lineIds).length_le
    have hne := (length_dedup_eq_iff document.lineIds).not.mpr hrepeat
    have hids := document.length_lineIds
    omega

/-- A snapshot that was read is written under its own header. What is written can be read exactly if
the header counts every line once: then it is read as the same snapshot, of which the same bytes
are written, and otherwise it ends too early. -/
theorem write_of_read {bytes : List UInt8} {snapshot : Snapshot}
    (h : read bytes = .ok snapshot) :
    (∃ (document : Document) (rest : List UInt8), bytes = document.bytes ++ rest) ∧
    ∃ written, write snapshot = .ok written ∧
      ∀ (document : Document) (rest : List UInt8), bytes = document.bytes ++ rest →
        ((∃ again, read written = .ok again) ↔
          document.lineIds.dedup.length = snapshot.header.lineCount.toNat) ∧
        (document.lineIds.dedup.length = snapshot.header.lineCount.toNat ↔
          document.lineIds.Nodup) ∧
        (∀ again, read written = .ok again → again.header = snapshot.header ∧
          again.board.version = snapshot.board.version ∧
          again.board.sameLines snapshot.board = true ∧ write again = .ok written) ∧
        ((¬ ∃ again, read written = .ok again) → read written = .error .endOfData) := by
  obtain ⟨document, rest, hbytes, rfl⟩ := read_eq_ok_iff.mp h
  obtain ⟨records, -, hwrite⟩ := write_snapshot document
  refine ⟨⟨document, rest, hbytes⟩, _, hwrite, fun other rest' hother => ?_⟩
  have hsame : other.snapshot = document.snapshot :=
    Except.ok.inj ((read_eq_ok_iff.mpr ⟨other, rest', hother, rfl⟩).symm.trans h)
  rw [← hsame] at hwrite ⊢
  obtain ⟨hnodup, hrepeat⟩ := read_of_write hwrite
  have hcount : other.snapshot.header.lineCount.toNat = other.lineIds.length :=
    other.toNat_count.trans other.length_lineIds.symm
  rw [hcount, length_dedup_eq_iff]
  by_cases hlines : other.lineIds.Nodup
  · have hread := hnodup hlines
    refine ⟨iff_of_true ⟨_, hread⟩ hlines, Iff.rfl, fun again hagain => ?_, fun hnone => ?_⟩
    · obtain rfl := Except.ok.inj (hread.symm.trans hagain)
      exact ⟨rfl, rfl, Board.sameLines_iff.mpr fun _ => rfl, hwrite⟩
    · exact absurd ⟨_, hread⟩ hnone
  · have hread := hrepeat hlines
    have hnone : ¬ ∃ again, read _ = .ok again := fun ⟨again, hagain⟩ =>
      nomatch hread.symm.trans hagain
    exact ⟨iff_of_false hnone hlines, Iff.rfl, fun again hagain => absurd ⟨again, hagain⟩ hnone,
      fun _ => hread⟩

/-- The line `b` comes in front of `a` and again after it, and a byte follows. -/
theorem write_of_read_repeated :
    let a : Word := ⟨"a", by decide +kernel⟩
    let b : Word := ⟨"b", by decide +kernel⟩
    let document : Document :=
      ⟨7, [⟨b, [⟨a, none⟩], by decide⟩, ⟨a, [], by decide⟩, ⟨b, [], by decide⟩], by decide⟩
    ∃ snapshot written, read (document.bytes ++ [0xFF]) = .ok snapshot ∧
      snapshot.header.lineCount.toNat = 3 ∧ document.lineIds.dedup.length = 2 ∧
      write snapshot = .ok written ∧ read written = .error .endOfData := by
  intro a b document
  have hread : read (document.bytes ++ [0xFF]) = .ok document.snapshot :=
    read_eq_ok_iff.mpr ⟨document, [0xFF], rfl, rfl⟩
  have hcount : document.lineIds.dedup.length = 2 := by decide +kernel
  obtain ⟨-, written, hwrite, hwritten⟩ := write_of_read hread
  obtain ⟨hagain, -, -, hends⟩ := hwritten document [0xFF] rfl
  refine ⟨_, written, hread, by decide +kernel, hcount, hwrite, hends (hagain.not.mpr ?_)⟩
  rw [hcount]
  decide +kernel

end Snapshot

end OnAir
