import OnAir.Proofs.FullRun
import OnAir.Proofs.Snapshot.Reader
import OnAir.Snapshot.Writer

set_option autoImplicit false

namespace OnAir

theorem IdMap.ofList_entries {kind : Kind} {ν : Type} (m : IdMap kind ν) :
    ofList m.entries = m := by
  refine IdMap.ext fun k => ?_
  rw [ofList, get?_insertAll, get?_empty, Option.or_none]
  have hvalue {e : Id kind × ν} (he : e ∈ m.entries.filter fun e => decide (e.1 = k)) :
      m.get? k = some e.2 := by
    obtain ⟨hmem, hkey⟩ := List.mem_filter.mp he
    obtain rfl := of_decide_eq_true hkey
    exact mem_entries_iff.mp hmem
  cases hlast : (m.entries.filter fun e => decide (e.1 = k)).getLast? with
  | some e => exact (hvalue (List.mem_of_getLast? hlast)).symm
  | none =>
    refine (Option.eq_none_iff_forall_ne_some.mpr fun v hv => ?_).symm
    have hmem : (k, v) ∈ m.entries.filter fun e => decide (e.1 = k) :=
      List.mem_filter.mpr ⟨mem_entries_iff.mpr hv, decide_eq_true rfl⟩
    rw [List.getLast?_eq_none_iff.mp hlast] at hmem
    exact absurd hmem List.not_mem_nil

theorem Board.eq_iff_sameLines {a b : Board} :
    a = b ↔ a.version = b.version ∧ a.sameLines b = true := by
  constructor
  · rintro rfl
    exact ⟨rfl, sameLines_iff.mpr fun _ => rfl⟩
  · rintro ⟨hversion, hlines⟩
    obtain ⟨version, lines⟩ := a
    obtain rfl : version = b.version := hversion
    obtain rfl : lines = b.lines := IdMap.ext (sameLines_iff.mp hlines)
    rfl

def Id.Fits {kind : Kind} (id : Id kind) : Prop := (Utf8.encode id.text).length < UInt32.size

instance {kind : Kind} (id : Id kind) : Decidable id.Fits :=
  inferInstanceAs (Decidable ((Utf8.encode id.text).length < UInt32.size))

/-- Every count in a snapshot of the board fits in 32 bits. -/
structure Board.Fits (board : Board) : Prop where
  lines : board.lines.size < UInt32.size
  layers : ∀ line ∈ board.lines.entries, line.2.size < UInt32.size
  lineIds : ∀ line ∈ board.lines.entries, line.1.Fits
  layerIds : ∀ line ∈ board.lines.entries, ∀ entry ∈ line.2.entries, entry.1.Fits
  origins : ∀ line ∈ board.lines.entries, ∀ entry ∈ line.2.entries, ∀ airing ∈ entry.2,
    airing.origin.Fits ∧ airing.originLine.Fits

namespace Snapshot

theorem count?_of_lt {n : Nat} (h : n < UInt32.size) (counted : Counted) :
    count? counted n = .ok (.ofNat n) := if_pos h

theorem countBytes_of_lt {n : Nat} (h : n < UInt32.size) (counted : Counted) :
    countBytes counted n = .ok (Bytes.ofNat 4 n) := by
  rw [countBytes, count?_of_lt h]
  exact congrArg (fun n => Except.ok (Bytes.ofNat 4 n)) (UInt32.toNat_ofNat_of_lt h)

theorem textBytes_of_fits {s : String} (h : (Utf8.encode s).length < UInt32.size) :
    textBytes s = .ok (Word.mk s h).bytes := by
  rw [textBytes, countBytes_of_lt h]
  rfl

theorem flagByte_ne_zero (flag : Bool) : decide (flagByte flag ≠ 0) = flag := by
  cases flag <;> rfl

theorem durationBytes_eq (duration : Option Int64) :
    ∃ span : Span, span.duration = duration ∧ durationBytes duration = span.bytes := by
  cases duration with
  | none => exact ⟨.rest, rfl, rfl⟩
  | some duration => exact ⟨.lasting 1 (by decide) duration, rfl, rfl⟩

theorem airingBytes_of_fits {airing : Airing} (horigin : airing.origin.Fits)
    (hline : airing.originLine.Fits) :
    ∃ shown : Shown, shown.airing = airing ∧ airingBytes airing = .ok shown.bytes := by
  obtain ⟨span, hspan, hbytes⟩ := durationBytes_eq airing.duration
  refine ⟨⟨⟨_, horigin⟩, ⟨_, hline⟩, airing.reach, flagByte airing.continued, airing.elapsed, span⟩,
    ?_, ?_⟩
  · rw [Shown.airing, hspan, flagByte_ne_zero]
  · rw [airingBytes, textBytes_of_fits horigin, textBytes_of_fits hline, hbytes]
    rfl

theorem entryBytes_of_fits {entry : Id .layer × Option Airing} (hlayer : entry.1.Fits)
    (hairing : ∀ airing ∈ entry.2, airing.origin.Fits ∧ airing.originLine.Fits) :
    ∃ form : Entry, form.pair = entry ∧ entryBytes entry = .ok form.bytes := by
  obtain ⟨layer, airing⟩ := entry
  cases airing with
  | none =>
    refine ⟨⟨⟨_, hlayer⟩, none⟩, rfl, ?_⟩
    rw [entryBytes, textBytes_of_fits hlayer]
    rfl
  | some airing =>
    obtain ⟨horigin, hline⟩ := hairing airing rfl
    obtain ⟨shown, rfl, hbytes⟩ := airingBytes_of_fits horigin hline
    refine ⟨⟨⟨_, hlayer⟩, some shown⟩, rfl, ?_⟩
    rw [entryBytes, textBytes_of_fits hlayer]
    dsimp only
    rw [hbytes]
    rfl

theorem mapM_ok_of_forms {α F : Type} {f : α → Except Fault (List UInt8)} {value : F → α}
    {bytes : F → List UInt8} {l : List α}
    (h : ∀ x ∈ l, ∃ form, value form = x ∧ f x = .ok (bytes form)) :
    ∃ forms : List F, forms.map value = l ∧ l.mapM f = .ok (forms.map bytes) := by
  induction l with
  | nil => exact ⟨[], rfl, rfl⟩
  | cons x rest ih =>
    obtain ⟨form, rfl, hform⟩ := h x List.mem_cons_self
    obtain ⟨forms, hvalues, hforms⟩ := ih fun y hy => h y (List.mem_cons_of_mem _ hy)
    refine ⟨form :: forms, congrArg (_ :: ·) hvalues, ?_⟩
    rw [List.mapM_cons, hform, hforms]
    rfl

theorem lineBytes_of_fits {line : Id .line × Lineup} (hline : line.1.Fits)
    (hlayers : line.2.size < UInt32.size)
    (hentries : ∀ entry ∈ line.2.entries,
      entry.1.Fits ∧ ∀ airing ∈ entry.2, airing.origin.Fits ∧ airing.originLine.Fits) :
    ∃ record : Record, record.pair = line ∧ lineBytes line = .ok record.bytes := by
  obtain ⟨forms, hforms, hbytes⟩ := mapM_ok_of_forms fun entry he =>
    entryBytes_of_fits (hentries entry he).1 (hentries entry he).2
  have hcount : forms.length = line.2.size := by
    rw [IdMap.size, ← hforms, List.length_map]
  have hfits : forms.length < UInt32.size := hcount ▸ hlayers
  refine ⟨⟨⟨_, hline⟩, forms, hfits⟩, ?_, ?_⟩
  · rw [Record.pair, Record.lineup, hforms, IdMap.ofList_entries]
  · rw [lineBytes, textBytes_of_fits hline, countBytes_of_lt hlayers, hbytes, ← hcount,
      Record.bytes, List.flatMap_def]
    rfl

theorem mapM_lineBytes_of_fits {board : Board} (h : board.Fits) :
    ∃ records : List Record, records.map Record.pair = board.lines.entries ∧
      board.lines.entries.mapM lineBytes = .ok (records.map Record.bytes) :=
  mapM_ok_of_forms fun line hl =>
    lineBytes_of_fits (h.lineIds line hl) (h.layers line hl) fun entry he =>
      ⟨h.layerIds line hl entry he, h.origins line hl entry he⟩

theorem write_of_fits {board : Board} (h : board.Fits) :
    ∃ document : Document,
      document.snapshot = ⟨⟨1, board.version, .ofNat board.lines.size⟩, board⟩ ∧
      (ofBoard board).bind write = .ok document.bytes := by
  obtain ⟨records, hrecords, hbytes⟩ := mapM_lineBytes_of_fits h
  have hcount : records.length = board.lines.size := by
    rw [IdMap.size, ← hrecords, List.length_map]
  have hfits : records.length < UInt32.size := hcount ▸ h.lines
  refine ⟨⟨board.version, records, hfits⟩, ?_, ?_⟩
  · rw [Document.snapshot, hrecords, IdMap.ofList_entries, ← hcount]
  · have hround : (UInt32.ofNat board.lines.size).toNat = board.lines.size :=
      UInt32.toNat_ofNat_of_lt h.lines
    rw [ofBoard, count?_of_lt h.lines]
    change write ⟨⟨currentFormat, board.version, .ofNat board.lines.size⟩, board⟩ = _
    rw [write, hbytes, Document.bytes, List.flatMap_def]
    change Except.ok (_ ++ _) = _
    rw [Header.bytes, hround, ← hcount]
    rfl

/-- A board that fits is written, and read back as it was whatever follows its bytes; and boards
have the same bytes exactly if they have the same version and show the same. -/
theorem write_roundTrip :
    (∀ board : Board, board.Fits → ∃ bytes, (ofBoard board).bind write = .ok bytes ∧
      ∀ rest, ∃ snapshot, read (bytes ++ rest) = .ok snapshot ∧
        snapshot.header.format = 1 ∧ snapshot.header.boardVersion = board.version ∧
        snapshot.header.lineCount.toNat = board.lines.size ∧
        snapshot.board.version = board.version ∧ snapshot.board.sameLines board = true) ∧
    ∀ a b : Board, a.Fits → b.Fits →
      ((ofBoard a).bind write = (ofBoard b).bind write ↔
        a.version = b.version ∧ a.sameLines b = true) := by
  constructor
  · intro board h
    obtain ⟨document, hdescribes, hbytes⟩ := write_of_fits h
    refine ⟨document.bytes, hbytes, fun rest => ?_⟩
    refine ⟨_, read_eq_ok_iff.mpr ⟨document, rest, rfl, hdescribes⟩, rfl, rfl, ?_, rfl, ?_⟩
    · exact UInt32.toNat_ofNat_of_lt h.lines
    · exact Board.sameLines_iff.mpr fun _ => rfl
  · intro a b ha hb
    obtain ⟨document, hdescribes, hbytes⟩ := write_of_fits ha
    obtain ⟨document', hdescribes', hbytes'⟩ := write_of_fits hb
    rw [← Board.eq_iff_sameLines]
    constructor
    · intro hsame
      rw [hbytes, hbytes'] at hsame
      have hread := read_eq_ok_iff.mpr ⟨document, [], (List.append_nil _).symm, hdescribes⟩
      have hread' := read_eq_ok_iff.mpr ⟨document', [], (List.append_nil _).symm, hdescribes'⟩
      rw [Except.ok.inj hsame] at hread
      exact congrArg Snapshot.board (Except.ok.inj (hread.symm.trans hread'))
    · rintro rfl
      rfl

theorem write_bulletin_roundTrip :
    let board := (Rundown.bulletin.fullRun .standard).2.board
    let other := Board.putAll ⟨board.version, .empty⟩ board.lines.entries.reverse
    board.Fits ∧ other.Fits ∧ board.lines.size = 3 ∧
      ∃ bytes, (ofBoard board).bind write = .ok bytes ∧ (ofBoard other).bind write = .ok bytes ∧
        ∃ snapshot, read (bytes ++ [0xFF]) = .ok snapshot ∧ snapshot.header.lineCount.toNat = 3 ∧
          snapshot.board.sameLines board = true := by
  intro board other
  have fits : board.Fits := ⟨by decide +kernel, by decide +kernel, by decide +kernel,
    by decide +kernel, by decide +kernel⟩
  have fits' : other.Fits := ⟨by decide +kernel, by decide +kernel, by decide +kernel,
    by decide +kernel, by decide +kernel⟩
  obtain ⟨bytes, hbytes, hread⟩ := write_roundTrip.1 board fits
  obtain ⟨snapshot, hsnapshot, -, -, hcount, -, hsame⟩ := hread [0xFF]
  have hother := (write_roundTrip.2 board other fits fits').mpr ⟨rfl, by decide +kernel⟩
  exact ⟨fits, fits', by decide +kernel, bytes, hbytes, hother ▸ hbytes, snapshot, hsnapshot,
    hcount, hsame⟩

end Snapshot

end OnAir
