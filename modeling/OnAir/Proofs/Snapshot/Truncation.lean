import OnAir.Proofs.Snapshot.RoundTrip

set_option autoImplicit false

/-!
Snapshots that are cut short. A document is a row of fields, each of which is read at once, and the
reader stops in the field that a cut goes through. What it says there depends only on whether the
cut leaves the whole length of an identifier, but not all of its text (`read_take`).
-/
namespace OnAir.Snapshot

/-- A part of a document that is read at once. -/
inductive Field where
  | plain (bytes : List UInt8)
  | word (word : Word)

namespace Field

def bytes : Field → List UInt8
  | plain content => content
  | word name => name.bytes

/-- What the reader says where a field is cut after so many bytes. -/
def cut : Field → Nat → Fault
  | plain _, _ => .endOfData
  | word name, n =>
    if n < 4 then .endOfData
    else .identifierTruncated (Utf8.encode name.text).length (n - 4)

end Field

def fieldBytes (fields : List Field) : List UInt8 := fields.flatMap Field.bytes

def faultAt : List Field → Nat → Fault
  | [], _ => .endOfData
  | field :: rest, n =>
    if n < field.bytes.length then field.cut n else faultAt rest (n - field.bytes.length)

theorem fieldBytes_append (fields rest : List Field) :
    fieldBytes (fields ++ rest) = fieldBytes fields ++ fieldBytes rest := List.flatMap_append

theorem fieldBytes_singleton (field : Field) : fieldBytes [field] = field.bytes :=
  List.flatMap_singleton ..

theorem faultAt_append (fields rest : List Field) (n : Nat) :
    faultAt (fields ++ rest) n =
      if n < (fieldBytes fields).length then faultAt fields n
      else faultAt rest (n - (fieldBytes fields).length) := by
  induction fields generalizing n with
  | nil => rfl
  | cons field fields ih =>
    have hlength : (fieldBytes (field :: fields)).length =
        field.bytes.length + (fieldBytes fields).length := List.length_append
    rw [List.cons_append, faultAt, faultAt, ih, hlength]
    by_cases hfield : n < field.bytes.length
    · rw [if_pos hfield, if_pos hfield, if_pos (by omega)]
    · rw [if_neg hfield, if_neg hfield]
      by_cases hfields : n < field.bytes.length + (fieldBytes fields).length
      · rw [if_pos hfields, if_pos (by omega)]
      · rw [if_neg hfields, if_neg (by omega)]
        congr 1
        omega

/-- A cut leaves the length of an identifier, which is `expected`, and of its text only the first
`found` bytes. -/
def CutsWord (fields : List Field) (n expected found : Nat) : Prop :=
  ∃ before word after, fields = before ++ .word word :: after ∧
    (Utf8.encode word.text).length = expected ∧ found < expected ∧
    n = (fieldBytes before).length + 4 + found

theorem length_word_bytes (word : Word) :
    word.bytes.length = 4 + (Utf8.encode word.text).length := by
  rw [Word.bytes, List.length_append, Bytes.length_ofNat]

theorem faultAt_of_cutsWord {fields : List Field} {n expected found : Nat}
    (h : CutsWord fields n expected found) :
    faultAt fields n = .identifierTruncated expected found := by
  obtain ⟨before, word, after, rfl, rfl, hfound, rfl⟩ := h
  have hword := length_word_bytes word
  rw [faultAt_append, if_neg (by omega), faultAt, Field.bytes, if_pos (by omega), Field.cut,
    if_neg (by omega)]
  congr 1
  omega

theorem faultAt_of_not_cutsWord {fields : List Field} {n : Nat}
    (h : ∀ expected found, ¬ CutsWord fields n expected found) : faultAt fields n = .endOfData := by
  induction fields generalizing n with
  | nil => rfl
  | cons field rest ih =>
    rw [faultAt]
    split
    · next hlt =>
      cases field with
      | plain => rfl
      | word word =>
        rw [Field.bytes, length_word_bytes] at hlt
        refine if_pos (Nat.lt_of_not_le fun hlength => ?_)
        exact h _ (n - 4) ⟨[], word, rest, rfl, rfl, by omega, by change n = 0 + 4 + _; omega⟩
    · next hle =>
      refine ih fun expected found hcut => ?_
      obtain ⟨before, word, after, rfl, hexpected, hfound, hn⟩ := hcut
      refine h expected found ⟨field :: before, word, after, rfl, hexpected, hfound, ?_⟩
      have hlength : (fieldBytes (field :: before)).length =
          field.bytes.length + (fieldBytes before).length := List.length_append
      omega

namespace Span

def fields : Span → List Field
  | rest => [.plain [0]]
  | lasting flag _ duration => [.plain [flag], .plain (Bytes.ofNat 8 duration.toUInt64.toNat)]

theorem bytes_fields (span : Span) : fieldBytes span.fields = span.bytes := by
  cases span with
  | rest => rfl
  | lasting flag known duration => exact congrArg (flag :: ·) (List.append_nil _)

end Span

namespace Shown

def fields (shown : Shown) : List Field :=
  .word shown.origin :: .word shown.originLine :: .plain [shown.reach.byte] ::
    .plain [shown.continued] :: .plain (Bytes.ofNat 8 shown.elapsed.toNat) :: shown.span.fields

def optionFields : Option Shown → List Field
  | none => [.plain [0]]
  | some shown => .plain [1] :: shown.fields

theorem bytes_fields (shown : Shown) : fieldBytes shown.fields = shown.bytes := by
  have hspan := shown.span.bytes_fields
  rw [fieldBytes] at hspan
  simp only [fieldBytes, fields, bytes, List.flatMap_cons, Field.bytes, hspan, List.append_assoc,
    List.cons_append, List.nil_append]

theorem bytes_optionFields (shown : Option Shown) :
    fieldBytes (optionFields shown) = optionBytes shown := by
  cases shown with
  | none => rfl
  | some shown => exact congrArg (1 :: ·) shown.bytes_fields

end Shown

namespace Entry

def fields (entry : Entry) : List Field := .word entry.layer :: Shown.optionFields entry.shown

theorem bytes_fields (entry : Entry) : fieldBytes entry.fields = entry.bytes :=
  congrArg (entry.layer.bytes ++ ·) (Shown.bytes_optionFields entry.shown)

end Entry

theorem fieldBytes_flatMap {φ : Type} {fields : φ → List Field} {bytes : φ → List UInt8}
    (h : ∀ form, fieldBytes (fields form) = bytes form) (forms : List φ) :
    fieldBytes (forms.flatMap fields) = forms.flatMap bytes := by
  rw [fieldBytes, List.flatMap_assoc]
  exact congrArg (List.flatMap · forms) (funext h)

namespace Record

def fields (record : Record) : List Field :=
  .word record.line :: .plain (Bytes.ofNat 4 record.entries.length) ::
    record.entries.flatMap Entry.fields

theorem bytes_fields (record : Record) : fieldBytes record.fields = record.bytes := by
  have hentries := fieldBytes_flatMap Entry.bytes_fields record.entries
  rw [bytes, ← hentries, List.append_assoc]
  rfl

end Record

namespace Document

def headFields (document : Document) : List Field :=
  [.plain magic, .plain (Bytes.ofNat 2 1), .plain (Bytes.ofNat 8 document.version.toNat),
    .plain (Bytes.ofNat 4 document.records.length)]

def fields (document : Document) : List Field :=
  document.headFields ++ document.records.flatMap Record.fields

theorem bytes_fields (document : Document) : fieldBytes document.fields = document.bytes := by
  have hrecords := fieldBytes_flatMap Record.bytes_fields document.records
  rw [bytes, ← hrecords, fields, fieldBytes_append]
  simp only [headFields, fieldBytes, List.flatMap_cons, List.flatMap_nil, Field.bytes,
    List.append_assoc, List.append_nil]

end Document

namespace Reader

variable {α β : Type} {input rest : List UInt8}

theorem bind_of_error {r : Reader α} {fault : Fault} (h : r.run input = .error fault)
    (f : α → Reader β) : (r >>= f).run input = .error fault := by
  rw [StateT.run_bind, h]
  rfl

theorem bind_of_ok {r : Reader α} {a : α} (h : r.run input = .ok (a, rest)) (f : α → Reader β) :
    (r >>= f).run input = (f a).run rest := by
  rw [StateT.run_bind, h]
  rfl

/-- Wherever a row of fields is cut, the reader stops with the fault of the cut. -/
def StopsIn (r : Reader α) (fields : List Field) : Prop :=
  ∀ n < (fieldBytes fields).length,
    r.run ((fieldBytes fields).take n) = .error (faultAt fields n)

theorem StopsIn.bind {r : Reader α} {fields : List Field} (h : r.StopsIn fields)
    (f : α → Reader β) : (r >>= f).StopsIn fields :=
  fun n hn => bind_of_error (h n hn) f

theorem StopsIn.append {r : Reader α} {f : α → Reader β} {fields more : List Field} {a : α}
    (first : r.StopsIn fields) (hread : ∀ rest, r.run (fieldBytes fields ++ rest) = .ok (a, rest))
    (second : (f a).StopsIn more) : (r >>= f).StopsIn (fields ++ more) := by
  intro n hn
  rw [fieldBytes_append, List.length_append] at hn
  rw [faultAt_append, fieldBytes_append, List.take_append]
  split
  · next hlt =>
    rw [Nat.sub_eq_zero_of_le (Nat.le_of_lt hlt), List.take_zero, List.append_nil]
    exact bind_of_error (first n hlt) f
  · next hle =>
    rw [List.take_of_length_le (Nat.not_lt.mp hle), bind_of_ok (hread _)]
    exact second _ (by omega)

theorem StopsIn.cons {r : Reader α} {f : α → Reader β} {field : Field} {more : List Field} {a : α}
    (first : r.StopsIn [field]) (hread : ∀ rest, r.run (field.bytes ++ rest) = .ok (a, rest))
    (second : (f a).StopsIn more) : (r >>= f).StopsIn (field :: more) :=
  first.append (fun rest => by rw [fieldBytes_singleton, hread]) second

theorem stopsIn_nil (r : Reader α) : r.StopsIn [] := fun _ hn => absurd hn (Nat.not_lt_zero _)

theorem StopsIn.loop {φ σ : Type} {r : Reader α} {bytes : φ → List UInt8} {value : φ → α}
    {fields : φ → List Field} {loop : Nat → σ → Reader σ}
    (step : σ → α → σ) (reads : r.Reads bytes value)
    (hbytes : ∀ form, fieldBytes (fields form) = bytes form)
    (stops : ∀ form, r.StopsIn (fields form))
    (hsucc : ∀ n s, loop (n + 1) s = r >>= fun a => loop n (step s a)) (forms : List φ) (s : σ) :
    (loop forms.length s).StopsIn (forms.flatMap fields) := by
  induction forms generalizing s with
  | nil => exact stopsIn_nil _
  | cons form forms ih =>
    rw [List.length_cons, hsucc, List.flatMap_cons]
    refine (stops form).append (fun rest => ?_) (ih (step s (value form)))
    rw [hbytes]
    exact reads.run form rest

theorem get_run (input : List UInt8) :
    (get : Reader (List UInt8)).run input = .ok (input, input) := rfl

theorem take_stops (bytes : List UInt8) : (take bytes.length).StopsIn [.plain bytes] := by
  intro n hn
  rw [fieldBytes_singleton] at hn ⊢
  rw [faultAt, if_pos hn, Field.cut]
  rw [Field.bytes] at hn ⊢
  have hsplit : Bytes.split? bytes.length (bytes.take n) = none :=
    Bytes.split?_eq_none_iff.mpr (Nat.lt_of_le_of_lt (List.length_take_le n bytes) hn)
  rw [take, bind_of_ok (get_run _), hsplit]
  rfl

theorem number_stops (width v : Nat) :
    (number width).StopsIn [.plain (Bytes.ofNat width v)] := by
  have h := take_stops (Bytes.ofNat width v)
  rw [Bytes.length_ofNat] at h
  exact h.bind _

theorem byte_stops (b : UInt8) : byte.StopsIn [.plain [b]] := (take_stops [b]).bind _ |>.bind _

theorem text_stops (word : Word) : text.StopsIn [.word word] := by
  intro n hn
  have hlength := Bytes.length_ofNat 4 (Utf8.encode word.text).length
  rw [fieldBytes_singleton, faultAt, if_pos (by rwa [fieldBytes_singleton] at hn)]
  rw [fieldBytes_singleton, Field.bytes, Word.bytes, List.length_append, hlength] at hn
  rw [Field.bytes, Word.bytes, List.take_append, hlength, Field.cut]
  split
  · next hlt =>
    have hnumber := number_stops 4 (Utf8.encode word.text).length n
    rw [fieldBytes_singleton, Field.bytes, hlength, faultAt, if_pos (by rwa [Field.bytes, hlength])]
      at hnumber
    rw [Nat.sub_eq_zero_of_le (Nat.le_of_lt hlt), List.take_zero, List.append_nil]
    exact bind_of_error (hnumber hlt) _
  · next hle =>
    -- The length is there, and says more than is left.
    have hfound : ((Utf8.encode word.text).take (n - 4)).length = n - 4 := by
      rw [List.length_take]
      omega
    have hsplit : Bytes.split? (Utf8.encode word.text).length
        ((Utf8.encode word.text).take (n - 4)) = none :=
      Bytes.split?_eq_none_iff.mpr (by omega)
    rw [List.take_of_length_le (by rw [hlength]; omega), text,
      bind_of_ok (number_ok_iff.mpr ⟨word.fits, rfl⟩),
      bind_of_ok (get_run _), hsplit, hfound]
    rfl

theorem number_run {width v : Nat} (h : v < Bytes.room width) (rest : List UInt8) :
    (number width).run (Bytes.ofNat width v ++ rest) = .ok (v, rest) :=
  number_ok_iff.mpr ⟨h, rfl⟩

theorem byte_run (b : UInt8) (rest : List UInt8) : byte.run ([b] ++ rest) = .ok (b, rest) :=
  byte_ok_iff.mpr rfl

theorem duration_stops (span : Span) : Reader.duration.StopsIn span.fields := by
  cases span with
  | rest => exact (byte_stops 0).bind _
  | lasting flag known duration =>
    refine (byte_stops flag).cons (byte_run flag) ?_
    rw [if_neg known]
    exact (number_stops 8 _).bind _

theorem airing_stops (shown : Shown) : Reader.airing.StopsIn shown.fields := by
  refine (text_stops shown.origin).cons (text_reads.run shown.origin) ?_
  refine (text_stops shown.originLine).cons (text_reads.run shown.originLine) ?_
  refine (byte_stops shown.reach.byte).cons (byte_run shown.reach.byte) ?_
  rw [shown.reach.ofByte?_byte]
  refine (byte_stops shown.continued).cons (byte_run shown.continued) ?_
  refine (number_stops 8 shown.elapsed.toNat).cons (number_eight_reads.run shown.elapsed) ?_
  exact (duration_stops shown.span).bind _

theorem entry_stops (line : Id .line) (layer : Id .layer) (shown : Option Shown) :
    (entry line layer).StopsIn (Shown.optionFields shown) := by
  cases shown with
  | none => exact (byte_stops 0).bind _
  | some shown => exact (byte_stops 1).cons (byte_run 1) ((airing_stops shown).bind _)

theorem layered_stops (line : Id .line) (entry : Entry) : (layered line).StopsIn entry.fields :=
  (text_stops entry.layer).cons (text_reads.run entry.layer)
    ((entry_stops line ⟨entry.layer.text⟩ entry.shown).bind _)

theorem entries_stops (line : Id .line) (forms : List Entry) (lineup : Lineup) :
    (entries line forms.length lineup).StopsIn (forms.flatMap Entry.fields) :=
  StopsIn.loop (fun lineup entry => lineup.insert entry.1 entry.2) (layered_reads line)
    Entry.bytes_fields (layered_stops line)
    (fun _ _ => by simp only [entries, layered, bind_assoc, pure_bind]) forms lineup

theorem recorded_stops (record : Record) : recorded.StopsIn record.fields := by
  refine (text_stops record.line).cons (text_reads.run record.line) ?_
  refine (number_stops 4 record.entries.length).cons (number_run record.fits) ?_
  exact (entries_stops ⟨record.line.text⟩ record.entries .empty).bind _

theorem lines_stops (records : List Record) (board : Board) :
    (lines records.length board).StopsIn (records.flatMap Record.fields) :=
  StopsIn.loop (fun board line => board.put line.1 line.2) recorded_reads
    Record.bytes_fields recorded_stops
    (fun _ _ => by simp only [lines, recorded, bind_assoc, pure_bind]) records board

theorem header_stops (document : Document) : Reader.header.StopsIn document.headFields := by
  refine (take_stops magic).cons (fun rest => take_ok_iff.mpr ⟨rfl, rfl⟩) ?_
  refine (number_stops 2 1).cons (number_run (by decide)) ?_
  refine (number_stops 8 document.version.toNat).cons (number_eight_reads.run document.version) ?_
  exact (number_stops 4 document.records.length).bind _

theorem snapshot_stops (document : Document) : Reader.snapshot.StopsIn document.fields := by
  have hlines := lines_stops document.records ⟨document.version, .empty⟩
  rw [← document.toNat_count] at hlines
  refine (header_stops document).append (a := document.snapshot.header) (fun rest => ?_)
    (hlines.bind _)
  refine header_ok_iff.mpr ⟨rfl, ?_⟩
  simp only [Document.snapshot, document.toNat_count]
  rfl

end Reader

theorem Document.read_take (document : Document) {n : Nat} (h : n < document.bytes.length) :
    read (document.bytes.take n) = .error (faultAt document.fields n) := by
  have hstops := Reader.snapshot_stops document n
  rw [document.bytes_fields] at hstops
  rw [read, hstops h]
  rfl

theorem Document.read_before_word {document : Document} {before after : List Field} {word : Word}
    (h : document.fields = before ++ .word word :: after) :
    read (fieldBytes before) = .error .endOfData := by
  have hbytes : document.bytes = fieldBytes before ++ (word.bytes ++ fieldBytes after) := by
    rw [← document.bytes_fields, h, fieldBytes_append]
    rfl
  have hword := length_word_bytes word
  have hshort : (fieldBytes before).length < document.bytes.length := by
    rw [hbytes, List.length_append, List.length_append]
    omega
  have hread := document.read_take hshort
  rw [h, faultAt_append, if_neg (Nat.lt_irrefl _), Nat.sub_self, faultAt, Field.bytes,
    if_pos (by omega), hbytes, List.take_left] at hread
  exact hread

theorem Fault.message_identifierTruncated (expected found : Nat) :
    (identifierTruncated expected found).message =
      "Invalid snapshot entry: identifier truncated: expected " ++ toString expected ++
        " bytes, found " ++ toString found := by
  have hfront : "Invalid snapshot entry: identifier truncated: expected " =
      "Invalid snapshot entry: " ++ "identifier truncated: expected " := by decide +kernel
  change "Invalid snapshot entry: " ++ ("identifier truncated: expected " ++ toString expected ++
    " bytes, found " ++ toString found) = _
  rw [hfront]
  simp only [String.append_assoc]

/-- The bytes that are written of a board are those of a document. The reader refuses them wherever
they are cut short, and says why: an identifier is truncated where its length is still there, but
not all of its text, and elsewhere the data ends. -/
theorem read_cut :
    (∀ board : Board, board.Fits → ∃ document : Document,
      document.Describes ⟨⟨1, board.version, .ofNat board.lines.size⟩, board⟩ ∧
      (ofBoard board).bind write = .ok document.bytes) ∧
    ∀ (document : Document) (cut : List UInt8), cut <+: document.bytes → cut ≠ document.bytes →
      (∀ expected found, CutsWord document.fields cut.length expected found →
        ∃ fault, read cut = .error fault ∧ fault = .identifierTruncated expected found ∧
          fault.message = "Invalid snapshot entry: identifier truncated: expected " ++
            toString expected ++ " bytes, found " ++ toString found) ∧
      ((∀ expected found, ¬ CutsWord document.fields cut.length expected found) →
        read cut = .error .endOfData) := by
  constructor
  · intro board fits
    obtain ⟨document, hsnapshot, hbytes⟩ := write_of_fits fits
    exact ⟨document, Document.describes_iff.mpr hsnapshot.symm, hbytes⟩
  · intro document cut hinitial hne
    have hshort : cut.length < document.bytes.length :=
      Nat.lt_of_le_of_ne hinitial.length_le fun hlength => hne (hinitial.eq_of_length hlength)
    have hread := document.read_take hshort
    rw [← List.prefix_iff_eq_take.mp hinitial] at hread
    constructor
    · intro expected found hcut
      refine ⟨_, hread, faultAt_of_cutsWord hcut, ?_⟩
      rw [faultAt_of_cutsWord hcut, Fault.message_identifierTruncated]
    · intro hcut
      rw [hread, faultAt_of_not_cutsWord hcut]

theorem read_cut_line :
    let board : Board := ⟨3, .ofList [(⟨"é"⟩, .empty)]⟩
    let document : Document := ⟨3, [⟨⟨"é", by decide +kernel⟩, [], by decide⟩], by decide⟩
    board.Fits ∧ (ofBoard board).bind write = .ok document.bytes ∧
      document.bytes.length = 28 ∧
      read (document.bytes.take 23) = .error (.identifierTruncated 2 1) ∧
      read (document.bytes.take 20) = .error .endOfData := by
  intro board document
  have fits : board.Fits := ⟨by decide +kernel, by decide +kernel, by decide +kernel,
    by decide +kernel, by decide +kernel⟩
  have hlength : document.bytes.length = 28 := by decide +kernel
  have hcut (n : Nat) (hn : n < document.bytes.length) :=
    read_cut.2 document (document.bytes.take n) (List.take_prefix n _) fun h => by
      have hshort := congrArg List.length h
      rw [List.length_take] at hshort
      omega
  refine ⟨fits, by decide +kernel, hlength, ?_, ?_⟩
  · obtain ⟨fault, hread, rfl, -⟩ := (hcut 23 (by omega)).1 2 1
      ⟨document.headFields, _, _, rfl, by decide +kernel, by decide, by decide +kernel⟩
    exact hread
  · have hfault : faultAt document.fields (document.bytes.take 20).length = .endOfData := by
      decide +kernel
    refine (hcut 20 (by omega)).2 fun expected found hword => ?_
    rw [faultAt_of_cutsWord hword] at hfault
    cases hfault

end OnAir.Snapshot
