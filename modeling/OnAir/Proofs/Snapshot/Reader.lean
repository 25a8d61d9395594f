import OnAir.Proofs.Snapshot.Format
import OnAir.Proofs.Utf8
import OnAir.Snapshot.Reader

set_option autoImplicit false

namespace OnAir

theorem Reach.ofByte?_eq_some_iff {code : UInt8} {reach : Reach} :
    Reach.ofByte? code = some reach ↔ code = reach.byte := by
  constructor
  · exact fun h => (of_decide_eq_true (List.find?_some h :)).symm
  · rintro rfl
    exact reach.ofByte?_byte

namespace Snapshot

namespace Reader

variable {α β : Type} {input rest : List UInt8}

theorem bind_ok_iff {r : Reader α} {f : α → Reader β} {b : β} :
    (r >>= f).run input = .ok (b, rest) ↔
      ∃ a mid, r.run input = .ok (a, mid) ∧ (f a).run mid = .ok (b, rest) := by
  rw [StateT.run_bind]
  cases r.run input with
  | error fault =>
    constructor
    · exact fun h => nomatch h
    · rintro ⟨_, _, h, -⟩
      exact nomatch h
  | ok found =>
    constructor
    · exact fun h => ⟨found.1, found.2, rfl, h⟩
    · rintro ⟨a, mid, h, hf⟩
      obtain rfl := Except.ok.inj h
      exact hf

theorem pure_ok_iff {a b : α} :
    (pure a : Reader α).run input = .ok (b, rest) ↔ a = b ∧ input = rest := by
  rw [StateT.run_pure]
  exact ⟨fun h => Prod.mk.inj (Except.ok.inj h), fun h => by rw [h.1, h.2]; rfl⟩

theorem not_throw_ok {fault : Fault} {b : α} :
    ¬ (throw fault : Reader α).run input = .ok (b, rest) := fun h => nomatch h

theorem get_ok_iff {bytes : List UInt8} :
    (get : Reader (List UInt8)).run input = .ok (bytes, rest) ↔ input = bytes ∧ input = rest :=
  pure_ok_iff

theorem set_ok_iff {bytes : List UInt8} {u : PUnit} :
    (set bytes : Reader PUnit).run input = .ok (u, rest) ↔ bytes = rest :=
  ⟨fun h => congrArg Prod.snd (Except.ok.inj h), fun h => h ▸ rfl⟩

theorem take_ok_iff {n : Nat} {taken : List UInt8} :
    (take n).run input = .ok (taken, rest) ↔ input = taken ++ rest ∧ taken.length = n := by
  rw [← Bytes.split?_eq_some_iff, take, bind_ok_iff]
  constructor
  · rintro ⟨bytes, _, hget, h⟩
    obtain ⟨rfl, rfl⟩ := get_ok_iff.mp hget
    split at h
    · exact absurd h not_throw_ok
    · next hsplit =>
      obtain ⟨_, _, hset, hpure⟩ := bind_ok_iff.mp h
      obtain rfl := set_ok_iff.mp hset
      obtain ⟨rfl, rfl⟩ := pure_ok_iff.mp hpure
      exact hsplit
  · intro hsplit
    refine ⟨input, input, rfl, ?_⟩
    rw [hsplit]
    rfl

theorem number_ok_iff {width n : Nat} :
    (number width).run input = .ok (n, rest) ↔
      n < Bytes.room width ∧ input = Bytes.ofNat width n ++ rest := by
  rw [number, bind_ok_iff]
  simp only [take_ok_iff, pure_ok_iff]
  constructor
  · rintro ⟨taken, mid, ⟨rfl, rfl⟩, rfl, rfl⟩
    exact ⟨Bytes.toNat_lt taken, by rw [Bytes.ofNat_toNat]⟩
  · rintro ⟨hn, rfl⟩
    exact ⟨_, rest, ⟨rfl, Bytes.length_ofNat width n⟩, Bytes.toNat_ofNat hn, rfl⟩

theorem byte_ok_iff {b : UInt8} : byte.run input = .ok (b, rest) ↔ input = b :: rest := by
  rw [byte, bind_ok_iff]
  simp only [number_ok_iff, pure_ok_iff]
  constructor
  · rintro ⟨n, mid, ⟨hn, rfl⟩, rfl, rfl⟩
    rfl
  · rintro rfl
    refine ⟨b.toNat, rest, ⟨b.toNat_lt, ?_⟩, UInt8.ofNat_toNat, rfl⟩
    rw [Bytes.ofNat, Bytes.ofNat, UInt8.ofNat_toNat, List.singleton_append]

/-- The reader takes the bytes of a form off the front of what it reads, and nothing else. -/
structure Reads {φ : Type} (r : Reader α) (bytes : φ → List UInt8) (value : φ → α) : Prop where
  form : ∀ {input rest : List UInt8} {a : α}, r.run input = .ok (a, rest) →
    ∃ form, value form = a ∧ input = bytes form ++ rest
  run : ∀ form rest, r.run (bytes form ++ rest) = .ok (value form, rest)

/-- A reader that goes on with what it has until it has read a number of forms. -/
theorem Reads.loop {φ σ : Type} {r : Reader α} {bytes : φ → List UInt8} {value : φ → α}
    {loop : Nat → σ → Reader σ} {step : σ → α → σ} (reads : r.Reads bytes value)
    (hzero : ∀ s, loop 0 s = pure s)
    (hsucc : ∀ n s, loop (n + 1) s = r >>= fun a => loop n (step s a)) {n : Nat} {s t : σ} :
    (loop n s).run input = .ok (t, rest) ↔ ∃ forms : List φ, forms.length = n ∧
      (forms.map value).foldl step s = t ∧ input = forms.flatMap bytes ++ rest := by
  induction n generalizing s input with
  | zero =>
    rw [hzero, pure_ok_iff]
    constructor
    · rintro ⟨rfl, rfl⟩
      exact ⟨[], rfl, rfl, rfl⟩
    · rintro ⟨forms, hlength, rfl, rfl⟩
      obtain rfl := List.length_eq_zero_iff.mp hlength
      exact ⟨rfl, rfl⟩
  | succ n ih =>
    rw [hsucc, bind_ok_iff]
    constructor
    · rintro ⟨_, _, hfirst, hrest⟩
      obtain ⟨form, rfl, rfl⟩ := reads.form hfirst
      obtain ⟨forms, rfl, rfl, rfl⟩ := ih.mp hrest
      exact ⟨form :: forms, rfl, rfl, by rw [List.flatMap_cons, List.append_assoc]⟩
    · rintro ⟨forms, hlength, rfl, rfl⟩
      cases forms with
      | nil => exact nomatch hlength
      | cons form forms =>
        rw [List.flatMap_cons, List.append_assoc]
        exact ⟨_, _, reads.run form _, ih.mpr ⟨forms, Nat.succ.inj hlength, rfl, rfl⟩⟩

theorem number_eight_reads :
    (number 8).Reads (fun v : UInt64 => Bytes.ofNat 8 v.toNat) UInt64.toNat where
  form {_ _ n} h := by
    obtain ⟨hn, rfl⟩ := number_ok_iff.mp h
    have hv : (UInt64.ofNat n).toNat = n := UInt64.toNat_ofNat_of_lt hn
    exact ⟨.ofNat n, hv, by rw [hv]⟩
  run v _ := number_ok_iff.mpr ⟨v.toNat_lt, rfl⟩

theorem text_reads : text.Reads Word.bytes Word.text where
  form h := by
    obtain ⟨length, after, hlength, h₁⟩ := bind_ok_iff.mp h
    obtain ⟨hfits, rfl⟩ := number_ok_iff.mp hlength
    obtain ⟨bytes, _, hget, hmatch⟩ := bind_ok_iff.mp h₁
    obtain ⟨rfl, rfl⟩ := get_ok_iff.mp hget
    split at hmatch
    · exact absurd hmatch not_throw_ok
    · next taken left hsplit =>
      obtain ⟨rfl, rfl⟩ := Bytes.split?_eq_some_iff.mp hsplit
      obtain ⟨_, _, hset, hmatch'⟩ := bind_ok_iff.mp hmatch
      obtain rfl := set_ok_iff.mp hset
      split at hmatch'
      · exact absurd hmatch' not_throw_ok
      · next hdecode =>
        obtain ⟨rfl, rfl⟩ := pure_ok_iff.mp hmatch'
        obtain rfl := Utf8.decode_eq_ok_iff.mp hdecode
        exact ⟨⟨_, hfits⟩, rfl, by rw [Word.bytes, List.append_assoc]⟩
  run word rest := by
    have hsplit : Bytes.split? (Utf8.encode word.text).length (Utf8.encode word.text ++ rest) =
        some (Utf8.encode word.text, rest) := Bytes.split?_eq_some_iff.mpr ⟨rfl, rfl⟩
    rw [Word.bytes, List.append_assoc]
    refine bind_ok_iff.mpr ⟨_, _, number_ok_iff.mpr ⟨word.fits, rfl⟩, ?_⟩
    refine bind_ok_iff.mpr ⟨_, _, get_ok_iff.mpr ⟨rfl, rfl⟩, ?_⟩
    rw [hsplit]
    refine bind_ok_iff.mpr ⟨⟨⟩, rest, rfl, ?_⟩
    rw [Utf8.decode_encode]
    exact pure_ok_iff.mpr ⟨rfl, rfl⟩

theorem duration_reads : Reader.duration.Reads Span.bytes Span.duration where
  form h := by
    obtain ⟨flag, _, hflag, h₁⟩ := bind_ok_iff.mp h
    obtain rfl := byte_ok_iff.mp hflag
    split at h₁
    · next hzero =>
      obtain ⟨rfl, rfl⟩ := pure_ok_iff.mp h₁
      exact ⟨.rest, rfl, by rw [hzero]; rfl⟩
    · next known =>
      obtain ⟨n, _, hn, hpure⟩ := bind_ok_iff.mp h₁
      obtain ⟨v, rfl, rfl⟩ := number_eight_reads.form hn
      obtain ⟨rfl, rfl⟩ := pure_ok_iff.mp hpure
      refine ⟨.lasting flag known v.toInt64, ?_, rfl⟩
      rw [UInt64.ofNat_toNat]
      rfl
  run span rest := by
    cases span with
    | rest => exact bind_ok_iff.mpr ⟨0, rest, byte_ok_iff.mpr rfl, pure_ok_iff.mpr ⟨rfl, rfl⟩⟩
    | lasting flag known duration =>
      refine bind_ok_iff.mpr ⟨flag, _, byte_ok_iff.mpr rfl, ?_⟩
      rw [if_neg known]
      refine bind_ok_iff.mpr ⟨_, rest, number_eight_reads.run duration.toUInt64 rest, ?_⟩
      rw [UInt64.ofNat_toNat]
      exact pure_ok_iff.mpr ⟨rfl, rfl⟩

theorem airing_reads : Reader.airing.Reads Shown.bytes Shown.airing where
  form h := by
    obtain ⟨_, _, horigin, h₁⟩ := bind_ok_iff.mp h
    obtain ⟨origin, rfl, rfl⟩ := text_reads.form horigin
    obtain ⟨_, _, hline, h₂⟩ := bind_ok_iff.mp h₁
    obtain ⟨originLine, rfl, rfl⟩ := text_reads.form hline
    obtain ⟨code, _, hcode, h₃⟩ := bind_ok_iff.mp h₂
    obtain rfl := byte_ok_iff.mp hcode
    split at h₃
    · exact absurd h₃ not_throw_ok
    · next reach hreach =>
      obtain rfl := Reach.ofByte?_eq_some_iff.mp hreach
      obtain ⟨continued, _, hcontinued, h₄⟩ := bind_ok_iff.mp h₃
      obtain rfl := byte_ok_iff.mp hcontinued
      obtain ⟨_, _, helapsed, h₅⟩ := bind_ok_iff.mp h₄
      obtain ⟨elapsed, rfl, rfl⟩ := number_eight_reads.form helapsed
      obtain ⟨_, _, hduration, hpure⟩ := bind_ok_iff.mp h₅
      obtain ⟨span, rfl, rfl⟩ := duration_reads.form hduration
      obtain ⟨rfl, rfl⟩ := pure_ok_iff.mp hpure
      refine ⟨⟨origin, originLine, reach, continued, elapsed, span⟩, ?_, ?_⟩
      · rw [Shown.airing, UInt64.ofNat_toNat]
      · simp only [Shown.bytes, List.append_assoc, List.cons_append, List.nil_append]
  run shown rest := by
    simp only [Shown.bytes, List.append_assoc, List.cons_append, List.nil_append]
    refine bind_ok_iff.mpr ⟨_, _, text_reads.run shown.origin _, ?_⟩
    refine bind_ok_iff.mpr ⟨_, _, text_reads.run shown.originLine _, ?_⟩
    refine bind_ok_iff.mpr ⟨_, _, byte_ok_iff.mpr rfl, ?_⟩
    rw [Reach.ofByte?_byte]
    refine bind_ok_iff.mpr ⟨_, _, byte_ok_iff.mpr rfl, ?_⟩
    refine bind_ok_iff.mpr ⟨_, _, number_eight_reads.run shown.elapsed _, ?_⟩
    refine bind_ok_iff.mpr ⟨_, _, duration_reads.run shown.span rest, pure_ok_iff.mpr ⟨?_, rfl⟩⟩
    rw [UInt64.ofNat_toNat]
    rfl

theorem entry_reads (line : Id .line) (layer : Id .layer) :
    (entry line layer).Reads Shown.optionBytes (Option.map Shown.airing) where
  form h := by
    obtain ⟨tag, _, htag, h₁⟩ := bind_ok_iff.mp h
    obtain rfl := byte_ok_iff.mp htag
    split at h₁
    · next hzero =>
      obtain ⟨rfl, rfl⟩ := pure_ok_iff.mp h₁
      exact ⟨none, rfl, by rw [hzero]; rfl⟩
    split at h₁
    · next hone =>
      obtain ⟨_, _, hairing, hpure⟩ := bind_ok_iff.mp h₁
      obtain ⟨shown, rfl, rfl⟩ := airing_reads.form hairing
      obtain ⟨rfl, rfl⟩ := pure_ok_iff.mp hpure
      exact ⟨some shown, rfl, by rw [hone]; rfl⟩
    · exact absurd h₁ not_throw_ok
  run shown rest := by
    cases shown with
    | none => exact bind_ok_iff.mpr ⟨0, rest, byte_ok_iff.mpr rfl, pure_ok_iff.mpr ⟨rfl, rfl⟩⟩
    | some shown =>
      refine bind_ok_iff.mpr ⟨1, shown.bytes ++ rest, byte_ok_iff.mpr rfl, ?_⟩
      exact bind_ok_iff.mpr ⟨_, _, airing_reads.run shown rest, pure_ok_iff.mpr ⟨rfl, rfl⟩⟩

def layered (line : Id .line) : Reader (Id .layer × Option Airing) := do
  let layer : Id .layer := ⟨← text⟩
  return (layer, ← entry line layer)

theorem layered_reads (line : Id .line) : (layered line).Reads Entry.bytes Entry.pair where
  form h := by
    obtain ⟨_, _, hlayer, h₁⟩ := bind_ok_iff.mp h
    obtain ⟨layer, rfl, rfl⟩ := text_reads.form hlayer
    obtain ⟨_, _, hentry, hpure⟩ := bind_ok_iff.mp h₁
    obtain ⟨shown, rfl, rfl⟩ := (entry_reads line _).form hentry
    obtain ⟨rfl, rfl⟩ := pure_ok_iff.mp hpure
    exact ⟨⟨layer, shown⟩, rfl, by rw [Entry.bytes, List.append_assoc]⟩
  run form rest := by
    rw [Entry.bytes, List.append_assoc]
    refine bind_ok_iff.mpr ⟨_, _, text_reads.run form.layer _, ?_⟩
    refine bind_ok_iff.mpr ⟨_, _, (entry_reads line _).run form.shown rest, ?_⟩
    exact pure_ok_iff.mpr ⟨rfl, rfl⟩

theorem entries_ok_iff {line : Id .line} {count : Nat} {lineup read : Lineup} :
    (entries line count lineup).run input = .ok (read, rest) ↔
      ∃ forms : List Entry, forms.length = count ∧
        lineup.insertAll (forms.map Entry.pair) = read ∧
        input = forms.flatMap Entry.bytes ++ rest :=
  (layered_reads line).loop (fun _ => rfl) fun _ _ => by
    simp only [entries, layered, bind_assoc, pure_bind]

def recorded : Reader (Id .line × Lineup) := do
  let line : Id .line := ⟨← text⟩
  let count ← number 4
  return (line, ← entries line count .empty)

theorem recorded_reads : recorded.Reads Record.bytes Record.pair where
  form h := by
    obtain ⟨_, _, hline, h₁⟩ := bind_ok_iff.mp h
    obtain ⟨line, rfl, rfl⟩ := text_reads.form hline
    obtain ⟨n, _, hn, h₂⟩ := bind_ok_iff.mp h₁
    obtain ⟨hfits, rfl⟩ := number_ok_iff.mp hn
    obtain ⟨_, _, hentries, hpure⟩ := bind_ok_iff.mp h₂
    obtain ⟨entries, rfl, rfl, rfl⟩ := entries_ok_iff.mp hentries
    obtain ⟨rfl, rfl⟩ := pure_ok_iff.mp hpure
    exact ⟨⟨line, entries, hfits⟩, rfl, by
      rw [Record.bytes, List.append_assoc, List.append_assoc]⟩
  run record rest := by
    rw [Record.bytes, List.append_assoc, List.append_assoc]
    refine bind_ok_iff.mpr ⟨_, _, text_reads.run record.line _, ?_⟩
    refine bind_ok_iff.mpr ⟨_, _, number_ok_iff.mpr ⟨record.fits, rfl⟩, ?_⟩
    refine bind_ok_iff.mpr ⟨_, _, entries_ok_iff.mpr ⟨record.entries, rfl, rfl, rfl⟩, ?_⟩
    exact pure_ok_iff.mpr ⟨rfl, rfl⟩

theorem lines_ok_iff {count : Nat} {board read : Board} :
    (lines count board).run input = .ok (read, rest) ↔
      ∃ records : List Record, records.length = count ∧
        board.putAll (records.map Record.pair) = read ∧
        input = records.flatMap Record.bytes ++ rest :=
  recorded_reads.loop (fun _ => rfl) fun _ _ => by
    simp only [lines, recorded, bind_assoc, pure_bind]

theorem header_ok_iff {header : Header} :
    Reader.header.run input = .ok (header, rest) ↔ header.format = currentFormat ∧
      input = magic ++ (Bytes.ofNat 2 currentFormat.toNat ++
        (Bytes.ofNat 8 header.boardVersion.toNat ++
          (Bytes.ofNat 4 header.lineCount.toNat ++ rest))) := by
  rw [Reader.header, bind_ok_iff]
  constructor
  · rintro ⟨taken, _, htake, h⟩
    obtain ⟨rfl, -⟩ := take_ok_iff.mp htake
    dsimp only at h
    split at h
    · obtain ⟨_, _, hthrow, -⟩ := bind_ok_iff.mp h
      exact absurd hthrow not_throw_ok
    · next hmagic =>
      obtain ⟨format, _, hformat, h₁⟩ := bind_ok_iff.mp h
      obtain ⟨hlt, rfl⟩ := number_ok_iff.mp hformat
      split at h₁
      · obtain ⟨_, _, hthrow, -⟩ := bind_ok_iff.mp h₁
        exact absurd hthrow not_throw_ok
      · next hcurrent =>
        obtain ⟨_, _, hversion, h₂⟩ := bind_ok_iff.mp h₁
        obtain ⟨version, rfl, rfl⟩ := number_eight_reads.form hversion
        obtain ⟨count, _, hcount, hpure⟩ := bind_ok_iff.mp h₂
        obtain ⟨hroom, rfl⟩ := number_ok_iff.mp hcount
        obtain ⟨rfl, rfl⟩ := pure_ok_iff.mp hpure
        have hone : UInt16.ofNat format = currentFormat := Decidable.of_not_not hcurrent
        have hformat : (UInt16.ofNat format).toNat = format := UInt16.toNat_ofNat_of_lt hlt
        have hcount : (UInt32.ofNat count).toNat = count := UInt32.toNat_ofNat_of_lt hroom
        refine ⟨hone, ?_⟩
        dsimp only
        rw [Decidable.of_not_not hmagic, ← hone, hformat, UInt64.ofNat_toNat, hcount]
  · rintro ⟨hformat, rfl⟩
    refine ⟨_, _, take_ok_iff.mpr ⟨rfl, rfl⟩, ?_⟩
    refine bind_ok_iff.mpr ⟨_, _, number_ok_iff.mpr ⟨currentFormat.toNat_lt, rfl⟩, ?_⟩
    refine bind_ok_iff.mpr ⟨_, _, number_eight_reads.run header.boardVersion _, ?_⟩
    refine bind_ok_iff.mpr ⟨_, _, number_ok_iff.mpr ⟨header.lineCount.toNat_lt, rfl⟩, ?_⟩
    refine pure_ok_iff.mpr ⟨?_, rfl⟩
    rw [UInt16.ofNat_toNat, UInt64.ofNat_toNat, UInt32.ofNat_toNat, ← hformat]

end Reader

/-- The reader accepts what begins with the bytes of a document, and gives what that describes. -/
theorem read_eq_ok_iff {bytes : List UInt8} {snapshot : Snapshot} :
    read bytes = .ok snapshot ↔
      ∃ document rest, bytes = Document.bytes document ++ rest ∧ document.snapshot = snapshot := by
  have hrun : read bytes = .ok snapshot ↔
      ∃ rest, Reader.snapshot.run bytes = .ok (snapshot, rest) := by
    rw [read]
    constructor
    · intro h
      obtain ⟨⟨found, rest⟩, hfound, rfl⟩ := exists_of_map_ok h
      exact ⟨rest, hfound⟩
    · rintro ⟨rest, h⟩
      rw [h]
      rfl
  rw [hrun, Reader.snapshot]
  simp only [Reader.bind_ok_iff]
  constructor
  · rintro ⟨_, ⟨format, version, count⟩, _, hheader, board, left, hlines, hpure⟩
    obtain ⟨hformat, rfl⟩ := Reader.header_ok_iff.mp hheader
    obtain rfl : format = currentFormat := hformat
    obtain ⟨records, hlength, rfl, rfl⟩ := Reader.lines_ok_iff.mp hlines
    obtain ⟨rfl, rfl⟩ := Reader.pure_ok_iff.mp hpure
    have hfits : records.length < UInt32.size := hlength ▸ count.toNat_lt
    refine ⟨⟨version, records, hfits⟩, left, ?_, ?_⟩
    · simp only [Document.bytes, List.append_assoc, hlength]
      rfl
    · rw [Document.snapshot, Board.putAll_eq, hlength, UInt32.ofNat_toNat]
      rfl
  · rintro ⟨document, rest, rfl, rfl⟩
    refine ⟨rest, document.snapshot.header, _, Reader.header_ok_iff.mpr ⟨rfl, ?_⟩, _, rest,
      Reader.lines_ok_iff.mpr ⟨document.records, document.toNat_count.symm, rfl, rfl⟩, ?_⟩
    · simp only [Document.bytes, Document.snapshot, List.append_assoc, document.toNat_count]
      rfl
    · rw [Board.putAll_eq]
      exact Reader.pure_ok_iff.mpr ⟨rfl, rfl⟩

/-- Bytes are accepted exactly if they begin with those of a document, and then the document alone
says what is read. -/
theorem read_ok_iff_document :
    (∀ bytes, (∃ snapshot, read bytes = .ok snapshot) ↔
      ∃ (document : Document) (rest : List UInt8), bytes = document.bytes ++ rest) ∧
    ∀ (document : Document) (rest : List UInt8), ∃ snapshot,
      read (document.bytes ++ rest) = .ok snapshot ∧
        ∀ other, document.Describes other ↔ other = snapshot := by
  constructor
  · intro bytes
    constructor
    · rintro ⟨snapshot, h⟩
      obtain ⟨document, rest, hbytes, -⟩ := read_eq_ok_iff.mp h
      exact ⟨document, rest, hbytes⟩
    · rintro ⟨document, rest, hbytes⟩
      exact ⟨document.snapshot, read_eq_ok_iff.mpr ⟨document, rest, hbytes, rfl⟩⟩
  · exact fun document rest => ⟨document.snapshot,
      read_eq_ok_iff.mpr ⟨document, rest, rfl, rfl⟩, fun _ => Document.describes_iff⟩

end Snapshot

end OnAir
