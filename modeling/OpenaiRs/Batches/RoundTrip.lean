import OpenaiRs.Batches.Reader
import OpenaiRs.Batches.Records

/-!
# Reading a batch file back

A reader over a written file yields the lines in order, however the file is split into fills, also
when newlines are written as `cr lf` and when the last one is missing.
-/

namespace OpenaiRs.Batches

open Rust

namespace BatchJsonlReader

section Fills

/-- The source returns non-empty pieces of `bytes`, and then nothing. -/
structure Supplies (reader : BufRead) (bytes : Bytes) : Prop where
  pieces : ∀ fill ∈ reader, ∃ piece, fill = .ok piece ∧ piece ≠ []
  joined : (reader.flatMap fun fill => fill.toOption.getD []) = bytes

theorem supplies_nil {bytes : Bytes} (h : Supplies [] bytes) : bytes = [] := h.joined.symm

theorem Supplies.cons_cases {fill : Except String Bytes} {rest : BufRead} {bytes : Bytes}
    (h : Supplies (fill :: rest) bytes) :
    ∃ piece tail, fill = .ok piece ∧ piece ≠ [] ∧ bytes = piece ++ tail ∧ Supplies rest tail := by
  obtain ⟨piece, hfill, hpiece⟩ := h.pieces fill (.head _)
  refine ⟨piece, _, hfill, hpiece, ?_, ⟨fun other hother => h.pieces other (.tail _ hother), rfl⟩⟩
  rw [← h.joined, hfill]
  rfl

theorem Supplies.cons {piece tail : Bytes} {rest : BufRead} (hpiece : piece ≠ [])
    (h : Supplies rest tail) : Supplies (.ok piece :: rest) (piece ++ tail) where
  pieces := by
    intro fill hfill
    obtain rfl | hrest := List.mem_cons.mp hfill
    · exact ⟨piece, rfl, hpiece⟩
    · exact h.pieces fill hrest
  joined := by
    rw [List.flatMap_cons, h.joined]
    rfl

theorem Supplies.consume {available tail : Bytes} {rest : BufRead} (h : Supplies rest tail)
    (count : Nat) : Supplies (consume available count rest) (available.drop count ++ tail) := by
  rw [Batches.consume]
  split
  · rename_i hall
    rw [List.drop_eq_nil_of_le hall]
    exact h
  · rename_i hpart
    refine Supplies.cons ?_ h
    intro hnil
    exact hpart (List.drop_eq_nil_iff.mp hnil)

theorem findIdx_none {bytes : Bytes} (h : lf ∉ bytes) :
    bytes.findIdx? (fun byte => byte = lf) = none := by
  rw [List.findIdx?_eq_none_iff]
  intro byte hbyte
  simp only [decide_eq_false_iff_not]
  rintro rfl
  exact h hbyte

theorem findIdx_lf {row : Bytes} (h : lf ∉ row) (tail : Bytes) :
    (row ++ lf :: tail).findIdx? (fun byte => byte = lf) = some row.length := by
  rw [List.findIdx?_append, findIdx_none h, List.findIdx?_cons]
  simp

theorem saturatingAdd_le (a b : Nat) : saturatingAdd a b ≤ a + b := Nat.min_le_left _ _

/-- A fill in front of a row that a newline ends: the newline is in the fill, or the fill is a part
of the row. -/
theorem fill_cases {row piece behind tail : Bytes} (h : row ++ lf :: tail = piece ++ behind) :
    (∃ more, piece = row ++ lf :: more ∧ tail = more ++ behind) ∨
      ∃ left, row = piece ++ left ∧ behind = left ++ lf :: tail := by
  obtain ⟨more, hpiece, hmore⟩ | ⟨left, hrow, hleft⟩ := List.append_eq_append_iff.mp h
  · cases more with
    | nil =>
        right
        refine ⟨[], ?_, hmore.symm⟩
        rw [hpiece, List.append_nil, List.append_nil]
    | cons b more =>
        left
        rw [List.cons_append] at hmore
        injection hmore with hb hmore
        exact ⟨more, by rw [hpiece, hb], hmore⟩
  · exact .inr ⟨left, hrow, hleft⟩

variable {line maxLineBytes : Nat} {buffer row tail : Bytes} {reader : BufRead}

/-- A fill without newline that fits is appended to the buffer. -/
theorem readLoop_fill {piece : Bytes} (hpiece : piece ≠ []) (hplain : lf ∉ piece)
    (hfit : buffer.length + piece.length ≤ maxLineBytes) (rest : BufRead) :
    readLoop line maxLineBytes buffer (.ok piece :: rest) =
      readLoop line maxLineBytes (buffer ++ piece) rest := by
  have hlong := saturatingAdd_le buffer.length piece.length
  rw [readLoop, findIdx_none hplain, List.isEmpty_eq_false_iff.mpr hpiece, if_neg Bool.false_ne_true]
  exact if_neg (by omega)

/-- A fill with a newline ends the loop. -/
theorem readLoop_newline (hrow : lf ∉ row) (hfit : buffer.length + row.length ≤ maxLineBytes)
    (more : Bytes) (rest : BufRead) :
    readLoop line maxLineBytes buffer (.ok (row ++ lf :: more) :: rest) =
      (.line, buffer ++ row, consume (row ++ lf :: more) (row.length + 1) rest) := by
  have hlong := saturatingAdd_le buffer.length row.length
  have hfull : (row ++ lf :: more).isEmpty = false := by simp
  rw [readLoop, findIdx_lf hrow, hfull, if_neg Bool.false_ne_true]
  simp only [List.take_left]
  exact if_neg (by omega)

/-- A row that a newline ends: the loop reads it and leaves what is behind the newline. -/
theorem readLoop_row (line : Nat) (buffer : Bytes) (hrow : lf ∉ row) (hfit : buffer.length + row.length ≤ maxLineBytes)
    (hreader : Supplies reader (row ++ lf :: tail)) :
    ∃ rest, readLoop line maxLineBytes buffer reader = (.line, buffer ++ row, rest) ∧
      Supplies rest tail := by
  induction reader generalizing row buffer with
  | nil =>
      have hnil := supplies_nil hreader
      simp at hnil
  | cons fill rest ih =>
      obtain ⟨piece, behind, rfl, hpiece, hsplit, hrest⟩ := hreader.cons_cases
      obtain ⟨more, rfl, rfl⟩ | ⟨left, rfl, rfl⟩ := fill_cases hsplit
      · refine ⟨_, readLoop_newline hrow hfit more rest, ?_⟩
        have hdrop : (row ++ lf :: more).drop (row.length + 1) = more := by
          rw [← List.drop_drop, List.drop_left]
          rfl
        have hconsume : Supplies (consume (row ++ lf :: more) (row.length + 1) rest)
            ((row ++ lf :: more).drop (row.length + 1) ++ _) := hrest.consume (row.length + 1)
        rwa [hdrop] at hconsume
      · have hplain : lf ∉ piece := fun hmem => hrow (List.mem_append_left _ hmem)
        have hleft : lf ∉ left := fun hmem => hrow (List.mem_append_right _ hmem)
        rw [List.length_append] at hfit
        rw [readLoop_fill hpiece hplain (by omega), ← List.append_assoc]
        exact ih _ hleft (by rw [List.length_append]; omega) hrest

/-- A row that the end of the input ends. -/
theorem readLoop_last (line : Nat) (buffer : Bytes) (hrow : lf ∉ row) (hfit : buffer.length + row.length ≤ maxLineBytes)
    (hreader : Supplies reader row) :
    readLoop line maxLineBytes buffer reader = (atEnd (buffer ++ row), buffer ++ row, []) := by
  induction reader generalizing row buffer with
  | nil =>
      rw [supplies_nil hreader, List.append_nil]
      rfl
  | cons fill rest ih =>
      obtain ⟨piece, behind, rfl, hpiece, rfl, hrest⟩ := hreader.cons_cases
      have hplain : lf ∉ piece := fun hmem => hrow (List.mem_append_left _ hmem)
      have hbehind : lf ∉ behind := fun hmem => hrow (List.mem_append_right _ hmem)
      rw [List.length_append] at hfit
      rw [readLoop_fill hpiece hplain (by omega), ← List.append_assoc]
      exact ih _ hbehind (by rw [List.length_append]; omega) hrest

end Fills

section Lines

variable {T : Type} {fromSlice : Bytes → Except String T} {maxLineBytes : Nat} {value : T}
  {values : List T} {row bytes : Bytes} {r : BatchJsonlReader}

/-- The bytes of one line in a file, without its newline; a `cr` can be at the end. -/
structure Row (fromSlice : Bytes → Except String T) (maxLineBytes : Nat) (value : T) (row : Bytes) :
    Prop where
  plain : lf ∉ row
  fits : row.length ≤ maxLineBytes
  text : popCr row ≠ []
  decodes : fromSlice (popCr row) = .ok value

/-- The bytes of a file: each row ends at a newline, and the last one at the end as well. -/
inductive FileOf (fromSlice : Bytes → Except String T) (maxLineBytes : Nat) : List T → Bytes → Prop where
  | empty : FileOf fromSlice maxLineBytes [] []
  | line {value : T} {values : List T} {row tail : Bytes} (first : Row fromSlice maxLineBytes value row)
      (rest : FileOf fromSlice maxLineBytes values tail) :
      FileOf fromSlice maxLineBytes (value :: values) (row ++ lf :: tail)
  | last {value : T} {row : Bytes} (first : Row fromSlice maxLineBytes value row) :
      FileOf fromSlice maxLineBytes [value] row

/-- The reader before the given bytes. -/
structure Before (r : BatchJsonlReader) (maxLineBytes : Nat) (bytes : Bytes) : Prop where
  supplies : Supplies r.reader bytes
  limit : r.maxLineBytes = maxLineBytes
  running : r.finished = false

theorem next_of_loop (hfinished : r.finished = false) (hlimit : r.maxLineBytes = maxLineBytes)
    (hrow : Row fromSlice maxLineBytes value row) {rest : BufRead}
    (hloop : readLoop (saturatingAdd r.lineCount 1) maxLineBytes [] r.reader = (.line, row, rest)) :
    r.next fromSlice =
      ({ r with reader := rest, buffer := popCr row, lineCount := saturatingAdd r.lineCount 1 },
        some (.ok value)) := by
  have htext : (popCr row).isEmpty = false := List.isEmpty_eq_false_iff.mpr hrow.text
  have hread : r.readNextLine =
      ({ r with reader := rest, buffer := popCr row, lineCount := saturatingAdd r.lineCount 1 },
        .ok (some (popCr row))) := by
    rw [← hlimit] at hloop
    simp only [readNextLine, hloop, htext, Bool.false_eq_true, if_false]
  simp only [next, hfinished, hread, hrow.decodes, Bool.false_eq_true, if_false]

/-- One call of `next` takes the first line of a file. -/
theorem next_line (hfile : FileOf fromSlice maxLineBytes (value :: values) bytes)
    (h : Before r maxLineBytes bytes) :
    ∃ r' tail, r.next fromSlice = (r', some (.ok value)) ∧
      r'.lineCount = saturatingAdd r.lineCount 1 ∧
      FileOf fromSlice maxLineBytes values tail ∧ Before r' maxLineBytes tail := by
  cases hfile with
  | line hrow hrest =>
      have hfits := hrow.fits
      obtain ⟨rest, hloop, hsupplies⟩ := readLoop_row (saturatingAdd r.lineCount 1) [] hrow.plain
        (by simpa using hfits) h.supplies
      exact ⟨_, _, next_of_loop h.running h.limit hrow hloop, rfl, hrest, hsupplies, h.limit, h.running⟩
  | last hrow =>
      have hfits := hrow.fits
      have hloop := readLoop_last (saturatingAdd r.lineCount 1) [] hrow.plain (by simpa using hfits) h.supplies
      have hfull : bytes ≠ [] := by
        rintro rfl
        exact hrow.text rfl
      have hend : atEnd ([] ++ bytes) = .line := by
        rw [atEnd, List.nil_append, List.isEmpty_eq_false_iff.mpr hfull]
        rfl
      rw [hend] at hloop
      refine ⟨_, [], next_of_loop h.running h.limit hrow hloop, rfl, .empty, ⟨?_, rfl⟩, h.limit, h.running⟩
      intro fill hfill
      cases hfill

/-- At the end of a file `next` yields nothing. -/
theorem next_end (h : Before r maxLineBytes []) :
    ∃ r', r.next fromSlice = (r', none) ∧ r'.lineCount = r.lineCount ∧ r'.finished = true := by
  have hloop : readLoop (saturatingAdd r.lineCount 1) r.maxLineBytes [] r.reader = (atEnd [], [], []) :=
    readLoop_last _ [] (by simp) (Nat.zero_le _) h.supplies
  have hread : r.readNextLine = ({ r with reader := [], buffer := [] }, .ok none) := by
    simp only [readNextLine, hloop]
    rfl
  refine ⟨{ r with reader := [], buffer := [], finished := true }, ?_, rfl, rfl⟩
  simp only [next, h.running, hread, Bool.false_eq_true, if_false]

theorem next_finished (h : r.finished = true) : r.next fromSlice = (r, none) := by
  rw [next, if_pos h]

theorem afterNexts_finished (h : r.finished = true) (count : Nat) : r.afterNexts fromSlice count = r := by
  induction count with
  | zero => rfl
  | succ count ih =>
      rw [afterNexts, next_finished h]
      exact ih

/-- Counting with saturation. -/
theorem saturatingAdd_add_one (a b : Nat) :
    saturatingAdd (saturatingAdd a 1) b = saturatingAdd a (b + 1) := by
  simp only [saturatingAdd]
  omega

/-- The calls of `next` yield the lines of the file and then nothing; the lines are counted. -/
theorem afterNexts_file (hfile : FileOf fromSlice maxLineBytes values bytes)
    (h : Before r maxLineBytes bytes) (hcount : r.lineCount < usizeSize) (count : Nat) :
    ((r.afterNexts fromSlice count).next fromSlice).2 = (values[count]?).map Except.ok ∧
      (r.afterNexts fromSlice count).lineCount =
        saturatingAdd r.lineCount (min count values.length) := by
  induction values generalizing r bytes count with
  | nil =>
      have hbytes : bytes = [] := by
        cases hfile
        rfl
      subst hbytes
      obtain ⟨r', hnext, hlines, hfinished⟩ : ∃ r', r.next fromSlice = (r', none) ∧ r'.lineCount = r.lineCount ∧
          r'.finished = true := next_end h
      have hzero : r.lineCount = saturatingAdd r.lineCount 0 := by
        rw [saturatingAdd]
        omega
      rw [List.length_nil, Nat.min_zero, ← hzero]
      cases count with
      | zero => exact ⟨by rw [afterNexts, hnext]; rfl, rfl⟩
      | succ count =>
          rw [afterNexts, hnext, afterNexts_finished hfinished, next_finished hfinished]
          exact ⟨rfl, hlines⟩
  | cons value values ih =>
      obtain ⟨r', tail, hnext, hlines, hrest, hbefore⟩ := next_line hfile h
      cases count with
      | zero =>
          rw [afterNexts, hnext, Nat.zero_min]
          refine ⟨rfl, ?_⟩
          rw [saturatingAdd]
          omega
      | succ count =>
          have hsmall : r'.lineCount < usizeSize := by
            rw [hlines, saturatingAdd]
            omega
          obtain ⟨hitem, hcounted⟩ := ih hrest hbefore hsmall count
          rw [afterNexts, hnext]
          refine ⟨hitem, ?_⟩
          rw [hcounted, hlines, saturatingAdd_add_one, List.length_cons, Nat.add_min_add_right]

end Lines

section Files

variable {O R : Type} {json : Json O R} {fromSlice : Bytes → Except String (BatchLine O R)}
  {limit allowance : Nat} {line : BatchLine O R} {lines : List (BatchLine O R)} {encoded : Bytes}
  {encodings : List Bytes} {choices : List Bool}

/-- What is assumed of the encoding of a line. -/
structure Encoding (fromSlice : Bytes → Except String (BatchLine O R)) (line : BatchLine O R)
    (encoded : Bytes) : Prop where
  text : encoded ≠ []
  plain : lf ∉ encoded
  last : encoded.getLast? ≠ some cr
  decodes : fromSlice encoded = .ok line

/-- What is put in front of the next newline. -/
def carriage (choices : List Bool) : Bytes := if choices.head? = some true then [cr] else []

/-- The bytes with `cr lf` for the newlines whose choice is `true`. -/
def withCrlf : List Bool → Bytes → Bytes
  | _, [] => []
  | choices, b :: rest =>
      if b = lf then carriage choices ++ lf :: withCrlf choices.tail rest
      else b :: withCrlf choices rest

theorem withCrlf_record (hplain : lf ∉ encoded) (rest : Bytes) :
    withCrlf choices (BatchJsonlWriter.record encoded ++ rest) =
      (encoded ++ carriage choices) ++ lf :: withCrlf choices.tail rest := by
  induction encoded with
  | nil => simp [BatchJsonlWriter.record, withCrlf]
  | cons b encoded ih =>
      have hb : b ≠ lf := by
        rintro rfl
        exact hplain (.head _)
      have hrest : lf ∉ encoded := fun hmem => hplain (.tail _ hmem)
      have hcons : BatchJsonlWriter.record (b :: encoded) ++ rest =
          b :: (BatchJsonlWriter.record encoded ++ rest) := rfl
      rw [hcons, withCrlf, if_neg hb, ih hrest]
      rfl

theorem carriage_length (hchoices : true ∈ choices → 1 ≤ allowance) :
    (carriage choices).length ≤ allowance := by
  rw [carriage]
  split
  · rename_i hhead
    exact hchoices (List.mem_of_mem_head? hhead)
  · exact Nat.zero_le _

theorem popCr_carriage (hlast : encoded.getLast? ≠ some cr) : popCr (encoded ++ carriage choices) = encoded := by
  rw [carriage, popCr]
  split
  · simp
  · rw [List.append_nil, if_neg hlast]

/-- An encoded line and what stands in front of its newline are a row. -/
theorem Encoding.row (h : Encoding fromSlice line encoded) (hchoices : true ∈ choices → 1 ≤ allowance)
    (hfit : encoded.length + allowance ≤ limit) :
    Row fromSlice limit line (encoded ++ carriage choices) where
  plain := by
    rw [List.mem_append]
    rintro (hmem | hmem)
    · exact h.plain hmem
    · rw [carriage] at hmem
      split at hmem
      · exact absurd (List.mem_singleton.mp hmem) (by decide)
      · cases hmem
  fits := by
    have hlength : (carriage choices).length ≤ allowance := carriage_length hchoices
    rw [List.length_append]
    omega
  text := by
    rw [popCr_carriage h.last]
    exact h.text
  decodes := by
    rw [popCr_carriage h.last]
    exact h.decodes

/-- The records with `cr lf` for some newlines are a file. -/
theorem fileOf_records
    (h : List.Forall₂ (fun line encoded => Encoding fromSlice line encoded ∧
      encoded.length + allowance ≤ limit) lines encodings)
    (hchoices : true ∈ choices → 1 ≤ allowance) :
    FileOf fromSlice limit lines (withCrlf choices (encodings.flatMap BatchJsonlWriter.record)) := by
  induction h generalizing choices with
  | nil => exact .empty
  | cons hfirst hrest ih =>
      rw [List.flatMap_cons, withCrlf_record hfirst.1.plain]
      exact .line (hfirst.1.row hchoices hfirst.2) (ih fun hmem => hchoices (List.mem_of_mem_tail hmem))

/-- So are they without the last newline. -/
theorem fileOf_records_dropLast
    (h : List.Forall₂ (fun line encoded => Encoding fromSlice line encoded ∧
      encoded.length + allowance ≤ limit) lines encodings)
    (hchoices : true ∈ choices → 1 ≤ allowance) :
    FileOf fromSlice limit lines
      (withCrlf choices (encodings.flatMap BatchJsonlWriter.record)).dropLast := by
  induction h generalizing choices with
  | nil => exact .empty
  | @cons line encoded lines encodings hfirst hrest ih =>
      have hrow := hfirst.1.row hchoices hfirst.2
      have htail := ih fun hmem => hchoices (List.mem_of_mem_tail hmem)
      rw [List.flatMap_cons, withCrlf_record hfirst.1.plain]
      cases hrest with
      | nil =>
          rw [List.flatMap_nil, withCrlf, List.dropLast_concat]
          exact .last hrow
      | @cons next encodedNext _ others hnext _ =>
          have hmore : withCrlf choices.tail
              ((encodedNext :: others).flatMap BatchJsonlWriter.record) ≠ [] := by
            rw [List.flatMap_cons, withCrlf_record hnext.1.plain]
            simp
          rw [List.dropLast_append_of_ne_nil (List.cons_ne_nil _ _), List.dropLast_cons_of_ne_nil hmore]
          exact .line hrow htail

end Files

section RoundTrip

variable {O R : Type} {json : Json O R} {line : BatchLine O R} {lines : List (BatchLine O R)}
  {w : BatchJsonlWriter}

/-- The calls that write the lines, over an underlying writer that does not fail. -/
def writeCalls (lines : List (BatchLine O R)) : List (BatchJsonlWriter.Call O R) :=
  lines.map fun line => .writeLine line .accepted .accepted

theorem accepted_length (json : Json O R) (w : BatchJsonlWriter) (lines : List (BatchLine O R)) :
    (w.accepted json (writeCalls lines)).length ≤ lines.length := by
  induction lines generalizing w with
  | nil => exact Nat.le_refl _
  | cons line lines ih =>
      have hone : (w.accepts json (.writeLine line .accepted .accepted)).length ≤ 1 := by
        rw [BatchJsonlWriter.accepts]
        split
        · exact Nat.le_refl _
        · exact Nat.zero_le _
      have hrest := ih (w.call json (.writeLine line .accepted .accepted)).1
      rw [writeCalls, List.map_cons, BatchJsonlWriter.accepted, List.length_append, List.length_cons]
      rw [writeCalls] at hrest
      omega

/-- An accepted line is written as its record. -/
theorem writeLine_accepted
    (h : (w.writeLine json line .accepted .accepted).2 = .ok ()) :
    ∃ encoded, json.toVec line = .ok encoded ∧
      (w.writeLine json line .accepted .accepted).1.writer =
        w.writer ++ BatchJsonlWriter.record encoded := by
  rcases w.writeLine_cases json line .accepted .accepted with
    ⟨e, -, heq⟩ | ⟨encoded, hadmits, ⟨torn, e, -, -, heq⟩ | heq⟩
  · rw [heq] at h
    cases h
  · rw [heq] at h
    cases h
  · refine ⟨encoded, hadmits.encodes, ?_⟩
    rw [heq]
    exact List.append_assoc _ _ _

/-- Lines that are all accepted are written as their records, in order. -/
theorem written_of_accepted (h : w.accepted json (writeCalls lines) = lines) :
    ∃ encodings, List.Forall₂ (fun line encoded => json.toVec line = .ok encoded) lines encodings ∧
      (w.afterCalls json (writeCalls lines)).writer =
        w.writer ++ encodings.flatMap BatchJsonlWriter.record := by
  induction lines generalizing w with
  | nil => exact ⟨[], .nil, (List.append_nil _).symm⟩
  | cons line lines ih =>
      have hbound := accepted_length json (w.call json (.writeLine line .accepted .accepted)).1 lines
      rw [writeCalls, List.map_cons, BatchJsonlWriter.accepted, BatchJsonlWriter.accepts] at h
      split at h
      · rename_i hok
        injection h with _ hrest
        obtain ⟨encoded, hencoded, hwriter⟩ := writeLine_accepted hok
        obtain ⟨encodings, hencodings, hbytes⟩ := ih hrest
        refine ⟨encoded :: encodings, .cons hencoded hencodings, ?_⟩
        rw [List.flatMap_cons, ← List.append_assoc, ← hwriter]
        exact hbytes
      · rw [writeCalls] at hbound
        rw [List.nil_append] at h
        rw [h, List.length_cons] at hbound
        omega

/-- Over a file that one writer has written, in any fills, with `cr lf` for any newlines and with or
without the last newline: the reader yields the lines in order and then nothing, and it counts them. -/
theorem reading_undoes_writing (json : Json O R) (fromSlice : Bytes → Except String (BatchLine O R))
    (maxLines maxBytes maxLineBytes : Nat) (lines : List (BatchLine O R))
    (haccepted : ((BatchJsonlWriter.new.withLimits maxLines maxBytes maxLineBytes).accepted json
      (writeCalls lines)) = lines)
    (hencoding : ∀ line ∈ lines, ∀ encoded, json.toVec line = .ok encoded →
      Encoding fromSlice line encoded)
    (choices : List Bool) (limit : Nat)
    (hlimit : ∀ line ∈ lines, ∀ encoded, json.toVec line = .ok encoded →
      encoded.length + (if true ∈ choices then 1 else 0) ≤ limit)
    (written file : Bytes)
    (hwritten : written = ((BatchJsonlWriter.new.withLimits maxLines maxBytes maxLineBytes).afterCalls
      json (writeCalls lines)).writer)
    (hfile : file = withCrlf choices written ∨ file = (withCrlf choices written).dropLast)
    (reader : BufRead) (hreader : Supplies reader file) (count : Nat) :
    ((((new reader).withLineLimit limit).afterNexts fromSlice count).next fromSlice).2 =
        (lines[count]?).map Except.ok ∧
      (((new reader).withLineLimit limit).afterNexts fromSlice count).lineCount =
        min (min count lines.length) (usizeSize - 1) := by
  obtain ⟨encodings, hencodings, hbytes⟩ := written_of_accepted haccepted
  have hrecords : written = encodings.flatMap BatchJsonlWriter.record := by
    rw [hwritten, hbytes]
    rfl
  have hlines : List.Forall₂ (fun line encoded => Encoding fromSlice line encoded ∧
      encoded.length + (if true ∈ choices then 1 else 0) ≤ limit) lines encodings := by
    refine (List.forall₂_and_left _ _).mpr ⟨fun _ h => h, hencodings⟩ |>.imp ?_
    rintro line encoded ⟨hmem, hencoded⟩
    exact ⟨hencoding line hmem encoded hencoded, hlimit line hmem encoded hencoded⟩
  have hallowance : true ∈ choices → 1 ≤ if true ∈ choices then 1 else 0 := by
    intro hmem
    exact Nat.le_of_eq (if_pos hmem).symm
  have hcontents : FileOf fromSlice limit lines file := by
    obtain rfl | rfl := hfile
    · rw [hrecords]
      exact fileOf_records hlines hallowance
    · rw [hrecords]
      exact fileOf_records_dropLast hlines hallowance
  have hbefore : Before ((new reader).withLineLimit limit) limit file := ⟨hreader, rfl, rfl⟩
  obtain ⟨hitem, hcount⟩ := afterNexts_file hcontents hbefore (Nat.zero_lt_succ _) count
  refine ⟨hitem, ?_⟩
  rw [hcount]
  exact congrArg (min · (usizeSize - 1)) (Nat.zero_add _)

/-- Two request lines with an empty body. -/
def twoLines : List (BatchLine Unit Unit) := [⟨"a", .responses, (), ()⟩, ⟨"b", .responses, (), ()⟩]

/-- The encoding of a line with an empty body. -/
def emptyBodyText (line : BatchLine Unit Unit) : Bytes :=
  utf8 ("\x7b\"custom_id\":\"" ++ line.customId ++ "\",\"method\":\"POST\",\"url\":\"" ++
    line.url.asStr ++ "\",\"body\":\x7b\x7d\x7d")

/-- Parses the encodings of the two lines. -/
def parseTwoLines (bytes : Bytes) : Except String (BatchLine Unit Unit) :=
  match twoLines.find? fun line => decide (emptyBodyText line = bytes) with
  | some line => .ok line
  | none => .error "expected value"

/-- The first newline of the file is `cr lf`, the last one is missing, and a fill ends between the
`cr` and the `lf`. -/
def twoLinesFills : BufRead :=
  [.ok (emptyBodyText ⟨"a", .responses, (), ()⟩ ++ [cr]), .ok [lf],
    .ok (emptyBodyText ⟨"b", .responses, (), ()⟩)]

theorem reading_undoes_writing_crlf :
    ((((new twoLinesFills).withLineLimit 68).afterNexts parseTwoLines 1).next parseTwoLines).2 =
        some (.ok ⟨"b", .responses, (), ()⟩) ∧
      (((new twoLinesFills).withLineLimit 68).afterNexts parseTwoLines 1).lineCount = 1 := by
  have hencode : ∀ line ∈ twoLines, ∀ encoded, BatchJsonlWriter.emptyBody.toVec line = .ok encoded →
      encoded = emptyBodyText line := by
    intro line _ encoded hencoded
    injection hencoded with hencoded
    exact hencoded.symm
  have hencoding : ∀ line ∈ twoLines, emptyBodyText line ≠ [] ∧ lf ∉ emptyBodyText line ∧
      (emptyBodyText line).getLast? ≠ some cr ∧ parseTwoLines (emptyBodyText line) = .ok line ∧
      (emptyBodyText line).length + 1 ≤ 68 := by
    decide
  refine reading_undoes_writing BatchJsonlWriter.emptyBody parseTwoLines 10 1000 500 twoLines ?_ ?_
    [true, false] 68 ?_ _ (twoLinesFills.flatMap fun fill => fill.toOption.getD []) rfl ?_
    twoLinesFills ⟨?_, rfl⟩ 1
  · decide
  · intro line hmem encoded hencoded
    rw [hencode line hmem encoded hencoded]
    obtain ⟨htext, hplain, hlast, hdecodes, -⟩ := hencoding line hmem
    exact ⟨htext, hplain, hlast, hdecodes⟩
  · intro line hmem encoded hencoded
    rw [hencode line hmem encoded hencoded]
    exact (hencoding line hmem).2.2.2.2
  · right
    decide
  · intro fill hfill
    simp only [twoLinesFills, List.mem_cons, List.not_mem_nil, or_false] at hfill
    obtain rfl | rfl | rfl := hfill
    · exact ⟨_, rfl, by decide⟩
    · exact ⟨_, rfl, by decide⟩
    · exact ⟨_, rfl, by decide⟩

end RoundTrip

end BatchJsonlReader

end OpenaiRs.Batches
