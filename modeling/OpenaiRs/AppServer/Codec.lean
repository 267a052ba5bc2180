import OpenaiRs.AppServer.Protocol
import OpenaiRs.Batches.RoundTrip

/-!
# JSONL frames of the child's stdout

`read_bounded_line` of `openai-rs-codex/src/app_server/codec.rs` and the loop of
`spawn_stdout_reader` around it. The frames that the calls return are a function of the bytes of
the stream; how the buffered reader splits them does not matter.
-/

namespace OpenaiRs.AppServer

open Rust Batches
open BatchJsonlReader (popCr Supplies supplies_nil findIdx_none findIdx_lf fill_cases)

section Reader

def ioFailureOf (error : String) : ConnectionFailure := ⟨.io, "could not read app-server stdout: " ++ error⟩

def endOfFile : ConnectionFailure := ⟨.endOfFile, "app-server stdout ended in the middle of a JSONL frame"⟩

def lineTooLong (limit : Nat) : ConnectionFailure :=
  ⟨.lineTooLong, "app-server JSONL frame exceeded the " ++ toString limit ++ "-byte limit"⟩

/-- An empty fill ends the stream; part of a frame can be in the line. -/
def atEnd (line : Bytes) : Except ConnectionFailure (Option Bytes) :=
  if line.isEmpty then .ok none else .error endOfFile

/-- The loop of `read_bounded_line` with the bytes that it has, and the source behind the call. -/
def readBoundedLine (limit : Nat) (line : Bytes) :
    BufRead → Except ConnectionFailure (Option Bytes) × BufRead
  | [] => (atEnd line, [])
  | .error error :: rest => (.error (ioFailureOf error), rest)
  | .ok available :: rest =>
      if available.isEmpty then (atEnd line, rest)
      else
        let newline := available.findIdx? (fun byte => byte = lf)
        let consumed := (newline.map (· + 1)).getD available.length
        let payloadLen := newline.getD available.length
        if limit < saturatingAdd line.length payloadLen then
          (.error (lineTooLong limit), .ok available :: rest)
        else
          let line := line ++ available.take payloadLen
          match newline with
          | some _ => (.ok (some (popCr line)), consume available consumed rest)
          -- Without a newline the whole fill is consumed.
          | none => readBoundedLine limit line rest

/-- The bytes of the source that are not read yet, and its fills. -/
def unread : BufRead → Nat
  | [] => 0
  | .error _ :: rest => unread rest + 1
  | .ok available :: rest => unread rest + available.length + 1

theorem unread_consume (available : Bytes) (count : Nat) (rest : BufRead) (hcount : 0 < count) :
    unread (consume available count rest) < unread (.ok available :: rest) := by
  rw [consume, unread]
  split
  · omega
  · rw [unread, List.length_drop]
    omega

/-- A call that returns a frame has consumed a part of the source. -/
theorem unread_readBoundedLine {limit : Nat} {line frame : Bytes} {reader rest : BufRead}
    (h : readBoundedLine limit line reader = (.ok (some frame), rest)) : unread rest < unread reader := by
  induction reader generalizing line with
  | nil =>
      simp only [readBoundedLine, atEnd] at h
      split at h <;> simp at h
  | cons fill behind ih =>
      cases fill with
      | error error => simp [readBoundedLine] at h
      | ok available =>
          rw [readBoundedLine] at h
          split at h
          · simp only [atEnd] at h
            split at h <;> simp at h
          · simp only at h
            split at h
            · simp at h
            · cases hnewline : available.findIdx? (fun byte => byte = lf) with
              | none =>
                  simp only [hnewline] at h
                  have hless := ih h
                  rw [unread]
                  omega
              | some index =>
                  simp only [hnewline, Option.map_some, Option.getD_some, Prod.mk.injEq] at h
                  rw [← h.2]
                  exact unread_consume available _ behind (Nat.succ_pos index)

/-- The frames of the calls until one returns no frame, and the failure that ends them, if any. -/
def readLines (limit : Nat) (reader : BufRead) : List Bytes × Option ConnectionFailure :=
  match _h : readBoundedLine limit [] reader with
  | (.error failure, _) => ([], some failure)
  | (.ok none, _) => ([], none)
  | (.ok (some line), rest) =>
      let behind := readLines limit rest
      (line :: behind.1, behind.2)
termination_by unread reader
decreasing_by exact unread_readBoundedLine _h

variable {σ : Type} (handleInbound : σ → Bytes → σ × Option ConnectionFailure)

/-- The loop of `spawn_stdout_reader`: empty frames are skipped, and the loop ends with the failure of
a frame or of the stream, if any. -/
def stdoutReader (limit : Nat) (inner : σ) (reader : BufRead) : σ × Option ConnectionFailure :=
  match _h : readBoundedLine limit [] reader with
  | (.error failure, _) => (inner, some failure)
  | (.ok none, _) => (inner, none)
  | (.ok (some line), rest) =>
      if line.isEmpty then stdoutReader limit inner rest
      else
        match handleInbound inner line with
        | (inner, some failure) => (inner, some failure)
        | (inner, none) => stdoutReader limit inner rest
termination_by unread reader
decreasing_by
  · exact unread_readBoundedLine _h
  · exact unread_readBoundedLine _h

/-- The handler over frames in order; `ended` is the failure behind them. -/
def handleFrames (ended : Option ConnectionFailure) (inner : σ) :
    List Bytes → σ × Option ConnectionFailure
  | [] => (inner, ended)
  | frame :: rest =>
      match handleInbound inner frame with
      | (inner, some failure) => (inner, some failure)
      | (inner, none) => handleFrames ended inner rest

end Reader

section Frames

variable {limit : Nat}

/-- A segment is not longer than the limit. Its length is a `usize`. -/
def Fits (limit : Nat) (segment : Bytes) : Prop := min segment.length (usizeSize - 1) ≤ limit

instance instDecidableFits (limit : Nat) (segment : Bytes) : Decidable (Fits limit segment) :=
  inferInstanceAs (Decidable (_ ≤ _))

theorem fits_iff {segment : Bytes} (h : segment.length < usizeSize) :
    Fits limit segment ↔ segment.length ≤ limit := by
  rw [Fits]
  omega

/-- The segments of the stream that a line feed ends, up to one that is too long. -/
def frames (limit : Nat) (bytes : Bytes) : List Bytes :=
  (((bytes.splitOn lf).dropLast).takeWhile (fun segment => Fits limit segment)).map popCr

/-- The failure that ends the frames of a stream. -/
def ending (limit : Nat) (bytes : Bytes) : Option ConnectionFailure :=
  if ∀ segment ∈ bytes.splitOn lf, Fits limit segment then
    if bytes = [] ∨ bytes.getLast? = some lf then none else some endOfFile
  else some (lineTooLong limit)

theorem frames_segment {row : Bytes} (hrow : lf ∉ row) (tail : Bytes) :
    frames limit (row ++ lf :: tail) = if Fits limit row then popCr row :: frames limit tail else [] := by
  rw [frames, List.splitOn_append_cons_self_of_not_mem hrow,
    List.dropLast_cons_of_ne_nil (List.splitOn_ne_nil lf tail)]
  by_cases hfits : Fits limit row
  · rw [List.takeWhile_cons, if_pos (decide_eq_true hfits), if_pos hfits]
    rfl
  · rw [List.takeWhile_cons, if_neg (by simpa using hfits), if_neg hfits]
    rfl

theorem frames_tail {row : Bytes} (hrow : lf ∉ row) : frames limit row = [] := by
  rw [frames, List.splitOn_eq_singleton hrow]
  rfl

theorem ending_segment {row : Bytes} (hrow : lf ∉ row) (tail : Bytes) :
    ending limit (row ++ lf :: tail) =
      if Fits limit row then ending limit tail else some (lineTooLong limit) := by
  have hlast : (row ++ lf :: tail = [] ∨ (row ++ lf :: tail).getLast? = some lf) ↔
      (tail = [] ∨ tail.getLast? = some lf) := by
    cases tail with
    | nil => simp
    | cons b tail => simp [List.getLast?_cons_cons]
  rw [ending, ending, List.splitOn_append_cons_self_of_not_mem hrow]
  simp only [List.forall_mem_cons, hlast]
  by_cases hfits : Fits limit row
  · simp only [hfits, true_and, if_true]
  · simp only [hfits, false_and, if_false]

theorem ending_tail {row : Bytes} (hrow : lf ∉ row) :
    ending limit row =
      if Fits limit row then (if row = [] then none else some endOfFile)
      else some (lineTooLong limit) := by
  have hlast : row.getLast? ≠ some lf := fun hmem => hrow (List.mem_of_getLast? hmem)
  rw [ending, List.splitOn_eq_singleton hrow]
  simp only [List.mem_singleton, forall_eq, hlast, or_false]

end Frames

section Calls

variable {limit : Nat} {line row tail : Bytes} {reader : BufRead}

/-- The length check measures the line with the bytes that would be appended. -/
theorem exceeds_iff (line payload : Bytes) :
    limit < saturatingAdd line.length payload.length ↔ ¬ Fits limit (line ++ payload) := by
  rw [Fits, List.length_append, saturatingAdd, Nat.not_le]

theorem fits_left {payload : Bytes} (h : Fits limit (line ++ payload)) : Fits limit line := by
  rw [Fits, List.length_append] at h
  rw [Fits]
  omega

/-- A fill without newline becomes a part of the line. -/
theorem readBoundedLine_fill {piece : Bytes} (hpiece : piece ≠ []) (hplain : lf ∉ piece)
    (rest : BufRead) :
    readBoundedLine limit line (.ok piece :: rest) =
      if Fits limit (line ++ piece) then readBoundedLine limit (line ++ piece) rest
      else (.error (lineTooLong limit), .ok piece :: rest) := by
  rw [readBoundedLine, findIdx_none hplain, List.isEmpty_eq_false_iff.mpr hpiece,
    if_neg Bool.false_ne_true]
  simp only [Option.getD_none, List.take_length, exceeds_iff, ite_not]

/-- A fill with a newline ends the call. -/
theorem readBoundedLine_newline (hrow : lf ∉ row) (more : Bytes) (rest : BufRead) :
    readBoundedLine limit line (.ok (row ++ lf :: more) :: rest) =
      if Fits limit (line ++ row) then
        (.ok (some (popCr (line ++ row))), consume (row ++ lf :: more) (row.length + 1) rest)
      else (.error (lineTooLong limit), .ok (row ++ lf :: more) :: rest) := by
  have hfull : (row ++ lf :: more).isEmpty = false := by simp
  rw [readBoundedLine, findIdx_lf hrow, hfull, if_neg Bool.false_ne_true]
  simp only [Option.map_some, Option.getD_some, List.take_left, exceeds_iff, ite_not]

/-- A call in front of a segment that a newline ends. -/
theorem readBoundedLine_segment (hfits : Fits limit line) (hrow : lf ∉ row)
    (hreader : Supplies reader (row ++ lf :: tail)) :
    if Fits limit (line ++ row) then
      ∃ rest, readBoundedLine limit line reader = (.ok (some (popCr (line ++ row))), rest) ∧
        Supplies rest tail
    else (readBoundedLine limit line reader).1 = .error (lineTooLong limit) := by
  induction reader generalizing line row with
  | nil =>
      have hnil := supplies_nil hreader
      simp at hnil
  | cons fill rest ih =>
      obtain ⟨piece, behind, rfl, hpiece, hsplit, hrest⟩ := hreader.cons_cases
      obtain ⟨more, rfl, rfl⟩ | ⟨left, rfl, rfl⟩ := fill_cases hsplit
      · rw [readBoundedLine_newline hrow]
        have hconsume : Supplies (Batches.consume (row ++ lf :: more) (row.length + 1) rest)
            ((row ++ lf :: more).drop (row.length + 1) ++ _) := hrest.consume (row.length + 1)
        have hdrop : (row ++ lf :: more).drop (row.length + 1) = more := by
          rw [← List.drop_drop, List.drop_left]
          rfl
        rw [hdrop] at hconsume
        split
        · exact ⟨_, rfl, hconsume⟩
        · rfl
      · have hplain : lf ∉ piece := fun hmem => hrow (List.mem_append_left _ hmem)
        have hleft : lf ∉ left := fun hmem => hrow (List.mem_append_right _ hmem)
        rw [readBoundedLine_fill hpiece hplain, ← List.append_assoc]
        by_cases hpart : Fits limit (line ++ piece)
        · simp only [hpart, if_true]
          exact ih hpart hleft hrest
        · rw [if_neg hpart, if_neg (fun hall => hpart (fits_left hall))]

/-- A call in front of the last bytes of the stream, without a newline. -/
theorem readBoundedLine_tail (hfits : Fits limit line) (hrow : lf ∉ row)
    (hreader : Supplies reader row) :
    (readBoundedLine limit line reader).1 =
      if Fits limit (line ++ row) then atEnd (line ++ row) else .error (lineTooLong limit) := by
  induction reader generalizing line row with
  | nil =>
      rw [supplies_nil hreader, List.append_nil, if_pos hfits, readBoundedLine]
  | cons fill rest ih =>
      obtain ⟨piece, behind, rfl, hpiece, rfl, hrest⟩ := hreader.cons_cases
      have hplain : lf ∉ piece := fun hmem => hrow (List.mem_append_left _ hmem)
      have hbehind : lf ∉ behind := fun hmem => hrow (List.mem_append_right _ hmem)
      rw [readBoundedLine_fill hpiece hplain, ← List.append_assoc]
      by_cases hpart : Fits limit (line ++ piece)
      · rw [if_pos hpart]
        exact ih hpart hbehind hrest
      · rw [if_neg hpart, if_neg (fun hall => hpart (fits_left hall))]

end Calls

section Main

variable {limit : Nat}

theorem fits_nil (limit : Nat) : Fits limit [] := by
  rw [Fits, List.length_nil, Nat.zero_min]
  exact Nat.zero_le limit

theorem readLines_of_error {reader : BufRead} {failure : ConnectionFailure}
    (h : (readBoundedLine limit [] reader).1 = .error failure) :
    readLines limit reader = ([], some failure) := by
  rw [readLines]
  split <;> simp_all

theorem readLines_of_none {reader : BufRead} (h : (readBoundedLine limit [] reader).1 = .ok none) :
    readLines limit reader = ([], none) := by
  rw [readLines]
  split <;> simp_all

theorem readLines_of_line {reader rest : BufRead} {line : Bytes}
    (h : readBoundedLine limit [] reader = (.ok (some line), rest)) :
    readLines limit reader = (line :: (readLines limit rest).1, (readLines limit rest).2) := by
  rw [readLines]
  split <;> simp_all

/-- The frames of all calls are those of the bytes, for every split of the stream into fills. -/
theorem readLines_eq {reader : BufRead} {bytes : Bytes} (h : Supplies reader bytes) :
    readLines limit reader = (frames limit bytes, ending limit bytes) := by
  induction hlength : bytes.length using Nat.strongRecOn generalizing reader bytes with
  | _ length ih =>
      by_cases hmem : lf ∈ bytes
      · obtain ⟨row, tail, rfl, hrow⟩ := List.eq_append_cons_of_mem hmem
        have hcall := readBoundedLine_segment (fits_nil limit) hrow h
        rw [List.nil_append] at hcall
        rw [frames_segment hrow, ending_segment hrow]
        split at hcall
        · rename_i hfits
          obtain ⟨rest, hline, hrest⟩ := hcall
          have hshort : tail.length < length := by
            rw [← hlength, List.length_append, List.length_cons]
            omega
          rw [readLines_of_line hline, ih tail.length hshort hrest rfl, if_pos hfits, if_pos hfits]
        · rename_i hlong
          rw [readLines_of_error hcall, if_neg hlong, if_neg hlong]
      · have hcall := readBoundedLine_tail (fits_nil limit) hmem h
        rw [List.nil_append] at hcall
        rw [frames_tail hmem, ending_tail hmem]
        by_cases hfits : Fits limit bytes
        · rw [if_pos hfits] at hcall ⊢
          cases bytes with
          | nil => exact readLines_of_none hcall
          | cons b bytes => exact readLines_of_error hcall
        · rw [if_neg hfits] at hcall ⊢
          exact readLines_of_error hcall

/-- `read_bounded_line` is independent of buffering: the calls until one returns no frame give the
segments of the stream, and they end as its bytes say. -/
theorem stdoutFrames_of_fills (limit : Nat) (reader : BufRead) (bytes : Bytes)
    (h : Supplies reader bytes) :
    readLines limit reader = (frames limit bytes, ending limit bytes) :=
  readLines_eq h

/-- A pair of `cr` and `lf` between two fills, and a segment that is too long behind an empty one. -/
theorem stdoutFrames_of_fills_split :
    readLines 3 [.ok [97, 98, cr], .ok [lf, cr], .ok [lf, 97, 98], .ok [99, 100, lf]] =
      ([[97, 98], []], some (lineTooLong 3)) := by
  have h : Supplies [.ok [97, 98, cr], .ok [lf, cr], .ok [lf, 97, 98], .ok [99, 100, lf]]
      [97, 98, cr, lf, cr, lf, 97, 98, 99, 100, lf] := ⟨by simp, rfl⟩
  rw [stdoutFrames_of_fills 3 _ _ h]
  decide

/-- The handler gets the frames that are not empty, whatever the fills are. -/
theorem stdoutReader_eq {σ : Type} (handleInbound : σ → Bytes → σ × Option ConnectionFailure)
    (inner : σ) {reader : BufRead} {bytes : Bytes} (h : Supplies reader bytes) :
    stdoutReader handleInbound limit inner reader =
      handleFrames handleInbound (ending limit bytes) inner
        ((frames limit bytes).filter fun frame => !frame.isEmpty) := by
  have hloop : ∀ (inner : σ) (reader : BufRead), stdoutReader handleInbound limit inner reader =
      handleFrames handleInbound (readLines limit reader).2 inner
        ((readLines limit reader).1.filter fun frame => !frame.isEmpty) := by
    intro inner reader
    fun_induction stdoutReader handleInbound limit inner reader with
    | case1 inner reader failure rest hcall =>
        rw [readLines_of_error (congrArg Prod.fst hcall)]
        rfl
    | case2 inner reader rest hcall =>
        rw [readLines_of_none (congrArg Prod.fst hcall)]
        rfl
    | case3 inner reader line rest hcall hempty ih =>
        rw [readLines_of_line hcall, List.filter_cons_of_neg (by simp [hempty]), ih]
    | case4 inner reader line rest hcall hempty inner' failure hhandle =>
        rw [readLines_of_line hcall, List.filter_cons_of_pos (by simp [hempty]), handleFrames, hhandle]
    | case5 inner reader line rest hcall hempty inner' hhandle ih =>
        rw [readLines_of_line hcall, List.filter_cons_of_pos (by simp [hempty]), handleFrames, hhandle]
        exact ih
  rw [hloop, readLines_eq h]

end Main

end OpenaiRs.AppServer
