import Linktools.Core.Value
import Linktools.Library.Checked
import Linktools.Library.Utf8

/-! A bounded read of a text file. The file does not change between its calls, and the time
limit does not pass. -/

namespace Linktools.Workspace

open Linktools.Core Library Library.Utf8 List

def blockBytes : Nat := 64 * 1024
def maxPreviewBytes : Nat := 50000
def maxScanBytes : Nat := 8 * 1024 * 1024
def maxMetadataBytes : Nat := 256 * 1024 * 1024

def lineEndings : List Char :=
  ['\n', '\r', '\x0b', '\x0c', '\x1c', '\x1d', '\x1e', '\u0085', '\u2028', '\u2029']

def fieldInvalid (reason : String) : Raised :=
  .ai .requestFieldInvalid [("reason", .str reason)]

/-- A stream that is read up to a maximum; `tell` is where it stands. -/
structure ReadBudget where
  content : List UInt8
  maximum : Nat
  tell : Nat := 0
  bytesRead : Nat := 0

namespace ReadBudget

def read (reader : ReadBudget) (size : Nat) : Except Raised (List UInt8 × ReadBudget) :=
  if reader.maximum ≤ reader.bytesRead then
    if reader.tell = reader.content.length then .ok ([], reader)
    else .error (fieldInvalid "scan_byte_limit")
  else
    let value := (reader.content.drop reader.tell).take
      (min size (reader.maximum - reader.bytesRead))
    .ok (value, { reader with
      tell := reader.tell + value.length, bytesRead := reader.bytesRead + value.length })

def seek (reader : ReadBudget) (offset : Nat) : ReadBudget :=
  { reader with tell := offset }

theorem read_tell {reader after : ReadBudget} (done : reader.read size = .ok (chunk, after)) :
    after.content = reader.content ∧ after.tell = reader.tell + chunk.length ∧
      after.bytesRead = reader.bytesRead + chunk.length ∧ after.maximum = reader.maximum ∧
      chunk <+: reader.content.drop reader.tell := by
  unfold read at done
  split at done
  case isTrue =>
    split at done
    case isTrue =>
      cases done
      exact ⟨rfl, rfl, rfl, rfl, nil_prefix⟩
    case isFalse => cases done
  case isFalse =>
    cases done
    exact ⟨rfl, rfl, rfl, rfl, take_prefix _ _⟩

end ReadBudget

def readSample (reader : ReadBudget) (start finish : Nat) :
    Except Raised (List UInt8 × ReadBudget) :=
  if start < finish then (reader.seek start).read (finish - start)
  else pure ([], reader.seek start)

def validateCursorPosition (reader : ReadBudget) (position size : Nat) :
    Except Raised ReadBudget := do
  refuse (size < position) (fieldInvalid "invalid_cursor_position")
  let start := position - 3
  let finish := min size (position + 3)
  let (sample, reader) ← readSample reader start finish
  refuse (sample.length ≠ finish - start) (fieldInvalid "scan_byte_limit")
  let boundary := position - start
  refuse (boundary ∉ boundaries (escaped sample) ∨
      0 < boundary ∧ boundary < sample.length ∧ (sample.drop (boundary - 1)).take 2 = [0x0D, 0x0A])
    (fieldInvalid "invalid_cursor_boundary")
  pure (reader.seek position)

structure Shown where
  text : List Char
  size : Nat
  lossy : Bool

namespace Shown

def crlf : Shown := ⟨['\r', '\n'], 2, false⟩

def cr : Shown := ⟨['\r'], 1, false⟩

def single : Escaped → Shown
  | .char c => if c = '\x00' then ⟨['\uFFFD'], c.utf8Size, true⟩ else ⟨[c], c.utf8Size, false⟩
  | .byte _ => ⟨['\uFFFD'], 1, true⟩

def renderedBytes (shown : Shown) : Nat :=
  (shown.text.map Char.utf8Size).sum

def endsLine (shown : Shown) : Bool :=
  shown.text == ['\r', '\n'] || lineEndings.any fun ending => shown.text == [ending]

end Shown

/-- What decoded characters yield after a CR that is held back or after none, and whether one
is held back after them. -/
def characters : Bool → List Escaped → List Shown × Bool
  | pendingCr, [] => ([], pendingCr)
  | pendingCr, char :: rest =>
    if pendingCr ∧ char = .char '\n' then
      (Shown.crlf :: (characters false rest).1, (characters false rest).2)
    else
      let held := if pendingCr then [Shown.cr] else []
      if char = .char '\r' then
        (held ++ (characters true rest).1, (characters true rest).2)
      else (held ++ .single char :: (characters false rest).1, (characters false rest).2)

structure PageBounds where
  size : Nat
  selectedOffset : Nat
  selectedLimit : Nat
  maximum : Nat

structure TextScan where
  position : Nat
  line : Nat
  column : Nat
  reachedRange : Bool
  startPosition : Nat
  startColumn : Nat
  pieces : List Char := []
  outputBytes : Nat := 0
  lossy : Bool := false
  truncated : Bool := false

namespace TextScan

def reach (scan : TextScan) : TextScan :=
  if scan.reachedRange then scan
  else { scan with
    reachedRange := true, startPosition := scan.position, startColumn := scan.column }

def take (scan : TextScan) (shown : Shown) : TextScan :=
  { scan with
    pieces := scan.pieces ++ shown.text
    outputBytes := scan.outputBytes + shown.renderedBytes
    lossy := scan.lossy || shown.lossy }

def advance (scan : TextScan) (shown : Shown) : TextScan :=
  if shown.endsLine then
    { scan with position := scan.position + shown.size, line := scan.line + 1, column := 0 }
  else { scan with position := scan.position + shown.size, column := scan.column + 1 }

def stopOrGo (bounds : PageBounds) (scan : TextScan) : TextScan × Bool :=
  if scan.position = bounds.size ∨
      bounds.selectedOffset + bounds.selectedLimit ≤ scan.line then (scan, true)
  else if scan.outputBytes = bounds.maximum then ({ scan with truncated := true }, true)
  else (scan, false)

def step (bounds : PageBounds) (scan : TextScan) (shown : Shown) : TextScan × Bool :=
  if bounds.selectedOffset + bounds.selectedLimit ≤ scan.line then (scan, true)
  else if bounds.selectedOffset ≤ scan.line then
    if bounds.maximum < scan.outputBytes + shown.renderedBytes then
      ({ scan.reach with truncated := true }, true)
    else ((scan.reach.take shown).advance shown).stopOrGo bounds
  else (scan.advance shown).stopOrGo bounds

def steps (bounds : PageBounds) : TextScan → List Shown → TextScan × Bool
  | scan, [] => (scan, false)
  | scan, shown :: rest =>
    if (scan.step bounds shown).2 then ((scan.step bounds shown).1, true)
    else steps bounds (scan.step bounds shown).1 rest

end TextScan

structure ScanOutcome where
  scan : TextScan
  reader : ReadBudget
  raised : Option Raised := none

/-- The loop over the characters of a stream, which are decoded block by block as the loop
reaches them. -/
def scanCharacters (bounds : PageBounds) (maxScan : Nat) (buffer : List UInt8)
    (pendingCr : Bool) (consumed : Nat) (scan : TextScan) (reader : ReadBudget) : ScanOutcome :=
  if maxScan ≤ consumed then ⟨scan, reader, some (fieldInvalid "scan_byte_limit")⟩
  else match _read : reader.read (min blockBytes (maxScan - consumed)) with
    | .error raised => ⟨scan, reader, some raised⟩
    | .ok (chunk, after) =>
      let (decoded, kept) := pieces (chunk = []) (buffer ++ chunk)
      let (yielded, held) := characters pendingCr (decoded.flatMap Piece.escape)
      let (scanned, stopped) := scan.steps bounds yielded
      if stopped then ⟨scanned, after, none⟩
      else if chunk = [] then
        if held then ⟨(scanned.steps bounds [Shown.cr]).1, after, none⟩
        else ⟨scanned, after, none⟩
      else scanCharacters bounds maxScan kept held (consumed + chunk.length) scanned after
termination_by reader.content.length - reader.tell
decreasing_by
  obtain ⟨content, tell, -, -, read⟩ := ReadBudget.read_tell _read
  have present := length_pos_iff.mpr ‹¬chunk = []›
  have within := read.length_le
  rw [length_drop] at within
  rw [content, tell]
  omega

def replaced : Piece → Char
  | .char c => c
  | .damaged _ => '\uFFFD'

def endingEnds (position : Nat) : List Char → List Nat
  | [] => []
  | ['\r'] => [position + 1]
  | '\r' :: '\n' :: rest => (position + 2) :: endingEnds (position + 2) rest
  | char :: rest =>
    if char ∈ lineEndings then (position + 1) :: endingEnds (position + 1) rest
    else endingEnds (position + 1) rest

structure LineCount where
  lines : Nat := 0
  pending : Bool := false
  previousCr : Bool := false

def LineCount.add (count : LineCount) (text : List Char) : LineCount :=
  if text = [] then count
  else
    let text := if count.previousCr ∧ text.head? = some '\n' then text.tail else text
    if text = [] then { count with previousCr := false }
    else
      let ends := endingEnds 0 text
      { lines := count.lines + ends.length
        pending := ends.getLast? != some text.length
        previousCr := text.getLast? == some '\r' }

def LineCount.total (count : LineCount) : Nat :=
  count.lines + if count.pending then 1 else 0

structure Metadata where
  hash : String
  totalLines : Nat

section

variable (hexdigest : List UInt8 → String)

def metadataBlocks (buffer : List UInt8) (count : LineCount) (hashed : List UInt8)
    (reader : ReadBudget) : Except Raised (Metadata × ReadBudget) :=
  match _read : reader.read blockBytes with
  | .error raised => .error raised
  | .ok (chunk, after) =>
    if maxMetadataBytes < hashed.length + chunk.length then
      .error (fieldInvalid "metadata_byte_limit")
    else
      let (decoded, kept) := pieces (chunk = []) (buffer ++ chunk)
      let counted := count.add (decoded.map replaced)
      if chunk = [] then .ok (⟨hexdigest hashed, counted.total⟩, after)
      else metadataBlocks kept counted (hashed ++ chunk) after
termination_by reader.content.length - reader.tell
decreasing_by
  obtain ⟨content, tell, -, -, read⟩ := ReadBudget.read_tell _read
  have present := length_pos_iff.mpr ‹¬chunk = []›
  have within := read.length_le
  rw [length_drop] at within
  rw [content, tell]
  omega

def metadata (reader : ReadBudget) (size : Nat) : Except Raised (Metadata × ReadBudget) := do
  refuse (maxMetadataBytes < size) (fieldInvalid "metadata_byte_limit")
  metadataBlocks hexdigest [] {} [] (reader.seek 0)

def metadataFor (fullMetadata : Bool) (reader : ReadBudget) (size : Nat) :
    Except Raised (Option Metadata × ReadBudget) :=
  if fullMetadata then do
    let (metadata, reader) ← metadata hexdigest reader size
    pure (some metadata, reader)
  else pure (none, reader)

structure TextFile where
  path : String
  content : List UInt8
  state : String

structure TextCursor where
  path : String
  state : String
  byte : Nat
  line : Nat
  column : Nat

structure ReadRequest where
  offset : Option Nat := none
  limit : Option Nat := none
  cursor : Option TextCursor := none
  fullMetadata : Bool := false
  maxBytes : Option Nat := none
  maxReadBytes : Option Nat := none

structure TextRange where
  path : String
  content : List Char
  size : Nat
  state : String
  offset : Nat
  endOffset : Nat
  byteOffset : Nat
  endByteOffset : Nat
  lineOffset : Nat
  endLineOffset : Nat
  lossy : Bool
  truncated : Bool
  eof : Bool
  nextCursor : Option TextCursor
  metadata : Option Metadata
  bytesRead : Nat

/-- Where a page begins: at the start of the file, or where a cursor of this file stands. -/
def startScan (file : TextFile) (reader : ReadBudget) (offset : Option Nat) :
    Option TextCursor → Except Raised (TextScan × ReadBudget × Nat)
  | none => pure (⟨0, 0, 0, decide (offset.getD 0 ≤ 0), 0, 0, [], 0, false, false⟩, reader,
      offset.getD 0)
  | some saved => do
    refuse (saved.path ≠ file.path) (fieldInvalid "cursor_path_mismatch")
    refuse (saved.state ≠ file.state) (.ai .storageConflict [("reason", .str "stale_cursor")])
    refuse (saved.byte < saved.line + saved.column) (fieldInvalid "invalid_cursor_position")
    let reader ← validateCursorPosition reader saved.byte file.content.length
    pure (⟨saved.byte, saved.line, saved.column, true, saved.byte, saved.column, [], 0, false,
      false⟩, reader, saved.line)

/-- A scan that its byte limit ended keeps what it has, once the range is reached. -/
def afterScan (outcome : ScanOutcome) : Except Raised TextScan :=
  match outcome.raised with
  | none => pure outcome.scan
  | some raised => do
    refuse (outcome.scan.reachedRange = false) raised
    pure { outcome.scan with truncated := true }

def textRange (file : TextFile) (request : ReadRequest) (selectedOffset : Nat) (scan : TextScan)
    (reader : ReadBudget) : Except Raised TextRange := do
  let requestedLimit := request.limit.getD 200
  let selectedLimit := min requestedLimit 2000
  let size := file.content.length
  refuse (scan.reachedRange = false ∧ size ≠ 0) (fieldInvalid "offset_out_of_range")
  let eof : Bool := size ≤ scan.position
  let truncated := if eof then false
    else if selectedLimit < requestedLimit ∧ selectedOffset + selectedLimit ≤ scan.line then true
    else scan.truncated
  refuse (truncated = true ∧ scan.position = scan.startPosition) (fieldInvalid "scan_byte_limit")
  let (metadata, reader) ← metadataFor hexdigest request.fullMetadata reader size
  pure
    { path := file.path, content := scan.pieces, size, state := file.state
      offset := selectedOffset, endOffset := scan.line
      byteOffset := scan.startPosition, endByteOffset := scan.position
      lineOffset := scan.startColumn, endLineOffset := scan.column
      lossy := scan.lossy, truncated, eof
      nextCursor := if eof then none
        else some ⟨file.path, file.state, scan.position, scan.line, scan.column⟩
      metadata, bytesRead := reader.bytesRead }

def readTextRange (file : TextFile) (request : ReadRequest) : Except Raised TextRange := do
  refuse (∃ limit ∈ request.limit, limit < 1) (.ai .requestFieldInvalid)
  refuse (request.cursor.isSome ∧ request.offset.isSome) (.ai .requestFieldInvalid)
  refuse (∃ bytes ∈ request.maxBytes, bytes < 4) (.ai .requestFieldInvalid)
  refuse (∃ bytes ∈ request.maxReadBytes, bytes < 4) (.ai .requestFieldInvalid)
  let scanCeiling := maxScanBytes + if request.fullMetadata then maxMetadataBytes else 0
  let reader : ReadBudget :=
    { content := file.content, maximum := min (request.maxReadBytes.getD scanCeiling) scanCeiling }
  let (start, reader, selectedOffset) ← startScan file reader request.offset request.cursor
  let bounds : PageBounds :=
    { size := file.content.length, selectedOffset
      selectedLimit := min (request.limit.getD 200) 2000
      maximum := min (request.maxBytes.getD maxPreviewBytes) maxPreviewBytes }
  let outcome := scanCharacters bounds maxScanBytes [] false 0 start reader
  let scan ← afterScan outcome
  textRange hexdigest file request selectedOffset scan outcome.reader

end

end Linktools.Workspace
