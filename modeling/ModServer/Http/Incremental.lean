import ModServer.Http.Pieces
import ModServer.Http.Prefix

/-!
Appending data piece by piece with a `Parse` after every `Append`, compared
with one `Append` and one `Parse`.

Every state of the loop takes the end of the data for the end of the request,
so the first `Parse` saves `FINISHED`. Each later one skips the loop and
stores its empty local pieces over what the first one stored, or returns
before it stores anything when no byte lies behind `stoppedAt`.
-/

namespace ModServer.Http

open Library

/-- What the accessors of a request return. -/
structure Observed where
  method : RequestMethod
  resourcePath : Except ReadError Bytes
  httpVersion : HttpVersion
  headers : List (Except ReadError Bytes)
  parseRes : ParseRes
  deriving DecidableEq

def HttpRequest.observed (r : HttpRequest) : Observed where
  method := r.method
  resourcePath := r.resourcePath
  httpVersion := r.httpVer
  headers := r.headerStrings
  parseRes := r.parseRes

/-- `Append` and `Parse` for each piece. A piece comes with the storage that
the string occupies after its `Append`. -/
def feed (r : HttpRequest) : List (Bytes × Nat) → Option HttpRequest
  | [] => some r
  | (data, block) :: rest => (parse (r.append data block)).bind (fun result => feed result.2 rest)

/-- The bytes of all pieces. -/
def wholeData (pieces : List (Bytes × Nat)) : Bytes :=
  pieces.flatMap Prod.fst

def lastBlock (block : Nat) (pieces : List (Bytes × Nat)) : Nat :=
  pieces.foldl (fun _ piece => piece.2) block

/-- One `Append` of the whole data and one `Parse`. -/
def oneShot (data : Bytes) (block : Nat) : Option HttpRequest :=
  (parse (HttpRequest.new.append data block)).map Prod.snd

/-- Parsing the pieces one by one leaves what parsing their data at once
leaves. -/
def SameAsOneShot (pieces : List (Bytes × Nat)) (block : Nat) : Prop :=
  (feed .new pieces).map HttpRequest.observed =
    (oneShot (wholeData pieces) block).map HttpRequest.observed

instance (pieces : List (Bytes × Nat)) (block : Nat) : Decidable (SameAsOneShot pieces block) :=
  inferInstanceAs (Decidable (_ = _))

/-- The results that a `Parse` stores when its loop does not run. -/
def HttpRequest.wiped (r : HttpRequest) : HttpRequest :=
  { r with method := .invalidMethod, resPath := .null, httpVer := .invalidVersion }

theorem oneShot_eq {data : Bytes} (block : Nat) (h : data ≠ []) :
    oneShot data block = some ((readHead data).stored block data) := by
  rw [oneShot, parse_readHead block h, Option.map_some]

theorem parse_out_of_bounds {r : HttpRequest} (h : r.data.length ≤ r.parseRes.stoppedAt) :
    parse r = some (⟨.error, r.parseRes.stoppedAt⟩, r) := by
  rw [parse, if_pos h]

/-- A `Parse` after `FINISHED` was saved, with bytes behind the saved offset:
it only forgets the request line. -/
theorem parse_again {r : HttpRequest} (hfinished : r.parseRes.status = .finished)
    (h : r.parseRes.stoppedAt < r.data.length) : parse r = some (r.parseRes, r.wiped) := by
  have hloop : parseLoop (parseFuel r) (loopEntry r) = some (loopEntry r) :=
    parseLoop_ended _ _ hfinished
  rw [parse, if_neg (Nat.not_le.mpr h), hloop]
  simp [storeResults, loopEntry, HttpRequest.wiped, methodFromStringPiece_null,
    httpVerFromStringPiece_null]

theorem parse_finished {r : HttpRequest} (h : r.parseRes.status = .finished) :
    (parse r).map Prod.snd =
      some (if r.data.length ≤ r.parseRes.stoppedAt then r else r.wiped) := by
  rcases Nat.lt_or_ge r.parseRes.stoppedAt r.data.length with hpast | hend
  · rw [parse_again h hpast, if_neg (Nat.not_le.mpr hpast), Option.map_some]
  · rw [parse_out_of_bounds hend, if_pos hend, Option.map_some]

theorem feed_cons (r : HttpRequest) (data : Bytes) (block : Nat) (rest : List (Bytes × Nat)) :
    feed r ((data, block) :: rest) =
      ((parse (r.append data block)).map Prod.snd).bind (fun next => feed next rest) := by
  rw [feed, Option.bind_map]
  rfl

/-- Pieces without a byte change nothing but the storage, when no byte lies
behind the place where the first `Parse` stopped. -/
theorem feed_empty {r : HttpRequest} {rest : List (Bytes × Nat)}
    (hfinished : r.parseRes.status = .finished) (hend : r.data.length ≤ r.parseRes.stoppedAt)
    (hempty : wholeData rest = []) :
    feed r rest = some { r with request := ⟨lastBlock r.request.block rest, r.data⟩ } := by
  induction rest generalizing r with
  | nil => rfl
  | cons piece rest ih =>
      obtain ⟨data, block⟩ := piece
      simp only [wholeData, List.flatMap_cons, List.append_eq_nil_iff] at hempty
      obtain ⟨hdata, hrest⟩ := hempty
      subst hdata
      have hlen : (r.append [] block).data.length ≤ (r.append [] block).parseRes.stoppedAt := by
        simpa using hend
      rw [feed_cons, parse_finished (r := r.append [] block) hfinished, if_pos hlen,
        Option.bind_some, ih (r := r.append [] block) hfinished hlen hrest]
      simp [HttpRequest.append, HttpRequest.data, lastBlock]

/-- Once some byte lies behind `stoppedAt`, the results are wiped. -/
theorem feed_wiped {r : HttpRequest} {rest : List (Bytes × Nat)}
    (hfinished : r.parseRes.status = .finished) (hrest : rest ≠ [])
    (hmore : r.parseRes.stoppedAt < (r.data ++ wholeData rest).length) :
    feed r rest =
      some { r with
        request := ⟨lastBlock r.request.block rest, r.data ++ wholeData rest⟩ }.wiped := by
  induction rest generalizing r with
  | nil => exact absurd rfl hrest
  | cons piece rest ih =>
      obtain ⟨data, block⟩ := piece
      have hwhole : r.data ++ wholeData ((data, block) :: rest) =
          (r.data ++ data) ++ wholeData rest := by
        simp [wholeData]
      have hlast : lastBlock r.request.block ((data, block) :: rest) = lastBlock block rest := rfl
      rw [hwhole] at hmore
      rw [feed_cons, parse_finished (r := r.append data block) hfinished, Option.bind_some, hwhole,
        hlast, HttpRequest.append_data, HttpRequest.append_parseRes]
      rcases Nat.lt_or_ge r.parseRes.stoppedAt (r.data ++ data).length with hpast | hend
      · rw [if_neg (Nat.not_le.mpr hpast)]
        rcases eq_or_ne rest [] with rfl | hne
        · simp [feed, HttpRequest.append, HttpRequest.wiped, lastBlock, wholeData,
            HttpRequest.data]
        · rw [ih (r := (r.append data block).wiped) hfinished hne hmore]
          rfl
      · have hne : rest ≠ [] := by
          rintro rfl
          simp [wholeData] at hmore hend
          omega
        rw [if_pos hend, ih (r := r.append data block) hfinished hne hmore]
        rfl

/-- No part that a piece could show has a positive length as an `int`. -/
def Head.NoText (head : Head) : Prop :=
  (∀ path, head.path = some path → intOfSize path.length ≤ 0) ∧
  ∀ line ∈ head.lines, intOfSize (counted line) ≤ 0

/-- The request line holds nothing that `Parse` would report. -/
def Head.Junk (head : Head) : Prop :=
  ¬ head.IsGet ∧ (∀ path, head.path = some path → intOfSize path.length = 0) ∧
  ¬ head.IsVersion (ascii "HTTP/1.1") ∧ ¬ head.IsVersion (ascii "HTTP/1.0")

/-- A piece read while its string occupies other storage. -/
theorem toString_moved {block offset count : Nat} {part : Bytes} {buf : StringBuf}
    (hmoved : block ≠ buf.block) :
    StringPiece.toString buf ⟨some ⟨block, offset⟩, intOfSize count⟩ = partString count part ↔
      intOfSize count ≤ 0 := by
  unfold StringPiece.toString partString
  rcases lt_trichotomy (intOfSize count) 0 with hneg | hzero | hpos
  · simp [hneg.ne, hneg, hneg.le]
  · simp [hzero]
  · simp [hpos.ne', hpos.not_gt, hpos.not_ge, hmoved]

theorem headerStrings_moved {block : Nat} (offset : Nat) {lines : List Bytes} {buf : StringBuf}
    (hmoved : block ≠ buf.block) :
    (linePieces block offset lines).map (·.toString buf) =
        lines.map (fun line => partString (counted line) line) ↔
      ∀ line ∈ lines, intOfSize (counted line) ≤ 0 := by
  induction lines generalizing offset with
  | nil => simp [linePieces]
  | cons line lines ih =>
      simp only [linePieces, pieceOf, List.map_cons, List.cons.injEq, toString_moved hmoved,
        ih, List.forall_mem_cons]

/-- The path piece reads as in a fresh parse unless its storage moved away
from under some text. -/
theorem path_read_iff (block last : Nat) (data : Bytes) :
    (pieceOf block (readHead data).pathStart List.length (readHead data).path).toString
        ⟨last, data⟩ = ((readHead data).stored block data).resourcePath ↔
      last = block ∨ ∀ path, (readHead data).path = some path → intOfSize path.length ≤ 0 := by
  rcases eq_or_ne last block with hlast | hlast
  · simp [hlast, HttpRequest.resourcePath, Head.stored]
  · rw [stored_resourcePath]
    cases (readHead data).path with
    | none => simp [pieceOf, StringPiece.null, StringPiece.toString]
    | some path =>
        have hmoved := @toString_moved block (readHead data).pathStart path.length path
          ⟨last, data⟩ (Ne.symm hlast)
        simpa [hlast, pieceOf] using hmoved

theorem headers_read_iff (block last : Nat) (data : Bytes) :
    (linePieces block (readHead data).linesStart (readHead data).lines).map
        (·.toString ⟨last, data⟩) = ((readHead data).stored block data).headerStrings ↔
      last = block ∨ ∀ line ∈ (readHead data).lines, intOfSize (counted line) ≤ 0 := by
  rcases eq_or_ne last block with hlast | hlast
  · simp [hlast, HttpRequest.headerStrings, Head.stored]
  · have hmoved := @headerStrings_moved block (readHead data).linesStart (readHead data).lines
      ⟨last, data⟩ (Ne.symm hlast)
    rw [stored_headerStrings]
    simpa [hlast] using hmoved

/-- Which storage the data occupied does not show after one `Parse`. -/
theorem observed_stored (block other : Nat) (data : Bytes) :
    ((readHead data).stored block data).observed =
      ((readHead data).stored other data).observed := by
  obtain ⟨hmethod, hversion, hpath, hheaders⟩ := @stored_congr data data block other rfl
  unfold HttpRequest.observed
  rw [hmethod, hversion, hpath, hheaders]
  rfl

/-- When the pieces parse like their data: there is one piece; or reading the
data stops within the first piece, no byte follows that stop or the request
line is junk, and the storage stayed where it was or holds no text. -/
def Resumable (first : Bytes) (block : Nat) (rest : List (Bytes × Nat)) : Prop :=
  rest = [] ∨
  ((readHead (first ++ wholeData rest)).stop ≤ first.length ∧
    ((readHead (first ++ wholeData rest)).stop = (first ++ wholeData rest).length ∨
      (readHead (first ++ wholeData rest)).Junk) ∧
    (lastBlock block rest = block ∨ (readHead (first ++ wholeData rest)).NoText))

/-- The first `Parse` stored its results, and the later ones found no byte. -/
theorem observed_moved_iff (block last : Nat) (data : Bytes) :
    { (readHead data).stored block data with request := ⟨last, data⟩ }.observed =
        ((readHead data).stored block data).observed ↔
      last = block ∨ (readHead data).NoText := by
  have hpath := path_read_iff block last data
  have hheaders := headers_read_iff block last data
  simp only [HttpRequest.observed, HttpRequest.resourcePath, HttpRequest.headerStrings,
    Head.stored, Observed.mk.injEq, and_true, true_and, Head.NoText] at hpath hheaders ⊢
  rw [hpath, hheaders, or_and_left]

theorem stored_noMethod (block : Nat) (data : Bytes) :
    .invalidMethod = ((readHead data).stored block data).method ↔ ¬ (readHead data).IsGet := by
  rw [← stored_method_get block data]
  cases ((readHead data).stored block data).method <;> simp

theorem stored_noPath (block : Nat) (data : Bytes) :
    .ok [] = ((readHead data).stored block data).resourcePath ↔
      ∀ path, (readHead data).path = some path → intOfSize path.length = 0 := by
  rw [stored_resourcePath block data]
  cases (readHead data).path with
  | none => simp
  | some path =>
      have hempty := partString_eq_nil (le_refl path.length)
      simp only [Option.some.injEq, forall_eq']
      rw [← hempty, eq_comm]

theorem stored_noVersion (block : Nat) (data : Bytes) :
    .invalidVersion = ((readHead data).stored block data).httpVer ↔
      ¬ (readHead data).IsVersion (ascii "HTTP/1.1") ∧
        ¬ (readHead data).IsVersion (ascii "HTTP/1.0") := by
  rw [← stored_invalidVersion block data, eq_comm]

/-- The later `Parse` calls wiped what the first one had stored. -/
theorem observed_wiped_iff (block last : Nat) (first data : Bytes) :
    { (readHead first).stored block first with request := ⟨last, data⟩ }.wiped.observed =
        ((readHead data).stored block data).observed ↔
      (readHead data).Junk ∧
        (linePieces block (readHead first).linesStart (readHead first).lines).map
          (·.toString ⟨last, data⟩) = ((readHead data).stored block data).headerStrings ∧
        (readHead first).stop = (readHead data).stop := by
  have hmethod := stored_noMethod block data
  have hpath := stored_noPath block data
  have hversion := stored_noVersion block data
  have hwiped : { (readHead first).stored block first with
        request := ⟨last, data⟩ }.wiped.observed =
      { method := .invalidMethod
        resourcePath := .ok []
        httpVersion := .invalidVersion
        headers := (linePieces block (readHead first).linesStart (readHead first).lines).map
          (·.toString ⟨last, data⟩)
        parseRes := ⟨.finished, (readHead first).stop⟩ } := rfl
  have hres : ((readHead data).stored block data).parseRes =
      ⟨.finished, (readHead data).stop⟩ := rfl
  rw [hwiped]
  generalize (linePieces block (readHead first).linesStart (readHead first).lines).map
    (·.toString ⟨last, data⟩) = headers
  generalize (readHead first).stop = stop
  unfold HttpRequest.observed
  rw [hres]
  simp only [Observed.mk.injEq, ParseRes.mk.injEq, true_and]
  rw [hmethod, hpath, hversion, Head.Junk]
  simp only [and_assoc]

/-- Some byte lies behind the place where the first `Parse` stopped. -/
theorem wiped_resumable (block last : Nat) (first more : Bytes)
    (hmore : (readHead first).stop < (first ++ more).length) :
    { (readHead first).stored block first with request := ⟨last, first ++ more⟩ }.wiped.observed =
        ((readHead (first ++ more)).stored block (first ++ more)).observed ↔
      (readHead (first ++ more)).stop ≤ first.length ∧
        ((readHead (first ++ more)).stop = (first ++ more).length ∨
          (readHead (first ++ more)).Junk) ∧
        (last = block ∨ (readHead (first ++ more)).NoText) := by
  rw [observed_wiped_iff]
  constructor
  · rintro ⟨hjunk, hheaders, hstop⟩
    have hle : (readHead (first ++ more)).stop ≤ first.length :=
      hstop ▸ readHead_stop_le first
    have hsame : readHead (first ++ more) = readHead first := readHead_append hle
    rw [← hsame, headers_read_iff] at hheaders
    refine ⟨hle, Or.inr hjunk, hheaders.imp_right fun hlines => ⟨?_, hlines⟩⟩
    intro path hpath
    exact (hjunk.2.1 path hpath).le
  · rintro ⟨hle, hend, hread⟩
    have hsame : readHead (first ++ more) = readHead first := readHead_append hle
    rw [← hsame] at hmore ⊢
    refine ⟨hend.resolve_left hmore.ne, ?_, rfl⟩
    rw [headers_read_iff]
    exact hread.imp_right And.right

theorem sameAsOneShot_iff (first : Bytes) (block : Nat) (rest : List (Bytes × Nat))
    (whole : Nat) (h : first ≠ []) :
    SameAsOneShot ((first, block) :: rest) whole ↔ Resumable first block rest := by
  have hwhole : wholeData ((first, block) :: rest) = first ++ wholeData rest := rfl
  have hne : first ++ wholeData rest ≠ [] := List.append_ne_nil_of_left_ne_nil h _
  have hfeed : feed .new ((first, block) :: rest) =
      feed ((readHead first).stored block first) rest := by
    have hfirst := oneShot_eq block h
    unfold oneShot at hfirst
    rw [feed_cons, hfirst, Option.bind_some]
  have hfinished : ((readHead first).stored block first).parseRes.status = .finished := rfl
  have hstop : (readHead first).stop ≤ first.length := readHead_stop_le first
  unfold SameAsOneShot Resumable
  rw [hfeed, hwhole, oneShot_eq whole hne, Option.map_some, observed_stored whole block]
  rcases rest with _ | ⟨second, rest⟩
  · simp [feed, wholeData]
  rcases Nat.lt_or_ge (readHead first).stop (first ++ wholeData (second :: rest)).length with
    hmore | hend
  · rw [feed_wiped hfinished (List.cons_ne_nil second rest) hmore, Option.map_some,
      Option.some_inj]
    have hiff := wiped_resumable block (lastBlock block (second :: rest)) first
      (wholeData (second :: rest)) hmore
    simpa only [reduceCtorEq, false_or, Head.stored_request, Head.stored_data] using hiff
  · have hempty : wholeData (second :: rest) = [] := by
      rw [List.length_append] at hend
      exact List.length_eq_zero_iff.mp (by omega)
    rw [hempty, List.append_nil] at hend ⊢
    rw [feed_empty hfinished hend hempty, Option.map_some, Option.some_inj]
    have hiff := observed_moved_iff block (lastBlock block (second :: rest)) first
    have hlast : (readHead first).stop = first.length := le_antisymm hstop hend
    simpa only [reduceCtorEq, false_or, hlast, le_refl, true_and, true_or, Head.stored_request,
      Head.stored_data] using hiff

/-- The blank line comes in a later piece than the header. -/
theorem not_sameAsOneShot_split :
    ¬ SameAsOneShot [(ascii "GET / HTTP/1.1\r\nA: b", 0), (ascii "\r\n\r\n", 0)] 0 := by
  decide +kernel

theorem sameAsOneShot_single :
    ascii "GET / HTTP/1.1\r\nA: b\r\n\r\n" ≠ [] ∧
      (SameAsOneShot [(ascii "GET / HTTP/1.1\r\nA: b\r\n\r\n", 0)] 1 ↔
        Resumable (ascii "GET / HTTP/1.1\r\nA: b\r\n\r\n") 0 []) :=
  ⟨by decide, sameAsOneShot_iff _ 0 [] 1 (by decide)⟩

end ModServer.Http
