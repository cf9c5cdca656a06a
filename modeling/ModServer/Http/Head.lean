import ModServer.Http.Scan
import ModServer.Library.Cut

/-!
What `Parse` reads in a request, stated on the bytes without its loop: the
text before the first NUL byte, cut at two spaces and at the ends of lines.
`parse_readHead` connects the two for a request that holds the data of one
`Append`.

The reading follows the code, not the HTTP standard. The method and the path
end at a space only, the line after the request line is a header line even
when it is blank, and CR bytes of a line are left out of its length wherever
they stand.
-/

namespace ModServer.Http

open Library

/-- The length `Parse` gives to a line: every byte but CR counts. -/
def counted (line : Bytes) : Nat :=
  line.countP (· ≠ cr)

def isBlank (line : Bytes) : Bool :=
  line.all (· = cr)

/-- The bytes of some lines, their LFs included. -/
def linesLength (lines : List Bytes) : Nat :=
  (lines.map (fun line => line.length + 1)).sum

/-- The lines before the first blank one. -/
def linesToBlank (lines : List Bytes) : List Bytes :=
  lines.takeWhile (fun line => !isBlank line)

/-- Where reading stops after a header line: on the LF of the first blank line,
or at the end. -/
def newlineStop (rest : Bytes) : Nat :=
  match (terminated lf rest).find? isBlank with
  | none => rest.length
  | some blank => linesLength (linesToBlank (terminated lf rest)) + blank.length

/-- The header lines in what follows the request line. The first one counts
whatever it holds. -/
def headerLines (rest : Bytes) : List Bytes :=
  match cutAt [lf] rest with
  | none => []
  | some (first, others) => first :: linesToBlank (terminated lf others)

def headerStop (rest : Bytes) : Nat :=
  match cutAt [lf] rest with
  | none => rest.length
  | some (first, others) => first.length + 1 + newlineStop others

/-- The parts of a request that its data contains up to their delimiters, and
the offset at which reading them stops. -/
structure Head where
  method : Option Bytes := none
  path : Option Bytes := none
  version : Option Bytes := none
  lines : List Bytes := []
  stop : Nat
  deriving DecidableEq, Repr

def readHead (data : Bytes) : Head :=
  let text := data.takeWhile (· ≠ nul)
  match cutAt [space] text with
  | none => { stop := text.length }
  | some (method, afterMethod) =>
      match cutAt [space] afterMethod with
      | none => { method := some method, stop := text.length }
      | some (path, afterPath) =>
          match cutAt [lf] afterPath with
          | none => { method := some method, path := some path, stop := text.length }
          | some (version, rest) =>
              { method := some method
                path := some path
                version := some version
                lines := headerLines rest
                stop := method.length + 1 + (path.length + 1) + (version.length + 1) +
                  headerStop rest }

/-- The four places where the text before the first NUL can run out, with what
has been read there. -/
inductive HeadShape (text : Bytes) : Head → Prop
  | inMethod : space ∉ text → HeadShape text { stop := text.length }
  | inPath (method rest : Bytes) :
      text = method ++ space :: rest → space ∉ method → space ∉ rest →
      HeadShape text { method := some method, stop := text.length }
  | inVersion (method path rest : Bytes) :
      text = method ++ space :: (path ++ space :: rest) →
      space ∉ method → space ∉ path → lf ∉ rest →
      HeadShape text { method := some method, path := some path, stop := text.length }
  | inLines (method path version rest : Bytes) :
      text = method ++ space :: (path ++ space :: (version ++ lf :: rest)) →
      space ∉ method → space ∉ path → lf ∉ version →
      HeadShape text
        { method := some method
          path := some path
          version := some version
          lines := headerLines rest
          stop := method.length + 1 + (path.length + 1) + (version.length + 1) +
            headerStop rest }

theorem readHead_shape (data : Bytes) :
    HeadShape (data.takeWhile (· ≠ nul)) (readHead data) := by
  unfold readHead
  generalize data.takeWhile (· ≠ nul) = text
  by_cases hmethod : space ∈ text
  · obtain ⟨method, afterMethod, rfl, hm⟩ := List.eq_append_cons_of_mem hmethod
    simp only [cutAt_singleton afterMethod hm]
    by_cases hpath : space ∈ afterMethod
    · obtain ⟨path, afterPath, rfl, hp⟩ := List.eq_append_cons_of_mem hpath
      simp only [cutAt_singleton afterPath hp]
      by_cases hversion : lf ∈ afterPath
      · obtain ⟨version, rest, rfl, hv⟩ := List.eq_append_cons_of_mem hversion
        simp only [cutAt_singleton rest hv]
        exact .inLines method path version rest rfl hm hp hv
      · simp only [cutAt_eq_none hversion]
        exact .inVersion method path afterPath rfl hm hp hversion
    · simp only [cutAt_eq_none hpath]
      exact .inPath method afterMethod rfl hm hpath
  · simp only [cutAt_eq_none hmethod]
    exact .inMethod hmethod

theorem nul_not_mem_text (data : Bytes) : nul ∉ data.takeWhile (· ≠ nul) := by
  intro hmem
  simpa using List.mem_takeWhile_imp hmem

theorem text_append {front : Bytes} (more : Bytes) (h : nul ∉ front) :
    (front ++ more).takeWhile (· ≠ nul) = front ++ more.takeWhile (· ≠ nul) :=
  List.takeWhile_append_of_pos (fun c hc => by simpa using ne_of_mem_of_not_mem hc h)

theorem text_nul {front : Bytes} (more : Bytes) (h : nul ∉ front) :
    (front ++ nul :: more).takeWhile (· ≠ nul) = front := by
  rw [text_append _ h]
  simp

theorem text_eq_self {data : Bytes} (h : nul ∉ data) : data.takeWhile (· ≠ nul) = data := by
  simpa using text_append [] h

theorem exists_text_append (data : Bytes) : ∃ tail, data.takeWhile (· ≠ nul) ++ tail = data :=
  List.takeWhile_prefix _

/-- The head of data that starts with a request line and its LF. -/
theorem readHead_lines {data method path version rest : Bytes}
    (htext : data.takeWhile (· ≠ nul) =
      method ++ space :: (path ++ space :: (version ++ lf :: rest)))
    (hm : space ∉ method) (hp : space ∉ path) (hv : lf ∉ version) :
    readHead data =
      { method := some method
        path := some path
        version := some version
        lines := headerLines rest
        stop := method.length + 1 + (path.length + 1) + (version.length + 1) +
          headerStop rest } := by
  unfold readHead
  simp only [htext, cutAt_singleton _ hm, cutAt_singleton _ hp, cutAt_singleton rest hv]

namespace Head

def pathStart (head : Head) : Nat :=
  (head.method.getD []).length + 1

def versionStart (head : Head) : Nat :=
  head.pathStart + (head.path.getD []).length + 1

def linesStart (head : Head) : Nat :=
  head.versionStart + (head.version.getD []).length + 1

end Head

/-- The piece that `Parse` stores for `part` at `offset`, of which it counted
`length` bytes. -/
def pieceOf (block offset : Nat) (length : Bytes → Nat) : Option Bytes → StringPiece
  | none => .null
  | some part => ⟨some ⟨block, offset⟩, intOfSize (length part)⟩

def linePieces (block : Nat) : Nat → List Bytes → List StringPiece
  | _, [] => []
  | offset, line :: lines =>
      pieceOf block offset counted (some line) ::
        linePieces block (offset + line.length + 1) lines

/-- The loop state after `length` bytes of which `count` belong to the piece. -/
def LoopState.advance (st : LoopState) (count length : Nat) : LoopState :=
  { st with pieceLen := st.pieceLen + count, currentPos := st.currentPos + length }

@[simp] theorem LoopState.advance_status (st : LoopState) (count length : Nat) :
    (st.advance count length).status = st.status := rfl

theorem LoopState.advance_advance (st : LoopState) (k l m n : Nat) :
    (st.advance k l).advance m n = st.advance (k + m) (l + n) := by
  simp [LoopState.advance, Nat.add_assoc]

theorem scan_cons_running {c : UInt8} {st next : LoopState} (rest : Bytes)
    (hchar : onChar c st = next) (hrunning : next.status ≠ .finished) :
    scan st (c :: rest) = scan next rest := by
  rw [scan, hchar, if_neg hrunning]

theorem scan_plain (st : LoopState) {part : Bytes} (rest : Bytes)
    (h : st.status = .method ∨ st.status = .url)
    (hplain : ∀ c ∈ part, c ≠ nul ∧ c ≠ space) :
    scan st (part ++ rest) = scan (st.advance part.length part.length) rest := by
  induction part generalizing st with
  | nil => rfl
  | cons c part ih =>
      obtain ⟨hnul, hspace⟩ := hplain c List.mem_cons_self
      have hchar : onChar c st = st.advance 1 1 := by
        rcases h with h | h <;>
          simp [onChar, parseIteration, h, hnul, hspace, LoopState.extend, LoopState.advance]
      have hrunning : (st.advance 1 1).status ≠ .finished := by
        rcases h with h | h <;> simp [h]
      rw [List.cons_append, scan_cons_running _ hchar hrunning,
        ih (st.advance 1 1) h (fun d hd => hplain d (List.mem_cons_of_mem c hd)),
        LoopState.advance_advance, List.length_cons, Nat.add_comm 1]

theorem counted_cons (c : UInt8) (line : Bytes) :
    counted (c :: line) = (if c = cr then 0 else 1) + counted line := by
  rcases eq_or_ne c cr with hcr | hcr
  · simp [counted, hcr]
  · simp [counted, hcr, Nat.add_comm]

/-- Inside a line CR moves the position and nothing else. -/
theorem scan_line (st : LoopState) {line : Bytes} (rest : Bytes)
    (h : st.status = .http ∨ st.status = .header)
    (hplain : ∀ c ∈ line, c ≠ nul ∧ c ≠ lf) :
    scan st (line ++ rest) = scan (st.advance (counted line) line.length) rest := by
  induction line generalizing st with
  | nil => rfl
  | cons c line ih =>
      obtain ⟨hnul, hlf⟩ := hplain c List.mem_cons_self
      have hchar : onChar c st = st.advance (if c = cr then 0 else 1) 1 := by
        rcases eq_or_ne c cr with hcr | hcr
        · rcases h with h | h <;>
            simp [onChar, parseIteration, h, hcr, LoopState.skip, LoopState.advance]
        · rcases h with h | h <;>
            simp [onChar, parseIteration, h, hnul, hlf, hcr, LoopState.extend,
              LoopState.advance]
      have hrunning : (st.advance (if c = cr then 0 else 1) 1).status ≠ .finished := by
        rcases h with h | h <;> simp [h]
      rw [List.cons_append, scan_cons_running _ hchar hrunning,
        ih (st.advance _ 1) h (fun d hd => hplain d (List.mem_cons_of_mem c hd)),
        LoopState.advance_advance, counted_cons, List.length_cons, Nat.add_comm 1]

/-- The data ends inside a part. -/
theorem scan_end (st : LoopState) (h : st.status.Active) (hstart : st.status ≠ .start) :
    storeResults (scan st []) = storeResults { st with status := .finished } := by
  obtain ⟨hfinished, hmore, herror⟩ := h
  cases hst : st.status <;> simp_all [scan, onChar, parseIteration, storeResults]

/-- After a header line the CRs before the next line are skipped in
`HEADER_NEWLINE`, which leaves the piece start behind. -/
theorem scan_newline_blank (st : LoopState) {line : Bytes} (rest : Bytes)
    (h : st.status = .headerNewline) (hblank : isBlank line = true) :
    scan st (line ++ rest) = scan (st.advance 0 line.length) rest := by
  induction line generalizing st with
  | nil => rfl
  | cons c line ih =>
      simp only [isBlank, List.all_cons, Bool.and_eq_true, decide_eq_true_eq] at hblank
      have hchar : onChar c st = st.advance 0 1 := by
        simp [onChar, parseIteration, h, hblank.1, LoopState.skip, LoopState.advance]
      have hrunning : (st.advance 0 1).status ≠ .finished := by
        simp [h]
      rw [List.cons_append, scan_cons_running _ hchar hrunning, ih (st.advance 0 1) h hblank.2,
        LoopState.advance_advance, List.length_cons, Nat.add_comm 1]

/-- The first byte of another header line sends `HEADER_NEWLINE` back to
`HEADER` without being consumed. -/
theorem scan_newline_header (st : LoopState) {c : UInt8} (rest : Bytes)
    (h : st.status = .headerNewline) (hcr : c ≠ cr) (hlf : c ≠ lf) :
    scan st (c :: rest) = scan { st with status := .header } (c :: rest) := by
  have hchar : onChar c st = onChar c { st with status := .header } := by
    simp [onChar, parseIteration, h, hcr, hlf]
  simp only [scan, hchar]

theorem counted_of_isBlank {line : Bytes} (h : isBlank line = true) : counted line = 0 := by
  simp only [isBlank, List.all_eq_true, decide_eq_true_eq] at h
  simpa [counted, List.countP_eq_zero] using h

theorem counted_append (line more : Bytes) :
    counted (line ++ more) = counted line + counted more :=
  List.countP_append

theorem split_of_not_blank {line : Bytes} (h : isBlank line = false) :
    ∃ crs c more, isBlank crs = true ∧ c ≠ cr ∧ line = crs ++ c :: more := by
  induction line with
  | nil => cases h
  | cons c line ih =>
      rcases eq_or_ne c cr with hcr | hcr
      · subst hcr
        have hline : isBlank line = false := by simpa [isBlank] using h
        obtain ⟨crs, d, more, hcrs, hd, rfl⟩ := ih hline
        exact ⟨cr :: crs, d, more, by simpa [isBlank] using hcrs, hd, rfl⟩
      · exact ⟨[], c, line, rfl, hcr, rfl⟩

/-- A header line that is not blank, read from `HEADER_NEWLINE`. -/
theorem scan_newline_line (st : LoopState) {line : Bytes} (rest : Bytes)
    (h : st.status = .headerNewline) (hblank : isBlank line = false)
    (hplain : ∀ c ∈ line, c ≠ nul ∧ c ≠ lf) :
    scan st (line ++ rest) =
      scan { st.advance (counted line) line.length with status := .header } rest := by
  obtain ⟨crs, c, more, hcrs, hc, rfl⟩ := split_of_not_blank hblank
  have hclf : c ≠ lf := (hplain c (by simp)).2
  have hmore : ∀ d ∈ c :: more, d ≠ nul ∧ d ≠ lf :=
    fun d hd => hplain d (List.mem_append_right crs hd)
  rw [List.append_assoc, scan_newline_blank st _ h hcrs, List.cons_append,
    scan_newline_header (st.advance 0 crs.length) _ h hc hclf, ← List.cons_append,
    scan_line { st.advance 0 crs.length with status := .header } rest (Or.inr rfl) hmore,
    counted_append, counted_of_isBlank hcrs]
  simp [LoopState.advance, Nat.add_assoc]

theorem plain_of_not_mem {part : Bytes} {a b : UInt8} (ha : a ∉ part) (hb : b ∉ part) :
    ∀ c ∈ part, c ≠ a ∧ c ≠ b :=
  fun _ hc => ⟨ne_of_mem_of_not_mem hc ha, ne_of_mem_of_not_mem hc hb⟩

theorem not_mem_split {before after : Bytes} {a c : UInt8} (h : a ∉ before ++ c :: after) :
    a ∉ before ∧ a ∉ after := by
  simp only [List.mem_append, List.mem_cons, not_or] at h
  exact ⟨h.1, h.2.2⟩

theorem not_mem_blank {blank : Bytes} {c : UInt8} (h : isBlank blank = true) (hc : c ≠ cr) :
    c ∉ blank := by
  rw [isBlank, List.all_eq_true] at h
  exact fun hmem => hc (by simpa using h c hmem)

theorem newlineStop_last {rest : Bytes} (h : lf ∉ rest) : newlineStop rest = rest.length := by
  simp [newlineStop, terminated_eq_nil h]

theorem newlineStop_blank {line : Bytes} (rest : Bytes) (h : lf ∉ line)
    (hblank : isBlank line = true) : newlineStop (line ++ lf :: rest) = line.length := by
  simp [newlineStop, terminated_append rest h, hblank, linesToBlank, linesLength]

theorem newlineStop_line {line : Bytes} (rest : Bytes) (h : lf ∉ line)
    (hblank : isBlank line = false) :
    newlineStop (line ++ lf :: rest) = line.length + 1 + newlineStop rest := by
  simp only [newlineStop, terminated_append rest h, List.find?_cons, hblank, linesToBlank,
    List.takeWhile_cons, Bool.not_false, if_true]
  cases (terminated lf rest).find? isBlank with
  | none =>
      simp
      omega
  | some blank =>
      simp [linesLength]
      omega

theorem linesToBlank_blank {line : Bytes} (lines : List Bytes) (h : isBlank line = true) :
    linesToBlank (line :: lines) = [] := by
  simp [linesToBlank, h]

theorem linesToBlank_line {line : Bytes} (lines : List Bytes) (h : isBlank line = false) :
    linesToBlank (line :: lines) = line :: linesToBlank lines := by
  simp [linesToBlank, h]

/-- The LF of a header line. -/
theorem scan_header_lf (st : LoopState) (rest : Bytes) (h : st.status = .header) :
    scan st (lf :: rest) =
      scan ({ st with request := st.request.addHeader st.piece }.nextPiece .headerNewline)
        rest := by
  apply scan_cons_running
  · simp [onChar, parseIteration, h]
  · simp [LoopState.nextPiece]

/-- The header lines after the first one, from `HEADER_NEWLINE` on. The
induction is over the lines that LF terminates. -/
theorem scan_headerNewline (rest : Bytes) :
    ∀ st : LoopState, st.status = .headerNewline → st.pieceLen = 0 →
      st.start = ⟨st.request.request.block, st.currentPos⟩ → nul ∉ rest →
      storeResults (scan st rest) =
        storeResults { st with
          request := { st.request with
            headers := st.request.headers ++
              linePieces st.request.request.block st.currentPos
                (linesToBlank (terminated lf rest)) }
          status := .finished
          currentPos := st.currentPos + newlineStop rest } := by
  induction rest using pieces_induction lf with
  | last rest hlf =>
      intro st h _ _ hnul
      have hplain := plain_of_not_mem hnul hlf
      have hend : storeResults (scan st rest) =
          storeResults { st.advance 0 rest.length with status := .finished } := by
        cases hblank : isBlank rest with
        | true =>
            rw [← List.append_nil rest, scan_newline_blank st [] h hblank, scan_end]
            · simp
            · simp [ParseStatus.Active, h]
            · simp [h]
        | false =>
            rw [← List.append_nil rest, scan_newline_line st [] h hblank hplain, scan_end]
            · simp [storeResults, LoopState.advance]
            · simp [ParseStatus.Active]
            · simp
      rw [hend, newlineStop_last hlf, terminated_eq_nil hlf]
      simp [storeResults, LoopState.advance, linesToBlank, linePieces]
  | piece line rest hlf ih =>
      intro st h hlen hstart hnul
      obtain ⟨hline, hrest⟩ := not_mem_split hnul
      have hplain := plain_of_not_mem hline hlf
      rw [terminated_append rest hlf]
      cases hblank : isBlank line with
      | true =>
          rw [scan_newline_blank st _ h hblank, newlineStop_blank rest hlf hblank,
            linesToBlank_blank _ hblank]
          simp [scan, onChar, parseIteration, h, storeResults, LoopState.advance, linePieces]
      | false =>
          rw [scan_newline_line st _ h hblank hplain, scan_header_lf _ _ rfl, ih]
          · rw [newlineStop_line rest hlf hblank, linesToBlank_line _ hblank]
            simp [storeResults, LoopState.nextPiece, LoopState.advance, LoopState.piece,
              HttpRequest.addHeader, linePieces, pieceOf, hlen, hstart, Nat.add_assoc]
          · rfl
          · rfl
          · rfl
          · exact hrest

/-- All header lines, from `HEADER` on. -/
theorem scan_header (rest : Bytes) (st : LoopState) (h : st.status = .header)
    (hlen : st.pieceLen = 0) (hstart : st.start = ⟨st.request.request.block, st.currentPos⟩)
    (hnul : nul ∉ rest) :
    storeResults (scan st rest) =
      storeResults { st with
        request := { st.request with
          headers := st.request.headers ++
            linePieces st.request.request.block st.currentPos (headerLines rest) }
        status := .finished
        currentPos := st.currentPos + headerStop rest } := by
  by_cases hmem : lf ∈ rest
  · obtain ⟨first, others, rfl, hlf⟩ := List.eq_append_cons_of_mem hmem
    obtain ⟨hfirst, hothers⟩ := not_mem_split hnul
    rw [scan_line st _ (Or.inr h) (plain_of_not_mem hfirst hlf),
      scan_header_lf (st.advance _ _) _ h,
      scan_headerNewline]
    · simp [storeResults, LoopState.nextPiece, LoopState.advance, LoopState.piece,
        HttpRequest.addHeader, linePieces, pieceOf, hlen, hstart, headerLines, headerStop,
        cutAt_singleton others hlf, Nat.add_assoc]
    · rfl
    · rfl
    · rfl
    · exact hothers
  · have hscan := scan_line st [] (Or.inr h) (plain_of_not_mem hnul hmem)
    rw [List.append_nil] at hscan
    rw [hscan, scan_end]
    · simp [storeResults, LoopState.advance, headerLines, headerStop, cutAt_eq_none hmem,
        linePieces]
    · simp [ParseStatus.Active, h]
    · simp [h]

/-- The request that `Parse` leaves behind when it reads `head` in data that
occupies `block`. -/
def Head.stored (block : Nat) (data : Bytes) (head : Head) : HttpRequest where
  request := ⟨block, data⟩
  parseRes := ⟨.finished, head.stop⟩
  resPath := pieceOf block head.pathStart List.length head.path
  method := methodFromStringPiece ⟨block, data⟩ (pieceOf block 0 List.length head.method)
  httpVer := httpVerFromStringPiece ⟨block, data⟩
    (pieceOf block head.versionStart counted head.version)
  headers := linePieces block head.linesStart head.lines

@[simp] theorem Head.stored_request (head : Head) (block : Nat) (data : Bytes) :
    (head.stored block data).request = ⟨block, data⟩ := rfl

@[simp] theorem Head.stored_data (head : Head) (block : Nat) (data : Bytes) :
    (head.stored block data).data = data := rfl

/-- `START` only moves the piece start to the front of the data. -/
theorem scan_start (st : LoopState) (rest : Bytes) (h : st.status = .start) :
    scan st rest =
      scan { st with start := ⟨st.request.request.block, 0⟩, status := .method } rest := by
  cases rest <;> simp [scan, onChar, parseIteration, h]

theorem scan_http_line (st : LoopState) {version : Bytes} (rest : Bytes)
    (h : st.status = .http) (hlen : st.pieceLen = 0)
    (hplain : ∀ c ∈ version, c ≠ nul ∧ c ≠ lf) :
    scan st (version ++ lf :: rest) =
      scan ({ st.advance (counted version) version.length with
        http := ⟨some st.start, intOfSize (counted version)⟩ }.nextPiece .header) rest := by
  rw [scan_line st _ (Or.inl h) hplain]
  apply scan_cons_running
  · simp [onChar, parseIteration, h, LoopState.piece, LoopState.advance, hlen]
  · simp [LoopState.nextPiece]

/-- `HTTP` on data without another LF. -/
theorem scan_http_last (st : LoopState) (rest : Bytes) (h : st.status = .http)
    (hnul : nul ∉ rest) (hlf : lf ∉ rest) :
    storeResults (scan st rest) =
      storeResults { st with
        status := .finished
        currentPos := st.currentPos + rest.length } := by
  have hscan := scan_line st [] (Or.inl h) (plain_of_not_mem hnul hlf)
  rw [List.append_nil] at hscan
  rw [hscan, scan_end]
  · simp [storeResults, LoopState.advance]
  · simp [ParseStatus.Active, h]
  · simp [h]

/-- `METHOD` or `URL` on data without another space. -/
theorem scan_plain_last (st : LoopState) (rest : Bytes)
    (h : st.status = .method ∨ st.status = .url) (hnul : nul ∉ rest) (hspace : space ∉ rest) :
    storeResults (scan st rest) =
      storeResults { st with
        status := .finished
        currentPos := st.currentPos + rest.length } := by
  have hscan := scan_plain st [] h (plain_of_not_mem hnul hspace)
  rw [List.append_nil] at hscan
  rw [hscan, scan_end]
  · simp [storeResults, LoopState.advance]
  · rcases h with h | h <;> simp [ParseStatus.Active, h]
  · rcases h with h | h <;> simp [h]

theorem scan_method_space (st : LoopState) {part : Bytes} (rest : Bytes)
    (h : st.status = .method) (hlen : st.pieceLen = 0)
    (hplain : ∀ c ∈ part, c ≠ nul ∧ c ≠ space) :
    scan st (part ++ space :: rest) =
      scan ({ st.advance part.length part.length with
        method := ⟨some st.start, intOfSize part.length⟩ }.nextPiece .url) rest := by
  rw [scan_plain st _ (Or.inl h) hplain]
  apply scan_cons_running
  · simp [onChar, parseIteration, h, LoopState.piece, LoopState.advance, hlen]
  · simp [LoopState.nextPiece]

theorem scan_url_space (st : LoopState) {part : Bytes} (rest : Bytes)
    (h : st.status = .url) (hlen : st.pieceLen = 0)
    (hplain : ∀ c ∈ part, c ≠ nul ∧ c ≠ space) :
    scan st (part ++ space :: rest) =
      scan ({ st.advance part.length part.length with
        url := ⟨some st.start, intOfSize part.length⟩ }.nextPiece .http) rest := by
  rw [scan_plain st _ (Or.inr h) hplain]
  apply scan_cons_running
  · simp [onChar, parseIteration, h, LoopState.piece, LoopState.advance, hlen]
  · simp [LoopState.nextPiece]

/-- The scan of fresh data reads its head. -/
theorem scan_readHead (block : Nat) (data : Bytes) :
    storeResults (scan (loopEntry (HttpRequest.new.append data block)) data) =
      (readHead data).stored block data := by
  rw [scan_takeWhile _ _ (by simp [loopEntry, HttpRequest.new, HttpRequest.append,
    ParseStatus.Active]), scan_start _ _ rfl]
  have hnul := nul_not_mem_text data
  have hshape := readHead_shape data
  generalize data.takeWhile (· ≠ nul) = text at hnul hshape
  generalize readHead data = head at hshape
  cases hshape with
  | inMethod hspace =>
      rw [scan_plain_last _ _ (Or.inl rfl) hnul hspace]
      simp [storeResults, Head.stored, loopEntry, HttpRequest.new, HttpRequest.append, pieceOf,
        linePieces]
  | inPath method rest htext hm hr =>
      subst htext
      obtain ⟨hmethod, hrest⟩ := not_mem_split hnul
      rw [scan_method_space _ _ rfl rfl (plain_of_not_mem hmethod hm),
        scan_plain_last _ _ (Or.inr rfl) hrest hr]
      simp [storeResults, Head.stored, LoopState.nextPiece, LoopState.advance, loopEntry,
        HttpRequest.new, HttpRequest.append, pieceOf, linePieces]
      omega
  | inVersion method path rest htext hm hp hr =>
      subst htext
      obtain ⟨hmethod, hafter⟩ := not_mem_split hnul
      obtain ⟨hpath, hrest⟩ := not_mem_split hafter
      rw [scan_method_space _ _ rfl rfl (plain_of_not_mem hmethod hm),
        scan_url_space _ _ rfl rfl (plain_of_not_mem hpath hp),
        scan_http_last _ _ rfl hrest hr]
      simp [storeResults, Head.stored, LoopState.nextPiece, LoopState.advance, loopEntry,
        HttpRequest.new, HttpRequest.append, pieceOf, Head.pathStart, linePieces]
      omega
  | inLines method path version rest htext hm hp hv =>
      subst htext
      obtain ⟨hmethod, hafter⟩ := not_mem_split hnul
      obtain ⟨hpath, hline⟩ := not_mem_split hafter
      obtain ⟨hversion, hrest⟩ := not_mem_split hline
      rw [scan_method_space _ _ rfl rfl (plain_of_not_mem hmethod hm),
        scan_url_space _ _ rfl rfl (plain_of_not_mem hpath hp),
        scan_http_line _ _ rfl rfl (plain_of_not_mem hversion hv),
        scan_header _ _ rfl rfl rfl hrest]
      simp [storeResults, Head.stored, LoopState.nextPiece, LoopState.advance, loopEntry,
        HttpRequest.new, HttpRequest.append, pieceOf, Head.pathStart, Head.versionStart,
        Head.linesStart]
      omega

/-- `Parse` on a request that holds the data of one `Append` always ends with
`FINISHED` and leaves the head of the data behind. -/
theorem parse_readHead (block : Nat) {data : Bytes} (hdata : data ≠ []) :
    parse (HttpRequest.new.append data block) =
      some (⟨.finished, (readHead data).stop⟩, (readHead data).stored block data) := by
  have hlen : ¬ (HttpRequest.new.append data block).data.length ≤
      (HttpRequest.new.append data block).parseRes.stoppedAt := by
    have hpos := List.length_pos_of_ne_nil hdata
    simpa [HttpRequest.new, HttpRequest.append, HttpRequest.data] using hdata
  have hloop := parseLoop_scan data (loopEntry (HttpRequest.new.append data block))
    (by simp [loopEntry, HttpRequest.new, HttpRequest.append, ParseStatus.Active]) rfl
  have hfuel : parseLoop (parseFuel (HttpRequest.new.append data block)) _ = _ :=
    parseLoop_mono hloop
      (by simp [parseFuel, HttpRequest.new, HttpRequest.append, HttpRequest.data])
  have hstored := scan_readHead block data
  have hres := congrArg HttpRequest.parseRes hstored
  rw [parse, if_neg hlen, hfuel, Option.map_some, hstored]
  simp only [storeResults, Head.stored] at hres
  rw [hres]

end ModServer.Http
