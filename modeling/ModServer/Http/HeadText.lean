import ModServer.Http.Monotone

/-!
Request heads: a request line, header lines and a blank line, where the CRs
before an LF belong to the line. The lines of some data before its first NUL
byte decide which header lines are read and whether reading stops before the
data ends.
-/

namespace ModServer.Http

open Library

/-- The two delimiters cut the line into a method, a path and a version. The CR
of a CRLF is a part of the version. -/
structure RequestLine where
  method : Bytes
  path : Bytes
  version : Bytes
  method_token : space ∉ method ∧ lf ∉ method
  path_token : space ∉ path ∧ lf ∉ path
  version_line : lf ∉ version

namespace RequestLine

def line (start : RequestLine) : Bytes :=
  start.method ++ space :: (start.path ++ space :: start.version)

def bytes (start : RequestLine) : Bytes :=
  start.line ++ [lf]

theorem lf_not_mem (start : RequestLine) : lf ∉ start.line := by
  simp [line, start.method_token.2, start.path_token.2, start.version_line, space_ne_lf.symm]

theorem readHead_bytes (start : RequestLine) (rest : Bytes) (h : nul ∉ start.bytes) :
    readHead (start.bytes ++ rest) =
      { method := some start.method
        path := some start.path
        version := some start.version
        lines := headerLines (rest.takeWhile (· ≠ nul))
        stop := start.bytes.length + headerStop (rest.takeWhile (· ≠ nul)) } := by
  have htext := text_append rest h
  have hsplit (tail : Bytes) : start.bytes ++ tail = start.method ++ space ::
      (start.path ++ space :: (start.version ++ lf :: tail)) := by
    simp [bytes, line]
  rw [hsplit (rest.takeWhile (· ≠ nul))] at htext
  rw [readHead_lines htext start.method_token.1 start.path_token.1 start.version_line]
  simp [bytes, line]
  omega

/-- A NUL byte in the request line ends the text before the first LF. -/
theorem lf_not_mem_text (start : RequestLine) (rest : Bytes) (h : nul ∈ start.bytes) :
    lf ∉ (start.bytes ++ rest).takeWhile (· ≠ nul) := by
  have hline : nul ∈ start.line := by
    simpa [bytes] using h
  obtain ⟨before, after, hsplit, hbefore⟩ := List.eq_append_cons_of_mem hline
  have hlf := start.lf_not_mem
  rw [bytes, hsplit]
  rw [hsplit] at hlf
  rw [List.append_assoc, List.append_assoc, List.cons_append, text_nul _ hbefore]
  exact (not_mem_split hlf).1

end RequestLine

theorem readHead_no_lf {data : Bytes} (h : lf ∉ data.takeWhile (· ≠ nul)) :
    (readHead data).version = none ∧ (readHead data).lines = [] ∧
      (readHead data).stop = (data.takeWhile (· ≠ nul)).length := by
  have hshape := readHead_shape data
  generalize data.takeWhile (· ≠ nul) = text at h hshape
  generalize readHead data = head at hshape
  cases hshape with
  | inMethod => exact ⟨rfl, rfl, rfl⟩
  | inPath => exact ⟨rfl, rfl, rfl⟩
  | inVersion => exact ⟨rfl, rfl, rfl⟩
  | inLines method path version rest htext => simp [htext] at h

theorem terminated_joinLines {lines : List Bytes} (rest : Bytes)
    (h : ∀ line ∈ lines, lf ∉ line) :
    terminated lf (joinLines lines ++ rest) = lines ++ terminated lf rest := by
  induction lines with
  | nil => rfl
  | cons line lines ih =>
      have hline := h line List.mem_cons_self
      have hlines := ih (fun other hmem => h other (List.mem_cons_of_mem line hmem))
      rw [joinLines_cons, List.append_assoc, List.append_assoc, List.singleton_append,
        terminated_append _ hline, hlines]
      rfl

/-- A NUL byte in some line leaves the lines before that one. -/
theorem terminated_text {lines : List Bytes} (rest : Bytes)
    (hlf : ∀ line ∈ lines, lf ∉ line) (hnul : ∃ line ∈ lines, nul ∈ line) :
    terminated lf ((joinLines lines ++ rest).takeWhile (· ≠ nul)) =
      lines.takeWhile (nul ∉ ·) := by
  induction lines with
  | nil =>
      obtain ⟨line, hmem, -⟩ := hnul
      cases hmem
  | cons line lines ih =>
      rw [joinLines_cons, List.append_assoc, List.append_assoc, List.singleton_append]
      have hline := hlf line List.mem_cons_self
      by_cases hnull : nul ∈ line
      · obtain ⟨before, after, rfl, hbefore⟩ := List.eq_append_cons_of_mem hnull
        rw [List.append_assoc, List.cons_append, text_nul _ hbefore,
          terminated_eq_nil (not_mem_split hline).1]
        simp
      · have hrest : ∃ line ∈ lines, nul ∈ line := by
          obtain ⟨other, hmem, hother⟩ := hnul
          rcases List.mem_cons.mp hmem with rfl | hmem
          · exact absurd hother hnull
          · exact ⟨other, hmem, hother⟩
        have hfront : nul ∉ line ++ [lf] := by
          simp [hnull]
        have htext := text_append (joinLines lines ++ rest) hfront
        rw [List.append_assoc, List.append_assoc, List.singleton_append,
          List.singleton_append] at htext
        rw [htext, terminated_append _ hline,
          ih (fun other hmem => hlf other (List.mem_cons_of_mem line hmem)) hrest]
        simp [hnull]

/-- Which of the lines are header lines. -/
theorem headerLines_eq (rest : Bytes) :
    headerLines rest =
      (terminated lf rest).take 1 ++ linesToBlank (terminated lf rest).tail := by
  by_cases hlf : lf ∈ rest
  · obtain ⟨first, others, rfl, hfirst⟩ := List.eq_append_cons_of_mem hlf
    simp [headerLines, cutAt_singleton others hfirst, terminated_append others hfirst]
  · simp [headerLines, cutAt_eq_none hlf, terminated_eq_nil hlf, linesToBlank]

theorem headerLines_eq_terminated {rest : Bytes}
    (h : ∀ line ∈ (terminated lf rest).tail, isBlank line = false) :
    headerLines rest = terminated lf rest := by
  rw [headerLines_eq]
  generalize terminated lf rest = lines at h ⊢
  cases lines with
  | nil => rfl
  | cons first others =>
      have hall : linesToBlank others = others := by
        rw [linesToBlank, List.takeWhile_eq_self_iff]
        intro line hline
        simp [h line hline]
      simp [hall]

theorem newlineStop_eq_length (rest : Bytes) :
    newlineStop rest = rest.length ↔ ∀ line ∈ terminated lf rest, isBlank line = false := by
  induction rest using pieces_induction lf with
  | last rest hlf => simp [newlineStop_last hlf, terminated_eq_nil hlf]
  | piece line rest hlf ih =>
      rw [terminated_append rest hlf]
      cases hblank : isBlank line with
      | true => simp [newlineStop_blank rest hlf hblank, hblank]
      | false =>
          rw [newlineStop_line rest hlf hblank, List.forall_mem_cons, ← ih]
          simp [hblank]
          omega

theorem newlineStop_lines {lines : List Bytes} {blank : Bytes} (tail : Bytes)
    (hlines : ∀ line ∈ lines, lf ∉ line ∧ isBlank line = false) (hlf : lf ∉ blank)
    (hblank : isBlank blank = true) :
    newlineStop (joinLines lines ++ (blank ++ lf :: tail)) =
      (joinLines lines).length + blank.length := by
  induction lines with
  | nil => simpa [joinLines] using newlineStop_blank tail hlf hblank
  | cons line lines ih =>
      obtain ⟨hline, hheader⟩ := hlines line List.mem_cons_self
      have hrest := ih (fun other hmem => hlines other (List.mem_cons_of_mem line hmem))
      rw [joinLines_cons, List.append_assoc, List.append_assoc, List.singleton_append,
        newlineStop_line _ hline hheader, hrest]
      simp
      omega

theorem headerStop_eq_length (rest : Bytes) :
    headerStop rest = rest.length ↔
      ∀ line ∈ (terminated lf rest).tail, isBlank line = false := by
  by_cases hlf : lf ∈ rest
  · obtain ⟨first, others, rfl, hfirst⟩ := List.eq_append_cons_of_mem hlf
    rw [terminated_append others hfirst, List.tail_cons, ← newlineStop_eq_length]
    simp [headerStop, cutAt_singleton others hfirst]
    omega
  · simp [headerStop, cutAt_eq_none hlf, terminated_eq_nil hlf]

/-- A request line, header lines and the first blank line after them. -/
structure HeadText where
  start : RequestLine
  lines : List Bytes
  blank : Bytes
  header_lines : ∀ line ∈ lines, lf ∉ line ∧ isBlank line = false
  blank_line : isBlank blank = true

namespace HeadText

/-- The lines after the request line. -/
def block (t : HeadText) : Bytes :=
  joinLines (t.lines ++ [t.blank])

def bytes (t : HeadText) : Bytes :=
  t.start.bytes ++ t.block

theorem lf_not_mem (t : HeadText) : ∀ line ∈ t.lines ++ [t.blank], lf ∉ line := by
  intro line hline
  rcases List.mem_append.mp hline with hheader | hblank
  · exact (t.header_lines line hheader).1
  · rw [List.mem_singleton.mp hblank]
    exact not_mem_blank t.blank_line lf_ne_cr

theorem terminated_block (t : HeadText) (tail : Bytes) :
    terminated lf (t.block ++ tail) = t.lines ++ t.blank :: terminated lf tail := by
  rw [block, terminated_joinLines tail t.lf_not_mem, List.append_assoc, List.singleton_append]

/-- The lines of the text when NUL stands in the header lines. -/
theorem terminated_text_block (t : HeadText) (tail : Bytes) (h : nul ∈ t.block) :
    terminated lf ((t.block ++ tail).takeWhile (· ≠ nul)) = t.lines.takeWhile (nul ∉ ·) := by
  have hblank : nul ∉ t.blank := not_mem_blank t.blank_line nul_ne_cr
  have hmem : ∃ line ∈ t.lines, nul ∈ line := by
    simpa [block, joinLines, hblank] using h
  have hblock : t.block ++ tail = joinLines t.lines ++ (t.blank ++ lf :: tail) := by
    simp [block, joinLines]
  rw [hblock]
  exact terminated_text _ (fun line hline => (t.header_lines line hline).1) hmem

theorem linesToBlank_lines (t : HeadText) {lines : List Bytes} (more : List Bytes)
    (h : lines ⊆ t.lines) : linesToBlank (lines ++ t.blank :: more) = lines := by
  rw [linesToBlank, List.takeWhile_append_of_pos]
  · simp [t.blank_line]
  · intro line hline
    simp [(t.header_lines line (h hline)).2]

/-- A head with header lines is read up to the LF of its blank line. -/
theorem headerStop_block (t : HeadText) (tail : Bytes) (h : t.lines ≠ []) :
    headerStop (t.block ++ tail) + 1 = t.block.length := by
  obtain ⟨first, others, hlines⟩ := List.exists_cons_of_ne_nil h
  have hfirst : lf ∉ first := t.lf_not_mem first (by simp [hlines])
  have hothers : ∀ line ∈ others, lf ∉ line ∧ isBlank line = false :=
    fun line hmem => t.header_lines line (by simp [hlines, hmem])
  have hblock : t.block ++ tail =
      first ++ lf :: (joinLines others ++ (t.blank ++ lf :: tail)) := by
    simp [block, hlines, joinLines]
  have hstop := newlineStop_lines tail hothers (not_mem_blank t.blank_line lf_ne_cr) t.blank_line
  rw [hblock, headerStop, cutAt_singleton _ hfirst]
  simp only [hstop]
  simp [block, hlines, joinLines]
  omega

/-- A head with header lines gives all of them. -/
theorem headerLines_block (t : HeadText) (tail : Bytes) (h : t.lines ≠ []) :
    headerLines (t.block ++ tail) = t.lines := by
  obtain ⟨first, others, hlines⟩ := List.exists_cons_of_ne_nil h
  have hothers := t.linesToBlank_lines (terminated lf tail) (by simp [hlines] : others ⊆ t.lines)
  rw [headerLines_eq, t.terminated_block, hlines, List.cons_append, List.tail_cons, hothers]
  rfl

/-- Without a NUL byte the head is read line by line, whatever follows it. -/
theorem readHead_bytes (t : HeadText) (tail : Bytes) (hnul : nul ∉ t.bytes) (h : t.lines ≠ []) :
    readHead (t.bytes ++ tail) =
      { method := some t.start.method
        path := some t.start.path
        version := some t.start.version
        lines := t.lines
        stop := t.bytes.length - 1 } := by
  have hstop := t.headerStop_block (tail.takeWhile (· ≠ nul)) h
  rw [bytes, List.mem_append, not_or] at hnul
  rw [bytes, List.append_assoc, t.start.readHead_bytes _ hnul.1, text_append _ hnul.2,
    t.headerLines_block _ h]
  simp only [Head.mk.injEq, true_and, List.length_append]
  omega

/-- What follows the head does not show, as long as the head has a header line
or a NUL byte ends its request line. -/
theorem readHead_tail (t : HeadText) (tail : Bytes)
    (h : nul ∈ t.start.bytes ∨ t.lines ≠ []) :
    readHead (t.bytes ++ tail) = readHead t.bytes := by
  by_cases hnul : nul ∈ t.bytes
  · exact readHead_nul tail hnul
  · rw [bytes, List.mem_append, not_or] at hnul
    have hlines : t.lines ≠ [] := h.resolve_left hnul.1
    have hstop := t.headerStop_block (tail.takeWhile (· ≠ nul)) hlines
    have hread := t.start.readHead_bytes (t.block ++ tail) hnul.1
    rw [text_append _ hnul.2, ← List.append_assoc] at hread
    apply readHead_append
    rw [bytes, hread, List.length_append]
    change _ + headerStop _ ≤ _
    omega

theorem readHead_header_lines (t : HeadText) (hstart : nul ∉ t.start.bytes)
    (hlines : t.lines ≠ []) : (readHead t.bytes).lines = t.lines.takeWhile (nul ∉ ·) := by
  rw [bytes, t.start.readHead_bytes _ hstart]
  change headerLines _ = _
  by_cases hnul : nul ∈ t.block
  · have htext := t.terminated_text_block [] hnul
    have hheaders : ∀ line ∈ t.lines.takeWhile (nul ∉ ·), isBlank line = false :=
      fun line hline => (t.header_lines line (List.takeWhile_subset _ hline)).2
    rw [List.append_nil] at htext
    rw [headerLines_eq_terminated, htext]
    intro line hline
    rw [htext] at hline
    exact hheaders line (List.mem_of_mem_tail hline)
  · have hplain : ∀ line ∈ t.lines, nul ∉ line := by
      intro line hline hmem
      apply hnul
      rw [block, joinLines_append, joinLines, List.mem_append, List.mem_flatMap]
      exact .inl ⟨line, hline, List.mem_append_left _ hmem⟩
    have hall : t.lines.takeWhile (nul ∉ ·) = t.lines := by
      rw [List.takeWhile_eq_self_iff]
      intro line hline
      simpa using hplain line hline
    have hblock := t.headerLines_block [] hlines
    rw [List.append_nil] at hblock
    rw [text_eq_self hnul, hall, hblock]

/-- Without a header line the blank line itself is the first header line. -/
theorem readHead_blank_line (t : HeadText) (tail : Bytes) (hstart : nul ∉ t.start.bytes)
    (hlines : t.lines = []) :
    ∃ more, (readHead (t.bytes ++ tail)).lines = t.blank :: more := by
  have hblock : nul ∉ t.block := by
    simp [block, hlines, joinLines, not_mem_blank t.blank_line nul_ne_cr]
  rw [bytes, List.append_assoc, t.start.readHead_bytes _ hstart, text_append _ hblock]
  simp only [headerLines_eq, t.terminated_block, hlines]
  exact ⟨_, rfl⟩

end HeadText

/-- A recorded header that has some length and ends within the first `limit`
bytes of the data. -/
def StringPiece.Within (limit : Nat) (piece : StringPiece) : Prop :=
  0 < piece.length ∧ ∃ ptr, piece.start = some ptr ∧ ptr.offset + piece.length.toNat ≤ limit

theorem linePieces_within {block offset limit : Nat} {lines : List Bytes}
    (h : offset + (joinLines lines).length ≤ limit) :
    (∀ piece ∈ linePieces block offset lines, piece.Within limit) ↔
      ∀ line ∈ lines, 0 < intOfSize (counted line) := by
  induction lines generalizing offset with
  | nil => simp [linePieces]
  | cons line lines ih =>
      rw [joinLines_cons] at h
      simp only [List.length_append, List.length_singleton] at h
      have hrest := @ih (offset + line.length + 1) (by omega)
      have hcounted := counted_le line
      have hint := intOfSize_toNat_le (counted line)
      rw [linePieces, List.forall_mem_cons, List.forall_mem_cons, hrest]
      simp only [pieceOf, StringPiece.Within]
      generalize intOfSize (counted line) = length at hint ⊢
      refine and_congr_left
        (fun _ => ⟨And.left, fun hlength => ⟨hlength, ⟨block, offset⟩, rfl, ?_⟩⟩)
      change offset + length.toNat ≤ limit
      omega

/-- Requests that differ behind the head only are parsed alike, and every
recorded header is a piece of the head. -/
def TailBlind (t : HeadText) (left right : Bytes) (block other : Nat) : Prop :=
  ∃ res r res' r',
    parse (HttpRequest.new.append (t.bytes ++ left) block) = some (res, r) ∧
    parse (HttpRequest.new.append (t.bytes ++ right) other) = some (res', r') ∧
    r.method = r'.method ∧ r.httpVer = r'.httpVer ∧ r.resourcePath = r'.resourcePath ∧
    r.headerStrings = r'.headerStrings ∧ res.stoppedAt = res'.stoppedAt ∧
    ∀ header ∈ r.headers ++ r'.headers, header.Within t.bytes.length

theorem HeadText.headers_within (t : HeadText) (tail : Bytes) (block : Nat)
    (h : nul ∈ t.start.bytes ∨ t.lines ≠ []) :
    (∀ header ∈ ((readHead (t.bytes ++ tail)).stored block (t.bytes ++ tail)).headers,
        header.Within t.bytes.length) ↔
      ∀ line ∈ (readHead t.bytes).lines, 0 < intOfSize (counted line) := by
  rw [t.readHead_tail tail h]
  rcases eq_or_ne (readHead t.bytes).lines [] with hnone | hsome
  · simp [Head.stored, hnone, linePieces]
  · obtain ⟨before, after, hdata, hlength⟩ := (readHead_ranges t.bytes).lines hsome
    have hlimit := congrArg List.length hdata
    simp only [List.length_append] at hlimit
    exact linePieces_within (by omega)

theorem tailBlind_iff (t : HeadText) (left right : Bytes) (block other : Nat) :
    TailBlind t left right block other ↔
      nul ∈ t.start.bytes ∨
        (t.lines ≠ [] ∧
          ∀ line ∈ t.lines.takeWhile (nul ∉ ·), 0 < intOfSize (counted line)) := by
  have hne (tail : Bytes) : t.bytes ++ tail ≠ [] := by
    simp [HeadText.bytes, RequestLine.bytes]
  have hparse (tail : Bytes) (last : Nat) := parse_readHead last (hne tail)
  constructor
  · rintro ⟨res, r, res', r', hleft, -, -, -, -, -, -, hwithin⟩
    rw [hparse left block] at hleft
    cases hleft
    have hheaders := fun header hmem => hwithin header (List.mem_append_left _ hmem)
    by_cases hstart : nul ∈ t.start.bytes
    · exact .inl hstart
    · have hlines : t.lines ≠ [] := by
        intro hnone
        obtain ⟨more, hmore⟩ := t.readHead_blank_line left hstart hnone
        have hpos := (hheaders _ (by rw [Head.stored, hmore]; exact List.mem_cons_self)).1
        simp [pieceOf, counted_of_isBlank t.blank_line] at hpos
      refine .inr ⟨hlines, ?_⟩
      rw [← t.readHead_header_lines hstart hlines]
      exact (t.headers_within left block (.inr hlines)).mp hheaders
  · intro h
    have hread := h.imp_right And.left
    have hlines : ∀ line ∈ (readHead t.bytes).lines, 0 < intOfSize (counted line) := by
      by_cases hstart : nul ∈ t.start.bytes
      · obtain ⟨-, hnone, -⟩ := readHead_no_lf (t.start.lf_not_mem_text t.block hstart)
        rw [HeadText.bytes, hnone]
        exact fun line hline => absurd hline List.not_mem_nil
      · obtain ⟨hlines, hcounted⟩ := h.resolve_left hstart
        rwa [t.readHead_header_lines hstart hlines]
    have hsame : readHead (t.bytes ++ left) = readHead (t.bytes ++ right) := by
      rw [t.readHead_tail left hread, t.readHead_tail right hread]
    obtain ⟨hmethod, hversion, hpath, hheaders⟩ := stored_congr block other hsame
    refine ⟨_, _, _, _, hparse left block, hparse right other, hmethod, hversion, hpath, hheaders,
      congrArg Head.stop hsame, ?_⟩
    intro header hheader
    rcases List.mem_append.mp hheader with hleft | hright
    · exact (t.headers_within left block hread).mpr hlines header hleft
    · exact (t.headers_within right other hread).mpr hlines header hright

/-- `GET / HTTP/1.1` and the blank line, without a header line. -/
def bareRequest : HeadText where
  start :=
    { method := ascii "GET"
      path := ascii "/"
      version := ascii "HTTP/1.1" ++ [cr]
      method_token := by decide
      path_token := by decide
      version_line := by decide }
  lines := []
  blank := [cr]
  header_lines := nofun
  blank_line := by decide

/-- `HEADER` takes the blank line for a header. -/
theorem not_tailBlind_bare : ¬ TailBlind bareRequest [] (ascii "A: b\n") 0 0 := by
  rintro ⟨res, r, res', r', hleft, hright, -, -, -, hheaders, -, -⟩
  have hblank : (parse (HttpRequest.new.append (bareRequest.bytes ++ []) 0)).map
      (fun result => result.2.headerStrings) = some [.ok []] := by
    decide +kernel
  have htail : (parse (HttpRequest.new.append (bareRequest.bytes ++ ascii "A: b\n") 0)).map
      (fun result => result.2.headerStrings) = some [.ok [], .ok (ascii "A: b")] := by
    decide +kernel
  rw [hleft, Option.map_some, Option.some_inj] at hblank
  rw [hright, Option.map_some, Option.some_inj] at htail
  rw [hblank, htail] at hheaders
  cases hheaders

end ModServer.Http
