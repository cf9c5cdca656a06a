import ModServer.Http.HeadText

/-!
Requests with LF line ends and the same requests with CRLF line ends. The CR
before an LF is a part of its line, but no counted one, and it does not make a
line blank or not blank.
-/

namespace ModServer.Http

open Library

/-- Every LF replaced by CR LF. -/
def withCrlf (data : Bytes) : Bytes :=
  data.flatMap (fun c => if c = lf then [cr, lf] else [c])

theorem withCrlf_append (left right : Bytes) :
    withCrlf (left ++ right) = withCrlf left ++ withCrlf right :=
  List.flatMap_append

theorem withCrlf_cons {c : UInt8} (rest : Bytes) (h : c ≠ lf) :
    withCrlf (c :: rest) = c :: withCrlf rest := by
  simp [withCrlf, h]

theorem withCrlf_lf (rest : Bytes) : withCrlf (lf :: rest) = cr :: lf :: withCrlf rest := by
  simp [withCrlf]

theorem withCrlf_line {line : Bytes} (h : lf ∉ line) : withCrlf line = line := by
  induction line with
  | nil => rfl
  | cons c line ih =>
      simp only [List.mem_cons, not_or] at h
      rw [withCrlf_cons line (Ne.symm h.1), ih h.2]

theorem withCrlf_append_lf {line : Bytes} (rest : Bytes) (h : lf ∉ line) :
    withCrlf (line ++ lf :: rest) = (line ++ [cr]) ++ lf :: withCrlf rest := by
  rw [withCrlf_append, withCrlf_line h, withCrlf_lf]
  simp

theorem withCrlf_eq_nil {data : Bytes} : withCrlf data = [] ↔ data = [] := by
  cases data with
  | nil => simp [withCrlf]
  | cons c rest =>
      rcases eq_or_ne c lf with rfl | hlf
      · simp [withCrlf_lf]
      · simp [withCrlf_cons rest hlf]

theorem nul_not_mem_withCrlf {data : Bytes} (h : nul ∉ data) : nul ∉ withCrlf data := by
  rw [withCrlf, List.mem_flatMap]
  rintro ⟨c, hc, hnul⟩
  rcases eq_or_ne c lf with rfl | hlf
  · simp [nul_ne_cr, nul_ne_lf] at hnul
  · rw [if_neg hlf, List.mem_singleton] at hnul
    exact h (hnul ▸ hc)

theorem text_withCrlf (data : Bytes) :
    (withCrlf data).takeWhile (· ≠ nul) = withCrlf (data.takeWhile (· ≠ nul)) := by
  by_cases hnul : nul ∈ data
  · obtain ⟨before, after, rfl, hbefore⟩ := List.eq_append_cons_of_mem hnul
    rw [withCrlf_append, withCrlf_cons after nul_ne_lf,
      text_nul _ (nul_not_mem_withCrlf hbefore), text_nul _ hbefore]
  · rw [text_eq_self (nul_not_mem_withCrlf hnul), text_eq_self hnul]

theorem lf_not_mem_append_cr {line : Bytes} (h : lf ∉ line) : lf ∉ line ++ [cr] := by
  simp [h]

theorem terminated_withCrlf (rest : Bytes) :
    terminated lf (withCrlf rest) = (terminated lf rest).map (· ++ [cr]) := by
  induction rest using pieces_induction lf with
  | last rest hlf => rw [withCrlf_line hlf, terminated_eq_nil hlf]; rfl
  | piece line rest hlf ih =>
      rw [withCrlf_append_lf rest hlf, terminated_append _ (lf_not_mem_append_cr hlf),
        terminated_append rest hlf, ih]
      rfl

theorem isBlank_append_cr (line : Bytes) : isBlank (line ++ [cr]) = isBlank line := by
  simp [isBlank]

theorem headerLines_withCrlf (rest : Bytes) :
    headerLines (withCrlf rest) = (headerLines rest).map (· ++ [cr]) := by
  have hblank (lines : List Bytes) :
      linesToBlank (lines.map (· ++ [cr])) = (linesToBlank lines).map (· ++ [cr]) := by
    simp only [linesToBlank, List.takeWhile_map, Function.comp_def, isBlank_append_cr]
  rw [headerLines_eq, headerLines_eq, terminated_withCrlf, List.map_append, ← List.map_take,
    ← List.map_tail, hblank]

/-- Both readings stop at the end, or both on the LF of the same line. -/
def StopsMatch (rest : Bytes) (stop stop' : Nat) : Prop :=
  (stop = rest.length ∧ stop' = (withCrlf rest).length) ∨
  (rest[stop]? = some lf ∧ stop' = (withCrlf (rest.take stop)).length + 1)

theorem StopsMatch.append {rest : Bytes} {stop stop' : Nat} (h : StopsMatch rest stop stop')
    (front : Bytes) :
    StopsMatch (front ++ rest) (front.length + stop) ((withCrlf front).length + stop') := by
  rcases h with ⟨hstop, hstop'⟩ | ⟨hlf, hstop'⟩
  · left
    rw [hstop, hstop', withCrlf_append, List.length_append, List.length_append]
    exact ⟨rfl, rfl⟩
  · right
    rw [List.getElem?_append_right (by omega), List.take_append, withCrlf_append,
      List.take_of_length_le (by omega), Nat.add_sub_cancel_left, hstop']
    simp [hlf, Nat.add_assoc]

theorem newlineStop_withCrlf (rest : Bytes) :
    StopsMatch rest (newlineStop rest) (newlineStop (withCrlf rest)) := by
  induction rest using pieces_induction lf with
  | last rest hlf =>
      rw [withCrlf_line hlf, newlineStop_last hlf]
      exact .inl ⟨rfl, congrArg List.length (withCrlf_line hlf).symm⟩
  | piece line rest hlf ih =>
      have hline := lf_not_mem_append_cr hlf
      rw [withCrlf_append_lf rest hlf]
      cases hblank : isBlank line with
      | true =>
          rw [newlineStop_blank rest hlf hblank,
            newlineStop_blank _ hline ((isBlank_append_cr line).trans hblank)]
          right
          simp [withCrlf_line hlf]
      | false =>
          have hmatch := ih.append (line ++ [lf])
          rw [withCrlf_append_lf [] hlf] at hmatch
          rw [newlineStop_line rest hlf hblank,
            newlineStop_line _ hline ((isBlank_append_cr line).trans hblank)]
          simpa [withCrlf] using hmatch

theorem headerStop_withCrlf (rest : Bytes) :
    StopsMatch rest (headerStop rest) (headerStop (withCrlf rest)) := by
  by_cases hlf : lf ∈ rest
  · obtain ⟨first, others, rfl, hfirst⟩ := List.eq_append_cons_of_mem hlf
    have hmatch := (newlineStop_withCrlf others).append (first ++ [lf])
    rw [withCrlf_append_lf [] hfirst] at hmatch
    rw [withCrlf_append_lf others hfirst]
    simp only [headerStop, cutAt_singleton _ hfirst,
      cutAt_singleton _ (lf_not_mem_append_cr hfirst)]
    simpa [withCrlf] using hmatch
  · left
    rw [withCrlf_line hlf]
    simp [headerStop, cutAt_eq_none hlf]

/-- The head of the data with LF line ends and of the one with CRLF line ends. -/
structure Head.MatchesCrlf (text : Bytes) (head crlf : Head) : Prop where
  method : crlf.method = head.method
  path : crlf.path = head.path
  version : crlf.version = head.version.map (· ++ [cr])
  lines : crlf.lines = head.lines.map (· ++ [cr])
  stop : StopsMatch text head.stop crlf.stop

/-- The request line with a CR before its LF. -/
def RequestLine.withCr (start : RequestLine) : RequestLine :=
  { start with
    version := start.version ++ [cr]
    version_line := lf_not_mem_append_cr start.version_line }

theorem RequestLine.withCrlf_bytes (start : RequestLine) (rest : Bytes) :
    withCrlf (start.bytes ++ rest) = start.withCr.bytes ++ withCrlf rest := by
  have hline := withCrlf_append_lf rest start.lf_not_mem
  rw [bytes, List.append_assoc, List.singleton_append, hline]
  simp [withCr, bytes, line]

/-- Two spaces before the first LF make the first line a request line. -/
theorem exists_requestLine {line : Bytes} (hlf : lf ∉ line) (h : 2 ≤ line.count space) :
    ∃ start : RequestLine, start.line = line := by
  obtain ⟨method, afterMethod, rfl, hm⟩ :=
    List.eq_append_cons_of_mem (List.count_pos_iff.mp (by omega : 0 < line.count space))
  rw [List.count_append, List.count_cons_self, List.count_eq_zero_of_not_mem hm] at h
  obtain ⟨path, version, rfl, hp⟩ :=
    List.eq_append_cons_of_mem (List.count_pos_iff.mp (by omega : 0 < afterMethod.count space))
  obtain ⟨hmlf, hrest⟩ := not_mem_split hlf
  obtain ⟨hplf, hvlf⟩ := not_mem_split hrest
  exact ⟨⟨method, path, version, ⟨hm, hmlf⟩, ⟨hp, hplf⟩, hvlf⟩, rfl⟩

theorem readHead_withCrlf {data : Bytes}
    (h : lf ∈ data → 2 ≤ (data.takeWhile (· ≠ lf)).count space) :
    (readHead data).MatchesCrlf (data.takeWhile (· ≠ nul)) (readHead (withCrlf data)) := by
  by_cases hlf : lf ∈ data.takeWhile (· ≠ nul)
  · obtain ⟨line, rest, htext, hline⟩ := List.eq_append_cons_of_mem hlf
    obtain ⟨tail, htail⟩ := exists_text_append data
    have hfirst : data.takeWhile (· ≠ lf) = line := by
      rw [← htail, htext, List.append_assoc, List.cons_append, List.takeWhile_append_of_pos
        (fun c hc => by simpa using ne_of_mem_of_not_mem hc hline)]
      simp
    have hspaces := h ((List.takeWhile_subset _) hlf)
    rw [hfirst] at hspaces
    obtain ⟨start, rfl⟩ := exists_requestLine hline hspaces
    have hbytes : data.takeWhile (· ≠ nul) = start.bytes ++ rest := by
      rw [htext, RequestLine.bytes, List.append_assoc, List.singleton_append]
    have hnul := nul_not_mem_text data
    rw [hbytes, List.mem_append, not_or] at hnul
    have hcrlf : withCrlf start.bytes = start.withCr.bytes := by
      simpa [withCrlf] using start.withCrlf_bytes []
    have hnul' := nul_not_mem_withCrlf hnul.1
    rw [hcrlf] at hnul'
    have hread := start.readHead_bytes rest hnul.1
    have hread' := start.withCr.readHead_bytes (withCrlf rest) hnul'
    have hstop := (headerStop_withCrlf rest).append start.bytes
    rw [hcrlf] at hstop
    rw [← hbytes, readHead_takeWhile, text_eq_self hnul.2] at hread
    rw [← start.withCrlf_bytes, ← hbytes, ← text_withCrlf, readHead_takeWhile,
      text_eq_self (nul_not_mem_withCrlf hnul.2)] at hread'
    rw [hread, hread', hbytes]
    exact ⟨rfl, rfl, rfl, headerLines_withCrlf rest, hstop⟩
  · have hsame : readHead (withCrlf data) = readHead data := by
      rw [← readHead_takeWhile, text_withCrlf, withCrlf_line hlf, readHead_takeWhile]
    obtain ⟨hversion, hlines, hstop⟩ := readHead_no_lf hlf
    rw [hsame]
    exact ⟨rfl, rfl, by rw [hversion]; rfl, by rw [hlines]; rfl,
      .inl ⟨hstop, by rw [withCrlf_line hlf, hstop]⟩⟩

theorem counted_append_cr (line : Bytes) : counted (line ++ [cr]) = counted line := by
  rw [counted_append]
  rfl

theorem tokenIs_append_cr (version literal : Bytes) :
    TokenIs (counted (version ++ [cr])) (version ++ [cr]) literal ↔
      TokenIs (counted version) version literal := by
  unfold TokenIs
  rw [counted_append_cr]
  refine and_congr_right (fun hlength => ?_)
  have hint := intOfSize_toNat_le (counted version)
  have hle := counted_le version
  rw [hlength, Int.toNat_natCast] at hint
  rw [List.take_append_of_le_length (hint.trans hle)]

theorem partString_append_cr (line : Bytes) :
    partString (counted (line ++ [cr])) (line ++ [cr]) = partString (counted line) line := by
  have hint := intOfSize_toNat_le (counted line)
  unfold partString
  rw [counted_append_cr, List.take_append_of_le_length (hint.trans (counted_le line))]

theorem Head.MatchesCrlf.isVersion {text literal : Bytes} {head crlf : Head}
    (h : head.MatchesCrlf text crlf) : crlf.IsVersion literal ↔ head.IsVersion literal := by
  unfold Head.IsVersion
  rw [h.version]
  cases head.version with
  | none => simp
  | some version => simp [tokenIs_append_cr]

theorem getElem?_text {data : Bytes} {c : UInt8}
    (h : data[(data.takeWhile (· ≠ nul)).length]? = some c) : c = nul := by
  by_cases hnul : nul ∈ data
  · obtain ⟨before, after, rfl, hbefore⟩ := List.eq_append_cons_of_mem hnul
    rw [text_nul after hbefore] at h
    simpa using h.symm
  · rw [text_eq_self hnul] at h
    simp at h

/-- The stops of both readings, in the data itself. -/
theorem StopsMatch.corresponds {data : Bytes} {stop stop' : Nat}
    (h : StopsMatch (data.takeWhile (· ≠ nul)) stop stop')
    (hlf : data[stop]? = some lf ∨ (withCrlf data)[stop']? = some lf) :
    data[stop]? = some lf ∧ (withCrlf data)[stop']? = some lf ∧
      stop' = (withCrlf (data.take stop)).length + 1 := by
  rcases h with ⟨rfl, rfl⟩ | ⟨hstop, hstop'⟩
  · rw [← text_withCrlf] at hlf
    rcases hlf with hlf | hlf
    · exact absurd (getElem?_text hlf) lf_ne_nul
    · exact absurd (getElem?_text hlf) lf_ne_nul
  · obtain ⟨tail, htail⟩ := exists_text_append data
    generalize data.takeWhile (· ≠ nul) = text at hstop hstop' htail
    subst htail
    obtain ⟨hlt, hget⟩ := List.getElem?_eq_some_iff.mp hstop
    have hsplit : text ++ tail = text.take stop ++ lf :: (text.drop (stop + 1) ++ tail) := by
      rw [← hget, ← List.cons_append, List.getElem_cons_drop, ← List.append_assoc,
        List.take_append_drop]
    have htake : (text ++ tail).take stop = text.take stop :=
      List.take_append_of_le_length hlt.le
    refine ⟨?_, ?_, ?_⟩
    · rw [List.getElem?_append_left hlt, hstop]
    · rw [hstop', hsplit, withCrlf_append, withCrlf_lf]
      simp
    · rw [htake, hstop']

/-- LF and CRLF line ends are parsed alike, whatever else the data holds, when
two spaces stand before its first LF. -/
theorem parse_withCrlf (data : Bytes) (block other : Nat)
    (hspaces : lf ∈ data → 2 ≤ (data.takeWhile (· ≠ lf)).count space) :
    ∃ res r res' r',
      parse (HttpRequest.new.append data block) = some (res, r) ∧
      parse (HttpRequest.new.append (withCrlf data) other) = some (res', r') ∧
      res'.status = res.status ∧ r'.method = r.method ∧ r'.httpVer = r.httpVer ∧
      r'.resourcePath = r.resourcePath ∧ r'.headerStrings = r.headerStrings ∧
      (data[res.stoppedAt]? = some lf ∨ (withCrlf data)[res'.stoppedAt]? = some lf →
        data[res.stoppedAt]? = some lf ∧ (withCrlf data)[res'.stoppedAt]? = some lf ∧
          res'.stoppedAt = (withCrlf (data.take res.stoppedAt)).length + 1) := by
  have hmatch := readHead_withCrlf hspaces
  obtain ⟨r, hparse, hmethod, hversion, hpath, -, hheaders⟩ := parse_reports block data
  obtain ⟨r', hparse', hmethod', hversion', hpath', -, hheaders'⟩ :=
    parse_reports other (withCrlf data)
  refine ⟨_, r, _, r', hparse, hparse', ?_, ?_, ?_, ?_, ?_, hmatch.stop.corresponds⟩
  · simp only [withCrlf_eq_nil]
  · rw [hmethod, hmethod']
    apply RequestMethod.ext_get
    rw [stored_method_get, stored_method_get, Head.IsGet, Head.IsGet, hmatch.method]
  · rw [hversion, hversion']
    apply HttpVersion.ext_http
    · rw [stored_http11, stored_http11, hmatch.isVersion]
    · rw [stored_http10, stored_http10, hmatch.isVersion]
  · rw [hpath, hpath', stored_resourcePath, stored_resourcePath, hmatch.path]
  · rw [hheaders, hheaders', stored_headerStrings, stored_headerStrings, hmatch.lines]
    simp only [List.map_map, Function.comp_def, partString_append_cr]

/-- One header line, and a byte after the blank line. -/
def lfRequest : Bytes := ascii "GET /a HTTP/1.1\nA: b\n\nc"

theorem parse_withCrlf_request :
    (lf ∈ lfRequest →
      2 ≤ (lfRequest.takeWhile (· ≠ lf)).count space) ∧
      ∃ res r res' r',
        parse (HttpRequest.new.append lfRequest 0) = some (res, r) ∧
        parse (HttpRequest.new.append (withCrlf lfRequest) 1) =
          some (res', r') ∧
        res'.status = res.status ∧ r'.method = r.method ∧ r'.httpVer = r.httpVer ∧
        r'.resourcePath = r.resourcePath ∧ r'.headerStrings = r.headerStrings ∧
        (lfRequest[res.stoppedAt]? = some lf ∨
            (withCrlf lfRequest)[res'.stoppedAt]? = some lf →
          lfRequest[res.stoppedAt]? = some lf ∧
            (withCrlf lfRequest)[res'.stoppedAt]? = some lf ∧
            res'.stoppedAt =
              (withCrlf (lfRequest.take res.stoppedAt)).length + 1) :=
  ⟨by decide, parse_withCrlf _ 0 1 (by decide)⟩

end ModServer.Http
