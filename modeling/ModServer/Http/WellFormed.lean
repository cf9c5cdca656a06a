import ModServer.Http.HeadText

/-!
Decoding a well-formed request. Each line of it may end in LF or in CRLF, and
any bytes may follow the blank line.
-/

namespace ModServer.Http

open Library

inductive Eol where
  | lf
  | crlf
  deriving DecidableEq, Repr

/-- The CRs of a line end, which `Parse` sees as a part of the line. -/
def Eol.crs : Eol → Bytes
  | .lf => []
  | .crlf => [cr]

def Eol.bytes (eol : Eol) : Bytes :=
  eol.crs ++ [ModServer.lf]

/-- A byte that neither ends the data for `Parse` nor belongs to a line end. -/
def Plain (c : UInt8) : Prop :=
  c ≠ cr ∧ c ≠ lf ∧ c ≠ nul

instance : DecidablePred Plain :=
  fun c => inferInstanceAs (Decidable (c ≠ cr ∧ c ≠ lf ∧ c ≠ nul))

/-- A request line, at least one header line and a blank line. -/
structure RequestText where
  method : Bytes
  path : Bytes
  version : Bytes
  eol : Eol
  headers : List (Bytes × Eol)
  blank : Eol
  method_plain : ∀ c ∈ method, Plain c ∧ c ≠ space
  path_plain : ∀ c ∈ path, Plain c ∧ c ≠ space
  version_plain : ∀ c ∈ version, Plain c
  headers_nonempty : headers ≠ []
  header_plain : ∀ header ∈ headers, header.1 ≠ [] ∧ ∀ c ∈ header.1, Plain c

namespace RequestText

/-- The lines as they stand between two LFs. -/
def rawLines (headers : List (Bytes × Eol)) : List Bytes :=
  headers.map (fun header => header.1 ++ header.2.crs)

def headerBytes (headers : List (Bytes × Eol)) : Bytes :=
  headers.flatMap (fun header => header.1 ++ header.2.bytes)

def bytes (t : RequestText) : Bytes :=
  t.method ++ space :: (t.path ++ space :: (t.version ++ t.eol.bytes ++
    (headerBytes t.headers ++ t.blank.bytes)))

/-- The index of the LF of the blank line. -/
def blankLf (t : RequestText) : Nat :=
  t.bytes.length - 1

end RequestText

theorem nul_not_mem_eol (eol : Eol) : nul ∉ eol.bytes := by
  cases eol <;> simp [Eol.bytes, Eol.crs, cr, lf, nul]

theorem isBlank_crs (eol : Eol) : isBlank eol.crs = true := by
  cases eol <;> simp [Eol.crs, isBlank]

theorem counted_line {line : Bytes} (eol : Eol) (h : ∀ c ∈ line, Plain c) :
    counted (line ++ eol.crs) = line.length := by
  rw [counted_append, counted_of_isBlank (isBlank_crs eol), Nat.add_zero]
  exact List.countP_eq_length.mpr (fun c hc => by simpa using (h c hc).1)

theorem take_counted_line {line : Bytes} (eol : Eol) (h : ∀ c ∈ line, Plain c) :
    (line ++ eol.crs).take (counted (line ++ eol.crs)) = line := by
  rw [counted_line eol h, List.take_left]

theorem not_blank_line {line : Bytes} (eol : Eol) (hne : line ≠ [])
    (h : ∀ c ∈ line, Plain c) : isBlank (line ++ eol.crs) = false := by
  cases line with
  | nil => exact absurd rfl hne
  | cons c line =>
      have hcr : c ≠ cr := (h c List.mem_cons_self).1
      simp [isBlank, hcr]

theorem lf_not_mem_line {line : Bytes} (eol : Eol) (h : ∀ c ∈ line, Plain c) :
    lf ∉ line ++ eol.crs := by
  rw [List.mem_append, not_or]
  exact ⟨fun hmem => (h lf hmem).2.1 rfl, not_mem_blank (isBlank_crs eol) lf_ne_cr⟩

theorem nul_not_mem_headerBytes (headers : List (Bytes × Eol))
    (h : ∀ header ∈ headers, ∀ c ∈ header.1, Plain c) :
    nul ∉ RequestText.headerBytes headers := by
  intro hmem
  obtain ⟨header, hheader, hc⟩ := List.mem_flatMap.mp hmem
  rcases List.mem_append.mp hc with hline | heol
  · exact (h header hheader nul hline).2.2 rfl
  · exact nul_not_mem_eol header.2 heol

theorem RequestText.nul_not_mem (t : RequestText) : nul ∉ t.bytes := by
  have hmethod : nul ∉ t.method := fun h => (t.method_plain nul h).1.2.2 rfl
  have hpath : nul ∉ t.path := fun h => (t.path_plain nul h).1.2.2 rfl
  have hversion : nul ∉ t.version := fun h => (t.version_plain nul h).2.2 rfl
  have hheaders := nul_not_mem_headerBytes t.headers (fun header h => (t.header_plain header h).2)
  simp only [RequestText.bytes, List.mem_append, List.mem_cons, not_or]
  exact ⟨hmethod, space_ne_nul.symm, hpath, space_ne_nul.symm,
    ⟨hversion, nul_not_mem_eol t.eol⟩, hheaders, nul_not_mem_eol t.blank⟩

/-- The lines of a well-formed request, with the CRs of their ends. -/
def RequestText.headText (t : RequestText) : HeadText where
  start :=
    { method := t.method
      path := t.path
      version := t.version ++ t.eol.crs
      method_token :=
        ⟨fun h => (t.method_plain space h).2 rfl, fun h => (t.method_plain lf h).1.2.1 rfl⟩
      path_token :=
        ⟨fun h => (t.path_plain space h).2 rfl, fun h => (t.path_plain lf h).1.2.1 rfl⟩
      version_line := lf_not_mem_line t.eol t.version_plain }
  lines := rawLines t.headers
  blank := t.blank.crs
  header_lines := by
    intro line hline
    obtain ⟨header, hheader, rfl⟩ := List.mem_map.mp hline
    obtain ⟨hne, hplain⟩ := t.header_plain header hheader
    exact ⟨lf_not_mem_line header.2 hplain, not_blank_line header.2 hne hplain⟩
  blank_line := isBlank_crs t.blank

theorem RequestText.headText_bytes (t : RequestText) : t.headText.bytes = t.bytes := by
  simp [headText, HeadText.bytes, HeadText.block, RequestLine.bytes, RequestLine.line, bytes,
    joinLines, rawLines, headerBytes, Eol.bytes, List.flatMap_map]

theorem RequestText.readHead_bytes (t : RequestText) (trailing : Bytes) :
    readHead (t.bytes ++ trailing) =
      { method := some t.method
        path := some t.path
        version := some (t.version ++ t.eol.crs)
        lines := rawLines t.headers
        stop := t.blankLf } := by
  have hnul := t.nul_not_mem
  have hlines : t.headText.lines ≠ [] := by
    simp [headText, rawLines, t.headers_nonempty]
  rw [← t.headText_bytes] at hnul
  have hread := t.headText.readHead_bytes trailing hnul hlines
  rw [t.headText_bytes] at hread
  exact hread

theorem length_le_headerBytes {header : Bytes × Eol} {headers : List (Bytes × Eol)}
    (h : header ∈ headers) : header.1.length ≤ (RequestText.headerBytes headers).length := by
  obtain ⟨before, after, rfl⟩ := List.append_of_mem h
  simp [RequestText.headerBytes]
  omega

/-- Every well-formed request is decoded exactly, whatever bytes follow it. -/
theorem parse_wellFormed (t : RequestText) (trailing : Bytes) (block : Nat)
    (hsize : (t.bytes ++ trailing).length < 2 ^ 31) :
    ∃ r, parse (HttpRequest.new.append (t.bytes ++ trailing) block) =
        some (⟨.finished, t.blankLf⟩, r) ∧
      (r.method = .get ↔ t.method = ascii "GET") ∧
      (r.httpVer = .http11 ↔ t.version = ascii "HTTP/1.1") ∧
      (r.httpVer = .http10 ↔ t.version = ascii "HTTP/1.0") ∧
      (r.httpVer = .invalidVersion ↔
        t.version ≠ ascii "HTTP/1.1" ∧ t.version ≠ ascii "HTTP/1.0") ∧
      r.resourcePath = .ok t.path ∧
      r.headerStrings = t.headers.map (fun header => .ok header.1) := by
  have hne : t.bytes ++ trailing ≠ [] := by simp [RequestText.bytes]
  have hhead := t.readHead_bytes trailing
  have hparse := parse_readHead block hne
  have hlengths : t.method.length + t.path.length + t.version.length +
      (RequestText.headerBytes t.headers).length < 2 ^ 31 := by
    simp [RequestText.bytes] at hsize
    omega
  have hversion : counted (t.version ++ t.eol.crs) < 2 ^ 31 := by
    rw [counted_line t.eol t.version_plain]
    omega
  have hget : (readHead (t.bytes ++ trailing)).IsGet ↔ t.method = ascii "GET" := by
    have htoken := tokenIs_of_lt (ascii "GET") (le_refl t.method.length) (by omega)
    rw [List.take_length] at htoken
    simp only [Head.IsGet, hhead, Option.some.injEq, exists_eq_left', htoken]
  have hversionIs (literal : Bytes) :
      (readHead (t.bytes ++ trailing)).IsVersion literal ↔ t.version = literal := by
    have htoken := tokenIs_of_lt literal (counted_le _) hversion
    rw [take_counted_line t.eol t.version_plain] at htoken
    simp only [Head.IsVersion, hhead, Option.some.injEq, exists_eq_left', htoken]
  refine ⟨_, by rw [hparse, hhead], ?_, ?_, ?_, ?_, ?_, ?_⟩
  · rw [← hhead, stored_method_get, hget]
  · rw [← hhead, stored_http11, hversionIs]
  · rw [← hhead, stored_http10, hversionIs]
  · rw [← hhead, stored_invalidVersion, hversionIs, hversionIs]
  · rw [← hhead, stored_resourcePath, hhead]
    have hstring := partString_of_lt t.path (by omega : t.path.length < 2 ^ 31)
    rw [List.take_length] at hstring
    exact hstring
  · rw [← hhead, stored_headerStrings, hhead]
    simp only [RequestText.rawLines, List.map_map]
    apply List.map_congr_left
    intro header hheader
    have hplain := (t.header_plain header hheader).2
    have hcounted : counted (header.1 ++ header.2.crs) < 2 ^ 31 := by
      have hle := length_le_headerBytes hheader
      rw [counted_line header.2 hplain]
      omega
    rw [Function.comp_apply, partString_of_lt _ hcounted, take_counted_line header.2 hplain]

theorem get_plain : ∀ c ∈ ascii "GET", Plain c ∧ c ≠ space := by decide +kernel

theorem http11_plain : ∀ c ∈ ascii "HTTP/1.1", Plain c := by decide +kernel

/-- `GET /a HTTP/1.1`, with line ends of both kinds. -/
def mixedRequest : RequestText where
  method := ascii "GET"
  path := ascii "/a"
  version := ascii "HTTP/1.1"
  eol := .crlf
  headers := [(ascii "Host: h", .lf), (ascii "A: b", .crlf)]
  blank := .crlf
  method_plain := get_plain
  path_plain := by decide +kernel
  version_plain := http11_plain
  headers_nonempty := by decide
  header_plain := by decide +kernel

theorem parse_mixedRequest :
    ∃ r, parse (HttpRequest.new.append (mixedRequest.bytes ++ ascii "GET /b") 0) =
        some (⟨.finished, 32⟩, r) ∧
      r.method = .get ∧ r.httpVer = .http11 ∧ r.resourcePath = .ok (ascii "/a") ∧
      r.headerStrings = [.ok (ascii "Host: h"), .ok (ascii "A: b")] := by
  obtain ⟨r, hparse, hget, h11, _, _, hpath, hheaders⟩ :=
    parse_wellFormed mixedRequest (ascii "GET /b") 0 (by decide)
  exact ⟨r, hparse, hget.mpr rfl, h11.mpr rfl, hpath, hheaders⟩

end ModServer.Http
