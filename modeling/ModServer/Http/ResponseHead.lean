import ModServer.Http.Response
import ModServer.Library.Cut

/-!
The head of a response as its reader takes it apart: everything before the
first blank line, cut into lines, and each header line cut at its first colon
and space. An empty name or value leaves no empty line, so the first blank line
is the one that `SetContent` writes.
-/

namespace ModServer.Http

open Library

/-- `':'`. -/
def colon : UInt8 := 58

/-- A header that can be told from its line. -/
structure Header.Plain (header : Header) : Prop where
  name : colon ∉ header.name ∧ cr ∉ header.name
  value : cr ∉ header.value

/-- `SetStatus`, `AddHeader` for each header and `SetContent`. -/
def HttpResponse.build (r : HttpResponse) (status : HttpResponse.Status) (headers : List Header)
    (content : Bytes) : HttpResponse :=
  (headers.foldl HttpResponse.addHeader (r.setStatus status)).setContent content

theorem cr_not_mem_statusString (status : HttpResponse.Status) : cr ∉ getStatusString status := by
  cases status <;> decide

theorem Header.toString_ne_nil (header : Header) : header.toString ≠ [] := by
  simp [Header.toString, ascii]

theorem Header.Plain.cr_not_mem {header : Header} (h : header.Plain) : cr ∉ header.toString := by
  have hcolon : cr ∉ ascii ": " := by decide
  rw [Header.toString, List.mem_append, List.mem_append, not_or, not_or]
  exact ⟨⟨h.name.2, hcolon⟩, h.value⟩

theorem Header.Plain.cutAt_toString {header : Header} (h : header.Plain) :
    cutAt (ascii ": ") header.toString = some (header.name, header.value) :=
  cutAt_append header.value h.name.1

/-- Header lines behind some text and its line end. -/
theorem foldl_addHeader (text : Bytes) (headers : List Header) :
    (headers.foldl HttpResponse.addHeader ⟨text ++ crlf⟩).data =
      text ++ (headers.map Header.toString).flatMap (fun line => crlf ++ line) ++ crlf := by
  induction headers generalizing text with
  | nil => simp
  | cons header headers ih =>
      have hadded : HttpResponse.addHeader ⟨text ++ crlf⟩ header =
          ⟨(text ++ crlf ++ header.toString) ++ crlf⟩ := rfl
      rw [List.foldl_cons, hadded, ih]
      simp

/-- The status line and a line for each header, as the head holds them. -/
def headOf (status : HttpResponse.Status) (headers : List Header) : Bytes :=
  getStatusString status ++ (headers.map Header.toString).flatMap (fun line => crlf ++ line)

/-- Nothing of what the response held before is left. -/
theorem HttpResponse.build_data (r : HttpResponse) (status : HttpResponse.Status)
    (headers : List Header) (content : Bytes) :
    (r.build status headers content).data =
      headOf status headers ++ (crlf ++ crlf) ++ (content ++ crlf ++ crlf) := by
  have hlines := foldl_addHeader (getStatusString status) headers
  unfold build setContent setStatus headOf
  rw [hlines]
  simp

theorem Header.Plain.lines {headers : List Header} (h : ∀ header ∈ headers, header.Plain) :
    ∀ line ∈ headers.map Header.toString, line ≠ [] ∧ cr ∉ line := by
  intro line hline
  obtain ⟨header, hheader, rfl⟩ := List.mem_map.mp hline
  exact ⟨header.toString_ne_nil, (h header hheader).cr_not_mem⟩

theorem HttpResponse.cutAt_build (r : HttpResponse) (status : HttpResponse.Status)
    {headers : List Header} (content : Bytes) (h : ∀ header ∈ headers, header.Plain) :
    cutAt (crlf ++ crlf) (r.build status headers content).data =
      some (headOf status headers, content ++ crlf ++ crlf) := by
  rw [r.build_data status headers content]
  exact cutAt_double _ (by decide) (cr_not_mem_statusString status) (Header.Plain.lines h)

theorem splitAll_headOf (status : HttpResponse.Status) {headers : List Header}
    (h : ∀ header ∈ headers, header.Plain) :
    splitAll crlf (headOf status headers).length (headOf status headers) =
      getStatusString status :: headers.map Header.toString := by
  refine splitAll_join ?_ (cr_not_mem_statusString status)
    (fun line hline => (Header.Plain.lines h line hline).2)
  rw [headOf, List.length_append]
  exact (length_le_flatMap_append (by decide) _).trans (Nat.le_add_left ..)

theorem build_decodes (r : HttpResponse) (status : HttpResponse.Status) (headers : List Header)
    (content : Bytes) (h : ∀ header ∈ headers, header.Plain) :
    ∃ head rest, cutAt (crlf ++ crlf) (r.build status headers content).data = some (head, rest) ∧
      splitAll crlf head.length head = getStatusString status :: headers.map Header.toString ∧
      (∀ header ∈ headers, cutAt (ascii ": ") header.toString = some (header.name, header.value)) ∧
      content <+: rest := by
  refine ⟨headOf status headers, _, r.cutAt_build status content h, splitAll_headOf status h,
    fun header hheader => (h header hheader).cutAt_toString, ?_⟩
  rw [List.append_assoc]
  exact List.prefix_append content _

/-- An empty value, an empty name, and both. -/
def seamHeaders : List Header := [⟨ascii "A", []⟩, ⟨[], ascii "b: c"⟩, ⟨[], []⟩]

/-- Content that looks like the end of a head, in a response that held something. -/
theorem build_decodes_seams :
    ∃ head rest,
      cutAt (crlf ++ crlf)
          ((⟨ascii "left over"⟩ : HttpResponse).build .notFound seamHeaders (crlf ++ crlf)).data =
        some (head, rest) ∧
      splitAll crlf head.length head =
        getStatusString .notFound :: seamHeaders.map Header.toString ∧
      (∀ header ∈ seamHeaders,
        cutAt (ascii ": ") header.toString = some (header.name, header.value)) ∧
      crlf ++ crlf <+: rest := by
  have hplain : ∀ header ∈ seamHeaders, header.Plain := by
    intro header hheader
    have hparts : ∀ header ∈ seamHeaders,
        (colon ∉ header.name ∧ cr ∉ header.name) ∧ cr ∉ header.value := by decide +kernel
    exact ⟨(hparts header hheader).1, (hparts header hheader).2⟩
  exact build_decodes ⟨ascii "left over"⟩ .notFound seamHeaders (crlf ++ crlf) hplain

end ModServer.Http
