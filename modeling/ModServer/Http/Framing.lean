import ModServer.Http.Handler
import ModServer.Http.ResponseHead

/-!
The responses of one keep-alive connection as its client reads them: a status
line, header lines up to the blank one, as many bytes as `Content-length`
says, and then the next response.

`SetContent` writes two more line ends behind the content, which the length
does not count. A client that has read the content finds them in place of the
next status line.
-/

namespace ModServer.Http

open Library

structure Message where
  statusLine : Bytes
  headers : List Bytes
  content : Bytes
  deriving DecidableEq, Repr

def isDigit (c : UInt8) : Bool := 48 ≤ c && c ≤ 57

/-- The number that decimal digits stand for. -/
def parseDecimal (digits : Bytes) : Option Nat :=
  if digits ≠ [] ∧ digits.all isDigit = true then
    some (Nat.ofDigitChars 10 (digits.map (fun c => Char.ofNat c.toNat)) 0)
  else none

/-- The value of the first `Content-length` header. -/
def contentLength (headers : List Bytes) : Option Nat :=
  headers.findSome? (fun header =>
    match cutAt (ascii ": ") header with
    | none => none
    | some (name, value) =>
        if name = ascii "Content-length" then parseDecimal value else none)

def readMessage (stream : Bytes) : Option (Message × Bytes) :=
  match cutAt crlf stream with
  | none => none
  | some (statusLine, rest) =>
      match readLines crlf (rest.length + 1) rest with
      | none => none
      | some (headers, body) =>
          match contentLength headers with
          | none => none
          | some n =>
              if n ≤ body.length then some (⟨statusLine, headers, body.take n⟩, body.drop n)
              else none

/-- Messages until the stream is used up. -/
def readMessages : Nat → Bytes → Option (List Message)
  | _, [] => some []
  | 0, _ :: _ => none
  | fuel + 1, c :: stream =>
      match readMessage (c :: stream) with
      | none => none
      | some (message, rest) => (readMessages fuel rest).map (fun more => message :: more)

/-- The stream is nothing but messages with these contents, each of which
starts with a status line. A message takes more than one byte. -/
def Decodes (contents : List Bytes) (stream : Bytes) : Prop :=
  ∃ messages, readMessages stream.length stream = some messages ∧
    messages.map Message.content = contents ∧
    ∀ message ∈ messages, (ascii "HTTP/1.1 ").isPrefixOf message.statusLine = true

/-- The responses that `DidReceive` composes for pages with these contents. -/
def responses (contents : List Bytes) : Bytes :=
  contents.flatMap responseTo

def digitByte (c : Char) : UInt8 := c.toNat.toUInt8

theorem digitByte_isDigit {c : Char} (h : c.isDigit = true) :
    isDigit (digitByte c) = true ∧ Char.ofNat (digitByte c).toNat = c := by
  have hrange : 48 ≤ c.toNat ∧ c.toNat ≤ 57 := by
    simpa [Char.isDigit, UInt32.le_iff_toNat_le] using h
  have hbyte : (digitByte c).toNat = c.toNat := by
    simp [digitByte]
    omega
  constructor
  · simp only [isDigit, Bool.and_eq_true, decide_eq_true_eq, UInt8.le_iff_toNat_le, hbyte]
    exact hrange
  · rw [hbyte, Char.ofNat_toNat]

theorem decimal_ne_nil (n : Nat) : decimal n ≠ [] := by
  simp [decimal, Nat.toDigits_ne_nil]

theorem isDigit_of_mem_decimal {n : Nat} {c : UInt8} (h : c ∈ decimal n) : isDigit c = true := by
  obtain ⟨digit, hdigit, rfl⟩ := List.mem_map.mp h
  exact (digitByte_isDigit (Nat.isDigit_of_mem_toDigits (by decide) (by decide) hdigit)).1

/-- Reading back what `std::to_string` wrote. -/
theorem parseDecimal_decimal (n : Nat) : parseDecimal (decimal n) = some n := by
  have hdigits : (decimal n).all isDigit = true :=
    List.all_eq_true.mpr (fun c hc => isDigit_of_mem_decimal hc)
  have hchars : (decimal n).map (fun c => Char.ofNat c.toNat) = Nat.toDigits 10 n := by
    rw [decimal, List.map_map]
    refine (List.map_congr_left ?_).trans (List.map_id _)
    intro c hc
    exact (digitByte_isDigit (Nat.isDigit_of_mem_toDigits (by decide) (by decide) hc)).2
  rw [parseDecimal, if_pos ⟨decimal_ne_nil n, hdigits⟩, hchars]
  exact congrArg some (Nat.ofDigitChars_toDigits (by decide) (by decide))

/-- The header lines of a response with `length` bytes of content. -/
def headerBlock (length : Nat) : List Bytes :=
  [ascii "Content-length: " ++ decimal length, ascii "Connection: keep-alive",
    ascii "Server: PD Mod Server HTTP"]

/-- The headers that these lines were written for. -/
def pageHeaders (length : Nat) : List Header :=
  [⟨ascii "Content-length", decimal length⟩, ⟨ascii "Connection", ascii "keep-alive"⟩,
    ⟨ascii "Server", ascii "PD Mod Server HTTP"⟩]

theorem headerBlock_eq (length : Nat) :
    headerBlock length = (pageHeaders length).map Header.toString := by
  have hlength : ascii "Content-length" ++ ascii ": " = ascii "Content-length: " := by decide
  have hconnection : ascii "Connection" ++ ascii ": " ++ ascii "keep-alive" =
      ascii "Connection: keep-alive" := by decide
  have hserver : ascii "Server" ++ ascii ": " ++ ascii "PD Mod Server HTTP" =
      ascii "Server: PD Mod Server HTTP" := by decide
  unfold headerBlock pageHeaders
  simp only [List.map_cons, List.map_nil, Header.toString, hlength, hconnection, hserver]

theorem pageHeaders_plain (length : Nat) : ∀ header ∈ pageHeaders length, header.Plain := by
  have hlength : cr ∉ decimal length :=
    fun hmem => absurd (isDigit_of_mem_decimal hmem) (by decide)
  have hname : colon ∉ ascii "Content-length" ∧ cr ∉ ascii "Content-length" := by decide
  simp only [pageHeaders, List.forall_mem_cons]
  exact ⟨⟨hname, hlength⟩, ⟨by decide, by decide⟩, ⟨by decide, by decide⟩, by simp⟩

/-- A response as lines, the content, and the two line ends behind it. -/
theorem responseTo_eq (page : Bytes) :
    responseTo page = ascii "HTTP/1.1 200 OK" ++ crlf ++
      ((headerBlock page.length).flatMap (fun line => line ++ crlf) ++ crlf ++
        (page ++ (crlf ++ crlf))) := by
  rw [headerBlock_eq]
  unfold responseTo HttpResponse.compose HttpResponse.setContent HttpResponse.addHeader
    HttpResponse.setStatus getStatusString pageHeaders
  simp only [List.map_cons, List.map_nil, List.flatMap_cons, List.flatMap_nil, List.append_nil,
    List.append_assoc]

theorem headerBlock_plain (length : Nat) :
    ∀ line ∈ headerBlock length, line ≠ [] ∧ cr ∉ line := by
  rw [headerBlock_eq]
  exact Header.Plain.lines (pageHeaders_plain length)

theorem contentLength_headerBlock (length : Nat) :
    contentLength (headerBlock length) = some length := by
  have hplain := pageHeaders_plain length ⟨ascii "Content-length", decimal length⟩
    List.mem_cons_self
  rw [headerBlock_eq]
  simp only [contentLength, pageHeaders, List.map_cons, List.findSome?_cons,
    hplain.cutAt_toString, if_true, parseDecimal_decimal]

/-- The client takes exactly the content, and the two line ends stay. -/
theorem readMessage_responseTo (page rest : Bytes) :
    readMessage (responseTo page ++ rest) =
      some (⟨ascii "HTTP/1.1 200 OK", headerBlock page.length, page⟩,
        crlf ++ crlf ++ rest) := by
  have hstatus : cr ∉ ascii "HTTP/1.1 200 OK" := by decide
  have hcut (after : Bytes) : cutAt crlf (ascii "HTTP/1.1 200 OK" ++ crlf ++ after) =
      some (ascii "HTTP/1.1 200 OK", after) := cutAt_append after hstatus
  have hlines (body : Bytes) : readLines crlf
      (((headerBlock page.length).flatMap (fun line => line ++ crlf) ++ crlf ++ body).length + 1)
      ((headerBlock page.length).flatMap (fun line => line ++ crlf) ++ crlf ++ body) =
        some (headerBlock page.length, body) := by
    apply readLines_append (headerBlock page.length) body _ (headerBlock_plain page.length)
    simp [headerBlock, crlf]
    omega
  rw [responseTo_eq, List.append_assoc, List.append_assoc _ _ rest, List.append_assoc page]
  unfold readMessage
  rw [hcut]
  simp only [hlines, contentLength_headerBlock, List.take_left, List.drop_left]
  simp

/-- The line ends behind the content are no message. -/
theorem readMessage_trailer (rest : Bytes) : readMessage (crlf ++ crlf ++ rest) = none := by
  have hcut (after : Bytes) : cutAt crlf (crlf ++ after) = some ([], after) :=
    cutAt_prefix crlf after
  have hlines : readLines crlf ((crlf ++ rest).length + 1) (crlf ++ rest) = some ([], rest) := by
    rw [readLines, hcut]
  unfold readMessage
  rw [List.append_assoc, hcut]
  simp only [hlines, contentLength, List.findSome?_nil]

theorem readMessages_none {stream : Bytes} (fuel : Nat) (hne : stream ≠ [])
    (h : readMessage stream = none) : readMessages fuel stream = none := by
  obtain ⟨c, stream, rfl⟩ := List.exists_cons_of_ne_nil hne
  cases fuel with
  | zero => rfl
  | succ fuel => rw [readMessages, h]

theorem readMessages_some {stream rest : Bytes} {message : Message} (fuel : Nat)
    (hne : stream ≠ []) (h : readMessage stream = some (message, rest)) :
    readMessages (fuel + 1) stream =
      (readMessages fuel rest).map (fun more => message :: more) := by
  obtain ⟨c, stream, rfl⟩ := List.exists_cons_of_ne_nil hne
  rw [readMessages, h]

/-- The trailer of the first response stops the client. -/
theorem readMessages_responses (page : Bytes) (contents : List Bytes) (fuel : Nat) :
    readMessages fuel (responses (page :: contents)) = none := by
  have hstream : responses (page :: contents) = responseTo page ++ responses contents :=
    List.flatMap_cons
  have hne : responseTo page ++ responses contents ≠ [] :=
    List.append_ne_nil_of_left_ne_nil (responseTo_ne_nil page) _
  have htrailer : crlf ++ crlf ++ responses contents ≠ [] :=
    List.append_ne_nil_of_left_ne_nil (by decide) _
  rw [hstream]
  cases fuel with
  | zero =>
      obtain ⟨c, stream, hcons⟩ := List.exists_cons_of_ne_nil hne
      rw [hcons]
      rfl
  | succ fuel =>
      rw [readMessages_some fuel hne (readMessage_responseTo page (responses contents)),
        readMessages_none fuel htrailer (readMessage_trailer (responses contents)),
        Option.map_none]

theorem decodes_responses_iff (contents : List Bytes) :
    Decodes contents (responses contents) ↔ contents = [] := by
  constructor
  · rintro ⟨messages, hread, -⟩
    cases contents with
    | nil => rfl
    | cons page contents =>
        rw [readMessages_responses] at hread
        cases hread
  · rintro rfl
    exact ⟨[], rfl, rfl, by simp⟩

/-- One page that holds two bytes. -/
theorem not_decodes_one : ¬ Decodes [ascii "hi"] (responses [ascii "hi"]) := by
  rintro ⟨messages, hread, -⟩
  have hnone : readMessages (responses [ascii "hi"]).length (responses [ascii "hi"]) = none := by
    decide +kernel
  rw [hnone] at hread
  cases hread

end ModServer.Http
