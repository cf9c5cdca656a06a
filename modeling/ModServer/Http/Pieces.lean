import ModServer.Http.Head

/-!
Reading the pieces that `Parse` stores. A piece in the storage it was cut from
reads as the counted bytes of its part, as long as the count survives the
conversion to `int`.
-/

namespace ModServer.Http

open Library

/-- What `ToString` makes of a part of which `count` bytes were counted. -/
def partString (count : Nat) (part : Bytes) : Except ReadError Bytes :=
  if intOfSize count = 0 then .ok []
  else if intOfSize count < 0 then .error .lengthError
  else .ok (part.take (intOfSize count).toNat)

theorem partString_of_lt {count : Nat} (part : Bytes) (h : count < 2 ^ 31) :
    partString count part = .ok (part.take count) := by
  unfold partString
  rw [intOfSize_of_lt h]
  rcases eq_or_ne count 0 with hzero | hzero
  · simp [hzero]
  · rw [if_neg (by omega), if_neg (by omega), Int.toNat_natCast]

/-- A part of the data reads as empty only when its length is 0 as an `int`. -/
theorem partString_eq_nil {count : Nat} {part : Bytes} (hcount : count ≤ part.length) :
    partString count part = .ok [] ↔ intOfSize count = 0 := by
  unfold partString
  rcases eq_or_ne (intOfSize count) 0 with hzero | hzero
  · simp [hzero]
  · have hle := intOfSize_le count
    rw [if_neg hzero]
    split
    · simp [hzero]
    · have hpart : part ≠ [] := by
        rintro rfl
        simp at hcount
        omega
      have htake : (intOfSize count).toNat ≠ 0 := by omega
      simp [hzero, hpart, List.take_eq_nil_iff, htake]

theorem partString_take {count : Nat} {part read : Bytes} (h : partString count part = .ok read) :
    read = part.take (intOfSize count).toNat := by
  unfold partString at h
  split at h
  · rename_i hzero
    cases h
    simp [hzero]
  · split at h
    · cases h
    · exact (Except.ok.inj h).symm

/-- A part is read back whole when its length fits an `int`. -/
theorem partString_self (part : Bytes) :
    partString part.length part = .ok part ↔ part.length < 2 ^ 31 := by
  constructor
  · intro h
    have hlength := congrArg List.length (partString_take h)
    have hlt := intOfSize_lt part.length
    rw [List.length_take] at hlength
    omega
  · intro h
    rw [partString_of_lt part h, List.take_length]

theorem not_mem_partString (count : Nat) (part : Bytes) (c : UInt8) :
    (∀ read, partString count part = .ok read → c ∉ read) ↔
      c ∉ part.take (intOfSize count).toNat := by
  constructor
  · intro h hmem
    have hpos : 0 < (intOfSize count).toNat := by
      apply Nat.pos_of_ne_zero
      intro hzero
      simp [hzero] at hmem
    apply h _ _ hmem
    rw [partString, if_neg (by omega), if_neg (by omega)]
  · intro h read hread
    rwa [partString_take hread]

theorem intOfSize_toNat_le (n : Nat) : (intOfSize n).toNat ≤ n := by
  have hle := intOfSize_le n
  omega

theorem chars_pieceOf (block : Nat) (before part after : Bytes) (length : Bytes → Nat)
    (hlength : length part ≤ part.length) :
    (pieceOf block before.length length (some part)).chars ⟨block, before ++ (part ++ after)⟩ =
      part.take (intOfSize (length part)).toNat := by
  have hle := intOfSize_toNat_le (length part)
  simp only [StringPiece.chars, pieceOf, List.drop_left]
  rw [List.take_append_of_le_length (by omega)]

theorem toString_pieceOf (block : Nat) (before part after : Bytes) (length : Bytes → Nat)
    (hlength : length part ≤ part.length) :
    (pieceOf block before.length length (some part)).toString
        ⟨block, before ++ (part ++ after)⟩ =
      partString (length part) part := by
  have hchars := chars_pieceOf block before part after length hlength
  have hle := intOfSize_toNat_le (length part)
  have hrange : before.length + (intOfSize (length part)).toNat ≤
      (before ++ (part ++ after)).length := by
    simp
    omega
  unfold StringPiece.toString partString
  simp only [pieceOf] at hchars ⊢
  simp only [hchars, hrange, and_self, if_true]

/-- What `operator==` compares: the counted length as an `int`, then the bytes. -/
def TokenIs (count : Nat) (part literal : Bytes) : Prop :=
  intOfSize count = literal.length ∧ part.take literal.length = literal

theorem tokenIs_of_lt {count : Nat} {part : Bytes} (literal : Bytes)
    (hcount : count ≤ part.length) (hsmall : count < 2 ^ 31) :
    TokenIs count part literal ↔ part.take count = literal := by
  unfold TokenIs
  rw [intOfSize_of_lt hsmall, Nat.cast_inj]
  constructor
  · rintro ⟨hlength, htake⟩
    rw [hlength]
    exact htake
  · intro h
    have hlength : count = literal.length := by
      rw [← h, List.length_take, Nat.min_eq_left hcount]
    exact ⟨hlength, by rw [← hlength, h]⟩

theorem equals_pieceOf (block : Nat) (before part after literal : Bytes)
    (length : Bytes → Nat) (hlength : length part ≤ part.length) :
    (pieceOf block before.length length (some part)).equals
        ⟨block, before ++ (part ++ after)⟩ literal = true ↔
      TokenIs (length part) part literal := by
  have hchars := chars_pieceOf block before part after length hlength
  have hpiece : (pieceOf block before.length length (some part)).length =
      intOfSize (length part) := by simp only [pieceOf]
  unfold StringPiece.equals TokenIs
  rw [hchars, hpiece, Bool.and_eq_true, decide_eq_true_eq, beq_iff_eq]
  refine and_congr_right (fun h => ?_)
  rw [h, Int.toNat_natCast]

theorem methodFromStringPiece_get (buf : StringBuf) (piece : StringPiece) :
    methodFromStringPiece buf piece = .get ↔ piece.equals buf (ascii "GET") = true := by
  unfold methodFromStringPiece
  split <;> simp_all

theorem httpVerFromStringPiece_http11 (buf : StringBuf) (piece : StringPiece) :
    httpVerFromStringPiece buf piece = .http11 ↔
      piece.equals buf (ascii "HTTP/1.1") = true := by
  unfold httpVerFromStringPiece
  split
  · simp_all
  · split <;> simp_all

theorem equals_null {buf : StringBuf} {literal : Bytes} (h : literal ≠ []) :
    StringPiece.null.equals buf literal = false := by
  have hlength : ¬ (0 : Int) = literal.length := by
    have hpos := List.length_pos_of_ne_nil h
    omega
  simp [StringPiece.equals, StringPiece.null, hlength]

theorem methodFromStringPiece_null (buf : StringBuf) :
    methodFromStringPiece buf .null = .invalidMethod := by
  simp [methodFromStringPiece, equals_null, ascii]

theorem httpVerFromStringPiece_null (buf : StringBuf) :
    httpVerFromStringPiece buf .null = .invalidVersion := by
  simp [httpVerFromStringPiece, equals_null, ascii]

theorem equals_unique {buf : StringBuf} {piece : StringPiece} {left right : Bytes}
    (hleft : piece.equals buf left = true) (hright : piece.equals buf right = true) :
    left = right := by
  simp only [StringPiece.equals, Bool.and_eq_true, beq_iff_eq] at hleft hright
  rw [← hleft.2, hright.2]

theorem httpVerFromStringPiece_http10 (buf : StringBuf) (piece : StringPiece) :
    httpVerFromStringPiece buf piece = .http10 ↔
      piece.equals buf (ascii "HTTP/1.0") = true := by
  have hdistinct : ascii "HTTP/1.1" ≠ ascii "HTTP/1.0" := by decide
  unfold httpVerFromStringPiece
  split
  · rename_i h11
    constructor
    · intro h
      cases h
    · intro h10
      exact absurd (equals_unique h11 h10) hdistinct
  · split <;> simp_all

theorem httpVerFromStringPiece_invalid (buf : StringBuf) (piece : StringPiece) :
    httpVerFromStringPiece buf piece = .invalidVersion ↔
      ¬ piece.equals buf (ascii "HTTP/1.1") = true ∧
      ¬ piece.equals buf (ascii "HTTP/1.0") = true := by
  rw [← httpVerFromStringPiece_http11, ← httpVerFromStringPiece_http10]
  cases httpVerFromStringPiece buf piece <;> simp

theorem counted_le (line : Bytes) : counted line ≤ line.length :=
  List.countP_le_length

/-- The bytes of lines, each with its LF. -/
def joinLines (lines : List Bytes) : Bytes :=
  lines.flatMap (fun line => line ++ [lf])

theorem joinLines_append (lines more : List Bytes) :
    joinLines (lines ++ more) = joinLines lines ++ joinLines more :=
  List.flatMap_append

theorem joinLines_cons (line : Bytes) (lines : List Bytes) :
    joinLines (line :: lines) = line ++ [lf] ++ joinLines lines := by
  simp [joinLines]

theorem length_le_joinLines {line : Bytes} {lines : List Bytes} (h : line ∈ lines) :
    line.length ≤ (joinLines lines).length := by
  induction lines with
  | nil => cases h
  | cons first lines ih =>
      rw [joinLines_cons]
      rcases List.mem_cons.mp h with rfl | hmem
      · simp
      · have hle := ih hmem
        simp
        omega

/-- Every header piece reads as the counted bytes of its line. -/
theorem toString_linePieces (block : Nat) (before after : Bytes) (lines : List Bytes) :
    (linePieces block before.length lines).map
        (·.toString ⟨block, before ++ (joinLines lines ++ after)⟩) =
      lines.map (fun line => partString (counted line) line) := by
  induction lines generalizing before with
  | nil => rfl
  | cons line lines ih =>
      have hdata : before ++ (joinLines (line :: lines) ++ after) =
          (before ++ (line ++ [lf])) ++ (joinLines lines ++ after) := by
        simp [joinLines]
      have hfirst := toString_pieceOf block before line ([lf] ++ (joinLines lines ++ after))
        counted (counted_le line)
      have hrest := ih (before ++ (line ++ [lf]))
      have hoffset : (before ++ (line ++ [lf])).length = before.length + line.length + 1 := by
        simp
        omega
      rw [hoffset] at hrest
      simp only [linePieces, List.map_cons]
      rw [hdata, hrest]
      rw [List.append_assoc, List.append_assoc, hfirst]

theorem headerLines_prefix (rest : Bytes) :
    ∃ after, rest = joinLines (headerLines rest) ++ after := by
  unfold headerLines
  cases hcut : cutAt [lf] rest with
  | none => exact ⟨rest, rfl⟩
  | some cut =>
      obtain ⟨first, others⟩ := cut
      obtain ⟨last, hlast⟩ := eq_flatMap_terminated lf others
      obtain ⟨more, hmore⟩ := List.takeWhile_prefix (l := terminated lf others)
        (fun line => !isBlank line)
      refine ⟨joinLines more ++ last, ?_⟩
      have hothers : others = joinLines (linesToBlank (terminated lf others)) ++
          (joinLines more ++ last) := by
        rw [← List.append_assoc, ← joinLines_append, linesToBlank, hmore]
        exact hlast
      calc
        rest = first ++ [lf] ++ others := eq_of_cutAt hcut
        _ = first ++ [lf] ++ (joinLines (linesToBlank (terminated lf others)) ++
              (joinLines more ++ last)) := congrArg _ hothers
        _ = joinLines (first :: linesToBlank (terminated lf others)) ++
              (joinLines more ++ last) := by
          rw [joinLines_cons]
          simp

/-- `part` stands in `data` at `offset`. -/
def PartAt (data part : Bytes) (offset : Nat) : Prop :=
  ∃ before after, data = before ++ (part ++ after) ∧ before.length = offset

theorem PartAt.append {data part : Bytes} {offset : Nat} (h : PartAt data part offset)
    (more : Bytes) : PartAt (data ++ more) part offset := by
  obtain ⟨before, after, rfl, hlength⟩ := h
  exact ⟨before, after ++ more, by simp, hlength⟩

theorem PartAt.length_le {data part : Bytes} {offset : Nat} (h : PartAt data part offset) :
    part.length ≤ data.length := by
  obtain ⟨before, after, rfl, _⟩ := h
  simp
  omega

/-- The parts of the head are ranges of the data, each at its own offset. -/
structure Head.Ranges (data : Bytes) (head : Head) : Prop where
  method : ∀ part, head.method = some part → PartAt data part 0
  path : ∀ part, head.path = some part → PartAt data part head.pathStart
  version : ∀ part, head.version = some part → PartAt data part head.versionStart
  lines : head.lines ≠ [] → PartAt data (joinLines head.lines) head.linesStart

theorem HeadShape.ranges {text : Bytes} {head : Head} (h : HeadShape text head) :
    head.Ranges text := by
  cases h with
  | inMethod => constructor <;> simp
  | inPath method rest htext =>
      constructor <;> simp only [reduceCtorEq, Option.some.injEq, ne_eq, not_true_eq_false,
        false_implies, forall_const]
      rintro part rfl
      exact ⟨[], space :: rest, htext, rfl⟩
  | inVersion method path rest htext =>
      constructor <;> simp only [reduceCtorEq, Option.some.injEq, ne_eq, not_true_eq_false,
        false_implies, forall_const]
      · rintro part rfl
        exact ⟨[], space :: (path ++ space :: rest), htext, rfl⟩
      · rintro part rfl
        exact ⟨method ++ [space], space :: rest, by simp [htext], by simp [Head.pathStart]⟩
  | inLines method path version rest htext =>
      obtain ⟨after, hrest⟩ := headerLines_prefix rest
      constructor <;> simp only [Option.some.injEq]
      · rintro part rfl
        exact ⟨[], space :: (path ++ space :: (version ++ lf :: rest)), htext, rfl⟩
      · rintro part rfl
        exact ⟨method ++ [space], space :: (version ++ lf :: rest), by simp [htext],
          by simp [Head.pathStart]⟩
      · rintro part rfl
        exact ⟨method ++ [space] ++ path ++ [space], lf :: rest, by simp [htext],
          by simp [Head.versionStart, Head.pathStart]; omega⟩
      · intro _
        refine ⟨method ++ [space] ++ path ++ [space] ++ version ++ [lf], after, ?_, ?_⟩
        · rw [← hrest]
          simp [htext]
        · simp [Head.linesStart, Head.versionStart, Head.pathStart]
          omega

theorem readHead_ranges (data : Bytes) : (readHead data).Ranges data := by
  have htext := (readHead_shape data).ranges
  have hdata : data.takeWhile (· ≠ nul) ++ data.dropWhile (· ≠ nul) = data :=
    List.takeWhile_append_dropWhile
  constructor
  · intro part h
    simpa [hdata] using (htext.method part h).append (data.dropWhile (· ≠ nul))
  · intro part h
    simpa [hdata] using (htext.path part h).append (data.dropWhile (· ≠ nul))
  · intro part h
    simpa [hdata] using (htext.version part h).append (data.dropWhile (· ≠ nul))
  · intro h
    simpa [hdata] using (htext.lines h).append (data.dropWhile (· ≠ nul))

def Head.IsGet (head : Head) : Prop :=
  ∃ method, head.method = some method ∧ TokenIs method.length method (ascii "GET")

def Head.IsVersion (head : Head) (literal : Bytes) : Prop :=
  ∃ version, head.version = some version ∧ TokenIs (counted version) version literal

/-! What the accessors return after `Parse` has read `data`. -/

section Stored

variable (block : Nat) (data : Bytes)

theorem stored_method_get :
    ((readHead data).stored block data).method = .get ↔ (readHead data).IsGet := by
  have hstored : ((readHead data).stored block data).method = .get ↔
      (pieceOf block 0 List.length (readHead data).method).equals ⟨block, data⟩
        (ascii "GET") = true := methodFromStringPiece_get _ _
  rw [hstored]
  unfold Head.IsGet
  cases h : (readHead data).method with
  | none => simp [pieceOf, StringPiece.null, StringPiece.equals, StringPiece.chars, ascii]
  | some method =>
      obtain ⟨before, after, hdata, hlength⟩ := (readHead_ranges data).method method h
      have hequals := equals_pieceOf block before method after (ascii "GET") List.length le_rfl
      rw [hlength, ← hdata] at hequals
      simpa using hequals

/-- The version piece compared with a literal. -/
theorem stored_version_equals {literal : Bytes} (hliteral : literal ≠ []) :
    (pieceOf block (readHead data).versionStart counted (readHead data).version).equals
        ⟨block, data⟩ literal = true ↔
      (readHead data).IsVersion literal := by
  unfold Head.IsVersion
  cases h : (readHead data).version with
  | none => simp [pieceOf, equals_null hliteral]
  | some version =>
      obtain ⟨before, after, hdata, hlength⟩ := (readHead_ranges data).version version h
      have hequals := equals_pieceOf block before version after literal counted
        (counted_le version)
      rw [hlength, ← hdata] at hequals
      simpa using hequals

theorem stored_http11 :
    ((readHead data).stored block data).httpVer = .http11 ↔
      (readHead data).IsVersion (ascii "HTTP/1.1") := by
  rw [← stored_version_equals block data (by decide)]
  exact httpVerFromStringPiece_http11 _ _

theorem stored_http10 :
    ((readHead data).stored block data).httpVer = .http10 ↔
      (readHead data).IsVersion (ascii "HTTP/1.0") := by
  rw [← stored_version_equals block data (by decide)]
  exact httpVerFromStringPiece_http10 _ _

theorem stored_invalidVersion :
    ((readHead data).stored block data).httpVer = .invalidVersion ↔
      ¬ (readHead data).IsVersion (ascii "HTTP/1.1") ∧
      ¬ (readHead data).IsVersion (ascii "HTTP/1.0") := by
  rw [← stored_version_equals block data (by decide),
    ← stored_version_equals block data (by decide)]
  exact httpVerFromStringPiece_invalid _ _

theorem stored_resourcePath :
    ((readHead data).stored block data).resourcePath =
      match (readHead data).path with
      | none => .ok []
      | some path => partString path.length path := by
  cases h : (readHead data).path with
  | none => simp [HttpRequest.resourcePath, Head.stored, h, pieceOf, StringPiece.toString,
      StringPiece.null]
  | some path =>
      obtain ⟨before, after, hdata, hlength⟩ := (readHead_ranges data).path path h
      have hstring := toString_pieceOf block before path after List.length le_rfl
      rw [hlength, ← hdata] at hstring
      simpa only [HttpRequest.resourcePath, Head.stored, h] using hstring

theorem stored_headerStrings :
    ((readHead data).stored block data).headerStrings =
      (readHead data).lines.map (fun line => partString (counted line) line) := by
  unfold HttpRequest.headerStrings Head.stored
  rcases eq_or_ne (readHead data).lines [] with hlines | hlines
  · simp [hlines, linePieces]
  · obtain ⟨before, after, hdata, hlength⟩ := (readHead_ranges data).lines hlines
    have hstrings := toString_linePieces block before after (readHead data).lines
    rw [hlength, ← hdata] at hstrings
    exact hstrings

end Stored

theorem RequestMethod.ext_get {left right : RequestMethod} (h : left = .get ↔ right = .get) :
    left = right := by
  cases left <;> cases right <;> simp_all

theorem HttpVersion.ext_http {left right : HttpVersion} (h11 : left = .http11 ↔ right = .http11)
    (h10 : left = .http10 ↔ right = .http10) : left = right := by
  cases left <;> cases right <;> simp_all

/-- What is read shows neither the bytes behind the head nor the storage. -/
theorem stored_congr {data other : Bytes} (block last : Nat)
    (h : readHead data = readHead other) :
    ((readHead data).stored block data).method = ((readHead other).stored last other).method ∧
    ((readHead data).stored block data).httpVer =
      ((readHead other).stored last other).httpVer ∧
    ((readHead data).stored block data).resourcePath =
      ((readHead other).stored last other).resourcePath ∧
    ((readHead data).stored block data).headerStrings =
      ((readHead other).stored last other).headerStrings := by
  refine ⟨?_, ?_, ?_, ?_⟩
  · apply RequestMethod.ext_get
    rw [stored_method_get, stored_method_get, h]
  · apply HttpVersion.ext_http
    · rw [stored_http11, stored_http11, h]
    · rw [stored_http10, stored_http10, h]
  · rw [stored_resourcePath, stored_resourcePath, h]
  · rw [stored_headerStrings, stored_headerStrings, h]

/-- What a `Parse` of fresh data reports. Without any data it returns `ERROR`
at once. -/
theorem parse_reports (block : Nat) (data : Bytes) :
    ∃ r, parse (HttpRequest.new.append data block) =
        some (⟨if data = [] then .error else .finished, (readHead data).stop⟩, r) ∧
      r.method = ((readHead data).stored block data).method ∧
      r.httpVer = ((readHead data).stored block data).httpVer ∧
      r.resourcePath = ((readHead data).stored block data).resourcePath ∧
      r.headers = ((readHead data).stored block data).headers ∧
      r.headerStrings = ((readHead data).stored block data).headerStrings := by
  rcases eq_or_ne data [] with rfl | hdata
  · have hmethod := methodFromStringPiece_null ⟨block, []⟩
    have hversion := httpVerFromStringPiece_null ⟨block, []⟩
    exact ⟨HttpRequest.new.append [] block, rfl, hmethod.symm, hversion.symm, rfl, rfl, rfl⟩
  · rw [if_neg hdata]
    exact ⟨_, parse_readHead block hdata, rfl, rfl, rfl, rfl, rfl⟩

end ModServer.Http
