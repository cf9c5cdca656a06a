import ModServer.Http.HeadText
import ModServer.Http.RequestLine

/-!
A recorded header against the line it comes from. `Parse` counts the bytes of a
line without its CRs but starts the piece at the front of the line, so a CR
before the end of the content shifts the end of the piece.
-/

namespace ModServer.Http

open Library

/-- The counted bytes of a line are its content. -/
theorem partString_line (line : Bytes) :
    partString (counted line) line = .ok (stripCrs line) ↔
      cr ∉ stripCrs line ∧ (stripCrs line).length < 2 ^ 31 := by
  constructor
  · intro h
    have hlength := congrArg List.length (partString_take h)
    rw [List.length_take] at hlength
    have hint := intOfSize_toNat_le (counted line)
    have hlt := intOfSize_lt (counted line)
    have hcounted := counted_le (stripCrs line)
    rw [counted_stripCrs] at hcounted
    refine ⟨?_, by omega⟩
    have hall : counted (stripCrs line) = (stripCrs line).length := by
      rw [counted_stripCrs]
      omega
    rw [counted, List.countP_eq_length] at hall
    intro hmem
    simpa using hall cr hmem
  · rintro ⟨hcr, hsmall⟩
    have hprefix : stripCrs line <+: line := List.rdropWhile_prefix _ line
    have hcounted : counted line = (stripCrs line).length := by
      rw [← counted_stripCrs, counted_eq_length hcr]
    rw [partString_of_lt line (hcounted ▸ hsmall), hcounted,
      ← List.prefix_iff_eq_take.mp hprefix]

theorem headerLines_prefix_terminated (rest : Bytes) :
    headerLines rest <+: terminated lf rest := by
  rw [headerLines_eq]
  conv_rhs => rw [← List.take_append_drop 1 (terminated lf rest)]
  rw [List.drop_one]
  exact (List.prefix_append_right_inj _).mpr (List.takeWhile_prefix _)

/-- The recorded headers are the lines that follow the first one, without the
CRs at their ends. -/
def WholeLines (block : Nat) (data : Bytes) : Prop :=
  ∃ res r, parse (HttpRequest.new.append data block) = some (res, r) ∧
    r.headerStrings = (((terminated lf data).drop 1).take r.headers.length).map
      (fun line => .ok (stripCrs line))

/-- The lines that are read, compared with the lines of the data. -/
theorem wholeLines_head {data : Bytes} (block : Nat) (hne : data ≠ [])
    (hlines : (readHead data).lines <+: (terminated lf data).drop 1) :
    WholeLines block data ↔
      ∀ line ∈ (readHead data).lines,
        cr ∉ stripCrs line ∧ (stripCrs line).length < 2 ^ 31 := by
  have hstrings := stored_headerStrings block data
  have hlength := congrArg List.length hstrings
  rw [HttpRequest.headerStrings, List.length_map, List.length_map] at hlength
  have hmap : ((readHead data).stored block data).headerStrings =
        (((terminated lf data).drop 1).take
          ((readHead data).stored block data).headers.length).map
            (fun line => .ok (stripCrs line)) ↔
      ∀ line ∈ (readHead data).lines,
        cr ∉ stripCrs line ∧ (stripCrs line).length < 2 ^ 31 := by
    rw [hlength, ← List.prefix_iff_eq_take.mp hlines, hstrings, List.map_inj_left]
    simp only [partString_line]
  rw [← hmap, WholeLines, parse_readHead block hne]
  constructor
  · rintro ⟨res, r, hparse, hwhole⟩
    cases hparse
    exact hwhole
  · intro hwhole
    exact ⟨_, _, rfl, hwhole⟩

theorem wholeLines_iff (block : Nat) (start : RequestLine) (rest : Bytes) :
    WholeLines block (start.bytes ++ rest) ↔
      nul ∈ start.bytes ∨
        ∀ line ∈ headerLines (rest.takeWhile (· ≠ nul)),
          cr ∉ stripCrs line ∧ (stripCrs line).length < 2 ^ 31 := by
  have hne : start.bytes ++ rest ≠ [] := by
    simp [RequestLine.bytes]
  by_cases hnul : nul ∈ start.bytes
  · obtain ⟨-, hnone, -⟩ := readHead_no_lf (start.lf_not_mem_text rest hnul)
    rw [wholeLines_head block hne (by rw [hnone]; exact List.nil_prefix), hnone]
    simp [hnul]
  · have hread := start.readHead_bytes rest hnul
    have hdata : terminated lf (start.bytes ++ rest) = start.line :: terminated lf rest := by
      rw [RequestLine.bytes, List.append_assoc, List.singleton_append,
        terminated_append rest start.lf_not_mem]
    obtain ⟨tail, htext⟩ := exists_text_append rest
    have hprefix : headerLines (rest.takeWhile (· ≠ nul)) <+: terminated lf rest := by
      have hmore := terminated_mono lf (rest.takeWhile (· ≠ nul)) tail
      rw [htext] at hmore
      exact (headerLines_prefix_terminated _).trans hmore
    rw [wholeLines_head block hne (by rw [hread, hdata]; exact hprefix), hread]
    simp [hnul]

/-- A CR within a header line: the piece ends one byte early. -/
theorem not_wholeLines_cr : ¬ WholeLines 0 (ascii "GET / HTTP/1.1\nA\rB\n\n") := by
  rintro ⟨res, r, hparse, hwhole⟩
  have hread : (parse (HttpRequest.new.append (ascii "GET / HTTP/1.1\nA\rB\n\n") 0)).map
      (fun result => (result.2.headerStrings, result.2.headers.length)) =
        some ([.ok (ascii "A\r")], 1) := by
    decide +kernel
  rw [hparse, Option.map_some, Option.some_inj, Prod.mk.injEq] at hread
  rw [hread.1, hread.2] at hwhole
  exact absurd hwhole (by decide +kernel)

end ModServer.Http
