import ModServer.Http.Head

/-!
How the head of some data relates to the head of more data. Reading stops
inside the data, and when it stops within a front part of the data, the rest
has no influence on the head.
-/

namespace ModServer.Http

open Library

theorem newlineStop_le (rest : Bytes) : newlineStop rest ≤ rest.length := by
  induction rest using pieces_induction lf with
  | last rest hlf => exact le_of_eq (newlineStop_last hlf)
  | piece line rest hlf ih =>
      cases hblank : isBlank line with
      | true =>
          rw [newlineStop_blank rest hlf hblank]
          simp
      | false =>
          rw [newlineStop_line rest hlf hblank]
          simp
          omega

theorem headerStop_le (rest : Bytes) : headerStop rest ≤ rest.length := by
  unfold headerStop
  cases hcut : cutAt [lf] rest with
  | none => exact le_rfl
  | some cut =>
      obtain ⟨first, others⟩ := cut
      have hle := newlineStop_le others
      rw [eq_of_cutAt hcut]
      simp
      omega

theorem HeadShape.stop_le {text : Bytes} {head : Head} (h : HeadShape text head) :
    head.stop ≤ text.length := by
  cases h with
  | inMethod => exact le_rfl
  | inPath => exact le_rfl
  | inVersion => exact le_rfl
  | inLines method path version rest htext =>
      have hle := headerStop_le rest
      rw [htext]
      simp
      omega

theorem readHead_stop_le (data : Bytes) : (readHead data).stop ≤ data.length :=
  (readHead_shape data).stop_le.trans (List.takeWhile_prefix _).length_le

/-- A shape determines the head. -/
theorem HeadShape.eq_readHead {text : Bytes} {head : Head} (h : HeadShape text head)
    (hnul : nul ∉ text) : head = readHead text := by
  have htext := text_eq_self hnul
  cases h with
  | inMethod hspace =>
      unfold readHead
      rw [htext]
      simp only [cutAt_eq_none hspace]
  | inPath method rest heq hm hr =>
      unfold readHead
      rw [htext]
      simp only [heq, cutAt_singleton rest hm, cutAt_eq_none hr]
  | inVersion method path rest heq hm hp hr =>
      unfold readHead
      rw [htext]
      simp only [heq, cutAt_singleton _ hm, cutAt_singleton rest hp, cutAt_eq_none hr]
  | inLines method path version rest heq hm hp hv =>
      exact (readHead_lines (htext.trans heq) hm hp hv).symm

theorem readHead_takeWhile (data : Bytes) :
    readHead (data.takeWhile (· ≠ nul)) = readHead data :=
  ((readHead_shape data).eq_readHead (nul_not_mem_text data)).symm

/-- Reading that stops among the lines of `front` is the reading of `front`. -/
theorem newline_append {front more : Bytes}
    (h : newlineStop (front ++ more) ≤ front.length) :
    newlineStop (front ++ more) = newlineStop front ∧
      linesToBlank (terminated lf (front ++ more)) = linesToBlank (terminated lf front) := by
  induction front using pieces_induction lf with
  | last front hlf =>
      by_cases hmore : lf ∈ more
      · obtain ⟨start, rest, rfl, hstart⟩ := List.eq_append_cons_of_mem hmore
        have hline : lf ∉ front ++ start := by
          rw [List.mem_append, not_or]
          exact ⟨hlf, hstart⟩
        rw [← List.append_assoc] at h ⊢
        cases hblank : isBlank (front ++ start) with
        | true =>
            rw [newlineStop_blank rest hline hblank] at h ⊢
            rw [terminated_append rest hline, linesToBlank_blank _ hblank,
              terminated_eq_nil hlf, newlineStop_last hlf]
            refine ⟨?_, rfl⟩
            simp only [List.length_append] at h ⊢
            omega
        | false =>
            rw [newlineStop_line rest hline hblank] at h
            simp only [List.length_append] at h
            omega
      · have hline : lf ∉ front ++ more := by
          rw [List.mem_append, not_or]
          exact ⟨hlf, hmore⟩
        rw [newlineStop_last hline] at h ⊢
        rw [newlineStop_last hlf, terminated_eq_nil hline, terminated_eq_nil hlf]
        refine ⟨?_, rfl⟩
        simp only [List.length_append] at h ⊢
        omega
  | piece line rest hlf ih =>
      rw [List.append_assoc, List.cons_append] at h ⊢
      rw [terminated_append _ hlf, terminated_append _ hlf]
      cases hblank : isBlank line with
      | true =>
          rw [newlineStop_blank _ hlf hblank, newlineStop_blank _ hlf hblank,
            linesToBlank_blank _ hblank, linesToBlank_blank _ hblank]
          exact ⟨rfl, rfl⟩
      | false =>
          rw [newlineStop_line _ hlf hblank] at h ⊢
          rw [newlineStop_line _ hlf hblank, linesToBlank_line _ hblank,
            linesToBlank_line _ hblank]
          simp only [List.length_append, List.length_cons] at h
          obtain ⟨hstop, hlines⟩ := ih (by omega)
          rw [hstop, hlines]
          exact ⟨rfl, rfl⟩

theorem header_append {front more : Bytes} (h : headerStop (front ++ more) ≤ front.length) :
    headerStop (front ++ more) = headerStop front ∧
      headerLines (front ++ more) = headerLines front := by
  by_cases hlf : lf ∈ front
  · obtain ⟨first, others, rfl, hfirst⟩ := List.eq_append_cons_of_mem hlf
    rw [List.append_assoc, List.cons_append] at h ⊢
    simp only [headerStop, headerLines, cutAt_singleton _ hfirst] at h ⊢
    simp only [List.length_append, List.length_cons] at h
    obtain ⟨hstop, hlines⟩ := newline_append (by omega : newlineStop (others ++ more) ≤ _)
    rw [hstop, hlines]
    exact ⟨rfl, rfl⟩
  · have hmore : more = [] := by
      by_cases hmem : lf ∈ more
      · obtain ⟨start, rest, rfl, hstart⟩ := List.eq_append_cons_of_mem hmem
        have hline : lf ∉ front ++ start := by
          rw [List.mem_append, not_or]
          exact ⟨hlf, hstart⟩
        rw [← List.append_assoc] at h
        simp only [headerStop, cutAt_singleton rest hline, List.length_append] at h
        omega
      · have hline : lf ∉ front ++ more := by
          rw [List.mem_append, not_or]
          exact ⟨hlf, hmem⟩
        simp only [headerStop, cutAt_eq_none hline, List.length_append] at h
        exact List.length_eq_zero_iff.mp (by omega)
    simp [hmore]

theorem HeadShape.front {front more : Bytes} {head : Head}
    (h : HeadShape (front ++ more) head) (hstop : head.stop ≤ front.length) :
    HeadShape front head := by
  rcases eq_or_ne more [] with hmore | hmore
  · simpa [hmore] using h
  have hlonger : front.length < (front ++ more).length := by
    have hpos := List.length_pos_of_ne_nil hmore
    simp
    omega
  -- Only the last shape can stop before its text ends.
  cases h with
  | inMethod => exact absurd hstop (Nat.not_le.mpr hlonger)
  | inPath => exact absurd hstop (Nat.not_le.mpr hlonger)
  | inVersion => exact absurd hstop (Nat.not_le.mpr hlonger)
  | inLines method path version rest heq hm hp hv =>
      have hline : (method ++ space :: (path ++ space :: (version ++ [lf]))) ++ rest =
          front ++ more := by
        simp [heq]
      have hprefix : method ++ space :: (path ++ space :: (version ++ [lf])) <+: front := by
        apply List.prefix_of_prefix_length_le ⟨rest, hline⟩ ⟨more, rfl⟩
        simp at hstop ⊢
        omega
      obtain ⟨start, rfl⟩ := hprefix
      rw [List.append_assoc _ start more] at hline
      have hrest : rest = start ++ more := List.append_cancel_left hline
      subst hrest
      have hinner : headerStop (start ++ more) ≤ start.length := by
        simp at hstop
        omega
      obtain ⟨hsame, hlines⟩ := header_append hinner
      rw [hsame, hlines]
      exact .inLines method path version start (by simp) hm hp hv

/-- Nothing behind a NUL byte is read. -/
theorem readHead_nul {front : Bytes} (more : Bytes) (h : nul ∈ front) :
    readHead (front ++ more) = readHead front := by
  obtain ⟨before, after, rfl, hbefore⟩ := List.eq_append_cons_of_mem h
  rw [← readHead_takeWhile, ← readHead_takeWhile (before ++ nul :: after), List.append_assoc,
    List.cons_append, text_nul _ hbefore, text_nul _ hbefore]

/-- A reading that stops within the front part is the reading of that part. -/
theorem readHead_append {front more : Bytes}
    (h : (readHead (front ++ more)).stop ≤ front.length) :
    readHead (front ++ more) = readHead front := by
  by_cases hnul : nul ∈ front
  · exact readHead_nul more hnul
  · have hshape := readHead_shape (front ++ more)
    rw [text_append more hnul] at hshape
    exact (hshape.front h).eq_readHead hnul

end ModServer.Http
