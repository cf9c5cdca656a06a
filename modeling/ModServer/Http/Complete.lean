import ModServer.Http.HeadText

/-!
What `FINISHED` says about the data. The loop ends with it wherever the text
before the first NUL runs out, so it stands for a complete head only when the
data has one.
-/

namespace ModServer.Http

open Library

theorem HeadText.terminated_bytes (t : HeadText) :
    terminated lf t.bytes = t.start.line :: (t.lines ++ [t.blank]) := by
  have hblock := t.terminated_block []
  rw [List.append_nil] at hblock
  rw [bytes, RequestLine.bytes, List.append_assoc, List.singleton_append,
    terminated_append _ t.start.lf_not_mem, hblock]
  rfl

theorem HeadText.bytes_eq (t : HeadText) : t.bytes = joinLines (terminated lf t.bytes) := by
  rw [t.terminated_bytes, joinLines_cons]
  rfl

/-- No head continues another one: the blank line of the shorter one would be a
header line of the longer one. -/
theorem HeadText.eq_of_prefix {t other : HeadText} (h : t.bytes <+: other.bytes) :
    t.bytes = other.bytes := by
  obtain ⟨more, hmore⟩ := h
  have hlines := terminated_mono lf t.bytes more
  rw [hmore, t.terminated_bytes, other.terminated_bytes, List.cons_prefix_cons] at hlines
  obtain ⟨hstart, hblock⟩ := hlines
  rcases List.prefix_concat_iff.mp hblock with hsame | hwithin
  · rw [t.bytes_eq, other.bytes_eq, t.terminated_bytes, other.terminated_bytes, hstart, hsame]
  · have hmem : t.blank ∈ other.lines := hwithin.subset (by simp)
    have hheader := (other.header_lines t.blank hmem).2
    rw [t.blank_line] at hheader
    cases hheader

/-- Reading stops on a NUL byte only where the text ends. -/
theorem stop_nul_iff (data : Bytes) :
    data[(readHead data).stop]? = some nul ↔
      nul ∈ data ∧ (readHead data).stop = (data.takeWhile (· ≠ nul)).length := by
  have hle := (readHead_shape data).stop_le
  generalize (readHead data).stop = stop at hle ⊢
  by_cases hnul : nul ∈ data
  · obtain ⟨before, after, rfl, hbefore⟩ := List.eq_append_cons_of_mem hnul
    rw [text_nul after hbefore] at hle ⊢
    rcases hle.lt_or_eq with hlt | heq
    · rw [List.getElem?_append_left hlt]
      constructor
      · intro h
        exact absurd (List.mem_of_getElem? h) hbefore
      · rintro ⟨-, heq⟩
        omega
    · simp [heq]
  · constructor
    · intro h
      exact absurd (List.mem_of_getElem? h) hnul
    · rintro ⟨h, -⟩
      exact absurd h hnul

/-- When reading runs to the end of the text of data that has a complete head. -/
theorem HeadText.stop_iff (t : HeadText) (tail : Bytes) :
    (readHead (t.bytes ++ tail)).stop = ((t.bytes ++ tail).takeWhile (· ≠ nul)).length ↔
      nul ∈ t.bytes ∨
        (t.lines = [] ∧
          ∀ line ∈ terminated lf (tail.takeWhile (· ≠ nul)), isBlank line = false) := by
  rw [bytes, List.append_assoc]
  by_cases hstart : nul ∈ t.start.bytes
  · obtain ⟨-, -, hstop⟩ := readHead_no_lf (t.start.lf_not_mem_text (t.block ++ tail) hstart)
    simp [hstop, hstart]
  · rw [t.start.readHead_bytes _ hstart, text_append _ hstart, List.length_append,
      Nat.add_left_cancel_iff, headerStop_eq_length, List.mem_append]
    by_cases hblock : nul ∈ t.block
    · rw [t.terminated_text_block tail hblock]
      have hheaders : ∀ line ∈ (t.lines.takeWhile (nul ∉ ·)).tail, isBlank line = false :=
        fun line hline =>
          (t.header_lines line (List.takeWhile_subset _ (List.mem_of_mem_tail hline))).2
      simp only [hblock, or_true, true_or, iff_true]
      exact hheaders
    · rw [text_append _ hblock, t.terminated_block]
      cases hlines : t.lines with
      | nil => simp [hstart, hblock]
      | cons first others =>
          simp [hstart, hblock]
          exact ⟨t.blank, .inr (.inl rfl), t.blank_line⟩

/-- The status that `Parse` returns tells how much of a head the data holds,
and no NUL byte ends a request. -/
def StatusTells (block : Nat) (data : Bytes) : Prop :=
  ∃ res r, parse (HttpRequest.new.append data block) = some (res, r) ∧
    (res.status = .finished → ∃ t : HeadText, t.bytes <+: data) ∧
    ((∃ t : HeadText, data <+: t.bytes ∧ data ≠ t.bytes) → res.status = .moreData) ∧
    ¬ (res.status = .finished ∧ data[res.stoppedAt]? = some nul)

theorem statusTells_head {data : Bytes} (block : Nat) (h : data ≠ []) :
    StatusTells block data ↔
      (∃ t : HeadText, t.bytes <+: data) ∧
        (readHead data).stop ≠ (data.takeWhile (· ≠ nul)).length ∨
      (∃ t : HeadText, t.bytes <+: data) ∧ nul ∉ data := by
  unfold StatusTells
  rw [parse_readHead block h]
  constructor
  · rintro ⟨res, r, hparse, hcomplete, -, hnul⟩
    cases hparse
    have hhead := hcomplete rfl
    rw [stop_nul_iff] at hnul
    by_cases hmem : nul ∈ data
    · exact .inl ⟨hhead, fun hstop => hnul ⟨rfl, hmem, hstop⟩⟩
    · exact .inr ⟨hhead, hmem⟩
  · intro hhead
    have hcomplete : ∃ t : HeadText, t.bytes <+: data := hhead.elim And.left And.left
    refine ⟨_, _, rfl, fun _ => hcomplete, ?_, ?_⟩
    · rintro ⟨longer, hfront, hne⟩
      obtain ⟨t, ht⟩ := hcomplete
      have hsame := HeadText.eq_of_prefix (ht.trans hfront)
      rw [hsame] at ht
      exact absurd (hfront.eq_of_length_le ht.length_le) hne
    · rintro ⟨-, hnul⟩
      rw [stop_nul_iff] at hnul
      rcases hhead with hstop | hnone
      · exact hstop.2 hnul.2
      · exact hnone.2 hnul.1

/-- `Parse` gets the status right on data with a complete head in which no NUL
byte stands before the place where reading stops. -/
theorem statusTells_iff (block : Nat) {data : Bytes} (h : data ≠ []) :
    StatusTells block data ↔
      ∃ (t : HeadText) (tail : Bytes), data = t.bytes ++ tail ∧
        (nul ∉ data ∨
          (nul ∉ t.bytes ∧
            (t.lines ≠ [] ∨
              ∃ line ∈ terminated lf (tail.takeWhile (· ≠ nul)), isBlank line = true))) := by
  rw [statusTells_head block h]
  have hstop (t : HeadText) (tail : Bytes) :
      (readHead (t.bytes ++ tail)).stop ≠ ((t.bytes ++ tail).takeWhile (· ≠ nul)).length ↔
        nul ∉ t.bytes ∧ (t.lines ≠ [] ∨
          ∃ line ∈ terminated lf (tail.takeWhile (· ≠ nul)), isBlank line = true) := by
    rw [ne_eq, t.stop_iff, not_or, not_and_or]
    simp
  constructor
  · rintro (⟨⟨t, tail, rfl⟩, hend⟩ | ⟨⟨t, tail, rfl⟩, hnul⟩)
    · exact ⟨t, tail, rfl, .inr ((hstop t tail).mp hend)⟩
    · exact ⟨t, tail, rfl, .inl hnul⟩
  · rintro ⟨t, tail, rfl, hnul | hend⟩
    · exact .inr ⟨⟨t, tail, rfl⟩, hnul⟩
    · exact .inl ⟨⟨t, tail, rfl⟩, (hstop t tail).mpr hend⟩

/-- `METHOD` ends with `FINISHED` at the end of the data. -/
theorem not_statusTells_method : ¬ StatusTells 0 (ascii "GET") := by
  rintro ⟨res, r, hparse, hcomplete, -, -⟩
  have hstatus : (parse (HttpRequest.new.append (ascii "GET") 0)).map
      (fun result => result.1.status) = some .finished := by
    decide +kernel
  rw [hparse, Option.map_some, Option.some_inj] at hstatus
  obtain ⟨t, ht⟩ := hcomplete hstatus
  have hlf : lf ∈ t.bytes := by
    simp [HeadText.bytes, RequestLine.bytes]
  exact absurd (ht.subset hlf) (by decide +kernel)

theorem statusTells_request :
    ascii "GET / HTTP/1.1\nA: b\n\n" ≠ [] ∧
      (StatusTells 0 (ascii "GET / HTTP/1.1\nA: b\n\n") ↔
        ∃ (t : HeadText) (tail : Bytes),
          ascii "GET / HTTP/1.1\nA: b\n\n" = t.bytes ++ tail ∧
          (nul ∉ ascii "GET / HTTP/1.1\nA: b\n\n" ∨
            (nul ∉ t.bytes ∧
              (t.lines ≠ [] ∨
                ∃ line ∈ terminated lf (tail.takeWhile (· ≠ nul)), isBlank line = true)))) :=
  ⟨by decide, statusTells_iff 0 (by decide)⟩

end ModServer.Http
