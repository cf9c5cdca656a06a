import Mathlib.Data.List.TakeWhile

/-!
Cutting a list at the first occurrence of a delimiter word, and at every
occurrence of a separator element. Nothing here refers to the server; the
parsing and framing proofs instantiate it at bytes.
-/

namespace ModServer.Library

variable {α : Type*} [DecidableEq α]

/-- The part before the first occurrence of `word` and the part after it, or
`none` when `word` does not occur. -/
def cutAt (word : List α) : List α → Option (List α × List α)
  | [] => if word = [] then some ([], []) else none
  | a :: rest =>
      if word.isPrefixOf (a :: rest) then some ([], (a :: rest).drop word.length)
      else (cutAt word rest).map (fun cut => (a :: cut.1, cut.2))

theorem cutAt_cons {a : α} {word rest : List α} (h : word.isPrefixOf (a :: rest) = false) :
    cutAt word (a :: rest) = (cutAt word rest).map (fun cut => (a :: cut.1, cut.2)) := by
  simp [cutAt, h]

theorem cutAt_prefix (word rest : List α) :
    cutAt word (word ++ rest) = some ([], rest) := by
  cases word with
  | nil => cases rest <;> simp [cutAt]
  | cons a word => simp [cutAt]

/-- A cut loses nothing but the delimiter word itself. -/
theorem eq_of_cutAt {word l before after : List α}
    (h : cutAt word l = some (before, after)) :
    l = before ++ word ++ after := by
  induction l generalizing before with
  | nil =>
      simp only [cutAt] at h
      split at h
      · simp_all
      · cases h
  | cons a rest ih =>
      simp only [cutAt] at h
      split at h
      · rename_i hprefix
        obtain ⟨tail, htail⟩ := List.isPrefixOf_iff_prefix.mp hprefix
        cases h
        rw [← htail]
        simp
      · simp only [Option.map_eq_some_iff] at h
        obtain ⟨⟨x, y⟩, hcut, heq⟩ := h
        cases heq
        simp [ih hcut]

/-- A cut is the same when more follows. -/
theorem cutAt_more {word l before after : List α} (more : List α)
    (h : cutAt word l = some (before, after)) :
    cutAt word (l ++ more) = some (before, after ++ more) := by
  induction l generalizing before with
  | nil =>
      rw [cutAt] at h
      split at h
      · rename_i hword
        cases h
        rw [hword]
        exact cutAt_prefix [] more
      · cases h
  | cons a rest ih =>
      rw [cutAt] at h
      split at h
      · rename_i hprefix
        obtain ⟨tail, htail⟩ := List.isPrefixOf_iff_prefix.mp hprefix
        cases h
        rw [← htail, List.append_assoc, List.drop_left]
        exact cutAt_prefix word (tail ++ more)
      · rename_i hprefix
        obtain ⟨⟨line, after'⟩, hcut, heq⟩ := Option.map_eq_some_iff.mp h
        cases heq
        -- the word fits into the rest, so it does not start here with the help of `more`
        have hlength : word.length ≤ rest.length := by
          have hrest := congrArg List.length (eq_of_cutAt hcut)
          simp only [List.length_append] at hrest
          omega
        have hnot : word.isPrefixOf (a :: (rest ++ more)) = false := by
          rw [Bool.eq_false_iff]
          intro hlonger
          apply hprefix
          rw [List.isPrefixOf_iff_prefix, ← List.cons_append] at hlonger
          rw [List.isPrefixOf_iff_prefix]
          exact List.prefix_of_prefix_length_le hlonger (List.prefix_append _ _)
            (Nat.le_succ_of_le hlength)
        rw [List.cons_append, cutAt_cons hnot, ih hcut, Option.map_some]

/-- Text without the delimiter's first element is skipped by a cut. -/
theorem cutAt_skip {a : α} {word before : List α} (rest : List α)
    (h : a ∉ before) :
    cutAt (a :: word) (before ++ rest) =
      (cutAt (a :: word) rest).map (fun cut => (before ++ cut.1, cut.2)) := by
  induction before with
  | nil => exact Option.map_id'.symm
  | cons b before ih =>
      simp only [List.mem_cons, not_or] at h
      have hprefix : (a :: word).isPrefixOf (b :: (before ++ rest)) = false := by
        rw [List.isPrefixOf_cons_cons, beq_eq_false_iff_ne.mpr h.1, Bool.false_and]
      simp only [List.cons_append, cutAt, hprefix, Bool.false_eq_true, if_false]
      rw [ih h.2, Option.map_map]
      rfl

theorem cutAt_append {a : α} {word before : List α} (after : List α)
    (h : a ∉ before) :
    cutAt (a :: word) (before ++ (a :: word) ++ after) = some (before, after) := by
  rw [List.append_assoc, cutAt_skip _ h, cutAt_prefix]
  simp

theorem cutAt_eq_none {a : α} {word l : List α} (h : a ∉ l) :
    cutAt (a :: word) l = none := by
  have hskip := @cutAt_skip α _ a word l [] h
  simpa [cutAt] using hskip

theorem cutAt_singleton {a : α} {before : List α} (after : List α) (h : a ∉ before) :
    cutAt [a] (before ++ a :: after) = some (before, after) := by
  have hcut := @cutAt_append α _ a [] before after h
  simpa using hcut

/-- A line behind the word keeps the doubled word from starting there. -/
theorem cutAt_double_skip {a : α} {word line : List α} (rest : List α) (hword : a ∉ word)
    (hne : line ≠ []) (hline : a ∉ line) :
    cutAt ((a :: word) ++ (a :: word)) ((a :: word) ++ line ++ rest) =
      (cutAt ((a :: word) ++ (a :: word)) rest).map
        (fun cut => ((a :: word) ++ line ++ cut.1, cut.2)) := by
  obtain ⟨b, line, rfl⟩ := List.exists_cons_of_ne_nil hne
  have hb : a ≠ b := fun hab => hline (hab ▸ List.mem_cons_self)
  have hprefix :
      ((a :: word) ++ (a :: word)).isPrefixOf ((a :: word) ++ (b :: line) ++ rest) = false := by
    rw [← Bool.not_eq_true, List.isPrefixOf_iff_prefix, List.append_assoc,
      List.prefix_append_right_inj,
      List.cons_append, List.cons_prefix_cons]
    exact fun hsame => hb hsame.1
  have hskip : a ∉ word ++ (b :: line) := by
    rw [List.mem_append, not_or]
    exact ⟨hword, hline⟩
  have hcut := @cutAt_skip α _ a (word ++ (a :: word)) _ rest hskip
  simp only [List.cons_append, List.append_assoc] at hprefix hcut ⊢
  rw [cutAt_cons hprefix, hcut, Option.map_map]
  rfl

/-- Lines that the word separates, cut at the doubled word behind them. -/
theorem cutAt_double {a : α} {word first : List α} {others : List (List α)} (rest : List α)
    (hword : a ∉ word) (hfirst : a ∉ first) (h : ∀ line ∈ others, line ≠ [] ∧ a ∉ line) :
    cutAt ((a :: word) ++ (a :: word))
        (first ++ others.flatMap (fun line => (a :: word) ++ line) ++
          ((a :: word) ++ (a :: word)) ++ rest) =
      some (first ++ others.flatMap (fun line => (a :: word) ++ line), rest) := by
  have hothers : cutAt ((a :: word) ++ (a :: word))
      (others.flatMap (fun line => (a :: word) ++ line) ++ (((a :: word) ++ (a :: word)) ++ rest)) =
        some (others.flatMap (fun line => (a :: word) ++ line), rest) := by
    induction others with
    | nil => exact cutAt_prefix _ rest
    | cons line others ih =>
        obtain ⟨hne, hline⟩ := h line List.mem_cons_self
        rw [List.flatMap_cons, List.append_assoc, cutAt_double_skip _ hword hne hline,
          ih (fun other hother => h other (List.mem_cons_of_mem _ hother)), Option.map_some]
  have hskip := @cutAt_skip α _ a (word ++ (a :: word)) first
    (others.flatMap (fun line => (a :: word) ++ line) ++ (((a :: word) ++ (a :: word)) ++ rest))
    hfirst
  rw [← List.cons_append, hothers, Option.map_some] at hskip
  rw [List.append_assoc, List.append_assoc]
  exact hskip

/-- The lines before the first empty one and what follows that one. Each line
ends with the word `eol`; `fuel` bounds their number. -/
def readLines (eol : List α) : Nat → List α → Option (List (List α) × List α)
  | 0, _ => none
  | fuel + 1, l =>
      match cutAt eol l with
      | none => none
      | some ([], rest) => some ([], rest)
      | some (a :: line, rest) =>
          (readLines eol fuel rest).map (fun read => ((a :: line) :: read.1, read.2))

/-- The lines are the same when more follows. -/
theorem readLines_more {eol : List α} {fuel : Nat} {l : List α} {lines : List (List α)}
    {rest : List α} (more : List α) (h : readLines eol fuel l = some (lines, rest)) {enough : Nat}
    (hle : fuel ≤ enough) : readLines eol enough (l ++ more) = some (lines, rest ++ more) := by
  induction fuel generalizing l lines enough with
  | zero => cases h
  | succ fuel ih =>
      obtain ⟨enough, rfl⟩ :=
        Nat.exists_eq_add_of_lt (Nat.lt_of_lt_of_le (Nat.zero_lt_succ fuel) hle)
      rw [readLines] at h
      split at h
      · cases h
      · rename_i hcut
        cases h
        rw [readLines, cutAt_more more hcut]
      · rename_i a line after hcut
        obtain ⟨⟨others, rest'⟩, hread, heq⟩ := Option.map_eq_some_iff.mp h
        cases heq
        have hmore := ih hread (by omega : fuel ≤ 0 + enough)
        rw [readLines, cutAt_more more hcut]
        simp only [hmore, Option.map_some]

/-- Reading back lines that were written with their ends. -/
theorem readLines_append {a : α} {word : List α} (lines : List (List α)) (rest : List α)
    {fuel : Nat} (hfuel : lines.length < fuel) (h : ∀ line ∈ lines, line ≠ [] ∧ a ∉ line) :
    readLines (a :: word) fuel
        (lines.flatMap (fun line => line ++ (a :: word)) ++ (a :: word) ++ rest) =
      some (lines, rest) := by
  induction lines generalizing fuel with
  | nil =>
      obtain ⟨fuel, rfl⟩ := Nat.exists_eq_succ_of_ne_zero hfuel.ne'
      rw [List.flatMap_nil, List.nil_append, readLines, cutAt_prefix]
  | cons line lines ih =>
      obtain ⟨fuel, rfl⟩ := Nat.exists_eq_succ_of_ne_zero (Nat.ne_zero_of_lt hfuel)
      obtain ⟨hne, hline⟩ := h line List.mem_cons_self
      obtain ⟨b, tail, rfl⟩ := List.exists_cons_of_ne_nil hne
      have hcut := @cutAt_append α _ a word _
        (lines.flatMap (fun line => line ++ (a :: word)) ++ (a :: word) ++ rest) hline
      have hrest := ih (Nat.lt_of_succ_lt_succ hfuel)
        (fun other hother => h other (List.mem_cons_of_mem _ hother))
      rw [List.flatMap_cons, List.append_assoc, List.append_assoc, ← List.append_assoc _ _ rest,
        readLines, hcut]
      simp only [hrest, Option.map_some]

/-- The pieces between the occurrences of the word; `fuel` bounds their number. -/
def splitAll (word : List α) : Nat → List α → List (List α)
  | 0, l => [l]
  | fuel + 1, l =>
      match cutAt word l with
      | none => [l]
      | some (piece, rest) => piece :: splitAll word fuel rest

omit [DecidableEq α] in
theorem length_le_flatMap_append {word : List α} (h : word ≠ []) (pieces : List (List α)) :
    pieces.length ≤ (pieces.flatMap (fun piece => word ++ piece)).length := by
  have hword := List.length_pos_iff.mpr h
  induction pieces with
  | nil => exact Nat.le_refl _
  | cons piece pieces ih =>
      rw [List.flatMap_cons, List.length_append, List.length_append, List.length_cons]
      omega

theorem splitAll_join {a : α} {word : List α} {first : List α} {others : List (List α)} {fuel : Nat}
    (hfuel : others.length ≤ fuel) (hfirst : a ∉ first) (h : ∀ piece ∈ others, a ∉ piece) :
    splitAll (a :: word) fuel (first ++ others.flatMap (fun piece => (a :: word) ++ piece)) =
      first :: others := by
  induction others generalizing first fuel with
  | nil =>
      cases fuel with
      | zero => simp [splitAll]
      | succ fuel => simp [splitAll, cutAt_eq_none hfirst]
  | cons piece others ih =>
      obtain ⟨fuel, rfl⟩ := Nat.exists_eq_succ_of_ne_zero (Nat.ne_zero_of_lt hfuel)
      have hpiece := h piece List.mem_cons_self
      have hrest := ih (Nat.le_of_succ_le_succ hfuel) hpiece
        (fun other hother => h other (List.mem_cons_of_mem _ hother))
      have hcut := @cutAt_append α _ a word _
        (piece ++ others.flatMap (fun piece => (a :: word) ++ piece)) hfirst
      rw [List.flatMap_cons, List.append_assoc, ← List.append_assoc, splitAll, hcut]
      simp only [hrest]

/-- The pieces of a list that a separator terminates. What follows the last
separator is not terminated and does not count. -/
def terminated (sep : α) : List α → List (List α)
  | [] => []
  | a :: rest =>
      if a = sep then [] :: terminated sep rest
      else
        match terminated sep rest with
        | [] => []
        | piece :: pieces => (a :: piece) :: pieces

theorem terminated_eq_nil {sep : α} {l : List α} (h : sep ∉ l) :
    terminated sep l = [] := by
  induction l with
  | nil => rfl
  | cons a rest ih =>
      simp only [List.mem_cons, not_or] at h
      simp [terminated, Ne.symm h.1, ih h.2]

theorem terminated_append {sep : α} {piece : List α} (rest : List α)
    (h : sep ∉ piece) :
    terminated sep (piece ++ sep :: rest) = piece :: terminated sep rest := by
  induction piece with
  | nil => simp [terminated]
  | cons a piece ih =>
      simp only [List.mem_cons, not_or] at h
      simp [terminated, Ne.symm h.1, ih h.2]

/-- Induction over the terminated pieces of a list. -/
theorem pieces_induction (sep : α) {motive : List α → Prop}
    (last : ∀ l, sep ∉ l → motive l)
    (piece : ∀ p rest, sep ∉ p → motive rest → motive (p ++ sep :: rest)) :
    ∀ l, motive l := by
  intro l
  induction hlen : l.length using Nat.strongRecOn generalizing l with
  | _ n ih =>
      by_cases hmem : sep ∈ l
      · obtain ⟨p, rest, rfl, hp⟩ := List.eq_append_cons_of_mem hmem
        have hshorter : rest.length < n := by
          rw [← hlen]
          simp
          omega
        exact piece p rest hp (ih rest.length hshorter rest rfl)
      · exact last l hmem

theorem terminated_mono (sep : α) (l more : List α) :
    terminated sep l <+: terminated sep (l ++ more) := by
  induction l using pieces_induction sep with
  | last l hl =>
      rw [terminated_eq_nil hl]
      exact List.nil_prefix
  | piece p l hp ih =>
      rw [List.append_assoc, List.cons_append, terminated_append _ hp, terminated_append _ hp]
      exact List.prefix_cons_inj p |>.mpr ih

/-- The terminated pieces and their separators are the front of the list. -/
theorem eq_flatMap_terminated (sep : α) (l : List α) :
    ∃ last, l = (terminated sep l).flatMap (fun piece => piece ++ [sep]) ++ last := by
  induction l using pieces_induction sep with
  | last l hl => exact ⟨l, by rw [terminated_eq_nil hl]; rfl⟩
  | piece p rest hp ih =>
      obtain ⟨last, hlast⟩ := ih
      refine ⟨last, ?_⟩
      rw [terminated_append _ hp, List.flatMap_cons, List.append_assoc, ← hlast]
      simp

end ModServer.Library
