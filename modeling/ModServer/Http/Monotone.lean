import ModServer.Http.Pieces
import ModServer.Http.Prefix

/-!
What a `Parse` finds in some data it also finds when more bytes follow. The end
of the data stops the loop in every state, and in none of them does it complete
a piece.
-/

namespace ModServer.Http

open Library

/-- `more` has every part that `head` has, and it is read at least as far. -/
structure Head.Extends (head more : Head) : Prop where
  method : ∀ part, head.method = some part → more.method = some part
  path : ∀ part, head.path = some part → more.path = some part
  version : ∀ part, head.version = some part → more.version = some part
  lines : head.lines <+: more.lines
  stop : head.stop ≤ more.stop

theorem Head.Extends.refl (head : Head) : head.Extends head :=
  ⟨fun _ h => h, fun _ h => h, fun _ h => h, List.prefix_rfl, le_rfl⟩

theorem linesToBlank_mono {lines more : List Bytes} (h : lines <+: more) :
    linesToBlank lines <+: linesToBlank more := by
  obtain ⟨tail, rfl⟩ := h
  induction lines with
  | nil => exact List.nil_prefix
  | cons line lines ih =>
      cases hblank : isBlank line with
      | true =>
          rw [linesToBlank_blank lines hblank]
          exact List.nil_prefix
      | false =>
          rw [List.cons_append, linesToBlank_line lines hblank, linesToBlank_line _ hblank]
          exact (List.prefix_cons_inj line).mpr ih

theorem headerLines_mono (front more : Bytes) :
    headerLines front <+: headerLines (front ++ more) := by
  by_cases hlf : lf ∈ front
  · obtain ⟨first, others, rfl, hfirst⟩ := List.eq_append_cons_of_mem hlf
    rw [List.append_assoc, List.cons_append]
    simp only [headerLines, cutAt_singleton _ hfirst]
    rw [List.prefix_cons_inj]
    exact linesToBlank_mono (terminated_mono lf others more)
  · have hnone : headerLines front = [] := by
      simp only [headerLines, cutAt_eq_none hlf]
    rw [hnone]
    exact List.nil_prefix

theorem readHead_method {data method rest : Bytes}
    (htext : data.takeWhile (· ≠ nul) = method ++ space :: rest) (hm : space ∉ method) :
    (readHead data).method = some method := by
  unfold readHead
  simp only [htext, cutAt_singleton rest hm]
  cases cutAt [space] rest with
  | none => rfl
  | some cut => cases h : cutAt [lf] cut.2 <;> simp [h]

theorem readHead_path {data method path rest : Bytes}
    (htext : data.takeWhile (· ≠ nul) = method ++ space :: (path ++ space :: rest))
    (hm : space ∉ method) (hp : space ∉ path) :
    (readHead data).path = some path := by
  unfold readHead
  simp only [htext, cutAt_singleton _ hm, cutAt_singleton rest hp]
  cases cutAt [lf] rest <;> rfl

theorem readHead_stop_mono (front more : Bytes) :
    (readHead front).stop ≤ (readHead (front ++ more)).stop := by
  rcases Nat.le_total (readHead (front ++ more)).stop front.length with hwithin | hbeyond
  · rw [readHead_append hwithin]
  · exact (readHead_stop_le front).trans hbeyond

/-- One case for each place where the front part can run out. -/
theorem HeadShape.extends {front : Bytes} {head : Head} (h : HeadShape front head)
    (more : Bytes) (hnul : nul ∉ front) : head.Extends (readHead (front ++ more)) := by
  have hstop := readHead_stop_mono front more
  have htext := text_append more hnul
  rw [← h.eq_readHead hnul] at hstop
  cases h with
  | inMethod => exact ⟨nofun, nofun, nofun, List.nil_prefix, hstop⟩
  | inPath method rest heq hm =>
      subst heq
      simp only [List.append_assoc, List.cons_append] at htext hstop ⊢
      refine ⟨?_, nofun, nofun, List.nil_prefix, hstop⟩
      rintro part ⟨⟩
      exact readHead_method htext hm
  | inVersion method path rest heq hm hp =>
      subst heq
      simp only [List.append_assoc, List.cons_append] at htext hstop ⊢
      refine ⟨?_, ?_, nofun, List.nil_prefix, hstop⟩
      · rintro part ⟨⟩
        exact readHead_method htext hm
      · rintro part ⟨⟩
        exact readHead_path htext hm hp
  | inLines method path version rest heq hm hp hv =>
      subst heq
      simp only [List.append_assoc, List.cons_append] at htext hstop ⊢
      rw [readHead_lines htext hm hp hv] at hstop ⊢
      exact ⟨fun _ h => h, fun _ h => h, fun _ h => h, headerLines_mono rest _, hstop⟩

theorem readHead_extends (front more : Bytes) :
    (readHead front).Extends (readHead (front ++ more)) := by
  by_cases hnul : nul ∈ front
  · rw [readHead_nul more hnul]
    exact .refl _
  · have hshape := readHead_shape front
    rw [text_eq_self hnul] at hshape
    exact hshape.extends more hnul

theorem Head.Extends.isGet {head more : Head} (h : head.Extends more) (hget : head.IsGet) :
    more.IsGet := by
  obtain ⟨method, hmethod, htoken⟩ := hget
  exact ⟨method, h.method method hmethod, htoken⟩

theorem Head.Extends.isVersion {head more : Head} {literal : Bytes} (h : head.Extends more)
    (hversion : head.IsVersion literal) : more.IsVersion literal := by
  obtain ⟨version, hsome, htoken⟩ := hversion
  exact ⟨version, h.version version hsome, htoken⟩

section Stored

variable (block other : Nat) (front more : Bytes)

theorem stored_method_mono
    (h : ((readHead front).stored block front).method ≠ .invalidMethod) :
    ((readHead (front ++ more)).stored other (front ++ more)).method =
      ((readHead front).stored block front).method := by
  have hget : ((readHead front).stored block front).method = .get := by
    cases hmethod : ((readHead front).stored block front).method with
    | get => rfl
    | invalidMethod => exact absurd hmethod h
  rw [hget, stored_method_get]
  apply (readHead_extends front more).isGet
  rwa [stored_method_get] at hget

theorem stored_httpVer_mono
    (h : ((readHead front).stored block front).httpVer ≠ .invalidVersion) :
    ((readHead (front ++ more)).stored other (front ++ more)).httpVer =
      ((readHead front).stored block front).httpVer := by
  have hextends := readHead_extends front more
  cases hversion : ((readHead front).stored block front).httpVer with
  | http10 =>
      rw [stored_http10] at hversion ⊢
      exact hextends.isVersion hversion
  | http11 =>
      rw [stored_http11] at hversion ⊢
      exact hextends.isVersion hversion
  | invalidVersion => exact absurd hversion h

theorem stored_resourcePath_mono
    (h : ((readHead front).stored block front).resourcePath ≠ .ok []) :
    ((readHead (front ++ more)).stored other (front ++ more)).resourcePath =
      ((readHead front).stored block front).resourcePath := by
  rw [stored_resourcePath] at h
  rw [stored_resourcePath, stored_resourcePath]
  cases hpath : (readHead front).path with
  | none =>
      rw [hpath] at h
      exact absurd rfl h
  | some path => rw [(readHead_extends front more).path path hpath]

theorem stored_headerStrings_mono :
    ((readHead front).stored block front).headerStrings <+:
      ((readHead (front ++ more)).stored other (front ++ more)).headerStrings := by
  rw [stored_headerStrings, stored_headerStrings]
  exact (readHead_extends front more).lines.map _

end Stored

/-- What `Parse` reports about some data stays when more bytes follow. -/
theorem parse_mono (front more : Bytes) (block other : Nat) (h : front ≠ []) :
    ∃ res r res' r',
      parse (HttpRequest.new.append front block) = some (res, r) ∧
      parse (HttpRequest.new.append (front ++ more) other) = some (res', r') ∧
      r.headerStrings <+: r'.headerStrings ∧
      (r.method ≠ .invalidMethod → r'.method = r.method) ∧
      (r.httpVer ≠ .invalidVersion → r'.httpVer = r.httpVer) ∧
      (r.resourcePath ≠ .ok [] → r'.resourcePath = r.resourcePath) ∧
      res.stoppedAt ≤ res'.stoppedAt := by
  have hmore : front ++ more ≠ [] := List.append_ne_nil_of_left_ne_nil h more
  exact ⟨_, _, _, _, parse_readHead block h, parse_readHead other hmore,
    stored_headerStrings_mono block other front more,
    stored_method_mono block other front more,
    stored_httpVer_mono block other front more,
    stored_resourcePath_mono block other front more,
    readHead_stop_mono front more⟩

/-- The front part ends within the second header line. -/
theorem parse_mono_split :
    ascii "GET /a HTTP/1.1\nA: b\nC" ≠ [] ∧
      ∃ res r res' r',
        parse (HttpRequest.new.append (ascii "GET /a HTTP/1.1\nA: b\nC") 0) = some (res, r) ∧
        parse (HttpRequest.new.append (ascii "GET /a HTTP/1.1\nA: b\nC" ++ ascii ": d\n\n") 1) =
          some (res', r') ∧
        r.headerStrings <+: r'.headerStrings ∧
        (r.method ≠ .invalidMethod → r'.method = r.method) ∧
        (r.httpVer ≠ .invalidVersion → r'.httpVer = r.httpVer) ∧
        (r.resourcePath ≠ .ok [] → r'.resourcePath = r.resourcePath) ∧
        res.stoppedAt ≤ res'.stoppedAt :=
  ⟨by decide, parse_mono _ _ 0 1 (by decide)⟩

end ModServer.Http
