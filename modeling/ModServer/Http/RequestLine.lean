import ModServer.Http.Pieces
import ModServer.Http.WellFormed
import ModServer.Http.Monotone
import Mathlib.Data.List.DropRight

/-!
Which data `Parse` takes for a GET request, against the first line of the data.
`HTTP` ends at an LF, but `METHOD` and `URL` read over one, so that a request
line can stretch over several lines of the data.
-/

namespace ModServer.Http

open Library

/-- A line without the CRs at its end. -/
def stripCrs (line : Bytes) : Bytes :=
  line.rdropWhile (· = cr)

theorem stripCrs_blank {crs : Bytes} (line : Bytes) (h : isBlank crs = true) :
    stripCrs (line ++ crs) = stripCrs line := by
  have hcrs : ∀ c ∈ crs.reverse, decide (c = cr) = true := by
    simpa [isBlank] using h
  simp only [stripCrs, List.rdropWhile, List.reverse_append]
  rw [List.dropWhile_append_of_pos hcrs]

theorem eq_stripCrs_append (line : Bytes) :
    ∃ crs, isBlank crs = true ∧ line = stripCrs line ++ crs := by
  refine ⟨line.rtakeWhile (· = cr), ?_, List.rdropWhile_append_rtakeWhile.symm⟩
  rw [isBlank, List.all_eq_true]
  intro c hc
  simpa using List.mem_rtakeWhile_imp hc

theorem stripCrs_cons (before after : Bytes) {c : UInt8} (h : c ≠ cr) :
    stripCrs (before ++ c :: after) = before ++ c :: stripCrs after := by
  unfold stripCrs
  induction after using List.reverseRecOn with
  | nil => rw [List.rdropWhile_concat_neg _ _ _ (by simpa using h), List.rdropWhile_nil]
  | append_singleton after d ih =>
      rw [← List.cons_append, ← List.append_assoc, List.rdropWhile_concat,
        List.rdropWhile_concat, ih]
      split <;> simp

theorem stripCrs_eq_self {line : Bytes} (h : cr ∉ line) : stripCrs line = line := by
  rw [stripCrs, List.rdropWhile_eq_self_iff]
  intro hne
  simpa using ne_of_mem_of_not_mem (List.getLast_mem hne) h

theorem counted_eq_zero {line : Bytes} : counted line = 0 ↔ isBlank line = true := by
  simp [counted, isBlank, List.countP_eq_zero]

theorem counted_stripCrs (line : Bytes) : counted (stripCrs line) = counted line := by
  obtain ⟨crs, hcrs, hline⟩ := eq_stripCrs_append line
  have hcount := congrArg counted hline
  rw [counted_append, counted_of_isBlank hcrs, Nat.add_zero] at hcount
  exact hcount.symm

theorem counted_eq_length {line : Bytes} (h : cr ∉ line) : counted line = line.length := by
  rw [counted, List.countP_eq_length]
  intro c hc
  simpa using ne_of_mem_of_not_mem hc h

/-- The token comparison on a line that ends in CRs, when the count is not
wrapped by the conversion to `int`. -/
theorem stripCrs_eq_iff {line literal : Bytes} (hliteral : cr ∉ literal)
    (hsmall : literal.length < 2 ^ 31) :
    stripCrs line = literal ↔
      TokenIs (counted line) line literal ∧ counted line = literal.length := by
  constructor
  · intro h
    obtain ⟨crs, _, hline⟩ := eq_stripCrs_append line
    have hcount : counted line = literal.length := by
      rw [← counted_stripCrs, h, counted_eq_length hliteral]
    rw [h] at hline
    refine ⟨⟨?_, ?_⟩, hcount⟩
    · rw [hcount, intOfSize_of_lt hsmall]
    · rw [hline, List.take_left]
  · rintro ⟨⟨_, htake⟩, hcount⟩
    have hline : literal ++ line.drop literal.length = line := by
      conv_rhs => rw [← List.take_append_drop literal.length line, htake]
    have hblank : counted (line.drop literal.length) = 0 := by
      have hsum := congrArg counted hline
      rw [counted_append, counted_eq_length hliteral, hcount] at hsum
      omega
    rw [← hline, stripCrs_blank literal (counted_eq_zero.mp hblank),
      stripCrs_eq_self hliteral]

/-- `GET`, the path and a version, with one space between them. -/
def IsGetLine (line path : Bytes) : Prop :=
  ∃ version, (version = ascii "HTTP/1.1" ∨ version = ascii "HTTP/1.0") ∧
    line = ascii "GET" ++ space :: (path ++ space :: version) ∧
    ∀ c ∈ path, Plain c ∧ c ≠ space

/-- The first line of the data, without the CRs at its end, asks for `path`. -/
def StartsWithGet (data path : Bytes) : Prop :=
  ∃ line rest, data = line ++ lf :: rest ∧ lf ∉ line ∧ IsGetLine (stripCrs line) path

/-- The path token that `Parse` cuts out of the text before the first NUL. -/
def PathToken (data path : Bytes) : Prop :=
  ∃ method rest, data.takeWhile (· ≠ nul) = method ++ space :: (path ++ space :: rest) ∧
    space ∉ method ∧ space ∉ path

/-- The three tokens of a request line that an LF ends. -/
def LineTokens (data method path version : Bytes) : Prop :=
  ∃ rest, data.takeWhile (· ≠ nul) =
      method ++ space :: (path ++ space :: (version ++ lf :: rest)) ∧
    space ∉ method ∧ space ∉ path ∧ lf ∉ version

/-- The tokens that `Parse` accepts as a GET request. -/
def AcceptedTokens (method version : Bytes) : Prop :=
  TokenIs method.length method (ascii "GET") ∧
    (TokenIs (counted version) version (ascii "HTTP/1.1") ∨
      TokenIs (counted version) version (ascii "HTTP/1.0"))

/-- The line break the path token can hold is not read, and the tokens of an
accepted request line have the lengths that `Parse` counts and no CR in the
path. -/
def LineSafe (data : Bytes) : Prop :=
  (∀ path, PathToken data path → lf ∉ path.take (intOfSize path.length).toNat) ∧
  ∀ method path version, LineTokens data method path version →
    AcceptedTokens method version →
      method.length = 3 ∧ counted version = 8 ∧ path.length < 2 ^ 31 ∧ cr ∉ path

theorem pathToken_iff (data path : Bytes) :
    PathToken data path ↔ (readHead data).path = some path := by
  constructor
  · rintro ⟨method, rest, htext, hm, hp⟩
    exact readHead_path htext hm hp
  · intro hpath
    have hshape := readHead_shape data
    generalize readHead data = head at hshape hpath
    cases hshape with
    | inMethod => cases hpath
    | inPath => cases hpath
    | inVersion method path rest htext hm hp =>
        cases hpath
        exact ⟨method, rest, htext, hm, hp⟩
    | inLines method path version rest htext hm hp =>
        cases hpath
        exact ⟨method, version ++ lf :: rest, htext, hm, hp⟩

theorem exists_lineTokens {data version : Bytes} (h : (readHead data).version = some version) :
    ∃ method path, LineTokens data method path version := by
  have hshape := readHead_shape data
  generalize readHead data = head at hshape h
  cases hshape with
  | inMethod => cases h
  | inPath => cases h
  | inVersion => cases h
  | inLines method path version rest htext hm hp hv =>
      cases h
      exact ⟨method, path, rest, htext, hm, hp, hv⟩

theorem LineTokens.readHead_eq {data method path version : Bytes}
    (h : LineTokens data method path version) :
    (readHead data).method = some method ∧ (readHead data).path = some path ∧
      (readHead data).version = some version := by
  obtain ⟨rest, htext, hm, hp, hv⟩ := h
  rw [readHead_lines htext hm hp hv]
  exact ⟨rfl, rfl, rfl⟩

theorem LineTokens.unique {data method path version method' path' version' : Bytes}
    (h : LineTokens data method path version) (h' : LineTokens data method' path' version') :
    method = method' ∧ path = path' ∧ version = version' := by
  obtain ⟨hm, hp, hv⟩ := h.readHead_eq
  obtain ⟨hm', hp', hv'⟩ := h'.readHead_eq
  exact ⟨Option.some_inj.mp (hm.symm.trans hm'), Option.some_inj.mp (hp.symm.trans hp'),
    Option.some_inj.mp (hv.symm.trans hv')⟩

theorem isGet_version_iff (data : Bytes) :
    (readHead data).IsGet ∧ ((readHead data).IsVersion (ascii "HTTP/1.1") ∨
        (readHead data).IsVersion (ascii "HTTP/1.0")) ↔
      ∃ method path version, LineTokens data method path version ∧
        AcceptedTokens method version := by
  constructor
  · rintro ⟨⟨method, hmethod, hget⟩, hversions⟩
    have htokens (version : Bytes) (hversion : (readHead data).version = some version) :
        ∃ path, LineTokens data method path version := by
      obtain ⟨first, path, htokens⟩ := exists_lineTokens hversion
      have hfirst := htokens.readHead_eq.1
      rw [hmethod, Option.some_inj] at hfirst
      exact ⟨path, hfirst ▸ htokens⟩
    rcases hversions with ⟨version, hversion, h11⟩ | ⟨version, hversion, h10⟩
    · obtain ⟨path, hline⟩ := htokens version hversion
      exact ⟨method, path, version, hline, hget, .inl h11⟩
    · obtain ⟨path, hline⟩ := htokens version hversion
      exact ⟨method, path, version, hline, hget, .inr h10⟩
  · rintro ⟨method, path, version, htokens, hget, hversions⟩
    obtain ⟨hmethod, -, hversion⟩ := htokens.readHead_eq
    exact ⟨⟨method, hmethod, hget⟩, hversions.imp (fun h11 => ⟨version, hversion, h11⟩)
      (fun h10 => ⟨version, hversion, h10⟩)⟩

theorem not_mem_of_plain {part : Bytes} (h : ∀ c ∈ part, Plain c) :
    cr ∉ part ∧ lf ∉ part ∧ nul ∉ part :=
  ⟨fun hc => (h cr hc).1 rfl, fun hc => (h lf hc).2.1 rfl, fun hc => (h nul hc).2.2 rfl⟩

theorem http10_plain : ∀ c ∈ ascii "HTTP/1.0", Plain c := by decide +kernel

theorem version_plain {version : Bytes}
    (h : version = ascii "HTTP/1.1" ∨ version = ascii "HTTP/1.0") :
    ∀ c ∈ version, Plain c := by
  rcases h with rfl | rfl
  · exact http11_plain
  · exact http10_plain

/-- Starting with a GET line, in terms of the tokens. -/
theorem startsWithGet_iff (data path : Bytes) :
    StartsWithGet data path ↔
      ∃ version, LineTokens data (ascii "GET") path version ∧
        (stripCrs version = ascii "HTTP/1.1" ∨ stripCrs version = ascii "HTTP/1.0") ∧
        cr ∉ path ∧ lf ∉ path := by
  obtain ⟨-, hgetlf, hgetnul⟩ := not_mem_of_plain (fun c hc => (get_plain c hc).1)
  have hgetspace : space ∉ ascii "GET" := fun hc => (get_plain space hc).2 rfl
  constructor
  · rintro ⟨line, rest, rfl, hlf, version, hversion, hline, hplain⟩
    obtain ⟨crs, hcrs, hsplit⟩ := eq_stripCrs_append line
    rw [hline] at hsplit
    simp only [List.append_assoc, List.cons_append] at hsplit
    obtain ⟨hcr, hpathlf, hpathnul⟩ := not_mem_of_plain (fun c hc => (hplain c hc).1)
    have hspace : space ∉ path := fun hc => (hplain space hc).2 rfl
    obtain ⟨hvcr, hvlf, hvnul⟩ := not_mem_of_plain (version_plain hversion)
    have hcrslf := not_mem_blank hcrs lf_ne_cr
    have hcrsnul := not_mem_blank hcrs nul_ne_cr
    have hnul : nul ∉ line ++ [lf] := by
      rw [hsplit]
      simp [hgetnul, hpathnul, hvnul, hcrsnul, space_ne_nul.symm]
    refine ⟨version ++ crs, ⟨rest.takeWhile (· ≠ nul), ?_, hgetspace, hspace, ?_⟩, ?_, hcr,
      hpathlf⟩
    · rw [← List.singleton_append, ← List.append_assoc, text_append rest hnul, hsplit]
      simp
    · simp [hvlf, hcrslf]
    · rwa [stripCrs_blank version hcrs, stripCrs_eq_self hvcr]
  · rintro ⟨version, ⟨rest, htext, -, hspace, hv⟩, hversion, hcr, hlf⟩
    have hnul := nul_not_mem_text data
    rw [htext] at hnul
    have hpathnul : nul ∉ path := (not_mem_split (not_mem_split hnul).2).1
    obtain ⟨tail, hdata⟩ := exists_text_append data
    rw [htext] at hdata
    refine ⟨ascii "GET" ++ space :: (path ++ space :: version), rest ++ tail, ?_, ?_,
      stripCrs version, hversion, ?_, ?_⟩
    · rw [← hdata]
      simp
    · simp [hgetlf, hlf, hv, space_ne_lf.symm]
    · rw [stripCrs_cons _ _ space_ne_cr, stripCrs_cons _ _ space_ne_cr]
    · intro c hc
      exact ⟨⟨ne_of_mem_of_not_mem hc hcr, ne_of_mem_of_not_mem hc hlf,
        ne_of_mem_of_not_mem hc hpathnul⟩, ne_of_mem_of_not_mem hc hspace⟩

/-- `Parse` reports a GET request exactly when the first line of the data is
one, its path is the reported one, and no path ever holds an LF. -/
def FromFirstLine (block : Nat) (data : Bytes) : Prop :=
  ∃ res r, parse (HttpRequest.new.append data block) = some (res, r) ∧
    (r.method = .get ∧ (r.httpVer = .http11 ∨ r.httpVer = .http10) ↔
      ∃ path, StartsWithGet data path) ∧
    (∀ path, StartsWithGet data path → r.resourcePath = .ok path) ∧
    ∀ path, r.resourcePath = .ok path → lf ∉ path

theorem stored_path_lf (block : Nat) (data : Bytes) :
    (∀ path, ((readHead data).stored block data).resourcePath = .ok path → lf ∉ path) ↔
      ∀ path, PathToken data path → lf ∉ path.take (intOfSize path.length).toNat := by
  simp only [pathToken_iff, stored_resourcePath]
  cases (readHead data).path with
  | none => simp
  | some path => simp [not_mem_partString]

/-- The tokens of a first line that asks for a path. -/
theorem StartsWithGet.accepted {data path : Bytes} (h : StartsWithGet data path) :
    ∃ version, LineTokens data (ascii "GET") path version ∧
      AcceptedTokens (ascii "GET") version ∧ counted version = 8 ∧ cr ∉ path := by
  obtain ⟨version, htokens, hversion, hcr, -⟩ := (startsWithGet_iff data path).mp h
  have hget : TokenIs (ascii "GET").length (ascii "GET") (ascii "GET") :=
    ⟨intOfSize_of_lt (by decide), List.take_length⟩
  rcases hversion with h11 | h10
  · rw [stripCrs_eq_iff (not_mem_of_plain http11_plain).1 (by decide)] at h11
    exact ⟨version, htokens, ⟨hget, .inl h11.1⟩, h11.2, hcr⟩
  · rw [stripCrs_eq_iff (not_mem_of_plain http10_plain).1 (by decide)] at h10
    exact ⟨version, htokens, ⟨hget, .inr h10.1⟩, h10.2, hcr⟩

theorem LineSafe.startsWithGet {data method path version : Bytes} (h : LineSafe data)
    (htokens : LineTokens data method path version) (haccepted : AcceptedTokens method version) :
    StartsWithGet data path := by
  obtain ⟨hlength, hcounted, hpath, hcr⟩ := h.2 method path version htokens haccepted
  obtain ⟨⟨-, htake⟩, hversions⟩ := haccepted
  have hmethod : method = ascii "GET" := by
    rw [← htake]
    exact (List.take_of_length_le hlength.le).symm
  have hlf : lf ∉ path := by
    have hread := h.1 path ((pathToken_iff data path).mpr htokens.readHead_eq.2.1)
    rwa [intOfSize_of_lt hpath, Int.toNat_natCast, List.take_length] at hread
  rw [hmethod] at htokens
  refine (startsWithGet_iff data path).mpr ⟨version, htokens, ?_, hcr, hlf⟩
  rcases hversions with h11 | h10
  · exact .inl ((stripCrs_eq_iff (not_mem_of_plain http11_plain).1 (by decide)).mpr
      ⟨h11, hcounted⟩)
  · exact .inr ((stripCrs_eq_iff (not_mem_of_plain http10_plain).1 (by decide)).mpr
      ⟨h10, hcounted⟩)

theorem requestLine_iff (block : Nat) (data : Bytes) :
    FromFirstLine block data ↔ LineSafe data := by
  obtain ⟨r, hparse, hmethod, hversion, hpath, -, -⟩ := parse_reports block data
  have haccepts : r.method = .get ∧ (r.httpVer = .http11 ∨ r.httpVer = .http10) ↔
      ∃ method path version, LineTokens data method path version ∧
        AcceptedTokens method version := by
    rw [hmethod, hversion, stored_method_get, stored_http11, stored_http10, isGet_version_iff]
  have hlf := stored_path_lf block data
  rw [← hpath] at hlf
  constructor
  · rintro ⟨res, r', hparse', hfirst, hsame, hnone⟩
    rw [hparse] at hparse'
    cases hparse'
    refine ⟨hlf.mp hnone, ?_⟩
    intro method path version htokens haccepted
    obtain ⟨other, hstarts⟩ := hfirst.mp (haccepts.mpr ⟨method, path, version, htokens, haccepted⟩)
    obtain ⟨line, hother, -, hcounted, hcr⟩ := hstarts.accepted
    obtain ⟨rfl, rfl, rfl⟩ := htokens.unique hother
    have hread := hsame path hstarts
    rw [hpath, stored_resourcePath, htokens.readHead_eq.2.1] at hread
    exact ⟨rfl, hcounted, (partString_self path).mp hread, hcr⟩
  · intro hsafe
    refine ⟨_, r, hparse, ?_, ?_, hlf.mpr hsafe.1⟩
    · rw [haccepts]
      constructor
      · rintro ⟨method, path, version, htokens, haccepted⟩
        exact ⟨path, hsafe.startsWithGet htokens haccepted⟩
      · rintro ⟨path, hstarts⟩
        obtain ⟨version, htokens, haccepted, -⟩ := hstarts.accepted
        exact ⟨_, path, version, htokens, haccepted⟩
    · intro path hstarts
      obtain ⟨version, htokens, haccepted, -⟩ := hstarts.accepted
      obtain ⟨-, -, hsmall, -⟩ := hsafe.2 _ path version htokens haccepted
      rw [hpath, stored_resourcePath, htokens.readHead_eq.2.1]
      exact (partString_self path).mpr hsmall

/-- `URL` reads over the end of the first line. -/
theorem not_fromFirstLine_split : ¬ FromFirstLine 0 (ascii "GET /a\nb HTTP/1.1\n") := by
  rintro ⟨res, r, hparse, -, -, hlf⟩
  have hpath : (parse (HttpRequest.new.append (ascii "GET /a\nb HTTP/1.1\n") 0)).map
      (fun result => result.2.resourcePath) = some (.ok (ascii "/a\nb")) := by
    decide +kernel
  rw [hparse, Option.map_some, Option.some_inj] at hpath
  exact hlf _ hpath (by decide +kernel)

end ModServer.Http
