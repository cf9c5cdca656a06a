import ModServer.Http.Incremental
import ModServer.Library.Machine

/-!
A request under any sequence of `Append`, `Clear` and `Parse` calls. The first
`Parse` that sees data saves `FINISHED`, and no later call takes that back, so
a request is either as it was constructed, up to its data, or finished.
-/

namespace ModServer.Http

open Library

/-- The calls a user of a request can make. An `Append` comes with the storage
that the string occupies afterwards. -/
inductive Call where
  | append (data : Bytes) (block : Nat)
  | clear
  | parse
  deriving DecidableEq, Repr

/-- `Parse` does not return. -/
inductive CallFault where
  | hang
  deriving DecidableEq, Repr

def HttpRequest.call (r : HttpRequest) : Call → Except CallFault HttpRequest
  | .append data block => .ok (r.append data block)
  | .clear => .ok r.clear
  | .parse =>
      match Http.parse r with
      | none => .error .hang
      | some (_, next) => .ok next

def requestCalls : Machine HttpRequest Call CallFault where
  start r := r = .new
  step := HttpRequest.call

/-- The states that some calls on a new request lead to. -/
abbrev HttpRequest.Reached (r : HttpRequest) : Prop :=
  requestCalls.Reachable (fun _ _ => True) r

/-- Only the data differs from that of a new request. -/
def HttpRequest.Untouched (r : HttpRequest) : Prop :=
  r = { HttpRequest.new with request := r.request }

theorem HttpRequest.Untouched.append {r : HttpRequest} (h : r.Untouched) (data : Bytes)
    (block : Nat) : (r.append data block).Untouched := by
  unfold Untouched at h ⊢
  rw [h]
  rfl

theorem HttpRequest.Untouched.clear {r : HttpRequest} (h : r.Untouched) : r.clear.Untouched := by
  unfold Untouched at h ⊢
  rw [h]
  rfl

theorem HttpRequest.Untouched.eq_append {r : HttpRequest} (h : r.Untouched) :
    r = HttpRequest.new.append r.data r.request.block := by
  unfold Untouched at h
  rw [h]
  rfl

/-- A `Parse` of a request that was never parsed before. -/
theorem parse_untouched {r : HttpRequest} (h : r.Untouched) (hdata : r.data ≠ []) :
    parse r = some (⟨.finished, (readHead r.data).stop⟩,
      (readHead r.data).stored r.request.block r.data) := by
  conv_lhs => rw [h.eq_append]
  exact parse_readHead _ hdata

/-- All that a `Parse` can do in a reached state. -/
theorem parse_cases {r : HttpRequest} (h : r.Untouched ∨ r.parseRes.status = .finished) :
    (r.data.length ≤ r.parseRes.stoppedAt ∧
      parse r = some (⟨.error, r.parseRes.stoppedAt⟩, r)) ∨
    (r.Untouched ∧ r.data ≠ [] ∧
      parse r = some (⟨.finished, (readHead r.data).stop⟩,
        (readHead r.data).stored r.request.block r.data)) ∨
    (r.parseRes.status = .finished ∧ parse r = some (r.parseRes, r.wiped)) := by
  rcases Nat.lt_or_ge r.parseRes.stoppedAt r.data.length with hwithin | hbeyond
  · rcases h with huntouched | hfinished
    · have hdata : r.data ≠ [] := List.ne_nil_of_length_pos (by omega)
      exact .inr (.inl ⟨huntouched, hdata, parse_untouched huntouched hdata⟩)
    · exact .inr (.inr ⟨hfinished, parse_again hfinished hwithin⟩)
  · exact .inl ⟨hbeyond, parse_out_of_bounds hbeyond⟩

theorem HttpRequest.Reached.untouched_or_finished {r : HttpRequest} (h : r.Reached) :
    r.Untouched ∨ r.parseRes.status = .finished := by
  apply Machine.Reachable.invariant (P := fun r => r.Untouched ∨ r.parseRes.status = .finished)
    _ _ h
  · rintro r rfl
    exact .inl rfl
  · intro r call next _ hr _ hnext
    cases call with
    | append data block =>
        cases hnext
        exact hr.imp_left (fun huntouched => HttpRequest.Untouched.append huntouched data block)
    | clear =>
        cases hnext
        exact hr.imp_left HttpRequest.Untouched.clear
    | parse =>
        rcases parse_cases hr with ⟨-, hparse⟩ | ⟨-, -, hparse⟩ | ⟨hfinished, hparse⟩
        · simp only [requestCalls, HttpRequest.call, hparse] at hnext
          cases hnext
          exact hr
        · simp only [requestCalls, HttpRequest.call, hparse] at hnext
          cases hnext
          exact .inr rfl
        · simp only [requestCalls, HttpRequest.call, hparse] at hnext
          cases hnext
          exact .inr hfinished

/-- The states in which the loop of a `Parse` starts an iteration. -/
inductive Iterates (entry : LoopState) : LoopState → Prop
  | entry : entry.status ≠ .error → entry.status ≠ .finished → Iterates entry entry
  | next {st : LoopState} : Iterates entry st →
      (parseIteration (getChar st.request.data st.currentPos) st).status ≠ .error →
      (parseIteration (getChar st.request.data st.currentPos) st).status ≠ .finished →
      Iterates entry (parseIteration (getChar st.request.data st.currentPos) st)

/-- One iteration in a working state never gives `MORE_DATA`. -/
theorem parseIteration_moreData (c : UInt8) (st : LoopState) (h : st.status.Active) :
    (parseIteration c st).status ≠ .moreData := by
  have hcases := parseIteration_cases c st h
  generalize parseIteration c st = next at hcases ⊢
  cases hcases with
  | extend => exact h.2.1
  | skip => exact h.2.1
  | _ => simp [LoopState.nextPiece]

/-- The loop stays in the working states. -/
theorem Iterates.active {entry st : LoopState} (h : Iterates entry st)
    (hentry : entry.status ≠ .moreData) : st.status.Active := by
  induction h with
  | entry herror hfinished => exact ⟨hfinished, hentry, herror⟩
  | next _ herror hfinished ih => exact ⟨hfinished, parseIteration_moreData _ _ ih, herror⟩

theorem HttpRequest.Reached.loopEntry_status {r : HttpRequest} (h : r.Reached) :
    (loopEntry r).status ≠ .moreData := by
  change r.parseRes.status ≠ .moreData
  rcases h.untouched_or_finished with huntouched | hfinished
  · rw [huntouched.eq_append]
    simp [HttpRequest.new]
  · simp [hfinished]

/-- A call never lowers the saved offset. -/
theorem call_stoppedAt {r next : HttpRequest} {call : Call} (h : r.Reached)
    (hnext : r.call call = .ok next) : r.parseRes.stoppedAt ≤ next.parseRes.stoppedAt := by
  cases call with
  | append data block =>
      cases hnext
      exact le_rfl
  | clear =>
      cases hnext
      exact le_rfl
  | parse =>
      rcases parse_cases h.untouched_or_finished with
        ⟨-, hparse⟩ | ⟨huntouched, -, hparse⟩ | ⟨-, hparse⟩
      · simp only [HttpRequest.call, hparse] at hnext
        cases hnext
        exact le_rfl
      · have hzero : r.parseRes.stoppedAt = 0 := by
          rw [huntouched.eq_append]
          rfl
        rw [hzero]
        exact Nat.zero_le _
      · simp only [HttpRequest.call, hparse] at hnext
        cases hnext
        exact le_rfl

/-- In every reached state `Parse` returns, its loop never starts an iteration
with `MORE_DATA`, and `ERROR` means that nothing changed. No call lowers the
saved offset. -/
theorem parse_reached {r : HttpRequest} (h : r.Reached) :
    (∃ res next, parse r = some (res, next) ∧ (res.status = .error → next = r)) ∧
    (∀ st, Iterates (loopEntry r) st → st.status ≠ .moreData) ∧
    ∀ call next, r.call call = .ok next → r.parseRes.stoppedAt ≤ next.parseRes.stoppedAt := by
  refine ⟨?_, ?_, fun call next hnext => call_stoppedAt h hnext⟩
  · rcases parse_cases h.untouched_or_finished with
      ⟨-, hparse⟩ | ⟨-, -, hparse⟩ | ⟨hfinished, hparse⟩
    · exact ⟨_, _, hparse, fun _ => rfl⟩
    · exact ⟨_, _, hparse, nofun⟩
    · refine ⟨_, _, hparse, fun herror => ?_⟩
      rw [hfinished] at herror
      cases herror
  · intro st hst
    exact (hst.active h.loopEntry_status).2.1

theorem reached_append (data : Bytes) (block : Nat) :
    (HttpRequest.new.append data block).Reached :=
  .step (.append data block) (.start rfl) trivial rfl

/-- One `Append` and one `Parse`. -/
theorem reached_parse (block : Nat) {data : Bytes} (h : data ≠ []) :
    ((readHead data).stored block data).Reached := by
  refine .step .parse (reached_append data block) trivial ?_
  simp only [requestCalls, HttpRequest.call, parse_readHead block h]

/-- A request that was parsed, cleared and given more. -/
def clearedRequest : HttpRequest :=
  ((readHead (ascii "GET /")).stored 0 (ascii "GET /")).clear.append (ascii "GET /a HTTP/1.1") 1

theorem reached_cleared : clearedRequest.Reached :=
  .step (.append (ascii "GET /a HTTP/1.1") 1)
    (.step .clear (reached_parse 0 (by decide)) trivial rfl) trivial rfl

theorem parse_reached_cleared :
    clearedRequest.Reached ∧
      (∃ res next, parse clearedRequest = some (res, next) ∧
        (res.status = .error → next = clearedRequest)) ∧
      (∀ st, Iterates (loopEntry clearedRequest) st → st.status ≠ .moreData) ∧
      ∀ call next, clearedRequest.call call = .ok next →
        clearedRequest.parseRes.stoppedAt ≤ next.parseRes.stoppedAt :=
  ⟨reached_cleared, parse_reached reached_cleared⟩

/-- After `Clear` the request parses new data like a new request. -/
def ClearsLikeNew (r : HttpRequest) (data : Bytes) (block other : Nat) : Prop :=
  ∃ res next res' next',
    parse (r.clear.append data block) = some (res, next) ∧
    parse (HttpRequest.new.append data other) = some (res', next') ∧
    res = res' ∧ next.method = next'.method ∧ next.httpVer = next'.httpVer ∧
    next.resourcePath = next'.resourcePath ∧ next.headerStrings = next'.headerStrings

/-- Never parsed, or what was kept of the old data happens to be what the new
data gives. -/
def ClearHarmless (r : HttpRequest) (data : Bytes) (block : Nat) : Prop :=
  r.parseRes.status = .start ∨
  (r.parseRes.stoppedAt = (readHead data).stop ∧ (readHead data).stop < data.length ∧
    (readHead data).Junk ∧
    r.headers.map (·.toString ⟨block, data⟩) =
      (readHead data).lines.map (fun line => partString (counted line) line))

theorem clear_untouched {r : HttpRequest} {data : Bytes} (block other : Nat)
    (h : r.Untouched) (hdata : data ≠ []) : ClearsLikeNew r data block other := by
  have hnew : r.clear.append data block = HttpRequest.new.append data block :=
    (h.clear.append data block).eq_append
  obtain ⟨hmethod, hversion, hpath, hheaders⟩ := @stored_congr data data block other rfl
  rw [ClearsLikeNew, hnew]
  exact ⟨_, _, _, _, parse_readHead block hdata, parse_readHead other hdata, rfl, hmethod,
    hversion, hpath, hheaders⟩

/-- A finished request after `Clear`, when the new data is longer than the old
data was read. -/
theorem clear_finished {r : HttpRequest} {data : Bytes} (block other : Nat)
    (h : r.parseRes.status = .finished) (hpast : r.parseRes.stoppedAt < data.length) :
    ClearsLikeNew r data block other ↔
      r.parseRes.stoppedAt = (readHead data).stop ∧ (readHead data).Junk ∧
        r.headers.map (·.toString ⟨block, data⟩) =
          (readHead data).lines.map (fun line => partString (counted line) line) := by
  have hdata : data ≠ [] := List.ne_nil_of_length_pos (by omega)
  have hparse : parse (r.clear.append data block) =
      some (r.parseRes, (r.clear.append data block).wiped) := parse_again h hpast
  have hmethod := stored_noMethod other data
  have hpath := stored_noPath other data
  have hversion := stored_noVersion other data
  have hres : r.parseRes = ⟨.finished, (readHead data).stop⟩ ↔
      r.parseRes.stoppedAt = (readHead data).stop := by
    rw [← h]
    cases r.parseRes
    simp
  have hwiped : ClearsLikeNew r data block other ↔
      r.parseRes = ⟨.finished, (readHead data).stop⟩ ∧
        .invalidMethod = ((readHead data).stored other data).method ∧
        .invalidVersion = ((readHead data).stored other data).httpVer ∧
        .ok [] = ((readHead data).stored other data).resourcePath ∧
        r.headers.map (·.toString ⟨block, data⟩) =
          ((readHead data).stored other data).headerStrings := by
    rw [ClearsLikeNew, hparse, parse_readHead other hdata]
    constructor
    · rintro ⟨res, next, res', next', hfirst, hsecond, hsame⟩
      cases hfirst
      cases hsecond
      exact hsame
    · intro hsame
      exact ⟨_, _, _, _, rfl, rfl, hsame⟩
  rw [hwiped, hres, hmethod, hversion, hpath, stored_headerStrings, Head.Junk]
  constructor
  · rintro ⟨hstop, hget, ⟨h11, h10⟩, hempty, hheaders⟩
    exact ⟨hstop, ⟨hget, hempty, h11, h10⟩, hheaders⟩
  · rintro ⟨hstop, ⟨hget, hempty, h11, h10⟩, hheaders⟩
    exact ⟨hstop, hget, ⟨h11, h10⟩, hempty, hheaders⟩

theorem clearsLikeNew_iff {r : HttpRequest} {data : Bytes} (block other : Nat)
    (h : r.Reached) (hdata : data ≠ []) :
    ClearsLikeNew r data block other ↔ ClearHarmless r data block := by
  unfold ClearHarmless
  rcases h.untouched_or_finished with huntouched | hfinished
  · have hstart : r.parseRes.status = .start := by
      rw [huntouched.eq_append]
      rfl
    exact ⟨fun _ => .inl hstart, fun _ => clear_untouched block other huntouched hdata⟩
  · have hstatus : r.parseRes.status ≠ .start := by
      simp [hfinished]
    rcases Nat.lt_or_ge r.parseRes.stoppedAt data.length with hpast | hend
    · rw [clear_finished block other hfinished hpast]
      constructor
      · rintro ⟨hstop, hrest⟩
        exact .inr ⟨hstop, hstop ▸ hpast, hrest⟩
      · rintro (hstart | ⟨hstop, -, hrest⟩)
        · exact absurd hstart hstatus
        · exact ⟨hstop, hrest⟩
    · have herror : parse (r.clear.append data block) =
          some (⟨.error, r.parseRes.stoppedAt⟩, r.clear.append data block) :=
        parse_out_of_bounds hend
      constructor
      · rintro ⟨res, next, res', next', hfirst, hsecond, hsame, -⟩
        rw [herror] at hfirst
        rw [parse_readHead other hdata] at hsecond
        cases hfirst
        cases hsecond
        cases hsame
      · rintro (hstart | ⟨hstop, hshort, -⟩)
        · exact absurd hstart hstatus
        · omega

/-- A request that was parsed once and stopped at the offset 17. -/
def parsedRequest : HttpRequest :=
  (readHead (ascii "GET / HTTP/1.1\nA\n\n")).stored 0 (ascii "GET / HTTP/1.1\nA\n\n")

/-- The saved offset outlives the data: the new data seems to end before it. -/
theorem not_clearsLikeNew_parsed :
    parsedRequest.Reached ∧ ascii "GET" ≠ [] ∧ ¬ ClearsLikeNew parsedRequest (ascii "GET") 0 0 := by
  refine ⟨reached_parse 0 (by decide), by decide, ?_⟩
  rintro ⟨res, next, res', next', hfirst, hsecond, hsame, -⟩
  have hcleared : (parse (parsedRequest.clear.append (ascii "GET") 0)).map
      (fun result => result.1.status) = some .error := by
    decide +kernel
  have hnew : (parse (HttpRequest.new.append (ascii "GET") 0)).map
      (fun result => result.1.status) = some .finished := by
    decide +kernel
  rw [hfirst, Option.map_some, hsame] at hcleared
  rw [hsecond, Option.map_some] at hnew
  rw [hnew] at hcleared
  cases hcleared

theorem clearsLikeNew_parsed :
    parsedRequest.Reached ∧ ascii "GET /a" ≠ [] ∧
      (ClearsLikeNew parsedRequest (ascii "GET /a") 0 1 ↔
        ClearHarmless parsedRequest (ascii "GET /a") 0) :=
  ⟨reached_parse 0 (by decide), by decide,
    clearsLikeNew_iff 0 1 (reached_parse 0 (by decide)) (by decide)⟩

end ModServer.Http
