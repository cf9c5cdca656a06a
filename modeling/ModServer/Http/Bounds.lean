import ModServer.Http.History

/-!
Where the pieces of a request lie. The loop of `Parse` moves the start of a
piece, its length and its own position separately, and a CR falls out of the
length. Still the piece never reaches behind the position, and each piece ends
before the delimiter behind which the next one starts.
-/

namespace ModServer.Http

/-- A range of offsets in the data. `last` is the offset behind it. -/
structure Range where
  first : Nat
  last : Nat
  first_le : first ≤ last

def Range.piece (block : Nat) (range : Range) : StringPiece :=
  ⟨some ⟨block, range.first⟩, (range.last - range.first : Nat)⟩

/-- The path covers the first range and the headers cover the others. Without a
range neither is there. -/
def Covers (block : Nat) (path : StringPiece) (headers : List StringPiece) :
    List Range → Prop
  | [] => path = .null ∧ headers = []
  | first :: others => path = first.piece block ∧ headers = others.map (Range.piece block)

theorem Covers.headers_eq_nil {block : Nat} {headers : List StringPiece} {ranges : List Range}
    (h : Covers block .null headers ranges) : headers = [] := by
  cases ranges with
  | nil => exact h.2
  | cons first others => cases h.1

theorem Covers.addHeader {block : Nat} {path : StringPiece} {headers : List StringPiece}
    {ranges : List Range} (h : Covers block path headers ranges) (hne : ranges ≠ [])
    (range : Range) :
    Covers block path (headers ++ [range.piece block]) (ranges ++ [range]) := by
  cases ranges with
  | nil => exact absurd rfl hne
  | cons first others =>
      refine ⟨h.1, ?_⟩
      change headers ++ [range.piece block] = (others ++ [range]).map (Range.piece block)
      rw [h.2, List.map_append]
      rfl

namespace LoopState

/-- The current piece lies in the part of the data that was looked at. -/
structure InBounds (block : Nat) (data : Bytes) (st : LoopState) : Prop where
  start : st.start.block = block
  piece : st.start.offset + st.pieceLen ≤ st.currentPos
  position : st.currentPos ≤ data.length

/-- The bytes that the current piece has so far. -/
def range (st : LoopState) : Range :=
  ⟨st.start.offset, st.start.offset + st.pieceLen, Nat.le_add_right _ _⟩

theorem InBounds.piece_eq {block : Nat} {data : Bytes} {st : LoopState} (h : st.InBounds block data)
    (hsize : data.length < 2 ^ 31) : st.piece = st.range.piece block := by
  have hpiece := h.piece
  have hposition := h.position
  have hstart : st.start = ⟨block, st.start.offset⟩ := by
    rw [← h.start]
  unfold LoopState.piece Range.piece LoopState.range
  rw [intOfSize_of_lt (by omega), ← hstart, Nat.add_sub_cancel_left]

/-- The pieces found so far, in front of the current one. A path is there from
`HTTP` on. -/
structure LaidOut (block : Nat) (data : Bytes) (ranges : List Range) (st : LoopState) : Prop where
  storage : st.request.request = ⟨block, data⟩
  bounds : st.InBounds block data
  covers : Covers block st.url st.request.headers ranges
  ordered : ranges.Pairwise (fun range next => range.last < next.first)
  before : ∀ range ∈ ranges, range.last < st.start.offset
  unset : st.status = .start ∨ st.status = .method ∨ st.status = .url → ranges = []
  set : st.status = .http ∨ st.status = .header ∨ st.status = .headerNewline → ranges ≠ []

end LoopState

theorem getChar_lt {data : Bytes} {pos : Nat} (h : getChar data pos ≠ nul) : pos < data.length := by
  unfold getChar at h
  split at h
  · exact absurd rfl h
  · omega

/-- What one iteration does to the pieces. -/
theorem LoopState.LaidOut.iteration {block : Nat} {data : Bytes} {ranges : List Range}
    {st next : LoopState} (h : st.LaidOut block data ranges) (hsize : data.length < 2 ^ 31)
    (hnext : Iteration (getChar data st.currentPos) st next) :
    ∃ found, next.LaidOut block data found := by
  obtain ⟨hstorage, hbounds, hcovers, hordered, hbefore, hunset, hset⟩ := h
  have hpiece := hbounds.piece
  have hposition := hbounds.position
  have hmoved : ∀ range ∈ ranges, range.last < st.currentPos + 1 := by
    intro range hrange
    have hlt := hbefore range hrange
    omega
  cases hnext with
  | start hst =>
      refine ⟨ranges, hstorage, ⟨congrArg StringBuf.block hstorage, ?_, hposition⟩, hcovers,
        hordered, ?_, fun _ => hunset (.inl hst), by simp⟩
      · change 0 + st.pieceLen ≤ st.currentPos
        omega
      · simp [hunset (.inl hst)]
  | finish =>
      exact ⟨ranges, hstorage, ⟨hbounds.start, hpiece, hposition⟩, hcovers, hordered, hbefore,
        by simp, by simp⟩
  | extend hnul =>
      have hwithin := getChar_lt hnul
      refine ⟨ranges, hstorage, ⟨hbounds.start, ?_, hwithin⟩, hcovers, hordered, hbefore, hunset,
        hset⟩
      change st.start.offset + (st.pieceLen + 1) ≤ st.currentPos + 1
      omega
  | skip hcr =>
      have hwithin : st.currentPos < data.length := getChar_lt (by simp [hcr])
      refine ⟨ranges, hstorage, ⟨hbounds.start, ?_, hwithin⟩, hcovers, hordered, hbefore, hunset,
        hset⟩
      change st.start.offset + st.pieceLen ≤ st.currentPos + 1
      omega
  | method hst hspace =>
      have hwithin : st.currentPos < data.length := getChar_lt (by simp [hspace])
      have hnone := hunset (.inr (.inl hst))
      exact ⟨ranges, hstorage, ⟨congrArg StringBuf.block hstorage, le_rfl, hwithin⟩, hcovers,
        hordered, hmoved, fun _ => hnone, by simp [nextPiece]⟩
  | url hst hspace =>
      have hwithin : st.currentPos < data.length := getChar_lt (by simp [hspace])
      have hnone := hunset (.inr (.inr hst))
      rw [hnone] at hcovers
      refine ⟨[st.range], hstorage, ⟨congrArg StringBuf.block hstorage, le_rfl, hwithin⟩,
        ⟨hbounds.piece_eq hsize, hcovers.2⟩, List.pairwise_singleton _ _, ?_, by simp [nextPiece],
        fun _ => List.cons_ne_nil _ _⟩
      intro range hrange
      rw [List.mem_singleton.mp hrange]
      exact Nat.lt_succ_of_le hpiece
  | http hst hlf =>
      have hwithin : st.currentPos < data.length := getChar_lt (by simp [hlf])
      exact ⟨ranges, hstorage, ⟨congrArg StringBuf.block hstorage, le_rfl, hwithin⟩, hcovers,
        hordered, hmoved, by simp [nextPiece], fun _ => hset (.inl hst)⟩
  | header hst hlf =>
      have hwithin : st.currentPos < data.length := getChar_lt (by simp [hlf])
      have hsome := hset (.inr (.inl hst))
      have hadded := hcovers.addHeader hsome st.range
      rw [← hbounds.piece_eq hsize] at hadded
      refine ⟨ranges ++ [st.range], hstorage,
        ⟨congrArg StringBuf.block hstorage, le_rfl, hwithin⟩, hadded, ?_, ?_, by simp [nextPiece],
        fun _ => List.append_ne_nil_of_left_ne_nil hsome _⟩
      · rw [List.pairwise_append]
        refine ⟨hordered, List.pairwise_singleton _ _, ?_⟩
        intro range hrange last hlast
        rw [List.mem_singleton.mp hlast]
        exact hbefore range hrange
      · intro range hrange
        rcases List.mem_append.mp hrange with hold | hnew
        · exact hmoved range hold
        · rw [List.mem_singleton.mp hnew]
          exact Nat.lt_succ_of_le hpiece
  | headerNewline hst =>
      exact ⟨ranges, hstorage, ⟨hbounds.start, hpiece, hposition⟩, hcovers, hordered, hbefore,
        by simp, fun _ => hset (.inr (.inr hst))⟩

/-- What the loop starts its next iteration with. -/
theorem LoopState.LaidOut.next {block : Nat} {data : Bytes} {ranges : List Range} {st : LoopState}
    (h : st.LaidOut block data ranges) (hsize : data.length < 2 ^ 31) (hactive : st.status.Active) :
    ∃ found,
      (parseIteration (getChar st.request.data st.currentPos) st).LaidOut block data found := by
  have hdata : st.request.data = data := congrArg StringBuf.bytes h.storage
  rw [hdata]
  exact h.iteration hsize (parseIteration_cases _ st hactive)

theorem loopEntry_status (block : Nat) (data : Bytes) :
    (loopEntry (HttpRequest.new.append data block)).status ≠ .moreData := by
  simp [loopEntry, HttpRequest.new, HttpRequest.append]

theorem loopEntry_laidOut (block : Nat) (data : Bytes) :
    (loopEntry (HttpRequest.new.append data block)).LaidOut block data [] :=
  ⟨rfl, ⟨rfl, le_rfl, Nat.zero_le _⟩, ⟨rfl, rfl⟩, .nil, by simp, fun _ => rfl, by
    simp [loopEntry, HttpRequest.new, HttpRequest.append]⟩

theorem Iterates.laidOut {block : Nat} {data : Bytes} {st : LoopState}
    (h : Iterates (loopEntry (HttpRequest.new.append data block)) st)
    (hsize : data.length < 2 ^ 31) : ∃ ranges, st.LaidOut block data ranges := by
  have hentry := loopEntry_status block data
  induction h with
  | entry => exact ⟨[], loopEntry_laidOut block data⟩
  | next hbefore _ _ ih =>
      obtain ⟨ranges, hlaidOut⟩ := ih
      exact hlaidOut.next hsize (hbefore.active hentry)

/-- Where an iteration can set the start: to the front of the data in `START`,
behind a delimiter in the other states. -/
theorem Iteration.start_cases {c : UInt8} {st next : LoopState} (h : Iteration c st next) :
    next.start = st.start ∨ next.start = ⟨st.request.request.block, 0⟩ ∨
      next.start = ⟨st.request.request.block, next.currentPos⟩ := by
  cases h with
  | start => exact .inr (.inl rfl)
  | finish => exact .inl rfl
  | extend => exact .inl rfl
  | skip => exact .inl rfl
  | method => exact .inr (.inr rfl)
  | url => exact .inr (.inr rfl)
  | http => exact .inr (.inr rfl)
  | header => exact .inr (.inr rfl)
  | headerNewline => exact .inl rfl

theorem exists_parseLoop {r next : HttpRequest} {res : ParseRes}
    (hwithin : r.parseRes.stoppedAt < r.data.length) (h : parse r = some (res, next)) :
    ∃ last, parseLoop (parseFuel r) (loopEntry r) = some last ∧
      res.stoppedAt = last.currentPos ∧ next = storeResults last := by
  rw [parse, if_neg (Nat.not_le.mpr hwithin)] at h
  obtain ⟨last, hlast, heq⟩ := Option.map_eq_some_iff.mp h
  cases heq
  exact ⟨last, hlast, rfl, rfl⟩

/-- The loop ends with the pieces laid out. -/
theorem parseLoop_laidOut {fuel block : Nat} {data : Bytes} {last : LoopState}
    (h : data.length < 2 ^ 31)
    (hlast : parseLoop fuel (loopEntry (HttpRequest.new.append data block)) = some last) :
    ∃ ranges, last.LaidOut block data ranges := by
  have hloop : last.status ≠ .moreData ∧ ∃ ranges, last.LaidOut block data ranges := by
    apply parseLoop_invariant _ _ hlast
    · rintro st ⟨hmore, ranges, hlaidOut⟩ herror hfinished
      have hactive : st.status.Active := ⟨hfinished, hmore, herror⟩
      exact ⟨parseIteration_moreData _ st hactive, hlaidOut.next h hactive⟩
    · exact ⟨loopEntry_status block data, [], loopEntry_laidOut block data⟩
  exact hloop.2

/-- Every iteration keeps to the data, and the pieces that are stored in the
end lie in it one behind the other. -/
theorem parse_inBounds (block : Nat) {data : Bytes} (h : data.length < 2 ^ 31) :
    (∀ st, Iterates (loopEntry (HttpRequest.new.append data block)) st →
      st.InBounds block data ∧
      ∀ next, parseIteration (getChar data st.currentPos) st = next →
        next.start = st.start ∨ next.start = ⟨block, 0⟩ ∨
          (next.start = ⟨block, next.currentPos⟩ ∧ next.currentPos ≤ data.length)) ∧
    ∃ res r ranges, parse (HttpRequest.new.append data block) = some (res, r) ∧
      Covers block r.resPath r.headers ranges ∧
      ranges.Pairwise (fun range next => range.last < next.first) ∧
      (∀ range ∈ ranges, range.last ≤ res.stoppedAt) ∧ res.stoppedAt ≤ data.length ∧
      (r.resPath = .null → r.headers = []) := by
  have hentry := loopEntry_status block data
  constructor
  · intro st hst
    obtain ⟨ranges, hlaidOut⟩ := hst.laidOut h
    have hcases := parseIteration_cases (getChar data st.currentPos) st (hst.active hentry)
    obtain ⟨found, hnext⟩ := hlaidOut.iteration h hcases
    have hstart := hcases.start_cases
    rw [hlaidOut.storage] at hstart
    refine ⟨hlaidOut.bounds, ?_⟩
    rintro next rfl
    exact hstart.imp_right (Or.imp_right (fun hnew => ⟨hnew, hnext.bounds.position⟩))
  · rcases eq_or_ne data [] with rfl | hne
    · exact ⟨_, _, [], parse_out_of_bounds le_rfl, ⟨rfl, rfl⟩, .nil, by simp, le_rfl, fun _ => rfl⟩
    · have hparse := parse_readHead block hne
      obtain ⟨last, hlast, hstopped, hstored⟩ :=
        exists_parseLoop (List.length_pos_of_ne_nil hne) hparse
      obtain ⟨ranges, hlaidOut⟩ := parseLoop_laidOut h hlast
      have hcovers := hlaidOut.covers
      have hpiece := hlaidOut.bounds.piece
      refine ⟨_, _, ranges, hparse, ?_⟩
      rw [hstored, hstopped]
      refine ⟨hcovers, hlaidOut.ordered, ?_, hlaidOut.bounds.position, ?_⟩
      · intro range hrange
        have hlt := hlaidOut.before range hrange
        omega
      · intro hnone
        change last.url = .null at hnone
        rw [hnone] at hcovers
        exact hcovers.headers_eq_nil

/-- A path, and a header line with a CR in it. -/
def crRequest : Bytes := ascii "GET / HTTP/1.1\nA\rB\n\n"

theorem parse_inBounds_request :
    crRequest.length < 2 ^ 31 ∧
      (∀ st, Iterates (loopEntry (HttpRequest.new.append crRequest 0)) st →
        st.InBounds 0 crRequest ∧
        ∀ next, parseIteration (getChar crRequest st.currentPos) st = next →
          next.start = st.start ∨ next.start = ⟨0, 0⟩ ∨
            (next.start = ⟨0, next.currentPos⟩ ∧ next.currentPos ≤ crRequest.length)) ∧
      ∃ res r ranges, parse (HttpRequest.new.append crRequest 0) = some (res, r) ∧
        Covers 0 r.resPath r.headers ranges ∧
        ranges.Pairwise (fun range next => range.last < next.first) ∧
        (∀ range ∈ ranges, range.last ≤ res.stoppedAt) ∧ res.stoppedAt ≤ crRequest.length ∧
        (r.resPath = .null → r.headers = []) :=
  ⟨by decide, parse_inBounds 0 (by decide)⟩

end ModServer.Http
