import ModServer.Http.Request

/-!
The loop of `Parse` as a fold over the bytes it has not looked at yet. Two
states of the loop do not consume the byte they see (`START`, and
`HEADER_NEWLINE` on the first byte of another header line), so a byte stands
for one iteration or for two. The end of the data acts as a NUL byte.
-/

namespace ModServer.Http

/-- The states in which an iteration of the loop does some work. -/
def ParseStatus.Active (status : ParseStatus) : Prop :=
  status ≠ .finished ∧ status ≠ .moreData ∧ status ≠ .error

/-- All iterations of the loop on one byte. -/
def onChar (c : UInt8) (st : LoopState) : LoopState :=
  match st.status with
  | .start => parseIteration c (parseIteration c st)
  | .headerNewline =>
      if c = cr ∨ c = lf then parseIteration c st
      else parseIteration c (parseIteration c st)
  | _ => parseIteration c st

def scan : LoopState → Bytes → LoopState
  | st, [] => onChar nul st
  | st, c :: rest =>
      if (onChar c st).status = .finished then onChar c st
      else scan (onChar c st) rest

@[simp] theorem cr_ne_nul : cr ≠ nul := by decide
@[simp] theorem lf_ne_nul : lf ≠ nul := by decide
@[simp] theorem lf_ne_cr : lf ≠ cr := by decide
@[simp] theorem space_ne_nul : space ≠ nul := by decide
@[simp] theorem nul_ne_cr : nul ≠ cr := by decide
@[simp] theorem nul_ne_lf : nul ≠ lf := by decide
@[simp] theorem space_ne_cr : space ≠ cr := by decide
@[simp] theorem space_ne_lf : space ≠ lf := by decide

/-- What one iteration can do. It moves past a byte only when that is not NUL. -/
inductive Iteration (c : UInt8) (st : LoopState) : LoopState → Prop
  | start : st.status = .start →
      Iteration c st { st with start := ⟨st.request.request.block, 0⟩, status := .method }
  | finish : st.status ≠ .start → Iteration c st { st with status := .finished }
  | extend : c ≠ nul → st.status ≠ .start → st.status ≠ .headerNewline →
      Iteration c st st.extend
  | skip : c = cr → st.status = .http ∨ st.status = .header ∨ st.status = .headerNewline →
      Iteration c st st.skip
  | method : st.status = .method → c = space →
      Iteration c st ({ st with method := st.piece }.nextPiece .url)
  | url : st.status = .url → c = space →
      Iteration c st ({ st with url := st.piece }.nextPiece .http)
  | http : st.status = .http → c = lf →
      Iteration c st ({ st with http := st.piece }.nextPiece .header)
  | header : st.status = .header → c = lf →
      Iteration c st
        ({ st with request := st.request.addHeader st.piece }.nextPiece .headerNewline)
  | headerNewline : st.status = .headerNewline → c ≠ cr → c ≠ lf →
      Iteration c st { st with status := .header }

theorem parseIteration_cases (c : UInt8) (st : LoopState) (h : st.status.Active) :
    Iteration c st (parseIteration c st) := by
  obtain ⟨hfinished, hmore, herror⟩ := h
  unfold parseIteration
  split
  · rename_i hst
    exact .start hst
  · rename_i hst
    split_ifs with hnul hspace
    · exact .finish (by simp [hst])
    · exact .method hst hspace
    · exact .extend hnul (by simp [hst]) (by simp [hst])
  · rename_i hst
    split_ifs with hnul hspace
    · exact .finish (by simp [hst])
    · exact .url hst hspace
    · exact .extend hnul (by simp [hst]) (by simp [hst])
  · rename_i hst
    split_ifs with hnul hcr hlf
    · exact .finish (by simp [hst])
    · exact .skip hcr (.inl hst)
    · exact .http hst hlf
    · exact .extend hnul (by simp [hst]) (by simp [hst])
  · rename_i hst
    split_ifs with hnul hcr hlf
    · exact .finish (by simp [hst])
    · exact .skip hcr (.inr (.inl hst))
    · exact .header hst hlf
    · exact .extend hnul (by simp [hst]) (by simp [hst])
  · rename_i hst
    split_ifs with hcr hlf
    · exact .skip hcr (.inr (.inr hst))
    · exact .finish (by simp [hst])
    · exact .headerNewline hst hcr hlf
  · cases hst : st.status <;> contradiction

/-- An iteration that does not leave its byte to the next one stops on it, or
consumes it and stays in a working state. The storage of the request is never
touched. -/
theorem Iteration.stops_or_consumes {c : UInt8} {st next : LoopState} (h : Iteration c st next)
    (hactive : st.status.Active) (hstart : st.status ≠ .start)
    (hnewline : st.status = .headerNewline → c = cr ∨ c = lf) :
    next.request.request = st.request.request ∧
    ((next.status = .finished ∧ next.currentPos = st.currentPos) ∨
      (c ≠ nul ∧ next.status.Active ∧ next.currentPos = st.currentPos + 1)) := by
  cases h with
  | start hst => exact absurd hst hstart
  | finish => exact ⟨rfl, .inl ⟨rfl, rfl⟩⟩
  | extend hnul => exact ⟨rfl, .inr ⟨hnul, hactive, rfl⟩⟩
  | skip hcr => exact ⟨rfl, .inr ⟨by simp [hcr], hactive, rfl⟩⟩
  | method _ hspace =>
      exact ⟨rfl, .inr ⟨by simp [hspace], by simp [ParseStatus.Active, LoopState.nextPiece], rfl⟩⟩
  | url _ hspace =>
      exact ⟨rfl, .inr ⟨by simp [hspace], by simp [ParseStatus.Active, LoopState.nextPiece], rfl⟩⟩
  | http _ hlf =>
      exact ⟨rfl, .inr ⟨by simp [hlf], by simp [ParseStatus.Active, LoopState.nextPiece], rfl⟩⟩
  | header _ hlf =>
      exact ⟨rfl, .inr ⟨by simp [hlf], by simp [ParseStatus.Active, LoopState.nextPiece], rfl⟩⟩
  | headerNewline hst hcr hlf => exact absurd (hnewline hst) (not_or.mpr ⟨hcr, hlf⟩)

/-- What the iterations on one byte can do. NUL always stops the loop. -/
theorem onChar_cases (c : UInt8) (st : LoopState) (h : st.status.Active) :
    (onChar c st).request.request = st.request.request ∧
    (((onChar c st).status = .finished ∧ (onChar c st).currentPos = st.currentPos) ∨
      (c ≠ nul ∧ (onChar c st).status.Active ∧
        (onChar c st).currentPos = st.currentPos + 1)) := by
  have honce (moved : LoopState) (hactive : moved.status.Active) (hstart : moved.status ≠ .start)
      (hnewline : moved.status = .headerNewline → c = cr ∨ c = lf) :=
    (parseIteration_cases c moved hactive).stops_or_consumes hactive hstart hnewline
  cases hst : st.status with
  | start =>
      have hfirst : parseIteration c st =
          { st with start := ⟨st.request.request.block, 0⟩, status := .method } := by
        simp [parseIteration, hst]
      simp only [onChar, hst, hfirst]
      apply honce <;> simp [ParseStatus.Active]
  | headerNewline =>
      by_cases hblank : c = cr ∨ c = lf
      · simp only [onChar, hst, if_pos hblank]
        exact honce st h (by simp [hst]) (fun _ => hblank)
      · have hfirst : parseIteration c st = { st with status := .header } := by
          simp [parseIteration, hst, not_or.mp hblank]
        simp only [onChar, hst, if_neg hblank, hfirst]
        apply honce <;> simp [ParseStatus.Active]
  | finished => exact absurd hst h.1
  | moreData => exact absurd hst h.2.1
  | error => exact absurd hst h.2.2
  | _ =>
      simp only [onChar, hst]
      apply honce st h <;> simp [hst]

theorem onChar_nul (st : LoopState) (h : st.status.Active) :
    (onChar nul st).status = .finished := by
  rcases (onChar_cases nul st h).2 with hstop | hconsume
  · exact hstop.1
  · exact absurd rfl hconsume.1

theorem parseLoop_ended (fuel : Nat) (st : LoopState) (h : st.status = .finished) :
    parseLoop fuel st = some st := by
  unfold parseLoop
  simp [h]

theorem parseLoop_iterate (fuel : Nat) (st : LoopState) (h : st.status.Active) :
    parseLoop (fuel + 1) st =
      parseLoop fuel (parseIteration (getChar st.request.data st.currentPos) st) := by
  rw [parseLoop]
  simp [h.1, h.2.2]

/-- What every iteration keeps holds when the loop has ended. -/
theorem parseLoop_invariant {P : LoopState → Prop}
    (hstep : ∀ st, P st → st.status ≠ .error → st.status ≠ .finished →
      P (parseIteration (getChar st.request.data st.currentPos) st))
    {fuel : Nat} {st last : LoopState} (hst : P st) (hlast : parseLoop fuel st = some last) :
    P last := by
  induction fuel generalizing st with
  | zero =>
      unfold parseLoop at hlast
      split at hlast
      · cases hlast
        exact hst
      · cases hlast
  | succ fuel ih =>
      unfold parseLoop at hlast
      split at hlast
      · cases hlast
        exact hst
      · rename_i hrunning
        obtain ⟨herror, hfinished⟩ := not_or.mp hrunning
        exact ih (hstep st hst herror hfinished) hlast

theorem parseLoop_mono {fuel more : Nat} {st result : LoopState}
    (hresult : parseLoop fuel st = some result) (hmore : fuel ≤ more) :
    parseLoop more st = some result := by
  induction fuel generalizing st more with
  | zero =>
      unfold parseLoop at hresult ⊢
      split at hresult
      · rename_i hended
        rw [if_pos hended, hresult]
      · cases hresult
  | succ fuel ih =>
      obtain ⟨more, rfl⟩ : ∃ n, more = n + 1 := ⟨more - 1, by omega⟩
      unfold parseLoop at hresult ⊢
      split at hresult
      · rename_i hended
        rw [if_pos hended, hresult]
      · rename_i hrunning
        rw [if_neg hrunning]
        exact ih hresult (by omega)

/-- Two units of fuel pay for all iterations on one byte. -/
theorem parseLoop_onChar {fuel : Nat} {st result : LoopState} (h : st.status.Active)
    (hresult : parseLoop fuel (onChar (getChar st.request.data st.currentPos) st) =
      some result) :
    parseLoop (fuel + 2) st = some result := by
  generalize hc : getChar st.request.data st.currentPos = c at hresult
  have honce (heq : onChar c st = parseIteration c st) :
      parseLoop (fuel + 2) st = some result := by
    have hone : parseLoop (fuel + 1) st = some result := by
      rw [parseLoop_iterate fuel st h, hc, ← heq, hresult]
    exact parseLoop_mono hone (by omega)
  have htwice (heq : onChar c st = parseIteration c (parseIteration c st))
      (hactive : (parseIteration c st).status.Active)
      (hdata : (parseIteration c st).request.data = st.request.data)
      (hpos : (parseIteration c st).currentPos = st.currentPos) :
      parseLoop (fuel + 2) st = some result := by
    rw [parseLoop_iterate (fuel + 1) st h, hc, parseLoop_iterate fuel _ hactive,
      hdata, hpos, hc, ← heq, hresult]
  cases hst : st.status with
  | start =>
      apply htwice <;> simp [onChar, parseIteration, hst, ParseStatus.Active]
  | method => exact honce (by simp [onChar, hst])
  | url => exact honce (by simp [onChar, hst])
  | http => exact honce (by simp [onChar, hst])
  | header => exact honce (by simp [onChar, hst])
  | headerNewline =>
      by_cases hblank : c = cr ∨ c = lf
      · exact honce (by simp [onChar, hst, hblank])
      · have hnot := not_or.mp hblank
        apply htwice <;> simp [onChar, parseIteration, hst, ParseStatus.Active, hnot]
  | finished => exact absurd hst h.1
  | moreData => exact absurd hst h.2.1
  | error => exact absurd hst h.2.2

theorem getChar_drop (request rest : Bytes) (pos : Nat) (h : rest = request.drop pos) :
    getChar request pos = rest.headD nul := by
  subst h
  unfold getChar
  split
  · rename_i hle
    rw [List.drop_eq_nil_of_le hle]
    rfl
  · rename_i hlt
    rw [List.drop_eq_getElem_cons (by omega)]
    simp [List.getD_eq_getElem?_getD]

/-- The loop ends on every input, and it ends in the state of the scan. -/
theorem parseLoop_scan (rest : Bytes) (st : LoopState) (h : st.status.Active)
    (hrest : rest = st.request.data.drop st.currentPos) :
    parseLoop (2 * rest.length + 2) st = some (scan st rest) := by
  induction rest generalizing st with
  | nil =>
      apply parseLoop_onChar h
      rw [getChar_drop _ _ _ hrest]
      exact parseLoop_ended _ _ (onChar_nul st h)
  | cons c rest ih =>
      have hchar : getChar st.request.data st.currentPos = c := getChar_drop _ _ _ hrest
      have hfuel : 2 * (c :: rest).length + 2 = 2 * rest.length + 2 + 2 := by
        simp only [List.length_cons]
        omega
      rw [hfuel]
      apply parseLoop_onChar h
      rw [hchar]
      obtain ⟨hbuf, hstop | hconsume⟩ := onChar_cases c st h
      · rw [parseLoop_ended _ _ hstop.1, scan, if_pos hstop.1]
      · rw [scan, if_neg hconsume.2.1.1]
        apply ih (onChar c st) hconsume.2.1
        rw [hconsume.2.2, HttpRequest.data, hbuf, ← List.drop_drop]
        change rest = (st.request.data.drop st.currentPos).drop 1
        rw [← hrest]
        rfl

/-- The scan stops for good at the first NUL byte. -/
theorem scan_takeWhile (st : LoopState) (rest : Bytes) (h : st.status.Active) :
    scan st rest = scan st (rest.takeWhile (· ≠ nul)) := by
  induction rest generalizing st with
  | nil => rfl
  | cons c rest ih =>
      rcases eq_or_ne c nul with hnul | hnul
      · subst hnul
        simp [scan, onChar_nul st h]
      · simp only [List.takeWhile_cons, hnul, ne_eq, not_false_eq_true, decide_true, if_true,
          scan]
        rcases (onChar_cases c st h).2 with hstop | hconsume
        · rw [if_pos hstop.1, if_pos hstop.1]
        · rw [if_neg hconsume.2.1.1, if_neg hconsume.2.1.1]
          exact ih _ hconsume.2.1

end ModServer.Http
