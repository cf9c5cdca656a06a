import ModServer.Http.Handler
import ModServer.Http.WellFormed

/-!
The handler on a byte stream that arrives in chunks. A connection delivers the
next chunk only after the response to the last one has been sent, in as many
parts as `send` takes.

`DidReceive` answers chunks, not requests: each chunk that holds a byte gets
one response, whatever part of a request, or however many requests, it holds.
-/

namespace ModServer.Http

open HttpHandler

/-- Sending until nothing is pending: the bytes sent and the handler after. -/
inductive Drained : HttpHandler → Bytes → HttpHandler → Prop
  | done {h : HttpHandler} : h.hasDataToSend = false → Drained h [] h
  | send {h next last : HttpHandler} {out : Bytes} (size : Nat) :
      h.hasDataToSend = true → 0 < size → size ≤ h.dataToSend.length → size < 2 ^ 31 →
      h.didSend size = .ok next → Drained next out last →
      Drained h (h.dataToSend.take size ++ out) last

/-- Delivering chunks while the page is `page`, and what was sent after each. -/
inductive Served (page : Bytes) : HttpHandler → List Bytes → List Bytes → HttpHandler → Prop
  | nil {h : HttpHandler} : Served page h [] [] h
  | cons {h next drained last : HttpHandler} {chunk out : Bytes} {chunks outs : List Bytes}
      (env : Surroundings) :
      env.page = page → h.didReceive env (DataChunk.received chunk) chunk.length = .ok next →
      Drained next out drained → Served page drained chunks outs last →
      Served page h (chunk :: chunks) (out :: outs) last

/-- Chunks as `recv` fills them. -/
def Chunked (chunks : List Bytes) : Prop :=
  ∀ chunk ∈ chunks, chunk ≠ [] ∧ chunk.length ≤ DataChunk.bufSize

/-- A request that asks for a page and carries no body. -/
structure GetRequest where
  text : RequestText
  method_get : text.method = ascii "GET"

def GetRequest.bytes (request : GetRequest) : Bytes := request.text.bytes

/-- The chunks are a way of cutting the bytes of the requests. -/
structure Cuts (requests : List GetRequest) (chunks : List Bytes) : Prop where
  chunked : Chunked chunks
  flatten : chunks.flatten = requests.flatMap GetRequest.bytes

/-- The responses among what was sent after the chunks: where nothing was
composed, nothing was sent. -/
def composedResponses (outs : List Bytes) : List Bytes :=
  outs.filter (fun out => !out.isEmpty)

theorem Drained.output {h last : HttpHandler} {out : Bytes} (hdrained : Drained h out last) :
    out = h.dataToSend ∧ last = ⟨h.request, .new⟩ := by
  induction hdrained with
  | @done h hempty =>
      have hdata : h.response.data = [] := by
        simpa [hasDataToSend, HttpResponse.hasData] using hempty
      constructor
      · exact hdata.symm
      · obtain ⟨request, ⟨data⟩⟩ := h
        subst hdata
        rfl
  | @send h next last out size _ hpos _ hshort hsend _ ih =>
      rw [didSend_drop h hpos hshort] at hsend
      cases hsend
      obtain ⟨rfl, hlast⟩ := ih
      exact ⟨List.take_append_drop size h.dataToSend, hlast⟩

/-- Every response can be drained. -/
theorem exists_drained (h : HttpHandler) : ∃ out last, Drained h out last := by
  induction hlength : h.response.data.length using Nat.strongRecOn generalizing h with
  | _ n ih =>
      cases hpending : h.hasDataToSend with
      | false => exact ⟨[], h, .done hpending⟩
      | true =>
          have hpos : 0 < h.response.data.length := by
            rw [List.length_pos_iff]
            simpa [hasDataToSend, HttpResponse.hasData] using hpending
          have hdrop := @didSend_drop h 1 (by decide) (by norm_num)
          obtain ⟨out, last, hrest⟩ := ih (n - 1) (by omega)
            { h with response := ⟨h.response.data.drop 1⟩ } (by simp [hlength])
          exact ⟨_, last, .send 1 hpending (by decide) hpos (by norm_num) hdrop hrest⟩

/-- Each chunk is answered with one response. -/
theorem Served.outputs {page : Bytes} {r : HttpResponse} {last : HttpHandler}
    {chunks outs : List Bytes} (hserved : Served page ⟨none, r⟩ chunks outs last)
    (hchunks : Chunked chunks) :
    outs = List.replicate chunks.length (responseTo page) := by
  induction chunks generalizing r outs with
  | nil =>
      cases hserved
      rfl
  | cons chunk chunks ih =>
      cases hserved with
      | cons env hpage hreceive hdrained hrest =>
          obtain ⟨hne, hsize⟩ := hchunks chunk List.mem_cons_self
          rw [didReceive_fresh env r hne hsize, hpage] at hreceive
          cases hreceive
          obtain ⟨rfl, rfl⟩ := hdrained.output
          have hmore := ih hrest (fun other hother => hchunks other (List.mem_cons_of_mem _ hother))
          rw [List.length_cons, List.replicate_succ, hmore]
          rfl

theorem exists_served (env : Surroundings) (r : HttpResponse) {chunks : List Bytes}
    (hchunks : Chunked chunks) : ∃ outs last, Served env.page ⟨none, r⟩ chunks outs last := by
  induction chunks generalizing r with
  | nil => exact ⟨[], _, .nil⟩
  | cons chunk chunks ih =>
      obtain ⟨hne, hsize⟩ := hchunks chunk List.mem_cons_self
      have hreceive := didReceive_fresh env r hne hsize
      obtain ⟨out, drained, hdrained⟩ := exists_drained ⟨none, ⟨responseTo env.page⟩⟩
      obtain ⟨-, rfl⟩ := hdrained.output
      obtain ⟨outs, last, hrest⟩ :=
        ih .new (fun other hother => hchunks other (List.mem_cons_of_mem _ hother))
      exact ⟨out :: outs, last, .cons env rfl hreceive hdrained hrest⟩

theorem composedResponses_replicate (count : Nat) (page : Bytes) :
    composedResponses (List.replicate count (responseTo page)) =
      List.replicate count (responseTo page) := by
  apply List.filter_eq_self.mpr
  intro out hout
  rw [List.eq_of_mem_replicate hout]
  simpa using responseTo_ne_nil page

/-- Equal output means equal counts, since a response is not empty. -/
theorem flatten_replicate_inj {left right : Nat} {response : Bytes} (hne : response ≠ []) :
    (List.replicate left response).flatten = (List.replicate right response).flatten ↔
      left = right := by
  have hpos := List.length_pos_of_ne_nil hne
  constructor
  · intro heq
    have hlength := congrArg List.length heq
    simp only [List.length_flatten, List.map_replicate, List.sum_replicate_nat] at hlength
    exact Nat.eq_of_mul_eq_mul_right hpos hlength
  · rintro rfl
    rfl

theorem responses_iff (page : Bytes) (requests : List GetRequest)
    (chunks others outs otherOuts : List Bytes) (last otherLast : HttpHandler)
    (hcuts : Cuts requests chunks) (hserved : Served page .new chunks outs last)
    (hothers : Cuts requests others) (hotherServed : Served page .new others otherOuts otherLast) :
    (composedResponses outs = requests.map (fun _ => responseTo page) ↔
        chunks.length = requests.length) ∧
      (outs.flatten = otherOuts.flatten ↔ chunks.length = others.length) := by
  have houts := hserved.outputs hcuts.chunked
  have hotherOuts := hotherServed.outputs hothers.chunked
  constructor
  · rw [houts, composedResponses_replicate, List.map_const']
    constructor
    · intro heq
      simpa using congrArg List.length heq
    · intro hlength
      rw [hlength]
  · rw [houts, hotherOuts]
    exact flatten_replicate_inj (responseTo_ne_nil page)

/-- `GET / HTTP/1.1` with one header. -/
def plainGet : GetRequest where
  text :=
    { method := ascii "GET"
      path := ascii "/"
      version := ascii "HTTP/1.1"
      eol := .crlf
      headers := [(ascii "A: b", .crlf)]
      blank := .crlf
      method_plain := get_plain
      path_plain := by decide +kernel
      version_plain := http11_plain
      headers_nonempty := by decide
      header_plain := by decide +kernel }
  method_get := rfl

def noFiles : Surroundings := ⟨none, none, 0⟩

/-- One request, cut before its header, gets two responses. -/
theorem two_responses_one_request :
    ∃ chunks outs last, Cuts [plainGet] chunks ∧ Served noFiles.page .new chunks outs last ∧
      composedResponses outs ≠ [plainGet].map (fun _ => responseTo noFiles.page) := by
  have hchunked : Chunked [ascii "GET / HTTP/1.1\r\n", ascii "A: b\r\n\r\n"] := by
    unfold Chunked
    decide
  obtain ⟨outs, last, hserved⟩ := exists_served noFiles .new hchunked
  refine ⟨_, outs, last, ⟨hchunked, by decide⟩, hserved, ?_⟩
  rw [hserved.outputs hchunked, composedResponses_replicate]
  intro heq
  have hlength := congrArg List.length heq
  simp at hlength

/-- The request twice, in two chunks that are cut within the second one. -/
def twoChunks : List Bytes := [plainGet.bytes ++ ascii "GET", plainGet.bytes.drop 3]

theorem responses_two_chunks :
    ∃ outs last, Cuts [plainGet, plainGet] twoChunks ∧
      Served noFiles.page .new twoChunks outs last ∧
      composedResponses outs = [plainGet, plainGet].map (fun _ => responseTo noFiles.page) := by
  have hchunked : Chunked twoChunks := by
    unfold Chunked
    decide
  have hcuts : Cuts [plainGet, plainGet] twoChunks := ⟨hchunked, by decide⟩
  obtain ⟨outs, last, hserved⟩ := exists_served noFiles .new hchunked
  exact ⟨outs, last, hcuts, hserved,
    (responses_iff noFiles.page _ _ _ outs outs last last hcuts hserved hcuts hserved).1.mpr rfl⟩

end ModServer.Http
