import ModServer.Http.Pieces
import ModServer.Http.Response
import ModServer.Library.Result
import ModServer.Plugin.Api

/-!
The HTTP plugin's protocol handler, from `server_plugin/http/http_handler.cpp`.

`DidReceive` parses after every chunk. A fresh request always parses to
`FINISHED`, and the handler then drops it, so every call composes a response
and finds no request left by an earlier one.
-/

namespace ModServer.Http

open Library

/-- What `DidReceive` finds outside the handler: the two files it looks for,
and the storage that `Append` leaves the request string in. -/
structure Surroundings where
  indexHtml : Option Bytes
  notFoundHtml : Option Bytes
  storage : Nat
  deriving DecidableEq, Repr

def notFoundPage (env : Surroundings) : Bytes :=
  match env.notFoundHtml with
  | some page => page
  | none =>
      ascii "<!doctype html>" ++ ascii "<html>" ++ ascii "<head>" ++
        ascii "<title>Not found</title>" ++ ascii "<body><p>404 Not Found</p></body>" ++
        ascii "</head>" ++ ascii "</html>"

/-- `dataToSend` of `DidReceive`. -/
def Surroundings.page (env : Surroundings) : Bytes :=
  match env.indexHtml with
  | some page => page
  | none => notFoundPage env

/-- The strings that `DidReceive` logs. Reading one of them can go wrong. -/
def HttpRequest.logged (r : HttpRequest) : Except ReadError (List Bytes) :=
  (r.resourcePath :: r.headerStrings).mapM id

def ReadError.fault : ReadError → HandlerFault
  | .lengthError => .uncaught
  | .badPointer => .badPointer

/-- The calls on `m_response` that compose a response for `page`. -/
def HttpResponse.compose (r : HttpResponse) (page : Bytes) : HttpResponse :=
  ((((r.setStatus .ok).addHeader ⟨ascii "Content-length", decimal page.length⟩).addHeader
    ⟨ascii "Connection", ascii "keep-alive"⟩).addHeader
    ⟨ascii "Server", ascii "PD Mod Server HTTP"⟩).setContent page

structure HttpHandler where
  request : Option HttpRequest
  response : HttpResponse
  deriving DecidableEq, Repr

namespace HttpHandler

def new : HttpHandler := ⟨none, .new⟩

def hasDataToSend (h : HttpHandler) : Bool := h.response.hasData

/-- `m_request` with the received data appended, as `DidReceive` parses it. -/
def received (env : Surroundings) (h : HttpHandler) (data : DataChunk) (size : Int) :
    HttpRequest :=
  (h.request.getD .new).append (data.chars size) env.storage

def didReceive (env : Surroundings) (h : HttpHandler) (data : DataChunk) (size : Int) :
    Except HandlerFault HttpHandler :=
  match parse (h.received env data size) with
  | none => .error .hang
  | some (res, request) =>
      if res.status = .finished then
        match request.logged with
        | .error e => .error e.fault
        | .ok _ => .ok ⟨none, h.response.compose env.page⟩
      else .ok { h with request := some request }

/-- The response that a call of `DidReceive` composes, if it composes one. -/
def composed (env : Surroundings) (h : HttpHandler) (data : DataChunk) (size : Int) :
    Option Bytes :=
  match parse (h.received env data size) with
  | none => none
  | some (res, _) =>
      if res.status = .finished then some (h.response.compose env.page).data else none

def didSend (h : HttpHandler) (size : Int) : Except HandlerFault HttpHandler :=
  if size ≤ 0 then .error .assertion
  else if h.response.size ≤ sizeOfInt size then .ok { h with response := h.response.clear }
  else .ok { h with response := (h.response.shiftLeftBy (sizeOfInt size)).2 }

/-- `data_to_send()` and `data_to_send_size()`. -/
def dataToSend (h : HttpHandler) : Bytes := h.response.data

instance : ProtocolHandler HttpHandler Surroundings where
  hasDataToSend := hasDataToSend
  didReceive := didReceive
  didSend := didSend
  dataToSend := dataToSend

end HttpHandler

/-- The response to any request while the page is `page`. -/
def responseTo (page : Bytes) : Bytes := (HttpResponse.new.compose page).data

@[simp] theorem HttpResponse.compose_data (r : HttpResponse) (page : Bytes) :
    (r.compose page).data = responseTo page := rfl

theorem responseTo_ne_nil (page : Bytes) : responseTo page ≠ [] := by
  simp [responseTo, HttpResponse.compose, HttpResponse.setContent, crlf]

theorem logged_of_ok {r : HttpRequest} (hpath : ∃ path, r.resourcePath = .ok path)
    (hheaders : ∀ header ∈ r.headerStrings, ∃ line, header = .ok line) :
    ∃ strings, r.logged = .ok strings := by
  apply exists_mapM
  intro x hx
  rcases List.mem_cons.mp hx with rfl | hmem
  · exact hpath
  · exact hheaders x hmem

/-- Everything that a fresh parse of short data records can be logged. -/
theorem logged_stored (block : Nat) {data : Bytes} (h : data.length < 2 ^ 31) :
    ∃ strings, ((readHead data).stored block data).logged = .ok strings := by
  have hranges := readHead_ranges data
  apply logged_of_ok
  · rw [stored_resourcePath]
    cases hpath : (readHead data).path with
    | none => exact ⟨[], rfl⟩
    | some path =>
        have hle := (hranges.path path hpath).length_le
        exact ⟨_, partString_of_lt path (by omega)⟩
  · rw [stored_headerStrings]
    intro header hheader
    obtain ⟨line, hline, rfl⟩ := List.mem_map.mp hheader
    have hlines := (hranges.lines (List.ne_nil_of_mem hline)).length_le
    have hjoin := length_le_joinLines hline
    have hcounted := counted_le line
    exact ⟨_, partString_of_lt line (by omega)⟩

/-- A handler without a request, on a chunk that some bytes were received
into. -/
theorem didReceive_fresh (env : Surroundings) (r : HttpResponse) {bytes : Bytes}
    (hne : bytes ≠ []) (hsize : bytes.length ≤ DataChunk.bufSize) :
    HttpHandler.didReceive env ⟨none, r⟩ (DataChunk.received bytes) bytes.length =
      .ok ⟨none, ⟨responseTo env.page⟩⟩ := by
  have hshort : bytes.length < 2 ^ 31 := by
    unfold DataChunk.bufSize at hsize
    omega
  obtain ⟨strings, hlogged⟩ := logged_stored env.storage hshort
  unfold HttpHandler.didReceive HttpHandler.received
  rw [DataChunk.chars_received hsize, Option.getD_none, parse_readHead env.storage hne]
  simp only [if_true, hlogged]
  rfl

theorem composed_fresh (env : Surroundings) (r : HttpResponse) {bytes : Bytes}
    (hne : bytes ≠ []) (hsize : bytes.length ≤ DataChunk.bufSize) :
    HttpHandler.composed env ⟨none, r⟩ (DataChunk.received bytes) bytes.length =
      some (responseTo env.page) := by
  unfold HttpHandler.composed HttpHandler.received
  rw [DataChunk.chars_received hsize, Option.getD_none, parse_readHead env.storage hne]
  rfl

/-- `DidSend` drops what was sent from the front of the response. -/
theorem didSend_drop (h : HttpHandler) {size : Nat} (hpos : 0 < size) (hsize : size < 2 ^ 31) :
    h.didSend size = .ok { h with response := ⟨h.response.data.drop size⟩ } := by
  have hcast : sizeOfInt size = size := by
    have hint := @sizeOfInt_of_nonneg size (by omega) (by omega)
    exact_mod_cast hint
  have hnonneg : ¬ (size : Int) ≤ 0 := by omega
  rw [HttpHandler.didSend, if_neg hnonneg, hcast]
  split
  · rename_i hall
    have hdrop : h.response.data.drop size = [] := List.drop_eq_nil_of_le hall
    rw [HttpResponse.clear, hdrop]
  · rename_i hpart
    rw [HttpResponse.shiftLeftBy, if_neg (by omega)]

end ModServer.Http
