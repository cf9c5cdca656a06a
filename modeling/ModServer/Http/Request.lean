import ModServer.Base.Bytes

/-!
The HTTP request and its incremental parser, from
`server_plugin/http/request.h` and `request.cpp`.

A `StringPiece` is a raw pointer and a length, so the model keeps where the
pointer points: an offset in one allocation. Every `Append` may move the
string to another allocation, and a piece stored before it then points to
released storage. Which allocation the string occupies after an `Append` is an
argument of the model's `append`.
-/

namespace ModServer.Http

/-- A `const char*` into the storage of a string. -/
structure CharPtr where
  block : Nat
  offset : Nat
  deriving DecidableEq, Repr

/-- The storage of a `std::string`: an allocation and the bytes in it. -/
structure StringBuf where
  block : Nat
  bytes : Bytes
  deriving DecidableEq, Repr

structure StringPiece where
  start : Option CharPtr
  length : Int
  deriving DecidableEq, Repr

/-- `StringPiece()`: a null pointer and length 0. -/
def StringPiece.null : StringPiece := ⟨none, 0⟩

/-- How reading a piece can go wrong: `resize` throws on a negative length,
and a pointer can leave the storage that its string occupies now. -/
inductive ReadError where
  | lengthError
  | badPointer
  deriving DecidableEq, Repr

/-- The `m_length` bytes from `m_start` on. -/
def StringPiece.chars (buf : StringBuf) (piece : StringPiece) : Bytes :=
  match piece.start with
  | none => []
  | some ptr => (buf.bytes.drop ptr.offset).take piece.length.toNat

/-- `StringPiece::ToString`, reading the piece while `buf` holds the string. -/
def StringPiece.toString (buf : StringBuf) (piece : StringPiece) :
    Except ReadError Bytes :=
  match piece.start with
  | none => .ok []
  | some ptr =>
      if piece.length = 0 then .ok []
      else if piece.length < 0 then .error .lengthError
      else if ptr.block = buf.block ∧ ptr.offset + piece.length.toNat ≤ buf.bytes.length then
        .ok (piece.chars buf)
      else .error .badPointer

/-- `StringPiece::operator==` against a literal: the lengths, then byte by
byte. -/
def StringPiece.equals (buf : StringBuf) (piece : StringPiece) (literal : Bytes) : Bool :=
  piece.length = literal.length && piece.chars buf == literal

inductive RequestMethod where
  | get
  | invalidMethod
  deriving DecidableEq, Repr

inductive HttpVersion where
  | http10
  | http11
  | invalidVersion
  deriving DecidableEq, Repr

/-- `HttpRequestParser::ParseStatus`. -/
inductive ParseStatus where
  | start
  | method
  | url
  | http
  | header
  | headerNewline
  | finished
  | moreData
  | error
  deriving DecidableEq, Repr

structure ParseRes where
  status : ParseStatus
  stoppedAt : Nat
  deriving DecidableEq, Repr

structure HttpRequest where
  request : StringBuf
  parseRes : ParseRes
  resPath : StringPiece
  method : RequestMethod
  httpVer : HttpVersion
  headers : List StringPiece
  deriving DecidableEq, Repr

namespace HttpRequest

/-- The constructor. The empty string lives in some initial storage. -/
def new : HttpRequest where
  request := ⟨0, []⟩
  parseRes := ⟨.start, 0⟩
  resPath := .null
  method := .invalidMethod
  httpVer := .invalidVersion
  headers := []

def data (r : HttpRequest) : Bytes := r.request.bytes

def clear (r : HttpRequest) : HttpRequest :=
  { r with request := { r.request with bytes := [] } }

/-- `Append`; the string occupies `block` afterwards. -/
def append (r : HttpRequest) (data : Bytes) (block : Nat) : HttpRequest :=
  { r with request := ⟨block, r.request.bytes ++ data⟩ }

@[simp] theorem append_data (r : HttpRequest) (data : Bytes) (block : Nat) :
    (r.append data block).data = r.data ++ data := rfl

@[simp] theorem append_parseRes (r : HttpRequest) (data : Bytes) (block : Nat) :
    (r.append data block).parseRes = r.parseRes := rfl

def addHeader (r : HttpRequest) (header : StringPiece) : HttpRequest :=
  { r with headers := r.headers ++ [header] }

def resourcePath (r : HttpRequest) : Except ReadError Bytes :=
  r.resPath.toString r.request

/-- What `ToString` gives for each element of `headers()`. -/
def headerStrings (r : HttpRequest) : List (Except ReadError Bytes) :=
  r.headers.map (·.toString r.request)

end HttpRequest

def getChar (request : Bytes) (currPos : Nat) : UInt8 :=
  if request.length ≤ currPos then nul else request.getD currPos nul

def methodFromStringPiece (buf : StringBuf) (methodString : StringPiece) : RequestMethod :=
  if methodString.equals buf (ascii "GET") then .get else .invalidMethod

def httpVerFromStringPiece (buf : StringBuf) (httpString : StringPiece) : HttpVersion :=
  if httpString.equals buf (ascii "HTTP/1.1") then .http11
  else if httpString.equals buf (ascii "HTTP/1.0") then .http10
  else .invalidVersion

/-- The request that `Parse` works on and its local variables. -/
structure LoopState where
  request : HttpRequest
  status : ParseStatus
  currentPos : Nat
  start : CharPtr
  method : StringPiece
  url : StringPiece
  http : StringPiece
  pieceLen : Nat
  deriving DecidableEq, Repr

namespace LoopState

/-- `currentPos++` on a byte that does not belong to the piece. -/
def skip (st : LoopState) : LoopState :=
  { st with currentPos := st.currentPos + 1 }

/-- `pieceLen++; currentPos++`. -/
def extend (st : LoopState) : LoopState :=
  { st with pieceLen := st.pieceLen + 1, currentPos := st.currentPos + 1 }

/-- `currentPos++; start = &requestString[currentPos]; pieceLen = 0;` and the
next state. -/
def nextPiece (st : LoopState) (status : ParseStatus) : LoopState :=
  { st with
    status := status
    currentPos := st.currentPos + 1
    start := ⟨st.request.request.block, st.currentPos + 1⟩
    pieceLen := 0 }

/-- The piece of `pieceLen` bytes from `start` on. Its length is an `int`. -/
def piece (st : LoopState) : StringPiece :=
  ⟨some st.start, intOfSize st.pieceLen⟩

end LoopState

/-- One iteration of the loop of `HttpRequestParser::Parse`, where `nextChar`
is the byte that `getChar` returns at `currentPos`. -/
def parseIteration (nextChar : UInt8) (st : LoopState) : LoopState :=
  match st.status with
  | .start => { st with start := ⟨st.request.request.block, 0⟩, status := .method }
  | .method =>
      if nextChar = nul then { st with status := .finished }
      else if nextChar = space then { st with method := st.piece }.nextPiece .url
      else st.extend
  | .url =>
      if nextChar = nul then { st with status := .finished }
      else if nextChar = space then { st with url := st.piece }.nextPiece .http
      else st.extend
  | .http =>
      if nextChar = nul then { st with status := .finished }
      else if nextChar = cr then st.skip
      else if nextChar = lf then { st with http := st.piece }.nextPiece .header
      else st.extend
  | .header =>
      if nextChar = nul then { st with status := .finished }
      else if nextChar = cr then st.skip
      else if nextChar = lf then
        { st with request := st.request.addHeader st.piece }.nextPiece .headerNewline
      else st.extend
  | .headerNewline =>
      if nextChar = cr then st.skip
      else if nextChar = lf then { st with status := .finished }
      else { st with status := .header }
  | _ => { st with status := .moreData }

/-- The loop of `Parse`: it runs while the status is neither `ERROR` nor
`FINISHED`. `none` means that it still runs after `fuel` iterations. -/
def parseLoop (fuel : Nat) (st : LoopState) : Option LoopState :=
  if st.status = .error ∨ st.status = .finished then some st
  else
    match fuel with
    | 0 => none
    | fuel + 1 => parseLoop fuel (parseIteration (getChar st.request.data st.currentPos) st)

/-- The state in which `Parse` enters its loop. -/
def loopEntry (r : HttpRequest) : LoopState where
  request := r
  status := r.parseRes.status
  currentPos := r.parseRes.stoppedAt
  start := ⟨r.request.block, r.parseRes.stoppedAt⟩
  method := .null
  url := .null
  http := .null
  pieceLen := 0

/-- Iterations enough for every loop that ends: a byte takes at most two, and
`START` and the end of the data take one more each. -/
def parseFuel (r : HttpRequest) : Nat :=
  2 * r.data.length + 3

/-- What `Parse` stores once its loop has ended. -/
def storeResults (st : LoopState) : HttpRequest :=
  { st.request with
    method := methodFromStringPiece st.request.request st.method
    resPath := st.url
    httpVer := httpVerFromStringPiece st.request.request st.http
    parseRes := ⟨st.status, st.currentPos⟩ }

/-- `HttpRequestParser::Parse`. `none` means that it does not return. -/
def parse (r : HttpRequest) : Option (ParseRes × HttpRequest) :=
  if r.data.length ≤ r.parseRes.stoppedAt then
    some (⟨.error, r.parseRes.stoppedAt⟩, r)
  else
    (parseLoop (parseFuel r) (loopEntry r)).map
      (fun st => (⟨st.status, st.currentPos⟩, storeResults st))

end ModServer.Http
