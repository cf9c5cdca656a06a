import ModServer.Base.Bytes

/-!
The response under construction, from `server_plugin/http/response.h`,
`response.cpp` and `header.h`. Its one string holds the part of the response
that has not been sent.
-/

namespace ModServer.Http

structure Header where
  name : Bytes
  value : Bytes
  deriving DecidableEq, Repr

def Header.toString (header : Header) : Bytes :=
  header.name ++ ascii ": " ++ header.value

def crlf : Bytes := [cr, lf]

/-- `std::to_string` of a `size_t`. -/
def decimal (n : Nat) : Bytes :=
  (Nat.toDigits 10 n).map (fun c => c.toNat.toUInt8)

namespace HttpResponse

/-- `other` stands for a value that `GetStatusString` has no case for. -/
inductive Status where
  | ok
  | notFound
  | other
  deriving DecidableEq, Repr

end HttpResponse

def getStatusString : HttpResponse.Status → Bytes
  | .ok => ascii "HTTP/1.1 200 OK"
  | .notFound => ascii "HTTP/1.1 404 Not Found"
  | .other => ascii "HTTP/1.1 500 Internal Server Error"

structure HttpResponse where
  data : Bytes
  deriving DecidableEq, Repr

namespace HttpResponse

def new : HttpResponse := ⟨[]⟩

def size (r : HttpResponse) : Nat := r.data.length

def hasData (r : HttpResponse) : Bool := !r.data.isEmpty

def clear (_ : HttpResponse) : HttpResponse := ⟨[]⟩

/-- `ShiftLeftBy`: whether it shifted, and the response afterwards. -/
def shiftLeftBy (r : HttpResponse) (bytes : Nat) : Bool × HttpResponse :=
  if r.size < bytes then (false, r) else (true, ⟨r.data.drop bytes⟩)

/-- `SetStatus`. It overwrites what the response held. -/
def setStatus (_ : HttpResponse) (status : Status) : HttpResponse :=
  ⟨getStatusString status ++ crlf⟩

def addHeader (r : HttpResponse) (header : Header) : HttpResponse :=
  ⟨r.data ++ header.toString ++ crlf⟩

/-- `SetContent`: the empty line, the content, and two more line ends. -/
def setContent (r : HttpResponse) (content : Bytes) : HttpResponse :=
  ⟨r.data ++ crlf ++ content ++ crlf ++ crlf⟩

end HttpResponse

end ModServer.Http
