import ModServer.Base.Bytes

/-!
What a plugin and the server share, from `plugin_api/`: the chunk that a
connection receives into and the interface of a protocol handler. What a
handler finds in its surroundings when it is called (the files on disk, where
the allocator puts a string) is a parameter of its operations.
-/

namespace ModServer

/-- How a call into a handler can fail to return normally. -/
inductive HandlerFault where
  | assertion
  | uncaught
  | badPointer
  | hang
  deriving DecidableEq, Repr

namespace DataChunk

/-- `m_bufSize`. -/
def bufSize : Nat := 2048

end DataChunk

structure DataChunk where
  buffer : Bytes
  length_buffer : buffer.length = DataChunk.bufSize
  deriving DecidableEq, Repr

namespace DataChunk

/-- The constructor. It sets only the first byte; the others are read nowhere
before they are received into. -/
def new : DataChunk where
  buffer := List.replicate bufSize nul
  length_buffer := by simp

/-- `recv` into the chunk. What lies behind the end of the chunk goes astray. -/
def fill (chunk : DataChunk) (received : Bytes) : DataChunk where
  buffer := (received ++ chunk.buffer.drop received.length).take bufSize
  length_buffer := by
    have hlength := chunk.length_buffer
    simp
    omega

/-- `buf[index] = c`. A write behind the end of the chunk goes astray. -/
def put (chunk : DataChunk) (index : Nat) (c : UInt8) : DataChunk where
  buffer := chunk.buffer.set index c
  length_buffer := by rw [List.length_set, chunk.length_buffer]

@[simp] theorem put_buffer (chunk : DataChunk) (index : Nat) (c : UInt8) :
    (chunk.put index c).buffer = chunk.buffer.set index c := rfl

/-- `std::string(data->buf_writable(), size)`. It throws for a negative size,
which `OnRead` never passes; here the whole buffer is taken then. -/
def chars (chunk : DataChunk) (size : Int) : Bytes :=
  chunk.buffer.take (sizeOfInt size)

/-- The chunk that `OnRead` hands to the handler: what was received, and a
`'\0'` behind it. -/
def received (bytes : Bytes) : DataChunk :=
  (new.fill bytes).put bytes.length nul

theorem buffer_fill (chunk : DataChunk) {bytes : Bytes} (h : bytes.length ≤ bufSize) :
    (chunk.fill bytes).buffer = bytes ++ chunk.buffer.drop bytes.length := by
  have hlength := chunk.length_buffer
  apply List.take_of_length_le
  simp
  omega

/-- The handler is shown the received bytes, whatever stands behind them. -/
theorem chars_received {bytes : Bytes} (h : bytes.length ≤ bufSize) :
    (received bytes).chars bytes.length = bytes := by
  have hsize : sizeOfInt bytes.length = bytes.length := by
    have hbound := h
    unfold bufSize at hbound
    have hcast := @sizeOfInt_of_nonneg bytes.length (by omega) (by omega)
    exact_mod_cast hcast
  have hset (rest : Bytes) : (bytes ++ rest).set bytes.length nul = bytes ++ rest.set 0 nul := by
    simp
  rw [chars, hsize, received, put_buffer, buffer_fill new h, hset, List.take_left]

end DataChunk

/-- The virtual functions of `ProtocolHandler`. `Env` is what a call finds in
its surroundings. A null `data_to_send()` stands for no bytes. -/
class ProtocolHandler (H : Type) (Env : outParam Type) where
  hasDataToSend : H → Bool
  didReceive : Env → H → DataChunk → Int → Except HandlerFault H
  didSend : H → Int → Except HandlerFault H
  dataToSend : H → Bytes

end ModServer
