import ModServer.Http.Framing
import ModServer.Library.Codec

/-!
A client that knows what `SetContent` writes: it reads a message and takes the
two line ends behind the content, which `Content-length` does not count, for
the end of the response. Responses that are written one after another are then
a code: what has arrived of them is read in one way, and read the same when
more arrives.
-/

namespace ModServer.Http

open Library

/-- The content of one response, and what follows its two line ends. -/
def readPage (stream : Bytes) : Option (Bytes × Bytes) :=
  match readMessage stream with
  | none => none
  | some (message, rest) =>
      if (crlf ++ crlf).isPrefixOf rest then
        some (message.content, rest.drop (crlf ++ crlf).length)
      else none

theorem readMessage_more {stream rest : Bytes} {message : Message} (more : Bytes)
    (h : readMessage stream = some (message, rest)) :
    readMessage (stream ++ more) = some (message, rest ++ more) := by
  unfold readMessage at h
  split at h
  · cases h
  · rename_i statusLine behind hcut
    split at h
    · cases h
    · rename_i headers body hlines
      split at h
      · cases h
      · rename_i n hlength
        split at h
        · rename_i hle
          cases h
          have hfuel : behind.length + 1 ≤ (behind ++ more).length + 1 := by
            rw [List.length_append]
            omega
          have hbody : n ≤ (body ++ more).length := by
            rw [List.length_append]
            omega
          unfold readMessage
          rw [cutAt_more more hcut]
          simp only [readLines_more more hlines hfuel, hlength, if_pos hbody,
            List.take_append_of_le_length hle, List.drop_append_of_le_length hle]
        · cases h

theorem readPage_of_message {stream rest : Bytes} {message : Message}
    (h : readMessage stream = some (message, crlf ++ crlf ++ rest)) :
    readPage stream = some (message.content, rest) := by
  have hends : (crlf ++ crlf).isPrefixOf (crlf ++ crlf ++ rest) = true :=
    List.isPrefixOf_iff_prefix.mpr (List.prefix_append _ _)
  unfold readPage
  rw [h]
  simp only [if_pos hends, List.drop_left]

theorem exists_message_of_readPage {stream page rest : Bytes}
    (h : readPage stream = some (page, rest)) :
    ∃ message, readMessage stream = some (message, crlf ++ crlf ++ rest) ∧
      message.content = page := by
  unfold readPage at h
  split at h
  · cases h
  · rename_i message behind hmessage
    split at h
    · rename_i hends
      cases h
      obtain ⟨after, rfl⟩ := List.isPrefixOf_iff_prefix.mp hends
      rw [List.drop_left]
      exact ⟨message, hmessage, rfl⟩
    · cases h

theorem readPage_more (stream page rest more : Bytes) (h : readPage stream = some (page, rest)) :
    readPage (stream ++ more) = some (page, rest ++ more) := by
  obtain ⟨message, hmessage, rfl⟩ := exists_message_of_readPage h
  have hmore := readMessage_more more hmessage
  rw [List.append_assoc] at hmore
  exact readPage_of_message hmore

theorem readPage_responseTo (page : Bytes) : readPage (responseTo page) = some (page, []) := by
  have hread := readMessage_responseTo page []
  rw [List.append_nil] at hread
  exact readPage_of_message hread

/-- The responses of the handler as a code of pages. -/
def pageCodec : Codec Bytes UInt8 where
  encode := responseTo
  decode := readPage
  decode_nil := rfl
  decode_encode := readPage_responseTo
  decode_more := readPage_more

end ModServer.Http
