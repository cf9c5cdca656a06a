import ModServer.Http.Head
import ModServer.Server.Init

/-!
End points as they lie in memory, from `server_core/ip_endpoint.cpp` and
`socket/tcp_listener.cpp`. `m_ip` is an array of 20 characters that the
constructors do not clear, and everything that reads it stops at the first
`'\0'`, wherever that is.

Whatever the array and the memory behind it held before, such an end point is
the `IPEndPoint` of the model, also after `TcpListener` has copied it through
its C string. So `InitPlugins` does what the model of it does.
-/

namespace ModServer

variable {H Env : Type}

/-- `m_ip`. -/
structure CharArray where
  chars : Bytes
  length_chars : chars.length = 20
  deriving DecidableEq, Repr

namespace CharArray

/-- `memset(m_ip, 0, sizeof(m_ip))`. -/
def zeroed : CharArray := ⟨List.replicate 20 nul, rfl⟩

/-- `snprintf(m_ip, ARR_SIZE(m_ip), "%s", text)`, where `text` is a C string. -/
def snprintf (array : CharArray) (text : Bytes) : CharArray where
  chars := text.take 19 ++ nul :: array.chars.drop ((text.take 19).length + 1)
  length_chars := by
    have hlength := array.length_chars
    simp
    omega

/-- The C string at the array. Without a `'\0'` in the array it goes on with
what lies behind. -/
def text (array : CharArray) (behind : Bytes) : Bytes :=
  (array.chars ++ behind).takeWhile (· ≠ nul)

theorem nul_mem_snprintf (array : CharArray) (text : Bytes) : nul ∈ (array.snprintf text).chars :=
  List.mem_append_right _ List.mem_cons_self

theorem text_snprintf (array : CharArray) {text : Bytes} (behind : Bytes) (h : nul ∉ text) :
    (array.snprintf text).text behind = text.take 19 := by
  have hpart : nul ∉ text.take 19 := fun hmem => h (List.mem_of_mem_take hmem)
  unfold CharArray.text snprintf
  rw [List.append_assoc, List.cons_append]
  exact Http.text_nul _ hpart

end CharArray

/-- An `IPEndPoint` object. -/
structure EndPoint where
  ip : CharArray
  port : UInt16
  deriving DecidableEq, Repr

namespace EndPoint

def new : EndPoint := ⟨.zeroed, 0⟩

/-- The constructor from a C string, which may be cut off. -/
def ofChars (uninit : CharArray) (ip : Bytes) (port : UInt16) : EndPoint :=
  ⟨uninit.snprintf ip, port⟩

/-- The constructor from a `std::string`. -/
def ofString (uninit : CharArray) (ip : Bytes) (port : UInt16) : Except Fault EndPoint :=
  if 0 < ip.length ∧ ip.length < 20 - 1 then .ok ⟨uninit.snprintf (ip.takeWhile (· ≠ nul)), port⟩
  else .error .assertion

def setIp (ep : EndPoint) (ip : Bytes) : Except Fault EndPoint :=
  if 0 < ip.length ∧ ip.length < 20 - 1 then
    .ok { ep with ip := ep.ip.snprintf (ip.takeWhile (· ≠ nul)) }
  else .error .assertion

def setPort (ep : EndPoint) (port : UInt16) : EndPoint := { ep with port := port }

def isValid (inetAddr : Bytes → UInt32) (behind : Bytes) (ep : EndPoint) : Bool :=
  if inetAddr (ep.ip.text behind) = 0xFFFFFFFF then false
  else if ep.port = 0 then false
  else true

/-- An object that constructors and setters made, and the end point it stands
for. `behind` is what the memory behind an object's array holds. -/
inductive Made : EndPoint → IPEndPoint → Prop
  | new : Made .new ⟨[], 0⟩
  | ofChars (uninit : CharArray) {ip : Bytes} (port : UInt16) :
      nul ∉ ip → Made (.ofChars uninit ip port) ⟨ip.take 19, port⟩
  | ofString (uninit : CharArray) {ip : Bytes} {port : UInt16} {ep : EndPoint} :
      EndPoint.ofString uninit ip port = Except.ok ep → Made ep ⟨ip.takeWhile (· ≠ nul), port⟩
  | setIp {ep next : EndPoint} {spec : IPEndPoint} {ip : Bytes} :
      Made ep spec → ep.setIp ip = .ok next → Made next ⟨ip.takeWhile (· ≠ nul), spec.port⟩
  | setPort {ep : EndPoint} {spec : IPEndPoint} (port : UInt16) :
      Made ep spec → Made (ep.setPort port) (spec.setPort port)
  | copy (uninit : CharArray) (behind : Bytes) {ep : EndPoint} {spec : IPEndPoint} :
      Made ep spec → Made (.ofChars uninit (ep.ip.text behind) ep.port) spec

/-- The object is the end point, wherever it lies in memory. -/
structure Represents (ep : EndPoint) (spec : IPEndPoint) : Prop where
  text : ∀ behind, ep.ip.text behind = spec.ip
  port : ep.port = spec.port
  inside : nul ∈ ep.ip.chars
  short : spec.ip.length < 20
  chars : nul ∉ spec.ip

namespace Represents

variable {ep : EndPoint} {spec : IPEndPoint}

/-- What `snprintf` wrote. -/
theorem of_snprintf (array : CharArray) {ip : Bytes} (port : UInt16) (h : nul ∉ ip) :
    Represents ⟨array.snprintf ip, port⟩ ⟨ip.take 19, port⟩ := by
  refine ⟨fun behind => array.text_snprintf behind h, rfl, array.nul_mem_snprintf ip, ?_, ?_⟩
  · exact Nat.lt_of_le_of_lt (List.length_take_le 19 ip) (by decide)
  · exact fun hmem => h (List.mem_of_mem_take hmem)

/-- A string whose length was checked is not cut off. -/
theorem of_string (array : CharArray) {ip : Bytes} (port : UInt16) (h : ip.length < 20 - 1) :
    Represents ⟨array.snprintf (ip.takeWhile (· ≠ nul)), port⟩
      ⟨ip.takeWhile (· ≠ nul), port⟩ := by
  have hshort : (ip.takeWhile (· ≠ nul)).length ≤ 19 := by
    have hle := (List.takeWhile_prefix (l := ip) (· ≠ nul)).length_le
    omega
  have hwhole := of_snprintf array port (Http.nul_not_mem_text ip)
  rw [List.take_of_length_le hshort] at hwhole
  exact hwhole

theorem setPort (h : ep.Represents spec) (port : UInt16) :
    (ep.setPort port).Represents (spec.setPort port) :=
  ⟨h.text, rfl, h.inside, h.short, h.chars⟩

/-- The copy that `TcpListener` makes of an end point. -/
theorem copy (h : ep.Represents spec) (uninit : CharArray) (behind : Bytes) :
    (EndPoint.ofChars uninit (ep.ip.text behind) ep.port).Represents spec := by
  have hcopy := of_snprintf uninit ep.port h.chars
  rw [List.take_of_length_le (Nat.le_of_lt_succ h.short)] at hcopy
  rw [h.text, h.port] at *
  exact hcopy

theorem isValid (h : ep.Represents spec) (inetAddr : Bytes → UInt32) (behind : Bytes) :
    ep.isValid inetAddr behind = spec.isValid inetAddr := by
  unfold EndPoint.isValid IPEndPoint.isValid
  rw [h.text, h.port]

end Represents

/-- An object stands for its end point after any constructor and setters, and
after any copies. -/
theorem Made.represents {ep : EndPoint} {spec : IPEndPoint} (h : Made ep spec) :
    ep.Represents spec := by
  induction h with
  | new => exact ⟨fun _ => rfl, rfl, List.mem_cons_self, by decide, List.not_mem_nil⟩
  | ofChars uninit port hip => exact .of_snprintf uninit port hip
  | ofString uninit hmade =>
      unfold EndPoint.ofString at hmade
      split at hmade
      · rename_i hlength
        cases hmade
        exact .of_string uninit _ hlength.2
      · cases hmade
  | setIp _ hnext ih =>
      unfold EndPoint.setIp at hnext
      split at hnext
      · rename_i hlength
        cases hnext
        rw [← ih.port]
        exact .of_string _ _ hlength.2
      · cases hnext
  | setPort port _ ih => exact ih.setPort port
  | copy uninit behind _ ih => exact ih.copy uninit behind

end EndPoint

/-- A `TcpListener` object, for its `m_ep`. -/
structure TcpListener where
  ep : EndPoint

namespace TcpListener

/-- The constructor from an end point, which it copies as a C string. -/
def ofEndPoint (uninit : CharArray) (behind : Bytes) (ep : EndPoint) : TcpListener :=
  ⟨.ofChars uninit (ep.ip.text behind) ep.port⟩

/-- `Bind`, where `rc` is what `bind` returns for an address. -/
def bind (inetAddr : Bytes → UInt32) (rc : IPEndPoint → Int) (behind : Bytes)
    (listener : TcpListener) : Bool :=
  if !listener.ep.isValid inetAddr behind then false
  else rc ⟨listener.ep.ip.text behind, listener.ep.port⟩ = 0

theorem bind_ofEndPoint {ep : EndPoint} {spec : IPEndPoint} (h : ep.Represents spec)
    (inetAddr : Bytes → UInt32) (rc : IPEndPoint → Int) (uninit : CharArray)
    (behind behindCopy : Bytes) (hvalid : spec.isValid inetAddr = true) :
    (ofEndPoint uninit behind ep).bind inetAddr rc behindCopy = decide (rc spec = 0) := by
  have hcopy := h.copy uninit behind
  unfold bind ofEndPoint
  rw [hcopy.isValid, hvalid, hcopy.text, hcopy.port]
  rfl

end TcpListener

/-- What the memory holds in which a step of `InitPlugins` builds its objects:
the arrays of its end point and of the copy, and what lies behind each. -/
structure Memory where
  ep : CharArray
  behindEp : Bytes
  copy : CharArray
  behindCopy : Bytes

/-- The body of the loop of `InitPlugins`, on end points with arrays. -/
def Server.initPluginArrays (memory : Nat → Memory) (host : Host) (server : Server H Env)
    (plugin : ServerPlugin H Env) : Except Fault (Server H Env) := do
  let here := memory plugin.id
  let ep ← EndPoint.ofString here.ep host.serverIp 0
  let ep := ep.setPort plugin.port
  if !ep.isValid host.inetAddr here.behindEp then .ok server
  else
    match plugin.sockType with
    | .tcp =>
        let newSock := TcpListener.ofEndPoint here.copy here.behindEp ep
        if host.socket plugin.id = invalidSocket then .ok server
        else if !newSock.bind host.inetAddr (host.bind plugin.id) here.behindCopy then .ok server
        else if host.listen plugin.id maxListen ≠ 0 then .ok server
        else .ok (server.addSession (.acceptor (host.socket plugin.id) plugin.id))
    | .other => .ok server

/-- The memory does not show in a step of `InitPlugins`. -/
theorem Server.initPluginArrays_eq (memory : Nat → Memory) {host : Host}
    (hip : nul ∉ host.serverIp) (server : Server H Env) (plugin : ServerPlugin H Env) :
    server.initPluginArrays memory host plugin = server.initPlugin host plugin := by
  have htext : host.serverIp.takeWhile (· ≠ nul) = host.serverIp := by
    apply List.takeWhile_eq_self_iff.mpr
    intro byte hbyte
    have hne : byte ≠ nul := ne_of_mem_of_not_mem hbyte hip
    exact decide_eq_true hne
  unfold Server.initPluginArrays Server.initPlugin
  unfold EndPoint.ofString IPEndPoint.ofString
  split
  · rename_i hlength
    have hmade : EndPoint.ofString (memory plugin.id).ep host.serverIp 0 = .ok _ := if_pos hlength
    have hready := ((EndPoint.Made.ofString _ hmade).setPort plugin.port).represents
    rw [htext] at hready ⊢
    simp only [bind, Except.bind]
    rw [hready.isValid]
    split
    · rfl
    · rename_i hvalid
      cases plugin.sockType with
      | other => rfl
      | tcp =>
          have hbind := TcpListener.bind_ofEndPoint hready host.inetAddr (host.bind plugin.id)
            (memory plugin.id).copy (memory plugin.id).behindEp (memory plugin.id).behindCopy
            (by simpa using hvalid)
          simp only [hbind, Bool.not_eq_true', decide_eq_false_iff_not, ne_eq]
  · rfl

/-- `InitPlugins` registers the same sessions whatever was in the memory of
its end points and listeners: it does what it does on `IPEndPoint`s. -/
theorem Server.initPlugins_arrays (memory : Nat → Memory) {host : Host}
    (hip : nul ∉ host.serverIp) (server : Server H Env) :
    server.pluginLoader.plugins.foldlM (Server.initPluginArrays memory host) server =
      Server.initPlugins host server := by
  have hstep : (Server.initPluginArrays memory host : Server H Env → _) =
      Server.initPlugin host := by
    funext server plugin
    exact server.initPluginArrays_eq memory hip plugin
  unfold Server.initPlugins
  rw [hstep]

end ModServer
