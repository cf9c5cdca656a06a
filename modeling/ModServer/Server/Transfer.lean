import ModServer.Server.Stream

/-!
What a connection moves through its socket: the chunk that `OnRead` receives
into, and the length that `OnWrite` asks to send.

`recv` is offered the whole chunk and the terminator goes behind the received
bytes, so a read that fills the chunk writes one byte past it. The pending size
is narrowed to an `int` on its way to `send`, which takes a `size_t`.
-/

namespace ModServer

open Library ProtocolHandler

variable {H Env : Type}

/-! What was received on a descriptor, and what the handlers were given. -/

/-- The indices of the chunk that the event writes. -/
def Event.written : Event H Env → List Nat
  | .recv _ bytes => List.range bytes.length
  | .stored index => [index]
  | _ => []

/-- The bytes received on the descriptor, after one more event. A new
connection on the descriptor starts a new stream. -/
def receiveStep (sock : Handle) (received : Bytes) : Event H Env → Bytes
  | .accepted other _ => if other = sock then [] else received
  | .recv other bytes => if other = sock then received ++ bytes else received
  | _ => received

def receivedOn (sock : Handle) (trace : List (Event H Env)) : Bytes :=
  trace.foldl (receiveStep sock) []

/-- The bytes that the event hands to the handler of the session: the first
`size` bytes of the chunk. -/
def handedIn (id : Nat) : Event H Env → Option Bytes
  | .didReceive session _ _ data size => if session = id then some (data.chars size) else none
  | _ => none

def handedTo (id : Nat) (trace : List (Event H Env)) : List Bytes :=
  trace.filterMap (handedIn id)

/-- An event that neither receives, accepts nor hands anything to a handler. -/
def Event.Idle : Event H Env → Prop
  | .accepted _ _ => False
  | .recv _ _ => False
  | .stored _ => False
  | .didReceive _ _ _ _ _ => False
  | _ => True

theorem receivedOn_append (sock : Handle) (trace events : List (Event H Env)) :
    receivedOn sock (trace ++ events) = events.foldl (receiveStep sock) (receivedOn sock trace) :=
  List.foldl_append

theorem handedTo_append (id : Nat) (trace events : List (Event H Env)) :
    handedTo id (trace ++ events) = handedTo id trace ++ handedTo id events :=
  List.filterMap_append

theorem receivedOn_idle (sock : Handle) (trace : List (Event H Env)) {events : List (Event H Env)}
    (h : ∀ event ∈ events, event.Idle) :
    receivedOn sock (trace ++ events) = receivedOn sock trace := by
  rw [receivedOn_append]
  apply foldl_stays
  intro event hevent
  have hidle := h event hevent
  cases event <;> first | rfl | cases hidle

theorem handedTo_idle (id : Nat) {events : List (Event H Env)}
    (h : ∀ event ∈ events, event.Idle) : handedTo id events = [] := by
  apply List.filterMap_eq_nil_iff.mpr
  intro event hevent
  have hidle := h event hevent
  cases event <;> first | rfl | cases hidle

theorem Event.Polls.idle {event : Event H Env} (h : event.Polls) : event.Idle := by
  cases event <;> trivial

/-- A live connection's handler was given what was received on its descriptor,
and a terminator was stored behind every received piece. -/
structure HandedOn (sessions : Registry (Session H)) (trace : List (Event H Env)) : Prop where
  streams : ∀ id sock protoHandler createdBy,
    sessions.store id = some (.connection sock protoHandler createdBy) →
    (handedTo id trace).flatten = receivedOn sock trace
  known : ∀ id env protoHandler data size,
    .didReceive id env protoHandler data size ∈ trace → id < sessions.next
  stored : ∀ index, .stored index ∈ trace ↔
    ∃ sock bytes, .recv sock bytes ∈ trace ∧ bytes.length = index

namespace HandedOn

variable {sessions : Registry (Session H)} {trace : List (Event H Env)}

theorem idle (h : HandedOn sessions trace) {events : List (Event H Env)}
    (hidle : ∀ event ∈ events, event.Idle) : HandedOn sessions (trace ++ events) := by
  have hold (event : Event H Env) (hevent : ¬ event.Idle) :
      event ∈ trace ++ events ↔ event ∈ trace := by
    rw [List.mem_append, or_iff_left]
    exact fun hmem => hevent (hidle event hmem)
  constructor
  · intro id sock protoHandler createdBy hstore
    rw [receivedOn_idle sock trace hidle, handedTo_append, handedTo_idle id hidle, List.append_nil]
    exact h.streams id sock protoHandler createdBy hstore
  · intro id env protoHandler data size hmem
    have hdid := hold (.didReceive id env protoHandler data size) not_false
    exact h.known id env protoHandler data size (hdid.mp hmem)
  · intro index
    have hstored := hold (.stored index) not_false
    have hrecv (sock : Handle) (bytes : Bytes) := hold (.recv sock bytes) not_false
    simp only [hstored, hrecv]
    exact h.stored index

theorem drop (h : HandedOn sessions trace) (id : Nat) : HandedOn (sessions.drop id) trace := by
  refine ⟨?_, h.known, h.stored⟩
  intro other sock protoHandler createdBy hstore
  rw [Registry.drop_store] at hstore
  obtain ⟨-, heq⟩ | ⟨-, hold⟩ := Registry.of_update hstore
  · cases heq
  · exact h.streams other sock protoHandler createdBy hold

/-- Another state of a connection's handler. -/
theorem set (h : HandedOn sessions trace) {id : Nat} {sock : Handle} {protoHandler : H}
    {createdBy : Nat} (protoHandler' : H)
    (hstore : sessions.store id = some (.connection sock protoHandler createdBy)) :
    HandedOn (sessions.set id (.connection sock protoHandler' createdBy)) trace := by
  refine ⟨?_, h.known, h.stored⟩
  intro other sock' found createdBy' hother
  rw [Registry.set_store] at hother
  obtain ⟨rfl, heq⟩ | ⟨-, hold⟩ := Registry.of_update hother
  · cases heq
    exact h.streams _ sock protoHandler createdBy hstore
  · exact h.streams other sock' found createdBy' hold

/-- A new connection on a descriptor that no session holds. -/
theorem accept (h : HandedOn sessions trace) {sock : Handle} (protoHandler : H) (createdBy : Nat)
    (hfresh : ∀ id session, sessions.store id = some session → session.handle ≠ sock) :
    HandedOn (sessions.add (.connection sock protoHandler createdBy))
      (trace ++ [.accepted sock sessions.next]) := by
  have hhanded (id : Nat) : handedTo id (trace ++ [.accepted sock sessions.next]) =
      handedTo id trace := by
    rw [handedTo_append]
    exact List.append_nil _
  have hreceived (other : Handle) : receivedOn other (trace ++ [.accepted sock sessions.next]) =
      if sock = other then [] else receivedOn other trace := receivedOn_append _ _ _
  constructor
  · intro id other found createdBy' hstore
    rw [Registry.add_store] at hstore
    rw [hhanded, hreceived]
    obtain ⟨rfl, heq⟩ | ⟨-, hold⟩ := Registry.of_update hstore
    · cases heq
      have hnone : handedTo sessions.next trace = [] := by
        apply List.filterMap_eq_nil_iff.mpr
        intro event hevent
        cases event with
        | didReceive id env handler data size =>
            exact if_neg (Nat.ne_of_lt (h.known id env handler data size hevent))
        | _ => rfl
      rw [if_pos rfl, hnone]
      rfl
    · have hne : sock ≠ other := Ne.symm (hfresh id _ hold)
      rw [if_neg hne]
      exact h.streams id other found createdBy' hold
  · intro id env handler data size hmem
    have hold : .didReceive id env handler data size ∈ trace := by
      simpa using hmem
    exact Nat.lt_succ_of_lt (h.known id env handler data size hold)
  · intro index
    have hold := h.stored index
    simpa using hold

/-- A connection receives into a chunk. -/
theorem receive (h : HandedOn sessions trace) (hwellFormed : sessions.WellFormed)
    (hapart : Apart sessions) {id : Nat} {sock : Handle} {protoHandler : H} {createdBy : Nat}
    (protoHandler' : H) (env : Env) {bytes : Bytes}
    (hstore : sessions.store id = some (.connection sock protoHandler createdBy))
    (hsize : bytes.length ≤ DataChunk.bufSize) :
    HandedOn (sessions.set id (.connection sock protoHandler' createdBy))
      (trace ++ [.recv sock bytes, .stored bytes.length,
        .didReceive id env protoHandler (DataChunk.received bytes) bytes.length]) := by
  have hhanded (other : Nat) : handedTo other
      (trace ++ [.recv sock bytes, .stored bytes.length,
        .didReceive id env protoHandler (DataChunk.received bytes) bytes.length]) =
      handedTo other trace ++ if id = other then [bytes] else [] := by
    rw [handedTo_append]
    congr 1
    rcases eq_or_ne id other with rfl | hne
    · have hevent : handedIn id (.didReceive id env protoHandler (DataChunk.received bytes)
          bytes.length) = some bytes :=
        (if_pos rfl).trans (congrArg some (DataChunk.chars_received hsize))
      rw [if_pos rfl]
      exact List.filterMap_cons_some hevent
    · have hevent : handedIn other (.didReceive id env protoHandler (DataChunk.received bytes)
          bytes.length) = none := if_neg hne
      rw [if_neg hne]
      exact List.filterMap_cons_none hevent
  have hreceived (other : Handle) : receivedOn other
      (trace ++ [.recv sock bytes, .stored bytes.length,
        .didReceive id env protoHandler (DataChunk.received bytes) bytes.length]) =
      if sock = other then receivedOn other trace ++ bytes else receivedOn other trace :=
    receivedOn_append _ _ _
  constructor
  · intro other sock' found createdBy' hother
    rw [Registry.set_store] at hother
    rw [hhanded, hreceived]
    obtain ⟨rfl, heq⟩ | ⟨hdiffer, hold⟩ := Registry.of_update hother
    · cases heq
      rw [if_pos rfl, if_pos rfl, List.flatten_append, List.flatten_singleton,
        h.streams _ sock protoHandler createdBy hstore]
    · -- the bytes came in on the descriptor of this connection, which no other one holds
      have hsock : sock ≠ sock' := by
        intro hsame
        exact hdiffer (hapart id other _ _ hstore hold ⟨_, _, _, rfl⟩ hsame).symm
      rw [if_neg (Ne.symm hdiffer), if_neg hsock, List.append_nil]
      exact h.streams other sock' found createdBy' hold
  · intro other env' found data size hmem
    rcases List.mem_append.mp hmem with hold | hnew
    · exact h.known other env' found data size hold
    · simp only [List.mem_cons, reduceCtorEq, Event.didReceive.injEq, false_or,
        List.not_mem_nil, or_false] at hnew
      rw [hnew.1]
      exact hwellFormed.lt_next hstore
  · intro index
    have hold := h.stored index
    simp only [List.mem_append, List.mem_cons, reduceCtorEq, Event.stored.injEq, Event.recv.injEq,
      false_or, List.not_mem_nil, or_false, hold]
    constructor
    · rintro (⟨other, found, hmem, hlength⟩ | rfl)
      · exact ⟨other, found, .inl hmem, hlength⟩
      · exact ⟨sock, bytes, .inr ⟨rfl, rfl⟩, rfl⟩
    · rintro ⟨other, found, hmem | ⟨rfl, rfl⟩, hlength⟩
      · exact .inl ⟨other, found, hmem, hlength⟩
      · exact .inr hlength.symm

end HandedOn

variable [ProtocolHandler H Env]

/-- What a connection that receives relies on: `accept` gives a descriptor that
no session holds, and `recv` keeps to the size it is offered. -/
structure AllowedReceive (c : Config H Env) (a : Answers Env) : Prop where
  accept : Accepting c → c.server.Fresh a.accepted
  recv : ∀ bytes, a.received = .ok bytes → bytes.length ≤ DataChunk.bufSize

theorem Allowed.receive {c : Config H Env} {a : Answers Env} (h : Allowed c a) :
    AllowedReceive c a := ⟨h.accept, h.recv⟩

theorem Moves.handedOn {a : Answers Env} {c next : Config H Env} (h : Moves a c next)
    (hallowed : AllowedReceive c a) (hsound : c.server.Sound) (hapart : Apart c.server.sessions)
    (hhanded : HandedOn c.server.sessions c.trace) :
    HandedOn next.server.sessions next.trace := by
  have hpolled (server : Server H Env) (reads writes : List Handle) :
      ∀ event ∈ polled server reads writes, event.Idle :=
    fun event hevent => (polls_polled server reads writes event hevent).idle
  have htested (handles : List (Nat × Handle)) :
      ∀ event ∈ (tested handles : List (Event H Env)), event.Idle :=
    fun event hevent => (polls_tested handles event hevent).idle
  cases h with
  | stop => exact hhanded.idle (hpolled _ _ _)
  | poll => exact (hhanded.idle (hpolled _ _ _)).idle (htested _)
  | readEnd => exact hhanded.idle (htested _)
  | sendEnd => exact hhanded
  | stay => exact hhanded
  | accept hstore =>
      exact hhanded.accept _ _ (hallowed.accept ⟨_, _, _, _, _, rfl, hstore⟩)
  | receive hstore hreceived =>
      exact hhanded.receive hsound.wellFormed hapart _ _ hstore (hallowed.recv _ hreceived)
  | readFailed => exact (hhanded.drop _).idle (by simp [Event.Idle])
  | send hstore => exact (hhanded.set _ hstore).idle (by simp [Event.Idle])
  | sendFailed _ _ _ _ hevents =>
      subst hevents
      exact ((hhanded.drop _).idle (by simp [Event.Idle])).idle (by simp [Event.Idle])

theorem reachable_handedOn {loader : PluginLoader H Env} {host : Host} {c : Config H Env}
    (h : (serverLoop loader host).Reachable AllowedReceive c) :
    HandedOn c.server.sessions c.trace := by
  apply h.invariant (P := fun c => HandedOn c.server.sessions c.trace)
  · intro c hstart
    obtain ⟨-, -, -, htrace, -⟩ := start_initial hstart
    rw [htrace]
    refine ⟨?_, nofun, by simp⟩
    intro id sock protoHandler createdBy hstore
    exact absurd hstore (start_not_connection hstart)
  · intro c a next hreached hhanded hallowed hstep
    have hapart := reachable_apart (fun _ _ hallowed => hallowed.accept) hreached
    exact (step_moves hstep).handedOn hallowed (reachable_sound hreached).1 hapart hhanded

/-- Every write into a chunk stays inside it, and every live connection's
handler was given exactly what was received. -/
structure ReceivesWithin (c : Config H Env) : Prop where
  written : ∀ event ∈ c.trace, ∀ index ∈ event.written, index < DataChunk.bufSize
  streams : ∀ id sock protoHandler createdBy,
    c.server.sessions.store id = some (.connection sock protoHandler createdBy) →
    (handedTo id c.trace).flatten = receivedOn sock c.trace

/-- The writes of a run stay inside the chunks as long as no read fills one. -/
theorem receivesWithin_iff (loader : PluginLoader H Env) (host : Host) (c : Config H Env)
    (h : (serverLoop loader host).Reachable AllowedReceive c) :
    ReceivesWithin c ↔
      ∀ sock bytes, .recv sock bytes ∈ c.trace → bytes.length < DataChunk.bufSize := by
  have hhanded := reachable_handedOn h
  constructor
  · intro hwithin sock bytes hmem
    have hstored := (hhanded.stored bytes.length).mpr ⟨sock, bytes, hmem, rfl⟩
    exact hwithin.written _ hstored bytes.length (List.mem_singleton_self _)
  · intro hshort
    refine ⟨?_, hhanded.streams⟩
    intro event hevent index hindex
    cases event with
    | recv sock bytes =>
        have hlength := hshort sock bytes hevent
        have hbefore := List.mem_range.mp hindex
        omega
    | stored written =>
        obtain ⟨sock, bytes, hmem, rfl⟩ := (hhanded.stored written).mp hevent
        rw [List.mem_singleton.mp hindex]
        exact hshort sock bytes hmem
    | fdSet | fdIsSet | select | accepted | didReceive | send | closed => cases hindex

/-! The length of a send. `TcpSocket::Send` takes the size as an `int` and
passes it to `send`. -/

omit [ProtocolHandler H Env] in
/-- Every `send` asks for a part of the pending bytes that is not empty. -/
def SendsWithin (pending : Nat) (events : List (Event H Env)) : Prop :=
  ∀ sock length taken, .send sock length taken ∈ events →
    1 ≤ sizeOfInt length ∧ sizeOfInt length ≤ pending

/-- The low 32 bits of the size are a positive `int`, or the size is so large
that their sign extension stays below it. -/
def SizeSurvives (size : Nat) : Prop :=
  0 < size % 2 ^ 32 ∧ (size % 2 ^ 32 < 2 ^ 31 ∨ 2 ^ 64 - 2 ^ 32 + size % 2 ^ 32 ≤ size)

theorem sizeSurvives_iff (size : Nat) :
    1 ≤ sizeOfInt (intOfSize size) ∧ sizeOfInt (intOfSize size) ≤ size ↔ SizeSurvives size := by
  have hmod := Nat.mod_le size (2 ^ 32)
  unfold SizeSurvives
  rw [sizeOfInt_intOfSize]
  split <;> omega

section Http

open Http

/-- `OnWrite` of an HTTP connection always returns, after one `send`. -/
theorem onWrite_http {server : Server HttpHandler Surroundings} (hsound : server.Sound)
    {id : Nat} {sock : Handle} {handler : HttpHandler} {createdBy : Nat}
    (hstore : server.sessions.store id = some (.connection sock handler createdBy))
    (a : Answers Surroundings) :
    ∃ next taken, server.onWrite a id =
      .ok (a.sent, next, [.send sock (intOfSize handler.response.data.length) taken]) := by
  have hderef := Server.deref_eq_ok.mpr hstore
  obtain ⟨plugin, hplugin⟩ := hsound.plugin_ok hstore
  simp only [Session.plugin] at hplugin
  unfold Server.onWrite
  simp only [hderef, hplugin, bind, Except.bind]
  rcases Int.lt_or_le 0 a.sent with hsent | hfailed
  · have hdid : ∃ handler', didSend handler a.sent = .ok handler' := by
      change ∃ handler', HttpHandler.didSend handler a.sent = .ok handler'
      unfold HttpHandler.didSend
      rw [if_neg (Int.not_le.mpr hsent)]
      split
      · exact ⟨_, rfl⟩
      · exact ⟨_, rfl⟩
    obtain ⟨handler', hdid⟩ := hdid
    simp only [hsent, if_true, hdid]
    exact ⟨_, _, rfl⟩
  · simp only [Int.not_lt.mpr hfailed, if_false]
    exact ⟨_, _, rfl⟩

theorem sendsWithin_iff (loader : PluginLoader HttpHandler Surroundings) (host : Host)
    (c : Config HttpHandler Surroundings)
    (h : (serverLoop loader host).Reachable (fun _ _ => True) c) (id : Nat) (sock : Handle)
    (handler : HttpHandler) (createdBy : Nat)
    (hstore : c.server.sessions.store id = some (.connection sock handler createdBy))
    (a : Answers Surroundings) :
    ∃ wrote next events, c.server.onWrite a id = .ok (wrote, next, events) ∧
      (SendsWithin handler.response.data.length events ↔
        SizeSurvives handler.response.data.length) := by
  obtain ⟨next, taken, honWrite⟩ := onWrite_http (reachable_sound h).1 hstore a
  refine ⟨a.sent, next, _, honWrite, ?_⟩
  rw [← sizeSurvives_iff]
  constructor
  · intro hwithin
    exact hwithin sock _ taken (List.mem_singleton_self _)
  · intro hsize other length taken' hmem
    cases List.mem_singleton.mp hmem
    exact hsize

/-! Runs in which the first client of the HTTP server sends something. -/

/-- A read that fills the chunk. -/
def fullRead : Bytes := List.replicate DataChunk.bufSize 65

theorem length_fullRead : fullRead.length = DataChunk.bufSize := List.length_replicate

theorem not_receivesWithin_full :
    (serverLoop httpLoader loopback).Reachable Allowed (answered failing.env fullRead) ∧
      ¬ ReceivesWithin (answered failing.env fullRead) := by
  have hne : fullRead ≠ [] := by
    apply List.ne_nil_of_length_pos
    rw [length_fullRead]
    decide
  refine ⟨(reachable_answered _ hne length_fullRead.le).mono (fun _ _ h => h.allowed), ?_⟩
  intro hwithin
  have hmem : (.stored fullRead.length : Event HttpHandler Surroundings) ∈
      (answered failing.env fullRead).trace := by
    simp [answered]
  have hlt := hwithin.written _ hmem fullRead.length (List.mem_singleton_self _)
  rw [length_fullRead] at hlt
  exact absurd hlt (by decide)

theorem receivesWithin_request :
    (serverLoop httpLoader loopback).Reachable AllowedReceive
        (answered failing.env (ascii "GET / HTTP/1.1")) ∧
      (ReceivesWithin (answered failing.env (ascii "GET / HTTP/1.1")) ↔
        ∀ sock bytes,
          .recv sock bytes ∈ (answered failing.env (ascii "GET / HTTP/1.1")).trace →
            bytes.length < DataChunk.bufSize) := by
  have hreached := (reachable_answered failing.env
    (by decide : ascii "GET / HTTP/1.1" ≠ []) (by decide)).mono (fun _ _ h => h.allowed.receive)
  exact ⟨hreached, receivesWithin_iff httpLoader loopback _ hreached⟩

theorem length_responseTo (page : Bytes) :
    (responseTo page).length = page.length + (decimal page.length).length + 93 := by
  simp [responseTo, HttpResponse.compose, HttpResponse.setContent, HttpResponse.addHeader,
    HttpResponse.setStatus, Header.toString, getStatusString, crlf, ascii]
  omega

/-- An `index.html` of 2 GiB. -/
def hugePage : Bytes := List.replicate (2 ^ 31) 97

theorem length_hugePage : (responseTo hugePage).length = 2 ^ 31 + 103 := by
  have hlength : hugePage.length = 2 ^ 31 := List.length_replicate
  have hdigits : (decimal (2 ^ 31)).length = 10 := by decide +kernel
  rw [length_responseTo, hlength, hdigits]

/-- The surroundings in which that file is served. -/
def hugeFile : Surroundings := ⟨some hugePage, none, 0⟩

theorem not_sendsWithin_huge :
    (serverLoop httpLoader loopback).Reachable (fun _ _ => True)
        (answered hugeFile (ascii "GET / HTTP/1.1")) ∧
      ∃ wrote next events,
        (answered hugeFile (ascii "GET / HTTP/1.1")).server.onWrite failing 1 =
          .ok (wrote, next, events) ∧
        responseTo hugePage ≠ [] ∧ ¬ SendsWithin (responseTo hugePage).length events := by
  have hreached := (reachable_answered hugeFile
    (by decide : ascii "GET / HTTP/1.1" ≠ []) (by decide)).mono (fun _ _ _ => trivial)
  have hstore : (answered hugeFile (ascii "GET / HTTP/1.1")).server.sessions.store 1 =
      some (.connection 5 ⟨none, ⟨responseTo hugePage⟩⟩ 0) := rfl
  obtain ⟨next, taken, honWrite⟩ := onWrite_http (reachable_sound hreached).1 hstore failing
  refine ⟨hreached, _, next, _, honWrite, responseTo_ne_nil hugePage, ?_⟩
  intro hwithin
  have hsize := (sizeSurvives_iff _).mp (hwithin 5 _ taken (List.mem_singleton_self _))
  rw [length_hugePage] at hsize
  exact absurd hsize (by unfold SizeSurvives; norm_num)

theorem sendsWithin_request :
    ∃ wrote next events,
      (answered failing.env (ascii "GET / HTTP/1.1")).server.onWrite failing 1 =
        .ok (wrote, next, events) ∧
      (SendsWithin (responseTo failing.env.page).length events ↔
        SizeSurvives (responseTo failing.env.page).length) :=
  sendsWithin_iff httpLoader loopback _ ((reachable_answered failing.env
    (by decide : ascii "GET / HTTP/1.1" ≠ []) (by decide)).mono (fun _ _ _ => trivial))
    1 5 ⟨none, ⟨responseTo failing.env.page⟩⟩ 0 rfl failing

end Http

end ModServer
