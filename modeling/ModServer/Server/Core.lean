import ModServer.Server.Session

/-!
The server and its loop, from `server_core/server.cpp` and `tcp_session.cpp`.

The loop is cut into steps: filling the sets and calling `select`, one session
of `ReadData`, one session of `SendData`. Between two steps of `ReadData` or
`SendData` the phase keeps the copied list of the sessions still to visit. The
sets that `select` leaves are answers to the step, which `Allowed` relates to
those that were filled. `FillError` and `CloseOutdatedConnections` do nothing.
-/

namespace ModServer

open Library ProtocolHandler

variable {H Env : Type}

structure Server (H Env : Type) where
  pluginLoader : PluginLoader H Env
  sessions : Registry (Session H)
  maxFd : UInt32

namespace Server

def new : Server H Env where
  pluginLoader := .new
  sessions := .empty
  maxFd := 0

/-- `RegisterSession`. The comparison is unsigned. -/
def registerSession (server : Server H Env) (id : Nat) (session : Session H) : Server H Env :=
  { server with
    maxFd :=
      if server.maxFd ≤ session.handle.toUInt32 then (session.handle + 1).toUInt32
      else server.maxFd
    sessions := server.sessions.register id }

/-- `new` and `RegisterSession`. -/
def addSession (server : Server H Env) (session : Session H) : Server H Env :=
  { server with sessions := server.sessions.alloc session }.registerSession
    server.sessions.next session

/-- The connection `id` with another state of its handler. -/
def setHandler (server : Server H Env) (id : Nat) (sock : Handle) (protoHandler : H)
    (createdBy : Nat) : Server H Env :=
  { server with sessions := server.sessions.set id (.connection sock protoHandler createdBy) }

/-- Following a pointer to a session. -/
def deref (server : Server H Env) (id : Nat) : Except Fault (Session H) :=
  match server.sessions.store id with
  | none => .error .deadSession
  | some session => .ok session

/-- Following a pointer to a plugin, or calling into its library. -/
def plugin (server : Server H Env) (id : Nat) : Except Fault (ServerPlugin H Env) :=
  match server.pluginLoader.find id with
  | none => .error .deadPlugin
  | some plugin => .ok plugin

/-- `RemoveFromVector(m_sessions, session)`. -/
def removeFromVector (server : Server H Env) (id : Nat) : Except Fault (Server H Env) :=
  if id ∈ server.sessions.keys then
    .ok { server with sessions := server.sessions.unregister id }
  else .error .eraseEnd

/-- `delete session`: the handler frees itself, and the socket closes. -/
def deleteSession (server : Server H Env) (id : Nat) :
    Except Fault (Server H Env × List (Event H Env)) := do
  match ← server.deref id with
  | .acceptor _ _ => .error .nullHandler
  | .connection sock _ createdBy => do
      let _ ← server.plugin createdBy
      .ok ({ server with sessions := server.sessions.free id }, [.closed sock])

/-- What `ReadData` and `SendData` do with a session whose socket failed. -/
def closeSession (server : Server H Env) (id : Nat) :
    Except Fault (Server H Env × List (Event H Env)) := do
  let _ ← server.deref id
  let server ← server.removeFromVector id
  server.deleteSession id

/-- The handles that a loop over `m_sessions` passes to `FD_SET`: those of the
sessions that are ready. -/
def fill (server : Server H Env) (ready : Session H → Except Fault Bool) :
    Except Fault (List Handle) := do
  let entries ← server.sessions.keys.mapM (fun id => do
    let session ← server.deref id
    let isReady ← ready session
    .ok (session.handle, isReady))
  .ok ((entries.filter Prod.snd).map Prod.fst)

/-- The handles that the loops over `m_sessions` pass to `FD_ISSET`. -/
def handles (server : Server H Env) : Except Fault (List (Nat × Handle)) :=
  server.sessions.keys.mapM (fun id => do
    let session ← server.deref id
    .ok (id, session.handle))

variable [ProtocolHandler H Env]

def canRead (server : Server H Env) : Session H → Except Fault Bool
  | .acceptor _ _ => .ok true
  | .connection _ protoHandler createdBy => do
      let _ ← server.plugin createdBy
      .ok (!hasDataToSend protoHandler)

def sessionHasDataToSend (server : Server H Env) : Session H → Except Fault Bool
  | .acceptor _ _ => .ok false
  | .connection _ protoHandler createdBy => do
      let _ ← server.plugin createdBy
      .ok (hasDataToSend protoHandler)

/-- `FillReadyRead`, which makes `FdSet.filled` of them. -/
def fillReadyRead (server : Server H Env) : Except Fault (List Handle) :=
  server.fill server.canRead

/-- `FillReadyWrite`. -/
def fillReadyWrite (server : Server H Env) : Except Fault (List Handle) :=
  server.fill server.sessionHasDataToSend

/-- `OnRead` of the session: its result, the server and what happened. -/
def onRead (server : Server H Env) (a : Answers Env) (id : Nat) :
    Except Fault (Int × Server H Env × List (Event H Env)) := do
  match ← server.deref id with
  | .acceptor _ plugin => do
      let plugin ← server.plugin plugin
      let session := .connection a.accepted (plugin.newProtocolHandler a.env) plugin.id
      .ok (1, server.addSession session, [.accepted a.accepted server.sessions.next])
  | .connection sock protoHandler createdBy => do
      let _ ← server.plugin createdBy
      match a.received with
      | .error code => .ok (-code, server, [])
      | .ok bytes =>
          if bytes.length < 1 then .ok (bytes.length, server, [])
          else
            let chunk := DataChunk.received bytes
            match didReceive a.env protoHandler chunk bytes.length with
            | .error fault => .error (.handler fault)
            | .ok protoHandler' =>
                .ok (bytes.length, server.setHandler id sock protoHandler' createdBy,
                  [.recv sock bytes, .stored bytes.length,
                    .didReceive id a.env protoHandler chunk bytes.length])

def onWrite (server : Server H Env) (a : Answers Env) (id : Nat) :
    Except Fault (Int × Server H Env × List (Event H Env)) := do
  match ← server.deref id with
  | .acceptor _ _ => .ok (0, server, [])
  | .connection sock protoHandler createdBy => do
      let _ ← server.plugin createdBy
      let data := dataToSend protoHandler
      if 0 < a.sent then
        match didSend protoHandler a.sent with
        | .error fault => .error (.handler fault)
        | .ok protoHandler' =>
            .ok (a.sent, server.setHandler id sock protoHandler' createdBy,
              [.send sock (intOfSize data.length) (data.take a.sent.toNat)])
      else .ok (a.sent, server, [.send sock (intOfSize data.length) []])

end Server

/-- Where the loop is. `ReadData` has the write set and the sessions still to
visit, `SendData` the sessions still to visit. -/
inductive Phase where
  | top
  | reading (writeSet : FdSet) (todo : List Nat)
  | sending (todo : List Nat)
  | returned
  deriving DecidableEq, Repr

structure Config (H Env : Type) where
  server : Server H Env
  phase : Phase
  trace : List (Event H Env)

/-- The copied list: the sessions whose handle `FD_ISSET` finds in the set. -/
def chosen (a : Answers Env) (handles : List (Nat × Handle)) (set : FdSet) : List Nat :=
  (handles.filter (fun entry => set.isSet a.outside entry.2)).map Prod.fst

/-- The events of filling the two sets and calling `select`. -/
def polled (server : Server H Env) (reads writes : List Handle) : List (Event H Env) :=
  reads.map .fdSet ++ writes.map .fdSet ++ [.select server.maxFd.toInt32]

def tested (handles : List (Nat × Handle)) : List (Event H Env) :=
  handles.map (fun entry => .fdIsSet entry.2)

/-- One step of the loop of `Server::Run`. -/
def Config.step [ProtocolHandler H Env] (c : Config H Env) (a : Answers Env) :
    Except Fault (Config H Env) :=
  match c.phase with
  | .top => do
      let reads ← c.server.fillReadyRead
      let writes ← c.server.fillReadyWrite
      let trace := c.trace ++ polled c.server reads writes
      if a.selectRc = -1 then .ok ⟨c.server, .returned, trace⟩
      else do
        let handles ← c.server.handles
        .ok ⟨c.server, .reading a.writeSet (chosen a handles a.readSet), trace ++ tested handles⟩
  | .reading writeSet (id :: todo) => do
      let (read, server, events) ← c.server.onRead a id
      if read < 1 then do
        let (server, closed) ← server.closeSession id
        .ok ⟨server, .reading writeSet todo, c.trace ++ events ++ closed⟩
      else .ok ⟨server, .reading writeSet todo, c.trace ++ events⟩
  | .reading writeSet [] => do
      let handles ← c.server.handles
      .ok ⟨c.server, .sending (chosen a handles writeSet), c.trace ++ tested handles⟩
  | .sending (id :: todo) => do
      let (wrote, server, events) ← c.server.onWrite a id
      if wrote < 1 then do
        let (server, closed) ← server.closeSession id
        .ok ⟨server, .sending todo, c.trace ++ events ++ closed⟩
      else .ok ⟨server, .sending todo, c.trace ++ events⟩
  | .sending [] => .ok ⟨c.server, .top, c.trace⟩
  | .returned => .ok c

end ModServer
