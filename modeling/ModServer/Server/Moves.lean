import ModServer.Library.Result
import ModServer.Server.Init

/-!
What one step of the loop can do. Every invariant of the loop is proved by
cases on `Moves`; nothing after this module unfolds the step function.
-/

namespace ModServer

open Library ProtocolHandler

variable {H Env : Type}

/-- The server after a connection was closed. -/
def Server.dropSession (server : Server H Env) (id : Nat) : Server H Env :=
  { server with sessions := server.sessions.drop id }

section Operations

variable (server : Server H Env) (id : Nat) (sock : Handle) (protoHandler : H) (createdBy : Nat)

@[simp] theorem Server.dropSession_sessions :
    (server.dropSession id).sessions = server.sessions.drop id := rfl

@[simp] theorem Server.dropSession_pluginLoader :
    (server.dropSession id).pluginLoader = server.pluginLoader := rfl

@[simp] theorem Server.dropSession_maxFd : (server.dropSession id).maxFd = server.maxFd := rfl

@[simp] theorem Server.setHandler_sessions :
    (server.setHandler id sock protoHandler createdBy).sessions =
      server.sessions.set id (.connection sock protoHandler createdBy) := rfl

@[simp] theorem Server.setHandler_pluginLoader :
    (server.setHandler id sock protoHandler createdBy).pluginLoader = server.pluginLoader := rfl

@[simp] theorem Server.setHandler_maxFd :
    (server.setHandler id sock protoHandler createdBy).maxFd = server.maxFd := rfl

end Operations

theorem Server.deref_eq_ok {server : Server H Env} {id : Nat} {session : Session H} :
    server.deref id = .ok session ↔ server.sessions.store id = some session := by
  unfold Server.deref
  cases server.sessions.store id with
  | none => simp
  | some found => simp

theorem Server.plugin_eq_ok {server : Server H Env} {id : Nat} {plugin : ServerPlugin H Env} :
    server.plugin id = .ok plugin ↔ server.pluginLoader.find id = some plugin := by
  unfold Server.plugin
  cases server.pluginLoader.find id with
  | none => simp
  | some found => simp

/-- Closing takes the connection out of the list and off the heap. -/
theorem Server.closeSession_eq_ok {server next : Server H Env} {id : Nat}
    {events : List (Event H Env)} (h : server.closeSession id = .ok (next, events)) :
    ∃ sock protoHandler createdBy, id ∈ server.sessions.keys ∧
      server.sessions.store id = some (.connection sock protoHandler createdBy) ∧
      next = server.dropSession id ∧ events = [.closed sock] := by
  unfold Server.closeSession at h
  obtain ⟨session, hderef, h⟩ := bind_eq_ok.mp h
  obtain ⟨server', hremove, h⟩ := bind_eq_ok.mp h
  unfold Server.removeFromVector at hremove
  split at hremove
  · rename_i hmem
    cases hremove
    unfold Server.deleteSession at h
    obtain ⟨session', hsession, h⟩ := bind_eq_ok.mp h
    have hstore := Server.deref_eq_ok.mp hsession
    cases session' with
    | acceptor sock plugin => cases h
    | connection sock protoHandler createdBy =>
        obtain ⟨plugin, -, h⟩ := bind_eq_ok.mp h
        cases h
        exact ⟨sock, protoHandler, createdBy, hmem, hstore, rfl, rfl⟩
  · cases hremove

variable [ProtocolHandler H Env]

/-- The steps of the loop that end well, by what they do. -/
inductive Moves (a : Answers Env) : Config H Env → Config H Env → Prop
  | stop {server : Server H Env} {trace : List (Event H Env)} {reads writes : List Handle} :
      server.fillReadyRead = .ok reads → server.fillReadyWrite = .ok writes →
      Moves a ⟨server, .top, trace⟩
        ⟨server, .returned, trace ++ polled server reads writes⟩
  | poll {server : Server H Env} {trace : List (Event H Env)} {reads writes : List Handle}
      {handles : List (Nat × Handle)} :
      server.fillReadyRead = .ok reads → server.fillReadyWrite = .ok writes →
      server.handles = .ok handles →
      Moves a ⟨server, .top, trace⟩
        ⟨server, .reading a.writeSet (chosen a handles a.readSet),
          trace ++ polled server reads writes ++ tested handles⟩
  | accept {server : Server H Env} {trace : List (Event H Env)} {writeSet : FdSet} {id : Nat}
      {todo : List Nat} {sock : Handle} {pluginId : Nat} {plugin : ServerPlugin H Env} :
      server.sessions.store id = some (.acceptor sock pluginId) →
      server.pluginLoader.find pluginId = some plugin →
      Moves a ⟨server, .reading writeSet (id :: todo), trace⟩
        ⟨server.addSession
            (.connection a.accepted (plugin.newProtocolHandler a.env) plugin.id),
          .reading writeSet todo, trace ++ [.accepted a.accepted server.sessions.next]⟩
  | receive {server : Server H Env} {trace : List (Event H Env)} {writeSet : FdSet} {id : Nat}
      {todo : List Nat} {sock : Handle} {protoHandler protoHandler' : H} {createdBy : Nat}
      {bytes : Bytes} :
      server.sessions.store id = some (.connection sock protoHandler createdBy) →
      a.received = .ok bytes → bytes ≠ [] →
      didReceive a.env protoHandler (DataChunk.received bytes) bytes.length = .ok protoHandler' →
      Moves a ⟨server, .reading writeSet (id :: todo), trace⟩
        ⟨server.setHandler id sock protoHandler' createdBy, .reading writeSet todo,
          trace ++ [.recv sock bytes, .stored bytes.length,
            .didReceive id a.env protoHandler (DataChunk.received bytes) bytes.length]⟩
  | readFailed {server : Server H Env} {trace : List (Event H Env)} {writeSet : FdSet} {id : Nat}
      {todo : List Nat} {sock : Handle} {protoHandler : H} {createdBy : Nat} {read : Int} :
      id ∈ server.sessions.keys →
      server.sessions.store id = some (.connection sock protoHandler createdBy) →
      server.onRead a id = .ok (read, server, []) → read < 1 →
      Moves a ⟨server, .reading writeSet (id :: todo), trace⟩
        ⟨server.dropSession id, .reading writeSet todo, trace ++ [.closed sock]⟩
  | readEnd {server : Server H Env} {trace : List (Event H Env)} {writeSet : FdSet}
      {handles : List (Nat × Handle)} :
      server.handles = .ok handles →
      Moves a ⟨server, .reading writeSet [], trace⟩
        ⟨server, .sending (chosen a handles writeSet), trace ++ tested handles⟩
  | send {server : Server H Env} {trace : List (Event H Env)} {id : Nat} {todo : List Nat}
      {sock : Handle} {protoHandler protoHandler' : H} {createdBy : Nat} :
      server.sessions.store id = some (.connection sock protoHandler createdBy) →
      0 < a.sent → didSend protoHandler a.sent = .ok protoHandler' →
      Moves a ⟨server, .sending (id :: todo), trace⟩
        ⟨server.setHandler id sock protoHandler' createdBy, .sending todo,
          trace ++ [.send sock (intOfSize (dataToSend protoHandler).length)
            ((dataToSend protoHandler).take a.sent.toNat)]⟩
  | sendFailed {server : Server H Env} {trace : List (Event H Env)} {id : Nat} {todo : List Nat}
      {sock : Handle} {protoHandler : H} {createdBy : Nat} {events : List (Event H Env)} :
      id ∈ server.sessions.keys →
      server.sessions.store id = some (.connection sock protoHandler createdBy) →
      server.onWrite a id = .ok (a.sent, server, events) → a.sent < 1 →
      events = [.send sock (intOfSize (dataToSend protoHandler).length) []] →
      Moves a ⟨server, .sending (id :: todo), trace⟩
        ⟨server.dropSession id, .sending todo, trace ++ events ++ [.closed sock]⟩
  | sendEnd {server : Server H Env} {trace : List (Event H Env)} :
      Moves a ⟨server, .sending [], trace⟩ ⟨server, .top, trace⟩
  | stay {server : Server H Env} {trace : List (Event H Env)} :
      Moves a ⟨server, .returned, trace⟩ ⟨server, .returned, trace⟩

theorem moves_top {a : Answers Env} {server : Server H Env} {trace : List (Event H Env)}
    {next : Config H Env} (h : Config.step ⟨server, .top, trace⟩ a = .ok next) :
    Moves a ⟨server, .top, trace⟩ next := by
  unfold Config.step at h
  obtain ⟨reads, hread, h⟩ := bind_eq_ok.mp h
  obtain ⟨writes, hwrite, h⟩ := bind_eq_ok.mp h
  simp only at h
  split at h
  · cases h
    exact .stop hread hwrite
  · obtain ⟨handles, hhandles, h⟩ := bind_eq_ok.mp h
    cases h
    exact .poll hread hwrite hhandles

/-- `OnRead` accepted a connection, received something, or failed and left
everything as it was. -/
theorem Server.onRead_cases {server next : Server H Env} {a : Answers Env} {id : Nat} {read : Int}
    {events : List (Event H Env)} (h : server.onRead a id = .ok (read, next, events)) :
    (∃ sock pluginId plugin, server.sessions.store id = some (.acceptor sock pluginId) ∧
      server.pluginLoader.find pluginId = some plugin ∧ read = 1 ∧
      next = server.addSession
        (.connection a.accepted (plugin.newProtocolHandler a.env) plugin.id) ∧
      events = [.accepted a.accepted server.sessions.next]) ∨
    (∃ sock protoHandler protoHandler' createdBy bytes,
      server.sessions.store id = some (.connection sock protoHandler createdBy) ∧
      a.received = .ok bytes ∧ bytes ≠ [] ∧ read = bytes.length ∧
      didReceive a.env protoHandler (DataChunk.received bytes) bytes.length = .ok protoHandler' ∧
      next = server.setHandler id sock protoHandler' createdBy ∧
      events = [.recv sock bytes, .stored bytes.length,
        .didReceive id a.env protoHandler (DataChunk.received bytes) bytes.length]) ∨
    (read < 1 ∧ next = server ∧ events = []) := by
  unfold Server.onRead at h
  obtain ⟨session, hderef, h⟩ := bind_eq_ok.mp h
  have hstore := Server.deref_eq_ok.mp hderef
  cases session with
  | acceptor sock pluginId =>
      obtain ⟨plugin, hplugin, h⟩ := bind_eq_ok.mp h
      cases h
      exact Or.inl ⟨sock, pluginId, plugin, hstore, Server.plugin_eq_ok.mp hplugin, rfl, rfl, rfl⟩
  | connection sock protoHandler createdBy =>
      obtain ⟨plugin, -, h⟩ := bind_eq_ok.mp h
      apply Or.inr
      cases hreceived : a.received with
      | error code =>
          simp only [hreceived, Except.ok.injEq, Prod.mk.injEq] at h
          obtain ⟨rfl, rfl, rfl⟩ := h
          exact Or.inr ⟨by omega, rfl, rfl⟩
      | ok bytes =>
          simp only [hreceived] at h
          split at h
          · rename_i hshort
            simp only [Except.ok.injEq, Prod.mk.injEq] at h
            obtain ⟨rfl, rfl, rfl⟩ := h
            exact Or.inr ⟨by omega, rfl, rfl⟩
          · rename_i hlong
            have hne : bytes ≠ [] := by
              rintro rfl
              exact hlong (by decide)
            split at h
            · cases h
            · rename_i protoHandler' hdid
              cases h
              exact Or.inl ⟨sock, protoHandler, protoHandler', createdBy, bytes, hstore, rfl, hne,
                rfl, hdid, rfl, rfl⟩

theorem moves_reading {a : Answers Env} {server : Server H Env} {trace : List (Event H Env)}
    {writeSet : FdSet} {id : Nat} {todo : List Nat} {next : Config H Env}
    (h : Config.step ⟨server, .reading writeSet (id :: todo), trace⟩ a = .ok next) :
    Moves a ⟨server, .reading writeSet (id :: todo), trace⟩ next := by
  unfold Config.step at h
  obtain ⟨⟨read, server', events⟩, honRead, h⟩ := bind_eq_ok.mp h
  obtain ⟨sock, pluginId, plugin, hstore, hfind, rfl, rfl, rfl⟩ |
    ⟨sock, protoHandler, protoHandler', createdBy, bytes, hstore, hreceived, hne, rfl, hdid, rfl,
      rfl⟩ | ⟨hread, rfl, rfl⟩ := Server.onRead_cases honRead
  · cases h
    exact .accept hstore hfind
  · have hpos : ¬ (bytes.length : Int) < 1 := by
      have hlength := List.length_pos_of_ne_nil hne
      omega
    simp only [hpos, if_false] at h
    cases h
    exact .receive hstore hreceived hne hdid
  · simp only [hread, if_true] at h
    obtain ⟨⟨server'', closed⟩, hclose, h⟩ := bind_eq_ok.mp h
    obtain ⟨sock, protoHandler, createdBy, hmem, hstore, rfl, rfl⟩ :=
      Server.closeSession_eq_ok hclose
    simp only [List.append_nil] at h
    cases h
    exact .readFailed hmem hstore honRead hread

/-- `OnWrite` sent something, or left everything as it was. -/
theorem Server.onWrite_cases {server next : Server H Env} {a : Answers Env} {id : Nat} {wrote : Int}
    {events : List (Event H Env)} (h : server.onWrite a id = .ok (wrote, next, events)) :
    (∃ sock protoHandler protoHandler' createdBy,
      server.sessions.store id = some (.connection sock protoHandler createdBy) ∧
      0 < a.sent ∧ wrote = a.sent ∧ didSend protoHandler a.sent = .ok protoHandler' ∧
      next = server.setHandler id sock protoHandler' createdBy ∧
      events = [.send sock (intOfSize (dataToSend protoHandler).length)
        ((dataToSend protoHandler).take a.sent.toNat)]) ∨
    (∃ sock protoHandler createdBy,
      server.sessions.store id = some (.connection sock protoHandler createdBy) ∧
      a.sent ≤ 0 ∧ wrote = a.sent ∧ next = server ∧
      events = [.send sock (intOfSize (dataToSend protoHandler).length) []]) ∨
    (∃ sock pluginId, server.sessions.store id = some (.acceptor sock pluginId) ∧
      wrote = 0 ∧ next = server ∧ events = []) := by
  unfold Server.onWrite at h
  obtain ⟨session, hderef, h⟩ := bind_eq_ok.mp h
  have hstore := Server.deref_eq_ok.mp hderef
  cases session with
  | acceptor sock pluginId =>
      cases h
      exact Or.inr (Or.inr ⟨sock, pluginId, hstore, rfl, rfl, rfl⟩)
  | connection sock protoHandler createdBy =>
      obtain ⟨plugin, -, h⟩ := bind_eq_ok.mp h
      simp only at h
      split at h
      · rename_i hpos
        split at h
        · cases h
        · rename_i protoHandler' hdid
          cases h
          exact Or.inl ⟨sock, protoHandler, protoHandler', createdBy, hstore, hpos, rfl, hdid, rfl,
            rfl⟩
      · rename_i hneg
        cases h
        exact Or.inr (Or.inl ⟨sock, protoHandler, createdBy, hstore, Int.not_lt.mp hneg, rfl, rfl,
          rfl⟩)

theorem moves_sending {a : Answers Env} {server : Server H Env} {trace : List (Event H Env)}
    {id : Nat} {todo : List Nat} {next : Config H Env}
    (h : Config.step ⟨server, .sending (id :: todo), trace⟩ a = .ok next) :
    Moves a ⟨server, .sending (id :: todo), trace⟩ next := by
  unfold Config.step at h
  obtain ⟨⟨wrote, server', events⟩, honWrite, h⟩ := bind_eq_ok.mp h
  obtain ⟨sock, protoHandler, protoHandler', createdBy, hstore, hpos, rfl, hdid, rfl, rfl⟩ |
    ⟨sock, protoHandler, createdBy, hstore, hneg, rfl, rfl, rfl⟩ |
    ⟨sock, pluginId, hstore, rfl, rfl, rfl⟩ := Server.onWrite_cases honWrite
  · have hmore : ¬ a.sent < 1 := by omega
    simp only [hmore, if_false] at h
    cases h
    exact .send hstore hpos hdid
  · have hless : a.sent < 1 := by omega
    simp only [hless, if_true] at h
    obtain ⟨⟨server'', closed⟩, hclose, h⟩ := bind_eq_ok.mp h
    obtain ⟨sock', protoHandler', createdBy', hmem, hstore', rfl, rfl⟩ :=
      Server.closeSession_eq_ok hclose
    rw [hstore] at hstore'
    cases hstore'
    cases h
    exact .sendFailed hmem hstore honWrite hless rfl
  · -- deleting an acceptor would free a handler that is not there
    obtain ⟨⟨server'', closed⟩, hclose, -⟩ := bind_eq_ok.mp h
    obtain ⟨sock', protoHandler', createdBy', hmem, hstore', -⟩ :=
      Server.closeSession_eq_ok hclose
    rw [hstore] at hstore'
    cases hstore'

theorem step_moves {a : Answers Env} {c next : Config H Env} (h : c.step a = .ok next) :
    Moves a c next := by
  obtain ⟨server, phase, trace⟩ := c
  cases phase with
  | top => exact moves_top h
  | reading writeSet todo =>
      cases todo with
      | nil =>
          unfold Config.step at h
          obtain ⟨handles, hhandles, h⟩ := bind_eq_ok.mp h
          cases h
          exact .readEnd hhandles
      | cons id todo => exact moves_reading h
  | sending todo =>
      cases todo with
      | nil =>
          cases h
          exact .sendEnd
      | cons id todo => exact moves_sending h
  | returned =>
      cases h
      exact .stay

end ModServer
