import ModServer.Server.Polling

/-!
Removing sessions. Following a session or plugin pointer, looking for a
session in `m_sessions` and freeing a handler always succeed in the loop while
the descriptors are below `FD_SETSIZE`, so a step fails in a plugin's handler or
not at all. What is removed is the one connection whose socket failed. An
acceptor on another descriptor may be found in the write set and is deleted.
-/

namespace ModServer

open Library ProtocolHandler

variable {H Env : Type}

theorem Server.Sound.closeSession_eq {server : Server H Env} (hsound : server.Sound) {id : Nat}
    {sock : Handle} {protoHandler : H} {createdBy : Nat}
    (hstore : server.sessions.store id = some (.connection sock protoHandler createdBy)) :
    server.closeSession id = .ok (server.dropSession id, [.closed sock]) := by
  have hmem := hsound.wellFormed.mem_of_store hstore
  obtain ⟨plugin, hplugin⟩ := hsound.plugin_ok hstore
  have hderef := Server.deref_eq_ok.mpr hstore
  have hremove : server.removeFromVector id =
      .ok { server with sessions := server.sessions.unregister id } := if_pos hmem
  refine bind_eq_ok.mpr ⟨_, hderef, bind_eq_ok.mpr ⟨_, hremove, ?_⟩⟩
  exact bind_eq_ok.mpr ⟨_, hderef, bind_eq_ok.mpr ⟨plugin, hplugin, rfl⟩⟩

variable [ProtocolHandler H Env]

/-- The handler of the visited connection faults on what it is given. -/
def HandlerFaults (c : Config H Env) (a : Answers Env) (fault : HandlerFault) : Prop :=
  (∃ writeSet id todo sock protoHandler createdBy bytes,
    c.phase = .reading writeSet (id :: todo) ∧
    c.server.sessions.store id = some (.connection sock protoHandler createdBy) ∧
    a.received = .ok bytes ∧ bytes ≠ [] ∧
    didReceive a.env protoHandler (DataChunk.received bytes) bytes.length = .error fault) ∨
  (∃ id todo sock protoHandler createdBy, c.phase = .sending (id :: todo) ∧
    c.server.sessions.store id = some (.connection sock protoHandler createdBy) ∧
    0 < a.sent ∧ didSend protoHandler a.sent = .error fault)

/-- The step ends well, unless a plugin's handler faults. -/
def Proceeds (c : Config H Env) (a : Answers Env) : Prop :=
  (∃ next, c.step a = .ok next) ∨
    ∃ fault, c.step a = .error (.handler fault) ∧ HandlerFaults c a fault

theorem proceeds_top {server : Server H Env} (hsound : server.Sound)
    (trace : List (Event H Env)) (a : Answers Env) : Proceeds ⟨server, .top, trace⟩ a := by
  obtain ⟨reads, hread⟩ := exists_reads hsound
  obtain ⟨writes, hwrite⟩ := exists_writes hsound
  obtain ⟨handles, hhandles⟩ := exists_handles hsound
  apply Or.inl
  unfold Config.step
  simp only [hread, hwrite, hhandles, bind, Except.bind]
  split
  · exact ⟨_, rfl⟩
  · exact ⟨_, rfl⟩

theorem proceeds_reading {server : Server H Env} (hsound : server.Sound) {id : Nat}
    {session : Session H} (hstore : server.sessions.store id = some session) (writeSet : FdSet)
    (todo : List Nat) (trace : List (Event H Env)) (a : Answers Env) :
    Proceeds ⟨server, .reading writeSet (id :: todo), trace⟩ a := by
  have hderef := Server.deref_eq_ok.mpr hstore
  obtain ⟨plugin, hplugin⟩ := hsound.plugin_ok hstore
  unfold Proceeds Config.step Server.onRead
  cases session with
  | acceptor sock pluginId =>
      simp only [Session.plugin] at hplugin
      simp only [hderef, hplugin, bind, Except.bind]
      exact Or.inl ⟨_, rfl⟩
  | connection sock protoHandler createdBy =>
      simp only [Session.plugin] at hplugin
      have hclose := hsound.closeSession_eq hstore
      cases hreceived : a.received with
      | error code =>
          have hfailed : -(code : Int) < 1 := by omega
          simp only [hderef, hplugin, bind, Except.bind, hfailed, if_true, hclose]
          exact Or.inl ⟨_, rfl⟩
      | ok bytes =>
          simp only [hderef, hplugin, bind, Except.bind]
          rcases Nat.lt_or_ge bytes.length 1 with hnone | hsome
          · have hfailed : (bytes.length : Int) < 1 := by omega
            simp only [hnone, if_true, hfailed, hclose]
            exact Or.inl ⟨_, rfl⟩
          · have hread : ¬ (bytes.length : Int) < 1 := by omega
            simp only [Nat.not_lt.mpr hsome, if_false]
            cases hdid : didReceive a.env protoHandler (DataChunk.received bytes) bytes.length with
            | error fault =>
                have hne : bytes ≠ [] := by
                  rintro rfl
                  cases hsome
                exact Or.inr ⟨fault, rfl, Or.inl ⟨writeSet, id, todo, sock, protoHandler,
                  createdBy, bytes, rfl, hstore, hreceived, hne, hdid⟩⟩
            | ok protoHandler' =>
                simp only [hread, if_false]
                exact Or.inl ⟨_, rfl⟩

theorem proceeds_sending {server : Server H Env} (hsound : server.Sound) {id : Nat}
    {sock : Handle} {protoHandler : H} {createdBy : Nat}
    (hstore : server.sessions.store id = some (.connection sock protoHandler createdBy))
    (todo : List Nat) (trace : List (Event H Env)) (a : Answers Env) :
    Proceeds ⟨server, .sending (id :: todo), trace⟩ a := by
  have hderef := Server.deref_eq_ok.mpr hstore
  obtain ⟨plugin, hplugin⟩ := hsound.plugin_ok hstore
  have hclose := hsound.closeSession_eq hstore
  unfold Proceeds Config.step Server.onWrite
  simp only [Session.plugin] at hplugin
  simp only [hderef, hplugin, bind, Except.bind]
  rcases Int.lt_or_le 0 a.sent with hsent | hfailed
  · have hwrote : ¬ a.sent < 1 := by omega
    simp only [hsent, if_true]
    cases hdid : didSend protoHandler a.sent with
    | error fault =>
        exact Or.inr ⟨fault, rfl, Or.inr ⟨id, todo, sock, protoHandler, createdBy, rfl, hstore,
          hsent, hdid⟩⟩
    | ok protoHandler' =>
        simp only [hwrote, if_false]
        exact Or.inl ⟨_, rfl⟩
  · have hwrote : a.sent < 1 := by omega
    simp only [Int.not_lt.mpr hfailed, if_false, hwrote, if_true, hclose]
    exact Or.inl ⟨_, rfl⟩

theorem Orderly.proceeds {acceptors : List (Session H)} {c : Config H Env}
    (h : Orderly acceptors c) (a : Answers Env) : Proceeds c a := by
  obtain ⟨server, phase, trace⟩ := c
  obtain ⟨hsound, -, -, -, hphase⟩ := h
  cases phase with
  | top => exact proceeds_top hsound trace a
  | reading writeSet todo =>
      cases todo with
      | nil =>
          obtain ⟨handles, hhandles⟩ := exists_handles hsound
          exact Or.inl ⟨_, bind_eq_ok.mpr ⟨handles, hhandles, rfl⟩⟩
      | cons id todo =>
          obtain ⟨session, hstore, -⟩ := hphase.2.1 id List.mem_cons_self
          exact proceeds_reading hsound hstore writeSet todo trace a
  | sending todo =>
      cases todo with
      | nil => exact Or.inl ⟨_, rfl⟩
      | cons id todo =>
          obtain ⟨session, hstore, hpending⟩ := hphase.2 id List.mem_cons_self
          obtain ⟨sock, protoHandler, createdBy, rfl⟩ := Session.isConnection_of_pending hpending
          exact proceeds_sending hsound hstore todo trace a
  | returned => exact Or.inl ⟨_, rfl⟩

section Http

open Http

theorem handedOut_requested {sock : Handle}
    (h : HandedOut (loopback.acceptors httpLoader.plugins) requested.trace sock) :
    sock = 3 ∨ sock = 5 := by
  apply handedOut_connected
  rcases h with hacceptor | ⟨id, hmem⟩
  · exact Or.inl hacceptor
  · exact Or.inr ⟨id, by simpa [requested] using hmem⟩

theorem allInSet_requested :
    AllInSet (loopback.acceptors httpLoader.plugins) requested.trace := by
  intro sock hsock
  rcases handedOut_requested hsock with rfl | rfl
  · decide
  · decide

end Http

end ModServer
