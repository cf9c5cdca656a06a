import ModServer.Server.Moves

/-!
What the loop keeps whatever the surroundings do: the registered sessions are
the live ones, and their plugins are loaded. With it the sets that the loop
fills and the lists it copies are known exactly.
-/

namespace ModServer

open Library ProtocolHandler

variable {H Env : Type}

/-- The registered sessions are the live ones, and the plugin that each refers
to is loaded. -/
structure Server.Sound (server : Server H Env) : Prop where
  wellFormed : server.sessions.WellFormed
  present : ∀ id session, server.sessions.store id = some session →
    server.pluginLoader.Present session.plugin

namespace Server.Sound

variable {server : Server H Env}

theorem plugin_ok (h : server.Sound) {id : Nat} {session : Session H}
    (hstore : server.sessions.store id = some session) :
    ∃ plugin, server.plugin session.plugin = .ok plugin := by
  obtain ⟨plugin, hfind⟩ := PluginLoader.find_of_present (h.present id session hstore)
  exact ⟨plugin, Server.plugin_eq_ok.mpr hfind⟩

theorem addSession (h : server.Sound) {session : Session H}
    (hpresent : server.pluginLoader.Present session.plugin) :
    (server.addSession session).Sound := by
  constructor
  · exact h.wellFormed.add session
  · intro id other hstore
    rw [Server.addSession_sessions, Registry.add_store] at hstore
    rcases Registry.of_update hstore with ⟨-, heq⟩ | ⟨-, hold⟩
    · cases heq
      exact hpresent
    · exact h.present id other hold

theorem setHandler (h : server.Sound) {id createdBy : Nat} {sock : Handle} {protoHandler : H}
    (protoHandler' : H)
    (hstore : server.sessions.store id = some (.connection sock protoHandler createdBy)) :
    (server.setHandler id sock protoHandler' createdBy).Sound := by
  constructor
  · exact h.wellFormed.set (h.wellFormed.mem_of_store hstore) _
  · intro other session hsession
    rw [Server.setHandler_sessions, Registry.set_store] at hsession
    rcases Registry.of_update hsession with ⟨-, heq⟩ | ⟨-, hold⟩
    · cases heq
      have hpresent := h.present id _ hstore
      exact hpresent
    · exact h.present other session hold

theorem dropSession (h : server.Sound) (id : Nat) : (server.dropSession id).Sound := by
  constructor
  · exact h.wellFormed.drop id
  · intro other session hsession
    rw [Server.dropSession_sessions, Registry.drop_store] at hsession
    rcases Registry.of_update hsession with ⟨-, heq⟩ | ⟨-, hold⟩
    · cases heq
    · exact h.present other session hold

end Server.Sound

/-- The plugin of an acceptor's session, which creates the handlers of the
connections it accepts. -/
theorem PluginLoader.present_created {loader : PluginLoader H Env} {id : Nat}
    {plugin : ServerPlugin H Env} (h : loader.find id = some plugin) :
    loader.Present plugin.id :=
  ⟨plugin, (PluginLoader.present_of_find h).1, rfl⟩

/-- The loop is about to call `OnRead` of an acceptor. -/
def Accepting (c : Config H Env) : Prop :=
  ∃ writeSet id todo sock pluginId, c.phase = .reading writeSet (id :: todo) ∧
    c.server.sessions.store id = some (.acceptor sock pluginId)

variable [ProtocolHandler H Env]

/-- What a step does to the server: nothing, or to a single session. -/
theorem Moves.server_cases {a : Answers Env} {c next : Config H Env} (h : Moves a c next) :
    next.server = c.server ∨
    (Accepting c ∧ ∃ pluginId plugin, c.server.pluginLoader.find pluginId = some plugin ∧
      next.server = c.server.addSession
        (.connection a.accepted (plugin.newProtocolHandler a.env) plugin.id)) ∨
    (∃ id sock protoHandler protoHandler' createdBy,
      c.server.sessions.store id = some (.connection sock protoHandler createdBy) ∧
      next.server = c.server.setHandler id sock protoHandler' createdBy) ∨
    (∃ id sock protoHandler createdBy,
      c.server.sessions.store id = some (.connection sock protoHandler createdBy) ∧
      next.server = c.server.dropSession id) := by
  cases h with
  | stop | poll | readEnd | sendEnd | stay => exact Or.inl rfl
  | accept hstore hfind =>
      exact Or.inr (Or.inl ⟨⟨_, _, _, _, _, rfl, hstore⟩, _, _, hfind, rfl⟩)
  | receive hstore => exact Or.inr (Or.inr (Or.inl ⟨_, _, _, _, _, hstore, rfl⟩))
  | send hstore => exact Or.inr (Or.inr (Or.inl ⟨_, _, _, _, _, hstore, rfl⟩))
  | readFailed _ hstore => exact Or.inr (Or.inr (Or.inr ⟨_, _, _, _, hstore, rfl⟩))
  | sendFailed _ hstore => exact Or.inr (Or.inr (Or.inr ⟨_, _, _, _, hstore, rfl⟩))

theorem Moves.sound {a : Answers Env} {c next : Config H Env} (h : Moves a c next)
    (hsound : c.server.Sound) : next.server.Sound := by
  obtain heq | ⟨-, pluginId, plugin, hfind, heq⟩ | ⟨id, sock, protoHandler, protoHandler',
    createdBy, hstore, heq⟩ | ⟨id, sock, protoHandler, createdBy, hstore, heq⟩ := h.server_cases
  · rw [heq]
    exact hsound
  · rw [heq]
    exact hsound.addSession (PluginLoader.present_created hfind)
  · rw [heq]
    exact hsound.setHandler protoHandler' hstore
  · rw [heq]
    exact hsound.dropSession id

theorem Moves.pluginLoader {a : Answers Env} {c next : Config H Env} (h : Moves a c next) :
    next.server.pluginLoader = c.server.pluginLoader := by
  obtain heq | ⟨-, _, _, _, heq⟩ | ⟨_, _, _, _, _, _, heq⟩ | ⟨_, _, _, _, _, heq⟩ :=
    h.server_cases
  all_goals rw [heq]
  all_goals rfl

/-! The sets and the lists that the loop makes of `m_sessions`. -/

omit [ProtocolHandler H Env] in
theorem mem_fill {server : Server H Env} {ready : Session H → Except Fault Bool}
    {socks : List Handle} (h : server.fill ready = .ok socks) (handle : Handle) :
    handle ∈ socks ↔ ∃ id ∈ server.sessions.keys, ∃ session,
      server.sessions.store id = some session ∧ ready session = .ok true ∧
        session.handle = handle := by
  unfold Server.fill at h
  obtain ⟨entries, hentries, h⟩ := bind_eq_ok.mp h
  cases h
  simp only [List.mem_map, List.mem_filter, mem_of_mapM hentries, Prod.exists]
  constructor
  · rintro ⟨_, _, ⟨⟨id, hid, hentry⟩, rfl⟩, rfl⟩
    obtain ⟨session, hderef, hentry⟩ := bind_eq_ok.mp hentry
    obtain ⟨isReady, hready, hentry⟩ := bind_eq_ok.mp hentry
    cases hentry
    exact ⟨id, hid, session, Server.deref_eq_ok.mp hderef, hready, rfl⟩
  · rintro ⟨id, hid, session, hstore, hready, rfl⟩
    refine ⟨session.handle, true, ⟨⟨id, hid, ?_⟩, rfl⟩, rfl⟩
    exact bind_eq_ok.mpr ⟨session, Server.deref_eq_ok.mpr hstore,
      bind_eq_ok.mpr ⟨true, hready, rfl⟩⟩

omit [ProtocolHandler H Env] in
theorem exists_fill {server : Server H Env} {ready : Session H → Except Fault Bool}
    (hsound : server.Sound)
    (hready : ∀ id session, server.sessions.store id = some session → ∃ b, ready session = .ok b) :
    ∃ socks, server.fill ready = .ok socks := by
  have hentries : ∃ entries, server.sessions.keys.mapM (fun id => do
      let session ← server.deref id
      let isReady ← ready session
      .ok (session.handle, isReady)) = .ok entries := by
    apply exists_mapM
    intro id hid
    obtain ⟨session, hstore⟩ := (hsound.wellFormed.live id).mp hid
    obtain ⟨b, hb⟩ := hready id session hstore
    exact ⟨(session.handle, b), bind_eq_ok.mpr ⟨session, Server.deref_eq_ok.mpr hstore,
      bind_eq_ok.mpr ⟨b, hb, rfl⟩⟩⟩
  obtain ⟨entries, hentries⟩ := hentries
  exact ⟨_, bind_eq_ok.mpr ⟨entries, hentries, rfl⟩⟩

theorem canRead_eq {server : Server H Env} (hsound : server.Sound) {id : Nat}
    {session : Session H} (hstore : server.sessions.store id = some session) :
    server.canRead session = .ok (!session.pending) := by
  cases session with
  | acceptor sock pluginId => rfl
  | connection sock protoHandler createdBy =>
      obtain ⟨plugin, hplugin⟩ := hsound.plugin_ok hstore
      exact bind_eq_ok.mpr ⟨plugin, hplugin, rfl⟩

theorem sessionHasDataToSend_eq {server : Server H Env} (hsound : server.Sound) {id : Nat}
    {session : Session H} (hstore : server.sessions.store id = some session) :
    server.sessionHasDataToSend session = .ok session.pending := by
  cases session with
  | acceptor sock pluginId => rfl
  | connection sock protoHandler createdBy =>
      obtain ⟨plugin, hplugin⟩ := hsound.plugin_ok hstore
      exact bind_eq_ok.mpr ⟨plugin, hplugin, rfl⟩

theorem mem_reads {server : Server H Env} (hsound : server.Sound) {reads : List Handle}
    (h : server.fillReadyRead = .ok reads) (handle : Handle) :
    handle ∈ reads ↔ ∃ id session, server.sessions.store id = some session ∧
      session.pending = false ∧ session.handle = handle := by
  rw [mem_fill h]
  constructor
  · rintro ⟨id, -, session, hstore, hready, hhandle⟩
    rw [canRead_eq hsound hstore] at hready
    exact ⟨id, session, hstore, by simpa using hready, hhandle⟩
  · rintro ⟨id, session, hstore, hidle, hhandle⟩
    refine ⟨id, hsound.wellFormed.mem_of_store hstore, session, hstore, ?_, hhandle⟩
    rw [canRead_eq hsound hstore, hidle]
    rfl

theorem mem_writes {server : Server H Env} (hsound : server.Sound) {writes : List Handle}
    (h : server.fillReadyWrite = .ok writes) (handle : Handle) :
    handle ∈ writes ↔ ∃ id session, server.sessions.store id = some session ∧
      session.pending = true ∧ session.handle = handle := by
  rw [mem_fill h]
  constructor
  · rintro ⟨id, -, session, hstore, hready, hhandle⟩
    rw [sessionHasDataToSend_eq hsound hstore] at hready
    exact ⟨id, session, hstore, by simpa using hready, hhandle⟩
  · rintro ⟨id, session, hstore, hpending, hhandle⟩
    refine ⟨id, hsound.wellFormed.mem_of_store hstore, session, hstore, ?_, hhandle⟩
    rw [sessionHasDataToSend_eq hsound hstore, hpending]

theorem exists_reads {server : Server H Env} (hsound : server.Sound) :
    ∃ reads, server.fillReadyRead = .ok reads :=
  exists_fill hsound (fun _ _ hstore => ⟨_, canRead_eq hsound hstore⟩)

theorem exists_writes {server : Server H Env} (hsound : server.Sound) :
    ∃ writes, server.fillReadyWrite = .ok writes :=
  exists_fill hsound (fun _ _ hstore => ⟨_, sessionHasDataToSend_eq hsound hstore⟩)

section Handles

omit [ProtocolHandler H Env]

theorem mem_handles {server : Server H Env} {handles : List (Nat × Handle)}
    (h : server.handles = .ok handles) (id : Nat) (handle : Handle) :
    (id, handle) ∈ handles ↔ id ∈ server.sessions.keys ∧ ∃ session,
      server.sessions.store id = some session ∧ session.handle = handle := by
  rw [mem_of_mapM h]
  constructor
  · rintro ⟨other, hmem, hentry⟩
    obtain ⟨session, hderef, hentry⟩ := bind_eq_ok.mp hentry
    cases hentry
    exact ⟨hmem, session, Server.deref_eq_ok.mp hderef, rfl⟩
  · rintro ⟨hmem, session, hstore, rfl⟩
    exact ⟨id, hmem, bind_eq_ok.mpr ⟨session, Server.deref_eq_ok.mpr hstore, rfl⟩⟩

theorem exists_handles {server : Server H Env} (hsound : server.Sound) :
    ∃ handles, server.handles = .ok handles := by
  apply exists_mapM
  intro id hid
  obtain ⟨session, hstore⟩ := (hsound.wellFormed.live id).mp hid
  exact ⟨_, bind_eq_ok.mpr ⟨session, Server.deref_eq_ok.mpr hstore, rfl⟩⟩

theorem chosen_nodup {server : Server H Env} (hsound : server.Sound)
    {handles : List (Nat × Handle)} (h : server.handles = .ok handles) (a : Answers Env)
    (set : FdSet) : (chosen a handles set).Nodup := by
  have hkeys : handles.map Prod.fst = server.sessions.keys := by
    apply map_of_mapM h
    intro id entry hentry
    obtain ⟨session, -, hentry⟩ := bind_eq_ok.mp hentry
    cases hentry
    rfl
  have hsub : (chosen a handles set).Sublist server.sessions.keys := by
    rw [← hkeys]
    exact List.filter_sublist.map Prod.fst
  exact hsub.nodup hsound.wellFormed.nodup

theorem mem_chosen {server : Server H Env} {handles : List (Nat × Handle)}
    (h : server.handles = .ok handles) {a : Answers Env} {set : FdSet} {id : Nat}
    (hmem : id ∈ chosen a handles set) :
    ∃ session, server.sessions.store id = some session ∧
      set.isSet a.outside session.handle = true := by
  obtain ⟨⟨other, handle⟩, hentry, rfl⟩ := List.mem_map.mp hmem
  obtain ⟨hhandles, hset⟩ := List.mem_filter.mp hentry
  obtain ⟨-, session, hstore, rfl⟩ := (mem_handles h other handle).mp hhandles
  exact ⟨session, hstore, hset⟩

end Handles

/-! The state in which the loop starts. -/

section Start

omit [ProtocolHandler H Env]

theorem not_isConnection_of_mem_acceptors {host : Host} {plugins : List (ServerPlugin H Env)} :
    ∀ session ∈ (host.acceptors plugins : List (Session H)), ¬ session.IsConnection := by
  intro session hsession
  obtain ⟨plugin, -, rfl⟩ := List.mem_map.mp hsession
  rintro ⟨sock, protoHandler, createdBy, heq⟩
  cases heq

/-- An acceptor of the initial list belongs to a plugin that is served. -/
theorem mem_acceptors {host : Host} {plugins : List (ServerPlugin H Env)} {session : Session H}
    (h : session ∈ (host.acceptors plugins : List (Session H))) :
    ∃ plugin ∈ plugins, host.Serves plugin ∧
      session = .acceptor (host.socket plugin.id) plugin.id := by
  obtain ⟨plugin, hmem, rfl⟩ := List.mem_map.mp h
  obtain ⟨hplugin, hserves⟩ := List.mem_filter.mp hmem
  exact ⟨plugin, hplugin, by simpa using hserves, rfl⟩

theorem Initial.sound {acceptors : List (Session H)} {server : Server H Env}
    (h : Initial acceptors server.sessions)
    (hpresent : ∀ session ∈ acceptors, server.pluginLoader.Present session.plugin) :
    server.Sound := by
  constructor
  · constructor
    · rw [h.keys]
      exact List.nodup_range
    · intro id
      rw [h.keys, h.store, List.mem_range]
      constructor
      · intro hlt
        exact ⟨_, List.getElem?_eq_getElem hlt⟩
      · rintro ⟨session, hsession⟩
        exact (List.getElem?_eq_some_iff.mp hsession).1
    · intro id hid
      rw [h.keys, List.mem_range] at hid
      rw [h.next]
      exact hid
  · intro id session hsession
    rw [h.store] at hsession
    exact hpresent session (List.mem_of_getElem? hsession)

end Start

theorem start_initial {loader : PluginLoader H Env} {host : Host} {c : Config H Env}
    (h : (serverLoop loader host).start c) :
    Initial (host.acceptors loader.plugins) c.server.sessions ∧
      c.server.pluginLoader = loader ∧ c.phase = .top ∧ c.trace = [] ∧ c.server.Sound := by
  obtain ⟨server, hinit, -, rfl⟩ := h
  obtain ⟨hinitial, hloader⟩ := Server.initPlugins_initial hinit
  refine ⟨hinitial, hloader, rfl, rfl, hinitial.sound ?_⟩
  intro session hsession
  obtain ⟨plugin, hplugin, -, rfl⟩ := mem_acceptors hsession
  rw [hloader]
  exact ⟨plugin, hplugin, rfl⟩

theorem start_not_connection {loader : PluginLoader H Env} {host : Host} {c : Config H Env}
    (h : (serverLoop loader host).start c) {id : Nat} {sock : Handle} {protoHandler : H}
    {createdBy : Nat} :
    c.server.sessions.store id ≠ some (.connection sock protoHandler createdBy) := by
  intro hstore
  obtain ⟨hinitial, -⟩ := start_initial h
  rw [hinitial.store] at hstore
  exact not_isConnection_of_mem_acceptors _ (List.mem_of_getElem? hstore)
    ⟨sock, protoHandler, createdBy, rfl⟩

/-- The registered sessions are live and their plugins loaded in every state of
the loop, whatever the surroundings answer. -/
theorem reachable_sound {loader : PluginLoader H Env} {host : Host}
    {allowed : Config H Env → Answers Env → Prop} {c : Config H Env}
    (h : (serverLoop loader host).Reachable allowed c) :
    c.server.Sound ∧ c.server.pluginLoader = loader := by
  apply h.invariant (P := fun c => c.server.Sound ∧ c.server.pluginLoader = loader)
  · intro c hstart
    obtain ⟨-, hloader, -, -, hsound⟩ := start_initial hstart
    exact ⟨hsound, hloader⟩
  · rintro c a next - ⟨hsound, hloader⟩ - hstep
    have hmoves := step_moves hstep
    exact ⟨hmoves.sound hsound, hmoves.pluginLoader.trans hloader⟩

end ModServer
