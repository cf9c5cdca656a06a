import ModServer.Server.Polling

/-!
Which descriptors the loop passes to `FD_SET` and `FD_ISSET`. They are those
that `socket` and `accept` handed out, and each of those is passed sooner or
later. `m_maxListen` bounds the backlog of a listener, not the descriptors, so
nothing keeps them below `FD_SETSIZE`.
-/

namespace ModServer

open Library ProtocolHandler

variable {H Env : Type}

/-- The descriptor that the event passes to `FD_SET` or `FD_ISSET`. -/
def Event.used : Event H Env → Option Handle
  | .fdSet handle => some handle
  | .fdIsSet handle => some handle
  | _ => none

/-- No access to a set fell outside it. -/
def FdInRange (trace : List (Event H Env)) : Prop :=
  ∀ event ∈ trace, ∀ handle, event.used = some handle →
    0 ≤ handle.toInt ∧ handle.toInt < fdSetSize

/-! What the loop uses in one step are handles of live sessions. -/

theorem used_tested {server : Server H Env} {handles : List (Nat × Handle)}
    (hhandles : server.handles = .ok handles) {event : Event H Env} {handle : Handle}
    (hmem : event ∈ tested handles) (hused : event.used = some handle) :
    ∃ id session, server.sessions.store id = some session ∧ session.handle = handle := by
  obtain ⟨⟨id, other⟩, hentry, rfl⟩ := List.mem_map.mp hmem
  cases hused
  obtain ⟨-, session, hstore, hhandle⟩ := (mem_handles hhandles id other).mp hentry
  exact ⟨id, session, hstore, hhandle⟩

/-- The end of `ReadData` passes the handle of every session to `FD_ISSET`. -/
theorem mem_tested {server : Server H Env} (hsound : server.Sound)
    {handles : List (Nat × Handle)} (hhandles : server.handles = .ok handles) {id : Nat}
    {session : Session H} (hstore : server.sessions.store id = some session) :
    (.fdIsSet session.handle : Event H Env) ∈ tested handles := by
  have hmem := (mem_handles hhandles id session.handle).mpr
    ⟨hsound.wellFormed.mem_of_store hstore, session, hstore, rfl⟩
  exact List.mem_map_of_mem hmem

/-- An event that uses no descriptor is not looked for among the new ones. -/
theorem mem_of_unused {trace events : List (Event H Env)}
    (hunused : ∀ event ∈ events, event.used = none) {event : Event H Env} {handle : Handle}
    (hmem : event ∈ trace ++ events) (hused : event.used = some handle) : event ∈ trace := by
  rcases List.mem_append.mp hmem with hold | hnew
  · exact hold
  · rw [hunused event hnew] at hused
    cases hused

variable [ProtocolHandler H Env]

theorem used_polled {server : Server H Env} (hsound : server.Sound) {reads writes : List Handle}
    (hread : server.fillReadyRead = .ok reads) (hwrite : server.fillReadyWrite = .ok writes)
    {event : Event H Env} (hmem : event ∈ polled server reads writes)
    {handle : Handle} (hused : event.used = some handle) :
    ∃ id session, server.sessions.store id = some session ∧ session.handle = handle := by
  simp only [polled, List.mem_append, List.mem_map, List.mem_singleton] at hmem
  rcases hmem with (⟨other, hother, rfl⟩ | ⟨other, hother, rfl⟩) | rfl
  · cases hused
    obtain ⟨id, session, hstore, -, hhandle⟩ := (mem_reads hsound hread handle).mp hother
    exact ⟨id, session, hstore, hhandle⟩
  · cases hused
    obtain ⟨id, session, hstore, -, hhandle⟩ := (mem_writes hsound hwrite handle).mp hother
    exact ⟨id, session, hstore, hhandle⟩
  · cases hused

namespace Moves

variable {a : Answers Env} {c next : Config H Env}

theorem used_cases (h : Moves a c next) (hsound : c.server.Sound) {event : Event H Env}
    {handle : Handle} (hmem : event ∈ next.trace) (hused : event.used = some handle) :
    event ∈ c.trace ∨
      ∃ id session, c.server.sessions.store id = some session ∧ session.handle = handle := by
  cases h with
  | stop hread hwrite =>
      rcases List.mem_append.mp hmem with hold | hpolled
      · exact Or.inl hold
      · exact Or.inr (used_polled hsound hread hwrite hpolled hused)
  | poll hread hwrite hhandles =>
      rcases List.mem_append.mp hmem with hbefore | htested
      · rcases List.mem_append.mp hbefore with hold | hpolled
        · exact Or.inl hold
        · exact Or.inr (used_polled hsound hread hwrite hpolled hused)
      · exact Or.inr (used_tested hhandles htested hused)
  | readEnd hhandles =>
      rcases List.mem_append.mp hmem with hold | htested
      · exact Or.inl hold
      · exact Or.inr (used_tested hhandles htested hused)
  | accept | receive | readFailed | send =>
      exact Or.inl (mem_of_unused (by simp [Event.used]) hmem hused)
  | sendFailed _ _ _ _ hevents =>
      subst hevents
      rw [List.append_assoc] at hmem
      exact Or.inl (mem_of_unused (by simp [Event.used]) hmem hused)
  | sendEnd | stay => exact Or.inl hmem

end Moves

/-- Events have descriptors that were handed out. -/
structure Provenance (acceptors : List (Session H)) (c : Config H Env) : Prop where
  events : ∀ event ∈ c.trace, ∀ handle, event.used = some handle →
    HandedOut acceptors c.trace handle
  nonneg : ∀ sock, HandedOut acceptors c.trace sock → 0 ≤ sock.toInt

theorem Moves.provenance {acceptors : List (Session H)} {a : Answers Env} {c next : Config H Env}
    (h : Moves a c next) (hallowed : AllowedAccept c a) (hsound : c.server.Sound)
    (hlive : ∀ id session, c.server.sessions.store id = some session →
      HandedOut acceptors c.trace session.handle)
    (hprovenance : Provenance acceptors c) : Provenance acceptors next := by
  obtain ⟨events, htrace⟩ := h.trace_append
  constructor
  · intro event hmem handle hused
    rw [htrace]
    obtain hold | ⟨id, session, hstore, rfl⟩ := h.used_cases hsound hmem hused
    · exact (hprovenance.events event hold handle hused).append events
    · exact (hlive id session hstore).append events
  · rintro sock (hacceptor | ⟨id, hmem⟩)
    · exact hprovenance.nonneg sock (Or.inl hacceptor)
    · obtain hold | ⟨haccepting, rfl, -⟩ := h.accepted_cases hmem
      · exact hprovenance.nonneg sock (Or.inr ⟨id, hold⟩)
      · exact hallowed.2 haccepting

/-- The sessions still to be read were registered some time. -/
def Phase.Known (sessions : Registry (Session H)) : Phase → Prop
  | .reading _ todo => ∀ id ∈ todo, id < sessions.next
  | _ => True

/-- What the loop keeps also where sets are not exact. -/
structure Steady (acceptors : List (Session H)) (c : Config H Env) : Prop where
  sound : c.server.Sound
  first : AcceptorsFirst acceptors c.server.sessions
  known : c.phase.Known c.server.sessions

theorem Moves.known {a : Answers Env} {c next : Config H Env} (h : Moves a c next)
    (hsound : c.server.Sound) (hknown : c.phase.Known c.server.sessions) :
    next.phase.Known next.server.sessions := by
  cases h with
  | stop | readEnd | send | sendFailed | sendEnd | stay => trivial
  | poll _ _ hhandles =>
      intro id hid
      obtain ⟨session, hstore, -⟩ := mem_chosen hhandles hid
      exact hsound.wellFormed.lt_next hstore
  | accept =>
      intro id hid
      exact Nat.lt_succ_of_lt (hknown id (List.mem_cons_of_mem _ hid))
  | receive | readFailed =>
      intro id hid
      exact hknown id (List.mem_cons_of_mem _ hid)

theorem reachable_steady {loader : PluginLoader H Env} {host : Host}
    {allowed : Config H Env → Answers Env → Prop} {c : Config H Env}
    (h : (serverLoop loader host).Reachable allowed c) :
    Steady (host.acceptors loader.plugins) c := by
  refine ⟨(reachable_sound h).1, reachable_acceptorsFirst h, ?_⟩
  apply h.invariant (P := fun c => c.phase.Known c.server.sessions)
  · intro c hstart
    obtain ⟨-, -, hphase, -⟩ := start_initial hstart
    rw [hphase]
    trivial
  · intro c a next hreached hknown _ hstep
    exact (step_moves hstep).known (reachable_sound hreached).1 hknown

/-- An accepted descriptor that `FD_ISSET` has not been given yet belongs to a
session that `ReadData` does not visit before it ends. -/
def Untested (c : Config H Env) (sock : Handle) (id : Nat) : Prop :=
  ∃ writeSet todo session, c.phase = .reading writeSet todo ∧ id ∉ todo ∧
    c.server.sessions.store id = some session ∧ session.handle = sock

/-- Descriptors that were handed out are used. -/
structure AllUsed (acceptors : List (Session H)) (c : Config H Env) : Prop where
  listeners : (c.trace = [] ∧ c.phase = .top) ∨
    ∀ session ∈ acceptors, .fdSet session.handle ∈ c.trace
  accepted : ∀ sock id, .accepted sock id ∈ c.trace →
    .fdIsSet sock ∈ c.trace ∨ Untested c sock id

/-- The first thing the loop does is to put all listeners into the read set. -/
theorem listeners_polled {acceptors : List (Session H)} {server : Server H Env}
    (hsound : server.Sound) (hfirst : AcceptorsFirst acceptors server.sessions)
    (hacceptors : ∀ session ∈ acceptors, ¬ session.IsConnection) {reads : List Handle}
    (hread : server.fillReadyRead = .ok reads) (writes : List Handle) {session : Session H}
    (hsession : session ∈ acceptors) :
    .fdSet session.handle ∈ polled server reads writes := by
  obtain ⟨id, hid⟩ := List.mem_iff_getElem?.mp hsession
  have hstore := hfirst.kept id session hid
  have hidle : session.pending = false := by
    cases session with
    | acceptor sock pluginId => rfl
    | connection sock protoHandler createdBy =>
        exact absurd ⟨sock, protoHandler, createdBy, rfl⟩ (hacceptors _ hsession)
  have hmem := (mem_reads hsound hread session.handle).mpr ⟨id, session, hstore, hidle, rfl⟩
  exact List.mem_append_left _ (List.mem_append_left _ (List.mem_map_of_mem hmem))

theorem Moves.listeners {acceptors : List (Session H)} {a : Answers Env} {c next : Config H Env}
    (h : Moves a c next) (hsteady : Steady acceptors c)
    (hacceptors : ∀ session ∈ acceptors, ¬ session.IsConnection)
    (hallUsed : AllUsed acceptors c) :
    ∀ session ∈ acceptors, .fdSet session.handle ∈ next.trace := by
  intro session hsession
  obtain ⟨events, htrace⟩ := h.trace_append
  obtain ⟨hempty, htop⟩ | hpolled := hallUsed.listeners
  · cases h with
    | stop hread =>
        exact List.mem_append_right _
          (listeners_polled hsteady.sound hsteady.first hacceptors hread _ hsession)
    | poll hread =>
        exact List.mem_append_left _ (List.mem_append_right _
          (listeners_polled hsteady.sound hsteady.first hacceptors hread _ hsession))
    | accept | receive | readFailed | readEnd | send | sendFailed | sendEnd | stay => cases htop
  · rw [htrace]
    exact List.mem_append_left _ (hpolled session hsession)

theorem Untested.step {acceptors : List (Session H)} {a : Answers Env} {c next : Config H Env}
    {sock : Handle} {id : Nat} (huntested : Untested c sock id) (h : Moves a c next)
    (hsteady : Steady acceptors c) :
    .fdIsSet sock ∈ next.trace ∨ Untested next sock id := by
  obtain ⟨writeSet, todo, session, hphase, hnot, hstore, rfl⟩ := huntested
  cases h with
  | stop | poll | send | sendFailed | sendEnd | stay => cases hphase
  | readEnd hhandles =>
      exact Or.inl (List.mem_append_right _ (mem_tested hsteady.sound hhandles hstore))
  | accept =>
      cases hphase
      have hold := hsteady.sound.wellFormed.ne_next hstore
      exact Or.inr ⟨_, _, session, rfl, List.not_mem_of_not_mem_cons hnot,
        store_of_update hold hstore, rfl⟩
  | receive | readFailed =>
      cases hphase
      have hnotVisited := List.ne_of_not_mem_cons hnot
      exact Or.inr ⟨_, _, session, rfl, List.not_mem_of_not_mem_cons hnot,
        store_of_update hnotVisited hstore, rfl⟩

/-- A new connection is behind the sessions still to be read. -/
theorem Moves.untested_accepted {acceptors : List (Session H)} {a : Answers Env}
    {c next : Config H Env} (h : Moves a c next) (hsteady : Steady acceptors c)
    (haccepting : Accepting c) {session : Session H}
    (hstore : next.server.sessions.store c.server.sessions.next = some session) :
    Untested next session.handle c.server.sessions.next := by
  obtain ⟨writeSet, visited, todo, listener, pluginId, hphase, hvisited⟩ := haccepting
  cases h with
  | stop | poll | send | sendFailed | sendEnd | stay | readEnd => cases hphase
  | accept =>
      cases hphase
      refine ⟨_, _, session, rfl, ?_, hstore, rfl⟩
      intro hmem
      exact absurd (hsteady.known _ (List.mem_cons_of_mem _ hmem)) (Nat.lt_irrefl _)
  | receive hconnection =>
      cases hphase
      cases hvisited.symm.trans hconnection
  | readFailed _ hconnection =>
      cases hphase
      cases hvisited.symm.trans hconnection

theorem Moves.allUsed {acceptors : List (Session H)} {a : Answers Env} {c next : Config H Env}
    (h : Moves a c next) (hsteady : Steady acceptors c)
    (hacceptors : ∀ session ∈ acceptors, ¬ session.IsConnection)
    (hallUsed : AllUsed acceptors c) : AllUsed acceptors next := by
  constructor
  · exact Or.inr (h.listeners hsteady hacceptors hallUsed)
  · intro sock id hmem
    obtain hold | ⟨haccepting, -, rfl, session, hstore, rfl⟩ := h.accepted_cases hmem
    · obtain ⟨events, htrace⟩ := h.trace_append
      rcases hallUsed.accepted sock id hold with htested | huntested
      · rw [htrace]
        exact Or.inl (List.mem_append_left _ htested)
      · exact huntested.step h hsteady
    · exact Or.inr (h.untested_accepted hsteady haccepting hstore)

theorem start_descriptors {loader : PluginLoader H Env} {host : Host}
    (hsockets : ∀ plugin ∈ loader.plugins, host.Serves plugin →
      0 ≤ (host.socket plugin.id).toInt) {c : Config H Env}
    (h : (serverLoop loader host).start c) :
    Provenance (host.acceptors loader.plugins) c ∧ AllUsed (host.acceptors loader.plugins) c := by
  obtain ⟨-, -, hphase, htrace, -⟩ := start_initial h
  constructor
  · constructor
    · intro event hmem
      rw [htrace] at hmem
      cases hmem
    · rintro sock (⟨session, hsession, rfl⟩ | ⟨id, hmem⟩)
      · obtain ⟨plugin, hplugin, hserves, rfl⟩ := mem_acceptors hsession
        exact hsockets plugin hplugin hserves
      · rw [htrace] at hmem
        cases hmem
  · constructor
    · exact Or.inl ⟨htrace, hphase⟩
    · intro sock id hmem
      rw [htrace] at hmem
      cases hmem

theorem reachable_descriptors {loader : PluginLoader H Env} {host : Host}
    (hsockets : ∀ plugin ∈ loader.plugins, host.Serves plugin →
      0 ≤ (host.socket plugin.id).toInt) {c : Config H Env}
    (h : (serverLoop loader host).Reachable AllowedAccept c) :
    Provenance (host.acceptors loader.plugins) c ∧ AllUsed (host.acceptors loader.plugins) c := by
  apply h.invariant (P := fun c => Provenance (host.acceptors loader.plugins) c ∧
    AllUsed (host.acceptors loader.plugins) c)
  · intro c hstart
    exact start_descriptors hsockets hstart
  · rintro c a next hreached ⟨hprovenance, hallUsed⟩ hallowed hstep
    have hsteady := reachable_steady hreached
    have hmoves := step_moves hstep
    exact ⟨hmoves.provenance hallowed hsteady.sound (reachable_handedOut hreached) hprovenance,
      hmoves.allUsed hsteady not_isConnection_of_mem_acceptors hallUsed⟩

/-- While all descriptors that were handed out are below `FD_SETSIZE`, no
access falls outside a set; and after the first `select`, outside `ReadData`,
one that is not has already caused such an access. -/
theorem fdInRange_iff (loader : PluginLoader H Env) (host : Host)
    (hsockets : ∀ plugin ∈ loader.plugins, host.Serves plugin →
      0 ≤ (host.socket plugin.id).toInt) (c : Config H Env)
    (h : (serverLoop loader host).Reachable AllowedAccept c) :
    ((∀ sock, HandedOut (host.acceptors loader.plugins) c.trace sock → sock.toInt < fdSetSize) →
      FdInRange c.trace) ∧
    (c.trace ≠ [] → (∀ writeSet todo, c.phase ≠ .reading writeSet todo) →
      (FdInRange c.trace ↔
        ∀ sock, HandedOut (host.acceptors loader.plugins) c.trace sock →
          sock.toInt < fdSetSize)) := by
  obtain ⟨hprovenance, hallUsed⟩ := reachable_descriptors hsockets h
  have henough (hbelow : ∀ sock, HandedOut (host.acceptors loader.plugins) c.trace sock →
      sock.toInt < fdSetSize) : FdInRange c.trace := by
    intro event hmem handle hused
    have hhanded := hprovenance.events event hmem handle hused
    exact ⟨hprovenance.nonneg handle hhanded, hbelow handle hhanded⟩
  refine ⟨henough, ?_⟩
  intro hstarted hnotReading
  refine ⟨?_, henough⟩
  rintro hrange sock (⟨session, hsession, rfl⟩ | ⟨id, hmem⟩)
  · rcases hallUsed.listeners with ⟨hempty, -⟩ | hpolled
    · exact absurd hempty hstarted
    · exact (hrange _ (hpolled session hsession) _ rfl).2
  · rcases hallUsed.accepted sock id hmem with htested | ⟨writeSet, todo, _, hphase, -⟩
    · exact (hrange _ htested _ rfl).2
    · exact absurd hphase (hnotReading writeSet todo)

/-- The first client is accepted on descriptor 1024, and `ReadData` ends. -/
theorem not_fdInRange_connected :
    ∃ c, (serverLoop Http.httpLoader Http.loopback).Reachable AllowedAccept c ∧
      ¬ FdInRange c.trace := by
  have hconnected := @reachable_accepted 1024 (by decide) (by decide)
  have hquiet : AllowedAccept (Http.connected 1024) Http.failing := by
    have hidle := not_accepting_of_phase (c := Http.connected 1024) (by simp [Http.connected])
    exact ⟨allowed_failing hidle, fun haccepting => absurd haccepting hidle⟩
  refine ⟨_, hconnected.step Http.failing hquiet rfl, ?_⟩
  intro hrange
  have hlast := (hrange (.fdIsSet 1024) (by simp [tested, Session.handle]) 1024 rfl).2
  exact absurd hlast (by decide)

/-- With the first client on descriptor 5 every access is in range. -/
theorem fdInRange_connected :
    (∀ plugin ∈ Http.httpLoader.plugins, Http.loopback.Serves plugin →
      0 ≤ (Http.loopback.socket plugin.id).toInt) ∧
    (serverLoop Http.httpLoader Http.loopback).Reachable AllowedAccept (Http.connected 5) ∧
      FdInRange (Http.connected 5).trace := by
  have hsockets : ∀ plugin ∈ Http.httpLoader.plugins, Http.loopback.Serves plugin →
      0 ≤ (Http.loopback.socket plugin.id).toInt := by
    intro plugin _ _
    change 0 ≤ (3 : Handle).toInt
    decide
  have hconnected := @reachable_accepted 5 (by decide) (by decide)
  refine ⟨hsockets, hconnected, ?_⟩
  apply (fdInRange_iff Http.httpLoader Http.loopback hsockets _ hconnected).1
  intro sock hsock
  rcases handedOut_connected hsock with rfl | rfl
  · decide
  · decide

end ModServer
