import ModServer.Server.Invariant

/-!
The descriptors that the server is given. `socket` and `accept` hand them out,
and nothing in the server keeps them below `FD_SETSIZE`; where they are, the
sets that the loop fills and reads are exact.
-/

namespace ModServer

open Library

variable {H Env : Type}

/-- The descriptor of a listener, or one that `accept` returned. -/
def HandedOut (acceptors : List (Session H)) (trace : List (Event H Env)) (sock : Handle) : Prop :=
  (∃ session ∈ acceptors, session.handle = sock) ∨ ∃ id, .accepted sock id ∈ trace

theorem HandedOut.append {acceptors : List (Session H)} {trace : List (Event H Env)}
    {sock : Handle} (h : HandedOut acceptors trace sock) (events : List (Event H Env)) :
    HandedOut acceptors (trace ++ events) sock := by
  rcases h with hacceptor | ⟨id, hmem⟩
  · exact Or.inl hacceptor
  · exact Or.inr ⟨id, List.mem_append_left _ hmem⟩

/-- An `fd_set` has a bit for every descriptor that was handed out. -/
def AllInSet (acceptors : List (Session H)) (trace : List (Event H Env)) : Prop :=
  ∀ sock, HandedOut acceptors trace sock → sock.InSet

/-- It has one for the listener of every plugin that is served. -/
def Host.InSets (host : Host) (plugins : List (ServerPlugin H Env)) : Prop :=
  ∀ plugin ∈ plugins, host.Serves plugin → (host.socket plugin.id).InSet

/-- It has one for a descriptor that `accept` returns. -/
def AcceptsInSet (c : Config H Env) (a : Answers Env) : Prop :=
  Accepting c → a.accepted.InSet

/-- It has one for the descriptor of every live session. -/
def Server.InSets (server : Server H Env) : Prop :=
  ∀ id session, server.sessions.store id = some session → session.handle.InSet

theorem AllInSet.host {host : Host} {plugins : List (ServerPlugin H Env)}
    {trace : List (Event H Env)} (h : AllInSet (host.acceptors plugins) trace) :
    host.InSets plugins := by
  intro plugin hplugin hserves
  refine h (host.socket plugin.id) (Or.inl ⟨.acceptor (host.socket plugin.id) plugin.id, ?_, rfl⟩)
  exact List.mem_map_of_mem (List.mem_filter.mpr ⟨hplugin, by simpa using hserves⟩)

variable [ProtocolHandler H Env]

namespace Moves

variable {a : Answers Env} {c next : Config H Env}

theorem trace_append (h : Moves a c next) : ∃ events, next.trace = c.trace ++ events := by
  cases h with
  | stop | accept | receive | readFailed | readEnd | send => exact ⟨_, rfl⟩
  | poll | sendFailed => exact ⟨_, List.append_assoc _ _ _⟩
  | sendEnd | stay => exact ⟨[], (List.append_nil _).symm⟩

/-- An `accept` in the trace is an old one, or the step is that `accept`. -/
theorem accepted_cases (h : Moves a c next) {sock : Handle} {id : Nat}
    (hmem : .accepted sock id ∈ next.trace) :
    .accepted sock id ∈ c.trace ∨
      (Accepting c ∧ sock = a.accepted ∧ id = c.server.sessions.next ∧
        ∃ session, next.server.sessions.store id = some session ∧ session.handle = sock) := by
  cases h with
  | stop | poll => exact Or.inl (by simpa [polled, tested] using hmem)
  | readEnd => exact Or.inl (by simpa [tested] using hmem)
  | receive | readFailed | send => exact Or.inl (by simpa using hmem)
  | sendFailed _ _ _ _ hevents =>
      subst hevents
      exact Or.inl (by simpa using hmem)
  | sendEnd | stay => exact Or.inl hmem
  | @accept server trace writeSet visited todo listener pluginId plugin hstore =>
      rcases List.mem_append.mp hmem with hold | hnew
      · exact Or.inl hold
      · cases List.mem_singleton.mp hnew
        refine Or.inr ⟨⟨_, _, _, _, _, rfl, hstore⟩, rfl, rfl, ?_⟩
        exact ⟨_, Function.update_self _ _ _, rfl⟩

/-- Sessions keep their handles, and a new one has the accepted descriptor. -/
theorem handle_cases (h : Moves a c next) {id : Nat} {session : Session H}
    (hstore : next.server.sessions.store id = some session) :
    (∃ before, c.server.sessions.store id = some before ∧ before.handle = session.handle) ∨
      .accepted session.handle id ∈ next.trace := by
  cases h with
  | stop | poll | readEnd | sendEnd | stay => exact Or.inl ⟨session, hstore, rfl⟩
  | accept =>
      obtain ⟨rfl, heq⟩ | ⟨-, hold⟩ := Registry.of_update hstore
      · cases heq
        exact Or.inr (by simp [Session.handle])
      · exact Or.inl ⟨session, hold, rfl⟩
  | receive hbefore | send hbefore =>
      obtain ⟨rfl, heq⟩ | ⟨-, hold⟩ := Registry.of_update hstore
      · cases heq
        exact Or.inl ⟨_, hbefore, rfl⟩
      · exact Or.inl ⟨session, hold, rfl⟩
  | readFailed | sendFailed =>
      obtain ⟨-, heq⟩ | ⟨-, hold⟩ := Registry.of_update hstore
      · cases heq
      · exact Or.inl ⟨session, hold, rfl⟩

/-- An `accept` shows in the trace. -/
theorem mem_accepted (h : Moves a c next) (haccepting : Accepting c) :
    .accepted a.accepted c.server.sessions.next ∈ next.trace := by
  obtain ⟨writeSet, visited, todo, listener, pluginId, hphase, hvisited⟩ := haccepting
  cases h with
  | stop | poll | send | sendFailed | sendEnd | stay | readEnd => cases hphase
  | accept =>
      cases hphase
      exact List.mem_append_right _ (List.mem_singleton_self _)
  | receive hconnection =>
      cases hphase
      cases hvisited.symm.trans hconnection
  | readFailed _ hconnection =>
      cases hphase
      cases hvisited.symm.trans hconnection

theorem inSets (h : Moves a c next) (hallowed : AcceptsInSet c a) (hsets : c.server.InSets) :
    next.server.InSets := by
  obtain heq | ⟨haccepting, pluginId, plugin, -, heq⟩ | ⟨id, sock, protoHandler,
    protoHandler', createdBy, hstore, heq⟩ | ⟨id, sock, protoHandler, createdBy, hstore, heq⟩ :=
      h.server_cases
  · rw [heq]
    exact hsets
  · rw [heq]
    intro other session hother
    obtain ⟨-, hnew⟩ | ⟨-, hold⟩ := Registry.of_update hother
    · cases hnew
      exact hallowed haccepting
    · exact hsets other session hold
  · rw [heq]
    intro other session hother
    obtain ⟨-, hsame⟩ | ⟨-, hold⟩ := Registry.of_update hother
    · cases hsame
      have hin := hsets id _ hstore
      exact hin
    · exact hsets other session hold
  · rw [heq]
    intro other session hother
    obtain ⟨-, hnone⟩ | ⟨-, hold⟩ := Registry.of_update hother
    · cases hnone
    · exact hsets other session hold

end Moves

section Runs

variable {loader : PluginLoader H Env} {host : Host}
  {allowed : Config H Env → Answers Env → Prop} {c : Config H Env}

/-- The live sessions have descriptors that were handed out. -/
theorem reachable_handedOut (h : (serverLoop loader host).Reachable allowed c) (id : Nat)
    (session : Session H) (hstore : c.server.sessions.store id = some session) :
    HandedOut (host.acceptors loader.plugins) c.trace session.handle := by
  refine h.invariant (P := fun c => ∀ id session, c.server.sessions.store id = some session →
    HandedOut (host.acceptors loader.plugins) c.trace session.handle) ?_ ?_ id session hstore
  · intro c hstart id session hstore
    obtain ⟨hinitial, -⟩ := start_initial hstart
    rw [hinitial.store] at hstore
    exact Or.inl ⟨session, List.mem_of_getElem? hstore, rfl⟩
  · intro c a next _ hlive _ hstep id session hstore
    have hmoves := step_moves hstep
    obtain ⟨events, htrace⟩ := hmoves.trace_append
    obtain ⟨before, hbefore, hhandle⟩ | haccepted := hmoves.handle_cases hstore
    · rw [htrace, ← hhandle]
      exact (hlive id before hbefore).append events
    · exact Or.inr ⟨id, haccepted⟩

/-- Where all descriptors handed out so far have bits, every `accept` of the run
returned one that has. -/
theorem reachable_acceptsInSet (h : (serverLoop loader host).Reachable allowed c)
    (hin : AllInSet (host.acceptors loader.plugins) c.trace) :
    (serverLoop loader host).Reachable (fun c a => allowed c a ∧ AcceptsInSet c a) c := by
  refine h.restrict (P := fun c => AllInSet (host.acceptors loader.plugins) c.trace) ?_ hin
  intro c a next hallowed hstep hnext
  have hmoves := step_moves hstep
  obtain ⟨events, htrace⟩ := hmoves.trace_append
  constructor
  · intro sock hsock
    apply hnext sock
    rw [htrace]
    exact hsock.append events
  · refine ⟨hallowed, ?_⟩
    intro haccepting
    exact hnext a.accepted (Or.inr ⟨_, hmoves.mem_accepted haccepting⟩)

end Runs

end ModServer
