import ModServer.Server.Bounded

/-!
The loop in surroundings that keep their promises: `select` returns subsets of
the sets it is given, `recv` stays within the chunk, `send` takes no more than
is pending, and `accept` returns a descriptor that no live session holds.

The handle of a connection then tells it apart from every other session. So as
long as an `fd_set` has bits for all descriptors, the write set that was filled
at the top of the loop still singles out the connections with pending data when
`SendData` reads it, after sessions were added and deleted.
-/

namespace ModServer

open Library ProtocolHandler

variable {H Env : Type} [ProtocolHandler H Env]

omit [ProtocolHandler H Env] in
/-- No live session holds the descriptor. -/
def Server.Fresh (server : Server H Env) (sock : Handle) : Prop :=
  ∀ id session, server.sessions.store id = some session → session.handle ≠ sock

/-- What the surroundings may answer in a state. When an `FD_SET` has written
behind its set, any sets may have been passed to `select`. -/
structure Allowed (c : Config H Env) (a : Answers Env) : Prop where
  select : ∀ reads writes, c.phase = .top → c.server.fillReadyRead = .ok reads →
    c.server.fillReadyWrite = .ok writes → (∀ sock ∈ reads ++ writes, sock.InSet) →
    a.readSet ⊆ .filled reads ∧ a.writeSet ⊆ .filled writes
  accept : Accepting c → c.server.Fresh a.accepted
  recv : ∀ bytes, a.received = .ok bytes → bytes.length ≤ DataChunk.bufSize
  send : ∀ id todo sock protoHandler createdBy, c.phase = .sending (id :: todo) →
    c.server.sessions.store id = some (.connection sock protoHandler createdBy) →
    a.sent ≤ (dataToSend protoHandler).length

/-- What they may answer while descriptors are below `FD_SETSIZE`. -/
structure Bounded (c : Config H Env) (a : Answers Env) : Prop where
  allowed : Allowed c a
  accept : AcceptsInSet c a

section Sessions

omit [ProtocolHandler H Env]

/-- The acceptors come first and are the ones that `InitPlugins` registered;
everything behind them is a connection. -/
structure AcceptorsFirst (acceptors : List (Session H)) (sessions : Registry (Session H)) :
    Prop where
  kept : ∀ id session, acceptors[id]? = some session → sessions.store id = some session
  order : ∃ rest, sessions.keys = List.range acceptors.length ++ rest ∧
    ∀ id ∈ rest, ∃ session, sessions.store id = some session ∧ session.IsConnection

/-- No session shares its handle with a connection. -/
def Apart (sessions : Registry (Session H)) : Prop :=
  ∀ i j left right, sessions.store i = some left → sessions.store j = some right →
    left.IsConnection → left.handle = right.handle → i = j

namespace AcceptorsFirst

variable {acceptors : List (Session H)} {sessions : Registry (Session H)}

/-- A connection does not stand where an acceptor does. -/
theorem not_acceptor (h : AcceptorsFirst acceptors sessions)
    (hacceptors : ∀ session ∈ acceptors, ¬ session.IsConnection) {id : Nat} {session : Session H}
    (hstore : sessions.store id = some session) (hconnection : session.IsConnection) :
    acceptors.length ≤ id := by
  rcases Nat.lt_or_ge id acceptors.length with hlt | hge
  · have hacceptor := h.kept id _ (List.getElem?_eq_getElem hlt)
    rw [hstore] at hacceptor
    cases hacceptor
    exact absurd hconnection (hacceptors _ (List.getElem_mem hlt))
  · exact hge

theorem add (h : AcceptorsFirst acceptors sessions) (hwellFormed : sessions.WellFormed)
    {session : Session H} (hconnection : session.IsConnection) :
    AcceptorsFirst acceptors (sessions.add session) := by
  have hold {id : Nat} {other : Session H} (hstore : sessions.store id = some other) :
      (sessions.add session).store id = some other := by
    rw [Registry.add_store, Function.update_of_ne (hwellFormed.ne_next hstore), hstore]
  constructor
  · intro id other hother
    exact hold (h.kept id other hother)
  · obtain ⟨rest, hkeys, hrest⟩ := h.order
    refine ⟨rest ++ [sessions.next], by rw [Registry.add_keys, hkeys, List.append_assoc], ?_⟩
    intro id hid
    rcases List.mem_append.mp hid with hmem | hlast
    · obtain ⟨other, hstore, hother⟩ := hrest id hmem
      exact ⟨other, hold hstore, hother⟩
    · rw [List.mem_singleton] at hlast
      subst hlast
      exact ⟨session, by rw [Registry.add_store, Function.update_self], hconnection⟩

theorem set (h : AcceptorsFirst acceptors sessions)
    (hacceptors : ∀ session ∈ acceptors, ¬ session.IsConnection) {id : Nat}
    {old session : Session H} (hstore : sessions.store id = some old)
    (hold : old.IsConnection) (hconnection : session.IsConnection) :
    AcceptorsFirst acceptors (sessions.set id session) := by
  have hge := h.not_acceptor hacceptors hstore hold
  constructor
  · intro other found hfound
    have hlt : other < acceptors.length := (List.getElem?_eq_some_iff.mp hfound).1
    rw [Registry.set_store, Function.update_of_ne (by omega), h.kept other found hfound]
  · obtain ⟨rest, hkeys, hrest⟩ := h.order
    refine ⟨rest, hkeys, ?_⟩
    intro other hother
    rcases eq_or_ne other id with rfl | hne
    · exact ⟨session, by rw [Registry.set_store, Function.update_self], hconnection⟩
    · obtain ⟨found, hfound, hisConnection⟩ := hrest other hother
      exact ⟨found, by rw [Registry.set_store, Function.update_of_ne hne, hfound], hisConnection⟩

theorem drop (h : AcceptorsFirst acceptors sessions)
    (hacceptors : ∀ session ∈ acceptors, ¬ session.IsConnection)
    (hwellFormed : sessions.WellFormed) {id : Nat} {session : Session H}
    (hstore : sessions.store id = some session) (hconnection : session.IsConnection) :
    AcceptorsFirst acceptors (sessions.drop id) := by
  have hge := h.not_acceptor hacceptors hstore hconnection
  constructor
  · intro other found hfound
    have hlt : other < acceptors.length := (List.getElem?_eq_some_iff.mp hfound).1
    rw [Registry.drop_store, Function.update_of_ne (by omega), h.kept other found hfound]
  · obtain ⟨rest, hkeys, hrest⟩ := h.order
    have hnot : id ∉ List.range acceptors.length := by
      rw [List.mem_range]
      omega
    refine ⟨rest.erase id, by rw [Registry.drop_keys, hkeys, List.erase_append_right _ hnot], ?_⟩
    intro other hother
    have hnodup : rest.Nodup := by
      have hall := hwellFormed.nodup
      rw [hkeys] at hall
      exact hall.of_append_right
    obtain ⟨hne, hmem⟩ := hnodup.mem_erase_iff.mp hother
    obtain ⟨found, hfound, hisConnection⟩ := hrest other hmem
    exact ⟨found, by rw [Registry.drop_store, Function.update_of_ne hne, hfound], hisConnection⟩

end AcceptorsFirst

namespace Apart

variable {sessions : Registry (Session H)}

theorem add (h : Apart sessions) {session : Session H}
    (hfresh : ∀ id other, sessions.store id = some other → other.handle ≠ session.handle) :
    Apart (sessions.add session) := by
  intro i j left right hi hj hconnection heq
  rw [Registry.add_store] at hi hj
  obtain ⟨rfl, hleft⟩ | ⟨-, hleft⟩ := Registry.of_update hi
  · cases hleft
    obtain ⟨rfl, -⟩ | ⟨-, hright⟩ := Registry.of_update hj
    · rfl
    · exact absurd heq.symm (hfresh j right hright)
  · obtain ⟨rfl, hright⟩ | ⟨-, hright⟩ := Registry.of_update hj
    · cases hright
      exact absurd heq (hfresh i left hleft)
    · exact h i j left right hleft hright hconnection heq

theorem set (h : Apart sessions) {id : Nat} {old session : Session H}
    (hstore : sessions.store id = some old) (hconnection : old.IsConnection)
    (hhandle : session.handle = old.handle) : Apart (sessions.set id session) := by
  intro i j left right hi hj hleftConnection heq
  rw [Registry.set_store] at hi hj
  obtain ⟨rfl, hleft⟩ | ⟨-, hleft⟩ := Registry.of_update hi
  · cases hleft
    obtain ⟨rfl, -⟩ | ⟨-, hright⟩ := Registry.of_update hj
    · rfl
    · exact h i j old right hstore hright hconnection (by rw [← hhandle, heq])
  · obtain ⟨rfl, hright⟩ | ⟨-, hright⟩ := Registry.of_update hj
    · cases hright
      exact h i j left old hleft hstore hleftConnection (by rw [heq, hhandle])
    · exact h i j left right hleft hright hleftConnection heq

theorem drop (h : Apart sessions) (id : Nat) : Apart (sessions.drop id) := by
  intro i j left right hi hj hconnection heq
  rw [Registry.drop_store] at hi hj
  obtain ⟨-, hleft⟩ | ⟨-, hleft⟩ := Registry.of_update hi
  · cases hleft
  · obtain ⟨-, hright⟩ | ⟨-, hright⟩ := Registry.of_update hj
    · cases hright
    · exact h i j left right hleft hright hconnection heq

end Apart

end Sessions

/-- The sessions still to be read have nothing to send, each handle of the
write set belongs to a connection that has, and so do the sessions still to be
written. -/
def Phase.Ok (sessions : Registry (Session H)) : Phase → Prop
  | .reading writeSet todo =>
      todo.Nodup ∧
      (∀ id ∈ todo, ∃ session, sessions.store id = some session ∧ session.pending = false) ∧
      ∀ handle ∈ writeSet, ∃ id session, sessions.store id = some session ∧
        session.pending = true ∧ session.handle = handle
  | .sending todo =>
      todo.Nodup ∧
      ∀ id ∈ todo, ∃ session, sessions.store id = some session ∧ session.pending = true
  | _ => True

/-- The invariant of the loop. -/
structure Orderly (acceptors : List (Session H)) (c : Config H Env) : Prop where
  sound : c.server.Sound
  first : AcceptorsFirst acceptors c.server.sessions
  inSets : c.server.InSets
  apart : Apart c.server.sessions
  phase : c.phase.Ok c.server.sessions

theorem Session.isConnection_of_pending {session : Session H} (h : session.pending = true) :
    session.IsConnection := by
  cases session with
  | acceptor sock pluginId => cases h
  | connection sock protoHandler createdBy => exact ⟨sock, protoHandler, createdBy, rfl⟩

omit [ProtocolHandler H Env] in
/-- Below `FD_SETSIZE` the copied list holds the sessions whose bits are set. -/
theorem Server.InSets.mem_chosen {server : Server H Env} (hsets : server.InSets)
    {handles : List (Nat × Handle)} (hhandles : server.handles = .ok handles) {a : Answers Env}
    {set : FdSet} {id : Nat} (hid : id ∈ chosen a handles set) :
    ∃ session, server.sessions.store id = some session ∧ session.handle ∈ set := by
  obtain ⟨session, hstore, hset⟩ := ModServer.mem_chosen hhandles hid
  exact ⟨session, hstore, (FdSet.isSet_iff (hsets id session hstore)).mp hset⟩

/-- So no write falls behind the sets that `select` is given. -/
theorem Server.InSets.fills {server : Server H Env} (hsets : server.InSets)
    (hsound : server.Sound) {reads writes : List Handle}
    (hread : server.fillReadyRead = .ok reads) (hwrite : server.fillReadyWrite = .ok writes) :
    ∀ sock ∈ reads ++ writes, sock.InSet := by
  intro sock hmem
  rcases List.mem_append.mp hmem with hreads | hwrites
  · obtain ⟨id, session, hstore, -, rfl⟩ := (mem_reads hsound hread sock).mp hreads
    exact hsets id session hstore
  · obtain ⟨id, session, hstore, -, rfl⟩ := (mem_writes hsound hwrite sock).mp hwrites
    exact hsets id session hstore

/-- The copied list of `ReadData` holds sessions with nothing to send. -/
theorem pending_of_chosen_read {server : Server H Env} (hsound : server.Sound)
    (hsets : server.InSets) (hapart : Apart server.sessions) {reads : List Handle}
    {ready : FdSet} {handles : List (Nat × Handle)} {a : Answers Env}
    (hread : server.fillReadyRead = .ok reads) (hhandles : server.handles = .ok handles)
    (hsub : ready ⊆ .filled reads) {id : Nat} (hid : id ∈ chosen a handles ready) :
    ∃ session, server.sessions.store id = some session ∧ session.pending = false := by
  obtain ⟨session, hstore, hready⟩ := hsets.mem_chosen hhandles hid
  refine ⟨session, hstore, ?_⟩
  cases session with
  | acceptor sock pluginId => rfl
  | connection sock protoHandler createdBy =>
      -- the session that set the bit is this one, since no other has its handle
      obtain ⟨hmem, -⟩ := FdSet.mem_filled.mp (hsub _ hready)
      obtain ⟨other, found, hfound, hidle, hhandle⟩ := (mem_reads hsound hread _).mp hmem
      have hsame : id = other :=
        hapart id other _ found hstore hfound ⟨sock, protoHandler, createdBy, rfl⟩ hhandle.symm
      subst hsame
      rw [hstore] at hfound
      cases hfound
      exact hidle

/-- The copied list of `SendData` holds connections with data to send. -/
theorem pending_of_chosen_write {server : Server H Env} (hsets : server.InSets)
    (hapart : Apart server.sessions) {writeSet : FdSet} {handles : List (Nat × Handle)}
    (hhandles : server.handles = .ok handles)
    (hwrite : ∀ handle ∈ writeSet, ∃ id session, server.sessions.store id = some session ∧
      session.pending = true ∧ session.handle = handle)
    {a : Answers Env} {id : Nat} (hid : id ∈ chosen a handles writeSet) :
    ∃ session, server.sessions.store id = some session ∧ session.pending = true := by
  obtain ⟨session, hstore, hset⟩ := hsets.mem_chosen hhandles hid
  obtain ⟨other, found, hfound, hpending, hhandle⟩ := hwrite _ hset
  have hsame : other = id :=
    hapart other id found session hfound hstore (Session.isConnection_of_pending hpending) hhandle
  subst hsame
  exact ⟨found, hfound, hpending⟩

/-- A step of `ReadData` that keeps every session but the visited one. -/
theorem Phase.Ok.reading_rest {sessions next : Registry (Session H)} {writeSet : FdSet} {id : Nat}
    {todo : List Nat} (h : (Phase.reading writeSet (id :: todo)).Ok sessions)
    (hkeep : ∀ other session, other ≠ id → sessions.store other = some session →
      next.store other = some session) :
    (Phase.reading writeSet todo).Ok next := by
  obtain ⟨hnodup, htodo, hset⟩ := h
  obtain ⟨hid, hrest⟩ := List.nodup_cons.mp hnodup
  refine ⟨hrest, ?_, ?_⟩
  · intro other hother
    obtain ⟨session, hsession, hidle⟩ := htodo other (List.mem_cons_of_mem _ hother)
    exact ⟨session, hkeep other session (ne_of_mem_of_not_mem hother hid) hsession, hidle⟩
  · intro handle hhandle
    obtain ⟨other, session, hsession, hpending, heq⟩ := hset handle hhandle
    obtain ⟨visited, hvisited, hidle⟩ := htodo id List.mem_cons_self
    have hne : other ≠ id := by
      rintro rfl
      rw [hsession] at hvisited
      cases hvisited
      rw [hpending] at hidle
      cases hidle
    exact ⟨other, session, hkeep other session hne hsession, hpending, heq⟩

theorem Phase.Ok.sending_rest {sessions next : Registry (Session H)} {id : Nat} {todo : List Nat}
    (h : (Phase.sending (id :: todo)).Ok sessions)
    (hkeep : ∀ other session, other ≠ id → sessions.store other = some session →
      next.store other = some session) :
    (Phase.sending todo).Ok next := by
  obtain ⟨hnodup, htodo⟩ := h
  obtain ⟨hid, hrest⟩ := List.nodup_cons.mp hnodup
  refine ⟨hrest, ?_⟩
  intro other hother
  obtain ⟨session, hsession, hpending⟩ := htodo other (List.mem_cons_of_mem _ hother)
  exact ⟨session, hkeep other session (ne_of_mem_of_not_mem hother hid) hsession, hpending⟩

omit [ProtocolHandler H Env] in
theorem store_of_update {sessions : Registry (Session H)} {id other : Nat} {session : Session H}
    {o : Option (Session H)} (hne : other ≠ id) (h : sessions.store other = some session) :
    Function.update sessions.store id o other = some session := by
  rw [Function.update_of_ne hne, h]

theorem Moves.phase_ok {a : Answers Env} {c next : Config H Env} (h : Moves a c next)
    (hallowed : Allowed c a) (hsound : c.server.Sound) (hsets : c.server.InSets)
    (hapart : Apart c.server.sessions) (hphase : c.phase.Ok c.server.sessions) :
    next.phase.Ok next.server.sessions := by
  cases h with
  | stop => trivial
  | sendEnd => trivial
  | stay => trivial
  | poll hread hwrite hhandles =>
      obtain ⟨hreadSub, hwriteSub⟩ :=
        hallowed.select _ _ rfl hread hwrite (hsets.fills hsound hread hwrite)
      refine ⟨chosen_nodup hsound hhandles a _, ?_, ?_⟩
      · intro id hid
        exact pending_of_chosen_read hsound hsets hapart hread hhandles hreadSub hid
      · intro handle hhandle
        obtain ⟨hmem, -⟩ := FdSet.mem_filled.mp (hwriteSub handle hhandle)
        exact (mem_writes hsound hwrite handle).mp hmem
  | readEnd hhandles =>
      refine ⟨chosen_nodup hsound hhandles a _, ?_⟩
      intro id hid
      exact pending_of_chosen_write hsets hapart hhandles hphase.2.2 hid
  | accept =>
      apply hphase.reading_rest
      intro other session _ hother
      exact store_of_update (hsound.wellFormed.ne_next hother) hother
  | receive =>
      apply hphase.reading_rest
      intro other session hne hother
      exact store_of_update hne hother
  | readFailed =>
      apply hphase.reading_rest
      intro other session hne hother
      exact store_of_update hne hother
  | send =>
      apply hphase.sending_rest
      intro other session hne hother
      exact store_of_update hne hother
  | sendFailed =>
      apply hphase.sending_rest
      intro other session hne hother
      exact store_of_update hne hother

theorem Moves.apart {a : Answers Env} {c next : Config H Env} (h : Moves a c next)
    (hfresh : Accepting c → c.server.Fresh a.accepted) (hapart : Apart c.server.sessions) :
    Apart next.server.sessions := by
  obtain heq | ⟨haccepting, pluginId, plugin, hfind, heq⟩ | ⟨id, sock, protoHandler,
    protoHandler', createdBy, hstore, heq⟩ | ⟨id, sock, protoHandler, createdBy, hstore, heq⟩ :=
      h.server_cases
  · rw [heq]
    exact hapart
  · rw [heq]
    exact hapart.add (hfresh haccepting)
  · rw [heq]
    exact hapart.set hstore ⟨_, _, _, rfl⟩ rfl
  · rw [heq]
    exact hapart.drop id

theorem Moves.acceptorsFirst {acceptors : List (Session H)} {a : Answers Env}
    {c next : Config H Env} (h : Moves a c next) (hsound : c.server.Sound)
    (hacceptors : ∀ session ∈ acceptors, ¬ session.IsConnection)
    (hfirst : AcceptorsFirst acceptors c.server.sessions) :
    AcceptorsFirst acceptors next.server.sessions := by
  obtain heq | ⟨haccepting, pluginId, plugin, hfind, heq⟩ | ⟨id, sock, protoHandler,
    protoHandler', createdBy, hstore, heq⟩ | ⟨id, sock, protoHandler, createdBy, hstore, heq⟩ :=
      h.server_cases
  · rw [heq]
    exact hfirst
  · rw [heq]
    exact hfirst.add hsound.wellFormed ⟨_, _, _, rfl⟩
  · rw [heq]
    exact hfirst.set hacceptors hstore ⟨_, _, _, rfl⟩ ⟨_, _, _, rfl⟩
  · rw [heq]
    exact hfirst.drop hacceptors hsound.wellFormed hstore ⟨_, _, _, rfl⟩

/-- What a step keeps. -/
theorem Moves.orderly {acceptors : List (Session H)} {a : Answers Env} {c next : Config H Env}
    (h : Moves a c next) (hbounded : Bounded c a)
    (hacceptors : ∀ session ∈ acceptors, ¬ session.IsConnection) (horderly : Orderly acceptors c) :
    Orderly acceptors next := by
  obtain ⟨hsound, hfirst, hsets, hapart, hphase⟩ := horderly
  obtain ⟨hallowed, haccept⟩ := hbounded
  exact ⟨h.sound hsound, h.acceptorsFirst hsound hacceptors hfirst, h.inSets haccept hsets,
    h.apart hallowed.accept hapart, h.phase_ok hallowed hsound hsets hapart hphase⟩

omit [ProtocolHandler H Env] in
theorem Initial.acceptorsFirst {acceptors : List (Session H)} {sessions : Registry (Session H)}
    (h : Initial acceptors sessions) : AcceptorsFirst acceptors sessions := by
  refine ⟨?_, [], by rw [h.keys, List.append_nil], by simp⟩
  intro id session hsession
  rw [h.store, hsession]

theorem Initial.orderly {acceptors : List (Session H)} {server : Server H Env}
    {trace : List (Event H Env)} (h : Initial acceptors server.sessions) (hsound : server.Sound)
    (hsets : ∀ session ∈ acceptors, session.handle.InSet)
    (hacceptors : ∀ session ∈ acceptors, ¬ session.IsConnection) :
    Orderly acceptors ⟨server, .top, trace⟩ := by
  refine ⟨hsound, h.acceptorsFirst, ?_, ?_, trivial⟩
  · intro id session hstore
    rw [h.store] at hstore
    exact hsets session (List.mem_of_getElem? hstore)
  · intro i j left right hleft _ hconnection _
    rw [h.store] at hleft
    exact absurd hconnection (hacceptors left (List.mem_of_getElem? hleft))

/-- Fresh descriptors are all that keeps the connections apart. -/
theorem reachable_apart {loader : PluginLoader H Env} {host : Host}
    {allowed : Config H Env → Answers Env → Prop}
    (hfresh : ∀ c a, allowed c a → Accepting c → c.server.Fresh a.accepted) {c : Config H Env}
    (h : (serverLoop loader host).Reachable allowed c) : Apart c.server.sessions := by
  apply h.invariant (P := fun c => Apart c.server.sessions)
  · rintro c hstart i j left right hleft - ⟨sock, protoHandler, createdBy, rfl⟩ -
    exact absurd hleft (start_not_connection hstart)
  · intro c a next _ hapart hallowed hstep
    exact (step_moves hstep).apart (hfresh c a hallowed) hapart

/-- The acceptors stay where they are, whatever the surroundings answer. -/
theorem reachable_acceptorsFirst {loader : PluginLoader H Env} {host : Host}
    {allowed : Config H Env → Answers Env → Prop} {c : Config H Env}
    (h : (serverLoop loader host).Reachable allowed c) :
    AcceptorsFirst (host.acceptors loader.plugins) c.server.sessions := by
  apply h.invariant (P := fun c => AcceptorsFirst (host.acceptors loader.plugins) c.server.sessions)
  · intro c hstart
    exact (start_initial hstart).1.acceptorsFirst
  · intro c a next hreached hfirst _ hstep
    exact (step_moves hstep).acceptorsFirst (reachable_sound hreached).1
      not_isConnection_of_mem_acceptors hfirst

theorem reachable_orderly {loader : PluginLoader H Env} {host : Host}
    (hhost : host.InSets loader.plugins) {allowed : Config H Env → Answers Env → Prop}
    (hle : ∀ c a, allowed c a → Bounded c a) {c : Config H Env}
    (h : (serverLoop loader host).Reachable allowed c) :
    Orderly (host.acceptors loader.plugins) c := by
  apply h.invariant
  · intro c hstart
    obtain ⟨hinitial, -, hphase, -, hsound⟩ := start_initial hstart
    obtain ⟨server, phase, trace⟩ := c
    subst hphase
    refine hinitial.orderly hsound ?_ not_isConnection_of_mem_acceptors
    intro session hsession
    obtain ⟨plugin, hplugin, hserves, rfl⟩ := mem_acceptors hsession
    exact hhost plugin hplugin hserves
  · intro c a next _ horderly hallowed hstep
    exact (step_moves hstep).orderly (hle c a hallowed) not_isConnection_of_mem_acceptors horderly

/-- Where all descriptors handed out so far are below `FD_SETSIZE`, so is every
descriptor that the run was given. -/
theorem reachable_bounded {loader : PluginLoader H Env} {host : Host}
    {allowed : Config H Env → Answers Env → Prop} (hle : ∀ c a, allowed c a → Allowed c a)
    {c : Config H Env} (h : (serverLoop loader host).Reachable allowed c)
    (hin : AllInSet (host.acceptors loader.plugins) c.trace) :
    (serverLoop loader host).Reachable (fun c a => allowed c a ∧ Bounded c a) c :=
  (reachable_acceptsInSet h hin).mono
    (fun c a hallowed => ⟨hallowed.1, hle c a hallowed.1, hallowed.2⟩)

end ModServer
