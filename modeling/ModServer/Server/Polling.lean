import ModServer.Http.Plugin
import ModServer.Server.Orderly

/-!
The descriptor sets at the top of the loop, when every descriptor the server
is given is non-negative and not held by a live session. `m_maxFd` is above all
handles, and each session is in exactly one of the two sets as long as the sets
have bits for all descriptors. A session on another descriptor is in neither.
-/

namespace ModServer

open Library ProtocolHandler

variable {H Env : Type}

/-- All handles differ, and `m_maxFd` is above each. -/
structure Server.InRange (server : Server H Env) : Prop where
  distinct : ∀ i j left right, server.sessions.store i = some left →
    server.sessions.store j = some right → left.handle = right.handle → i = j
  below : ∀ id session, server.sessions.store id = some session →
    0 ≤ session.handle.toInt ∧ session.handle.toInt < server.maxFd.toNat

/-- Registering never lowers `m_maxFd`, and raises it above the new handle. -/
theorem Server.addSession_maxFd (server : Server H Env) {session : Session H}
    (hnonneg : 0 ≤ session.handle.toInt) :
    session.handle.toInt < (server.addSession session).maxFd.toNat ∧
      server.maxFd.toNat ≤ (server.addSession session).maxFd.toNat := by
  have hhandle := Handle.toNat_toUInt32 hnonneg
  have hsucc := Handle.toNat_succ hnonneg
  have hmax : (server.addSession session).maxFd =
      if server.maxFd ≤ session.handle.toUInt32 then (session.handle + 1).toUInt32
      else server.maxFd := rfl
  rw [hmax]
  split
  · rename_i hle
    rw [UInt32.le_iff_toNat_le] at hle
    omega
  · rename_i hgt
    rw [UInt32.le_iff_toNat_le] at hgt
    omega

namespace Server.InRange

variable {server : Server H Env}

theorem addSession (h : server.InRange) {session : Session H}
    (hfresh : server.Fresh session.handle) (hnonneg : 0 ≤ session.handle.toInt) :
    (server.addSession session).InRange := by
  obtain ⟨hnew, hmono⟩ := server.addSession_maxFd hnonneg
  constructor
  · intro i j left right hi hj heq
    rw [Server.addSession_sessions, Registry.add_store] at hi hj
    obtain ⟨rfl, hleft⟩ | ⟨-, hleft⟩ := Registry.of_update hi
    · cases hleft
      obtain ⟨rfl, -⟩ | ⟨-, hright⟩ := Registry.of_update hj
      · rfl
      · exact absurd heq.symm (hfresh j right hright)
    · obtain ⟨rfl, hright⟩ | ⟨-, hright⟩ := Registry.of_update hj
      · cases hright
        exact absurd heq (hfresh i left hleft)
      · exact h.distinct i j left right hleft hright heq
  · intro id other hother
    rw [Server.addSession_sessions, Registry.add_store] at hother
    obtain ⟨rfl, heq⟩ | ⟨-, hold⟩ := Registry.of_update hother
    · cases heq
      exact ⟨hnonneg, hnew⟩
    · obtain ⟨hpos, hlt⟩ := h.below id other hold
      exact ⟨hpos, by omega⟩

theorem setHandler (h : server.InRange) {id createdBy : Nat} {sock : Handle} {protoHandler : H}
    (protoHandler' : H)
    (hstore : server.sessions.store id = some (.connection sock protoHandler createdBy)) :
    (server.setHandler id sock protoHandler' createdBy).InRange := by
  -- the updated session has the handle it had before
  have hold (other : Nat) (session : Session H)
      (hother : (server.setHandler id sock protoHandler' createdBy).sessions.store other =
        some session) :
      ∃ before, server.sessions.store other = some before ∧ before.handle = session.handle := by
    rw [Server.setHandler_sessions, Registry.set_store] at hother
    obtain ⟨rfl, heq⟩ | ⟨-, hsame⟩ := Registry.of_update hother
    · cases heq
      exact ⟨_, hstore, rfl⟩
    · exact ⟨session, hsame, rfl⟩
  constructor
  · intro i j left right hi hj heq
    obtain ⟨left', hleft, hleftHandle⟩ := hold i left hi
    obtain ⟨right', hright, hrightHandle⟩ := hold j right hj
    exact h.distinct i j left' right' hleft hright (by rw [hleftHandle, hrightHandle, heq])
  · intro other session hother
    obtain ⟨before, hbefore, hhandle⟩ := hold other session hother
    rw [← hhandle]
    exact h.below other before hbefore

theorem dropSession (h : server.InRange) (id : Nat) : (server.dropSession id).InRange := by
  have hold (other : Nat) (session : Session H)
      (hother : (server.dropSession id).sessions.store other = some session) :
      server.sessions.store other = some session := by
    rw [Server.dropSession_sessions, Registry.drop_store] at hother
    obtain ⟨-, heq⟩ | ⟨-, hsame⟩ := Registry.of_update hother
    · cases heq
    · exact hsame
  constructor
  · intro i j left right hi hj heq
    exact h.distinct i j left right (hold i left hi) (hold j right hj) heq
  · intro other session hother
    exact h.below other session (hold other session hother)

end Server.InRange

/-- `InitPlugins` gets non-negative descriptors that no live session holds for
the listeners that it keeps. -/
def Host.FreshSockets (host : Host) : Server H Env → List (ServerPlugin H Env) → Prop
  | _, [] => True
  | server, plugin :: plugins =>
      (host.Serves plugin →
        0 ≤ (host.socket plugin.id).toInt ∧ server.Fresh (host.socket plugin.id)) ∧
      ∀ next, server.initPlugin host plugin = .ok next → host.FreshSockets next plugins

theorem Server.InRange.initPlugins {host : Host} {plugins : List (ServerPlugin H Env)}
    {server last : Server H Env} (hrange : server.InRange)
    (hsockets : host.FreshSockets server plugins)
    (h : plugins.foldlM (Server.initPlugin host) server = .ok last) : last.InRange := by
  induction plugins generalizing server with
  | nil =>
      cases h
      exact hrange
  | cons plugin plugins ih =>
      rw [List.foldlM_cons] at h
      obtain ⟨next, hnext, hrest⟩ := bind_eq_ok.mp h
      obtain ⟨hplugin, hlater⟩ := hsockets
      refine ih ?_ (hlater next hnext) hrest
      rw [Server.initPlugin_eq hnext]
      split
      · rename_i hserves
        obtain ⟨hnonneg, hfresh⟩ := hplugin hserves
        exact hrange.addSession hfresh hnonneg
      · exact hrange

variable [ProtocolHandler H Env]

/-- Every session's handle is below `m_maxFd` and in exactly one of the sets
that the loop fills, which hold nothing else. -/
structure PolledOnce (server : Server H Env) : Prop where
  distinct : ∀ i ∈ server.sessions.keys, ∀ j ∈ server.sessions.keys, ∀ left right,
    server.sessions.store i = some left → server.sessions.store j = some right →
    left.handle = right.handle → i = j
  below : ∀ id ∈ server.sessions.keys, ∃ session, server.sessions.store id = some session ∧
    0 ≤ session.handle.toInt ∧ session.handle.toInt < server.maxFd.toNat
  sets : ∃ reads writes, server.fillReadyRead = .ok reads ∧ server.fillReadyWrite = .ok writes ∧
    (∀ id ∈ server.sessions.keys, ∃ session, server.sessions.store id = some session ∧
      ((session.pending = false ∧ session.handle ∈ FdSet.filled reads ∧
          session.handle ∉ FdSet.filled writes) ∨
        (session.pending = true ∧ session.handle ∉ FdSet.filled reads ∧
          session.handle ∈ FdSet.filled writes))) ∧
    ∀ handle, handle ∈ FdSet.filled reads ∨ handle ∈ FdSet.filled writes →
      ∃ id ∈ server.sessions.keys, ∃ session,
        server.sessions.store id = some session ∧ session.handle = handle

/-- `accept` succeeds with a descriptor that no live session holds. -/
def AllowedAccept (c : Config H Env) (a : Answers Env) : Prop :=
  Allowed c a ∧ (Accepting c → 0 ≤ a.accepted.toInt)

/-- A session that shares its handle with one is that one. -/
theorem Server.InRange.pending_iff {server : Server H Env} (hrange : server.InRange) {id : Nat}
    {session : Session H} (hstore : server.sessions.store id = some session) (pending : Bool) :
    (∃ other found, server.sessions.store other = some found ∧ found.pending = pending ∧
      found.handle = session.handle) ↔ session.pending = pending := by
  constructor
  · rintro ⟨other, found, hfound, hpending, hhandle⟩
    cases hrange.distinct other id found session hfound hstore hhandle
    cases hstore.symm.trans hfound
    exact hpending
  · intro hpending
    exact ⟨id, session, hstore, hpending, rfl⟩

theorem Server.InRange.polledOnce {server : Server H Env} (hrange : server.InRange)
    (hsound : server.Sound) (hsets : server.InSets) : PolledOnce server := by
  obtain ⟨reads, hread⟩ := exists_reads hsound
  obtain ⟨writes, hwrite⟩ := exists_writes hsound
  have hkind {id : Nat} {session : Session H} (hstore : server.sessions.store id = some session) :
      (session.handle ∈ FdSet.filled reads ↔ session.pending = false) ∧
        (session.handle ∈ FdSet.filled writes ↔ session.pending = true) := by
    have hin := hsets id session hstore
    rw [FdSet.mem_filled, FdSet.mem_filled, and_iff_left hin, and_iff_left hin,
      mem_reads hsound hread, mem_writes hsound hwrite]
    exact ⟨hrange.pending_iff hstore false, hrange.pending_iff hstore true⟩
  constructor
  · intro i _ j _ left right hi hj heq
    exact hrange.distinct i j left right hi hj heq
  · intro id hid
    obtain ⟨session, hstore⟩ := (hsound.wellFormed.live id).mp hid
    exact ⟨session, hstore, hrange.below id session hstore⟩
  · refine ⟨reads, writes, hread, hwrite, ?_, ?_⟩
    · intro id hid
      obtain ⟨session, hstore⟩ := (hsound.wellFormed.live id).mp hid
      obtain ⟨hreadIff, hwriteIff⟩ := hkind hstore
      refine ⟨session, hstore, ?_⟩
      rw [hreadIff, hwriteIff]
      cases session.pending with
      | false => exact Or.inl ⟨rfl, rfl, by simp⟩
      | true => exact Or.inr ⟨rfl, by simp, rfl⟩
    · rintro handle (hmem | hmem)
      · obtain ⟨hfilled, -⟩ := FdSet.mem_filled.mp hmem
        obtain ⟨id, session, hstore, -, hhandle⟩ := (mem_reads hsound hread handle).mp hfilled
        exact ⟨id, hsound.wellFormed.mem_of_store hstore, session, hstore, hhandle⟩
      · obtain ⟨hfilled, -⟩ := FdSet.mem_filled.mp hmem
        obtain ⟨id, session, hstore, -, hhandle⟩ := (mem_writes hsound hwrite handle).mp hfilled
        exact ⟨id, hsound.wellFormed.mem_of_store hstore, session, hstore, hhandle⟩

/-- A session that is in one of the sets has a descriptor that the set has a bit
for. -/
theorem PolledOnce.inSets {server : Server H Env} (h : PolledOnce server)
    (hwellFormed : server.sessions.WellFormed) : server.InSets := by
  intro id session hstore
  obtain ⟨reads, writes, -, -, hpolled, -⟩ := h.sets
  obtain ⟨found, hfound, hset⟩ := hpolled id (hwellFormed.mem_of_store hstore)
  cases hstore.symm.trans hfound
  obtain ⟨-, hmem, -⟩ | ⟨-, -, hmem⟩ := hset
  · exact (FdSet.mem_filled.mp hmem).2
  · exact (FdSet.mem_filled.mp hmem).2

theorem Moves.inRange {a : Answers Env} {c next : Config H Env} (h : Moves a c next)
    (hallowed : AllowedAccept c a) (hrange : c.server.InRange) : next.server.InRange := by
  obtain heq | ⟨haccepting, pluginId, plugin, hfind, heq⟩ | ⟨id, sock, protoHandler,
    protoHandler', createdBy, hstore, heq⟩ | ⟨id, sock, protoHandler, createdBy, hstore, heq⟩ :=
      h.server_cases
  · rw [heq]
    exact hrange
  · rw [heq]
    exact hrange.addSession (hallowed.1.accept haccepting) (hallowed.2 haccepting)
  · rw [heq]
    exact hrange.setHandler protoHandler' hstore
  · rw [heq]
    exact hrange.dropSession id

theorem reachable_inRange {loader : PluginLoader H Env} {host : Host}
    (hsockets : host.FreshSockets (Server.withPlugins loader) loader.plugins) {c : Config H Env}
    (h : (serverLoop loader host).Reachable AllowedAccept c) : c.server.InRange := by
  apply h.invariant (P := fun c => c.server.InRange)
  · rintro c ⟨server, hinit, -, rfl⟩
    refine Server.InRange.initPlugins ?_ hsockets hinit
    constructor
    · intro i j left right hi
      cases hi
    · intro id session hstore
      cases hstore
  · intro c a next _ hrange hallowed hstep
    exact (step_moves hstep).inRange hallowed hrange

/-- Each session is polled in one direction exactly while the sets have bits
for all live sessions' descriptors, as they have when every descriptor that was
handed out is below `FD_SETSIZE`. -/
theorem polledOnce_iff (loader : PluginLoader H Env) (host : Host)
    (hsockets : host.FreshSockets (Server.withPlugins loader) loader.plugins) (c : Config H Env)
    (h : (serverLoop loader host).Reachable AllowedAccept c) :
    (PolledOnce c.server ↔ ∀ id session, c.server.sessions.store id = some session →
      session.handle.toInt < fdSetSize) ∧
    ((∀ sock, HandedOut (host.acceptors loader.plugins) c.trace sock → sock.toInt < fdSetSize) →
      PolledOnce c.server) := by
  have hrange := reachable_inRange hsockets h
  obtain ⟨hsound, -⟩ := reachable_sound h
  have hiff : PolledOnce c.server ↔ ∀ id session, c.server.sessions.store id = some session →
      session.handle.toInt < fdSetSize := by
    constructor
    · intro hpolled id session hstore
      exact (hpolled.inSets hsound.wellFormed id session hstore).2
    · intro hbelow
      apply hrange.polledOnce hsound
      intro id session hstore
      exact ⟨(hrange.below id session hstore).1, hbelow id session hstore⟩
  refine ⟨hiff, ?_⟩
  intro hbelow
  apply hiff.mpr
  intro id session hstore
  exact hbelow _ (reachable_handedOut h id session hstore)

/-! The steps by which the HTTP server accepts its first client, and then finds
it readable, are allowed. -/

theorem allowed_of {c : Config H Env} {a : Answers Env} (hsent : a.sent = -1)
    (hselect : ∀ reads writes, c.phase = .top → c.server.fillReadyRead = .ok reads →
      c.server.fillReadyWrite = .ok writes → (∀ sock ∈ reads ++ writes, sock.InSet) →
      a.readSet ⊆ .filled reads ∧ a.writeSet ⊆ .filled writes)
    (haccept : Accepting c → c.server.Fresh a.accepted)
    (hrecv : ∀ bytes, a.received = .ok bytes → bytes.length ≤ DataChunk.bufSize) :
    Allowed c a := by
  refine ⟨hselect, haccept, hrecv, ?_⟩
  intro id todo sock handler createdBy _ _
  rw [hsent]
  omega

/-- `select` finds nothing, and no acceptor is visited. -/
theorem allowed_quiet {c : Config H Env} {a : Answers Env} (hsent : a.sent = -1)
    (hread : a.readSet = .zero) (hwrite : a.writeSet = .zero) (hidle : ¬ Accepting c)
    (hrecv : ∀ bytes, a.received = .ok bytes → bytes.length ≤ DataChunk.bufSize) :
    Allowed c a := by
  refine allowed_of hsent ?_ (fun haccepting => absurd haccepting hidle) hrecv
  intro reads writes _ _ _ _
  rw [hread, hwrite]
  exact ⟨FdSet.zero_subset _, FdSet.zero_subset _⟩

theorem allowed_failing {c : Config Http.HttpHandler Http.Surroundings} (h : ¬ Accepting c) :
    Allowed c Http.failing := by
  apply allowed_quiet rfl rfl rfl h
  intro bytes hbytes
  cases hbytes

omit [ProtocolHandler H Env] in
theorem not_accepting_of_phase {c : Config H Env}
    (h : ∀ writeSet id todo, c.phase ≠ .reading writeSet (id :: todo)) : ¬ Accepting c := by
  rintro ⟨writeSet, id, todo, sock, pluginId, hphase, -⟩
  exact h writeSet id todo hphase

theorem allowed_arriving {sock : Handle} : Allowed Http.listening (Http.arriving sock) := by
  apply allowed_of rfl
  · intro reads writes _ hread _ _
    have hlistener : Http.listening.server.fillReadyRead = .ok [3] := rfl
    cases hlistener.symm.trans hread
    exact ⟨FdSet.subset_rfl, FdSet.zero_subset _⟩
  · rintro ⟨_, _, _, _, _, hphase, -⟩
    cases hphase
  · intro bytes hbytes
    cases hbytes

theorem allowed_accepting {sock : Handle} (hne : 3 ≠ sock) :
    Allowed Http.polledListener (Http.arriving sock) := by
  apply allowed_of rfl
  · intro _ _ hphase
    cases hphase
  · intro _ id session hstore
    obtain ⟨-, heq⟩ | ⟨-, hnone⟩ := Registry.of_update hstore
    · cases heq
      exact hne
    · cases hnone
  · intro bytes hbytes
    cases hbytes

theorem reachable_accepted {sock : Handle} (hne : 3 ≠ sock) (hnonneg : 0 ≤ sock.toInt) :
    (serverLoop Http.httpLoader Http.loopback).Reachable AllowedAccept (Http.connected sock) :=
  Http.reachable_connected ⟨allowed_arriving, fun _ => hnonneg⟩
    ⟨allowed_accepting hne, fun _ => hnonneg⟩

/-- The request of the client on descriptor 5 is about to be received. -/
def Http.requested : Config Http.HttpHandler Http.Surroundings where
  server := (Http.connected 5).server
  phase := .reading .zero [1]
  trace := (Http.connected 5).trace ++ [.fdIsSet 3, .fdIsSet 5, .fdSet 3, .fdSet 5, .select 6,
    .fdIsSet 3, .fdIsSet 5]

def Http.requesting : Answers Http.Surroundings :=
  { Http.failing with
    selectRc := 1
    readSet := .filled [5]
    received := .ok (ascii "GET / HTTP/1.1") }

/-- Answers that keep all promises, in the surroundings of `failing`. -/
def Tame (c : Config Http.HttpHandler Http.Surroundings) (a : Answers Http.Surroundings) : Prop :=
  Bounded c a ∧ a.env = Http.failing.env

theorem tame_of_not_accepting {c : Config Http.HttpHandler Http.Surroundings}
    {a : Answers Http.Surroundings} (hallowed : Allowed c a) (henv : a.env = Http.failing.env)
    (hidle : ¬ Accepting c) : Tame c a :=
  ⟨⟨hallowed, fun haccepting => absurd haccepting hidle⟩, henv⟩

theorem tame_failing {c : Config Http.HttpHandler Http.Surroundings}
    (h : ∀ writeSet id todo, c.phase ≠ .reading writeSet (id :: todo)) : Tame c Http.failing :=
  tame_of_not_accepting (allowed_failing (not_accepting_of_phase h)) rfl (not_accepting_of_phase h)

theorem reachable_tame : (serverLoop Http.httpLoader Http.loopback).Reachable Tame
    (Http.connected 5) := by
  apply Http.reachable_connected
  · exact tame_of_not_accepting allowed_arriving rfl
      (not_accepting_of_phase (by simp [Http.listening]))
  · exact ⟨⟨allowed_accepting (by decide), fun _ => by decide⟩, rfl⟩

theorem reachable_requested :
    (serverLoop Http.httpLoader Http.loopback).Reachable Tame Http.requested := by
  have hsending := reachable_tame.step Http.failing (tame_failing (by simp [Http.connected])) rfl
  have htop := hsending.step Http.failing (tame_failing (by simp)) rfl
  have hidle := not_accepting_of_phase (c := ⟨(Http.connected 5).server, .top,
    (Http.connected 5).trace ++ [.fdIsSet 3, .fdIsSet 5]⟩) (by simp)
  refine htop.step Http.requesting (tame_of_not_accepting (allowed_of rfl ?_ ?_ ?_) rfl hidle) rfl
  · intro reads writes _ hread _ _
    have hboth : (Http.connected 5).server.fillReadyRead = .ok [3, 5] := rfl
    cases hboth.symm.trans hread
    refine ⟨?_, FdSet.zero_subset _⟩
    intro sock hmem
    have hfive := FdSet.mem_filled.mp hmem
    exact FdSet.mem_filled.mpr ⟨List.mem_cons_of_mem _ hfive.1, hfive.2⟩
  · exact fun haccepting => absurd haccepting hidle
  · intro bytes hbytes
    cases hbytes
    decide

theorem inSets_loopback : Http.loopback.InSets Http.httpLoader.plugins := by
  intro plugin _ _
  change (3 : Handle).InSet
  decide

theorem freshSockets_loopback :
    Http.loopback.FreshSockets (Server.withPlugins Http.httpLoader) Http.httpLoader.plugins := by
  refine ⟨?_, fun _ _ => trivial⟩
  intro _
  refine ⟨by decide, ?_⟩
  intro id session hstore
  cases hstore

/-- The descriptors of the listener and of the first client. -/
theorem handedOut_connected {sock other : Handle}
    (h : HandedOut (Http.loopback.acceptors Http.httpLoader.plugins)
      (Http.connected sock).trace other) : other = 3 ∨ other = sock := by
  rcases h with ⟨session, hsession, rfl⟩ | ⟨id, hmem⟩
  · obtain ⟨plugin, -, -, rfl⟩ := mem_acceptors hsession
    exact Or.inl rfl
  · simp [Http.connected, Http.polledListener] at hmem
    exact Or.inr hmem.1

/-- The first client of the HTTP server is accepted on descriptor 1024, and is
in neither set. -/
theorem not_polledOnce_connected :
    Http.loopback.FreshSockets (Server.withPlugins Http.httpLoader) Http.httpLoader.plugins ∧
      (serverLoop Http.httpLoader Http.loopback).Reachable AllowedAccept (Http.connected 1024) ∧
      ¬ PolledOnce (Http.connected 1024).server := by
  have hconnected := @reachable_accepted 1024 (by decide) (by decide)
  refine ⟨freshSockets_loopback, hconnected, ?_⟩
  intro hpolled
  have hin := hpolled.inSets (reachable_sound hconnected).1.wellFormed 1 _ rfl
  exact absurd hin (by decide)

/-- The first client is accepted on descriptor 5. -/
theorem polledOnce_connected :
    Http.loopback.FreshSockets (Server.withPlugins Http.httpLoader) Http.httpLoader.plugins ∧
      (serverLoop Http.httpLoader Http.loopback).Reachable AllowedAccept (Http.connected 5) ∧
      PolledOnce (Http.connected 5).server := by
  have hconnected := @reachable_accepted 5 (by decide) (by decide)
  refine ⟨freshSockets_loopback, hconnected, (polledOnce_iff Http.httpLoader Http.loopback
    freshSockets_loopback (Http.connected 5) hconnected).2 ?_⟩
  intro sock hsock
  rcases handedOut_connected hsock with rfl | rfl
  · decide
  · decide

end ModServer
