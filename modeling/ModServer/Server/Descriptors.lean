import ModServer.Library.Ledger
import ModServer.Server.Polling

/-!
Which descriptors the server holds, as a ledger of what it opens and closes:
`socket` and the destructor of a listener in `InitPlugins`, `accept` and
`delete session` in the loop.

What is assumed of the kernel is stated over the ledger alone: a call that
opens a descriptor fails or returns one that is not open. That the descriptors
of the live sessions are those that are open is proved, and with it that an
accepted descriptor is not held by any of them.
-/

namespace ModServer

open Library ProtocolHandler

variable {H Env : Type}

/-- What the event opens or closes. Closing `kInvalidSocket` closes nothing. -/
def Event.entries : Event H Env → List (Entry Handle)
  | .accepted sock _ => if sock = invalidSocket then [] else [.acquire sock]
  | .closed sock => if sock = invalidSocket then [] else [.release sock]
  | _ => []

/-- `InitPlugins` opens a socket for the plugin. -/
def Host.Opens (host : Host) (plugin : ServerPlugin H Env) : Prop :=
  IPEndPoint.isValid host.inetAddr ⟨host.serverIp, plugin.port⟩ = true ∧ plugin.sockType = .tcp ∧
    host.socket plugin.id ≠ invalidSocket

instance (host : Host) (plugin : ServerPlugin H Env) : Decidable (host.Opens plugin) :=
  inferInstanceAs (Decidable (_ ∧ _))

/-- What `InitPlugins` opens and closes for a plugin. A listener that is not
kept closes its socket. -/
def Host.opening (host : Host) (plugin : ServerPlugin H Env) : List (Entry Handle) :=
  if host.Opens plugin then
    if host.bind plugin.id ⟨host.serverIp, plugin.port⟩ ≠ 0 then
      [.acquire (host.socket plugin.id), .release (host.socket plugin.id)]
    else if host.listen plugin.id maxListen ≠ 0 then
      [.acquire (host.socket plugin.id), .release (host.socket plugin.id)]
    else [.acquire (host.socket plugin.id)]
  else []

/-- The descriptors that are open after the trace, where none was opened twice
and each was open when it was closed. -/
def ledger (loader : PluginLoader H Env) (host : Host) (trace : List (Event H Env)) :
    Option (List Handle) :=
  settle [] (loader.plugins.flatMap host.opening ++ trace.flatMap Event.entries)

/-- Each `socket` call returns a descriptor that is not open, or fails. -/
def Host.KernelSockets (host : Host) (plugins : List (ServerPlugin H Env)) : Prop :=
  ∀ front plugin rest held, plugins = front ++ plugin :: rest →
    settle [] (front.flatMap host.opening) = some held → host.Opens plugin →
    0 ≤ (host.socket plugin.id).toInt ∧ host.socket plugin.id ∉ held

/-- `accept` returns a descriptor that is not open, or fails. -/
def KernelAccept (loader : PluginLoader H Env) (host : Host) (c : Config H Env)
    (a : Answers Env) : Prop :=
  ∀ held, ledger loader host c.trace = some held → Accepting c →
    a.accepted = invalidSocket ∨ (0 ≤ a.accepted.toInt ∧ a.accepted ∉ held)

/-- The open descriptors are the handles of the live sessions, of one session
each. -/
structure Server.Holds (server : Server H Env) (held : List Handle) : Prop where
  mem : ∀ sock, sock ∈ held ↔ sock ≠ invalidSocket ∧
    ∃ id session, server.sessions.store id = some session ∧ session.handle = sock
  single : ∀ i j left right, server.sessions.store i = some left →
    server.sessions.store j = some right → left.handle = right.handle →
    left.handle ≠ invalidSocket → i = j

namespace Server.Holds

variable {server : Server H Env} {held : List Handle}

/-- A descriptor that is not open is not the handle of a live session. -/
theorem fresh (h : server.Holds held) {sock : Handle} (hvalid : sock ≠ invalidSocket)
    (hfree : sock ∉ held) : server.Fresh sock := by
  intro id session hstore hhandle
  exact hfree ((h.mem sock).mpr ⟨hvalid, id, session, hstore, hhandle⟩)

/-- A session without a descriptor. -/
theorem addInvalid (h : server.Holds held) (hwellFormed : server.sessions.WellFormed)
    {session : Session H} (hinvalid : session.handle = invalidSocket) :
    (server.addSession session).Holds held := by
  constructor
  · intro sock
    rw [h.mem sock]
    constructor
    · rintro ⟨hvalid, id, other, hstore, hhandle⟩
      have hold := hwellFormed.ne_next hstore
      refine ⟨hvalid, id, other, ?_, hhandle⟩
      rw [Server.addSession_sessions, Registry.add_store, Function.update_of_ne hold, hstore]
    · rintro ⟨hvalid, id, other, hstore, hhandle⟩
      refine ⟨hvalid, ?_⟩
      obtain ⟨-, heq⟩ | ⟨-, hold⟩ := Registry.of_update hstore
      · cases heq
        exact absurd (hhandle.symm.trans hinvalid) hvalid
      · exact ⟨id, other, hold, hhandle⟩
  · intro i j left right hi hj heq hvalid
    obtain ⟨-, hleft⟩ | ⟨-, hleft⟩ := Registry.of_update hi
    · cases hleft
      exact absurd hinvalid hvalid
    · obtain ⟨-, hright⟩ | ⟨-, hright⟩ := Registry.of_update hj
      · cases hright
        exact absurd (heq.trans hinvalid) hvalid
      · exact h.single i j left right hleft hright heq hvalid

theorem addSession (h : server.Holds held) (hwellFormed : server.sessions.WellFormed)
    {session : Session H} (hvalid : session.handle ≠ invalidSocket)
    (hfree : session.handle ∉ held) :
    (server.addSession session).Holds (held ++ [session.handle]) := by
  have hfresh := h.fresh hvalid hfree
  constructor
  · intro sock
    rw [List.mem_append, List.mem_singleton, h.mem sock]
    constructor
    · rintro (⟨hsock, id, other, hstore, hhandle⟩ | rfl)
      · have hold := hwellFormed.ne_next hstore
        refine ⟨hsock, id, other, ?_, hhandle⟩
        rw [Server.addSession_sessions, Registry.add_store, Function.update_of_ne hold, hstore]
      · exact ⟨hvalid, server.sessions.next, session, Function.update_self _ _ _, rfl⟩
    · rintro ⟨hsock, id, other, hstore, hhandle⟩
      obtain ⟨-, heq⟩ | ⟨-, hold⟩ := Registry.of_update hstore
      · cases heq
        exact Or.inr hhandle.symm
      · exact Or.inl ⟨hsock, id, other, hold, hhandle⟩
  · intro i j left right hi hj heq hleftValid
    obtain ⟨rfl, hleft⟩ | ⟨-, hleft⟩ := Registry.of_update hi
    · cases hleft
      obtain ⟨rfl, -⟩ | ⟨-, hright⟩ := Registry.of_update hj
      · rfl
      · exact absurd heq.symm (hfresh j right hright)
    · obtain ⟨rfl, hright⟩ | ⟨-, hright⟩ := Registry.of_update hj
      · cases hright
        exact absurd heq (hfresh i left hleft)
      · exact h.single i j left right hleft hright heq hleftValid

/-- Which sessions there are, with which handles, is all that counts. -/
theorem of_handles {next : Server H Env} (h : server.Holds held)
    (hkeep : ∀ id sock, (∃ session, next.sessions.store id = some session ∧
      session.handle = sock) ↔ ∃ session, server.sessions.store id = some session ∧
      session.handle = sock) : next.Holds held := by
  constructor
  · intro sock
    rw [h.mem sock]
    simp only [hkeep]
  · intro i j left right hi hj heq hvalid
    obtain ⟨left', hi', hleft⟩ := (hkeep i left.handle).mp ⟨left, hi, rfl⟩
    obtain ⟨right', hj', hright⟩ := (hkeep j right.handle).mp ⟨right, hj, rfl⟩
    rw [← hleft] at hvalid heq
    rw [← hright] at heq
    exact h.single i j left' right' hi' hj' heq hvalid

theorem setHandler (h : server.Holds held) {id createdBy : Nat} {sock : Handle}
    {protoHandler : H} (protoHandler' : H)
    (hstore : server.sessions.store id = some (.connection sock protoHandler createdBy)) :
    (server.setHandler id sock protoHandler' createdBy).Holds held := by
  apply h.of_handles
  intro other handle
  rw [Server.setHandler_sessions, Registry.set_store]
  rcases eq_or_ne other id with rfl | hne
  · rw [Function.update_self, hstore]
    simp [Session.handle]
  · rw [Function.update_of_ne hne]

/-- Freeing a session closes its descriptor, if it has one. -/
theorem dropSession (h : server.Holds held) (hnodup : held.Nodup) {id : Nat}
    {session : Session H} (hstore : server.sessions.store id = some session) :
    (server.dropSession id).Holds (held.erase session.handle) := by
  constructor
  · intro sock
    rw [hnodup.mem_erase_iff, h.mem sock]
    constructor
    · rintro ⟨hne, hsock, other, found, hfound, hhandle⟩
      have hother : other ≠ id := by
        rintro rfl
        cases hstore.symm.trans hfound
        exact hne hhandle.symm
      refine ⟨hsock, other, found, ?_, hhandle⟩
      rw [Server.dropSession_sessions, Registry.drop_store, Function.update_of_ne hother, hfound]
    · rintro ⟨hsock, other, found, hfound, hhandle⟩
      obtain ⟨-, heq⟩ | ⟨hother, hold⟩ := Registry.of_update hfound
      · cases heq
      · refine ⟨?_, hsock, other, found, hold, hhandle⟩
        rintro rfl
        exact hother (h.single other id found session hold hstore hhandle (hhandle ▸ hsock))
  · intro i j left right hi hj heq hleft
    obtain ⟨-, hnone⟩ | ⟨-, hi'⟩ := Registry.of_update hi
    · cases hnone
    · obtain ⟨-, hnone⟩ | ⟨-, hj'⟩ := Registry.of_update hj
      · cases hnone
      · exact h.single i j left right hi' hj' heq hleft

/-- `accept`, whether it failed or not. -/
theorem accepted (h : server.Holds held) (hwellFormed : server.sessions.WellFormed)
    (session : Session H) (hkernel : session.handle = invalidSocket ∨ session.handle ∉ held)
    (id : Nat) :
    ∃ now, settle held (Event.accepted session.handle id : Event H Env).entries = some now ∧
      (server.addSession session).Holds now := by
  by_cases hinvalid : session.handle = invalidSocket
  · refine ⟨held, ?_, h.addInvalid hwellFormed hinvalid⟩
    rw [Event.entries, if_pos hinvalid, settle_nil]
  · have hfree := hkernel.resolve_left hinvalid
    refine ⟨_, ?_, h.addSession hwellFormed hinvalid hfree⟩
    rw [Event.entries, if_neg hinvalid, settle_acquire hfree]

theorem closed (h : server.Holds held) (hnodup : held.Nodup) {id : Nat} {session : Session H}
    (hstore : server.sessions.store id = some session) :
    ∃ now, settle held (Event.closed session.handle : Event H Env).entries = some now ∧
      (server.dropSession id).Holds now := by
  refine ⟨_, ?_, h.dropSession hnodup hstore⟩
  by_cases hinvalid : session.handle = invalidSocket
  · have hnot : session.handle ∉ held := fun hmem => ((h.mem _).mp hmem).1 hinvalid
    rw [Event.entries, if_pos hinvalid, settle_nil, List.erase_of_not_mem hnot]
  · have hmem := (h.mem session.handle).mpr ⟨hinvalid, id, session, hstore, rfl⟩
    rw [Event.entries, if_neg hinvalid, settle_release hmem]

end Server.Holds

/-! Starting the server. -/

theorem Host.opening_serves {host : Host} {plugin : ServerPlugin H Env}
    (h : host.Serves plugin) : host.opening plugin = [.acquire (host.socket plugin.id)] := by
  obtain ⟨hvalid, htcp, hsocket, hbind, hlisten⟩ := h
  rw [Host.opening, if_pos ⟨hvalid, htcp, hsocket⟩, if_neg (not_not.mpr hbind),
    if_neg (not_not.mpr hlisten)]

/-- Of a plugin that is not served nothing stays open. -/
theorem Host.settle_opening_of_not_serves {host : Host} {plugin : ServerPlugin H Env}
    {held : List Handle} (h : ¬ host.Serves plugin)
    (hfree : host.Opens plugin → host.socket plugin.id ∉ held) :
    settle held (host.opening plugin) = some held := by
  rw [Host.opening]
  split
  · rename_i hopens
    split
    · exact settle_acquire_release (hfree hopens)
    · rename_i hbind
      split
      · exact settle_acquire_release (hfree hopens)
      · rename_i hlisten
        exact absurd ⟨hopens.1, hopens.2.1, hopens.2.2, not_not.mp hbind, not_not.mp hlisten⟩ h
  · rfl

/-- What one plugin's part of `InitPlugins` opens is held by its acceptor. -/
theorem Server.Holds.initPlugin {host : Host} {server next : Server H Env} {held : List Handle}
    {plugin : ServerPlugin H Env} (h : server.Holds held)
    (hwellFormed : server.sessions.WellFormed)
    (hfree : host.Opens plugin → host.socket plugin.id ∉ held)
    (hnext : server.initPlugin host plugin = .ok next) :
    ∃ now, settle held (host.opening plugin) = some now ∧ next.Holds now ∧
      next.sessions.WellFormed := by
  rw [Server.initPlugin_eq hnext]
  split
  · rename_i hserves
    have hsocket := hserves.2.2.1
    have hfree := hfree ⟨hserves.1, hserves.2.1, hsocket⟩
    refine ⟨held ++ [host.socket plugin.id], ?_, ?_, hwellFormed.add _⟩
    · rw [Host.opening_serves hserves]
      exact settle_acquire hfree
    · exact h.addSession hwellFormed hsocket hfree
  · rename_i hserves
    exact ⟨held, Host.settle_opening_of_not_serves hserves hfree, h, hwellFormed⟩

theorem Server.Holds.initPlugins {host : Host} {front rest : List (ServerPlugin H Env)}
    {server last : Server H Env} {held : List Handle}
    (hkernel : host.KernelSockets (front ++ rest))
    (hfront : settle [] (front.flatMap host.opening) = some held) (h : server.Holds held)
    (hwellFormed : server.sessions.WellFormed)
    (hlast : rest.foldlM (Server.initPlugin host) server = .ok last) :
    host.FreshSockets server rest ∧
      ∃ now, settle [] ((front ++ rest).flatMap host.opening) = some now ∧ last.Holds now := by
  induction rest generalizing front server held with
  | nil =>
      cases hlast
      rw [List.append_nil]
      exact ⟨trivial, held, hfront, h⟩
  | cons plugin rest ih =>
      rw [List.foldlM_cons] at hlast
      obtain ⟨next, hnext, hrest⟩ := bind_eq_ok.mp hlast
      have hsocket := hkernel front plugin rest held rfl hfront
      obtain ⟨now, hnow, hholds, hnextFormed⟩ :=
        h.initPlugin hwellFormed (fun hopens => (hsocket hopens).2) hnext
      have hlonger : settle [] ((front ++ [plugin]).flatMap host.opening) = some now := by
        rw [List.flatMap_append, List.flatMap_singleton]
        exact settle_append_iff.mpr ⟨held, hfront, hnow⟩
      have hassoc : front ++ plugin :: rest = (front ++ [plugin]) ++ rest := by simp
      rw [hassoc] at hkernel ⊢
      obtain ⟨hfresh, hall⟩ := ih hkernel hlonger hholds hnextFormed hrest
      refine ⟨⟨?_, ?_⟩, hall⟩
      · rintro ⟨hvalid, htcp, hopen, -, -⟩
        obtain ⟨hnonneg, hnot⟩ := hsocket ⟨hvalid, htcp, hopen⟩
        exact ⟨hnonneg, h.fresh hopen hnot⟩
      · intro other hother
        cases hnext.symm.trans hother
        exact hfresh

/-! Runs of the loop. -/

section Events

variable [ProtocolHandler H Env]

omit [ProtocolHandler H Env] in
@[simp] theorem entries_polled (server : Server H Env) (reads writes : List Handle) :
    (polled server reads writes).flatMap Event.entries = [] := by
  simp [polled, Event.entries, List.flatMap_append, List.flatMap_map]

omit [ProtocolHandler H Env] in
@[simp] theorem entries_tested (handles : List (Nat × Handle)) :
    (tested handles : List (Event H Env)).flatMap Event.entries = [] := by
  simp [tested, Event.entries, List.flatMap_map]

omit [ProtocolHandler H Env] in
theorem ledger_append {loader : PluginLoader H Env} {host : Host}
    {trace events : List (Event H Env)} {held now : List Handle}
    (h : ledger loader host trace = some held)
    (hnow : settle held (events.flatMap Event.entries) = some now) :
    ledger loader host (trace ++ events) = some now := by
  unfold ledger
  rw [List.flatMap_append, ← List.append_assoc]
  exact settle_append_iff.mpr ⟨held, h, hnow⟩

/-- What a step opens or closes, next to what it does to the sessions. -/
theorem Moves.holds {a : Answers Env} {c next : Config H Env} (h : Moves a c next)
    (hsound : c.server.Sound) {held : List Handle} (hnodup : held.Nodup)
    (hkernel : Accepting c → a.accepted = invalidSocket ∨ a.accepted ∉ held)
    (hholds : c.server.Holds held) :
    ∃ events now, next.trace = c.trace ++ events ∧
      settle held (events.flatMap Event.entries) = some now ∧ next.server.Holds now := by
  cases h with
  | stop => exact ⟨_, held, rfl, by simp, hholds⟩
  | poll => exact ⟨_, held, List.append_assoc _ _ _, by simp, hholds⟩
  | readEnd => exact ⟨_, held, rfl, by simp, hholds⟩
  | sendEnd => exact ⟨[], held, (List.append_nil _).symm, rfl, hholds⟩
  | stay => exact ⟨[], held, (List.append_nil _).symm, rfl, hholds⟩
  | @accept server trace writeSet id todo sock pluginId plugin hstore =>
      have haccepted := hkernel ⟨_, _, _, _, _, rfl, hstore⟩
      obtain ⟨now, hnow, hnext⟩ := hholds.accepted hsound.wellFormed
        (.connection a.accepted (plugin.newProtocolHandler a.env) plugin.id) haccepted _
      exact ⟨_, now, rfl, by rw [List.flatMap_singleton]; exact hnow, hnext⟩
  | receive hstore =>
      exact ⟨_, held, rfl, by simp [Event.entries], hholds.setHandler _ hstore⟩
  | send hstore =>
      exact ⟨_, held, rfl, by simp [Event.entries], hholds.setHandler _ hstore⟩
  | readFailed _ hstore =>
      obtain ⟨now, hnow, hnext⟩ := hholds.closed hnodup hstore
      exact ⟨_, now, rfl, by rw [List.flatMap_singleton]; exact hnow, hnext⟩
  | sendFailed _ hstore _ _ hevents =>
      subst hevents
      obtain ⟨now, hnow, hnext⟩ := hholds.closed hnodup hstore
      refine ⟨_, now, List.append_assoc _ _ _, ?_, hnext⟩
      rw [List.flatMap_append, List.flatMap_singleton, List.flatMap_singleton]
      exact hnow

omit [ProtocolHandler H Env] in
/-- A descriptor that the trace opens was accepted there. -/
theorem accepted_of_acquire {events : List (Event H Env)} {sock : Handle}
    (h : .acquire sock ∈ events.flatMap Event.entries) : ∃ id, .accepted sock id ∈ events := by
  obtain ⟨event, hmem, hentry⟩ := List.mem_flatMap.mp h
  cases event with
  | accepted other id =>
      rw [Event.entries] at hentry
      split at hentry
      · cases hentry
      · cases List.mem_singleton.mp hentry
        exact ⟨id, hmem⟩
  | closed other =>
      rw [Event.entries] at hentry
      split at hentry
      · cases hentry
      · cases List.mem_singleton.mp hentry
  | fdSet | fdIsSet | select | recv | stored | didReceive | send => cases hentry

end Events

section Runs

variable [ProtocolHandler H Env] {loader : PluginLoader H Env} {host : Host}

theorem start_holds (hsockets : host.KernelSockets loader.plugins) {c : Config H Env}
    (h : (serverLoop loader host).start c) :
    host.FreshSockets (Server.withPlugins loader) loader.plugins ∧
      ∃ held, ledger loader host c.trace = some held ∧ c.server.Holds held := by
  obtain ⟨server, hinit, -, rfl⟩ := h
  have hempty : (Server.withPlugins loader).Holds [] := by
    constructor
    · intro sock
      constructor
      · intro hmem
        cases hmem
      · rintro ⟨-, id, session, hstore, -⟩
        cases hstore
    · intro i j left right hi
      cases hi
  obtain ⟨hfresh, held, hheld, hholds⟩ := @Server.Holds.initPlugins H Env host []
    loader.plugins _ _ _ hsockets rfl hempty Registry.empty_wellFormed hinit
  refine ⟨hfresh, held, ?_, hholds⟩
  rw [ledger, List.flatMap_nil, List.append_nil]
  exact hheld

theorem reachable_holds (hsockets : host.KernelSockets loader.plugins)
    {allowed : Config H Env → Answers Env → Prop}
    (hle : ∀ c a, allowed c a → KernelAccept loader host c a) {c : Config H Env}
    (h : (serverLoop loader host).Reachable allowed c) :
    ∃ held, ledger loader host c.trace = some held ∧ c.server.Holds held := by
  apply h.invariant (P := fun c =>
    ∃ held, ledger loader host c.trace = some held ∧ c.server.Holds held)
  · intro c hstart
    exact (start_holds hsockets hstart).2
  · rintro c a next hreached ⟨held, hledger, hholds⟩ hallowed hstep
    have hkernel (haccepting : Accepting c) : a.accepted = invalidSocket ∨ a.accepted ∉ held := by
      rcases hle c a hallowed held hledger haccepting with hfailed | ⟨-, hfree⟩
      · exact Or.inl hfailed
      · exact Or.inr hfree
    obtain ⟨events, now, htrace, hnow, hnext⟩ := (step_moves hstep).holds
      (reachable_sound hreached).1 (settle_nodup hledger List.nodup_nil) hkernel hholds
    refine ⟨now, ?_, hnext⟩
    rw [htrace]
    exact ledger_append hledger hnow

/-- The descriptors the server opened and has not closed are, without any other,
those of its live sessions, each of one session. It closes nothing it did not
open, and nothing twice unless `accept` returned it again in between. -/
theorem descriptors_accounted (loader : PluginLoader H Env) (host : Host)
    (hsockets : host.KernelSockets loader.plugins) (c : Config H Env)
    (h : (serverLoop loader host).Reachable (KernelAccept loader host) c) :
    (∃ held, ledger loader host c.trace = some held ∧ held.Nodup ∧ c.server.Holds held) ∧
    ∀ before sock between after, sock ≠ invalidSocket →
      c.trace = before ++ .closed sock :: (between ++ .closed sock :: after) →
      ∃ id, .accepted sock id ∈ between := by
  obtain ⟨held, hledger, hholds⟩ := reachable_holds hsockets (fun _ _ hkernel => hkernel) h
  refine ⟨⟨held, hledger, settle_nodup hledger List.nodup_nil, hholds⟩, ?_⟩
  intro before sock between after hvalid htrace
  have hclosed : (Event.closed sock : Event H Env).entries = [.release sock] := if_neg hvalid
  rw [ledger, htrace, List.flatMap_append, List.flatMap_cons, List.flatMap_append,
    List.flatMap_cons, hclosed, ← List.append_assoc] at hledger
  exact accepted_of_acquire (acquire_between_releases List.nodup_nil hledger)

/-- What the kernel promises when every `accept` succeeds: `select` returns
subsets of the sets it is given, unless an `FD_SET` has written behind them,
`recv` and `send` stay within their buffers, and `accept` returns a descriptor
that is not open. -/
structure KernelAnswers (loader : PluginLoader H Env) (host : Host) (c : Config H Env)
    (a : Answers Env) : Prop where
  select : ∀ reads writes, c.phase = .top → c.server.fillReadyRead = .ok reads →
    c.server.fillReadyWrite = .ok writes → (∀ sock ∈ reads ++ writes, sock.InSet) →
    a.readSet ⊆ .filled reads ∧ a.writeSet ⊆ .filled writes
  accept : KernelAccept loader host c a
  succeeds : Accepting c → a.accepted ≠ invalidSocket
  recv : ∀ bytes, a.received = .ok bytes → bytes.length ≤ DataChunk.bufSize
  send : ∀ id todo sock protoHandler createdBy, c.phase = .sending (id :: todo) →
    c.server.sessions.store id = some (.connection sock protoHandler createdBy) →
    a.sent ≤ (dataToSend protoHandler).length

theorem KernelAnswers.allowedAccept {c : Config H Env} {a : Answers Env} {held : List Handle}
    (h : KernelAnswers loader host c a) (hledger : ledger loader host c.trace = some held)
    (hholds : c.server.Holds held) : AllowedAccept c a := by
  have hkernel (haccepting : Accepting c) : 0 ≤ a.accepted.toInt ∧ a.accepted ∉ held :=
    (h.accept held hledger haccepting).resolve_left (h.succeeds haccepting)
  constructor
  · refine ⟨h.select, ?_, h.recv, h.send⟩
    intro haccepting
    exact hholds.fresh (h.succeeds haccepting) (hkernel haccepting).2
  · intro haccepting
    exact (hkernel haccepting).1

/-- That no live session holds the descriptors that the server is given need
not be assumed: it follows from what the kernel promises about those that are
open. So wherever `accept` does not fail, all that the loop needs to poll each
session once is that the sets have bits for the live descriptors. -/
theorem polledOnce_of_kernel (loader : PluginLoader H Env) (host : Host)
    (hsockets : host.KernelSockets loader.plugins) (c : Config H Env)
    (h : (serverLoop loader host).Reachable (KernelAnswers loader host) c) :
    (serverLoop loader host).Reachable AllowedAccept c ∧
      (c.server.InSets → PolledOnce c.server) := by
  have hallowed : (serverLoop loader host).Reachable AllowedAccept c := by
    apply h.strengthen
    intro s a hreached hkernel
    obtain ⟨held, hledger, hholds⟩ :=
      reachable_holds hsockets (fun _ _ hanswers => hanswers.accept) hreached
    exact hkernel.allowedAccept hledger hholds
  refine ⟨hallowed, ?_⟩
  intro hsets
  obtain ⟨start, -, hstart, -⟩ := h.exists_run
  have hrange := reachable_inRange (start_holds hsockets hstart).1 hallowed
  exact hrange.polledOnce (reachable_sound hallowed).1 hsets

end Runs

/-! The HTTP server accepts its first client. -/

theorem kernelSockets_loopback : Http.loopback.KernelSockets Http.httpLoader.plugins := by
  intro front plugin rest held hplugins hheld _
  cases front with
  | nil =>
      cases hheld
      refine ⟨?_, List.not_mem_nil⟩
      change 0 ≤ (3 : Handle).toInt
      decide
  | cons first front =>
      have hlength := congrArg List.length hplugins
      simp [Http.httpLoader, PluginLoader.new, PluginLoader.addPlugin] at hlength

theorem kernelAccept_of_not_accepting {loader : PluginLoader H Env} {host : Host}
    {c : Config H Env} {a : Answers Env} (h : ∀ writeSet id todo,
      c.phase ≠ .reading writeSet (id :: todo)) : KernelAccept loader host c a := by
  rintro held - ⟨writeSet, id, todo, _, _, hphase, -⟩
  exact absurd hphase (h writeSet id todo)

theorem kernelAccept_accepting :
    KernelAccept Http.httpLoader Http.loopback Http.polledListener (Http.arriving 5) := by
  intro held hledger _
  have hheld : ledger Http.httpLoader Http.loopback Http.polledListener.trace = some [3] := rfl
  cases hheld.symm.trans hledger
  exact Or.inr ⟨by decide, by decide⟩

theorem descriptors_accounted_connected :
    Http.loopback.KernelSockets Http.httpLoader.plugins ∧
      (serverLoop Http.httpLoader Http.loopback).Reachable
        (KernelAccept Http.httpLoader Http.loopback) (Http.connected 5) ∧
      ∃ held, ledger Http.httpLoader Http.loopback (Http.connected 5).trace = some held ∧
        (Http.connected 5).server.Holds held := by
  have hlistening : KernelAccept Http.httpLoader Http.loopback Http.listening (Http.arriving 5) :=
    kernelAccept_of_not_accepting (by simp [Http.listening])
  have hconnected := Http.reachable_connected hlistening kernelAccept_accepting
  obtain ⟨⟨held, hledger, -, hholds⟩, -⟩ := descriptors_accounted Http.httpLoader Http.loopback
    kernelSockets_loopback (Http.connected 5) hconnected
  exact ⟨kernelSockets_loopback, hconnected, held, hledger, hholds⟩

theorem polledOnce_of_kernel_connected :
    (serverLoop Http.httpLoader Http.loopback).Reachable
        (KernelAnswers Http.httpLoader Http.loopback) (Http.connected 5) ∧
      (Http.connected 5).server.InSets ∧ PolledOnce (Http.connected 5).server := by
  have hlistening : KernelAnswers Http.httpLoader Http.loopback Http.listening
      (Http.arriving 5) := by
    have hallowed := @allowed_arriving 5
    refine ⟨hallowed.select, ?_, fun _ => by decide, hallowed.recv, hallowed.send⟩
    exact kernelAccept_of_not_accepting (by simp [Http.listening])
  have haccepting : KernelAnswers Http.httpLoader Http.loopback Http.polledListener
      (Http.arriving 5) := by
    have hallowed := @allowed_accepting 5 (by decide)
    exact ⟨hallowed.select, kernelAccept_accepting, fun _ => by decide, hallowed.recv,
      hallowed.send⟩
  have hconnected := Http.reachable_connected hlistening haccepting
  have hsets : (Http.connected 5).server.InSets := by
    intro id session hstore
    rcases handedOut_connected (reachable_handedOut hconnected id session hstore) with heq | heq
    · rw [heq]
      decide
    · rw [heq]
      decide
  exact ⟨hconnected, hsets, (polledOnce_of_kernel Http.httpLoader Http.loopback
    kernelSockets_loopback (Http.connected 5) hconnected).2 hsets⟩

end ModServer
