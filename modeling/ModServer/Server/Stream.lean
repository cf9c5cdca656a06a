import ModServer.Server.Removal

/-!
What the clients of HTTP connections are sent. While all descriptors are below
`FD_SETSIZE`, a session is read only when its handler has nothing pending, so
`DidReceive` never overwrites a response, and what was sent on a connection's
descriptor so far, followed by what is pending, is what its handler composed. A
client on another descriptor may lose a response.
-/

namespace ModServer

open Library Http

section Trace

variable {H Env : Type}

/-- The bytes `send` has taken on the descriptor, after one more event. A new
connection on the descriptor starts a new stream. -/
def wireStep (sock : Handle) (sent : Bytes) : Event H Env → Bytes
  | .accepted other _ => if other = sock then [] else sent
  | .send other _ taken => if other = sock then sent ++ taken else sent
  | _ => sent

def onWire (sock : Handle) (trace : List (Event H Env)) : Bytes :=
  trace.foldl (wireStep sock) []

/-- An event that neither sends, accepts nor hands anything to a handler. -/
def Event.Quiet : Event H Env → Prop
  | .accepted _ _ => False
  | .send _ _ _ => False
  | .didReceive _ _ _ _ _ => False
  | _ => True

theorem onWire_append (sock : Handle) (trace events : List (Event H Env)) :
    onWire sock (trace ++ events) = events.foldl (wireStep sock) (onWire sock trace) :=
  List.foldl_append

theorem onWire_quiet (sock : Handle) (trace : List (Event H Env)) {events : List (Event H Env)}
    (h : ∀ event ∈ events, event.Quiet) : onWire sock (trace ++ events) = onWire sock trace := by
  rw [onWire_append]
  apply foldl_stays
  intro event hevent
  have hquiet := h event hevent
  cases event <;> first | rfl | cases hquiet

/-- An event of filling the sets and asking `select`. -/
def Event.Polls : Event H Env → Prop
  | .fdSet _ => True
  | .fdIsSet _ => True
  | .select _ => True
  | _ => False

theorem polls_polled (server : Server H Env) (reads writes : List Handle) :
    ∀ event ∈ polled server reads writes, event.Polls := by
  intro event hevent
  simp only [polled, List.mem_append, List.mem_map, List.mem_singleton] at hevent
  rcases hevent with (⟨_, -, rfl⟩ | ⟨_, -, rfl⟩) | rfl
  · trivial
  · trivial
  · trivial

theorem polls_tested (handles : List (Nat × Handle)) :
    ∀ event ∈ (tested handles : List (Event H Env)), event.Polls := by
  intro event hevent
  obtain ⟨entry, -, rfl⟩ := List.mem_map.mp hevent
  trivial

theorem Event.Polls.quiet {event : Event H Env} (h : event.Polls) : event.Quiet := by
  cases event <;> trivial

theorem quiet_polled (server : Server H Env) (reads writes : List Handle) :
    ∀ event ∈ polled server reads writes, event.Quiet :=
  fun event hevent => (polls_polled server reads writes event hevent).quiet

theorem quiet_tested (handles : List (Nat × Handle)) :
    ∀ event ∈ (tested handles : List (Event H Env)), event.Quiet :=
  fun event hevent => (polls_tested handles event hevent).quiet

end Trace

/-- The trace of the HTTP server. -/
abbrev HttpTrace := List (Event HttpHandler Surroundings)

/-- The response that the event makes the handler of the session compose. -/
def composedIn (id : Nat) : Event HttpHandler Surroundings → Option Bytes
  | .didReceive session env handler data size =>
      if session = id then handler.composed env data size else none
  | _ => none

/-- The responses that the handler of the session has composed, in order. -/
def composedBy (id : Nat) (trace : HttpTrace) : List Bytes :=
  trace.filterMap (composedIn id)

theorem composedBy_append (id : Nat) (trace events : HttpTrace) :
    composedBy id (trace ++ events) = composedBy id trace ++ composedBy id events :=
  List.filterMap_append

theorem composedBy_quiet (id : Nat) {events : HttpTrace} (h : ∀ event ∈ events, event.Quiet) :
    composedBy id events = [] := by
  apply List.filterMap_eq_nil_iff.mpr
  intro event hevent
  have hquiet := h event hevent
  cases event <;> first | rfl | cases hquiet

/-- The response to the page fits an `int`. -/
def ShortPage (env : Surroundings) : Prop := (responseTo env.page).length < 2 ^ 31

/-- `Allowed`, and the response to the current page fits an `int`. -/
def AllowedShort (c : Config HttpHandler Surroundings) (a : Answers Surroundings) : Prop :=
  Allowed c a ∧ ShortPage a.env

/-- And descriptors are below `FD_SETSIZE`. -/
def BoundedShort (c : Config HttpHandler Surroundings) (a : Answers Surroundings) : Prop :=
  Bounded c a ∧ ShortPage a.env

/-- What is sent on a connection and what is pending make up what its handler
composed, and no handler was given a chunk while something was pending. -/
structure StreamOk (sessions : Registry (Session HttpHandler)) (trace : HttpTrace) : Prop where
  streams : ∀ id sock handler createdBy,
    sessions.store id = some (.connection sock handler createdBy) →
    handler.request = none ∧ handler.response.data.length < 2 ^ 31 ∧
      onWire sock trace ++ handler.response.data = (composedBy id trace).flatten
  received : ∀ id env handler data size, Event.didReceive id env handler data size ∈ trace →
    handler.response.data = [] ∧ id < sessions.next

namespace StreamOk

variable {sessions : Registry (Session HttpHandler)} {trace : HttpTrace}

theorem quiet (h : StreamOk sessions trace) {events : HttpTrace}
    (hquiet : ∀ event ∈ events, event.Quiet) : StreamOk sessions (trace ++ events) := by
  constructor
  · intro id sock handler createdBy hstore
    rw [onWire_quiet sock trace hquiet, composedBy_append, composedBy_quiet id hquiet,
      List.append_nil]
    exact h.streams id sock handler createdBy hstore
  · intro id env handler data size hmem
    rcases List.mem_append.mp hmem with hold | hnew
    · exact h.received id env handler data size hold
    · exact (hquiet _ hnew).elim

/-- An event that hands nothing to a handler. -/
theorem received_append (h : StreamOk sessions trace) {event : Event HttpHandler Surroundings}
    (hother : ∀ id env handler data size, event ≠ .didReceive id env handler data size) :
    ∀ id env handler data size, .didReceive id env handler data size ∈ trace ++ [event] →
      handler.response.data = [] ∧ id < sessions.next := by
  intro id env handler data size hmem
  rcases List.mem_append.mp hmem with hold | hnew
  · exact h.received id env handler data size hold
  · exact absurd (List.mem_singleton.mp hnew).symm (hother id env handler data size)

theorem drop (h : StreamOk sessions trace) (id : Nat) : StreamOk (sessions.drop id) trace := by
  constructor
  · intro other sock handler createdBy hstore
    rw [Registry.drop_store] at hstore
    obtain ⟨-, heq⟩ | ⟨-, hold⟩ := Registry.of_update hstore
    · cases heq
    · exact h.streams other sock handler createdBy hold
  · exact h.received

/-- A new connection on a descriptor that no session holds. -/
theorem accept (h : StreamOk sessions trace) {sock : Handle} (createdBy : Nat)
    (hfresh : ∀ id session, sessions.store id = some session → session.handle ≠ sock) :
    StreamOk (sessions.add (.connection sock .new createdBy))
      (trace ++ [.accepted sock sessions.next]) := by
  have hcomposed (id : Nat) : composedBy id (trace ++ [.accepted sock sessions.next]) =
      composedBy id trace := by
    rw [composedBy_append]
    exact List.append_nil _
  have hwire (other : Handle) : onWire other (trace ++ [.accepted sock sessions.next]) =
      if sock = other then [] else onWire other trace := onWire_append _ _ _
  constructor
  · intro id other handler createdBy' hstore
    rw [Registry.add_store] at hstore
    rw [hcomposed, hwire]
    obtain ⟨rfl, heq⟩ | ⟨-, hold⟩ := Registry.of_update hstore
    · cases heq
      have hnone : composedBy sessions.next trace = [] := by
        apply List.filterMap_eq_nil_iff.mpr
        intro event hevent
        cases event with
        | didReceive id env handler data size =>
            obtain ⟨-, hlt⟩ := h.received id env handler data size hevent
            exact if_neg (Nat.ne_of_lt hlt)
        | _ => rfl
      rw [if_pos rfl, hnone]
      exact ⟨rfl, by decide, rfl⟩
    · have hne : sock ≠ other := Ne.symm (hfresh id _ hold)
      rw [if_neg hne]
      exact h.streams id other handler createdBy' hold
  · intro id env handler data size hmem
    obtain ⟨hempty, hlt⟩ := h.received_append (by simp) id env handler data size hmem
    exact ⟨hempty, Nat.lt_succ_of_lt hlt⟩

/-- A connection with nothing pending composes its next response. -/
theorem receive (h : StreamOk sessions trace) (hwellFormed : sessions.WellFormed) {id : Nat}
    {sock : Handle} {handler : HttpHandler} {createdBy : Nat} {env : Surroundings} {bytes : Bytes}
    (hstore : sessions.store id = some (.connection sock handler createdBy))
    (hempty : handler.response.data = []) (hne : bytes ≠ [])
    (hsize : bytes.length ≤ DataChunk.bufSize) (hshort : (responseTo env.page).length < 2 ^ 31) :
    StreamOk (sessions.set id (.connection sock ⟨none, ⟨responseTo env.page⟩⟩ createdBy))
      (trace ++ [.recv sock bytes, .stored bytes.length,
        .didReceive id env handler (DataChunk.received bytes) bytes.length]) := by
  obtain ⟨hrequest, -, hstream⟩ := h.streams id sock handler createdBy hstore
  have hcomposes : handler.composed env (DataChunk.received bytes) bytes.length =
      some (responseTo env.page) := by
    obtain ⟨request, response⟩ := handler
    cases hrequest
    exact composed_fresh env response hne hsize
  have hcomposed (other : Nat) : composedBy other
      (trace ++ [.recv sock bytes, .stored bytes.length,
        .didReceive id env handler (DataChunk.received bytes) bytes.length]) =
      composedBy other trace ++ if id = other then [responseTo env.page] else [] := by
    rw [composedBy_append]
    congr 1
    rcases eq_or_ne id other with rfl | hother
    · have hevent : composedIn id (.didReceive id env handler (DataChunk.received bytes)
          bytes.length) = some (responseTo env.page) := (if_pos rfl).trans hcomposes
      rw [if_pos rfl]
      exact List.filterMap_cons_some hevent
    · have hevent : composedIn other (.didReceive id env handler (DataChunk.received bytes)
          bytes.length) = none := if_neg hother
      rw [if_neg hother]
      exact List.filterMap_cons_none hevent
  have hwire (other : Handle) : onWire other
      (trace ++ [.recv sock bytes, .stored bytes.length,
        .didReceive id env handler (DataChunk.received bytes) bytes.length]) =
      onWire other trace := onWire_append _ _ _
  constructor
  · intro other sock' handler' createdBy' hother
    rw [Registry.set_store] at hother
    rw [hcomposed, hwire]
    obtain ⟨rfl, heq⟩ | ⟨hdiffer, hold⟩ := Registry.of_update hother
    · cases heq
      refine ⟨rfl, hshort, ?_⟩
      rw [hempty, List.append_nil] at hstream
      rw [hstream, if_pos rfl, List.flatten_append, List.flatten_singleton]
    · rw [if_neg (Ne.symm hdiffer), List.append_nil]
      exact h.streams other sock' handler' createdBy' hold
  · intro other env' handler' data size hmem
    rcases List.mem_append.mp hmem with hold | hnew
    · exact h.received other env' handler' data size hold
    · simp only [List.mem_cons, reduceCtorEq, Event.didReceive.injEq, false_or,
        List.not_mem_nil, or_false] at hnew
      obtain ⟨rfl, -, rfl, -, -⟩ := hnew
      exact ⟨hempty, hwellFormed.lt_next hstore⟩

/-- A connection sends a part of what is pending. -/
theorem send (h : StreamOk sessions trace) (hapart : Apart sessions) {id : Nat} {sock : Handle}
    {handler : HttpHandler} {createdBy : Nat} (length : Int) (size : Nat)
    (hstore : sessions.store id = some (.connection sock handler createdBy)) :
    StreamOk
      (sessions.set id
        (.connection sock { handler with response := ⟨handler.response.data.drop size⟩ } createdBy))
      (trace ++ [.send sock length (handler.response.data.take size)]) := by
  have hcomposed (other : Nat) : composedBy other
      (trace ++ [.send sock length (handler.response.data.take size)]) =
      composedBy other trace := by
    rw [composedBy_append]
    exact List.append_nil _
  have hwire (other : Handle) : onWire other
      (trace ++ [.send sock length (handler.response.data.take size)]) =
      if sock = other then onWire other trace ++ handler.response.data.take size
      else onWire other trace := onWire_append _ _ _
  constructor
  · intro other sock' handler' createdBy' hother
    rw [Registry.set_store] at hother
    rw [hcomposed, hwire]
    obtain ⟨rfl, heq⟩ | ⟨hdiffer, hold⟩ := Registry.of_update hother
    · cases heq
      obtain ⟨hrequest, hshort, hstream⟩ := h.streams other sock handler createdBy hstore
      refine ⟨hrequest, ?_, ?_⟩
      · rw [List.length_drop]
        omega
      · rw [if_pos rfl, List.append_assoc, List.take_append_drop, hstream]
    · -- the bytes go to the descriptor of this connection, which no other one holds
      have hsock : sock ≠ sock' := by
        intro hsame
        exact hdiffer (hapart id other _ _ hstore hold ⟨_, _, _, rfl⟩ hsame).symm
      rw [if_neg hsock]
      exact h.streams other sock' handler' createdBy' hold
  · exact h.received_append (by simp)

/-- A `send` that takes nothing. -/
theorem sendNothing (h : StreamOk sessions trace) (sock : Handle) (length : Int) :
    StreamOk sessions (trace ++ [.send sock length []]) := by
  have hwire (other : Handle) : onWire other (trace ++ [.send sock length []]) =
      onWire other trace := by
    rw [onWire_append]
    simp [wireStep]
  have hcomposed (other : Nat) : composedBy other (trace ++ [.send sock length []]) =
      composedBy other trace := by
    rw [composedBy_append]
    exact List.append_nil _
  constructor
  · intro id other handler createdBy hstore
    rw [hwire, hcomposed]
    exact h.streams id other handler createdBy hstore
  · exact h.received_append (by simp)

end StreamOk

/-- Each plugin is an HTTP plugin: its handlers start without a request and
with an empty response. -/
def ServesHttp (loader : PluginLoader HttpHandler Surroundings) : Prop :=
  ∀ plugin ∈ loader.plugins, ∀ env, plugin.newProtocolHandler env = HttpHandler.new

theorem Moves.streamOk {acceptors : List (Session HttpHandler)} {a : Answers Surroundings}
    {c next : Config HttpHandler Surroundings} (h : Moves a c next) (hallowed : AllowedShort c a)
    (hhttp : ServesHttp c.server.pluginLoader) (horderly : Orderly acceptors c)
    (hstream : StreamOk c.server.sessions c.trace) :
    StreamOk next.server.sessions next.trace := by
  obtain ⟨hsound, -, -, hapart, hphase⟩ := horderly
  obtain ⟨hallowed, hpage⟩ := hallowed
  cases h with
  | stop => exact hstream.quiet (quiet_polled _ _ _)
  | poll => exact (hstream.quiet (quiet_polled _ _ _)).quiet (quiet_tested _)
  | readEnd => exact hstream.quiet (quiet_tested _)
  | sendEnd => exact hstream
  | stay => exact hstream
  | accept hstore hfind =>
      have hnew := hhttp _ (PluginLoader.present_of_find hfind).1 a.env
      rw [hnew]
      exact hstream.accept _ (hallowed.accept ⟨_, _, _, _, _, rfl, hstore⟩)
  | @receive server trace writeSet id todo sock handler handler' createdBy bytes hstore hreceived
      hne hdid =>
      have hsize := hallowed.recv bytes hreceived
      have hempty : handler.response.data = [] := by
        obtain ⟨session, hsession, hidle⟩ := hphase.2.1 id List.mem_cons_self
        rw [hstore] at hsession
        cases hsession
        have hnone : (!handler.response.data.isEmpty) = false := hidle
        simpa using hnone
      obtain ⟨hrequest, -⟩ := hstream.streams id sock handler createdBy hstore
      have hcomposed : handler' = ⟨none, ⟨responseTo a.env.page⟩⟩ := by
        obtain ⟨request, response⟩ := handler
        cases hrequest
        have hfresh := didReceive_fresh a.env response hne hsize
        cases hfresh.symm.trans hdid
        rfl
      subst hcomposed
      exact hstream.receive hsound.wellFormed hstore hempty hne hsize hpage
  | readFailed => exact (hstream.drop _).quiet (by simp [Event.Quiet])
  | @send server trace id todo sock handler handler' createdBy hstore hpos hdid =>
      have hle : a.sent ≤ handler.response.data.length :=
        hallowed.send id todo sock handler createdBy rfl hstore
      obtain ⟨-, hshort, -⟩ := hstream.streams id sock handler createdBy hstore
      have hdrop := @didSend_drop handler a.sent.toNat (by omega) (by omega)
      rw [Int.toNat_of_nonneg (by omega)] at hdrop
      cases hdrop.symm.trans hdid
      exact hstream.send hapart _ _ hstore
  | @sendFailed server trace id todo sock handler createdBy events _ _ _ _ hevents =>
      subst hevents
      exact ((hstream.sendNothing sock _).drop id).quiet (by simp [Event.Quiet])

theorem reachable_streamOk {loader : PluginLoader HttpHandler Surroundings}
    (hhttp : ServesHttp loader) {host : Host} (hhost : host.InSets loader.plugins)
    {c : Config HttpHandler Surroundings} (h : (serverLoop loader host).Reachable BoundedShort c) :
    StreamOk c.server.sessions c.trace := by
  apply h.invariant (P := fun c => StreamOk c.server.sessions c.trace)
  · intro c hstart
    obtain ⟨-, -, -, htrace, -⟩ := start_initial hstart
    rw [htrace]
    constructor
    · intro id sock handler createdBy hstore
      exact absurd hstore (start_not_connection hstart)
    · intro id env handler data size hmem
      cases hmem
  · intro c a next hreached hstream hbounded hstep
    have horderly := reachable_orderly hhost (fun _ _ hbounded => hbounded.1) hreached
    have hloader := (reachable_sound hreached).2
    exact (step_moves hstep).streamOk ⟨hbounded.1.allowed, hbounded.2⟩ (hloader ▸ hhttp) horderly
      hstream

/-- What was sent on each live connection and what is pending on it is what its
handler composed, and no handler was given a chunk while something was pending. -/
structure StreamIntegrity (c : Config HttpHandler Surroundings) : Prop where
  streams : ∀ id sock handler createdBy,
    c.server.sessions.store id = some (.connection sock handler createdBy) →
    onWire sock c.trace ++ handler.response.data = (composedBy id c.trace).flatten
  idle : ∀ id env handler data size, .didReceive id env handler data size ∈ c.trace →
    handler.response.data = []

theorem stream_integrity (loader : PluginLoader HttpHandler Surroundings)
    (hhttp : ServesHttp loader) (host : Host) (c : Config HttpHandler Surroundings)
    (h : (serverLoop loader host).Reachable AllowedShort c)
    (hin : AllInSet (host.acceptors loader.plugins) c.trace) : StreamIntegrity c := by
  have hbounded := reachable_bounded (fun _ _ hallowed => hallowed.1) h hin
  have hstream := reachable_streamOk hhttp hin.host
    (hbounded.mono (fun _ _ hallowed => ⟨hallowed.2, hallowed.1.2⟩))
  constructor
  · intro id sock handler createdBy hstore
    exact (hstream.streams id sock handler createdBy hstore).2.2
  · intro id env handler data size hmem
    exact (hstream.received id env handler data size hmem).1

/-! A run in which the first client is accepted and its request received. -/

theorem step_receive {H Env : Type} [ProtocolHandler H Env] {a : Answers Env}
    {server : Server H Env} {trace : List (Event H Env)} {writeSet : FdSet} {id : Nat}
    {todo : List Nat} {sock : Handle} {protoHandler protoHandler' : H} {createdBy : Nat}
    {plugin : ServerPlugin H Env} {bytes : Bytes}
    (hstore : server.sessions.store id = some (.connection sock protoHandler createdBy))
    (hfind : server.pluginLoader.find createdBy = some plugin)
    (hreceived : a.received = .ok bytes) (hne : bytes ≠ [])
    (hdid : ProtocolHandler.didReceive a.env protoHandler (DataChunk.received bytes)
      bytes.length = .ok protoHandler') :
    Config.step ⟨server, .reading writeSet (id :: todo), trace⟩ a =
      .ok ⟨server.setHandler id sock protoHandler' createdBy, .reading writeSet todo,
        trace ++ [.recv sock bytes, .stored bytes.length,
          .didReceive id a.env protoHandler (DataChunk.received bytes) bytes.length]⟩ := by
  have hderef := Server.deref_eq_ok.mpr hstore
  have hplugin := Server.plugin_eq_ok.mpr hfind
  have hlength : ¬ bytes.length < 1 := by
    have hpos := List.length_pos_of_ne_nil hne
    omega
  have hread : ¬ (bytes.length : Int) < 1 := by omega
  unfold Config.step Server.onRead
  simp only [hderef, hplugin, hreceived, hdid, hlength, hread, bind, Except.bind, if_false]

theorem step_send {H Env : Type} [ProtocolHandler H Env] {a : Answers Env}
    {server : Server H Env} {trace : List (Event H Env)} {id : Nat} {todo : List Nat}
    {sock : Handle} {protoHandler protoHandler' : H} {createdBy : Nat} {plugin : ServerPlugin H Env}
    (hstore : server.sessions.store id = some (.connection sock protoHandler createdBy))
    (hfind : server.pluginLoader.find createdBy = some plugin) (hpos : 0 < a.sent)
    (hdid : ProtocolHandler.didSend protoHandler a.sent = .ok protoHandler') :
    Config.step ⟨server, .sending (id :: todo), trace⟩ a =
      .ok ⟨server.setHandler id sock protoHandler' createdBy, .sending todo,
        trace ++ [.send sock (intOfSize (ProtocolHandler.dataToSend protoHandler).length)
          ((ProtocolHandler.dataToSend protoHandler).take a.sent.toNat)]⟩ := by
  have hderef := Server.deref_eq_ok.mpr hstore
  have hplugin := Server.plugin_eq_ok.mpr hfind
  have hwrote : ¬ a.sent < 1 := by omega
  unfold Config.step Server.onWrite
  simp only [hderef, hplugin, hdid, hpos, hwrote, bind, Except.bind, if_true, if_false]

theorem servesHttp_httpLoader : ServesHttp httpLoader := by
  intro plugin hplugin env
  cases List.mem_singleton.mp hplugin
  rfl

theorem length_failing_page : ShortPage failing.env := by
  unfold ShortPage
  decide +kernel

theorem Tame.boundedShort {c : Config HttpHandler Surroundings} {a : Answers Surroundings}
    (h : Tame c a) : BoundedShort c a := by
  refine ⟨h.1, ?_⟩
  rw [h.2]
  exact length_failing_page

theorem Tame.allowedShort {c : Config HttpHandler Surroundings} {a : Answers Surroundings}
    (h : Tame c a) : AllowedShort c a := ⟨h.1.allowed, h.boundedShort.2⟩

/-- The answers under which that client is found to have sent `bytes`. -/
def answering (env : Surroundings) (bytes : Bytes) : Answers Surroundings :=
  { requesting with received := .ok bytes, env := env }

def answered (env : Surroundings) (bytes : Bytes) : Config HttpHandler Surroundings where
  server := requested.server.setHandler 1 5 ⟨none, ⟨responseTo env.page⟩⟩ 0
  phase := .reading .zero []
  trace := requested.trace ++ [.recv 5 bytes, .stored bytes.length,
    .didReceive 1 env .new (DataChunk.received bytes) bytes.length]

theorem step_answering (env : Surroundings) {bytes : Bytes} (hne : bytes ≠ [])
    (hsize : bytes.length ≤ DataChunk.bufSize) :
    requested.step (answering env bytes) = .ok (answered env bytes) :=
  @step_receive _ _ _ (answering env bytes) requested.server requested.trace .zero 1 [] _ _ _ _ _ _
    rfl rfl rfl hne (didReceive_fresh env .new hne hsize)

theorem bounded_answering (env : Surroundings) {bytes : Bytes}
    (hsize : bytes.length ≤ DataChunk.bufSize) : Bounded requested (answering env bytes) := by
  have hidle : ¬ Accepting requested := by
    rintro ⟨_, _, _, _, _, hphase, hstore⟩
    cases hphase
    cases hstore
  refine ⟨allowed_of rfl ?_ ?_ ?_, fun haccepting => absurd haccepting hidle⟩
  · intro _ _ hphase
    cases hphase
  · exact fun haccepting => absurd haccepting hidle
  · intro received hreceived
    cases hreceived
    exact hsize

theorem reachable_answered (env : Surroundings) {bytes : Bytes} (hne : bytes ≠ [])
    (hsize : bytes.length ≤ DataChunk.bufSize) :
    (serverLoop httpLoader loopback).Reachable Bounded (answered env bytes) := by
  have hrequested := reachable_requested.mono (fun _ _ htame => htame.1)
  exact hrequested.step (answering env bytes) (bounded_answering env hsize)
    (step_answering env hne hsize)

theorem tame_answered {bytes : Bytes} (hne : bytes ≠ [])
    (hsize : bytes.length ≤ DataChunk.bufSize) :
    (serverLoop httpLoader loopback).Reachable Tame (answered failing.env bytes) :=
  reachable_requested.step (answering failing.env bytes) ⟨bounded_answering failing.env hsize, rfl⟩
    (step_answering failing.env hne hsize)

/-- Its response is pending afterwards, and nothing was sent. -/
theorem stream_integrity_requested :
    ServesHttp httpLoader ∧
    ∃ c, (serverLoop httpLoader loopback).Reachable AllowedShort c ∧
      AllInSet (loopback.acceptors httpLoader.plugins) c.trace ∧
      c.server.sessions.store 1 =
        some (.connection 5 ⟨none, ⟨responseTo failing.env.page⟩⟩ 0) ∧
      onWire 5 c.trace ++ responseTo failing.env.page = (composedBy 1 c.trace).flatten := by
  have hreached : (serverLoop httpLoader loopback).Reachable AllowedShort
      (answered failing.env (ascii "GET / HTTP/1.1")) :=
    (tame_answered (by decide) (by decide)).mono (fun _ _ htame => htame.allowedShort)
  have hin : AllInSet (loopback.acceptors httpLoader.plugins)
      (answered failing.env (ascii "GET / HTTP/1.1")).trace := by
    intro sock hsock
    apply allInSet_requested sock
    rcases hsock with hacceptor | ⟨id, hmem⟩
    · exact Or.inl hacceptor
    · exact Or.inr ⟨id, by simpa [answered] using hmem⟩
  have hstream := stream_integrity httpLoader servesHttp_httpLoader loopback _ hreached hin
  exact ⟨servesHttp_httpLoader, _, hreached, hin, rfl, hstream.streams 1 5 _ 0 rfl⟩

/-! A run in which the second client is accepted on descriptor 1029, while the
response to the first one is pending. -/

/-- The first client's response is pending. -/
def pendingFirst (phase : Phase) : Config HttpHandler Surroundings where
  server := (answered failing.env (ascii "GET / HTTP/1.1")).server
  phase := phase
  trace := (answered failing.env (ascii "GET / HTTP/1.1")).trace ++ [.fdIsSet 3, .fdIsSet 5]

theorem reachable_pendingFirst :
    (serverLoop httpLoader loopback).Reachable Tame (pendingFirst .top) := by
  have hanswered : (serverLoop httpLoader loopback).Reachable Tame
      (answered failing.env (ascii "GET / HTTP/1.1")) := tame_answered (by decide) (by decide)
  have hsending : (serverLoop httpLoader loopback).Reachable Tame (pendingFirst (.sending [])) :=
    hanswered.step failing (tame_failing (by simp [answered])) rfl
  exact hsending.step failing (tame_failing (by simp [pendingFirst])) rfl

/-- The live sessions hold the descriptors 3 and 5. -/
theorem fresh_pendingFirst {phase : Phase} {sock : Handle} (hlistener : 3 ≠ sock)
    (hclient : 5 ≠ sock) : (pendingFirst phase).server.Fresh sock := by
  intro id session hstore
  -- the first client was stored when it was accepted, and again with its response
  obtain ⟨-, heq⟩ | ⟨-, hstore⟩ := Registry.of_update hstore
  · cases heq
    exact hclient
  obtain ⟨-, heq⟩ | ⟨-, hstore⟩ := Registry.of_update hstore
  · cases heq
    exact hclient
  obtain ⟨-, heq⟩ | ⟨-, hstore⟩ := Registry.of_update hstore
  · cases heq
    exact hlistener
  · cases hstore

theorem ten_le_response : (10 : Int) ≤ (responseTo failing.env.page).length := by
  decide +kernel

/-- The first client is writable, and `send` takes ten bytes. The second one is
readable, if behind the read set a bit is set for it: where the write set lies
there, the bit of descriptor 5. -/
def overreading (outside : Bool) : Answers Surroundings :=
  { failing with
    selectRc := 1
    writeSet := .filled [5]
    outside := fun _ => outside
    received := .ok (ascii "GET / HTTP/1.1")
    sent := 10 }

theorem allowed_overreading {c : Config HttpHandler Surroundings} (outside : Bool)
    (hidle : ¬ Accepting c)
    (hwrites : ∀ writes, c.phase = .top → c.server.fillReadyWrite = .ok writes → 5 ∈ writes)
    (hsend : ∀ id todo sock handler createdBy, c.phase = .sending (id :: todo) →
      c.server.sessions.store id = some (.connection sock handler createdBy) →
      handler.response.data = responseTo failing.env.page) :
    AllowedShort c (overreading outside) := by
  refine ⟨⟨?_, fun haccepting => absurd haccepting hidle, ?_, ?_⟩, length_failing_page⟩
  · intro reads writes htop _ hwrite _
    refine ⟨FdSet.zero_subset _, ?_⟩
    intro sock hmem
    obtain ⟨hfive, hin⟩ := FdSet.mem_filled.mp hmem
    rw [List.mem_singleton.mp hfive] at hin ⊢
    exact FdSet.mem_filled.mpr ⟨hwrites writes htop hwrite, hin⟩
  · intro bytes hbytes
    cases hbytes
    decide
  · intro id todo sock handler createdBy hphase hstore
    change (10 : Int) ≤ handler.response.data.length
    rw [hsend id todo sock handler createdBy hphase hstore]
    exact ten_le_response

/-- The loop comes to this server and phase, with some trace. -/
def Overreads (server : Server HttpHandler Surroundings) (phase : Phase) : Prop :=
  ∃ trace, (serverLoop httpLoader loopback).Reachable AllowedShort ⟨server, phase, trace⟩

theorem Overreads.step {server next : Server HttpHandler Surroundings} {phase nextPhase : Phase}
    (h : Overreads server phase) (a : Answers Surroundings)
    (hallowed : ∀ trace, AllowedShort ⟨server, phase, trace⟩ a)
    (hstep : ∀ trace, ∃ trace',
      Config.step ⟨server, phase, trace⟩ a = .ok ⟨next, nextPhase, trace'⟩) :
    Overreads next nextPhase := by
  obtain ⟨trace, hreached⟩ := h
  obtain ⟨trace', hnext⟩ := hstep trace
  exact ⟨trace', hreached.step a (hallowed trace) hnext⟩

/-- The server when the second client is accepted. -/
def farAccepted : Server HttpHandler Surroundings :=
  (pendingFirst .top).server.addSession (.connection 1029 .new 0)

/-- When its response is pending. -/
def farComposed : Server HttpHandler Surroundings :=
  farAccepted.setHandler 2 1029 ⟨none, ⟨responseTo failing.env.page⟩⟩ 0

/-- When the first client was sent ten bytes. -/
def farWritten : Server HttpHandler Surroundings :=
  farComposed.setHandler 1 5 ⟨none, ⟨(responseTo failing.env.page).drop 10⟩⟩ 0

theorem overreads_accepted : Overreads farAccepted .top := by
  have hpending : Overreads (pendingFirst .top).server .top :=
    ⟨_, reachable_pendingFirst.mono (fun _ _ htame => htame.allowedShort)⟩
  have hfailing {c : Config HttpHandler Surroundings} (h : ¬ Accepting c) :
      AllowedShort c failing := ⟨allowed_failing h, length_failing_page⟩
  have hpolled : Overreads (pendingFirst .top).server (.reading .zero [0]) := by
    refine hpending.step (arriving 1029) (fun trace => ⟨?_, length_failing_page⟩)
      (fun _ => ⟨_, rfl⟩)
    apply allowed_of rfl _
      (fun haccepting => absurd haccepting (not_accepting_of_phase (by simp)))
      (by simp [arriving, failing])
    intro reads writes _ hread _ _
    have hlistener : (pendingFirst .top).server.fillReadyRead = .ok [3] := rfl
    cases hlistener.symm.trans hread
    exact ⟨FdSet.subset_rfl, FdSet.zero_subset _⟩
  have haccepted : Overreads farAccepted (.reading .zero []) := by
    refine hpolled.step (arriving 1029) (fun trace => ⟨?_, length_failing_page⟩)
      (fun _ => ⟨_, rfl⟩)
    refine allowed_of rfl (by simp) ?_ (by simp [arriving, failing])
    exact fun _ => @fresh_pendingFirst .top 1029 (by decide) (by decide)
  have hsending : Overreads farAccepted (.sending []) :=
    haccepted.step failing (fun _ => hfailing (not_accepting_of_phase (by simp)))
      (fun _ => ⟨_, rfl⟩)
  exact hsending.step failing (fun _ => hfailing (not_accepting_of_phase (by simp)))
    (fun trace => ⟨trace, rfl⟩)

/-- `ReadData` visits the second client when the first one is writable. -/
theorem allowed_visits {server : Server HttpHandler Surroundings} {writes : List Handle}
    (hwrites : server.fillReadyWrite = .ok writes) (hfive : 5 ∈ writes) (trace : HttpTrace) :
    AllowedShort ⟨server, .top, trace⟩ (overreading true) := by
  refine allowed_overreading true (not_accepting_of_phase (by simp)) ?_ (by simp)
  intro others _ hothers
  cases hwrites.symm.trans hothers
  exact hfive

theorem allowed_reads {server : Server HttpHandler Surroundings} {sock : Handle}
    {handler : HttpHandler} {createdBy : Nat}
    (hstore : server.sessions.store 2 = some (.connection sock handler createdBy))
    (trace : HttpTrace) :
    AllowedShort ⟨server, .reading (.filled [5]) [2], trace⟩ (overreading true) := by
  refine allowed_overreading true ?_ (by simp) (by simp)
  rintro ⟨_, _, _, _, _, hphase, hacceptor⟩
  cases hphase
  cases hstore.symm.trans hacceptor

theorem overreads_written : Overreads farWritten .top := by
  have hreading : Overreads farAccepted (.reading (.filled [5]) [2]) :=
    overreads_accepted.step (overreading true) (@allowed_visits farAccepted [5] rfl (by decide))
      (fun _ => ⟨_, rfl⟩)
  have hread : Overreads farComposed (.reading (.filled [5]) []) :=
    hreading.step (overreading true) (@allowed_reads farAccepted 1029 .new 0 rfl)
      (fun trace => ⟨_, @step_receive _ _ _ (overreading true) farAccepted trace _ 2 [] 1029
        .new _ 0 _ _ rfl rfl rfl (by decide)
        (didReceive_fresh failing.env .new (by decide) (by decide))⟩)
  have hwriting : Overreads farComposed (.sending [1]) := by
    refine hread.step (overreading false) ?_ (fun _ => ⟨_, rfl⟩)
    exact fun _ => allowed_overreading false (not_accepting_of_phase (by simp)) (by simp) (by simp)
  have hwritten : Overreads farWritten (.sending []) := by
    refine hwriting.step (overreading false) ?_ ?_
    · intro trace
      refine allowed_overreading false (not_accepting_of_phase (by simp)) (by simp) ?_
      intro id todo sock handler createdBy hphase hstore
      cases hphase
      cases hstore
      rfl
    · exact fun trace => ⟨_, @step_send _ _ _ (overreading false) farComposed trace 1 [] 5 _ _ 0 _
        rfl rfl (by decide) (didSend_drop _ (by decide : 0 < 10) (by decide))⟩
  refine hwritten.step failing ?_ (fun trace => ⟨trace, rfl⟩)
  exact fun _ => ⟨allowed_failing (not_accepting_of_phase (by simp)), length_failing_page⟩

/-- `DidReceive` is called of a handler that has a response pending. -/
theorem not_streamIntegrity_overread :
    ServesHttp httpLoader ∧
    ∃ c, (serverLoop httpLoader loopback).Reachable AllowedShort c ∧ ¬ StreamIntegrity c := by
  obtain ⟨trace, hreading⟩ : Overreads farWritten (.reading (.filled [5]) [2]) :=
    overreads_written.step (overreading true) (@allowed_visits farWritten [5, 1029] rfl (by decide))
      (fun _ => ⟨_, rfl⟩)
  have hoverwritten := hreading.step (overreading true)
    (@allowed_reads farWritten 1029 _ 0 rfl trace)
    (@step_receive _ _ _ (overreading true) farWritten trace _ 2 [] 1029 _ _ 0 _ _
      rfl rfl rfl (by decide) (didReceive_fresh failing.env _ (by decide) (by decide)))
  refine ⟨servesHttp_httpLoader, _, hoverwritten, ?_⟩
  intro hstream
  exact responseTo_ne_nil failing.env.page
    (hstream.idle 2 _ _ _ _ (List.mem_append_right _ (.tail _ (.tail _ (.head _)))))

end ModServer
