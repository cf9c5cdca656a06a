import ModServer.Server.Descriptors
import ModServer.Server.Transfer

/-!
A connection by itself. What a plugin's author thinks of is one handler and
one peer: the handler is given what was received, while it has nothing to send,
and told how much of what it has to send was taken.

The loop serves many connections at a time, but each is in a state that its
handler also reaches in a conversation of its own. What holds in every
conversation of a plugin's handlers thus holds in every run of the server, with
any other plugins loaded and any other clients connected.
-/

namespace ModServer

open Library ProtocolHandler

variable {H Env : Type}

/-- A handler, with what its peer has sent and what it was sent. -/
structure Conversation (H : Type) where
  handler : H
  received : Bytes
  sent : Bytes

/-- The calls of `OnRead` and `OnWrite` that a handler is told about. -/
inductive Call (Env : Type) where
  | didReceive (env : Env) (bytes : Bytes)
  | didSend (size : Int)

section Conversation

variable [ProtocolHandler H Env]

def Conversation.step (t : Conversation H) : Call Env → Except HandlerFault (Conversation H)
  | .didReceive env bytes => do
      let handler ← didReceive env t.handler (DataChunk.received bytes) bytes.length
      .ok { t with handler := handler, received := t.received ++ bytes }
  | .didSend size => do
      let handler ← didSend t.handler size
      .ok { t with handler := handler, sent := t.sent ++ (dataToSend t.handler).take size.toNat }

theorem Conversation.step_didReceive {t : Conversation H} {env : Env} {bytes : Bytes} {handler : H}
    (h : didReceive env t.handler (DataChunk.received bytes) bytes.length = .ok handler) :
    t.step (.didReceive env bytes) = .ok ⟨handler, t.received ++ bytes, t.sent⟩ :=
  bind_eq_ok.mpr ⟨handler, h, rfl⟩

theorem Conversation.step_didSend {t : Conversation H} {size : Int} {handler : H}
    (h : didSend t.handler size = .ok handler) :
    t.step (.didSend size) =
      .ok ⟨handler, t.received, t.sent ++ (dataToSend t.handler).take size.toNat⟩ :=
  bind_eq_ok.mpr ⟨handler, h, rfl⟩

/-- The conversations of the handlers in `first`. -/
def conversation (first : H → Prop) : Machine (Conversation H) (Call Env) HandlerFault where
  start t := first t.handler ∧ t.received = [] ∧ t.sent = []
  step := Conversation.step

/-- When the server makes a call, in surroundings of which something is known. -/
def Polite (fits : Env → Prop) (t : Conversation H) : Call Env → Prop
  | .didReceive env bytes =>
      hasDataToSend t.handler = false ∧ bytes ≠ [] ∧ bytes.length ≤ DataChunk.bufSize ∧ fits env
  | .didSend size =>
      hasDataToSend t.handler = true ∧ 0 < size ∧ size ≤ (dataToSend t.handler).length

/-- The promises are kept, descriptors are below `FD_SETSIZE`, and what is known
of the surroundings holds. -/
def BoundedIn (fits : Env → Prop) (c : Config H Env) (a : Answers Env) : Prop :=
  Bounded c a ∧ fits a.env

end Conversation

/-- The handler is a new one of the plugin, which the server serves. -/
def Creates (loader : PluginLoader H Env) (host : Host) (createdBy : Nat) (protoHandler : H) :
    Prop :=
  ∃ plugin env, loader.find createdBy = some plugin ∧
    .acceptor (host.socket createdBy) createdBy ∈
      (host.acceptors loader.plugins : List (Session H)) ∧
    protoHandler = plugin.newProtocolHandler env

/-- A live connection of the plugin, as a conversation. -/
def Speaks (createdBy : Nat) (c : Config H Env) (t : Conversation H) : Prop :=
  ∃ id sock protoHandler,
    c.server.sessions.store id = some (.connection sock protoHandler createdBy) ∧
    t = ⟨protoHandler, receivedOn sock c.trace, onWire sock c.trace⟩

/-! What one event does to the streams of a descriptor. -/

/-- The event belongs to a stream of the descriptor. -/
def Event.On (sock : Handle) : Event H Env → Prop
  | .accepted other _ => other = sock
  | .recv other _ => other = sock
  | .send other _ _ => other = sock
  | _ => False

theorem streams_elsewhere {sock : Handle} (trace : List (Event H Env)) {events : List (Event H Env)}
    (h : ∀ event ∈ events, ¬ event.On sock) :
    receivedOn sock (trace ++ events) = receivedOn sock trace ∧
      onWire sock (trace ++ events) = onWire sock trace := by
  constructor
  · rw [receivedOn_append]
    apply foldl_stays
    intro event hevent
    have hother := h event hevent
    cases event with
    | accepted | recv => exact if_neg hother
    | fdSet | fdIsSet | select | stored | didReceive | send | closed => rfl
  · rw [onWire_append]
    apply foldl_stays
    intro event hevent
    have hother := h event hevent
    cases event with
    | accepted | send => exact if_neg hother
    | fdSet | fdIsSet | select | stored | didReceive | recv | closed => rfl

theorem streams_receive (sock : Handle) (trace : List (Event H Env)) (bytes : Bytes) (id : Nat)
    (env : Env) (protoHandler : H) (data : DataChunk) (size : Int) :
    receivedOn sock (trace ++ [.recv sock bytes, .stored bytes.length,
        .didReceive id env protoHandler data size]) = receivedOn sock trace ++ bytes ∧
      onWire sock (trace ++ [.recv sock bytes, .stored bytes.length,
        .didReceive id env protoHandler data size]) = onWire sock trace := by
  rw [receivedOn_append, onWire_append]
  exact ⟨if_pos rfl, rfl⟩

theorem streams_send (sock : Handle) (trace : List (Event H Env)) (length : Int) (taken : Bytes) :
    receivedOn sock (trace ++ [.send sock length taken]) = receivedOn sock trace ∧
      onWire sock (trace ++ [.send sock length taken]) = onWire sock trace ++ taken := by
  rw [receivedOn_append, onWire_append]
  exact ⟨rfl, if_pos rfl⟩

theorem Event.Polls.not_on {event : Event H Env} (h : event.Polls) (sock : Handle) :
    ¬ event.On sock := by
  cases event with
  | accepted | recv | send => cases h
  | fdSet | fdIsSet | select | stored | didReceive | closed => exact id

/-- A connection of which nothing was changed, while events of other
descriptors happened. -/
theorem Speaks.elsewhere {createdBy : Nat} {c : Config H Env} {sock : Handle} {protoHandler : H}
    {id : Nat} {events : List (Event H Env)}
    (hstore : c.server.sessions.store id = some (.connection sock protoHandler createdBy))
    (hevents : ∀ event ∈ events, ¬ event.On sock) :
    Speaks createdBy c
      ⟨protoHandler, receivedOn sock (c.trace ++ events), onWire sock (c.trace ++ events)⟩ := by
  obtain ⟨hreceived, hsent⟩ := streams_elsewhere c.trace hevents
  rw [hreceived, hsent]
  exact ⟨id, sock, protoHandler, hstore, rfl⟩

/-- An acceptor that is registered is one of those that `InitPlugins`
registered. -/
theorem AcceptorsFirst.mem_of_store {acceptors : List (Session H)}
    {sessions : Registry (Session H)} (h : AcceptorsFirst acceptors sessions)
    (hwellFormed : sessions.WellFormed) {id : Nat} {sock : Handle} {pluginId : Nat}
    (hstore : sessions.store id = some (.acceptor sock pluginId)) :
    .acceptor sock pluginId ∈ acceptors := by
  obtain ⟨rest, hkeys, hrest⟩ := h.order
  have hmem := hwellFormed.mem_of_store hstore
  rw [hkeys] at hmem
  rcases List.mem_append.mp hmem with hfirst | hlater
  · have hlt := List.mem_range.mp hfirst
    have hkept := h.kept id _ (List.getElem?_eq_getElem hlt)
    rw [Option.some.inj (hstore.symm.trans hkept)]
    exact List.getElem_mem hlt
  · obtain ⟨session, hsession, sock', protoHandler, createdBy, rfl⟩ := hrest id hlater
    cases hstore.symm.trans hsession

theorem Creates.of_acceptor {loader : PluginLoader H Env} {host : Host} {sock : Handle}
    {pluginId : Nat} {plugin : ServerPlugin H Env}
    (hacceptor : .acceptor sock pluginId ∈ (host.acceptors loader.plugins : List (Session H)))
    (hfind : loader.find pluginId = some plugin) (env : Env) :
    Creates loader host plugin.id (plugin.newProtocolHandler env) := by
  obtain ⟨-, hid⟩ := PluginLoader.present_of_find hfind
  obtain ⟨served, -, -, hserved⟩ := mem_acceptors hacceptor
  cases hserved
  rw [← hid] at hfind hacceptor
  exact ⟨plugin, env, hfind, hacceptor, rfl⟩

/-- Two connections do not share a descriptor. -/
theorem Apart.other {sessions : Registry (Session H)} (h : Apart sessions)
    {id visited createdBy createdBy' : Nat} {sock other : Handle} {handler protoHandler : H}
    (hvisited : sessions.store visited = some (.connection other protoHandler createdBy'))
    (hdiffer : id ≠ visited)
    (hstore : sessions.store id = some (.connection sock handler createdBy)) : other ≠ sock := by
  intro hsame
  exact hdiffer (h visited id _ _ hvisited hstore ⟨_, _, _, rfl⟩ hsame).symm

section Steps

variable [ProtocolHandler H Env]

/-- `OnRead` of a connection is a call that its conversation may make. -/
theorem speaks_receive {fits : Env → Prop} {c : Config H Env} {a : Answers Env} {writeSet : FdSet}
    {id : Nat} {todo : List Nat} {sock : Handle} {protoHandler protoHandler' : H}
    {createdBy : Nat} {bytes : Bytes} (hbounded : BoundedIn fits c a)
    (hphase : (Phase.reading writeSet (id :: todo)).Ok c.server.sessions)
    (hstore : c.server.sessions.store id = some (.connection sock protoHandler createdBy))
    (hbytes : a.received = .ok bytes) (hne : bytes ≠ [])
    (hdid : didReceive a.env protoHandler (DataChunk.received bytes) bytes.length =
      .ok protoHandler') (data : DataChunk) (size : Int) :
    ∃ before call, Speaks createdBy c before ∧ Polite fits before call ∧ before.step call =
      .ok ⟨protoHandler', receivedOn sock (c.trace ++ [.recv sock bytes, .stored bytes.length,
        .didReceive id a.env protoHandler data size]),
        onWire sock (c.trace ++ [.recv sock bytes, .stored bytes.length,
        .didReceive id a.env protoHandler data size])⟩ := by
  obtain ⟨⟨hallowed, -⟩, hfits⟩ := hbounded
  obtain ⟨session, hsession, hidle⟩ := hphase.2.1 id List.mem_cons_self
  cases hstore.symm.trans hsession
  obtain ⟨hreceived, hsent⟩ := streams_receive sock c.trace bytes id a.env protoHandler data size
  rw [hreceived, hsent]
  exact ⟨_, .didReceive a.env bytes, ⟨id, sock, _, hstore, rfl⟩,
    ⟨hidle, hne, hallowed.recv bytes hbytes, hfits⟩, Conversation.step_didReceive hdid⟩

/-- `OnWrite` of a connection is a call that its conversation may make. -/
theorem speaks_send {fits : Env → Prop} {c : Config H Env} {a : Answers Env} {id : Nat}
    {todo : List Nat} {sock : Handle} {protoHandler protoHandler' : H} {createdBy : Nat}
    (hbounded : BoundedIn fits c a) (hsending : c.phase = .sending (id :: todo))
    (hphase : c.phase.Ok c.server.sessions)
    (hstore : c.server.sessions.store id = some (.connection sock protoHandler createdBy))
    (hpos : 0 < a.sent) (hdid : didSend protoHandler a.sent = .ok protoHandler') (length : Int) :
    ∃ before call, Speaks createdBy c before ∧ Polite fits before call ∧ before.step call =
      .ok ⟨protoHandler', receivedOn sock (c.trace ++ [.send sock length
          ((dataToSend protoHandler).take a.sent.toNat)]),
        onWire sock (c.trace ++ [.send sock length
          ((dataToSend protoHandler).take a.sent.toNat)])⟩ := by
  obtain ⟨⟨hallowed, -⟩, -⟩ := hbounded
  rw [hsending] at hphase
  obtain ⟨session, hsession, hpending⟩ := hphase.2 id List.mem_cons_self
  cases hstore.symm.trans hsession
  have hsize := hallowed.send id todo sock protoHandler _ hsending hstore
  obtain ⟨hreceived, hsent⟩ := streams_send sock c.trace length
    ((dataToSend protoHandler).take a.sent.toNat)
  rw [hreceived, hsent]
  exact ⟨_, .didSend a.sent, ⟨id, sock, _, hstore, rfl⟩, ⟨hpending, hpos, hsize⟩,
    Conversation.step_didSend hdid⟩

/-- What a step does to a connection that is live after it: it is new, nothing
was done to it, or its handler was called. -/
theorem Moves.speaks {host : Host} {fits : Env → Prop} {a : Answers Env} {c next : Config H Env}
    (h : Moves a c next) (hbounded : BoundedIn fits c a)
    (horderly : Orderly (host.acceptors c.server.pluginLoader.plugins) c) {createdBy : Nat}
    {t : Conversation H} (hspeaks : Speaks createdBy next t) :
    (Creates c.server.pluginLoader host createdBy t.handler ∧ t.received = [] ∧ t.sent = []) ∨
    Speaks createdBy c t ∨
    ∃ before call, Speaks createdBy c before ∧ Polite fits before call ∧
      before.step call = .ok t := by
  obtain ⟨id, sock, handler, hstore, rfl⟩ := hspeaks
  obtain ⟨hsound, hfirst, -, hapart, hphase⟩ := horderly
  have hpolled (server : Server H Env) (reads writes : List Handle) :
      ∀ event ∈ polled server reads writes, ¬ event.On sock :=
    fun event hevent => (polls_polled server reads writes event hevent).not_on sock
  have htested (handles : List (Nat × Handle)) :
      ∀ event ∈ (tested handles : List (Event H Env)), ¬ event.On sock :=
    fun event hevent => (polls_tested handles event hevent).not_on sock
  cases h with
  | stop => exact Or.inr (Or.inl (Speaks.elsewhere hstore (hpolled _ _ _)))
  | poll =>
      rw [List.append_assoc]
      refine Or.inr (Or.inl (Speaks.elsewhere hstore ?_))
      exact List.forall_mem_append.mpr ⟨hpolled _ _ _, htested _⟩
  | readEnd => exact Or.inr (Or.inl (Speaks.elsewhere hstore (htested _)))
  | sendEnd => exact Or.inr (Or.inl ⟨id, sock, handler, hstore, rfl⟩)
  | stay => exact Or.inr (Or.inl ⟨id, sock, handler, hstore, rfl⟩)
  | @accept server trace writeSet visited todo listener pluginId plugin hacceptor hfind =>
      obtain ⟨rfl, heq⟩ | ⟨-, hold⟩ := Registry.of_update hstore
      · have hmem := hfirst.mem_of_store hsound.wellFormed hacceptor
        cases heq
        refine Or.inl ⟨Creates.of_acceptor hmem hfind a.env, ?_, ?_⟩
        · exact (receivedOn_append _ _ _).trans (if_pos rfl)
        · exact (onWire_append _ _ _).trans (if_pos rfl)
      · have hfresh := hbounded.1.allowed.accept ⟨_, _, _, _, _, rfl, hacceptor⟩ id _ hold
        refine Or.inr (Or.inl (Speaks.elsewhere hold ?_))
        intro event hevent
        rw [List.mem_singleton.mp hevent]
        exact fun hsame => hfresh hsame.symm
  | receive hconnection hbytes hne hdid =>
      obtain ⟨rfl, heq⟩ | ⟨hdiffer, hold⟩ := Registry.of_update hstore
      · cases heq
        exact Or.inr (Or.inr (speaks_receive hbounded hphase hconnection hbytes hne hdid _ _))
      · have hother := hapart.other hconnection hdiffer hold
        exact Or.inr (Or.inl (Speaks.elsewhere hold (by simpa [Event.On] using hother)))
  | readFailed =>
      obtain ⟨-, heq⟩ | ⟨-, hold⟩ := Registry.of_update hstore
      · cases heq
      · exact Or.inr (Or.inl (Speaks.elsewhere hold (by simp [Event.On])))
  | send hconnection hpos hdid =>
      obtain ⟨rfl, heq⟩ | ⟨hdiffer, hold⟩ := Registry.of_update hstore
      · cases heq
        exact Or.inr (Or.inr (speaks_send hbounded rfl hphase hconnection hpos hdid _))
      · have hother := hapart.other hconnection hdiffer hold
        exact Or.inr (Or.inl (Speaks.elsewhere hold (by simpa [Event.On] using hother)))
  | sendFailed _ hconnection _ _ hevents =>
      subst hevents
      obtain ⟨-, heq⟩ | ⟨hdiffer, hold⟩ := Registry.of_update hstore
      · cases heq
      · have hother := hapart.other hconnection hdiffer hold
        rw [List.append_assoc]
        exact Or.inr (Or.inl (Speaks.elsewhere hold (by simpa [Event.On] using hother)))

/-- Every connection of every run is in a state that its handler also reaches in
a conversation of its own. -/
theorem reachable_speaks {loader : PluginLoader H Env} {host : Host}
    (hhost : host.InSets loader.plugins) {fits : Env → Prop} {c : Config H Env}
    (h : (serverLoop loader host).Reachable (BoundedIn fits) c)
    {createdBy : Nat} {t : Conversation H} (hspeaks : Speaks createdBy c t) :
    (conversation (Creates loader host createdBy)).Reachable (Polite fits) t := by
  refine h.seen (Speaks createdBy) ?_ ?_ hspeaks
  · intro s t hstart hspeaks
    obtain ⟨id, sock, protoHandler, hstore, -⟩ := hspeaks
    exact absurd hstore (start_not_connection hstart)
  · intro s a next t hreached hbounded hstep hspeaks
    have horderly := reachable_orderly hhost (fun _ _ hbounded => hbounded.1) hreached
    obtain ⟨-, hloader⟩ := reachable_sound hreached
    rw [← hloader] at horderly ⊢
    exact (step_moves hstep).speaks hbounded horderly hspeaks

/-- What holds when a served plugin creates a handler, and is kept by each call
that a conversation may make, holds of every connection of that plugin in every
run: of its handler, with what was received and sent on its descriptor. -/
theorem connection_invariant (loader : PluginLoader H Env) (host : Host)
    (hhost : host.InSets loader.plugins) (fits : Env → Prop) (createdBy : Nat)
    (P : Conversation H → Prop)
    (hcreated : ∀ protoHandler, Creates loader host createdBy protoHandler →
      P ⟨protoHandler, [], []⟩)
    (hcall : ∀ t call next, P t → Polite fits t call → t.step call = .ok next → P next)
    (c : Config H Env) (h : (serverLoop loader host).Reachable (BoundedIn fits) c) (id : Nat)
    (sock : Handle) (protoHandler : H)
    (hstore : c.server.sessions.store id = some (.connection sock protoHandler createdBy)) :
    P ⟨protoHandler, receivedOn sock c.trace, onWire sock c.trace⟩ := by
  have hsolo := reachable_speaks hhost h ⟨id, sock, protoHandler, hstore, rfl⟩
  refine hsolo.invariant ?_ ?_
  · intro t hstart
    obtain ⟨handler, received, sent⟩ := t
    obtain ⟨hcreates, hreceived, hsent⟩ := hstart
    cases hreceived
    cases hsent
    exact hcreated handler hcreates
  · intro t call next _ hP hpolite hstep
    exact hcall t call next hP hpolite hstep

/-- In conversations of its own no call makes the handler fault. -/
def Serves (fits : Env → Prop) (first : H → Prop) : Prop :=
  ∀ t, (conversation first).Reachable (Polite fits) t → ∀ call, Polite fits t call →
    ∃ next, t.step call = .ok next

/-- Where the handlers of each plugin keep to the contract by themselves, the
loop with all of them never gets stuck. -/
theorem loop_proceeds {loader : PluginLoader H Env} {host : Host}
    (hhost : host.InSets loader.plugins) {fits : Env → Prop}
    (hserves : ∀ createdBy, Serves fits (Creates loader host createdBy)) {c : Config H Env}
    (h : (serverLoop loader host).Reachable (BoundedIn fits) c) {a : Answers Env}
    (hbounded : BoundedIn fits c a) : ∃ next, c.step a = .ok next := by
  have horderly := reachable_orderly hhost (fun _ _ hbounded => hbounded.1) h
  have hcall {id : Nat} {sock : Handle} {protoHandler : H} {createdBy : Nat} {call : Call Env}
      (hstore : c.server.sessions.store id = some (.connection sock protoHandler createdBy))
      (hpolite : Polite fits ⟨protoHandler, receivedOn sock c.trace, onWire sock c.trace⟩ call) :=
    hserves createdBy _ (reachable_speaks hhost h ⟨id, sock, protoHandler, hstore, rfl⟩) call
      hpolite
  obtain ⟨⟨hallowed, -⟩, hfits⟩ := hbounded
  obtain hnext | ⟨fault, -, hfaults⟩ := horderly.proceeds a
  · exact hnext
  · exfalso
    have hphase := horderly.phase
    obtain ⟨server, phase, trace⟩ := c
    obtain ⟨writeSet, id, todo, sock, protoHandler, createdBy, bytes, hreading, hstore, hreceived,
      hne, hdid⟩ | ⟨id, todo, sock, protoHandler, createdBy, hsending, hstore, hpos, hdid⟩ :=
        hfaults
    · cases hreading
      obtain ⟨session, hsession, hidle⟩ := hphase.2.1 id List.mem_cons_self
      cases hstore.symm.trans hsession
      obtain ⟨next, hnext⟩ := @hcall id sock protoHandler createdBy (.didReceive a.env bytes) hstore
        ⟨hidle, hne, hallowed.recv bytes hreceived, hfits⟩
      obtain ⟨handler, hok, -⟩ := bind_eq_ok.mp hnext
      cases hdid.symm.trans hok
    · cases hsending
      obtain ⟨session, hsession, hpending⟩ := hphase.2 id List.mem_cons_self
      cases hstore.symm.trans hsession
      obtain ⟨next, hnext⟩ := @hcall id sock protoHandler createdBy (.didSend a.sent) hstore
        ⟨hpending, hpos, hallowed.send id todo sock protoHandler createdBy rfl hstore⟩
      obtain ⟨handler, hok, -⟩ := bind_eq_ok.mp hnext
      cases hdid.symm.trans hok

end Steps

/-! The HTTP plugin keeps to the contract. -/

section Http

open Http

/-- `DidSend` of a positive size keeps the request and does not fault. -/
theorem didSend_of_pos (handler : HttpHandler) {size : Int} (hpos : 0 < size) :
    ∃ response, handler.didSend size = .ok { handler with response := response } := by
  rw [HttpHandler.didSend, if_neg (by omega)]
  split
  · exact ⟨_, rfl⟩
  · exact ⟨_, rfl⟩

/-- A handler without a request takes every call of a conversation, and has none
afterwards. -/
theorem http_call {fits : Surroundings → Prop} {t : Conversation HttpHandler}
    (hrequest : t.handler.request = none) {call : Call Surroundings}
    (hpolite : Polite fits t call) :
    ∃ next, t.step call = .ok next ∧ next.handler.request = none := by
  obtain ⟨⟨request, response⟩, received, sent⟩ := t
  cases hrequest
  cases call with
  | didReceive env bytes =>
      obtain ⟨-, hne, hsize, -⟩ := hpolite
      exact ⟨_, Conversation.step_didReceive (didReceive_fresh env response hne hsize), rfl⟩
  | didSend size =>
      obtain ⟨rest, hrest⟩ := didSend_of_pos ⟨none, response⟩ hpolite.2.1
      exact ⟨_, Conversation.step_didSend hrest, rfl⟩

theorem Creates.eq_new {loader : PluginLoader HttpHandler Surroundings} (hhttp : ServesHttp loader)
    {host : Host} {createdBy : Nat} {handler : HttpHandler}
    (h : Creates loader host createdBy handler) : handler = .new := by
  obtain ⟨plugin, env, hfind, -, rfl⟩ := h
  exact hhttp plugin (PluginLoader.present_of_find hfind).1 env

theorem serves_http {loader : PluginLoader HttpHandler Surroundings} (hhttp : ServesHttp loader)
    (host : Host) (fits : Surroundings → Prop) (createdBy : Nat) :
    Serves fits (Creates loader host createdBy) := by
  intro t hreached call hpolite
  have hrequest : t.handler.request = none := by
    apply hreached.invariant (P := fun t => t.handler.request = none)
    · intro s hstart
      rw [hstart.1.eq_new hhttp]
      rfl
    · intro s request next _ hnone hpolite hstep
      obtain ⟨next', hnext', hrequest⟩ := http_call hnone hpolite
      cases hnext'.symm.trans hstep
      exact hrequest
  obtain ⟨next, hnext, -⟩ := http_call hrequest hpolite
  exact ⟨next, hnext⟩

/-! A run in which a second client is accepted while the first one's response
is pending, of which ten bytes are then sent. -/

/-- The listener is readable, the first client writable, and `send` takes ten
bytes. -/
def serving : Answers Surroundings :=
  { failing with
    selectRc := 2
    readSet := .filled [3]
    writeSet := .filled [5]
    accepted := 6
    sent := 10 }

/-- The second client is about to be accepted. -/
def acceptingSecond : Config HttpHandler Surroundings where
  server := (pendingFirst .top).server
  phase := .reading (.filled [5]) [0]
  trace := (pendingFirst .top).trace ++ [.fdSet 3, .fdSet 5, .select 6, .fdIsSet 3, .fdIsSet 5]

def acceptedSecond : Config HttpHandler Surroundings where
  server := acceptingSecond.server.addSession (.connection 6 .new 0)
  phase := .reading (.filled [5]) []
  trace := acceptingSecond.trace ++ [.accepted 6 2]

/-- The first client is about to be written to. -/
def writing : Config HttpHandler Surroundings where
  server := acceptedSecond.server
  phase := .sending [1]
  trace := acceptedSecond.trace ++ [.fdIsSet 3, .fdIsSet 5, .fdIsSet 6]

def written (phase : Phase) : Config HttpHandler Surroundings where
  server := writing.server.setHandler 1 5 ⟨none, ⟨(responseTo failing.env.page).drop 10⟩⟩ 0
  phase := phase
  trace := writing.trace ++ [.send 5 (intOfSize (responseTo failing.env.page).length)
    ((responseTo failing.env.page).take 10)]

theorem step_writing : writing.step serving = .ok (written (.sending [])) :=
  @step_send _ _ _ serving writing.server writing.trace 1 [] 5 ⟨none, ⟨responseTo failing.env.page⟩⟩
    _ 0 _ rfl rfl (by decide) (didSend_drop _ (by decide : 0 < 10) (by decide))

theorem tame_serving {c : Config HttpHandler Surroundings}
    (hselect : ∀ reads writes, c.phase = .top → c.server.fillReadyRead = .ok reads →
      c.server.fillReadyWrite = .ok writes → reads = [3] ∧ writes = [5])
    (haccept : Accepting c → c.server.Fresh 6)
    (hsend : ∀ id todo sock handler createdBy, c.phase = .sending (id :: todo) →
      c.server.sessions.store id = some (.connection sock handler createdBy) →
      handler.response.data = responseTo failing.env.page) : Tame c serving := by
  refine ⟨⟨⟨?_, haccept, ?_, ?_⟩, fun _ => by decide⟩, rfl⟩
  · intro reads writes htop hread hwrite _
    obtain ⟨rfl, rfl⟩ := hselect reads writes htop hread hwrite
    exact ⟨FdSet.subset_rfl, FdSet.subset_rfl⟩
  · intro bytes hbytes
    cases hbytes
  · intro id todo sock handler createdBy hphase hstore
    change (10 : Int) ≤ handler.response.data.length
    rw [hsend id todo sock handler createdBy hphase hstore]
    exact ten_le_response

theorem run_serving : (serverLoop httpLoader loopback).Run (pendingFirst .top)
    [(pendingFirst .top, serving), (acceptingSecond, serving), (acceptedSecond, serving),
      (writing, serving), (written (.sending []), serving)] (written .top) :=
  .cons _ rfl (.cons _ rfl (.cons _ rfl (.cons _ step_writing (.cons _ rfl .nil))))

/-- The promises are kept on that run. -/
theorem tame_run_serving : ∀ step ∈ [(pendingFirst .top, serving), (acceptingSecond, serving),
    (acceptedSecond, serving), (writing, serving), (written (.sending []), serving)],
    Tame step.1 step.2 := by
  have hidle (c : Config HttpHandler Surroundings)
      (h : ∀ writeSet id todo, c.phase ≠ .reading writeSet (id :: todo)) :
      Accepting c → c.server.Fresh 6 :=
    fun haccepting => absurd haccepting (not_accepting_of_phase h)
  have hpoll : Tame (pendingFirst .top) serving := by
    refine tame_serving ?_ (hidle _ (by simp [pendingFirst])) (by simp [pendingFirst])
    intro reads writes _ hread hwrite
    have hreads : (pendingFirst .top).server.fillReadyRead = .ok [3] := rfl
    have hwrites : (pendingFirst .top).server.fillReadyWrite = .ok [5] := rfl
    cases hreads.symm.trans hread
    cases hwrites.symm.trans hwrite
    exact ⟨rfl, rfl⟩
  have haccept : Tame acceptingSecond serving := by
    refine tame_serving (by simp [acceptingSecond]) ?_ (by simp [acceptingSecond])
    exact fun _ => @fresh_pendingFirst .top 6 (by decide) (by decide)
  have hread : Tame acceptedSecond serving :=
    tame_serving (by simp [acceptedSecond]) (hidle _ (by simp [acceptedSecond]))
      (by simp [acceptedSecond])
  have hsend : Tame writing serving := by
    apply tame_serving (by simp [writing]) (hidle _ (by simp [writing]))
    intro id todo sock handler createdBy hphase hstore
    cases hphase
    cases hstore
    rfl
  have hend : Tame (written (.sending [])) serving :=
    tame_serving (by simp [written]) (hidle _ (by simp [written])) (by simp [written])
  simpa using ⟨hpoll, haccept, hread, hsend, hend⟩

/-- The handler of the first client was given its request, and its response was
sent in part. -/
theorem connection_invariant_written :
    loopback.InSets httpLoader.plugins ∧
      (serverLoop httpLoader loopback).Reachable (BoundedIn fun _ => True) (written .top) ∧
      onWire 5 (written .top).trace = (responseTo failing.env.page).take 10 ∧
      receivedOn 5 (written .top).trace ≠ [] := by
  have hreached :
      (serverLoop httpLoader loopback).Reachable (BoundedIn fun _ => True) (written .top) :=
    (reachable_pendingFirst.run run_serving tame_run_serving).mono
      (fun _ _ htame => ⟨htame.1, trivial⟩)
  have hwire : onWire 5 (written .top).trace = (responseTo failing.env.page).take 10 := rfl
  refine ⟨inSets_loopback, hreached, hwire, ?_⟩
  intro hnothing
  have hquiet := connection_invariant httpLoader loopback inSets_loopback (fun _ => True) 0
    (fun t => t.received = [] → t.sent = [] ∧ t.handler.response.data = []) ?_ ?_ (written .top)
    hreached 1 5 _ rfl hnothing
  · obtain hnone | hnone := List.take_eq_nil_iff.mp (hwire.symm.trans hquiet.1)
    · cases hnone
    · exact responseTo_ne_nil _ hnone
  · intro handler hcreates _
    rw [hcreates.eq_new servesHttp_httpLoader]
    exact ⟨rfl, rfl⟩
  · intro t call next hbefore hpolite hstep hreceived
    cases call with
    | didReceive env bytes =>
        obtain ⟨handler, -, hnext⟩ := bind_eq_ok.mp hstep
        cases hnext
        exact absurd (List.append_eq_nil_iff.mp hreceived).2 hpolite.2.1
    | didSend size =>
        obtain ⟨handler, -, hnext⟩ := bind_eq_ok.mp hstep
        cases hnext
        obtain ⟨hpending, -⟩ := hpolite
        have hnone : (!t.handler.response.data.isEmpty) = true := hpending
        rw [(hbefore hreceived).2] at hnone
        cases hnone

end Http

end ModServer
