import ModServer.Library.Machine
import ModServer.Server.Core

/-!
Starting the server: `Server::InitPlugins` and the state in which the loop of
`Server::Run` begins, with `server_core/ip_endpoint.cpp`.
-/

namespace ModServer

open Library

variable {H Env : Type}

structure IPEndPoint where
  ip : Bytes
  port : UInt16
  deriving DecidableEq, Repr

namespace IPEndPoint

/-- The constructor from a string, whose length it asserts to fit `m_ip`. -/
def ofString (ip : Bytes) (port : UInt16) : Except Fault IPEndPoint :=
  if 0 < ip.length ∧ ip.length < 20 - 1 then .ok ⟨ip, port⟩ else .error .assertion

def setPort (ep : IPEndPoint) (port : UInt16) : IPEndPoint := { ep with port := port }

/-- `IsValid`, where `inetAddr` is `inet_addr` and its greatest value is
`INADDR_NONE`. -/
def isValid (inetAddr : Bytes → UInt32) (ep : IPEndPoint) : Bool :=
  if inetAddr ep.ip = 0xFFFFFFFF then false
  else if ep.port = 0 then false
  else true

end IPEndPoint

/-- What `InitPlugins` finds outside: the `serverIp` switch, `inet_addr`, and
what `socket`, `bind` and `listen` return for the listener of a plugin. -/
structure Host where
  serverIp : Bytes
  inetAddr : Bytes → UInt32
  socket : Nat → Handle
  bind : Nat → IPEndPoint → Int
  listen : Nat → Int → Int

/-- `m_maxListen`. -/
def maxListen : Int := fdSetSize - 2

/-- The body of the loop of `InitPlugins`. -/
def Server.initPlugin (host : Host) (server : Server H Env) (plugin : ServerPlugin H Env) :
    Except Fault (Server H Env) := do
  let ep ← IPEndPoint.ofString host.serverIp 0
  let ep := ep.setPort plugin.port
  if !ep.isValid host.inetAddr then .ok server
  else
    match plugin.sockType with
    | .tcp =>
        if host.socket plugin.id = invalidSocket then .ok server
        else if host.bind plugin.id ep ≠ 0 then .ok server
        else if host.listen plugin.id maxListen ≠ 0 then .ok server
        else .ok (server.addSession (.acceptor (host.socket plugin.id) plugin.id))
    | .other => .ok server

def Server.initPlugins (host : Host) (server : Server H Env) : Except Fault (Server H Env) :=
  server.pluginLoader.plugins.foldlM (Server.initPlugin host) server

/-- A server that has loaded plugins and registered no session. -/
def Server.withPlugins (loader : PluginLoader H Env) : Server H Env :=
  { (Server.new : Server H Env) with pluginLoader := loader }

/-- The loop of `Run` on a server that had these plugins loaded. `Run` returns
at once when no session was registered. -/
def serverLoop [ProtocolHandler H Env] (loader : PluginLoader H Env) (host : Host) :
    Machine (Config H Env) (Answers Env) Fault where
  start c := ∃ server, Server.initPlugins host (Server.withPlugins loader) = .ok server ∧
    server.sessions.keys ≠ [] ∧ c = ⟨server, .top, []⟩
  step := Config.step

/-- A plugin that the server serves: its end point is valid, its type is TCP,
and opening, binding and listening succeed. -/
def Host.Serves (host : Host) (plugin : ServerPlugin H Env) : Prop :=
  IPEndPoint.isValid host.inetAddr ⟨host.serverIp, plugin.port⟩ = true ∧
    plugin.sockType = .tcp ∧ host.socket plugin.id ≠ invalidSocket ∧
    host.bind plugin.id ⟨host.serverIp, plugin.port⟩ = 0 ∧ host.listen plugin.id maxListen = 0

instance (host : Host) (plugin : ServerPlugin H Env) : Decidable (host.Serves plugin) :=
  inferInstanceAs (Decidable (_ ∧ _))

/-- The acceptor of each plugin that is served, in plugin order. -/
def Host.acceptors (host : Host) (plugins : List (ServerPlugin H Env)) : List (Session H) :=
  (plugins.filter (fun plugin => host.Serves plugin)).map
    (fun plugin => .acceptor (host.socket plugin.id) plugin.id)

@[simp] theorem Server.addSession_sessions (server : Server H Env) (session : Session H) :
    (server.addSession session).sessions = server.sessions.add session := rfl

@[simp] theorem Server.addSession_pluginLoader (server : Server H Env) (session : Session H) :
    (server.addSession session).pluginLoader = server.pluginLoader := rfl

/-- A step of `InitPlugins` registers the plugin's acceptor or does nothing. -/
theorem Server.initPlugin_eq {host : Host} {server next : Server H Env}
    {plugin : ServerPlugin H Env} (h : server.initPlugin host plugin = .ok next) :
    next = if host.Serves plugin then
        server.addSession (.acceptor (host.socket plugin.id) plugin.id)
      else server := by
  unfold Server.initPlugin IPEndPoint.ofString at h
  split at h
  · simp only [bind, Except.bind] at h
    split at h
    · rename_i hvalid
      cases h
      have hnot : ¬ host.Serves plugin := by
        rintro ⟨hep, -⟩
        simp [IPEndPoint.setPort, hep] at hvalid
      rw [if_neg hnot]
    · rename_i hvalid
      split at h
      · rename_i htype
        split at h
        · rename_i hopen
          cases h
          exact (if_neg fun hserves => hserves.2.2.1 hopen).symm
        · rename_i hopen
          split at h
          · rename_i hbind
            cases h
            exact (if_neg fun hserves => hbind hserves.2.2.2.1).symm
          · rename_i hbind
            split at h
            · rename_i hlisten
              cases h
              exact (if_neg fun hserves => hlisten hserves.2.2.2.2).symm
            · rename_i hlisten
              cases h
              simp only [Bool.not_eq_true', Bool.not_eq_false, ne_eq, not_not]
                at hvalid hbind hlisten
              exact (if_pos ⟨hvalid, htype, hopen, hbind, hlisten⟩).symm
      · rename_i htype
        cases h
        have hnot : ¬ host.Serves plugin := by
          rintro ⟨-, htcp, -⟩
          rw [htype] at htcp
          cases htcp
        rw [if_neg hnot]
  · cases h

/-- The registered sessions are these, in this order, under the first keys. -/
structure Initial (acceptors : List (Session H)) (sessions : Registry (Session H)) : Prop where
  keys : sessions.keys = List.range acceptors.length
  next : sessions.next = acceptors.length
  store : ∀ id, sessions.store id = acceptors[id]?

theorem Initial.add {acceptors : List (Session H)} {sessions : Registry (Session H)}
    (h : Initial acceptors sessions) (session : Session H) :
    Initial (acceptors ++ [session]) (sessions.add session) := by
  constructor
  · rw [Registry.add_keys, h.keys, h.next, List.length_append, List.length_singleton,
      List.range_succ]
  · rw [Registry.add_next, h.next, List.length_append, List.length_singleton]
  · intro id
    rw [Registry.add_store, h.next]
    rcases eq_or_ne id acceptors.length with rfl | hne
    · simp
    · rw [Function.update_of_ne hne, h.store]
      rcases Nat.lt_or_ge id acceptors.length with hlt | hge
      · rw [List.getElem?_append_left hlt]
      · rw [List.getElem?_eq_none hge, List.getElem?_eq_none]
        simp
        omega

theorem Server.initPlugins_fold {host : Host} {plugins : List (ServerPlugin H Env)}
    {server last : Server H Env} {acceptors : List (Session H)}
    (hinitial : Initial acceptors server.sessions)
    (h : plugins.foldlM (Server.initPlugin host) server = .ok last) :
    Initial (acceptors ++ host.acceptors plugins) last.sessions ∧
      last.pluginLoader = server.pluginLoader := by
  induction plugins generalizing server acceptors with
  | nil =>
      cases h
      constructor
      · simpa [Host.acceptors] using hinitial
      · rfl
  | cons plugin plugins ih =>
      rw [List.foldlM_cons] at h
      cases hnext : server.initPlugin host plugin with
      | error fault =>
          rw [hnext] at h
          cases h
      | ok next =>
          rw [hnext] at h
          have hplugin := Server.initPlugin_eq hnext
          split at hplugin
          · rename_i hserves
            subst hplugin
            have hrest := ih (hinitial.add _) h
            simpa [Host.acceptors, hserves] using hrest
          · rename_i hserves
            subst hplugin
            have hrest := ih hinitial h
            simpa [Host.acceptors, hserves] using hrest

theorem Server.initPlugins_initial {host : Host} {loader : PluginLoader H Env}
    {server : Server H Env}
    (h : Server.initPlugins host (Server.withPlugins loader) = .ok server) :
    Initial (host.acceptors loader.plugins) server.sessions ∧
      server.pluginLoader = loader := by
  have hempty : Initial [] (Registry.empty : Registry (Session H)) := by
    constructor
    · rfl
    · rfl
    · intro id
      rfl
  exact @Server.initPlugins_fold H Env host _ (Server.withPlugins loader) _ _ hempty h

end ModServer
