import ModServer.Server.Removal

/-!
The life of a server: plugins are loaded, listeners opened, the loop takes its
steps, and all plugins are unloaded, in any order. `UnloadAllPlugins` deletes
the plugins and leaves the sessions that refer to them.
-/

namespace ModServer

open Library ProtocolHandler

variable {H Env : Type}

/-- `Server::LoadPlugins`. It does not load again. -/
def Server.loadPlugins (platform : Platform H Env) (server : Server H Env)
    (pluginsFolder : Bytes) : Server H Env :=
  if server.pluginLoader.hasLoadedPlugins then server
  else { server with pluginLoader := server.pluginLoader.loadAll platform pluginsFolder }

/-- `Server::UnloadAllPlugins`. -/
def Server.unloadAllPlugins (server : Server H Env) : Server H Env :=
  { server with pluginLoader := server.pluginLoader.unloadAll }

/-- What can be done with a server. `initPlugins` is the beginning of `Run`,
and each `iterate` a step of its loop. -/
inductive Command (H Env : Type) where
  | loadPlugins (platform : Platform H Env) (pluginsFolder : Bytes)
  | initPlugins (host : Host)
  | iterate (a : Answers Env)
  | unloadAllPlugins

/-- A server that `Run` has not been called on. -/
def Config.new : Config H Env where
  server := .new
  phase := .returned
  trace := []

/-- The plugins that sessions refer to exist, and the next step uses no plugin
that was deleted. -/
structure PluginsOutlive [ProtocolHandler H Env] (c : Config H Env) : Prop where
  present : ∀ id ∈ c.server.sessions.keys, ∃ session,
    c.server.sessions.store id = some session ∧
      c.server.pluginLoader.Present session.plugin
  usable : ∀ a, c.step a ≠ .error .deadPlugin

def Config.command [ProtocolHandler H Env] (c : Config H Env) :
    Command H Env → Except Fault (Config H Env)
  | .loadPlugins platform pluginsFolder =>
      .ok { c with server := c.server.loadPlugins platform pluginsFolder }
  | .initPlugins host => do
      let server ← c.server.initPlugins host
      .ok { c with
        server
        phase := if server.sessions.keys = [] then .returned else .top }
  | .iterate a => c.step a
  | .unloadAllPlugins => .ok { c with server := c.server.unloadAllPlugins }

def serverLife [ProtocolHandler H Env] : Machine (Config H Env) (Command H Env) Fault where
  start c := c = .new
  step := Config.command

/-! Loading keeps the plugins that are there. -/

theorem PluginLoader.Present.addPlugin {loader : PluginLoader H Env} {id : Nat}
    (h : loader.Present id) (lib : DynamicLib H Env) : (loader.addPlugin lib).Present id := by
  obtain ⟨plugin, hmem, hid⟩ := h
  exact ⟨plugin, List.mem_append_left _ hmem, hid⟩

theorem PluginLoader.Present.tryFile {loader : PluginLoader H Env} {id : Nat}
    (h : loader.Present id) (platform : Platform H Env) (file : Bytes) :
    (loader.tryFile platform file).Present id := by
  unfold PluginLoader.tryFile
  cases platform.dlopen file with
  | none => exact h
  | some lib =>
      simp only
      split
      · exact h.addPlugin lib
      · exact h

theorem PluginLoader.Present.searchFolder {loader : PluginLoader H Env} {id : Nat}
    (h : loader.Present id) (platform : Platform H Env) (folder : Bytes) :
    (loader.searchFolder platform folder).Present id := by
  unfold PluginLoader.searchFolder
  induction platform.getFilesWildcard wildcard folder [] generalizing loader with
  | nil => exact h
  | cons file files ih => exact ih (h.tryFile platform file)

theorem PluginLoader.Present.loadAll {loader : PluginLoader H Env} {id : Nat}
    (h : loader.Present id) (platform : Platform H Env) (pluginsFolder : Bytes) :
    (loader.loadAll platform pluginsFolder).Present id := by
  unfold PluginLoader.loadAll
  simp only
  induction platform.getAllSubfolders pluginsFolder [] ++ [pluginsFolder] generalizing loader with
  | nil => exact h
  | cons folder folders ih => exact ih (h.searchFolder platform folder)

theorem Server.Sound.loadPlugins {server : Server H Env} (h : server.Sound)
    (platform : Platform H Env) (pluginsFolder : Bytes) :
    (server.loadPlugins platform pluginsFolder).Sound := by
  unfold Server.loadPlugins
  split
  · exact h
  · constructor
    · exact h.wellFormed
    · intro id session hstore
      exact (h.present id session hstore).loadAll platform pluginsFolder

/-! `InitPlugins` registers acceptors of the plugins it goes through. -/

theorem Server.initPlugins_induction {host : Host} {P : Server H Env → Prop}
    {plugins : List (ServerPlugin H Env)} {server last : Server H Env}
    (hkeep : ∀ server, P server → ∀ plugin ∈ plugins,
      P (server.addSession (.acceptor (host.socket plugin.id) plugin.id)))
    (hP : P server) (h : plugins.foldlM (Server.initPlugin host) server = .ok last) : P last := by
  induction plugins generalizing server with
  | nil =>
      cases h
      exact hP
  | cons plugin plugins ih =>
      rw [List.foldlM_cons] at h
      obtain ⟨next, hnext, hrest⟩ := bind_eq_ok.mp h
      refine ih (fun server hserver other hother =>
        hkeep server hserver other (List.mem_cons_of_mem _ hother)) ?_ hrest
      rw [Server.initPlugin_eq hnext]
      split
      · exact hkeep server hP plugin List.mem_cons_self
      · exact hP

theorem Server.Sound.initPlugins {host : Host} {server last : Server H Env} (h : server.Sound)
    (hinit : server.initPlugins host = .ok last) : last.Sound := by
  have hall : last.Sound ∧ last.pluginLoader = server.pluginLoader := by
    refine Server.initPlugins_induction (P := fun current => current.Sound ∧
      current.pluginLoader = server.pluginLoader) ?_ ⟨h, rfl⟩ hinit
    rintro current ⟨hsound, hloader⟩ plugin hplugin
    refine ⟨hsound.addSession ?_, hloader⟩
    rw [hloader]
    exact ⟨plugin, hplugin, rfl⟩
  exact hall.1

theorem Server.initPlugins_wellFormed {host : Host} {server last : Server H Env}
    (h : server.sessions.WellFormed) (hinit : server.initPlugins host = .ok last) :
    last.sessions.WellFormed := by
  refine Server.initPlugins_induction (P := fun server => server.sessions.WellFormed) ?_ h hinit
  intro current hcurrent plugin _
  exact hcurrent.add _

variable [ProtocolHandler H Env]

theorem Moves.wellFormed {a : Answers Env} {c next : Config H Env} (h : Moves a c next)
    (hwellFormed : c.server.sessions.WellFormed) : next.server.sessions.WellFormed := by
  obtain heq | ⟨-, pluginId, plugin, -, heq⟩ | ⟨id, sock, protoHandler, protoHandler',
    createdBy, hstore, heq⟩ | ⟨id, sock, protoHandler, createdBy, hstore, heq⟩ := h.server_cases
  · rw [heq]
    exact hwellFormed
  · rw [heq]
    exact hwellFormed.add _
  · rw [heq]
    exact hwellFormed.set (hwellFormed.mem_of_store hstore) _
  · rw [heq]
    exact hwellFormed.drop id

theorem Proceeds.ne_deadPlugin {c : Config H Env} {a : Answers Env} (h : Proceeds c a) :
    c.step a ≠ .error .deadPlugin := by
  obtain ⟨next, hnext⟩ | ⟨fault, hfault, -⟩ := h
  · rw [hnext]
    simp
  · rw [hfault]
    simp

theorem Server.Sound.ne_deadPlugin {c : Config H Env} (h : c.server.Sound) (a : Answers Env) :
    c.step a ≠ .error .deadPlugin := by
  obtain ⟨server, phase, trace⟩ := c
  cases phase with
  | top => exact (proceeds_top h trace a).ne_deadPlugin
  | reading writeSet todo =>
      cases todo with
      | nil =>
          obtain ⟨handles, hhandles⟩ := exists_handles h
          exact Proceeds.ne_deadPlugin (Or.inl ⟨_, bind_eq_ok.mpr ⟨handles, hhandles, rfl⟩⟩)
      | cons id todo =>
          cases hstore : server.sessions.store id with
          | none => simp [Config.step, Server.onRead, Server.deref, hstore, bind, Except.bind]
          | some session => exact (proceeds_reading h hstore writeSet todo trace a).ne_deadPlugin
  | sending todo =>
      cases todo with
      | nil => exact Proceeds.ne_deadPlugin (Or.inl ⟨_, rfl⟩)
      | cons id todo =>
          cases hstore : server.sessions.store id with
          | none => simp [Config.step, Server.onWrite, Server.deref, hstore, bind, Except.bind]
          | some session =>
              cases session with
              | acceptor sock pluginId =>
                  -- closing an acceptor goes wrong before any plugin is used
                  have hmem := h.wellFormed.mem_of_store hstore
                  simp [Config.step, Server.onWrite, Server.closeSession, Server.deref,
                    Server.removeFromVector, Server.deleteSession, Registry.unregister, hstore,
                    hmem, bind, Except.bind]
              | connection sock protoHandler createdBy =>
                  exact (proceeds_sending h hstore todo trace a).ne_deadPlugin
  | returned => exact Proceeds.ne_deadPlugin (Or.inl ⟨_, rfl⟩)

theorem PluginsOutlive.sound {c : Config H Env} (h : PluginsOutlive c)
    (hwellFormed : c.server.sessions.WellFormed) : c.server.Sound := by
  refine ⟨hwellFormed, ?_⟩
  intro id session hstore
  obtain ⟨found, hfound, hpresent⟩ := h.present id (hwellFormed.mem_of_store hstore)
  cases hstore.symm.trans hfound
  exact hpresent

theorem Server.Sound.pluginsOutlive {c : Config H Env} (h : c.server.Sound) :
    PluginsOutlive c := by
  constructor
  · intro id hid
    obtain ⟨session, hstore⟩ := (h.wellFormed.live id).mp hid
    exact ⟨session, hstore, h.present id session hstore⟩
  · exact h.ne_deadPlugin

theorem command_wellFormed {c next : Config H Env} {command : Command H Env}
    (hwellFormed : c.server.sessions.WellFormed) (h : c.command command = .ok next) :
    next.server.sessions.WellFormed := by
  cases command with
  | loadPlugins platform pluginsFolder =>
      cases h
      unfold Server.loadPlugins
      split
      · exact hwellFormed
      · exact hwellFormed
  | initPlugins host =>
      obtain ⟨server, hinit, h⟩ := bind_eq_ok.mp h
      cases h
      exact Server.initPlugins_wellFormed hwellFormed hinit
  | iterate a => exact (step_moves h).wellFormed hwellFormed
  | unloadAllPlugins =>
      cases h
      exact hwellFormed

/-- Plugins are unloaded only while no session is registered. -/
def UnloadsIdle (c : Config H Env) (command : Command H Env) : Prop :=
  command = .unloadAllPlugins → c.server.sessions.keys = []

theorem command_keeps {c next : Config H Env} {command : Command H Env}
    (hsound : c.server.Sound) (hidle : UnloadsIdle c command)
    (h : c.command command = .ok next) : next.server.Sound := by
  cases command with
  | loadPlugins platform pluginsFolder =>
      cases h
      exact hsound.loadPlugins platform pluginsFolder
  | initPlugins host =>
      obtain ⟨server, hinit, h⟩ := bind_eq_ok.mp h
      cases h
      exact hsound.initPlugins hinit
  | iterate a => exact (step_moves h).sound hsound
  | unloadAllPlugins =>
      cases h
      refine ⟨hsound.wellFormed, ?_⟩
      intro id session hstore
      have hid : id ∈ c.server.sessions.keys := hsound.wellFormed.mem_of_store hstore
      rw [hidle rfl] at hid
      cases hid

/-- Unloading breaks the property as soon as one session is registered. -/
theorem command_breaks {c next : Config H Env} {command : Command H Env}
    (hbusy : ¬ UnloadsIdle c command) (h : c.command command = .ok next) :
    ¬ PluginsOutlive next := by
  obtain ⟨hunload, hkeys⟩ := Classical.not_imp.mp hbusy
  subst hunload
  cases h
  intro houtlive
  obtain ⟨id, hid⟩ := List.exists_mem_of_ne_nil _ hkeys
  obtain ⟨session, -, hpresent⟩ := houtlive.present id hid
  exact PluginLoader.not_present_unloadAll _ _ hpresent

theorem pluginsOutlive_iff (steps : List (Config H Env × Command H Env)) (last : Config H Env)
    (hrun : serverLife.Run .new steps last) :
    ((∀ step ∈ steps, PluginsOutlive step.1) ∧ PluginsOutlive last) ↔
      ∀ step ∈ steps, UnloadsIdle step.1 step.2 := by
  refine Machine.Run.all_iff (Q := fun c => c.server.sessions.WellFormed)
    ?_ ?_ ?_ hrun Registry.empty_wellFormed ?_
  · intro c command next hwellFormed hstep
    exact command_wellFormed hwellFormed hstep
  · intro c command next hwellFormed houtlive hidle hstep
    exact (command_keeps (houtlive.sound hwellFormed) hidle hstep).pluginsOutlive
  · intro c command next _ hbusy hstep
    exact command_breaks hbusy hstep
  · have hnew : (Config.new : Config H Env).server.Sound := by
      refine ⟨Registry.empty_wellFormed, ?_⟩
      intro id session hstore
      cases hstore
    exact hnew.pluginsOutlive

/-- A folder that holds the HTTP plugin. -/
def Http.pluginsFolder : Platform Http.HttpHandler Http.Surroundings where
  opendir folder :=
    if folder = ascii "." then some [⟨ascii "http_plugin.so", some .other⟩] else none
  fnmatch _ name := name = ascii "http_plugin.so"
  dlopen file := if file = ascii "./http_plugin.so" then some Http.httpLib else none

/-- The HTTP plugin is loaded, served and unloaded, and a client connects. Its
acceptor calls into the plugin that was deleted. -/
theorem not_pluginsOutlive_unloaded :
    ∃ steps last, (serverLife : Machine (Config Http.HttpHandler Http.Surroundings) _ _).Run
      .new steps last ∧ ¬ PluginsOutlive last := by
  refine ⟨_, _, .cons (.loadPlugins Http.pluginsFolder (ascii ".")) rfl
    (.cons (.initPlugins Http.loopback) rfl (.cons .unloadAllPlugins rfl
      (.cons (.iterate (Http.arriving 5)) rfl .nil))), ?_⟩
  intro houtlive
  exact houtlive.usable (Http.arriving 5) rfl

/-- The first client is accepted after the plugin was loaded, unloaded and loaded
again. -/
def Http.reloaded : Config Http.HttpHandler Http.Surroundings where
  server :=
    { pluginLoader := (PluginLoader.new.addPlugin Http.httpLib).unloadAll.addPlugin Http.httpLib
      sessions := (Registry.empty.add (.acceptor 3 1)).add (.connection 5 .new 1)
      maxFd := 6 }
  phase := .reading .zero []
  trace := (Http.connected 5).trace

/-- No session is registered where the plugin is unloaded. -/
theorem pluginsOutlive_reloaded :
    ∃ steps, (serverLife : Machine (Config Http.HttpHandler Http.Surroundings) _ _).Run
        .new steps Http.reloaded ∧
      (∃ step ∈ steps, step.2 = .unloadAllPlugins) ∧ PluginsOutlive Http.reloaded := by
  have hrun : (serverLife : Machine (Config Http.HttpHandler Http.Surroundings) _ _).Run
      .new _ Http.reloaded :=
    .cons (.loadPlugins Http.pluginsFolder (ascii ".")) rfl (.cons .unloadAllPlugins rfl
      (.cons (.loadPlugins Http.pluginsFolder (ascii ".")) rfl
        (.cons (.initPlugins Http.loopback) rfl (.cons (.iterate (Http.arriving 5)) rfl
          (.cons (.iterate (Http.arriving 5)) rfl .nil)))))
  refine ⟨_, hrun, ⟨_, List.mem_cons_of_mem _ List.mem_cons_self, rfl⟩,
    ((pluginsOutlive_iff _ _ hrun).mpr ?_).2⟩
  intro step hstep hunload
  simp only [List.mem_cons, List.not_mem_nil, or_false] at hstep
  rcases hstep with rfl | rfl | rfl | rfl | rfl | rfl
  · cases hunload
  · rfl
  all_goals cases hunload

end ModServer
