import ModServer.Base.CommandLine
import ModServer.Http.Plugin
import ModServer.Plugin.Discovery
import ModServer.Server.EndPoint
import ModServer.Server.Life
import ModServer.Server.Process

/-!
The program, from `main.cpp`: which arguments end it at once, with which
plugins and on which address it serves, and how it ends later. Opening the log
file is a parameter, and so is what `InitPlugins` finds outside.
-/

namespace ModServer

open Library

variable {H Env : Type}

/-- What the process finds outside: whether `Logger::InitLog` succeeds, the
file system and the dynamic linker, and what `Host` has but the switch. -/
structure World (H Env : Type) where
  initLog : Bool → Bool
  platform : Platform H Env
  inetAddr : Bytes → UInt32
  socket : Nat → Handle
  bind : Nat → IPEndPoint → Int
  listen : Nat → Int → Int

def World.host (world : World H Env) (serverIp : Bytes) : Host :=
  ⟨serverIp, world.inetAddr, world.socket, world.bind, world.listen⟩

/-- `Socket::InitSockets` on UNIX. -/
def initSockets : Int := 0

/-- `CommandLine::Init`, with `m_currentProcCl` before it and after. -/
def CommandLine.init (currentProcCl : Option CommandLine) (argv : List CString) :
    Except Fault (Bool × Option CommandLine) :=
  match currentProcCl with
  | some cl => .ok (false, some cl)
  | none =>
      match CommandLine.initFromArgv ⟨∅⟩ argv with
      | none => .error .assertion
      | some cl => .ok (true, some cl)

/-- `CommandLine::ForCurrentProcess`. -/
def CommandLine.forCurrentProcess (currentProcCl : Option CommandLine) :
    Except Fault CommandLine :=
  match currentProcCl with
  | none => .error .assertion
  | some cl => .ok cl

/-- `Server::Run` up to its loop, and the end of `main` where it returns before
that. -/
def Server.run (host : Host) (server : Server H Env) : Except Fault (Process H Env) := do
  let server ← server.initPlugins host
  if server.sessions.keys = [] then .ok (.exited 0)
  else .ok (.running ⟨server, .top, []⟩)

/-- `main`, up to the loop of `Run`. -/
def main (world : World H Env) (argv : List CString) : Except Fault (Process H Env) :=
  if argv.length ≤ 1 then .ok (.exited 1)
  else do
    let (initialized, currentProcCl) ← CommandLine.init none argv
    if !initialized then .ok (.exited 1)
    else do
      let cl ← CommandLine.forCurrentProcess currentProcCl
      if !world.initLog (cl.hasSwitch (ascii "logToFile")) then .ok (.exited 1)
      else
        let pluginsPath :=
          if cl.hasSwitch (ascii "pluginsFolder") then cl.switchValue (ascii "pluginsFolder")
          else ascii "."
        if !cl.hasSwitch (ascii "serverIp") then .ok (.exited 1)
        else if initSockets = 0 then
          let server := (Server.new : Server H Env).loadPlugins world.platform pluginsPath
          if server.pluginLoader.hasLoadedPlugins then
            server.run (world.host (cl.switchValue (ascii "serverIp")))
          else .ok (.exited 0)
        else .ok (.exited 0)

/-- The process that these arguments start. -/
def process [ProtocolHandler H Env] (world : World H Env) (argv : List CString) :
    Machine (Process H Env) (SystemCall Env) Fault :=
  processOf fun p => main world argv = .ok p

/-! The arguments. -/

/-- The value of the first switch with this name. -/
def FirstSwitch (args : List Bytes) (name value : Bytes) : Prop :=
  ∃ before arg after, args = before ++ arg :: after ∧
    (∀ earlier ∈ before, ¬ IsSwitch name earlier) ∧
    (arg = dash :: name ∧ value = [] ∨ arg = dash :: (name ++ equals :: value))

theorem lookup_eq_some_iff {args : List Bytes} {name value : Bytes} (hname : equals ∉ name) :
    (switchEntries args).lookup name = some value ↔ FirstSwitch args name value := by
  constructor
  · intro h
    induction args with
    | nil => cases h
    | cons arg args ih =>
        by_cases hswitch : IsSwitch name arg
        · obtain ⟨text, hparse⟩ := hswitch.exists_parse hname
          have hfirst := @lookup_switchEntries [] args arg name text
            (fun earlier hearlier => absurd hearlier List.not_mem_nil) hparse
          rw [List.nil_append, h] at hfirst
          cases hfirst
          exact ⟨[], arg, args, rfl, fun earlier hearlier => absurd hearlier List.not_mem_nil,
            (parseSwitch_eq_some_iff.mp hparse).2⟩
        · have hskip : (switchEntries (arg :: args)).lookup name =
              (switchEntries args).lookup name := by
            unfold switchEntries
            rw [List.filterMap_cons]
            cases hparse : parseSwitch arg [] with
            | none => rfl
            | some entry =>
                have hother : (name == entry.1) = false := by
                  apply beq_eq_false_iff_ne.mpr
                  intro heq
                  exact hswitch (heq ▸ (@isSwitch_of_parse entry.1 arg entry.2 hparse).2)
                rw [List.lookup_cons, hother]
          obtain ⟨before, found, after, rfl, hbefore, hshape⟩ := ih (hskip ▸ h)
          exact ⟨arg :: before, found, after, rfl,
            List.forall_mem_cons.mpr ⟨hswitch, hbefore⟩, hshape⟩
  · intro h
    obtain ⟨before, arg, after, rfl, hbefore, hshape⟩ := h
    exact lookup_switchEntries hbefore (parseSwitch_eq_some_iff.mpr ⟨hname, hshape⟩)

/-- The value of a switch, if the arguments have it. -/
def asked (args : List CString) (name : Bytes) : Option Bytes :=
  (switchEntries (args.map CString.chars)).lookup name

/-- An argument is a C string, and so is the value of a switch. -/
theorem nul_not_mem_asked {args : List CString} {name value : Bytes}
    (h : asked args name = some value) : nul ∉ value := by
  have hentry : (name, value) ∈ switchEntries (args.map CString.chars) := by
    obtain ⟨before, after, hsplit, -⟩ := List.lookup_eq_some_iff.mp h
    rw [hsplit]
    exact List.mem_append_right _ List.mem_cons_self
  obtain ⟨_, harg, hparse⟩ := mem_switchEntries.mp hentry
  obtain ⟨arg, -, rfl⟩ := List.mem_map.mp harg
  obtain ⟨-, ⟨-, rfl⟩ | hvalued⟩ := parseSwitch_eq_some_iff.mp hparse
  · exact List.not_mem_nil
  · intro hnul
    apply arg.nul_not_mem
    rw [hvalued]
    simp [hnul]

/-- So the memory of its end points does not show in the program. With the
address of the command line, `InitPlugins` registers the sessions that it
registers on `IPEndPoint`s. -/
theorem initPlugins_asked (memory : Nat → Memory) (world : World H Env) {args : List CString}
    {serverIp : Bytes} (h : asked args (ascii "serverIp") = some serverIp)
    (server : Server H Env) :
    server.pluginLoader.plugins.foldlM
        (Server.initPluginArrays memory (world.host serverIp)) server =
      Server.initPlugins (world.host serverIp) server :=
  @Server.initPlugins_arrays H Env memory (world.host serverIp) (nul_not_mem_asked h) server

/-! `InitPlugins` fails at its first plugin or not at all. -/

/-- A length that the end point's array has room for. -/
def Fits (serverIp : Bytes) : Prop := 0 < serverIp.length ∧ serverIp.length < 20 - 1

theorem IPEndPoint.ofString_ok {serverIp : Bytes} (h : Fits serverIp) (port : UInt16) :
    IPEndPoint.ofString serverIp port = .ok ⟨serverIp, port⟩ := if_pos h

theorem IPEndPoint.ofString_error {serverIp : Bytes} (h : ¬ Fits serverIp) (port : UInt16) :
    IPEndPoint.ofString serverIp port = .error .assertion := if_neg h

theorem Server.initPlugin_ok {host : Host} (h : Fits host.serverIp) (server : Server H Env)
    (plugin : ServerPlugin H Env) : ∃ next, server.initPlugin host plugin = .ok next := by
  unfold Server.initPlugin
  rw [IPEndPoint.ofString_ok h]
  simp only [bind, Except.bind]
  split
  · exact ⟨_, rfl⟩
  · split
    · split
      · exact ⟨_, rfl⟩
      · split
        · exact ⟨_, rfl⟩
        · split
          · exact ⟨_, rfl⟩
          · exact ⟨_, rfl⟩
    · exact ⟨_, rfl⟩

theorem Server.initPlugins_ok {host : Host} (h : Fits host.serverIp)
    (plugins : List (ServerPlugin H Env)) (server : Server H Env) :
    ∃ last, plugins.foldlM (Server.initPlugin host) server = .ok last := by
  induction plugins generalizing server with
  | nil => exact ⟨server, rfl⟩
  | cons plugin plugins ih =>
      obtain ⟨next, hnext⟩ := server.initPlugin_ok h plugin
      obtain ⟨last, hlast⟩ := ih next
      refine ⟨last, ?_⟩
      rw [List.foldlM_cons]
      exact bind_eq_ok.mpr ⟨next, hnext, hlast⟩

theorem Server.initPlugins_error {host : Host} (h : ¬ Fits host.serverIp)
    {server : Server H Env} (hplugins : server.pluginLoader.plugins ≠ []) :
    server.initPlugins host = .error .assertion := by
  unfold Server.initPlugins
  cases hlist : server.pluginLoader.plugins with
  | nil => exact absurd hlist hplugins
  | cons plugin plugins =>
      rw [List.foldlM_cons]
      unfold Server.initPlugin
      rw [IPEndPoint.ofString_error h]
      rfl

/-! What `Run` comes to, from the plugins that were loaded. -/

theorem initial_keys {acceptors : List (Session H)} {sessions : Registry (Session H)}
    (h : Initial acceptors sessions) : sessions.keys = [] ↔ acceptors = [] := by
  rw [h.keys, List.range_eq_nil, List.length_eq_zero_iff]

theorem acceptors_eq_nil {host : Host} {plugins : List (ServerPlugin H Env)} :
    host.acceptors plugins = [] ↔ ∀ plugin ∈ plugins, ¬ host.Serves plugin := by
  simp [Host.acceptors, List.filter_eq_nil_iff]

section Starting

variable [ProtocolHandler H Env]

/-- The three ends of starting to serve these plugins. -/
structure Comes (host : Host) (loader : PluginLoader H Env)
    (result : Except Fault (Process H Env)) : Prop where
  aborts : (∃ fault, result = .error fault) ↔ loader.plugins ≠ [] ∧ ¬ Fits host.serverIp
  exits : (∃ code, result = .ok (.exited code)) ↔
    loader.plugins = [] ∨
      Fits host.serverIp ∧ ∀ plugin ∈ loader.plugins, ¬ host.Serves plugin
  runs : (∃ c, result = .ok (.running c)) ↔
    Fits host.serverIp ∧ ∃ plugin ∈ loader.plugins, host.Serves plugin
  code : ∀ code, result = .ok (.exited code) → code = 0
  loops : ∀ c, result = .ok (.running c) →
    (serverLoop loader host).start c ∧
      Initial (host.acceptors loader.plugins) c.server.sessions

theorem comes_aborted {host : Host} {loader : PluginLoader H Env} {fault : Fault}
    (h : loader.plugins ≠ []) (hfits : ¬ Fits host.serverIp) :
    Comes host loader (.error fault) := by
  constructor
  · simp [h, hfits]
  · simp [h, hfits]
  · simp [hfits]
  · intro code hcode
    cases hcode
  · intro c hc
    cases hc

theorem comes_exited {host : Host} {loader : PluginLoader H Env}
    (h : loader.plugins = [] ∨
      Fits host.serverIp ∧ ∀ plugin ∈ loader.plugins, ¬ host.Serves plugin) :
    Comes host loader (.ok (.exited 0)) := by
  have hnone : ¬ ∃ plugin ∈ loader.plugins, host.Serves plugin := by
    rintro ⟨plugin, hplugin, hserves⟩
    rcases h with hempty | ⟨-, hnone⟩
    · rw [hempty] at hplugin
      cases hplugin
    · exact hnone plugin hplugin hserves
  constructor
  · simp only [reduceCtorEq, exists_false, false_iff]
    rintro ⟨hsome, hfits⟩
    exact h.elim hsome (fun hserved => hfits hserved.1)
  · simpa using h
  · simp only [Except.ok.injEq, reduceCtorEq, exists_false, false_iff]
    exact fun hserves => hnone hserves.2
  · intro code hcode
    cases hcode
    rfl
  · intro c hc
    cases hc

theorem comes_running {host : Host} {loader : PluginLoader H Env} {c : Config H Env}
    (hfits : Fits host.serverIp) (hserves : ∃ plugin ∈ loader.plugins, host.Serves plugin)
    (hstart : (serverLoop loader host).start c)
    (hinitial : Initial (host.acceptors loader.plugins) c.server.sessions) :
    Comes host loader (.ok (.running c)) := by
  constructor
  · simp [hfits]
  · simp only [Except.ok.injEq, reduceCtorEq, exists_false, false_iff]
    obtain ⟨plugin, hplugin, hserved⟩ := hserves
    rintro (hempty | ⟨-, hnone⟩)
    · exact List.ne_nil_of_mem hplugin hempty
    · exact hnone plugin hplugin hserved
  · simp [hfits, hserves]
  · intro code hcode
    cases hcode
  · intro c' hc
    cases hc
    exact ⟨hstart, hinitial⟩

theorem comes_run {host : Host} {loader : PluginLoader H Env} (h : loader.plugins ≠ []) :
    Comes host loader ((Server.withPlugins loader).run host) := by
  unfold Server.run
  by_cases hfits : Fits host.serverIp
  · obtain ⟨server, hserver⟩ := Server.initPlugins_ok hfits loader.plugins
      (Server.withPlugins loader)
    have hinit : Server.initPlugins host (Server.withPlugins loader) = .ok server := hserver
    obtain ⟨hinitial, hloader⟩ := Server.initPlugins_initial hinit
    have hempty := (initial_keys hinitial).trans acceptors_eq_nil
    rw [hinit]
    simp only [bind, Except.bind]
    split
    · rename_i hkeys
      exact comes_exited (.inr ⟨hfits, hempty.mp hkeys⟩)
    · rename_i hkeys
      have hsome : ¬ ∀ plugin ∈ loader.plugins, ¬ host.Serves plugin := hkeys ∘ hempty.mpr
      push Not at hsome
      exact comes_running hfits hsome ⟨server, hinit, hkeys, rfl⟩ hinitial
  · have hfault : Server.initPlugins host (Server.withPlugins loader) = .error .assertion :=
      Server.initPlugins_error hfits h
    rw [hfault]
    exact comes_aborted h hfits

end Starting

/-! `main`, from its arguments. -/

/-- The arguments end the process before it starts a server. -/
def Refuses (world : World H Env) (args : List CString) : Prop :=
  args = [] ∨
    (∃ logToFile : Bool, (logToFile = true ↔
        ∃ arg ∈ args, IsSwitch (ascii "logToFile") arg.chars) ∧
      world.initLog logToFile = false) ∨
    ∀ arg ∈ args, ¬ IsSwitch (ascii "serverIp") arg.chars

/-- The address and the folder that the arguments ask for. -/
structure Asks (args : List CString) (serverIp pluginsFolder : Bytes) : Prop where
  serverIp : FirstSwitch (args.map CString.chars) (ascii "serverIp") serverIp
  pluginsFolder :
    FirstSwitch (args.map CString.chars) (ascii "pluginsFolder") pluginsFolder ∨
      (∀ arg ∈ args, ¬ IsSwitch (ascii "pluginsFolder") arg.chars) ∧ pluginsFolder = ascii "."

theorem asked_isSome {args : List CString} {name : Bytes} (hname : equals ∉ name) :
    (asked args name).isSome = true ↔ ∃ arg ∈ args, IsSwitch name arg.chars := by
  unfold asked
  rw [lookup_switchEntries_isSome]
  simp [hname]

theorem asked_eq_none {args : List CString} {name : Bytes} (hname : equals ∉ name) :
    asked args name = none ↔ ∀ arg ∈ args, ¬ IsSwitch name arg.chars := by
  have hsome := not_congr (@asked_isSome args name hname)
  rw [Bool.not_eq_true, Option.isSome_eq_false_iff, Option.isNone_iff_eq_none] at hsome
  simpa using hsome

/-- What `Refuses` says, as `main` finds it out. -/
theorem refuses_iff (world : World H Env) (args : List CString) :
    Refuses world args ↔ args = [] ∨
      world.initLog (asked args (ascii "logToFile")).isSome = false ∨
      asked args (ascii "serverIp") = none := by
  unfold Refuses
  rw [asked_eq_none (by decide +kernel)]
  simp only [← @asked_isSome args (ascii "logToFile") (by decide +kernel)]
  refine or_congr Iff.rfl (or_congr ?_ Iff.rfl)
  constructor
  · intro h
    obtain ⟨logToFile, hsame, hfailed⟩ := h
    rwa [Bool.eq_iff_iff.mpr hsame] at hfailed
  · exact fun hfailed => ⟨_, Iff.rfl, hfailed⟩

@[simp] theorem Server.withPlugins_pluginLoader (loader : PluginLoader H Env) :
    (Server.withPlugins loader).pluginLoader = loader := rfl

theorem Server.loadPlugins_new (platform : Platform H Env) (pluginsFolder : Bytes) :
    (Server.new : Server H Env).loadPlugins platform pluginsFolder =
      Server.withPlugins (PluginLoader.new.loadAll platform pluginsFolder) := rfl

theorem PluginLoader.hasLoadedPlugins_eq (loader : PluginLoader H Env) :
    loader.hasLoadedPlugins = true ↔ loader.plugins ≠ [] := by
  simp [PluginLoader.hasLoadedPlugins]

theorem main_eq (world : World H Env) (program : CString) (args : List CString) :
    main world (program :: args) =
      if args = [] ∨ world.initLog (asked args (ascii "logToFile")).isSome = false ∨
          asked args (ascii "serverIp") = none then .ok (.exited 1)
      else
        let loader := PluginLoader.new.loadAll world.platform
          ((asked args (ascii "pluginsFolder")).getD (ascii "."))
        if loader.plugins = [] then .ok (.exited 0)
        else (Server.withPlugins loader).run
          (world.host ((asked args (ascii "serverIp")).getD [])) := by
  cases args with
  | nil => rfl
  | cons arg args =>
      generalize hall : arg :: args = all
      have hne : all ≠ [] := by
        rw [← hall]
        exact List.cons_ne_nil arg args
      have hlength : ¬ (program :: all).length ≤ 1 := by
        rw [← hall]
        simp
      have hhas : ∀ name, ((⟨∅⟩ : CommandLine).initFromStringVec
          (all.map CString.chars)).hasSwitch name = (asked all name).isSome :=
        fun name => CommandLine.hasSwitch_eq _ _ name
      have hvalue : ∀ name, ((⟨∅⟩ : CommandLine).initFromStringVec
          (all.map CString.chars)).switchValue name = (asked all name).getD [] :=
        fun name => CommandLine.switchValue_eq _ _ name
      have hinit : CommandLine.init none (program :: all) = .ok (true,
          some ((⟨∅⟩ : CommandLine).initFromStringVec (all.map CString.chars))) := rfl
      unfold main
      rw [if_neg hlength, hinit]
      simp only [bind, Except.bind, CommandLine.forCurrentProcess, Bool.not_true,
        Bool.false_eq_true, if_false, hhas, hvalue, hne, false_or]
      have hfolder : (if (asked all (ascii "pluginsFolder")).isSome = true then
          (asked all (ascii "pluginsFolder")).getD [] else ascii ".") =
            (asked all (ascii "pluginsFolder")).getD (ascii ".") := by
        cases asked all (ascii "pluginsFolder") with
        | none => rfl
        | some folder => rfl
      rw [hfolder]
      cases world.initLog (asked all (ascii "logToFile")).isSome with
      | false => rfl
      | true =>
          cases asked all (ascii "serverIp") with
          | none => rfl
          | some serverIp =>
              simp only [Server.loadPlugins_new, PluginLoader.hasLoadedPlugins_eq, initSockets]
              by_cases hnone : (PluginLoader.new.loadAll world.platform
                  ((asked all (ascii "pluginsFolder")).getD (ascii "."))).plugins = []
              · simp [hnone]
              · simp [hnone]

theorem asks_asked {args : List CString} {serverIp : Bytes}
    (h : asked args (ascii "serverIp") = some serverIp) :
    Asks args serverIp ((asked args (ascii "pluginsFolder")).getD (ascii ".")) := by
  constructor
  · exact (lookup_eq_some_iff (by decide +kernel)).mp h
  · have hname : equals ∉ ascii "pluginsFolder" := by decide +kernel
    cases hfolder : asked args (ascii "pluginsFolder") with
    | none => exact .inr ⟨(asked_eq_none hname).mp hfolder, rfl⟩
    | some folder => exact .inl ((lookup_eq_some_iff hname).mp hfolder)

variable [ProtocolHandler H Env]

/-- The program refuses its arguments with exit code 1, or it starts to serve,
on the address that they ask for, the plugins that it finds in the folder that
they ask for. -/
theorem main_exact {world : World H Env} (h : world.platform.ListsOnce) (program : CString)
    (args : List CString) :
    (main world (program :: args) = .ok (.exited 1) ↔ Refuses world args) ∧
      (¬ Refuses world args → ∃ serverIp pluginsFolder places loader,
        Asks args serverIp pluginsFolder ∧
        Discovered world.platform pluginsFolder places loader.plugins ∧
        (∀ place, place ∈ places ↔ world.platform.Loads pluginsFolder place) ∧
        Comes (world.host serverIp) loader (main world (program :: args))) := by
  have hserves : ¬ Refuses world args → ∃ serverIp pluginsFolder places loader,
      Asks args serverIp pluginsFolder ∧
      Discovered world.platform pluginsFolder places loader.plugins ∧
      (∀ place, place ∈ places ↔ world.platform.Loads pluginsFolder place) ∧
      Comes (world.host serverIp) loader (main world (program :: args)) := by
    intro hnot
    rw [refuses_iff] at hnot
    obtain ⟨serverIp, hip⟩ := Option.ne_none_iff_exists'.mp (fun hnone => hnot (.inr (.inr hnone)))
    obtain ⟨places, hdiscovered, hplaces, -⟩ := loadAll_exact h
      (show (PluginLoader.new : PluginLoader H Env).plugins = [] from rfl)
      ((asked args (ascii "pluginsFolder")).getD (ascii "."))
    refine ⟨serverIp, _, places, _, asks_asked hip, hdiscovered, hplaces, ?_⟩
    rw [main_eq, if_neg hnot, hip]
    simp only [Option.getD_some]
    split
    · rename_i hnone
      exact comes_exited (.inl hnone)
    · rename_i hsome
      exact comes_run hsome
  refine ⟨?_, hserves⟩
  constructor
  · intro hexit
    by_contra hnot
    obtain ⟨serverIp, pluginsFolder, places, loader, -, -, -, hcomes⟩ := hserves hnot
    exact absurd (hcomes.code 1 hexit) (by decide)
  · intro hrefuses
    rw [main_eq, if_pos ((refuses_iff world args).mp hrefuses)]

/-! The process, from its first step of the loop on. -/

/-- Where `main` comes to the loop, it is the loop of a server. -/
theorem main_running {world : World H Env} {argv : List CString} {c : Config H Env}
    (h : main world argv = .ok (.running c)) :
    ∃ serverIp loader, (serverLoop loader (world.host serverIp)).start c := by
  cases argv with
  | nil => cases h
  | cons program args =>
      rw [main_eq] at h
      split at h
      · cases h
      · simp only at h
        split at h
        · cases h
        · rename_i hsome
          exact ⟨_, _, ((comes_run hsome).loops c h).1⟩

/-- What becomes of a process that has come to the loop. Its calls that return
are a run of the loop of a server, and it is in the loop until a `select` fails
or a `send` raises `SIGPIPE`. Where the handlers keep to their contract by
themselves and the promises are kept, nothing else ends it. -/
theorem process_exact {world : World H Env} {argv : List CString} {c : Config H Env}
    (hstart : main world argv = .ok (.running c)) :
    ∃ serverIp loader, (serverLoop loader (world.host serverIp)).start c ∧
      ∀ steps last, (process world argv).Run (.running c) steps last →
        Lives (serverLoop loader (world.host serverIp)) c steps last ∧
        ∀ fits, (∀ createdBy, Serves fits (Creates loader (world.host serverIp) createdBy)) →
          (world.host serverIp).InSets loader.plugins →
          (∀ step ∈ steps, Promised (BoundedIn fits) step.1 step.2) →
          ∀ call, Promised (BoundedIn fits) last call → ∃ next, last.step call = .ok next := by
  obtain ⟨serverIp, loader, hloop⟩ := main_running hstart
  have hphase : c.phase ≠ .returned := by
    obtain ⟨server, -, -, rfl⟩ := hloop
    exact Phase.noConfusion
  refine ⟨serverIp, loader, hloop, ?_⟩
  intro steps last hrun
  have hlives : Lives (serverLoop loader (world.host serverIp)) c steps last :=
    process_lives hphase hrun
  refine ⟨hlives, ?_⟩
  intro fits hserves hhost hpromised call hcall
  cases last with
  | exited | killed => exact ⟨_, rfl⟩
  | running now =>
      obtain ⟨final, hserved, hsame⟩ := hlives.served
      cases hsame now rfl
      refine process_proceeds hhost hserves ((Machine.Reachable.start hloop).run hserved ?_) hcall
      intro step hstep
      obtain ⟨made, hmade, hinLoop⟩ := List.mem_filterMap.mp hstep
      have hkept := hpromised made hmade
      rw [eq_ofLoop hinLoop] at hkept
      exact hkept

namespace Http

/-- The HTTP plugin lies in the current folder. -/
def platform : Platform HttpHandler Surroundings where
  opendir folder :=
    if folder = ascii "." then some [⟨ascii "http_plugin.so", some .other⟩] else none
  fnmatch pattern name := (pattern.drop 1).isSuffixOf name
  dlopen file := if file = ascii "./http_plugin.so" then some httpLib else none

def world : World HttpHandler Surroundings where
  initLog _ := true
  platform := platform
  inetAddr := loopback.inetAddr
  socket := loopback.socket
  bind := loopback.bind
  listen := loopback.listen

def program : CString := ⟨ascii "./mod_server", by decide +kernel⟩

def serverIpArg : CString := ⟨ascii "-serverIp=127.0.0.1", by decide +kernel⟩

theorem platform_listsOnce : platform.ListsOnce := by
  intro folder entries h
  simp only [platform] at h
  split at h
  · cases h
    exact List.nodup_singleton _
  · cases h

theorem main_listening : main world [program, serverIpArg] = .ok (.running listening) := by
  rw [main_eq]
  rfl

/-- Memory in which no byte is `'\0'`. -/
def dirty : Memory :=
  ⟨⟨List.replicate 20 0xAA, rfl⟩, [0xAA], ⟨List.replicate 20 0xBB, rfl⟩, [0xBB]⟩

theorem initPlugins_asked_listening :
    httpLoader.plugins.foldlM
        (Server.initPluginArrays (fun _ => dirty) (world.host (ascii "127.0.0.1")))
        (Server.withPlugins httpLoader) =
      Server.initPlugins (world.host (ascii "127.0.0.1")) (Server.withPlugins httpLoader) :=
  @initPlugins_asked HttpHandler Surroundings (fun _ => dirty) world [serverIpArg] _
    (by decide +kernel) (Server.withPlugins httpLoader)

theorem main_exact_listening :
    (main world [program, serverIpArg] = .ok (.exited 1) ↔ Refuses world [serverIpArg]) ∧
      (¬ Refuses world [serverIpArg] → ∃ serverIp pluginsFolder places loader,
        Asks [serverIpArg] serverIp pluginsFolder ∧
        Discovered world.platform pluginsFolder places loader.plugins ∧
        (∀ place, place ∈ places ↔ world.platform.Loads pluginsFolder place) ∧
        Comes (world.host serverIp) loader (main world [program, serverIpArg])) :=
  @main_exact HttpHandler Surroundings _ world platform_listsOnce program [serverIpArg]

/-- A run in which the second client is accepted before the first one is written
to, as one of the process. -/
theorem run_writing {start : Process HttpHandler Surroundings → Prop} :
    ∃ steps, (processOf start).Run (.running listening) steps (.running writing) ∧
      ∀ step ∈ steps, Promised (BoundedIn fun _ => True) step.1 step.2 := by
  have hreached : (serverLoop httpLoader loopback).Reachable Tame writing := by
    refine reachable_pendingFirst.run
      (.cons serving rfl (.cons serving rfl (.cons serving rfl .nil))) ?_
    exact fun step hstep => tame_run_serving step (List.mem_append_left _ hstep)
  obtain ⟨first, steps, hstart, hrun, htame⟩ := hreached.exists_run
  obtain ⟨server, hinit, -, rfl⟩ := hstart
  cases hinit
  refine ⟨steps.map ofLoop, run_ofLoop hrun Phase.noConfusion, ?_⟩
  intro step hstep
  obtain ⟨made, hmade, rfl⟩ := List.mem_map.mp hstep
  exact ⟨(htame made hmade).1, trivial⟩

/-- The process serves two clients, and a `send` to the first raises `SIGPIPE`. -/
theorem process_exact_listening :
    ∃ steps, (process world [program, serverIpArg]).Run (.running listening) steps
        (.running writing) ∧
      (∃ next, (Process.running writing).step (.returns serving) = .ok next) ∧
      (process world [program, serverIpArg]).Run (.running listening)
        (steps ++ [(.running writing, .raises)]) .killed ∧
      ∃ step ∈ steps ++ [(Process.running writing, SystemCall.raises)], BreaksPipe step := by
  obtain ⟨serverIp, loader, hloop, hall⟩ := process_exact main_listening
  have hloader : httpLoader = loader := (start_initial hloop).2.1
  subst hloader
  have hhost : (world.host serverIp).InSets httpLoader.plugins := inSets_loopback
  obtain ⟨steps, hrun, hpromised⟩ := run_writing
  have hgoes := (hall steps _ hrun).2 (fun _ => True)
    (serves_http servesHttp_httpLoader _ _) hhost hpromised (.returns serving)
    ⟨(tame_run_serving (writing, serving) (by simp)).1, trivial⟩
  have hkilled : (process world [program, serverIpArg]).Run (.running listening)
      (steps ++ [(.running writing, .raises)]) .killed :=
    Machine.Run.append_iff.mpr ⟨_, hrun, .cons SystemCall.raises rfl .nil⟩
  exact ⟨steps, hrun, hgoes, hkilled, (hall _ _ hkilled).1.killed.mp rfl⟩

end Http

end ModServer
