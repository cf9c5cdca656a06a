import ModServer.Plugin.Api

/-!
The plugins and how they are found, from `server_plugin/plugin_loader.cpp`,
`server_plugin.cpp` and the UNIX parts of `base/`. The file system, `fnmatch`
and the dynamic linker are parameters.
-/

namespace ModServer

/-- `SockType` of the plugin API. `other` stands for a value outside it. -/
inductive SockType where
  | tcp
  | other
  deriving DecidableEq, Repr

/-- A loaded library: which names it exports and what the exported functions
return. -/
structure DynamicLib (H Env : Type) where
  getProc : Bytes → Bool
  defaultPort : UInt16
  socketType : SockType
  newHandler : Env → H

/-- A `DynamicPlugin` object. No other one ever has its `id`. -/
structure ServerPlugin (H Env : Type) where
  id : Nat
  lib : DynamicLib H Env

variable {H Env : Type}

namespace ServerPlugin

def exportedNames : List Bytes :=
  [ascii "GetPluginName", ascii "SocketType", ascii "DefaultPort", ascii "NewHandler",
    ascii "RegisterLogFn"]

def isValid (plugin : ServerPlugin H Env) : Bool :=
  exportedNames.all plugin.lib.getProc

def port (plugin : ServerPlugin H Env) : UInt16 := plugin.lib.defaultPort

def sockType (plugin : ServerPlugin H Env) : SockType := plugin.lib.socketType

def newProtocolHandler (plugin : ServerPlugin H Env) (env : Env) : H := plugin.lib.newHandler env

end ServerPlugin

inductive FileKind where
  | directory
  | other
  deriving DecidableEq, Repr

/-- What `readdir_r` returns and what `fstatat` says about it, if it
succeeds. -/
structure DirEntry where
  name : Bytes
  stat : Option FileKind
  deriving DecidableEq, Repr

structure Platform (H Env : Type) where
  opendir : Bytes → Option (List DirEntry)
  fnmatch : Bytes → Bytes → Bool
  dlopen : Bytes → Option (DynamicLib H Env)

namespace Platform

def isDots (name : Bytes) : Bool := name = ascii ".." || name = ascii "."

def join (folder name : Bytes) : Bytes := folder ++ ascii "/" ++ name

/-- One iteration of `GetAllSubfolders`' loop. -/
def addSubfolder (folder : Bytes) (subfolders : List Bytes) (entry : DirEntry) : List Bytes :=
  if isDots entry.name then subfolders
  else if entry.stat = some .directory then subfolders ++ [join folder entry.name]
  else subfolders

/-- `Folder::GetAllSubfolders` without recursion, which no caller asks for. It
appends to the caller's vector. -/
def getAllSubfolders (platform : Platform H Env) (folder : Bytes) (subfolders : List Bytes) :
    List Bytes :=
  match platform.opendir folder with
  | none => subfolders
  | some entries => entries.foldl (addSubfolder folder) subfolders

/-- One iteration of `GetFilesWildcard`'s loop. -/
def addFile (platform : Platform H Env) (wildcard folder : Bytes) (files : List Bytes)
    (entry : DirEntry) : List Bytes :=
  if isDots entry.name then files
  else if entry.stat = some .other ∧ platform.fnmatch wildcard entry.name = true then
    files ++ [join folder entry.name]
  else files

/-- `Folder::GetFilesWildcard`. It clears the caller's vector first. -/
def getFilesWildcard (platform : Platform H Env) (wildcard folder : Bytes) (_ : List Bytes) :
    List Bytes :=
  match platform.opendir folder with
  | none => []
  | some entries => entries.foldl (platform.addFile wildcard folder) []

end Platform

/-- `m_plugins`, and the `id` of the next plugin object. -/
structure PluginLoader (H Env : Type) where
  plugins : List (ServerPlugin H Env)
  nextId : Nat

namespace PluginLoader

def new : PluginLoader H Env := ⟨[], 0⟩

def addPlugin (loader : PluginLoader H Env) (lib : DynamicLib H Env) : PluginLoader H Env :=
  ⟨loader.plugins ++ [⟨loader.nextId, lib⟩], loader.nextId + 1⟩

def unloadAll (loader : PluginLoader H Env) : PluginLoader H Env :=
  { loader with plugins := [] }

def hasLoadedPlugins (loader : PluginLoader H Env) : Bool := !loader.plugins.isEmpty

/-- One file that `LoadAll` tries. -/
def tryFile (platform : Platform H Env) (loader : PluginLoader H Env) (file : Bytes) :
    PluginLoader H Env :=
  match platform.dlopen file with
  | none => loader
  | some lib =>
      if (ServerPlugin.mk loader.nextId lib).isValid then loader.addPlugin lib else loader

/-- `"*_plugin"` and `kDllExt`. -/
def wildcard : Bytes := ascii "*_plugin" ++ ascii ".so"

/-- One iteration of `LoadAll`'s outer loop. Its vector of files is new. -/
def searchFolder (platform : Platform H Env) (loader : PluginLoader H Env) (folder : Bytes) :
    PluginLoader H Env :=
  (platform.getFilesWildcard wildcard folder []).foldl (tryFile platform) loader

/-- `LoadAll` searches the root folder behind its subfolders. -/
def loadAll (platform : Platform H Env) (loader : PluginLoader H Env) (pluginsFolder : Bytes) :
    PluginLoader H Env :=
  let searchFolders := platform.getAllSubfolders pluginsFolder [] ++ [pluginsFolder]
  searchFolders.foldl (searchFolder platform) loader

/-- The plugin object with this `id`, while it exists. -/
def find (loader : PluginLoader H Env) (id : Nat) : Option (ServerPlugin H Env) :=
  loader.plugins.find? (fun plugin => plugin.id = id)

def Present (loader : PluginLoader H Env) (id : Nat) : Prop :=
  ∃ plugin ∈ loader.plugins, plugin.id = id

theorem present_of_find {loader : PluginLoader H Env} {id : Nat} {plugin : ServerPlugin H Env}
    (h : loader.find id = some plugin) : plugin ∈ loader.plugins ∧ plugin.id = id := by
  constructor
  · exact List.mem_of_find?_eq_some h
  · simpa using List.find?_some h

theorem find_of_present {loader : PluginLoader H Env} {id : Nat} (h : loader.Present id) :
    ∃ plugin, loader.find id = some plugin := by
  obtain ⟨plugin, hmem, hid⟩ := h
  apply Option.isSome_iff_exists.mp
  rw [find, List.find?_isSome]
  exact ⟨plugin, hmem, by simpa using hid⟩

theorem not_present_unloadAll (loader : PluginLoader H Env) (id : Nat) :
    ¬ loader.unloadAll.Present id := by
  rintro ⟨plugin, hmem, -⟩
  cases hmem

end PluginLoader

end ModServer
