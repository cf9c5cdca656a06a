import ModServer.Library.Ledger
import ModServer.Plugin.Loader

/-!
The loader with the `DynamicLib` objects it makes, from `plugin_loader.cpp`,
`server_plugin.cpp` and `base/dynamic_lib_unix.cpp`. A plugin shares its library
with no one, so `dlclose` is called when the plugin is deleted, or at the end of
the iteration that found the library to be no plugin.
-/

namespace ModServer

open Library

variable {H Env : Type}

/-- The loader, the library object of each plugin, the number of the next
library object, and the calls of `dlopen` that succeeded and of `dlclose`. -/
structure Libraries (H Env : Type) where
  loader : PluginLoader H Env
  libs : List Nat
  nextLib : Nat
  calls : List (Entry Nat)

namespace Libraries

def new : Libraries H Env := ⟨.new, [], 0, []⟩

/-- One file that `LoadAll` tries. -/
def tryFile (platform : Platform H Env) (s : Libraries H Env) (file : Bytes) : Libraries H Env :=
  match platform.dlopen file with
  | none => s
  | some lib =>
      let calls := s.calls ++ [.acquire s.nextLib]
      if (ServerPlugin.mk s.loader.nextId lib).isValid then
        ⟨s.loader.addPlugin lib, s.libs ++ [s.nextLib], s.nextLib + 1, calls⟩
      else { s with nextLib := s.nextLib + 1, calls := calls ++ [.release s.nextLib] }

def searchFolder (platform : Platform H Env) (s : Libraries H Env) (folder : Bytes) :
    Libraries H Env :=
  (platform.getFilesWildcard PluginLoader.wildcard folder []).foldl (tryFile platform) s

def loadAll (platform : Platform H Env) (s : Libraries H Env) (pluginsFolder : Bytes) :
    Libraries H Env :=
  let searchFolders := platform.getAllSubfolders pluginsFolder [] ++ [pluginsFolder]
  searchFolders.foldl (searchFolder platform) s

/-- `UnloadAll` deletes the plugins one after the other. -/
def unloadAll (s : Libraries H Env) : Libraries H Env :=
  { s with loader := s.loader.unloadAll, libs := [], calls := s.calls ++ s.libs.map .release }

end Libraries

/-- What a program does with its loader. -/
inductive LoaderCall (H Env : Type) where
  | loadAll (platform : Platform H Env) (pluginsFolder : Bytes)
  | unloadAll

def Libraries.call (s : Libraries H Env) : LoaderCall H Env → Libraries H Env
  | .loadAll platform pluginsFolder => s.loadAll platform pluginsFolder
  | .unloadAll => s.unloadAll

def PluginLoader.call (loader : PluginLoader H Env) : LoaderCall H Env → PluginLoader H Env
  | .loadAll platform pluginsFolder => loader.loadAll platform pluginsFolder
  | .unloadAll => loader.unloadAll

/-- The open libraries are those of the plugins, each open once. -/
structure Libraries.Accounted (s : Libraries H Env) : Prop where
  settled : settle [] s.calls = some s.libs
  below : ∀ lib ∈ s.libs, lib < s.nextLib
  each : s.libs.length = s.loader.plugins.length

namespace Libraries.Accounted

variable {s : Libraries H Env}

theorem tryFile (h : s.Accounted) (platform : Platform H Env) (file : Bytes) :
    (s.tryFile platform file).Accounted := by
  obtain ⟨hsettled, hbelow, heach⟩ := h
  have hfresh : s.nextLib ∉ s.libs := fun hmem => Nat.lt_irrefl _ (hbelow _ hmem)
  have hmore : ∀ lib ∈ s.libs, lib < s.nextLib + 1 :=
    fun lib hlib => Nat.lt_succ_of_lt (hbelow lib hlib)
  unfold Libraries.tryFile
  cases platform.dlopen file with
  | none => exact ⟨hsettled, hbelow, heach⟩
  | some lib =>
      simp only
      split
      · refine ⟨settle_append_iff.mpr ⟨_, hsettled, settle_acquire hfresh⟩, ?_, ?_⟩
        · exact List.forall_mem_append.mpr ⟨hmore, by simp⟩
        · simp [PluginLoader.addPlugin, heach]
      · refine ⟨?_, hmore, heach⟩
        rw [List.append_assoc]
        exact settle_append_iff.mpr ⟨_, hsettled, settle_acquire_release hfresh⟩

theorem foldl {α : Type} {step : Libraries H Env → α → Libraries H Env}
    (hstep : ∀ s x, s.Accounted → (step s x).Accounted) (h : s.Accounted) (xs : List α) :
    (xs.foldl step s).Accounted := by
  induction xs generalizing s with
  | nil => exact h
  | cons x xs ih => exact ih (hstep s x h)

theorem loadAll (h : s.Accounted) (platform : Platform H Env) (pluginsFolder : Bytes) :
    (s.loadAll platform pluginsFolder).Accounted :=
  h.foldl (fun _ _ hs => hs.foldl (fun _ file hs => hs.tryFile platform file) _) _

/-- Deleting the plugins closes their libraries, of which none is left. -/
theorem unloadAll (h : s.Accounted) : s.unloadAll.Accounted := by
  have hall : ∀ libs : List Nat, settle libs (libs.map .release) = some [] := by
    intro libs
    induction libs with
    | nil => rfl
    | cons lib libs ih =>
        refine settle_cons_iff.mpr ⟨libs, ?_, ih⟩
        exact Entry.settle_release_iff.mpr ⟨List.mem_cons_self, List.erase_cons_head lib libs⟩
  refine ⟨settle_append_iff.mpr ⟨_, h.settled, hall s.libs⟩, ?_, rfl⟩
  exact fun lib hlib => absurd hlib List.not_mem_nil

end Libraries.Accounted

/-! The calls are only written down. -/

theorem Libraries.tryFile_loader (platform : Platform H Env) (s : Libraries H Env) (file : Bytes) :
    (s.tryFile platform file).loader = s.loader.tryFile platform file := by
  unfold Libraries.tryFile PluginLoader.tryFile
  cases platform.dlopen file with
  | none => rfl
  | some lib =>
      simp only
      split
      · rfl
      · rfl

theorem Libraries.call_loader (s : Libraries H Env) (call : LoaderCall H Env) :
    (s.call call).loader = s.loader.call call := by
  cases call with
  | unloadAll => rfl
  | loadAll platform pluginsFolder =>
      have hfolder : ∀ (s : Libraries H Env) folder,
          (s.searchFolder platform folder).loader = s.loader.searchFolder platform folder := by
        intro s folder
        exact (List.foldl_hom Libraries.loader
          (fun s file => (s.tryFile_loader platform file).symm)).symm
      exact (List.foldl_hom Libraries.loader (fun s folder => (hfolder s folder).symm)).symm

/-- Whatever a program does with its loader, no library is closed that is not
open, those that are open are the ones of the plugins it has, and none is left
open by `UnloadAll`, which `~PluginLoader` calls also after `~Server` has. -/
theorem libraries_accounted (calls : List (LoaderCall H Env)) :
    ∃ s : Libraries H Env, calls.foldl Libraries.call .new = s ∧
      s.loader = calls.foldl PluginLoader.call .new ∧
      settle [] s.calls = some s.libs ∧ s.libs.Nodup ∧
      s.libs.length = s.loader.plugins.length ∧
      settle [] s.unloadAll.unloadAll.calls = some [] := by
  have hstart : (Libraries.new : Libraries H Env).Accounted :=
    ⟨rfl, fun lib hlib => absurd hlib List.not_mem_nil, rfl⟩
  have hcall : ∀ (s : Libraries H Env) call, s.Accounted → (s.call call).Accounted := by
    intro s call hs
    cases call with
    | loadAll platform pluginsFolder => exact hs.loadAll platform pluginsFolder
    | unloadAll => exact hs.unloadAll
  have haccounted := hstart.foldl hcall calls
  refine ⟨_, rfl, ?_, haccounted.settled, ?_, haccounted.each, ?_⟩
  · exact (List.foldl_hom Libraries.loader (fun s call => (s.call_loader call).symm)).symm
  · exact settle_nodup haccounted.settled List.nodup_nil
  · exact haccounted.unloadAll.unloadAll.settled

end ModServer
