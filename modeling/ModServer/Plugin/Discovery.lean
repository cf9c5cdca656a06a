import ModServer.Plugin.Loader
import Mathlib.Data.List.Forall2
import Mathlib.Data.List.Nodup

/-!
What `LoadAll` finds: the places where a plugin file can lie, what must hold at
a place for its file to be loaded, and that the loops load exactly these, each
once. Nothing else that fails has a say in it.
-/

namespace ModServer

variable {H Env : Type}

/-- A file of an immediate subfolder or of the root folder. -/
inductive Place where
  | inSubfolder (folder name : Bytes)
  | inRoot (name : Bytes)
  deriving DecidableEq, Repr

def Place.path (root : Bytes) : Place → Bytes
  | .inSubfolder folder name => Platform.join (Platform.join root folder) name
  | .inRoot name => Platform.join root name

namespace Platform

/-- The folder can be listed, and it lists an entry that can be stat-ed. -/
def HasEntry (platform : Platform H Env) (folder name : Bytes) (kind : FileKind) : Prop :=
  isDots name = false ∧
    ∃ entries, platform.opendir folder = some entries ∧ ⟨name, some kind⟩ ∈ entries

/-- `readdir_r` returns each entry once. -/
def ListsOnce (platform : Platform H Env) : Prop :=
  ∀ folder entries, platform.opendir folder = some entries → (entries.map DirEntry.name).Nodup

def HasFile (platform : Platform H Env) (folder name : Bytes) : Prop :=
  platform.HasEntry folder name .other ∧ platform.fnmatch PluginLoader.wildcard name = true

/-- The file at the place is found. -/
def Finds (platform : Platform H Env) (root : Bytes) : Place → Prop
  | .inSubfolder folder name =>
      platform.HasEntry root folder .directory ∧ platform.HasFile (join root folder) name
  | .inRoot name => platform.HasFile root name

/-- The file can be loaded and exports what a plugin has to export. -/
def IsPlugin (platform : Platform H Env) (file : Bytes) : Prop :=
  ∃ lib, platform.dlopen file = some lib ∧
    ∀ name ∈ ServerPlugin.exportedNames, lib.getProc name = true

def Loads (platform : Platform H Env) (root : Bytes) (place : Place) : Prop :=
  platform.Finds root place ∧ platform.IsPlugin (place.path root)

/-- Which entries a loop over a listing keeps. -/
def keeps (kind : FileKind) (accept : Bytes → Bool) (entry : DirEntry) : Bool :=
  !isDots entry.name && entry.stat = some kind && accept entry.name

/-- The names of the entries that the loop keeps. -/
def names (platform : Platform H Env) (folder : Bytes) (kind : FileKind)
    (accept : Bytes → Bool) : List Bytes :=
  (((platform.opendir folder).getD []).filter (keeps kind accept)).map DirEntry.name

section Names

variable (platform : Platform H Env) (folder : Bytes)

theorem mem_names {kind : FileKind} {accept : Bytes → Bool} {name : Bytes} :
    name ∈ platform.names folder kind accept ↔
      platform.HasEntry folder name kind ∧ accept name = true := by
  unfold names HasEntry keeps
  cases hdir : platform.opendir folder with
  | none => simp
  | some entries =>
      simp only [Option.getD_some, List.mem_map, List.mem_filter, Bool.and_eq_true,
        Bool.not_eq_true', decide_eq_true_eq, Option.some.injEq, exists_eq_left']
      constructor
      · rintro ⟨⟨_, _⟩, ⟨hentry, ⟨hdots, rfl⟩, haccept⟩, rfl⟩
        exact ⟨⟨hdots, hentry⟩, haccept⟩
      · rintro ⟨⟨hdots, hentry⟩, haccept⟩
        exact ⟨⟨name, some kind⟩, ⟨hentry, ⟨hdots, rfl⟩, haccept⟩, rfl⟩

theorem names_nodup (h : platform.ListsOnce) (kind : FileKind) (accept : Bytes → Bool) :
    (platform.names folder kind accept).Nodup := by
  unfold names
  cases hdir : platform.opendir folder with
  | none => exact List.nodup_nil
  | some entries => exact (h folder entries hdir).sublist (List.filter_sublist.map DirEntry.name)

/-- A loop that appends the path of each entry that it keeps. -/
theorem foldl_keeps {kind : FileKind} {accept : Bytes → Bool}
    {step : List Bytes → DirEntry → List Bytes}
    (h : ∀ paths entry, step paths entry =
      if keeps kind accept entry then paths ++ [join folder entry.name] else paths)
    (entries : List DirEntry) (paths : List Bytes) :
    entries.foldl step paths =
      paths ++ ((entries.filter (keeps kind accept)).map DirEntry.name).map (join folder) := by
  induction entries generalizing paths with
  | nil => simp
  | cons entry entries ih =>
      rw [List.foldl_cons, ih, h, List.filter_cons]
      cases keeps kind accept entry <;> simp

theorem addSubfolder_eq (subfolders : List Bytes) (entry : DirEntry) :
    addSubfolder folder subfolders entry =
      if keeps .directory (fun _ => true) entry then subfolders ++ [join folder entry.name]
      else subfolders := by
  unfold addSubfolder keeps
  cases isDots entry.name <;> simp

theorem addFile_eq (wildcard : Bytes) (files : List Bytes) (entry : DirEntry) :
    platform.addFile wildcard folder files entry =
      if keeps .other (platform.fnmatch wildcard) entry then files ++ [join folder entry.name]
      else files := by
  unfold addFile keeps
  cases isDots entry.name <;> simp

theorem getAllSubfolders_eq (subfolders : List Bytes) :
    platform.getAllSubfolders folder subfolders =
      subfolders ++ (platform.names folder .directory (fun _ => true)).map (join folder) := by
  unfold getAllSubfolders names
  cases platform.opendir folder with
  | none => exact (List.append_nil _).symm
  | some entries => exact foldl_keeps folder (addSubfolder_eq folder) entries subfolders

theorem getFilesWildcard_eq (wildcard : Bytes) (files : List Bytes) :
    platform.getFilesWildcard wildcard folder files =
      (platform.names folder .other (platform.fnmatch wildcard)).map (join folder) := by
  unfold getFilesWildcard names
  cases platform.opendir folder with
  | none => rfl
  | some entries => exact foldl_keeps folder (platform.addFile_eq folder wildcard) entries []

end Names

section Loading

variable (platform : Platform H Env)

/-- `Load` and `IsValid` succeed. -/
def accepts (file : Bytes) : Bool :=
  match platform.dlopen file with
  | none => false
  | some lib => ServerPlugin.exportedNames.all lib.getProc

theorem accepts_iff (file : Bytes) : platform.accepts file = true ↔ platform.IsPlugin file := by
  unfold accepts IsPlugin
  cases platform.dlopen file <;> simp

/-- The files that `LoadAll` tries, in its order. -/
def tried (root : Bytes) : List Place :=
  (platform.names root .directory (fun _ => true)).flatMap (fun folder =>
      (platform.names (join root folder) .other (platform.fnmatch PluginLoader.wildcard)).map
        (Place.inSubfolder folder)) ++
    (platform.names root .other (platform.fnmatch PluginLoader.wildcard)).map Place.inRoot

theorem mem_tried {root : Bytes} {place : Place} :
    place ∈ platform.tried root ↔ platform.Finds root place := by
  unfold tried Finds HasFile
  rw [List.mem_append, List.mem_flatMap]
  cases place with
  | inSubfolder folder name => simp [mem_names]
  | inRoot name => simp [mem_names]

theorem tried_nodup (h : platform.ListsOnce) (root : Bytes) : (platform.tried root).Nodup := by
  unfold tried
  rw [List.nodup_append']
  refine ⟨?_, ?_, ?_⟩
  · rw [List.nodup_flatMap]
    constructor
    · intro folder _
      exact (platform.names_nodup _ h _ _).map (fun _ _ heq => (Place.inSubfolder.inj heq).2)
    · refine List.Pairwise.imp ?_ (platform.names_nodup root h .directory (fun _ => true))
      intro folder other hne place hplace hother
      obtain ⟨name, -, rfl⟩ := List.mem_map.mp hplace
      obtain ⟨_, -, heq⟩ := List.mem_map.mp hother
      exact hne (Place.inSubfolder.inj heq).1.symm
  · exact (platform.names_nodup root h _ _).map (fun _ _ heq => Place.inRoot.inj heq)
  · intro place hbelow hroot
    obtain ⟨folder, -, hplace⟩ := List.mem_flatMap.mp hbelow
    obtain ⟨name, -, rfl⟩ := List.mem_map.mp hplace
    obtain ⟨_, -, heq⟩ := List.mem_map.mp hroot
    cases heq

/-- The places whose files are loaded, in the order of their plugins. -/
def loaded (root : Bytes) : List Place :=
  (platform.tried root).filter (fun place => platform.accepts (place.path root))

theorem mem_loaded {root : Bytes} {place : Place} :
    place ∈ platform.loaded root ↔ platform.Loads root place := by
  rw [loaded, List.mem_filter, mem_tried, accepts_iff, Loads]

theorem loaded_nodup (h : platform.ListsOnce) (root : Bytes) : (platform.loaded root).Nodup :=
  (platform.tried_nodup h root).filter _

/-- The files of the root folder come last. -/
theorem loaded_ordered (root : Bytes) :
    ∃ (below : List Place) (names : List Bytes),
      platform.loaded root = below ++ names.map Place.inRoot ∧
      ∀ place ∈ below, ∃ folder name, place = .inSubfolder folder name := by
  unfold loaded tried
  rw [List.filter_append, List.filter_map]
  refine ⟨_, _, rfl, ?_⟩
  intro place hplace
  obtain ⟨folder, -, hfolder⟩ := List.mem_flatMap.mp (List.mem_of_mem_filter hplace)
  obtain ⟨name, -, rfl⟩ := List.mem_map.mp hfolder
  exact ⟨folder, name, rfl⟩

end Loading

end Platform

namespace PluginLoader

variable (platform : Platform H Env)

theorem tryFile_accepts (loader : PluginLoader H Env) {file : Bytes}
    (h : platform.accepts file = true) :
    ∃ lib, platform.dlopen file = some lib ∧
      loader.tryFile platform file = loader.addPlugin lib := by
  unfold Platform.accepts at h
  unfold tryFile
  cases hload : platform.dlopen file with
  | none => simp [hload] at h
  | some lib =>
      rw [hload] at h
      exact ⟨lib, rfl, if_pos h⟩

theorem tryFile_skips (loader : PluginLoader H Env) {file : Bytes}
    (h : platform.accepts file = false) : loader.tryFile platform file = loader := by
  unfold Platform.accepts at h
  unfold tryFile
  cases hload : platform.dlopen file with
  | none => rfl
  | some lib =>
      rw [hload] at h
      exact if_neg (Bool.not_eq_true _ ▸ h)

/-- A plugin object for each file that can be loaded, behind those that were
there. -/
theorem foldl_tryFile (files : List Bytes) (loader : PluginLoader H Env) :
    ∃ added, (files.foldl (tryFile platform) loader).plugins = loader.plugins ++ added ∧
      List.Forall₂ (fun file plugin => platform.dlopen file = some plugin.lib)
        (files.filter platform.accepts) added ∧
      added.map ServerPlugin.id = List.range' loader.nextId added.length := by
  induction files generalizing loader with
  | nil => exact ⟨[], by simp, .nil, rfl⟩
  | cons file files ih =>
      cases haccepts : platform.accepts file with
      | false =>
          obtain ⟨added, hrest⟩ := ih loader
          rw [List.foldl_cons, loader.tryFile_skips platform haccepts,
            List.filter_cons_of_neg (by simp [haccepts])]
          exact ⟨added, hrest⟩
      | true =>
          obtain ⟨lib, hload, hadded⟩ := loader.tryFile_accepts platform haccepts
          obtain ⟨added, hplugins, hfiles, hids⟩ := ih (loader.addPlugin lib)
          rw [List.foldl_cons, hadded, List.filter_cons_of_pos haccepts]
          refine ⟨⟨loader.nextId, lib⟩ :: added, ?_, .cons hload hfiles, ?_⟩
          · rw [hplugins, addPlugin, List.append_assoc]
            rfl
          · rw [List.map_cons, hids, List.length_cons, List.range'_succ]
            rfl

/-- The two loops try one file after the other. -/
theorem loadAll_eq (loader : PluginLoader H Env) (root : Bytes) :
    loader.loadAll platform root =
      ((platform.tried root).map (Place.path root)).foldl (tryFile platform) loader := by
  unfold loadAll Platform.tried searchFolder
  simp only [Platform.getAllSubfolders_eq, Platform.getFilesWildcard_eq, List.nil_append,
    List.foldl_append, List.foldl_cons, List.foldl_nil, List.map_append, List.map_flatMap,
    List.foldl_flatMap, List.foldl_map, List.map_map]
  rfl

end PluginLoader

/-- The plugins stand for the places, one object for each, those of the
subfolders first. -/
structure Discovered (platform : Platform H Env) (root : Bytes) (places : List Place)
    (plugins : List (ServerPlugin H Env)) : Prop where
  once : places.Nodup
  ordered : ∃ (below : List Place) (names : List Bytes), places = below ++ names.map Place.inRoot ∧
    ∀ place ∈ below, ∃ folder name, place = .inSubfolder folder name
  libs : List.Forall₂
    (fun place plugin => platform.dlopen (place.path root) = some plugin.lib) places plugins
  objects : (plugins.map ServerPlugin.id).Nodup

theorem PluginLoader.discovered {platform : Platform H Env} (h : platform.ListsOnce)
    {loader : PluginLoader H Env} (hempty : loader.plugins = []) (root : Bytes) :
    Discovered platform root (platform.loaded root) (loader.loadAll platform root).plugins := by
  obtain ⟨added, hplugins, hfiles, hids⟩ :=
    foldl_tryFile platform ((platform.tried root).map (Place.path root)) loader
  rw [← loader.loadAll_eq platform root, hempty, List.nil_append] at hplugins
  rw [List.filter_map, List.forall₂_map_left_iff] at hfiles
  rw [hplugins]
  refine ⟨platform.loaded_nodup h root, platform.loaded_ordered root, hfiles, ?_⟩
  rw [hids]
  exact List.nodup_range'

/-- The two platforms agree on the entry and, where it is a file, on whether it
is looked for and on its library. -/
structure Platform.SameFile (platform other : Platform H Env) (folder name : Bytes) : Prop where
  entry : ∀ kind, platform.HasEntry folder name kind ↔ other.HasEntry folder name kind
  fnmatch : platform.fnmatch PluginLoader.wildcard name = other.fnmatch PluginLoader.wildcard name
  dlopen : platform.dlopen (join folder name) = other.dlopen (join folder name)

/-- The two platforms agree on what leads to the place. They may differ in any
other folder, entry and library. -/
def Platform.SameAt (platform other : Platform H Env) (root : Bytes) : Place → Prop
  | .inSubfolder folder name =>
      (∀ kind, platform.HasEntry root folder kind ↔ other.HasEntry root folder kind) ∧
        platform.SameFile other (join root folder) name
  | .inRoot name => platform.SameFile other root name

theorem Platform.SameAt.loads {platform other : Platform H Env} {root : Bytes} {place : Place}
    (h : platform.SameAt other root place) :
    platform.Loads root place ↔ other.Loads root place := by
  unfold Loads IsPlugin
  cases place with
  | inSubfolder folder name =>
      obtain ⟨hfolder, hfile⟩ := h
      simp only [Finds, HasFile, Place.path, hfolder, hfile.entry, hfile.fnmatch, hfile.dlopen]
  | inRoot name => simp only [Finds, HasFile, Place.path, h.entry, h.fnmatch, h.dlopen]

/-- The folders that are listed on the way to the place. -/
def Place.folders (root : Bytes) : Place → List Bytes
  | .inSubfolder folder _ => [root, Platform.join root folder]
  | .inRoot _ => [root]

/-- A folder that cannot be listed, or whose listing changes, has no say in the
places that it does not lead to. -/
theorem Platform.sameAt_of_opendir {platform other : Platform H Env} {root changed : Bytes}
    {place : Place} (hopendir : ∀ folder, folder ≠ changed →
      platform.opendir folder = other.opendir folder)
    (hfnmatch : platform.fnmatch = other.fnmatch) (hdlopen : platform.dlopen = other.dlopen)
    (h : changed ∉ place.folders root) : platform.SameAt other root place := by
  have hentry : ∀ folder ∈ place.folders root, ∀ name kind,
      platform.HasEntry folder name kind ↔ other.HasEntry folder name kind := by
    intro folder hfolder name kind
    have hne : folder ≠ changed := fun heq => h (heq ▸ hfolder)
    unfold HasEntry
    rw [hopendir folder hne]
  cases place with
  | inSubfolder folder name =>
      simp only [Place.folders, List.forall_mem_cons] at hentry
      refine ⟨hentry.1 folder, hentry.2.1 name, ?_, ?_⟩
      · rw [hfnmatch]
      · rw [hdlopen]
  | inRoot name =>
      simp only [Place.folders, List.forall_mem_cons] at hentry
      refine ⟨hentry.1 name, ?_, ?_⟩
      · rw [hfnmatch]
      · rw [hdlopen]

/-- A file that cannot be loaded, or that is no plugin, has no say in any place
but its own. -/
theorem Platform.sameAt_of_dlopen {platform other : Platform H Env} {root changed : Bytes}
    {place : Place} (hopendir : platform.opendir = other.opendir)
    (hfnmatch : platform.fnmatch = other.fnmatch)
    (hdlopen : ∀ file, file ≠ changed → platform.dlopen file = other.dlopen file)
    (h : place.path root ≠ changed) : platform.SameAt other root place := by
  have hentry : ∀ folder name kind,
      platform.HasEntry folder name kind ↔ other.HasEntry folder name kind := by
    intro folder name kind
    unfold HasEntry
    rw [hopendir]
  have hload := hdlopen _ h
  cases place with
  | inSubfolder folder name =>
      refine ⟨hentry root folder, hentry _ name, ?_, hload⟩
      rw [hfnmatch]
  | inRoot name =>
      refine ⟨hentry root name, ?_, hload⟩
      rw [hfnmatch]

/-- `LoadAll` makes one plugin for each place whose file is found and is a
plugin, and what it makes of a place depends on nothing else. -/
theorem loadAll_exact {platform : Platform H Env} (h : platform.ListsOnce)
    {loader : PluginLoader H Env} (hempty : loader.plugins = []) (root : Bytes) :
    ∃ places, Discovered platform root places (loader.loadAll platform root).plugins ∧
      (∀ place, place ∈ places ↔ platform.Loads root place) ∧
      ∀ other : Platform H Env, other.ListsOnce →
        ∃ otherPlaces, Discovered other root otherPlaces (loader.loadAll other root).plugins ∧
          ∀ place, platform.SameAt other root place → (place ∈ places ↔ place ∈ otherPlaces) := by
  refine ⟨platform.loaded root, loader.discovered h hempty root,
    fun place => platform.mem_loaded, ?_⟩
  intro other hother
  refine ⟨other.loaded root, loader.discovered hother hempty root, ?_⟩
  intro place hsame
  rw [platform.mem_loaded, other.mem_loaded]
  exact hsame.loads

namespace SamplePlatform

def lib (exported : List Bytes) : DynamicLib Unit Unit where
  getProc name := exported.contains name
  defaultPort := 80
  socketType := .tcp
  newHandler _ := ()

/-- One plugin in the root folder and one in a subfolder, among a folder that
cannot be listed, an entry that cannot be stat-ed and libraries that are none. -/
def platform : Platform Unit Unit where
  opendir folder :=
    if folder = ascii "plugins" then
      some [⟨ascii ".", some .directory⟩, ⟨ascii "a_plugin.so", some .other⟩,
        ⟨ascii "http", some .directory⟩, ⟨ascii "locked", some .directory⟩,
        ⟨ascii "b_plugin.so", none⟩, ⟨ascii "notes.txt", some .other⟩]
    else if folder = ascii "plugins/http" then
      some [⟨ascii "c_plugin.so", some .other⟩, ⟨ascii "d_plugin.so", some .other⟩,
        ⟨ascii "e_plugin.so", some .other⟩]
    else none
  fnmatch pattern name := (pattern.drop 1).isSuffixOf name
  dlopen file :=
    if file = ascii "plugins/a_plugin.so" ∨ file = ascii "plugins/http/d_plugin.so" then
      some (lib ServerPlugin.exportedNames)
    else if file = ascii "plugins/http/c_plugin.so" then some (lib [ascii "NewHandler"])
    else none

theorem listsOnce : platform.ListsOnce := by
  intro folder entries h
  simp only [platform] at h
  split at h
  · cases h
    decide +kernel
  · split at h
    · cases h
      decide +kernel
    · cases h

end SamplePlatform

theorem loadAll_exact_sample :
    SamplePlatform.platform.ListsOnce ∧
      ∃ places,
        Discovered SamplePlatform.platform (ascii "plugins") places
          ((PluginLoader.new : PluginLoader Unit Unit).loadAll SamplePlatform.platform
            (ascii "plugins")).plugins ∧
        (∀ place, place ∈ places ↔ SamplePlatform.platform.Loads (ascii "plugins") place) ∧
        ∀ other : Platform Unit Unit, other.ListsOnce →
          ∃ otherPlaces,
            Discovered other (ascii "plugins") otherPlaces
              ((PluginLoader.new : PluginLoader Unit Unit).loadAll other
                (ascii "plugins")).plugins ∧
            ∀ place, SamplePlatform.platform.SameAt other (ascii "plugins") place →
              (place ∈ places ↔ place ∈ otherPlaces) :=
  ⟨SamplePlatform.listsOnce, loadAll_exact SamplePlatform.listsOnce rfl (ascii "plugins")⟩

end ModServer
