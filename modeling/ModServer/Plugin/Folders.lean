import ModServer.Library.Walk
import ModServer.Plugin.Discovery

/-!
`Folder::GetAllSubfolders` with recursion, from `base/path_unix.cpp`. It does
not notice that it follows a link in a circle, and has no bound of its own. A
bound on the length of the paths that can be opened is enough for it to end,
with the folders below the given one, each once and none before the one that
it lies in.
-/

namespace ModServer

open Library Relation

variable {H Env : Type}

def slash : UInt8 := 47

namespace Platform

/-- `Folder::GetAllSubfolders`, which has no result here when its calls are
nested deeper than `fuel`. -/
def getAllSubfoldersWithin (platform : Platform H Env) (recursive : Bool) :
    Nat → Bytes → List Bytes → Option (List Bytes)
  | 0, _, _ => none
  | fuel + 1, folder, subfolders =>
      match platform.opendir folder with
      | none => some subfolders
      | some entries =>
          entries.foldlM (fun subfolders entry =>
            if isDots entry.name then some subfolders
            else if entry.stat = some .directory then
              let subfolder := join folder entry.name
              if recursive then
                platform.getAllSubfoldersWithin recursive fuel subfolder (subfolders ++ [subfolder])
              else some (subfolders ++ [subfolder])
            else some subfolders) subfolders

/-- The paths of the folders directly in a folder. -/
def subfolders (platform : Platform H Env) (folder : Bytes) : List Bytes :=
  (platform.names folder .directory (fun _ => true)).map (join folder)

/-- The second folder lies directly in the first. -/
def Subfolder (platform : Platform H Env) : Bytes → Bytes → Prop := Child platform.subfolders

/-- The second folder lies in the first, at any depth. -/
def Inside (platform : Platform H Env) : Bytes → Bytes → Prop := TransGen platform.Subfolder

/-- Without recursion it is the function that `LoadAll` calls. -/
theorem getAllSubfoldersWithin_flat (platform : Platform H Env) (fuel : Nat) (folder : Bytes)
    (subfolders : List Bytes) :
    platform.getAllSubfoldersWithin false (fuel + 1) folder subfolders =
      some (platform.getAllSubfolders folder subfolders) := by
  unfold getAllSubfoldersWithin getAllSubfolders
  cases platform.opendir folder with
  | none => rfl
  | some entries =>
      simp only [Bool.false_eq_true, if_false]
      induction entries generalizing subfolders with
      | nil => rfl
      | cons entry entries ih =>
          rw [List.foldlM_cons, List.foldl_cons, ← ih]
          unfold addSubfolder
          split
          · rfl
          · split
            · rfl
            · rfl

/-- With recursion it is the walk through the folders. -/
theorem getAllSubfoldersWithin_recursive (platform : Platform H Env) (fuel : Nat) (folder : Bytes)
    (subfolders : List Bytes) :
    platform.getAllSubfoldersWithin true fuel folder subfolders =
      walk platform.subfolders fuel folder subfolders := by
  induction fuel generalizing folder subfolders with
  | zero => rfl
  | succ fuel ih =>
      unfold getAllSubfoldersWithin walk Platform.subfolders names
      cases platform.opendir folder with
      | none => rfl
      | some entries =>
          simp only [Option.getD_some, if_true, ih]
          induction entries generalizing subfolders with
          | nil => rfl
          | cons entry entries ihentries =>
              rw [List.foldlM_cons, List.filter_cons]
              by_cases hkeep : keeps .directory (fun _ => true) entry = true
              · have hentry : isDots entry.name = false ∧ entry.stat = some .directory := by
                  simpa [keeps] using hkeep
                rw [if_pos hkeep, hentry.1, hentry.2, List.map_cons, List.map_cons,
                  List.foldlM_cons]
                simp only [Bool.false_eq_true, if_false, if_true]
                congr 1
                funext found
                exact ihentries found
              · rw [if_neg hkeep, ← ihentries]
                cases hdots : isDots entry.name with
                | true => rfl
                | false =>
                    have hstat : entry.stat ≠ some .directory := by
                      intro hstat
                      exact hkeep (by simp [keeps, hdots, hstat])
                    simp [hstat]

/-- The recursion ends exactly when there is no endless chain of folders, each
in the one before it. -/
theorem getAllSubfolders_ends (platform : Platform H Env) (folder : Bytes)
    (subfolders : List Bytes) :
    (∃ fuel found, platform.getAllSubfoldersWithin true fuel folder subfolders = some found) ↔
      Acc (fun inner outer => platform.Subfolder outer inner) folder := by
  have hwalk := @exists_preorder_iff Bytes platform.subfolders folder
  refine Iff.trans ?_ hwalk
  apply exists_congr
  intro fuel
  rw [getAllSubfoldersWithin_recursive, walk_eq]
  constructor
  · intro h
    obtain ⟨found, hfound⟩ := h
    obtain ⟨parts, hparts, -⟩ := Option.map_eq_some_iff.mp hfound
    exact ⟨parts, hparts⟩
  · intro h
    obtain ⟨parts, hparts⟩ := h
    exact ⟨_, Option.map_eq_some_iff.mpr ⟨parts, hparts, rfl⟩⟩

/-! A path says in which folder it lies, since no name has a slash. -/

/-- `opendir` refuses a path that is longer than `limit`. -/
def Limited (platform : Platform H Env) (limit : Nat) : Prop :=
  ∀ folder, limit < folder.length → platform.opendir folder = none

def Named (platform : Platform H Env) : Prop :=
  ∀ folder entries, platform.opendir folder = some entries →
    ∀ entry ∈ entries, slash ∉ entry.name

theorem eq_of_cons_eq {before name other : Bytes} (h : slash :: name = before ++ slash :: other)
    (hname : slash ∉ name) : before = [] ∧ name = other := by
  cases before with
  | nil => exact ⟨rfl, List.cons.inj h |>.2⟩
  | cons first before =>
      have hmem : slash ∈ name := by
        rw [(List.cons.inj h).2]
        exact List.mem_append_right _ List.mem_cons_self
      exact absurd hmem hname

theorem join_inj {folder other name otherName : Bytes}
    (h : join folder name = join other otherName) (hname : slash ∉ name)
    (hother : slash ∉ otherName) : folder = other ∧ name = otherName := by
  have happend : folder ++ slash :: name = other ++ slash :: otherName := by
    simpa [join, ascii, slash] using h
  rcases List.append_eq_append_iff.mp happend with ⟨before, rfl, hrest⟩ | ⟨before, rfl, hrest⟩
  · obtain ⟨rfl, rfl⟩ := eq_of_cons_eq hrest hname
    exact ⟨(List.append_nil _).symm, rfl⟩
  · obtain ⟨rfl, rfl⟩ := eq_of_cons_eq hrest hother
    exact ⟨List.append_nil _, rfl⟩

section Tree

variable {platform : Platform H Env}

theorem subfolder_cases {outer inner : Bytes} (h : platform.Subfolder outer inner) :
    ∃ name entries, platform.opendir outer = some entries ∧
      ⟨name, some .directory⟩ ∈ entries ∧ inner = join outer name := by
  obtain ⟨name, hname, rfl⟩ := List.mem_map.mp h
  obtain ⟨⟨-, entries, hdir, hentry⟩, -⟩ := (platform.mem_names outer).mp hname
  exact ⟨name, entries, hdir, hentry, rfl⟩

theorem length_lt_of_subfolder {outer inner : Bytes} (h : platform.Subfolder outer inner) :
    outer.length < inner.length := by
  obtain ⟨name, -, -, -, rfl⟩ := subfolder_cases h
  simp [join, ascii]

theorem Named.parent (h : platform.Named) {outer other inner : Bytes}
    (houter : platform.Subfolder outer inner) (hother : platform.Subfolder other inner) :
    outer = other := by
  obtain ⟨name, entries, hdir, hentry, rfl⟩ := subfolder_cases houter
  obtain ⟨otherName, otherEntries, hotherDir, hotherEntry, heq⟩ := subfolder_cases hother
  exact (join_inj heq (h outer entries hdir _ hentry)
    (h other otherEntries hotherDir _ hotherEntry)).1

theorem Named.subfolders_nodup (h : platform.Named) (honce : platform.ListsOnce) (folder : Bytes) :
    (platform.subfolders folder).Nodup := by
  refine (platform.names_nodup folder honce .directory (fun _ => true)).map_on ?_
  intro name hname other hother heq
  obtain ⟨⟨-, entries, hdir, hentry⟩, -⟩ := (platform.mem_names folder).mp hname
  obtain ⟨⟨-, otherEntries, hotherDir, hotherEntry⟩, -⟩ := (platform.mem_names folder).mp hother
  exact (join_inj heq (h folder entries hdir _ hentry)
    (h folder otherEntries hotherDir _ hotherEntry)).2

theorem Limited.subfolders {limit : Nat} (h : platform.Limited limit) (folder : Bytes)
    (hlength : limit < folder.length) : platform.subfolders folder = [] := by
  unfold Platform.subfolders names
  rw [h folder hlength]
  rfl

end Tree

/-- Where paths have a greatest length, the recursion goes no deeper than it.
It appends the folders inside the given one, each once and behind those that
it lies in. -/
theorem getAllSubfolders_recursive {platform : Platform H Env} {limit : Nat}
    (hlimit : platform.Limited limit) (hnamed : platform.Named) (honce : platform.ListsOnce)
    (folder : Bytes) :
    ∃ found : List Bytes,
      (∀ fuel subfolders, limit < folder.length + fuel →
        platform.getAllSubfoldersWithin true (fuel + 1) folder subfolders =
          some (subfolders ++ found)) ∧
      (∀ path, path ∈ found ↔ platform.Inside folder path) ∧
      found.Pairwise (fun path later => path ≠ later ∧ ¬ platform.Inside later path) := by
  have hgrow : ∀ {x y}, Child platform.subfolders x y → x.length < y.length :=
    fun h => length_lt_of_subfolder h
  have hends : ∀ fuel, limit < folder.length + fuel →
      ∃ parts, preorder platform.subfolders (fuel + 1) folder = some parts :=
    fun fuel hfuel => preorder_of_limit hgrow hlimit.subfolders hfuel
  obtain ⟨parts, hparts⟩ := hends (limit + 1) (by omega)
  refine ⟨parts.flatten, ?_, mem_preorder hparts, ?_⟩
  · intro fuel subfolders hfuel
    obtain ⟨others, hothers⟩ := hends fuel hfuel
    rw [getAllSubfoldersWithin_recursive, walk_eq, hothers, preorder_unique hothers hparts]
    rfl
  · have hpairwise := preorder_pairwise hgrow hnamed.parent (hnamed.subfolders_nodup honce) hparts
    refine hpairwise.imp ?_
    intro path later hapart
    constructor
    · intro heq
      rw [heq] at hapart
      exact hapart .refl
    · exact fun hinside => hapart hinside.to_reflTransGen

end Platform

namespace SamplePlatform

theorem named : platform.Named := by
  intro folder entries h
  simp only [platform] at h
  split at h
  · cases h
    decide +kernel
  · split at h
    · cases h
      decide +kernel
    · cases h

theorem limited : platform.Limited 12 := by
  intro folder h
  simp only [platform]
  rw [if_neg, if_neg]
  · rintro rfl
    exact absurd h (by decide)
  · rintro rfl
    exact absurd h (by decide)

end SamplePlatform

theorem getAllSubfolders_recursive_sample :
    ∃ found : List Bytes,
      (∀ fuel subfolders, 12 < (ascii "plugins").length + fuel →
        SamplePlatform.platform.getAllSubfoldersWithin true (fuel + 1) (ascii "plugins")
          subfolders = some (subfolders ++ found)) ∧
      (∀ path, path ∈ found ↔ SamplePlatform.platform.Inside (ascii "plugins") path) ∧
      found.Pairwise (fun path later => path ≠ later ∧
        ¬ SamplePlatform.platform.Inside later path) :=
  Platform.getAllSubfolders_recursive SamplePlatform.limited SamplePlatform.named
    SamplePlatform.listsOnce (ascii "plugins")

end ModServer
