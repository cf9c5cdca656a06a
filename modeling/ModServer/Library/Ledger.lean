import Mathlib.Data.List.Nodup

/-!
A ledger of what is taken and given back. An entry that takes what is held, or
gives back what is not, cannot be settled. Nothing here refers to the server.
-/

namespace ModServer.Library

inductive Entry (K : Type*) where
  | acquire (key : K)
  | release (key : K)
  deriving DecidableEq, Repr

variable {K : Type*} [DecidableEq K]

/-- What is held after one more entry. -/
def Entry.settle (held : List K) : Entry K → Option (List K)
  | .acquire key => if key ∈ held then none else some (held ++ [key])
  | .release key => if key ∈ held then some (held.erase key) else none

/-- What is held after all entries. -/
def settle (held : List K) (entries : List (Entry K)) : Option (List K) :=
  entries.foldlM Entry.settle held

namespace Entry

variable {held now : List K} {key : K}

theorem settle_acquire_iff :
    (Entry.acquire key).settle held = some now ↔ key ∉ held ∧ held ++ [key] = now := by
  by_cases hkey : key ∈ held
  · simp [Entry.settle, hkey]
  · simp [Entry.settle, hkey]

theorem settle_release_iff :
    (Entry.release key).settle held = some now ↔ key ∈ held ∧ held.erase key = now := by
  by_cases hkey : key ∈ held
  · simp [Entry.settle, hkey]
  · simp [Entry.settle, hkey]

/-- No entry makes a key be held twice. -/
theorem settle_nodup {entry : Entry K} (h : entry.settle held = some now) (hnodup : held.Nodup) :
    now.Nodup := by
  cases entry with
  | acquire key =>
      obtain ⟨hfree, rfl⟩ := settle_acquire_iff.mp h
      exact hnodup.append (List.nodup_singleton _) (List.disjoint_singleton.mpr hfree)
  | release key =>
      obtain ⟨-, rfl⟩ := settle_release_iff.mp h
      exact hnodup.erase key

/-- Only taking a key puts it among those that are held. -/
theorem eq_acquire_of_settle {entry : Entry K} (h : entry.settle held = some now)
    (hbefore : key ∉ held) (hnow : key ∈ now) : entry = .acquire key := by
  cases entry with
  | acquire other =>
      obtain ⟨-, rfl⟩ := settle_acquire_iff.mp h
      rcases List.mem_append.mp hnow with hold | hnew
      · exact absurd hold hbefore
      · rw [List.mem_singleton.mp hnew]
  | release other =>
      obtain ⟨-, rfl⟩ := settle_release_iff.mp h
      exact absurd (List.mem_of_mem_erase hnow) hbefore

end Entry

section Settle

variable {held now last : List K} {entries more : List (Entry K)} {key : K}

@[simp] theorem settle_nil : settle held [] = some held := rfl

theorem settle_append :
    settle held (entries ++ more) = (settle held entries).bind (fun now => settle now more) :=
  List.foldlM_append

theorem settle_append_iff :
    settle held (entries ++ more) = some last ↔
      ∃ now, settle held entries = some now ∧ settle now more = some last := by
  rw [settle_append, Option.bind_eq_some_iff]

theorem settle_cons_iff {entry : Entry K} :
    settle held (entry :: entries) = some last ↔
      ∃ now, entry.settle held = some now ∧ settle now entries = some last :=
  Option.bind_eq_some_iff

theorem settle_acquire (h : key ∉ held) : settle held [.acquire key] = some (held ++ [key]) :=
  settle_cons_iff.mpr ⟨_, Entry.settle_acquire_iff.mpr ⟨h, rfl⟩, settle_nil⟩

theorem settle_release (h : key ∈ held) : settle held [.release key] = some (held.erase key) :=
  settle_cons_iff.mpr ⟨_, Entry.settle_release_iff.mpr ⟨h, rfl⟩, settle_nil⟩

/-- What is taken and given back at once leaves nothing behind. -/
theorem settle_acquire_release (h : key ∉ held) :
    settle held [.acquire key, .release key] = some held := by
  have hmem : key ∈ held ++ [key] := List.mem_append_right _ (List.mem_singleton_self _)
  have hback : (held ++ [key]).erase key = held := by
    rw [List.erase_append_right _ h, List.erase_cons_head, List.append_nil]
  have hrelease := settle_release hmem
  rw [hback] at hrelease
  exact settle_append_iff.mpr ⟨_, settle_acquire h, hrelease⟩

/-- No key is ever held twice. -/
theorem settle_nodup (h : settle held entries = some now) (hnodup : held.Nodup) : now.Nodup := by
  induction entries generalizing held with
  | nil =>
      cases h
      exact hnodup
  | cons entry entries ih =>
      obtain ⟨next, hnext, hrest⟩ := settle_cons_iff.mp h
      exact ih hrest (entry.settle_nodup hnext hnodup)

/-- What was not held has been taken since. -/
theorem acquire_mem_of_held (h : settle held entries = some now) (hbefore : key ∉ held)
    (hnow : key ∈ now) : .acquire key ∈ entries := by
  induction entries generalizing held with
  | nil =>
      cases h
      exact absurd hnow hbefore
  | cons entry entries ih =>
      obtain ⟨next, hnext, hrest⟩ := settle_cons_iff.mp h
      by_cases hkey : key ∈ next
      · rw [entry.eq_acquire_of_settle hnext hbefore hkey]
        exact List.mem_cons_self
      · exact List.mem_cons_of_mem _ (ih hrest hkey)

/-- Between two releases of a key it is taken again: nothing is given back
twice. -/
theorem acquire_between_releases {between : List (Entry K)} (hnodup : held.Nodup)
    (h : settle held (entries ++ .release key :: (between ++ .release key :: more)) = some last) :
    .acquire key ∈ between := by
  obtain ⟨now, hnow, hrest⟩ := settle_append_iff.mp h
  obtain ⟨released, hreleased, hrest⟩ := settle_cons_iff.mp hrest
  obtain ⟨later, hlater, hagain⟩ := settle_append_iff.mp hrest
  obtain ⟨_, hheld, -⟩ := settle_cons_iff.mp hagain
  obtain ⟨-, rfl⟩ := Entry.settle_release_iff.mp hreleased
  obtain ⟨hmem, -⟩ := Entry.settle_release_iff.mp hheld
  exact acquire_mem_of_held hlater (settle_nodup hnow hnodup).not_mem_erase hmem

end Settle

end ModServer.Library
