import Mathlib.Data.List.Nodup
import Mathlib.Data.List.Perm.Basic

/-!
A table that keeps the first entry it is given for a key. Nothing here refers
to the server.
-/

namespace ModServer.Library

variable {K V : Type*}

/-- Inserting the entries one after the other. An entry whose key is there
already is dropped. -/
def insertAll {cmp : K → K → Ordering} (table : Std.TreeMap K V cmp) (entries : List (K × V)) :
    Std.TreeMap K V cmp :=
  entries.foldl (fun table entry => table.insertIfNew entry.1 entry.2) table

variable [BEq K] [LawfulBEq K]

theorem getElem?_insertAll {cmp : K → K → Ordering} [Std.TransCmp cmp] [Std.LawfulEqCmp cmp]
    (table : Std.TreeMap K V cmp) (entries : List (K × V)) (key : K) :
    (insertAll table entries)[key]? = table[key]?.or (entries.lookup key) := by
  induction entries generalizing table with
  | nil => simp [insertAll]
  | cons entry entries ih =>
      have hrest := ih (table.insertIfNew entry.1 entry.2)
      rw [insertAll, List.foldl_cons, ← insertAll, hrest, Std.TreeMap.getElem?_insertIfNew,
        List.lookup_cons]
      by_cases hkey : key = entry.1
      · subst hkey
        by_cases hmem : entry.1 ∈ table
        · simp [hmem]
        · simp [hmem]
      · have hcmp : cmp entry.1 key ≠ .eq :=
          fun heq => hkey (Std.LawfulEqCmp.compare_eq_iff_eq.mp heq).symm
        have hbeq : (key == entry.1) = false := beq_eq_false_iff_ne.mpr hkey
        simp [hcmp, hbeq]

/-- An entry behind another one with its key is never found. -/
theorem lookup_shadowed {before after : List (K × V)} {entry first : K × V}
    (hfirst : first ∈ before) (hkey : first.1 = entry.1) (key : K) :
    (before ++ entry :: after).lookup key = (before ++ after).lookup key := by
  obtain ⟨name, value⟩ := entry
  rw [List.lookup_append, List.lookup_append]
  by_cases hsame : key = name
  · have hfound : (before.lookup key).isSome := by
      rw [List.lookup_isSome_iff]
      exact ⟨first, hfirst, by simp [hsame, hkey]⟩
    rw [Option.or_of_isSome hfound, Option.or_of_isSome hfound]
  · have hbeq : (key == name) = false := beq_eq_false_iff_ne.mpr hsame
    rw [List.lookup_cons, hbeq]

theorem lookup_eq_some_of_mem {entries : List (K × V)} {key : K} {value : V}
    (h : (key, value) ∈ entries) (hnodup : (entries.map Prod.fst).Nodup) :
    entries.lookup key = some value := by
  obtain ⟨before, after, rfl⟩ := List.append_of_mem h
  rw [List.lookup_eq_some_iff]
  refine ⟨before, after, rfl, ?_⟩
  intro entry hentry
  rw [List.map_append, List.map_cons, List.nodup_append] at hnodup
  have hne := hnodup.2.2 entry.1 (List.mem_map_of_mem hentry) key List.mem_cons_self
  simpa using hne.symm

end ModServer.Library
