import Mathlib.Data.List.Nodup
import Mathlib.Logic.Function.Basic

/-!
Objects on a heap and a list of pointers to the ones that are registered. An
object's key is never used for another one, so a key that is looked up after
its object was freed is noticed. Nothing here refers to the server.
-/

namespace ModServer.Library

structure Registry (V : Type) where
  keys : List Nat
  store : Nat → Option V
  next : Nat

namespace Registry

variable {V : Type}

def empty : Registry V where
  keys := []
  store := fun _ => none
  next := 0

/-- A new object. Its key is `next`. -/
def alloc (r : Registry V) (v : V) : Registry V :=
  { r with store := Function.update r.store r.next (some v), next := r.next + 1 }

def register (r : Registry V) (k : Nat) : Registry V :=
  { r with keys := r.keys ++ [k] }

def set (r : Registry V) (k : Nat) (v : V) : Registry V :=
  { r with store := Function.update r.store k (some v) }

def unregister (r : Registry V) (k : Nat) : Registry V :=
  { r with keys := r.keys.erase k }

def free (r : Registry V) (k : Nat) : Registry V :=
  { r with store := Function.update r.store k none }

/-- A new object that is registered at once. -/
def add (r : Registry V) (v : V) : Registry V :=
  (r.alloc v).register r.next

/-- An object that is freed as soon as it is no longer registered. -/
def drop (r : Registry V) (k : Nat) : Registry V :=
  (r.unregister k).free k

/-- The registered objects are those that exist, and each is registered
once. -/
structure WellFormed (r : Registry V) : Prop where
  nodup : r.keys.Nodup
  live : ∀ k, k ∈ r.keys ↔ ∃ v, r.store k = some v
  below : ∀ k ∈ r.keys, k < r.next

section Operations

variable (r : Registry V) (k : Nat) (v : V)

@[simp] theorem add_keys : (r.add v).keys = r.keys ++ [r.next] := rfl

@[simp] theorem add_next : (r.add v).next = r.next + 1 := rfl

@[simp] theorem add_store : (r.add v).store = Function.update r.store r.next (some v) := rfl

@[simp] theorem set_keys : (r.set k v).keys = r.keys := rfl

@[simp] theorem set_next : (r.set k v).next = r.next := rfl

@[simp] theorem set_store : (r.set k v).store = Function.update r.store k (some v) := rfl

@[simp] theorem drop_keys : (r.drop k).keys = r.keys.erase k := rfl

@[simp] theorem drop_next : (r.drop k).next = r.next := rfl

@[simp] theorem drop_store : (r.drop k).store = Function.update r.store k none := rfl

end Operations

variable {r : Registry V} {k : Nat} {v : V}

/-- What is stored after an update is the new value or was stored before. -/
theorem of_update {store : Nat → Option V} {j : Nat} {o : Option V}
    (h : Function.update store k o j = some v) :
    (j = k ∧ o = some v) ∨ (j ≠ k ∧ store j = some v) := by
  rcases eq_or_ne j k with rfl | hne
  · rw [Function.update_self] at h
    exact Or.inl ⟨rfl, h⟩
  · rw [Function.update_of_ne hne] at h
    exact Or.inr ⟨hne, h⟩

theorem empty_wellFormed : (empty : Registry V).WellFormed := by
  constructor <;> simp [empty]

namespace WellFormed

variable (h : r.WellFormed)

include h

theorem mem_of_store (hv : r.store k = some v) : k ∈ r.keys :=
  (h.live k).mpr ⟨v, hv⟩

theorem lt_next (hv : r.store k = some v) : k < r.next :=
  h.below k (h.mem_of_store hv)

theorem next_not_mem : r.next ∉ r.keys := by
  intro hmem
  exact Nat.lt_irrefl _ (h.below _ hmem)

/-- A key that stores something is not the next one. -/
theorem ne_next (hv : r.store k = some v) : k ≠ r.next :=
  Nat.ne_of_lt (h.lt_next hv)

theorem add (v : V) : (r.add v).WellFormed := by
  constructor
  · rw [add_keys]
    exact h.nodup.append (List.nodup_singleton _)
      (List.disjoint_singleton.mpr h.next_not_mem)
  · intro k
    rw [add_keys, add_store, List.mem_append, List.mem_singleton]
    rcases eq_or_ne k r.next with rfl | hne
    · simp
    · rw [Function.update_of_ne hne, h.live k]
      simp [hne]
  · intro k hk
    rw [add_keys, List.mem_append, List.mem_singleton] at hk
    rw [add_next]
    rcases hk with hmem | rfl
    · have hlt := h.below k hmem
      omega
    · omega

theorem set (hk : k ∈ r.keys) (v : V) : (r.set k v).WellFormed := by
  constructor
  · exact h.nodup
  · intro j
    rw [set_keys, set_store]
    rcases eq_or_ne j k with rfl | hne
    · simp [hk]
    · rw [Function.update_of_ne hne]
      exact h.live j
  · exact h.below

theorem drop (k : Nat) : (r.drop k).WellFormed := by
  constructor
  · exact h.nodup.erase k
  · intro j
    rw [drop_keys, drop_store, h.nodup.mem_erase_iff]
    rcases eq_or_ne j k with rfl | hne
    · simp
    · rw [Function.update_of_ne hne, h.live j]
      simp [hne]
  · intro j hj
    exact h.below j (List.mem_of_mem_erase hj)

end WellFormed

end Registry

end ModServer.Library
