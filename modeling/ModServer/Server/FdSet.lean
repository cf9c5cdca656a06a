import Mathlib.Data.List.Basic

/-!
Descriptors and the sets of them that `select` takes.

An `fd_set` has a bit for each descriptor from 0 below `FD_SETSIZE`. The macros
do not look at the descriptor they are given: for another one `FD_SET` writes
behind the set, and what `FD_ISSET` finds there is not in the set either. Below
the bound they are exact, and what the server relies on is stated there.
-/

namespace ModServer

/-- `Socket::SOCK_TYPE` on UNIX. -/
abbrev Handle := Int32

/-- `Socket::kInvalidSocket` on UNIX. -/
def invalidSocket : Handle := -1

/-- `FD_SETSIZE` on UNIX. -/
def fdSetSize : Int := 1024

/-- An `fd_set` has a bit for the descriptor. -/
def Handle.InSet (sock : Handle) : Prop := 0 ≤ sock.toInt ∧ sock.toInt < fdSetSize

instance (sock : Handle) : Decidable sock.InSet := inferInstanceAs (Decidable (_ ∧ _))

/-- An `fd_set`, by the descriptors whose bits are set. -/
structure FdSet where
  bits : List Handle
  inSet : ∀ sock ∈ bits, sock.InSet
  deriving DecidableEq, Repr

namespace FdSet

instance : Membership Handle FdSet := ⟨fun set sock => sock ∈ set.bits⟩

instance (sock : Handle) (set : FdSet) : Decidable (sock ∈ set) :=
  inferInstanceAs (Decidable (sock ∈ set.bits))

instance : HasSubset FdSet := ⟨fun left right => ∀ sock, sock ∈ left → sock ∈ right⟩

/-- `FD_ZERO`. -/
def zero : FdSet := ⟨[], fun _ hmem => absurd hmem List.not_mem_nil⟩

/-- `FD_SET`. Without a bit for the descriptor the set stays as it is. -/
def set (old : FdSet) (sock : Handle) : FdSet :=
  if h : sock.InSet then
    ⟨old.bits ++ [sock], by
      intro other hmem
      rcases List.mem_append.mp hmem with hold | hnew
      · exact old.inSet other hold
      · rw [List.mem_singleton.mp hnew]
        exact h⟩
  else old

/-- `FD_ISSET`, where `outside` is what it finds for a descriptor that the set
has no bit for. -/
def isSet (set : FdSet) (outside : Handle → Bool) (sock : Handle) : Bool :=
  if sock.InSet then sock ∈ set else outside sock

/-- The set after `FD_ZERO` and an `FD_SET` for each of these. -/
def filled (socks : List Handle) : FdSet := socks.foldl set zero

theorem not_mem_zero (sock : Handle) : sock ∉ zero := List.not_mem_nil

theorem mem_set {old : FdSet} {sock other : Handle} :
    other ∈ old.set sock ↔ other ∈ old ∨ (other = sock ∧ sock.InSet) := by
  unfold set
  split
  · rename_i hin
    constructor
    · intro hmem
      rcases List.mem_append.mp hmem with hold | hnew
      · exact Or.inl hold
      · exact Or.inr ⟨List.mem_singleton.mp hnew, hin⟩
    · rintro (hold | ⟨rfl, -⟩)
      · exact List.mem_append_left _ hold
      · exact List.mem_append_right _ (List.mem_singleton_self _)
  · rename_i hout
    constructor
    · exact Or.inl
    · rintro (hold | ⟨-, hin⟩)
      · exact hold
      · exact absurd hin hout

/-- A filled set holds the descriptors that it has bits for. -/
theorem mem_filled {socks : List Handle} {sock : Handle} :
    sock ∈ filled socks ↔ sock ∈ socks ∧ sock.InSet := by
  have hfold (old : FdSet) :
      sock ∈ socks.foldl set old ↔ sock ∈ old ∨ (sock ∈ socks ∧ sock.InSet) := by
    induction socks generalizing old with
    | nil => simp
    | cons first socks ih =>
        rw [List.foldl_cons, ih, mem_set, List.mem_cons]
        constructor
        · rintro ((hold | ⟨rfl, hin⟩) | ⟨hmem, hin⟩)
          · exact Or.inl hold
          · exact Or.inr ⟨Or.inl rfl, hin⟩
          · exact Or.inr ⟨Or.inr hmem, hin⟩
        · rintro (hold | ⟨rfl | hmem, hin⟩)
          · exact Or.inl (Or.inl hold)
          · exact Or.inl (Or.inr ⟨rfl, hin⟩)
          · exact Or.inr ⟨hmem, hin⟩
  rw [filled, hfold, or_iff_right (not_mem_zero sock)]

/-- Where the set has a bit, `FD_ISSET` is exact. -/
theorem isSet_iff {set : FdSet} {outside : Handle → Bool} {sock : Handle} (h : sock.InSet) :
    set.isSet outside sock = true ↔ sock ∈ set := by
  rw [isSet, if_pos h, decide_eq_true_iff]

theorem zero_subset (set : FdSet) : zero ⊆ set := fun sock hmem => absurd hmem (not_mem_zero sock)

theorem subset_rfl {set : FdSet} : set ⊆ set := fun _ hmem => hmem

end FdSet

/-- A descriptor as the unsigned number that `m_maxFd` is compared with. -/
theorem Handle.toNat_toUInt32 {h : Handle} (hnonneg : 0 ≤ h.toInt) :
    (h.toUInt32.toNat : Int) = h.toInt := by
  have hcond := h.toBitVec.toInt_eq_toNat_cond
  have hnat : h.toUInt32.toNat = h.toBitVec.toNat := rfl
  have hint : h.toInt = h.toBitVec.toInt := rfl
  rw [hint] at hnonneg ⊢
  rw [hnat]
  omega

theorem Handle.toNat_succ {h : Handle} (hnonneg : 0 ≤ h.toInt) :
    ((h + 1).toUInt32.toNat : Int) = h.toInt + 1 := by
  have hcond := h.toBitVec.toInt_eq_toNat_cond
  have hbound := h.toBitVec.isLt
  have hnat : (h + 1).toUInt32.toNat = (h.toBitVec + 1).toNat := rfl
  have hint : h.toInt = h.toBitVec.toInt := rfl
  rw [hint] at hnonneg ⊢
  have hone : (1 : BitVec 32).toNat = 1 := rfl
  rw [hnat, BitVec.toNat_add, hone]
  omega

end ModServer
