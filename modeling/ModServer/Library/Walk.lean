import Mathlib.Data.List.Nodup
import Mathlib.Logic.Relation

/-!
A walk through a forest of which only a function to the children of a node is
known, each node in front of those below it. The walk is bounded in its depth,
since nothing says that the forest is finite. Nothing here refers to the
server.
-/

namespace ModServer.Library

open Relation

variable {α : Type*}

/-- The second node is a child of the first. -/
def Child (children : α → List α) (x y : α) : Prop := y ∈ children x

/-- Appends the nodes below a node, if their depth is less than `fuel`. -/
def walk (children : α → List α) : Nat → α → List α → Option (List α)
  | 0, _, _ => none
  | fuel + 1, node, found =>
      (children node).foldlM (fun found child => walk children fuel child (found ++ [child])) found

/-- The nodes below a node, as one list for each child. -/
def preorder (children : α → List α) : Nat → α → Option (List (List α))
  | 0, _ => none
  | fuel + 1, node =>
      (children node).mapM (fun child =>
        (preorder children fuel child).map (fun parts => child :: parts.flatten))

variable {children : α → List α}

/-- What the walk of a list of children appends does not depend on what was
found before. -/
theorem foldlM_append {step : List α → α → Option (List α)} {part : α → Option (List α)}
    (h : ∀ found node, step found node = (part node).map (found ++ ·)) (nodes found : List α) :
    nodes.foldlM step found = (nodes.mapM part).map (fun parts => found ++ parts.flatten) := by
  induction nodes generalizing found with
  | nil => simp
  | cons node nodes ih =>
      rw [List.foldlM_cons, List.mapM_cons, h]
      cases part node with
      | none => rfl
      | some more =>
          have hrest := ih (found ++ more)
          simp only [Option.map_some, Option.bind_eq_bind, Option.bind_some, hrest]
          cases nodes.mapM part with
          | none => rfl
          | some parts => simp

theorem walk_eq (fuel : Nat) (node : α) (found : List α) :
    walk children fuel node found =
      (preorder children fuel node).map (fun parts => found ++ parts.flatten) := by
  induction fuel generalizing node found with
  | zero => rfl
  | succ fuel ih =>
      apply foldlM_append
      intro found child
      rw [ih, Option.map_map]
      congr 1
      funext parts
      simp

theorem mapM_eq_some_iff {β : Type*} {f : α → Option β} {nodes : List α} {parts : List β} :
    nodes.mapM f = some parts ↔ List.Forall₂ (fun node part => f node = some part) nodes parts := by
  induction nodes generalizing parts with
  | nil =>
      rw [List.mapM_nil, List.forall₂_nil_left_iff]
      exact ⟨fun h => (Option.some.inj h).symm, fun h => congrArg some h.symm⟩
  | cons node nodes ih =>
      rw [List.mapM_cons, List.forall₂_cons_left_iff]
      constructor
      · intro h
        obtain ⟨part, hpart, hmore⟩ := Option.bind_eq_some_iff.mp h
        obtain ⟨rest, hrest, heq⟩ := Option.bind_eq_some_iff.mp hmore
        exact ⟨part, rest, hpart, ih.mp hrest, (Option.some.inj heq).symm⟩
      · intro h
        obtain ⟨part, rest, hpart, hrest, rfl⟩ := h
        have hmap : nodes.mapM f = some rest := ih.mpr hrest
        simp [hpart, hmap]

theorem exists_of_forall₂ {β : Type*} {R : α → β → Prop} {l : List α} {l' : List β}
    (h : List.Forall₂ R l l') {x : α} (hx : x ∈ l) : ∃ y ∈ l', R x y := by
  induction h with
  | nil => cases hx
  | cons hfirst _ ih =>
      rcases List.mem_cons.mp hx with rfl | hx
      · exact ⟨_, List.mem_cons_self, hfirst⟩
      · obtain ⟨y, hy, hxy⟩ := ih hx
        exact ⟨y, List.mem_cons_of_mem _ hy, hxy⟩

theorem pairwise_of_forall₂ {β : Type*} {R : α → β → Prop} {S : α → α → Prop} {T : β → β → Prop}
    {l : List α} {l' : List β} (h : List.Forall₂ R l l') (hl : l.Pairwise S)
    (hT : ∀ {x y x' y'}, R x x' → R y y' → S x y → T x' y') : l'.Pairwise T := by
  induction h with
  | nil => exact .nil
  | cons hfirst hrest ih =>
      obtain ⟨hhead, htail⟩ := List.pairwise_cons.mp hl
      refine List.pairwise_cons.mpr ⟨?_, ih htail⟩
      intro y' hy'
      obtain ⟨y, hy, hyy'⟩ := exists_of_forall₂ hrest.flip hy'
      exact hT hfirst hyy' (hhead y hy)

/-- The parts of a walk that ended, one for each child. -/
theorem preorder_parts {fuel : Nat} {node : α} {parts : List (List α)}
    (h : preorder children (fuel + 1) node = some parts) :
    List.Forall₂ (fun child part => ∃ below, preorder children fuel child = some below ∧
      child :: below.flatten = part) (children node) parts := by
  refine (mapM_eq_some_iff.mp h).imp ?_
  intro child part hpart
  exact Option.map_eq_some_iff.mp hpart

/-- The walk ends when it ends at every child. -/
theorem preorder_of_children {fuel : Nat} {node : α}
    (h : ∀ child ∈ children node, ∃ parts, preorder children fuel child = some parts) :
    ∃ parts, preorder children (fuel + 1) node = some parts := by
  unfold preorder
  generalize children node = nodes at h ⊢
  induction nodes with
  | nil => exact ⟨[], rfl⟩
  | cons child nodes ih =>
      obtain ⟨below, hbelow⟩ := h child List.mem_cons_self
      obtain ⟨parts, hparts⟩ := ih (fun other hother => h other (List.mem_cons_of_mem _ hother))
      refine ⟨(child :: below.flatten) :: parts, ?_⟩
      simp [hbelow, hparts]

theorem preorder_more {fuel : Nat} {node : α} {parts : List (List α)}
    (h : preorder children fuel node = some parts) (more : Nat) :
    preorder children (fuel + more) node = some parts := by
  induction fuel generalizing node parts with
  | zero => cases h
  | succ fuel ih =>
      rw [Nat.succ_add]
      apply mapM_eq_some_iff.mpr
      refine (preorder_parts h).imp ?_
      intro child part hpart
      obtain ⟨below, hbelow, rfl⟩ := hpart
      exact Option.map_eq_some_iff.mpr ⟨below, ih hbelow, rfl⟩

theorem preorder_unique {fuel other : Nat} {node : α} {parts otherParts : List (List α)}
    (h : preorder children fuel node = some parts)
    (hother : preorder children other node = some otherParts) : parts = otherParts := by
  have hmore := preorder_more h other
  rw [Nat.add_comm, preorder_more hother fuel] at hmore
  exact (Option.some.inj hmore).symm

/-- The walk finds what is below the node. -/
theorem mem_preorder {fuel : Nat} {node : α} {parts : List (List α)}
    (h : preorder children fuel node = some parts) (x : α) :
    x ∈ parts.flatten ↔ TransGen (Child children) node x := by
  induction fuel generalizing node parts x with
  | zero => cases h
  | succ fuel ih =>
      have hparts := preorder_parts h
      rw [List.mem_flatten, TransGen.head'_iff]
      constructor
      · intro hx
        obtain ⟨part, hpart, hx⟩ := hx
        obtain ⟨child, hchild, below, hbelow, rfl⟩ := exists_of_forall₂ hparts.flip hpart
        refine ⟨child, hchild, ?_⟩
        rcases List.mem_cons.mp hx with rfl | hx
        · exact .refl
        · exact ((ih hbelow x).mp hx).to_reflTransGen
      · intro hx
        obtain ⟨child, hchild, hx⟩ := hx
        obtain ⟨part, hpart, below, hbelow, rfl⟩ := exists_of_forall₂ hparts hchild
        refine ⟨_, hpart, ?_⟩
        rcases reflTransGen_iff_eq_or_transGen.mp hx with rfl | hx
        · exact List.mem_cons_self
        · exact List.mem_cons_of_mem _ ((ih hbelow x).mpr hx)

/-- The walk ends exactly where no path goes on without end. -/
theorem exists_preorder_iff {node : α} :
    (∃ fuel parts, preorder children fuel node = some parts) ↔
      Acc (fun x y => Child children y x) node := by
  constructor
  · intro h
    obtain ⟨fuel, parts, h⟩ := h
    induction fuel generalizing node parts with
    | zero => cases h
    | succ fuel ih =>
        constructor
        intro child hchild
        obtain ⟨_, -, below, hbelow, -⟩ := exists_of_forall₂ (preorder_parts h) hchild
        exact ih below hbelow
  · intro h
    induction h with
    | intro node _ ih =>
        -- The children end with fuels of their own, all with the sum of these.
        have hcommon : ∀ nodes : List α, (∀ child ∈ nodes, Child children node child) →
            ∃ fuel, ∀ child ∈ nodes, ∃ parts, preorder children fuel child = some parts := by
          intro nodes hnodes
          induction nodes with
          | nil => exact ⟨0, fun child hchild => absurd hchild List.not_mem_nil⟩
          | cons first nodes ihnodes =>
              obtain ⟨fuel, parts, hfirst⟩ := ih first (hnodes first List.mem_cons_self)
              obtain ⟨more, hmore⟩ := ihnodes
                (fun child hchild => hnodes child (List.mem_cons_of_mem _ hchild))
              refine ⟨fuel + more, ?_⟩
              intro child hchild
              rcases List.mem_cons.mp hchild with rfl | hchild
              · exact ⟨parts, preorder_more hfirst more⟩
              · obtain ⟨parts, hparts⟩ := hmore child hchild
                rw [Nat.add_comm]
                exact ⟨parts, preorder_more hparts fuel⟩
        obtain ⟨fuel, hfuel⟩ := hcommon (children node) (fun child hchild => hchild)
        obtain ⟨parts, hparts⟩ := preorder_of_children hfuel
        exact ⟨fuel + 1, parts, hparts⟩

section Growing

variable {size : α → Nat} (hgrow : ∀ {x y}, Child children x y → size x < size y)

include hgrow

/-- A node that grows with each step below a limit bounds the depth. -/
theorem preorder_of_limit {limit fuel : Nat} {node : α}
    (hlimit : ∀ x, limit < size x → children x = []) (hfuel : limit < size node + fuel) :
    ∃ parts, preorder children (fuel + 1) node = some parts := by
  induction fuel generalizing node with
  | zero =>
      have hnone := hlimit node hfuel
      exact ⟨[], by simp [preorder, hnone]⟩
  | succ fuel ih =>
      apply preorder_of_children
      intro child hchild
      have hsize := hgrow hchild
      exact ih (by omega)

theorem size_lt_of_below {x y : α} (h : TransGen (Child children) x y) : size x < size y := by
  induction h with
  | single hchild => exact hgrow hchild
  | tail _ hchild ih => exact Nat.lt_trans ih (hgrow hchild)

theorem not_below_parent {x y : α} (h : Child children x y) :
    ¬ ReflTransGen (Child children) y x := by
  intro hback
  have hloop : TransGen (Child children) x x := TransGen.head' h hback
  exact Nat.lt_irrefl _ (size_lt_of_below hgrow hloop)

variable (hparent : ∀ {x y z}, Child children x z → Child children y z → x = y)

include hparent

/-- Two children of a node have nothing below them in common. -/
theorem apart_of_children {node x y z : α} (hx : Child children node x)
    (hy : Child children node y) (hne : x ≠ y) (hxz : ReflTransGen (Child children) x z)
    (hyz : ReflTransGen (Child children) y z) : False := by
  have hsingle : Relator.RightUnique (Function.swap (Child children)) :=
    fun _ _ _ hleft hright => hparent hleft hright
  have habove : ∀ {x y}, Child children node x → Child children node y → x ≠ y →
      ¬ ReflTransGen (Child children) y x := by
    intro x y hx hy hne hyx
    rcases ReflTransGen.cases_tail hyx with heq | ⟨above, hback, hstep⟩
    · exact hne heq
    · obtain rfl := hparent hx hstep
      exact not_below_parent hgrow hy hback
  rcases ReflTransGen.total_of_right_unique hsingle hxz.swap hyz.swap with hbelow | hbelow
  · exact habove hx hy hne hbelow.swap
  · exact habove hy hx hne.symm hbelow.swap

/-- No node is found twice, or behind one that is below it. -/
theorem preorder_pairwise (hnodup : ∀ x, (children x).Nodup) {fuel : Nat} {node : α}
    {parts : List (List α)} (h : preorder children fuel node = some parts) :
    parts.flatten.Pairwise (fun x y => ¬ ReflTransGen (Child children) y x) := by
  induction fuel generalizing node parts with
  | zero => cases h
  | succ fuel ih =>
      have hparts := (List.forall₂_and_left (children node) parts).mpr
        ⟨fun child (hchild : Child children node child) => hchild, preorder_parts h⟩
      have hunder : ∀ {child part}, (∃ below, preorder children fuel child = some below ∧
          child :: below.flatten = part) → ∀ z ∈ part, ReflTransGen (Child children) child z := by
        intro child part hpart z hz
        obtain ⟨below, hbelow, rfl⟩ := hpart
        rcases List.mem_cons.mp hz with rfl | hz
        · exact .refl
        · exact ((mem_preorder hbelow z).mp hz).to_reflTransGen
      refine List.pairwise_flatten.mpr ⟨?_, ?_⟩
      · intro part hpart
        obtain ⟨child, -, -, below, hbelow, rfl⟩ := exists_of_forall₂ hparts.flip hpart
        refine List.pairwise_cons.mpr ⟨?_, ih hbelow⟩
        intro z hz hback
        have hloop := ((mem_preorder hbelow z).mp hz).trans_left hback
        exact Nat.lt_irrefl _ (size_lt_of_below hgrow hloop)
      · refine pairwise_of_forall₂ hparts (hnodup node) ?_
        intro first second firstPart secondPart hfirst hsecond hne x hx y hy hyx
        have hsecondx := (hunder hsecond.2 y hy).trans hyx
        exact apart_of_children hgrow hparent hfirst.1 hsecond.1 hne
          (hunder hfirst.2 x hx) hsecondx

end Growing

end ModServer.Library
