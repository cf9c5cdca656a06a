/-!
Taking apart computations in `Except` that ended well, and lists of them.
Nothing here refers to the server.
-/

namespace ModServer.Library

variable {ε α β : Type}

theorem bind_eq_ok {x : Except ε α} {f : α → Except ε β} {b : β} :
    x >>= f = .ok b ↔ ∃ a, x = .ok a ∧ f a = .ok b := by
  constructor
  · intro h
    cases x with
    | error e => cases h
    | ok a => exact ⟨a, rfl, h⟩
  · rintro ⟨a, rfl, h⟩
    exact h

theorem mapM_cons_eq_ok {f : α → Except ε β} {x : α} {l : List α} {ys : List β} :
    (x :: l).mapM f = .ok ys ↔ ∃ y rest, f x = .ok y ∧ l.mapM f = .ok rest ∧ ys = y :: rest := by
  rw [List.mapM_cons, bind_eq_ok]
  constructor
  · rintro ⟨y, hy, hmore⟩
    obtain ⟨rest, hrest, heq⟩ := bind_eq_ok.mp hmore
    cases heq
    exact ⟨y, rest, hy, hrest, rfl⟩
  · rintro ⟨y, rest, hy, hrest, rfl⟩
    exact ⟨y, hy, bind_eq_ok.mpr ⟨rest, hrest, rfl⟩⟩

theorem exists_mapM {f : α → Except ε β} {l : List α} (h : ∀ x ∈ l, ∃ y, f x = .ok y) :
    ∃ ys, l.mapM f = .ok ys := by
  induction l with
  | nil => exact ⟨[], rfl⟩
  | cons x l ih =>
      obtain ⟨y, hy⟩ := h x List.mem_cons_self
      obtain ⟨rest, hrest⟩ := ih (fun z hz => h z (List.mem_cons_of_mem _ hz))
      exact ⟨y :: rest, mapM_cons_eq_ok.mpr ⟨y, rest, hy, hrest, rfl⟩⟩

theorem mem_of_mapM {f : α → Except ε β} {l : List α} {ys : List β} (h : l.mapM f = .ok ys)
    (y : β) : y ∈ ys ↔ ∃ x ∈ l, f x = .ok y := by
  induction l generalizing ys with
  | nil =>
      cases h
      simp
  | cons x l ih =>
      obtain ⟨first, rest, hfirst, hrest, rfl⟩ := mapM_cons_eq_ok.mp h
      have hsame : (.ok first : Except ε β) = .ok y ↔ y = first := by
        rw [Except.ok.injEq]
        exact eq_comm
      simp only [List.mem_cons, exists_eq_or_imp, hfirst, hsame, ih hrest]

theorem map_of_mapM {f : α → Except ε β} {g : β → α} {l : List α} {ys : List β}
    (h : l.mapM f = .ok ys) (hg : ∀ x y, f x = .ok y → g y = x) : ys.map g = l := by
  induction l generalizing ys with
  | nil =>
      cases h
      rfl
  | cons x l ih =>
      obtain ⟨first, rest, hfirst, hrest, rfl⟩ := mapM_cons_eq_ok.mp h
      rw [List.map_cons, hg x first hfirst, ih hrest]

end ModServer.Library
