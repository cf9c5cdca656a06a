/-!
State machines with inputs. A step may fail, and what the surroundings may
feed a machine can be restricted. Nothing here refers to the server.
-/

namespace ModServer.Library

variable {State Input Fault : Type}

structure Machine (State Input Fault : Type) where
  start : State → Prop
  step : State → Input → Except Fault State

namespace Machine

variable (m : Machine State Input Fault)

/-- The states that inputs of the allowed kind lead to. -/
inductive Reachable (allowed : State → Input → Prop) : State → Prop
  | start {s : State} : m.start s → Reachable allowed s
  | step {s next : State} (input : Input) :
      Reachable allowed s → allowed s input → m.step s input = .ok next → Reachable allowed next

/-- The steps of a run, each with the state it was taken in. -/
inductive Run : State → List (State × Input) → State → Prop
  | nil {s : State} : Run s [] s
  | cons {s next last : State} {steps : List (State × Input)} (input : Input) :
      m.step s input = .ok next → Run next steps last → Run s ((s, input) :: steps) last

variable {m}

/-- What holds at the start and is kept by every allowed step holds
throughout. A step may use what is known of all reachable states. -/
theorem Reachable.invariant {allowed : State → Input → Prop} {P : State → Prop}
    (hstart : ∀ s, m.start s → P s)
    (hstep : ∀ s input next, m.Reachable allowed s → P s → allowed s input →
      m.step s input = .ok next → P next)
    {s : State} (h : m.Reachable allowed s) : P s := by
  induction h with
  | start hs => exact hstart _ hs
  | step input hreached hallowed hnext ih => exact hstep _ input _ hreached ih hallowed hnext

/-- A state is also reached when more inputs are allowed. -/
theorem Reachable.mono {allowed more : State → Input → Prop}
    (hle : ∀ s input, allowed s input → more s input) {s : State}
    (h : m.Reachable allowed s) : m.Reachable more s := by
  induction h with
  | start hs => exact .start hs
  | step input _ hallowed hnext ih => exact .step input ih (hle _ input hallowed) hnext

/-- Allowed steps lead on. -/
theorem Reachable.run {allowed : State → Input → Prop} {s last : State}
    {steps : List (State × Input)} (h : m.Reachable allowed s) (hrun : m.Run s steps last)
    (hallowed : ∀ step ∈ steps, allowed step.1 step.2) : m.Reachable allowed last := by
  induction hrun with
  | nil => exact h
  | cons input hnext _ ih =>
      obtain ⟨hfirst, hlater⟩ := List.forall_mem_cons.mp hallowed
      exact ih (h.step input hfirst hnext) hlater

/-- Inputs of one kind are also of another wherever they are met. -/
theorem Reachable.strengthen {allowed more : State → Input → Prop}
    (hle : ∀ s input, m.Reachable allowed s → allowed s input → more s input) {s : State}
    (h : m.Reachable allowed s) : m.Reachable more s := by
  induction h with
  | start hs => exact .start hs
  | step input hreached hallowed hnext ih =>
      exact .step input ih (hle _ input hreached hallowed) hnext

/-- Where states with a property are only reached from such states, and by
inputs of a further kind, inputs of that kind alone lead to them. -/
theorem Reachable.restrict {allowed more : State → Input → Prop} {P : State → Prop}
    (hback : ∀ s input next, allowed s input → m.step s input = .ok next → P next →
      P s ∧ more s input)
    {s : State} (h : m.Reachable allowed s) (hP : P s) : m.Reachable more s := by
  induction h with
  | start hs => exact .start hs
  | step input _ hallowed hnext ih =>
      obtain ⟨hbefore, hmore⟩ := hback _ input _ hallowed hnext hP
      exact .step input (ih hbefore) hmore hnext

/-- A machine that contains copies of another one. Where each copy that is seen
after a step was seen before it, has just started or has made a step of its
own, it is in a state that it also reaches alone. -/
theorem Reachable.seen {Part PartInput PartFault : Type} {part : Machine Part PartInput PartFault}
    {allowed : State → Input → Prop} {polite : Part → PartInput → Prop} (sees : State → Part → Prop)
    (hstart : ∀ s t, m.start s → sees s t → part.start t)
    (hstep : ∀ s input next t, m.Reachable allowed s → allowed s input →
      m.step s input = .ok next → sees next t → part.start t ∨ sees s t ∨
        ∃ before request, sees s before ∧ polite before request ∧ part.step before request = .ok t)
    {s : State} (h : m.Reachable allowed s) {t : Part} (hsees : sees s t) :
    part.Reachable polite t := by
  induction h generalizing t with
  | start hs => exact .start (hstart _ t hs hsees)
  | step input hreached hallowed hnext ih =>
      obtain hnew | hsame | ⟨before, request, hbefore, hpolite, hmoves⟩ :=
        hstep _ input _ t hreached hallowed hnext hsees
      · exact .start hnew
      · exact ih hsame
      · exact (ih hbefore).step request hpolite hmoves

theorem Run.append_iff {s last : State} {steps more : List (State × Input)} :
    m.Run s (steps ++ more) last ↔ ∃ middle, m.Run s steps middle ∧ m.Run middle more last := by
  induction steps generalizing s with
  | nil =>
      constructor
      · intro h
        exact ⟨s, .nil, h⟩
      · intro h
        obtain ⟨middle, hnil, hmore⟩ := h
        cases hnil
        exact hmore
  | cons step steps ih =>
      constructor
      · intro h
        cases h with
        | cons input hnext hrest =>
            obtain ⟨middle, hsteps, hmore⟩ := ih.mp hrest
            exact ⟨middle, .cons input hnext hsteps, hmore⟩
      · intro h
        obtain ⟨middle, hsteps, hmore⟩ := h
        cases hsteps with
        | cons input hnext hrest => exact .cons input hnext (ih.mpr ⟨middle, hrest, hmore⟩)

/-- A state that is reached is the end of a run. -/
theorem Reachable.exists_run {allowed : State → Input → Prop} {s : State}
    (h : m.Reachable allowed s) :
    ∃ first steps, m.start first ∧ m.Run first steps s ∧
      ∀ step ∈ steps, allowed step.1 step.2 := by
  induction h with
  | start hs => exact ⟨_, [], hs, .nil, fun step hstep => (List.not_mem_nil hstep).elim⟩
  | @step s next input _ hallowed hnext ih =>
      obtain ⟨first, steps, hstart, hrun, hsteps⟩ := ih
      refine ⟨first, steps ++ [(s, input)], hstart, ?_, ?_⟩
      · exact Run.append_iff.mpr ⟨s, hrun, .cons input hnext .nil⟩
      · exact List.forall_mem_append.mpr ⟨hsteps, by simpa using hallowed⟩

/-- What every allowed step keeps holds at the end of a run, and wherever a step
was taken. -/
theorem Run.invariant {P : State → Prop} {allowed : State → Input → Prop}
    (hkeep : ∀ s input next, P s → allowed s input → m.step s input = .ok next → P next)
    {s last : State} {steps : List (State × Input)} (hrun : m.Run s steps last)
    (hallowed : ∀ step ∈ steps, allowed step.1 step.2) (hP : P s) :
    P last ∧ ∀ step ∈ steps, P step.1 := by
  induction hrun with
  | nil => exact ⟨hP, fun step hstep => (List.not_mem_nil hstep).elim⟩
  | cons input hnext hrest ih =>
      obtain ⟨hfirst, hlater⟩ := List.forall_mem_cons.mp hallowed
      obtain ⟨hlast, hvisited⟩ := ih hlater (hkeep _ input _ hP hfirst hnext)
      exact ⟨hlast, List.forall_mem_cons.mpr ⟨hP, hvisited⟩⟩

/-- Where steps of one kind keep a property and the others break it, a run
keeps the property throughout exactly when all its steps are of that kind.
`Q` holds in every state of the run. -/
theorem Run.all_iff {P Q : State → Prop} {good : State → Input → Prop}
    (hinv : ∀ s input next, Q s → m.step s input = .ok next → Q next)
    (hkeep : ∀ s input next, Q s → P s → good s input → m.step s input = .ok next → P next)
    (hbreak : ∀ s input next, Q s → ¬ good s input → m.step s input = .ok next → ¬ P next)
    {s last : State} {steps : List (State × Input)} (hrun : m.Run s steps last)
    (hQ : Q s) (hP : P s) :
    ((∀ step ∈ steps, P step.1) ∧ P last) ↔ ∀ step ∈ steps, good step.1 step.2 := by
  induction hrun with
  | nil =>
      constructor
      · intro _ step hstep
        cases hstep
      · intro _
        exact ⟨fun step hstep => (List.not_mem_nil hstep).elim, hP⟩
  | @cons s next last steps input hnext hrest ih =>
      have hQnext := hinv s input next hQ hnext
      constructor
      · rintro ⟨hvisited, hlast⟩
        have hPnext : P next := by
          cases hrest with
          | nil => exact hlast
          | cons => exact hvisited _ (List.mem_cons_of_mem _ List.mem_cons_self)
        have hgood : good s input := by
          apply Classical.byContradiction
          intro hbad
          exact hbreak s input next hQ hbad hnext hPnext
        have hmore := (ih hQnext hPnext).mp
          ⟨fun step hstep => hvisited step (List.mem_cons_of_mem _ hstep), hlast⟩
        intro step hstep
        rcases List.mem_cons.mp hstep with rfl | htail
        · exact hgood
        · exact hmore step htail
      · intro hgood
        have hPnext := hkeep s input next hQ hP (hgood _ List.mem_cons_self) hnext
        have hmore := (ih hQnext hPnext).mpr
          (fun step hstep => hgood step (List.mem_cons_of_mem _ hstep))
        refine ⟨?_, hmore.2⟩
        intro step hstep
        rcases List.mem_cons.mp hstep with rfl | htail
        · exact hP
        · exact hmore.1 step htail

end Machine

/-- Steps none of which changes the state. -/
theorem foldl_stays {step : State → Input → State} {s : State} {inputs : List Input}
    (h : ∀ input ∈ inputs, step s input = s) : inputs.foldl step s = s := by
  induction inputs with
  | nil => rfl
  | cons input inputs ih =>
      rw [List.foldl_cons, h input List.mem_cons_self]
      exact ih (fun other hother => h other (List.mem_cons_of_mem _ hother))

end ModServer.Library
