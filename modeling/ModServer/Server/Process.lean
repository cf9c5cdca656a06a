import ModServer.Server.Conversation

/-!
The process in the loop of `Run`. The loop itself only sees calls that return.
Sockets block, so a call may be waited for, and `send` is given no flags while
no handler is installed: for a peer that is gone it may raise `SIGPIPE`, which
ends the process.
-/

namespace ModServer

open Library ProtocolHandler

variable {H Env : Type}

/-- The process has ended with an exit code or by a signal, or is in the loop of
`Run`. -/
inductive Process (H Env : Type) where
  | exited (code : Int)
  | killed
  | running (c : Config H Env)

/-- What the system call of a step comes to. -/
inductive SystemCall (Env : Type) where
  | returns (a : Answers Env)
  | blocks
  | raises

/-- The next step is `OnWrite` of a connection, which calls `send`. -/
def Config.sends (c : Config H Env) : Bool :=
  match c.phase with
  | .sending (id :: _) =>
      match c.server.sessions.store id with
      | some (.connection _ _ _) => true
      | _ => false
  | _ => false

variable [ProtocolHandler H Env]

/-- A call that blocks is waited for, and no call but `send` raises a signal.
Where `Run` returns, so does `main`. -/
def Process.step : Process H Env → SystemCall Env → Except Fault (Process H Env)
  | .exited code, _ => .ok (.exited code)
  | .killed, _ => .ok .killed
  | .running c, .blocks => .ok (.running c)
  | .running c, .raises => .ok (if c.sends then .killed else .running c)
  | .running c, .returns a => do
      let c ← c.step a
      .ok (if c.phase = .returned then .exited 0 else .running c)

def processOf (start : Process H Env → Prop) : Machine (Process H Env) (SystemCall Env) Fault where
  start := start
  step := Process.step

/-- The process of a server that serves these plugins. -/
def serverProcess (loader : PluginLoader H Env) (host : Host) :
    Machine (Process H Env) (SystemCall Env) Fault :=
  processOf fun p => ∃ c, (serverLoop loader host).start c ∧ p = .running c

omit [ProtocolHandler H Env] in
/-- The promises are about the calls that return. -/
def Promised (allowed : Config H Env → Answers Env → Prop) : Process H Env → SystemCall Env → Prop
  | .running c, .returns a => allowed c a
  | _, _ => True

section Steps

omit [ProtocolHandler H Env]

/-- The step of the loop that the process makes. -/
def inLoop : Process H Env × SystemCall Env → Option (Config H Env × Answers Env)
  | (.running c, .returns a) => some (c, a)
  | _ => none

/-- A step of the loop, as a step of the process. -/
def ofLoop (step : Config H Env × Answers Env) : Process H Env × SystemCall Env :=
  (.running step.1, .returns step.2)

theorem eq_ofLoop {call : Process H Env × SystemCall Env} {step : Config H Env × Answers Env}
    (h : inLoop call = some step) : call = ofLoop step := by
  obtain ⟨p, call⟩ := call
  cases p with
  | exited | killed => cases h
  | running c =>
      cases call with
      | blocks | raises => cases h
      | returns a =>
          cases h
          rfl

/-- `select` fails. -/
def SelectFails (c : Config H Env) (a : Answers Env) : Prop := c.phase = .top ∧ a.selectRc = -1

/-- A `select` of the process returns -1. -/
def FailsSelect (step : Process H Env × SystemCall Env) : Prop :=
  ∃ c a, step = (.running c, .returns a) ∧ SelectFails c a

/-- A `send` of the process raises `SIGPIPE`. -/
def BreaksPipe (step : Process H Env × SystemCall Env) : Prop :=
  ∃ c, step = (.running c, .raises) ∧ c.sends = true

/-- What a run of the process from a state of the loop comes to. Its steps that
return are a run of the loop, and it ends when `select` fails or `send` raises
the signal. -/
structure Lives (loop : Machine (Config H Env) (Answers Env) Fault) (c : Config H Env)
    (steps : List (Process H Env × SystemCall Env)) (last : Process H Env) : Prop where
  served : ∃ final, loop.Run c (steps.filterMap inLoop) final ∧
    ∀ now, last = .running now → now = final
  running : (∃ now, last = .running now) ↔
    ∀ step ∈ steps, ¬ FailsSelect step ∧ ¬ BreaksPipe step
  exited : ∀ code, last = .exited code ↔ code = 0 ∧ ∃ step ∈ steps, FailsSelect step
  killed : last = .killed ↔ ∃ step ∈ steps, BreaksPipe step

namespace Lives

variable {loop : Machine (Config H Env) (Answers Env) Fault} {c next : Config H Env}
  {first : Process H Env × SystemCall Env} {steps : List (Process H Env × SystemCall Env)}
  {last : Process H Env}

/-- A step that does not end the process, before others. -/
theorem cons (h : Lives loop next steps last) (hfails : ¬ FailsSelect first)
    (hbreaks : ¬ BreaksPipe first)
    (hrun : ∀ final, loop.Run next (steps.filterMap inLoop) final →
      loop.Run c ((first :: steps).filterMap inLoop) final) :
    Lives loop c (first :: steps) last := by
  constructor
  · obtain ⟨final, hserved, hsame⟩ := h.served
    exact ⟨final, hrun final hserved, hsame⟩
  · rw [h.running, List.forall_mem_cons]
    exact (and_iff_right ⟨hfails, hbreaks⟩).symm
  · intro code
    rw [h.exited code, List.exists_mem_cons_iff, or_iff_right hfails]
  · rw [h.killed, List.exists_mem_cons_iff, or_iff_right hbreaks]

/-- The process is killed, and nothing is called afterwards. -/
theorem of_killed (hbreaks : BreaksPipe first) (hserved : steps.filterMap inLoop = [])
    (hquiet : ∀ step ∈ steps, ¬ FailsSelect step) : Lives loop c (first :: steps) .killed := by
  obtain ⟨stopped, rfl, hsends⟩ := hbreaks
  have hbroken : BreaksPipe (Process.running stopped, (.raises : SystemCall Env)) :=
    ⟨stopped, rfl, hsends⟩
  have hfails : ¬ FailsSelect (Process.running stopped, (.raises : SystemCall Env)) := by
    rintro ⟨_, _, heq, -⟩
    cases heq
  constructor
  · refine ⟨c, ?_, fun now hnow => by cases hnow⟩
    rw [List.filterMap_cons_none rfl, hserved]
    exact .nil
  · constructor
    · rintro ⟨_, hnow⟩
      cases hnow
    · exact fun hall => absurd hbroken (hall _ List.mem_cons_self).2
  · intro code
    constructor
    · intro hcode
      cases hcode
    · rintro ⟨-, step, hstep, hselect⟩
      rcases List.mem_cons.mp hstep with rfl | hlater
      · exact absurd hselect hfails
      · exact absurd hselect (hquiet step hlater)
  · exact iff_of_true rfl ⟨_, List.mem_cons_self, hbroken⟩

/-- `Run` returns, and nothing is called afterwards. -/
theorem of_exited {a : Answers Env} (hstep : loop.step c a = .ok next) (hfails : SelectFails c a)
    (hserved : steps.filterMap inLoop = []) (hquiet : ∀ step ∈ steps, ¬ BreaksPipe step) :
    Lives loop c ((.running c, .returns a) :: steps) (.exited 0) := by
  have hselect : FailsSelect (Process.running c, SystemCall.returns a) := ⟨c, a, rfl, hfails⟩
  have hbreaks : ¬ BreaksPipe (Process.running c, SystemCall.returns a) := by
    rintro ⟨_, heq, -⟩
    cases heq
  constructor
  · refine ⟨next, ?_, fun now hnow => by cases hnow⟩
    have hone : ((Process.running c, SystemCall.returns a) :: steps).filterMap inLoop =
        (c, a) :: steps.filterMap inLoop := rfl
    rw [hone, hserved]
    exact .cons a hstep .nil
  · constructor
    · rintro ⟨_, hnow⟩
      cases hnow
    · exact fun hall => absurd hselect (hall _ List.mem_cons_self).1
  · intro code
    constructor
    · intro hcode
      cases hcode
      exact ⟨rfl, _, List.mem_cons_self, hselect⟩
    · rintro ⟨rfl, -⟩
      rfl
  · constructor
    · intro hkilled
      cases hkilled
    · rintro ⟨step, hstep, hbroken⟩
      rcases List.mem_cons.mp hstep with rfl | hlater
      · exact absurd hbroken hbreaks
      · exact absurd hbroken (hquiet step hlater)

end Lives

/-- Nothing is called after the end. -/
theorem quiet_of_ended {ended : Process H Env} {steps : List (Process H Env × SystemCall Env)}
    (hended : ∀ c, ended ≠ .running c) (h : ∀ step ∈ steps, step.1 = ended) :
    steps.filterMap inLoop = [] ∧ (∀ step ∈ steps, ¬ FailsSelect step) ∧
      ∀ step ∈ steps, ¬ BreaksPipe step := by
  refine ⟨?_, ?_, ?_⟩
  · apply List.filterMap_eq_nil_iff.mpr
    intro step hstep
    obtain ⟨p, call⟩ := step
    cases h _ hstep
    cases p with
    | running c => exact absurd rfl (hended c)
    | exited | killed => rfl
  · rintro step hstep ⟨c, a, rfl, -⟩
    exact hended c (h _ hstep).symm
  · rintro step hstep ⟨c, rfl, -⟩
    exact hended c (h _ hstep).symm

end Steps

/-! Where the loop is left. -/

/-- The loop is left only when `select` fails. -/
theorem returned_of_top {c next : Config H Env} {a : Answers Env} (h : c.step a = .ok next)
    (hphase : c.phase = .top) (hreturned : next.phase = .returned) : a.selectRc = -1 := by
  unfold Config.step at h
  rw [hphase] at h
  obtain ⟨reads, -, h⟩ := bind_eq_ok.mp h
  obtain ⟨writes, -, h⟩ := bind_eq_ok.mp h
  simp only at h
  split at h
  · rename_i hfailed
    exact hfailed
  · obtain ⟨handles, -, h⟩ := bind_eq_ok.mp h
    cases h
    cases hreturned

theorem step_returned {c next : Config H Env} {a : Answers Env} (h : c.step a = .ok next)
    (hphase : c.phase ≠ .returned) : next.phase = .returned ↔ SelectFails c a := by
  constructor
  · intro hreturned
    have htop : c.phase = .top := by
      cases step_moves h with
      | stop | poll => rfl
      | accept | receive | readFailed | readEnd | send | sendFailed | sendEnd => cases hreturned
      | stay => exact absurd rfl hphase
    exact ⟨htop, returned_of_top h htop hreturned⟩
  · intro hfails
    obtain ⟨htop, hselect⟩ := hfails
    unfold Config.step at h
    rw [htop] at h
    obtain ⟨reads, -, h⟩ := bind_eq_ok.mp h
    obtain ⟨writes, -, h⟩ := bind_eq_ok.mp h
    simp only [hselect, if_true] at h
    cases h
    rfl

theorem Moves.returned {a : Answers Env} {c next : Config H Env} (h : Moves a c next)
    (hphase : c.phase = .returned) : next.phase = .returned := by
  cases h with
  | stop | poll | accept | receive | readFailed | readEnd | send | sendFailed | sendEnd =>
      cases hphase
  | stay => rfl

theorem run_returned {loader : PluginLoader H Env} {host : Host} {c last : Config H Env}
    {steps : List (Config H Env × Answers Env)}
    (h : (serverLoop loader host).Run c steps last) (hphase : c.phase = .returned) :
    last.phase = .returned := by
  induction h with
  | nil => exact hphase
  | cons a hstep _ ih => exact ih ((step_moves hstep).returned hphase)

/-! Steps of a process in the loop. -/

/-- What a step may do with it: a call is waited for or the signal has no cause,
`SIGPIPE` ends it, the loop goes on, or `Run` returns. -/
inductive ProcessMoves (c : Config H Env) : SystemCall Env → Process H Env → Prop
  | waits {call : SystemCall Env} : inLoop (.running c, call) = none →
      ¬ BreaksPipe (.running c, call) → ProcessMoves c call (.running c)
  | breaks : c.sends = true → ProcessMoves c .raises .killed
  | serves {a : Answers Env} {next : Config H Env} : c.step a = .ok next →
      next.phase ≠ .returned → ProcessMoves c (.returns a) (.running next)
  | ends {a : Answers Env} {next : Config H Env} : c.step a = .ok next →
      next.phase = .returned → ProcessMoves c (.returns a) (.exited 0)

theorem Process.step_moves {c : Config H Env} {call : SystemCall Env} {next : Process H Env}
    (h : (Process.running c).step call = .ok next) : ProcessMoves c call next := by
  cases call with
  | blocks =>
      cases h
      apply ProcessMoves.waits rfl
      rintro ⟨_, heq, -⟩
      cases heq
  | raises =>
      cases h
      split
      · rename_i hsends
        exact .breaks hsends
      · rename_i hnot
        apply ProcessMoves.waits rfl
        rintro ⟨_, heq, hsends⟩
        cases heq
        exact hnot hsends
  | returns a =>
      obtain ⟨moved, hmoved, h⟩ := bind_eq_ok.mp h
      cases h
      split
      · rename_i hreturned
        exact .ends hmoved hreturned
      · rename_i hgoes
        exact .serves hmoved hgoes

theorem Process.step_returns {c next : Config H Env} {a : Answers Env} (h : c.step a = .ok next)
    (hphase : next.phase ≠ .returned) :
    (Process.running c).step (.returns a) = .ok (.running next) :=
  bind_eq_ok.mpr ⟨next, h, by rw [if_neg hphase]⟩

/-! Runs of the process. -/

section Runs

variable {start : Process H Env → Prop} {loader : PluginLoader H Env} {host : Host}

/-- A run of the loop that is not left, as one of the process. -/
theorem run_ofLoop {c last : Config H Env} {steps : List (Config H Env × Answers Env)}
    (h : (serverLoop loader host).Run c steps last) (hlast : last.phase ≠ .returned) :
    (processOf start).Run (.running c) (steps.map ofLoop) (.running last) := by
  induction h with
  | nil => exact .nil
  | cons a hstep hrest ih =>
      have hnext := fun hreturned => hlast (run_returned hrest hreturned)
      have hmove : (processOf start).step (.running _) (.returns a) = .ok (.running _) :=
        Process.step_returns hstep hnext
      exact .cons (.returns a) hmove (ih hlast)

/-- An ended process stays as it is. -/
theorem run_ended {ended last : Process H Env} {steps : List (Process H Env × SystemCall Env)}
    (hended : ∀ c, ended ≠ .running c) (h : (processOf start).Run ended steps last) :
    last = ended ∧ ∀ step ∈ steps, step.1 = ended := by
  induction h with
  | nil => exact ⟨rfl, fun step hstep => absurd hstep List.not_mem_nil⟩
  | @cons p next last steps call hstep _ ih =>
      have hsame : next = p := by
        cases p with
        | running c => exact absurd rfl (hended c)
        | exited code =>
            cases hstep
            rfl
        | killed =>
            cases hstep
            rfl
      subst hsame
      obtain ⟨hlast, hsteps⟩ := ih hended
      exact ⟨hlast, List.forall_mem_cons.mpr ⟨rfl, hsteps⟩⟩

theorem process_lives {c : Config H Env} {steps : List (Process H Env × SystemCall Env)}
    {last : Process H Env} (hphase : c.phase ≠ .returned)
    (h : (processOf start).Run (.running c) steps last) :
    Lives (serverLoop loader host) c steps last := by
  generalize hfirst : Process.running c = first at h
  induction h generalizing c with
  | nil =>
      subst hfirst
      constructor
      · exact ⟨c, .nil, fun now hnow => (Process.running.inj hnow).symm⟩
      · simp
      · simp
      · simp
  | @cons _ next last steps call hstep hrest ih =>
      subst hfirst
      cases Process.step_moves hstep with
      | waits hcall hbreaks =>
          refine (ih hphase rfl).cons ?_ hbreaks ?_
          · rintro ⟨_, _, heq, -⟩
            cases heq
            cases hcall
          · intro final hserved
            rw [List.filterMap_cons_none hcall]
            exact hserved
      | serves hmoved hgoes =>
          refine (ih hgoes rfl).cons ?_ ?_ ?_
          · rintro ⟨_, _, heq, hfails⟩
            cases heq
            exact hgoes ((step_returned hmoved hphase).mpr hfails)
          · rintro ⟨_, heq, -⟩
            cases heq
          · exact fun final hserved => .cons _ hmoved hserved
      | breaks hsends =>
          obtain ⟨rfl, hafter⟩ := run_ended (by simp) hrest
          obtain ⟨hserved, hfails, -⟩ := quiet_of_ended (by simp) hafter
          exact .of_killed ⟨c, rfl, hsends⟩ hserved hfails
      | ends hmoved hreturned =>
          obtain ⟨rfl, hafter⟩ := run_ended (by simp) hrest
          obtain ⟨hserved, -, hbreaks⟩ := quiet_of_ended (by simp) hafter
          exact .of_exited hmoved ((step_returned hmoved hphase).mp hreturned) hserved hbreaks

/-- A process in the loop is in a state that the loop itself reaches. -/
theorem reachable_running {allowed : Config H Env → Answers Env → Prop} {c : Config H Env}
    (h : (serverProcess loader host).Reachable (Promised allowed) (.running c)) :
    (serverLoop loader host).Reachable allowed c := by
  refine h.seen (fun p c => p = .running c) ?_ ?_ rfl
  · rintro p c ⟨first, hstart, rfl⟩ hrunning
    cases hrunning
    exact hstart
  · rintro p call next c - hpromised hstep rfl
    cases p with
    | exited | killed => cases hstep
    | running before =>
        cases Process.step_moves hstep with
        | waits => exact Or.inr (Or.inl rfl)
        | serves hmoved => exact Or.inr (Or.inr ⟨before, _, rfl, hpromised, hmoved⟩)

/-- And in any state that the loop reaches and is not left in. -/
theorem running_of_reachable {allowed : Config H Env → Answers Env → Prop} {c : Config H Env}
    (h : (serverLoop loader host).Reachable allowed c) (hphase : c.phase ≠ .returned) :
    (serverProcess loader host).Reachable (Promised allowed) (.running c) := by
  induction h with
  | start hstart => exact .start ⟨_, hstart, rfl⟩
  | step a _ hallowed hstep ih =>
      have hbefore := fun hreturned => hphase ((step_moves hstep).returned hreturned)
      exact (ih hbefore).step (.returns a) hallowed (Process.step_returns hstep hphase)

/-- Where the handlers of each plugin keep to the contract by themselves, no
step of the process aborts, whatever becomes of its calls. -/
theorem process_proceeds (hhost : host.InSets loader.plugins) {fits : Env → Prop}
    (hserves : ∀ createdBy, Serves fits (Creates loader host createdBy)) {c : Config H Env}
    (h : (serverLoop loader host).Reachable (BoundedIn fits) c) {call : SystemCall Env}
    (hpromised : Promised (BoundedIn fits) (.running c) call) :
    ∃ next, (Process.running c).step call = .ok next := by
  cases call with
  | blocks | raises => exact ⟨_, rfl⟩
  | returns a =>
      obtain ⟨next, hnext⟩ := loop_proceeds hhost hserves h hpromised
      exact ⟨_, bind_eq_ok.mpr ⟨next, hnext, rfl⟩⟩

end Runs

end ModServer
