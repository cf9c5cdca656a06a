import ModServer.Server.Process

/-!
A pass of the loop: from filling the sets to the next time they are filled.

`SendData` makes its list from `m_sessions` after `ReadData` has added and
deleted sessions. While descriptors are below `FD_SETSIZE` the list is
nevertheless the one it would have made before: what was deleted had nothing to
send, and what was added has a descriptor that is not in the set. So a pass
treats the sessions it began with as if all at once: which calls it makes is
known at its beginning, there is at most one for each session, and what a call
does to its session does not depend on the others.
-/

namespace ModServer

open Library ProtocolHandler

variable {H Env : Type}

/-- The handle of the session with this key is in the set. -/
def Server.isReady (server : Server H Env) (set : FdSet) (id : Nat) : Bool :=
  match server.sessions.store id with
  | none => false
  | some session => session.handle ∈ set

/-- The registered sessions whose handle is in the set, in the order of their
registration. -/
def Server.ready (server : Server H Env) (set : FdSet) : List Nat :=
  server.sessions.keys.filter (server.isReady set)

/-- A call of `OnRead` or `OnWrite`. -/
inductive Visit where
  | read (id : Nat)
  | write (id : Nat)
  deriving DecidableEq, Repr

/-- The session whose function is called. -/
def Visit.session : Visit → Nat
  | .read id => id
  | .write id => id

/-- The call that the next step makes. -/
def Config.visit (c : Config H Env) : Option Visit :=
  match c.phase with
  | .reading _ (id :: _) => some (.read id)
  | .sending (id :: _) => some (.write id)
  | _ => none

/-- The calls of the steps, in order. -/
def visits (steps : List (Config H Env × Answers Env)) : List Visit :=
  steps.filterMap (fun step => step.1.visit)

theorem visits_cons (c : Config H Env) (a : Answers Env)
    (steps : List (Config H Env × Answers Env)) :
    visits ((c, a) :: steps) = c.visit.toList ++ visits steps := by
  unfold visits
  cases hvisit : c.visit with
  | none => exact List.filterMap_cons_none hvisit
  | some visit => exact List.filterMap_cons_some hvisit

theorem Config.visit_reading {c : Config H Env} {writeSet : FdSet} {id : Nat} {todo : List Nat}
    (h : c.phase = .reading writeSet (id :: todo)) : c.visit = some (.read id) := by
  rw [Config.visit, h]

theorem Config.visit_sending {c : Config H Env} {id : Nat} {todo : List Nat}
    (h : c.phase = .sending (id :: todo)) : c.visit = some (.write id) := by
  rw [Config.visit, h]

/-! What a call leaves of its session. -/

variable [ProtocolHandler H Env]

/-- What `ReadData` leaves of a session that it calls `OnRead` of. -/
def Session.afterRead (a : Answers Env) : Session H → Option (Session H)
  | .acceptor sock pluginId => some (.acceptor sock pluginId)
  | .connection sock protoHandler createdBy =>
      match a.received with
      | .error _ => none
      | .ok [] => none
      | .ok bytes =>
          match didReceive a.env protoHandler (DataChunk.received bytes) bytes.length with
          | .error _ => none
          | .ok protoHandler' => some (.connection sock protoHandler' createdBy)

/-- What `SendData` leaves of a session that it calls `OnWrite` of. -/
def Session.afterWrite (a : Answers Env) : Session H → Option (Session H)
  | .acceptor _ _ => none
  | .connection sock protoHandler createdBy =>
      if 0 < a.sent then
        match didSend protoHandler a.sent with
        | .error _ => none
        | .ok protoHandler' => some (.connection sock protoHandler' createdBy)
      else none

def Session.after (a : Answers Env) (session : Session H) : Visit → Option (Session H)
  | .read _ => session.afterRead a
  | .write _ => session.afterWrite a

omit [ProtocolHandler H Env] in
theorem isReady_iff {server : Server H Env} {set : FdSet} {id : Nat} :
    server.isReady set id = true ↔
      ∃ session, server.sessions.store id = some session ∧ session.handle ∈ set := by
  unfold Server.isReady
  cases server.sessions.store id with
  | none => simp
  | some session => simp

omit [ProtocolHandler H Env] in
/-- The list that `ReadData` or `SendData` copies, where the sets have bits for
all sessions. -/
theorem chosen_eq_ready {server : Server H Env} (hsets : server.InSets)
    {handles : List (Nat × Handle)} (h : server.handles = .ok handles) (a : Answers Env)
    (set : FdSet) : chosen a handles set = server.ready set := by
  have hkeys : handles.map Prod.fst = server.sessions.keys := by
    apply map_of_mapM h
    intro id entry hentry
    obtain ⟨session, -, hentry⟩ := bind_eq_ok.mp hentry
    cases hentry
    rfl
  have hentries : handles.filter (fun entry => set.isSet a.outside entry.2) =
      handles.filter (server.isReady set ∘ Prod.fst) := by
    apply List.filter_congr
    intro entry hmem
    obtain ⟨-, session, hstore, hhandle⟩ := (mem_handles h entry.1 entry.2).mp hmem
    have hin := hsets entry.1 session hstore
    rw [hhandle] at hin
    rw [Bool.eq_iff_iff, FdSet.isSet_iff hin]
    simp [Server.isReady, hstore, hhandle]
  rw [chosen, hentries, Server.ready, ← hkeys, List.filter_map]

/-! The phases of a pass. -/

omit [ProtocolHandler H Env] in
theorem ready_addSession {server : Server H Env} (hsound : server.Sound) {set : FdSet}
    {session : Session H} (hnot : session.handle ∉ set) :
    (server.addSession session).ready set = server.ready set := by
  have hnew : (server.addSession session).isReady set server.sessions.next = false := by
    simp [Server.isReady, hnot]
  have hold : ∀ id ∈ server.sessions.keys,
      (server.addSession session).isReady set id = server.isReady set id := by
    intro id hid
    have hne : id ≠ server.sessions.next := Nat.ne_of_lt (hsound.wellFormed.below id hid)
    simp [Server.isReady, Function.update_of_ne hne]
  rw [Server.ready, Server.addSession_sessions, Registry.add_keys, List.filter_append,
    List.filter_singleton, hnew, List.filter_congr hold]
  exact List.append_nil _

omit [ProtocolHandler H Env] in
theorem ready_setHandler {server : Server H Env} {set : FdSet} {id : Nat} {sock : Handle}
    {protoHandler : H} {createdBy : Nat} (protoHandler' : H)
    (hstore : server.sessions.store id = some (.connection sock protoHandler createdBy)) :
    (server.setHandler id sock protoHandler' createdBy).ready set = server.ready set := by
  apply List.filter_congr
  intro other _
  rcases eq_or_ne other id with rfl | hne
  · rw [Bool.eq_iff_iff, isReady_iff, isReady_iff]
    simp [hstore, Session.handle]
  · simp [Server.isReady, Function.update_of_ne hne]

omit [ProtocolHandler H Env] in
theorem ready_dropSession {server : Server H Env} (hsound : server.Sound) {set : FdSet} {id : Nat}
    (hnot : server.isReady set id = false) :
    (server.dropSession id).ready set = server.ready set := by
  have hkept : ∀ other ∈ server.sessions.keys,
      ((server.dropSession id).isReady set other && other != id) = server.isReady set other := by
    intro other _
    rcases eq_or_ne other id with rfl | hne
    · simp [hnot]
    · simp [Server.isReady, hne]
  rw [Server.ready, Server.dropSession_sessions, Registry.drop_keys,
    hsound.wellFormed.nodup.erase_eq_filter, List.filter_filter]
  exact List.filter_congr hkept

/-- While `ReadData` visits its list, the list that `SendData` is going to copy
stays what it is. -/
theorem Moves.reading {acceptors : List (Session H)} {a : Answers Env} {c next : Config H Env}
    (h : Moves a c next) (hallowed : Allowed c a) (horderly : Orderly acceptors c)
    {writeSet : FdSet} {id : Nat} {todo : List Nat}
    (hphase : c.phase = .reading writeSet (id :: todo)) :
    next.phase = .reading writeSet todo ∧
      next.server.ready writeSet = c.server.ready writeSet := by
  obtain ⟨hsound, -, -, hapart, hok⟩ := horderly
  cases h with
  | stop | poll | readEnd | send | sendFailed | sendEnd | stay => cases hphase
  | accept hstore =>
      cases hphase
      refine ⟨rfl, ready_addSession hsound ?_⟩
      intro hmem
      obtain ⟨other, session, hsession, -, hhandle⟩ := hok.2.2 _ hmem
      exact hallowed.accept ⟨_, _, _, _, _, rfl, hstore⟩ other session hsession hhandle
  | receive hstore =>
      cases hphase
      exact ⟨rfl, ready_setHandler _ hstore⟩
  | readFailed _ hstore =>
      cases hphase
      refine ⟨rfl, ready_dropSession hsound ?_⟩
      rw [Bool.eq_false_iff]
      intro hready
      obtain ⟨session, hsession, hmem⟩ := isReady_iff.mp hready
      obtain ⟨visited, hvisited, hidle⟩ := hok.2.1 id List.mem_cons_self
      obtain ⟨other, found, hfound, hpending, hhandle⟩ := hok.2.2 _ hmem
      have hsame : other = id :=
        hapart other id found session hfound hsession (Session.isConnection_of_pending hpending)
          hhandle
      subst hsame
      cases hvisited.symm.trans hfound
      cases hidle.symm.trans hpending

theorem Moves.readingEnd {a : Answers Env} {c next : Config H Env} (h : Moves a c next)
    (hsets : c.server.InSets) {writeSet : FdSet} (hphase : c.phase = .reading writeSet []) :
    next.phase = .sending (c.server.ready writeSet) ∧ next.server = c.server := by
  cases h with
  | stop | poll | accept | receive | readFailed | send | sendFailed | sendEnd | stay => cases hphase
  | readEnd hhandles =>
      cases hphase
      exact ⟨congrArg Phase.sending (chosen_eq_ready hsets hhandles a _), rfl⟩

theorem Moves.sending {a : Answers Env} {c next : Config H Env} (h : Moves a c next) {id : Nat}
    {todo : List Nat} (hphase : c.phase = .sending (id :: todo)) : next.phase = .sending todo := by
  cases h with
  | stop | poll | accept | receive | readFailed | readEnd | sendEnd | stay => cases hphase
  | send | sendFailed =>
      cases hphase
      rfl

theorem Moves.sendingEnd {a : Answers Env} {c next : Config H Env} (h : Moves a c next)
    (hphase : c.phase = .sending []) : next.phase = .top := by
  cases h with
  | stop | poll | accept | receive | readFailed | readEnd | send | sendFailed | stay => cases hphase
  | sendEnd => rfl

theorem Moves.top {a : Answers Env} {c next : Config H Env} (h : Moves a c next)
    (hsets : c.server.InSets) (hphase : c.phase = .top) :
    next.phase = .returned ∨
      (next.phase = .reading a.writeSet (c.server.ready a.readSet) ∧ next.server = c.server) := by
  cases h with
  | accept | receive | readFailed | readEnd | send | sendFailed | sendEnd | stay => cases hphase
  | stop => exact Or.inl rfl
  | poll _ _ hhandles =>
      refine Or.inr ⟨?_, rfl⟩
      exact congrArg (Phase.reading a.writeSet) (chosen_eq_ready hsets hhandles a _)

/-! What a step does to the session it visits, and to the others. -/

theorem Moves.keeps {a : Answers Env} {c next : Config H Env} (h : Moves a c next) {id : Nat}
    (hlt : id < c.server.sessions.next) (hvisit : ∀ v, c.visit = some v → v.session ≠ id) :
    next.server.sessions.store id = c.server.sessions.store id ∧
      id < next.server.sessions.next := by
  cases h with
  | stop | poll | readEnd | sendEnd | stay => exact ⟨rfl, hlt⟩
  | accept => exact ⟨Function.update_of_ne (Nat.ne_of_lt hlt) _ _, Nat.lt_succ_of_lt hlt⟩
  | receive | readFailed =>
      have hne := hvisit _ (Config.visit_reading rfl)
      exact ⟨Function.update_of_ne hne.symm _ _, hlt⟩
  | send | sendFailed =>
      have hne := hvisit _ (Config.visit_sending rfl)
      exact ⟨Function.update_of_ne hne.symm _ _, hlt⟩

/-- An `OnRead` that reads nothing. -/
theorem afterRead_of_failed {server : Server H Env} {a : Answers Env} {id : Nat} {sock : Handle}
    {protoHandler : H} {createdBy : Nat} {read : Int}
    (hstore : server.sessions.store id = some (.connection sock protoHandler createdBy))
    (h : server.onRead a id = .ok (read, server, [])) :
    (Session.connection sock protoHandler createdBy).afterRead a = none := by
  unfold Server.onRead at h
  obtain ⟨session, hderef, h⟩ := bind_eq_ok.mp h
  cases hstore.symm.trans (Server.deref_eq_ok.mp hderef)
  obtain ⟨plugin, -, h⟩ := bind_eq_ok.mp h
  unfold Session.afterRead
  cases hreceived : a.received with
  | error code => rfl
  | ok bytes =>
      cases bytes with
      | nil => rfl
      | cons first bytes =>
          have hlong : ¬ (first :: bytes).length < 1 := by simp
          simp only [hreceived, hlong, if_false] at h
          split at h
          · cases h
          · simp only [Except.ok.injEq, Prod.mk.injEq] at h
            obtain ⟨-, -, hevents⟩ := h
            cases hevents

theorem Moves.visited {a : Answers Env} {c next : Config H Env} (h : Moves a c next) {v : Visit}
    (hvisit : c.visit = some v) (hsound : c.server.Sound) {session : Session H}
    (hstore : c.server.sessions.store v.session = some session) :
    next.server.sessions.store v.session = session.after a v ∧
      v.session < next.server.sessions.next := by
  have hlt := hsound.wellFormed.lt_next hstore
  cases h with
  | stop | poll | readEnd | sendEnd | stay => cases hvisit
  | accept hacceptor =>
      cases (Config.visit_reading rfl).symm.trans hvisit
      cases hacceptor.symm.trans hstore
      have hne : _ ≠ _ := Nat.ne_of_lt hlt
      exact ⟨(Function.update_of_ne hne _ _).trans hacceptor, Nat.lt_succ_of_lt hlt⟩
  | receive hconnection hreceived hne hdid =>
      cases (Config.visit_reading rfl).symm.trans hvisit
      cases hconnection.symm.trans hstore
      refine ⟨(Function.update_self _ _ _).trans ?_, hlt⟩
      rw [Session.after, Session.afterRead, hreceived]
      split
      · rename_i heq
        cases heq
      · rename_i heq
        cases heq
        exact absurd rfl hne
      · rename_i heq
        cases heq
        rw [hdid]
  | readFailed _ hconnection hread =>
      cases (Config.visit_reading rfl).symm.trans hvisit
      cases hconnection.symm.trans hstore
      exact ⟨(Function.update_self _ _ _).trans (afterRead_of_failed hconnection hread).symm, hlt⟩
  | send hconnection hpos hdid =>
      cases (Config.visit_sending rfl).symm.trans hvisit
      cases hconnection.symm.trans hstore
      refine ⟨(Function.update_self _ _ _).trans ?_, hlt⟩
      rw [Session.after, Session.afterWrite, if_pos hpos, hdid]
  | sendFailed _ hconnection _ hless =>
      cases (Config.visit_sending rfl).symm.trans hvisit
      cases hconnection.symm.trans hstore
      refine ⟨(Function.update_self _ _ _).trans ?_, hlt⟩
      rw [Session.after, Session.afterWrite, if_neg (by omega)]

section Runs

variable {loader : PluginLoader H Env} {host : Host}

/-- A run of `SendData` until the sets are filled again. -/
theorem run_sending {c last : Config H Env} {steps : List (Config H Env × Answers Env)}
    {todo : List Nat} (h : (serverLoop loader host).Run c steps last)
    (hphase : c.phase = .sending todo) (hlast : last.phase = .top)
    (hbetween : ∀ step ∈ steps, step.1.phase ≠ .top) :
    visits steps = todo.map .write ∧ steps.length = todo.length + 1 := by
  induction todo generalizing c steps with
  | nil =>
      cases h with
      | nil => cases hphase.symm.trans hlast
      | @cons _ next _ rest a hstep hrest =>
          have htop := (step_moves hstep).sendingEnd hphase
          cases hrest with
          | nil =>
              rw [visits_cons, Config.visit, hphase]
              exact ⟨rfl, rfl⟩
          | cons => exact absurd htop (hbetween _ (List.mem_cons_of_mem _ List.mem_cons_self))
  | cons id todo ih =>
      cases h with
      | nil => cases hphase.symm.trans hlast
      | @cons _ next _ rest a hstep hrest =>
          have hnext := (step_moves hstep).sending hphase
          obtain ⟨hvisits, hlength⟩ := ih hrest hnext
            (fun step hmem => hbetween step (List.mem_cons_of_mem _ hmem))
          rw [visits_cons, hvisits, Config.visit, hphase, List.length_cons, hlength]
          exact ⟨rfl, rfl⟩

/-- A run of `ReadData` and `SendData`. -/
theorem run_reading {acceptors : List (Session H)}
    (hacceptors : ∀ session ∈ acceptors, ¬ session.IsConnection) {c last : Config H Env}
    {steps : List (Config H Env × Answers Env)} {writeSet : FdSet} {todo : List Nat}
    (h : (serverLoop loader host).Run c steps last) (hphase : c.phase = .reading writeSet todo)
    (hlast : last.phase = .top) (hbetween : ∀ step ∈ steps, step.1.phase ≠ .top)
    (hbounded : ∀ step ∈ steps, Bounded step.1 step.2) (horderly : Orderly acceptors c) :
    visits steps = todo.map .read ++ (c.server.ready writeSet).map .write ∧
      steps.length = todo.length + (c.server.ready writeSet).length + 2 := by
  induction todo generalizing c steps with
  | nil =>
      cases h with
      | nil => cases hphase.symm.trans hlast
      | @cons _ next _ rest a hstep hrest =>
          obtain ⟨hnext, -⟩ := (step_moves hstep).readingEnd horderly.inSets hphase
          obtain ⟨hvisits, hlength⟩ := run_sending hrest hnext hlast
            (fun step hmem => hbetween step (List.mem_cons_of_mem _ hmem))
          rw [visits_cons, hvisits, Config.visit, hphase, List.length_cons, hlength,
            List.length_nil, Nat.zero_add]
          exact ⟨rfl, rfl⟩
  | cons id todo ih =>
      cases h with
      | nil => cases hphase.symm.trans hlast
      | @cons _ next _ rest a hstep hrest =>
          obtain ⟨hfirst, hlater⟩ := List.forall_mem_cons.mp hbounded
          have hmoves := step_moves hstep
          obtain ⟨hnext, hready⟩ := hmoves.reading hfirst.allowed horderly hphase
          obtain ⟨hvisits, hlength⟩ := ih hrest hnext
            (fun step hmem => hbetween step (List.mem_cons_of_mem _ hmem)) hlater
            (hmoves.orderly hfirst hacceptors horderly)
          rw [visits_cons, hvisits, Config.visit, hphase, List.length_cons, hlength, hready]
          refine ⟨rfl, ?_⟩
          rw [List.length_cons]
          omega

/-- A run from one filling of the sets to the next, while the promises are kept
and descriptors are below `FD_SETSIZE`. -/
structure Pass (loader : PluginLoader H Env) (host : Host) (c : Config H Env) (a : Answers Env)
    (steps : List (Config H Env × Answers Env)) (last : Config H Env) : Prop where
  top : c.phase = .top
  run : (serverLoop loader host).Run c ((c, a) :: steps) last
  back : last.phase = .top
  between : ∀ step ∈ steps, step.1.phase ≠ .top
  bounded : ∀ step ∈ (c, a) :: steps, Bounded step.1 step.2

/-- A session that no step visits. -/
theorem run_keeps {c last : Config H Env} {steps : List (Config H Env × Answers Env)}
    (h : (serverLoop loader host).Run c steps last) {id : Nat} (hlt : id < c.server.sessions.next)
    (hvisits : ∀ v ∈ visits steps, v.session ≠ id) :
    last.server.sessions.store id = c.server.sessions.store id := by
  induction h with
  | nil => rfl
  | @cons s next last steps a hstep _ ih =>
      rw [visits_cons] at hvisits
      obtain ⟨hfirst, hlater⟩ := List.forall_mem_append.mp hvisits
      have hvisit : ∀ v, s.visit = some v → v.session ≠ id := by
        intro v hv
        exact hfirst v (by rw [hv]; exact List.mem_cons_self)
      obtain ⟨hstore, hnext⟩ := (step_moves hstep).keeps hlt hvisit
      rw [ih hnext hlater, hstore]

/-- A session that one step visits. -/
theorem run_visited {c last : Config H Env} {steps : List (Config H Env × Answers Env)}
    (h : (serverLoop loader host).Run c steps last) (hsound : c.server.Sound) {v : Visit}
    (hmem : v ∈ visits steps) (hnodup : (visits steps).Nodup)
    (honly : ∀ u ∈ visits steps, u.session = v.session → u = v) {session : Session H}
    (hstore : c.server.sessions.store v.session = some session) :
    ∃ step ∈ steps, step.1.visit = some v ∧ step.1.server.sessions.store v.session = some session ∧
      last.server.sessions.store v.session = session.after step.2 v := by
  induction h with
  | nil => cases hmem
  | @cons s next last steps a hstep hrest ih =>
      have hmoves := step_moves hstep
      rw [visits_cons] at hmem hnodup honly
      rcases List.mem_append.mp hmem with hhere | hlater
      · have hvisit : s.visit = some v := by simpa using hhere
        obtain ⟨hnext, hlt⟩ := hmoves.visited hvisit hsound hstore
        have hrestVisits : ∀ u ∈ visits steps, u.session ≠ v.session := by
          intro u hu hsame
          cases honly u (List.mem_append_right _ hu) hsame
          exact (List.disjoint_of_nodup_append hnodup) hhere hu
        refine ⟨(s, a), List.mem_cons_self, hvisit, hstore, ?_⟩
        rw [run_keeps hrest hlt hrestVisits, hnext]
      · have hnot : ∀ u, s.visit = some u → u.session ≠ v.session := by
          intro u hu hsame
          have hmem : u ∈ s.visit.toList := by
            rw [hu]
            exact List.mem_cons_self
          cases honly u (List.mem_append_left _ hmem) hsame
          exact (List.disjoint_of_nodup_append hnodup) hmem hlater
        obtain ⟨hsame, -⟩ := hmoves.keeps (hsound.wellFormed.lt_next hstore) hnot
        obtain ⟨step, hstep, hfound⟩ := ih (hmoves.sound hsound) hlater
          (List.Nodup.of_append_right hnodup)
          (fun u hu => honly u (List.mem_append_right _ hu)) (hsame.trans hstore)
        exact ⟨step, List.mem_cons_of_mem _ hstep, hfound⟩

/-- What the sets returned by `select` single out. -/
theorem ready_pending {acceptors : List (Session H)} {c : Config H Env} {a : Answers Env}
    (htop : c.phase = .top) (hallowed : Allowed c a) (horderly : Orderly acceptors c) :
    (∀ id ∈ c.server.ready a.readSet, ∃ session,
      c.server.sessions.store id = some session ∧ session.pending = false) ∧
    ∀ id ∈ c.server.ready a.writeSet, ∃ session,
      c.server.sessions.store id = some session ∧ session.pending = true := by
  obtain ⟨hsound, -, hsets, hapart, -⟩ := horderly
  obtain ⟨reads, hread⟩ := exists_reads hsound
  obtain ⟨writes, hwrite⟩ := exists_writes hsound
  obtain ⟨handles, hhandles⟩ := exists_handles hsound
  obtain ⟨hreadSub, hwriteSub⟩ :=
    hallowed.select reads writes htop hread hwrite (hsets.fills hsound hread hwrite)
  rw [← chosen_eq_ready hsets hhandles a, ← chosen_eq_ready hsets hhandles a]
  constructor
  · intro id hid
    exact pending_of_chosen_read hsound hsets hapart hread hhandles hreadSub hid
  · intro id hid
    refine pending_of_chosen_write hsets hapart hhandles ?_ hid
    intro handle hhandle
    obtain ⟨hmem, -⟩ := FdSet.mem_filled.mp (hwriteSub handle hhandle)
    exact (mem_writes hsound hwrite handle).mp hmem

omit [ProtocolHandler H Env] in
theorem ready_nodup {server : Server H Env} (hsound : server.Sound) (set : FdSet) :
    (server.ready set).Nodup :=
  hsound.wellFormed.nodup.filter _

/-- No session is visited twice in a pass. -/
theorem visited_once {acceptors : List (Session H)} {c : Config H Env} {a : Answers Env}
    (htop : c.phase = .top) (hallowed : Allowed c a) (horderly : Orderly acceptors c) :
    (((c.server.ready a.readSet).map Visit.read ++
      (c.server.ready a.writeSet).map Visit.write).map Visit.session).Nodup := by
  obtain ⟨hidle, hpending⟩ := ready_pending htop hallowed horderly
  have hread : ((c.server.ready a.readSet).map Visit.read).map Visit.session =
      c.server.ready a.readSet := by
    rw [List.map_map]
    exact List.map_id _
  have hwrite : ((c.server.ready a.writeSet).map Visit.write).map Visit.session =
      c.server.ready a.writeSet := by
    rw [List.map_map]
    exact List.map_id _
  rw [List.map_append, hread, hwrite]
  apply (ready_nodup horderly.sound _).append (ready_nodup horderly.sound _)
  intro id hid hother
  obtain ⟨session, hstore, hsession⟩ := hidle id hid
  obtain ⟨found, hfound, hbusy⟩ := hpending id hother
  cases hstore.symm.trans hfound
  cases hsession.symm.trans hbusy

theorem Pass.visits_eq {c last : Config H Env} {a : Answers Env}
    {steps : List (Config H Env × Answers Env)} (h : Pass loader host c a steps last)
    (horderly : Orderly (host.acceptors loader.plugins) c) :
    visits steps =
        (c.server.ready a.readSet).map .read ++ (c.server.ready a.writeSet).map .write ∧
      steps.length =
        (c.server.ready a.readSet).length + (c.server.ready a.writeSet).length + 2 := by
  obtain ⟨htop, hrun, hback, hbetween, hbounded⟩ := h
  obtain ⟨hfirst, hlater⟩ := List.forall_mem_cons.mp hbounded
  cases hrun with
  | @cons _ next _ _ _ hstep hrest =>
      have hmoves := step_moves hstep
      obtain hreturned | ⟨hreading, hserver⟩ := hmoves.top horderly.inSets htop
      · cases (run_returned hrest hreturned).symm.trans hback
      · have hnext := hmoves.orderly hfirst not_isConnection_of_mem_acceptors horderly
        have hvisits := run_reading not_isConnection_of_mem_acceptors hrest hreading hback hbetween
          hlater hnext
        rw [hserver] at hvisits
        exact hvisits

theorem Pass.visits_cons {c last : Config H Env} {a : Answers Env}
    {steps : List (Config H Env × Answers Env)} (h : Pass loader host c a steps last) :
    visits ((c, a) :: steps) = visits steps := by
  rw [ModServer.visits_cons, Config.visit, h.top]
  exact List.nil_append _

/-- A session that is visited in a pass is then as it was at the beginning, and
stays as the visit leaves it. -/
theorem Pass.visited {c last : Config H Env} {a : Answers Env}
    {steps : List (Config H Env × Answers Env)} (h : Pass loader host c a steps last)
    (horderly : Orderly (host.acceptors loader.plugins) c) {v : Visit} (hmem : v ∈ visits steps)
    {session : Session H} (hstore : c.server.sessions.store v.session = some session) :
    ∃ step ∈ steps, step.1.visit = some v ∧ step.1.server.sessions.store v.session = some session ∧
      last.server.sessions.store v.session = session.after step.2 v := by
  have honce := visited_once h.top (h.bounded _ List.mem_cons_self).allowed horderly
  rw [← (h.visits_eq horderly).1] at honce
  rw [← h.visits_cons] at hmem honce
  obtain ⟨step, hstep, hvisit, hfound⟩ := run_visited h.run horderly.sound hmem
    honce.of_map (fun u hu hsame => List.inj_on_of_nodup_map honce hu hmem hsame) hstore
  rcases List.mem_cons.mp hstep with rfl | hlater
  · rw [Config.visit, h.top] at hvisit
    cases hvisit
  · exact ⟨step, hlater, hvisit, hfound⟩

/-- The calls of a pass are known at its beginning: `OnRead` of the sessions
with nothing to send that `select` found readable, then `OnWrite` of those with
something to send that it found writable, each in the order of registration.
Sessions that come or go meanwhile change neither list. -/
theorem pass_exact (loader : PluginLoader H Env) (host : Host)
    (hhost : host.InSets loader.plugins) (c : Config H Env)
    (h : (serverLoop loader host).Reachable Bounded c) (a : Answers Env)
    (steps : List (Config H Env × Answers Env)) (last : Config H Env)
    (hpass : Pass loader host c a steps last) :
    visits steps =
        (c.server.ready a.readSet).map .read ++ (c.server.ready a.writeSet).map .write ∧
      ((visits steps).map Visit.session).Nodup ∧
      (∀ id ∈ c.server.ready a.readSet, ∃ session,
        c.server.sessions.store id = some session ∧ session.pending = false) ∧
      (∀ id ∈ c.server.ready a.writeSet, ∃ session,
        c.server.sessions.store id = some session ∧ session.pending = true) ∧
      steps.length ≤ c.server.sessions.keys.length + 2 := by
  have horderly := reachable_orderly hhost (fun _ _ hbounded => hbounded) h
  obtain ⟨hvisits, hlength⟩ := hpass.visits_eq horderly
  have hallowed := (hpass.bounded _ List.mem_cons_self).allowed
  have honce := visited_once hpass.top hallowed horderly
  obtain ⟨hidle, hpending⟩ := ready_pending hpass.top hallowed horderly
  refine ⟨hvisits, by rw [hvisits]; exact honce, hidle, hpending, ?_⟩
  have hsub : ((c.server.ready a.readSet).map Visit.read ++
      (c.server.ready a.writeSet).map Visit.write).map Visit.session ⊆ c.server.sessions.keys := by
    intro id hid
    obtain ⟨v, hv, rfl⟩ := List.mem_map.mp hid
    rcases List.mem_append.mp hv with hread | hwrite
    · obtain ⟨other, hother, rfl⟩ := List.mem_map.mp hread
      exact List.mem_of_mem_filter hother
    · obtain ⟨other, hother, rfl⟩ := List.mem_map.mp hwrite
      exact List.mem_of_mem_filter hother
  have hle := honce.length_le_of_subset hsub
  simp only [List.length_map, List.length_append] at hle
  omega

/-- A pass acts on the sessions it began with as if on all of them at once: each
is left as it was, or is what one call, made on it as it was then, leaves. -/
theorem pass_parallel (loader : PluginLoader H Env) (host : Host)
    (hhost : host.InSets loader.plugins) (c : Config H Env)
    (h : (serverLoop loader host).Reachable Bounded c) (a : Answers Env)
    (steps : List (Config H Env × Answers Env)) (last : Config H Env)
    (hpass : Pass loader host c a steps last) (id : Nat) (session : Session H)
    (hstore : c.server.sessions.store id = some session) :
    (id ∉ c.server.ready a.readSet → id ∉ c.server.ready a.writeSet →
      last.server.sessions.store id = some session) ∧
    (id ∈ c.server.ready a.readSet → ∃ step ∈ steps, step.1.visit = some (.read id) ∧
      last.server.sessions.store id = session.afterRead step.2) ∧
    (id ∈ c.server.ready a.writeSet → ∃ step ∈ steps, step.1.visit = some (.write id) ∧
      last.server.sessions.store id = session.afterWrite step.2) := by
  have horderly := reachable_orderly hhost (fun _ _ hbounded => hbounded) h
  obtain ⟨hvisits, -⟩ := hpass.visits_eq horderly
  have hvisited {v : Visit} (hmem : v ∈ visits steps) (hsession : v.session = id) :
      ∃ step ∈ steps, step.1.visit = some v ∧
        last.server.sessions.store id = session.after step.2 v := by
    subst hsession
    obtain ⟨step, hstep, hvisit, -, hlast⟩ := hpass.visited horderly hmem hstore
    exact ⟨step, hstep, hvisit, hlast⟩
  refine ⟨?_, ?_, ?_⟩
  · intro hread hwrite
    rw [← hstore]
    apply run_keeps hpass.run (horderly.sound.wellFormed.lt_next hstore)
    intro v hv
    rw [hpass.visits_cons, hvisits] at hv
    rcases List.mem_append.mp hv with hmem | hmem
    · obtain ⟨other, hother, rfl⟩ := List.mem_map.mp hmem
      exact ne_of_mem_of_not_mem hother hread
    · obtain ⟨other, hother, rfl⟩ := List.mem_map.mp hmem
      exact ne_of_mem_of_not_mem hother hwrite
  · intro hread
    refine hvisited (v := .read id) ?_ rfl
    rw [hvisits]
    exact List.mem_append_left _ (List.mem_map_of_mem hread)
  · intro hwrite
    refine hvisited (v := .write id) ?_ rfl
    rw [hvisits]
    exact List.mem_append_right _ (List.mem_map_of_mem hwrite)

/-! Passes end. -/

/-- The rest of a pass, with answers of some kind. It ends in one of the states
that `R` singles out. -/
structure Finishes (loader : PluginLoader H Env) (host : Host) (R : Config H Env → Prop)
    (follows : Config H Env → Answers Env → Prop) (c : Config H Env)
    (steps : List (Config H Env × Answers Env)) (last : Config H Env) : Prop where
  run : (serverLoop loader host).Run c steps last
  back : last.phase = .top
  between : ∀ step ∈ steps, step.1.phase ≠ .top
  follows : ∀ step ∈ steps, follows step.1 step.2 ∧ Bounded step.1 step.2
  reached : R last

/-- From these states the loop goes on to others of them, unless it is left, with
answers of some kind, which keep their promises. -/
structure Goes (loader : PluginLoader H Env) (host : Host) (R : Config H Env → Prop)
    (follows : Config H Env → Answers Env → Prop) : Prop where
  orderly : ∀ s, R s → Orderly (host.acceptors loader.plugins) s
  step : ∀ s, R s → ∃ a next, follows s a ∧ Bounded s a ∧ s.step a = .ok next ∧
    (next.phase ≠ .returned → R next)

namespace Goes

variable {R : Config H Env → Prop} {follows : Config H Env → Answers Env → Prop}

theorem cons {c next last : Config H Env} {a : Answers Env}
    {steps : List (Config H Env × Answers Env)} (hfollows : follows c a) (hbounded : Bounded c a)
    (hstep : c.step a = .ok next) (hphase : c.phase ≠ .top)
    (hends : Finishes loader host R follows next steps last) :
    Finishes loader host R follows c ((c, a) :: steps) last :=
  ⟨.cons a hstep hends.run, hends.back, List.forall_mem_cons.mpr ⟨hphase, hends.between⟩,
    List.forall_mem_cons.mpr ⟨⟨hfollows, hbounded⟩, hends.follows⟩, hends.reached⟩

theorem sending (h : Goes loader host R follows) {c : Config H Env} {todo : List Nat} (hc : R c)
    (hphase : c.phase = .sending todo) :
    ∃ steps last, Finishes loader host R follows c steps last := by
  induction todo generalizing c with
  | nil =>
      obtain ⟨a, next, hfollows, hbounded, hstep, hnext⟩ := h.step c hc
      have htop := (step_moves hstep).sendingEnd hphase
      have hend : Finishes loader host R follows next [] next :=
        ⟨.nil, htop, by simp, by simp, hnext (by simp [htop])⟩
      exact ⟨_, next, cons hfollows hbounded hstep (by simp [hphase]) hend⟩
  | cons id todo ih =>
      obtain ⟨a, next, hfollows, hbounded, hstep, hnext⟩ := h.step c hc
      have hrest := (step_moves hstep).sending hphase
      obtain ⟨steps, last, hends⟩ := ih (hnext (by simp [hrest])) hrest
      exact ⟨_, last, cons hfollows hbounded hstep (by simp [hphase]) hends⟩

theorem reading (h : Goes loader host R follows) {c : Config H Env} {writeSet : FdSet}
    {todo : List Nat} (hc : R c) (hphase : c.phase = .reading writeSet todo) :
    ∃ steps last, Finishes loader host R follows c steps last := by
  induction todo generalizing c with
  | nil =>
      obtain ⟨a, next, hfollows, hbounded, hstep, hnext⟩ := h.step c hc
      obtain ⟨hsending, -⟩ := (step_moves hstep).readingEnd (h.orderly c hc).inSets hphase
      obtain ⟨steps, last, hends⟩ := h.sending (hnext (by simp [hsending])) hsending
      exact ⟨_, last, cons hfollows hbounded hstep (by simp [hphase]) hends⟩
  | cons id todo ih =>
      obtain ⟨a, next, hfollows, hbounded, hstep, hnext⟩ := h.step c hc
      obtain ⟨hrest, -⟩ :=
        (step_moves hstep).reading hbounded.allowed (h.orderly c hc) hphase
      obtain ⟨steps, last, hends⟩ := ih (hnext (by simp [hrest])) hrest
      exact ⟨_, last, cons hfollows hbounded hstep (by simp [hphase]) hends⟩

/-- A pass comes to its end unless `select` fails. -/
theorem pass (h : Goes loader host R follows) {c : Config H Env} (hc : R c) (htop : c.phase = .top)
    (hselect : ∀ a, follows c a → a.selectRc ≠ -1) :
    ∃ a steps last, Pass loader host c a steps last ∧
      (∀ step ∈ (c, a) :: steps, follows step.1 step.2) ∧ R last := by
  obtain ⟨a, next, hfollows, hbounded, hstep, hnext⟩ := h.step c hc
  obtain hreturned | ⟨hreading, -⟩ := (step_moves hstep).top (h.orderly c hc).inSets htop
  · exact absurd (returned_of_top hstep htop hreturned) (hselect a hfollows)
  · obtain ⟨steps, last, hends⟩ := h.reading (hnext (by simp [hreading])) hreading
    refine ⟨a, steps, last, ⟨htop, .cons a hstep hends.run, hends.back, hends.between, ?_⟩,
      ?_, hends.reached⟩
    · exact List.forall_mem_cons.mpr
        ⟨hbounded, fun step hmem => (hends.follows step hmem).2⟩
    · exact List.forall_mem_cons.mpr
        ⟨hfollows, fun step hmem => (hends.follows step hmem).1⟩

end Goes

/-! From a state on the system calls come to what `calls` says. -/

/-- The states that calls which return lead to. -/
def Guided (loader : PluginLoader H Env) (host : Host) (calls : Config H Env → SystemCall Env)
    (c s : Config H Env) : Prop :=
  ∃ steps, (serverLoop loader host).Run c steps s ∧
    ∀ step ∈ steps, calls step.1 = .returns step.2

namespace Guided

variable {calls : Config H Env → SystemCall Env} {c middle s : Config H Env}

theorem refl : Guided loader host calls c c := ⟨[], .nil, by simp⟩

theorem trans (h : Guided loader host calls c middle) (hmore : Guided loader host calls middle s) :
    Guided loader host calls c s := by
  obtain ⟨steps, hrun, hsteps⟩ := h
  obtain ⟨more, hrest, hlater⟩ := hmore
  exact ⟨steps ++ more, Machine.Run.append_iff.mpr ⟨middle, hrun, hrest⟩,
    List.forall_mem_append.mpr ⟨hsteps, hlater⟩⟩

/-- Where all calls return and keep their promises, the loop goes on. -/
theorem goes (hhost : host.InSets loader.plugins) {fits : Env → Prop}
    (hserves : ∀ createdBy, Serves fits (Creates loader host createdBy))
    (hreturns : ∀ s, Guided loader host calls c s →
      ∃ a, calls s = .returns a ∧ BoundedIn fits s a) :
    Goes loader host (fun s => Guided loader host calls c s ∧
      (serverLoop loader host).Reachable (BoundedIn fits) s) (fun s a => calls s = .returns a) := by
  constructor
  · exact fun s hs => reachable_orderly hhost (fun _ _ hbounded => hbounded.1) hs.2
  · intro s hs
    obtain ⟨hguided, hreached⟩ := hs
    obtain ⟨a, ha, hbounded⟩ := hreturns s hguided
    obtain ⟨next, hstep⟩ := loop_proceeds hhost hserves hreached hbounded
    have hone : Guided loader host calls s next := ⟨[(s, a)], .cons a hstep .nil, by simpa using ha⟩
    refine ⟨a, next, ha, hbounded.1, hstep, ?_⟩
    exact fun _ => ⟨hguided.trans hone, hreached.step a hbounded hstep⟩

end Guided

/-- Where the handlers of each plugin keep to their contract by themselves, every
pass comes to its end, whatever the surroundings answer while they keep their
promises, as long as every call returns, none raises `SIGPIPE` and `select` does
not fail. -/
theorem pass_completes (loader : PluginLoader H Env) (host : Host)
    (hhost : host.InSets loader.plugins) (fits : Env → Prop)
    (hserves : ∀ createdBy, Serves fits (Creates loader host createdBy)) (c : Config H Env)
    (h : (serverProcess loader host).Reachable (Promised (BoundedIn fits)) (.running c))
    (htop : c.phase = .top) (calls : Config H Env → SystemCall Env)
    (hreturns : ∀ s, Guided loader host calls c s → ∃ a, calls s = .returns a ∧ BoundedIn fits s a)
    (hselect : ∀ a, calls c = .returns a → a.selectRc ≠ -1) :
    ∃ a steps last, Pass loader host c a steps last ∧
      (∀ step ∈ (c, a) :: steps, calls step.1 = .returns step.2) ∧
      (serverProcess loader host).Run (.running c) (((c, a) :: steps).map ofLoop)
        (.running last) := by
  obtain ⟨a, steps, last, hpass, hcalls, -⟩ :=
    (Guided.goes hhost hserves hreturns).pass ⟨.refl, reachable_running h⟩ htop hselect
  refine ⟨a, steps, last, hpass, hcalls, run_ofLoop hpass.run ?_⟩
  rw [hpass.back]
  exact Phase.noConfusion

end Runs

/-! The HTTP server in a pass in which it accepts its second client while it
answers the first one. -/

section Http

open Http

theorem pass_serving : Pass httpLoader loopback (pendingFirst .top) serving
    [(acceptingSecond, serving), (acceptedSecond, serving), (writing, serving),
      (written (.sending []), serving)] (written .top) :=
  ⟨rfl, run_serving, rfl, by simp [acceptingSecond, acceptedSecond, writing, written],
    fun step hstep => (tame_run_serving step hstep).1⟩

theorem bounded_pendingFirst :
    (serverLoop httpLoader loopback).Reachable Bounded (pendingFirst .top) :=
  reachable_pendingFirst.mono (fun _ _ htame => htame.1)

theorem boundedShort_pendingFirst :
    (serverLoop httpLoader loopback).Reachable BoundedShort (pendingFirst .top) :=
  reachable_pendingFirst.mono (fun _ _ htame => htame.boundedShort)

theorem pass_exact_serving :
    loopback.InSets httpLoader.plugins ∧
      (serverLoop httpLoader loopback).Reachable Bounded (pendingFirst .top) ∧
      ∃ steps last, Pass httpLoader loopback (pendingFirst .top) serving steps last ∧
        visits steps = [.read 0, .write 1] := by
  obtain ⟨hvisits, -⟩ := pass_exact httpLoader loopback inSets_loopback (pendingFirst .top)
    bounded_pendingFirst serving _ _ pass_serving
  exact ⟨inSets_loopback, bounded_pendingFirst, _, _, pass_serving, hvisits⟩

theorem pass_parallel_serving :
    ∃ steps last, Pass httpLoader loopback (pendingFirst .top) serving steps last ∧
      ∃ step ∈ steps, step.1.visit = some (.write 1) ∧
        last.server.sessions.store 1 =
          (Session.connection 5 (⟨none, ⟨responseTo failing.env.page⟩⟩ : HttpHandler) 0).afterWrite
            step.2 := by
  obtain ⟨-, -, hwrite⟩ := pass_parallel httpLoader loopback inSets_loopback (pendingFirst .top)
    bounded_pendingFirst serving _ _ pass_serving 1 _ rfl
  exact ⟨_, _, pass_serving, hwrite (by decide)⟩

/-! The calls under which what is pending is sent, one byte at a time. -/

/-- What is pending can be sent, no one sends anything, and `send` takes one
byte. -/
def draining (s : Config HttpHandler Surroundings) : Answers Surroundings :=
  { failing with
    selectRc := 1
    writeSet := .filled ((s.server.fillReadyWrite.toOption).getD [])
    sent := 1 }

theorem writeSet_draining {s : Config HttpHandler Surroundings} {writes : List Handle}
    (h : s.server.fillReadyWrite = .ok writes) : (draining s).writeSet = .filled writes := by
  rw [draining, h]
  rfl

/-- No step under these answers reads from a session. -/
def ReadsNone (s : Config HttpHandler Surroundings) : Prop :=
  (serverLoop httpLoader loopback).Reachable BoundedShort s ∧
    ∀ writeSet id todo, s.phase ≠ .reading writeSet (id :: todo)

theorem ReadsNone.bounded {s : Config HttpHandler Surroundings} (h : ReadsNone s) :
    BoundedShort s (draining s) := by
  obtain ⟨hreached, hreading⟩ := h
  have hidle := not_accepting_of_phase hreading
  have horderly := reachable_orderly inSets_loopback (fun _ _ hbounded => hbounded.1) hreached
  refine ⟨⟨⟨?_, fun haccepting => absurd haccepting hidle, ?_, ?_⟩,
    fun haccepting => absurd haccepting hidle⟩, length_failing_page⟩
  · intro reads writes _ _ hwrite _
    rw [writeSet_draining hwrite]
    exact ⟨FdSet.zero_subset _, FdSet.subset_rfl⟩
  · intro bytes hbytes
    cases hbytes
  · intro id todo sock handler createdBy hphase hstore
    have hok := horderly.phase
    rw [hphase] at hok
    obtain ⟨session, hsession, hpending⟩ := hok.2 id List.mem_cons_self
    cases hstore.symm.trans hsession
    have hbusy : (!handler.response.data.isEmpty) = true := hpending
    have hne : handler.response.data ≠ [] := by simpa using hbusy
    have hlength : 0 < handler.response.data.length := List.length_pos_of_ne_nil hne
    have hone : (1 : Int) ≤ handler.response.data.length := by omega
    exact hone

theorem ReadsNone.step {s next : Config HttpHandler Surroundings} (h : ReadsNone s)
    (hstep : s.step (draining s) = .ok next) : ReadsNone next := by
  have horderly := reachable_orderly inSets_loopback (fun _ _ hbounded => hbounded.1) h.1
  refine ⟨h.1.step _ h.bounded hstep, ?_⟩
  intro writeSet id todo hphase
  cases step_moves hstep with
  | poll _ _ hhandles =>
      rw [chosen_eq_ready horderly.inSets hhandles] at hphase
      have hnone : ∀ server : Server HttpHandler Surroundings, server.ready .zero = [] := by
        intro server
        apply List.filter_eq_nil_iff.mpr
        intro other _ hready
        obtain ⟨session, -, hmem⟩ := isReady_iff.mp hready
        exact FdSet.not_mem_zero _ hmem
      cases (hnone _).symm.trans (Phase.reading.inj hphase).2
  | stop | readEnd | send | sendFailed | sendEnd | stay => cases hphase
  | accept | receive | readFailed => exact h.2 _ _ _ rfl

theorem ReadsNone.guided {s : Config HttpHandler Surroundings}
    (h : Guided httpLoader loopback (fun s => .returns (draining s)) (pendingFirst .top) s) :
    ReadsNone s := by
  obtain ⟨steps, hrun, hsteps⟩ := h
  have hstart : ReadsNone (pendingFirst .top) :=
    ⟨boundedShort_pendingFirst, by simp [pendingFirst]⟩
  have hkeep : ∀ before a next, ReadsNone before →
      SystemCall.returns (draining before) = .returns a → before.step a = .ok next →
      ReadsNone next := by
    intro before a next hbefore hanswer hstep
    cases hanswer
    exact hbefore.step hstep
  exact (Machine.Run.invariant hkeep hrun hsteps hstart).1

theorem pass_completes_draining :
    loopback.InSets httpLoader.plugins ∧
      (∀ createdBy, Serves ShortPage (Creates httpLoader loopback createdBy)) ∧
      ∃ steps last, Pass httpLoader loopback (pendingFirst .top) (draining (pendingFirst .top))
          steps last ∧
        visits steps = [.write 1] ∧
        (serverProcess httpLoader loopback).Run (.running (pendingFirst .top))
          (((pendingFirst .top, draining (pendingFirst .top)) :: steps).map ofLoop)
          (.running last) := by
  have hserves := serves_http servesHttp_httpLoader loopback ShortPage
  obtain ⟨a, steps, last, hpass, hcalls, hrun⟩ := pass_completes httpLoader loopback
    inSets_loopback ShortPage hserves (pendingFirst .top)
    (running_of_reachable boundedShort_pendingFirst Phase.noConfusion) rfl
    (fun s => .returns (draining s))
    (fun s hs => ⟨draining s, rfl, (ReadsNone.guided hs).bounded⟩) (by simp [draining])
  obtain rfl : draining (pendingFirst .top) = a :=
    SystemCall.returns.inj (hcalls _ List.mem_cons_self)
  have horderly :=
    reachable_orderly inSets_loopback (fun _ _ hbounded => hbounded.1) boundedShort_pendingFirst
  exact ⟨inSets_loopback, hserves, steps, last, hpass, (hpass.visits_eq horderly).1, hrun⟩

end Http

end ModServer
