import ModServer.Server.Delivery
import ModServer.Server.Passes

/-!
What must happen, where the rest says what cannot: if `select` finds a
connection writable whenever something is pending on it, and `send` then takes
at least a byte, the pending response is out after no more passes than it has
bytes, and the client can read all pages that were composed for it. The other
connections come into it in two ways only, since one process serves all of
them: each call on them must return, and none may raise `SIGPIPE`.
-/

namespace ModServer

open Library Http

/-! A session that is not read composes nothing. -/

theorem pagesBy_append (id : Nat) (trace events : HttpTrace) :
    pagesBy id (trace ++ events) = pagesBy id trace ++ pagesBy id events :=
  List.filterMap_append

theorem pagesBy_quiet (id : Nat) {trace events : HttpTrace} (h : ∀ event ∈ events, event.Quiet) :
    pagesBy id (trace ++ events) = pagesBy id trace := by
  have hnone : pagesBy id events = [] := by
    apply List.filterMap_eq_nil_iff.mpr
    intro event hevent
    have hquiet := h event hevent
    cases event with
    | didReceive => cases hquiet
    | fdSet | fdIsSet | select | accepted | recv | stored | send | closed => rfl
  rw [pagesBy_append, hnone, List.append_nil]

theorem Moves.pagesBy {a : Answers Surroundings} {c next : Config HttpHandler Surroundings}
    (h : Moves a c next) {id : Nat} (hvisit : c.visit ≠ some (.read id)) :
    pagesBy id next.trace = pagesBy id c.trace := by
  cases h with
  | stop => exact pagesBy_quiet id (quiet_polled _ _ _)
  | poll =>
      rw [pagesBy_quiet id (quiet_tested _)]
      exact pagesBy_quiet id (quiet_polled _ _ _)
  | readEnd => exact pagesBy_quiet id (quiet_tested _)
  | sendEnd | stay => rfl
  | accept =>
      rw [pagesBy_append]
      exact List.append_nil _
  | @receive server trace writeSet visited todo =>
      have hne : visited ≠ id := by
        intro hsame
        exact hvisit (congrArg (fun id => some (Visit.read id)) hsame)
      rw [pagesBy_append]
      simp [ModServer.pagesBy, pageIn, hne]
  | readFailed =>
      rw [pagesBy_append]
      exact List.append_nil _
  | send =>
      rw [pagesBy_append]
      exact List.append_nil _
  | sendFailed _ _ _ _ hevents =>
      rw [hevents, List.append_assoc, pagesBy_append]
      exact List.append_nil _

section Runs

variable {loader : PluginLoader HttpHandler Surroundings} {host : Host}
  {c : Config HttpHandler Surroundings} {id : Nat} {sock : Handle} {createdBy : Nat}

theorem run_pagesBy {last : Config HttpHandler Surroundings}
    {steps : List (Config HttpHandler Surroundings × Answers Surroundings)}
    (h : (serverLoop loader host).Run c steps last) (hvisits : .read id ∉ visits steps) :
    pagesBy id last.trace = pagesBy id c.trace := by
  induction h with
  | nil => rfl
  | @cons s next last steps a hstep _ ih =>
      rw [visits_cons] at hvisits
      have hvisit : s.visit ≠ some (.read id) := by
        intro hread
        apply hvisits
        rw [hread]
        exact List.mem_cons_self
      rw [ih (fun hmem => hvisits (List.mem_append_right _ hmem)),
        (step_moves hstep).pagesBy hvisit]

/-- All calls return and keep the promises, `select` does not fail, it finds the
connection writable when something is pending, and `send` then takes a byte. -/
structure Fair (loader : PluginLoader HttpHandler Surroundings) (host : Host)
    (calls : Config HttpHandler Surroundings → SystemCall Surroundings)
    (c : Config HttpHandler Surroundings) (id : Nat) (sock : Handle) : Prop where
  returns : ∀ s, Guided loader host calls c s → ∃ a, calls s = .returns a
  bounded : ∀ s a, Guided loader host calls c s → calls s = .returns a → BoundedShort s a
  select : ∀ s a, Guided loader host calls c s → calls s = .returns a → s.phase = .top →
    a.selectRc ≠ -1
  writable : ∀ s a handler createdBy, Guided loader host calls c s → calls s = .returns a →
    s.phase = .top → s.server.sessions.store id = some (.connection sock handler createdBy) →
    handler.response.data ≠ [] → sock ∈ a.writeSet
  takes : ∀ s a todo, Guided loader host calls c s → calls s = .returns a →
    s.phase = .sending (id :: todo) → 0 < a.sent

/-- How often the sets were filled. -/
def passes (steps : List (Config HttpHandler Surroundings × Answers Surroundings)) : Nat :=
  (steps.filter (fun step => step.1.phase = .top)).length

theorem Pass.passes_eq {a : Answers Surroundings} {last : Config HttpHandler Surroundings}
    {steps : List (Config HttpHandler Surroundings × Answers Surroundings)}
    (h : Pass loader host c a steps last) : passes ((c, a) :: steps) = 1 := by
  have hnone : steps.filter (fun step => step.1.phase = .top) = [] := by
    apply List.filter_eq_nil_iff.mpr
    intro step hstep
    simpa using h.between step hstep
  rw [passes, List.filter_cons, if_pos (by simp [h.top]), hnone]
  rfl

variable {calls : Config HttpHandler Surroundings → SystemCall Surroundings}

theorem Fair.from {s : Config HttpHandler Surroundings} (h : Fair loader host calls c id sock)
    (hs : Guided loader host calls c s) : Fair loader host calls s id sock where
  returns t ht := h.returns t (hs.trans ht)
  bounded t a ht := h.bounded t a (hs.trans ht)
  select t a ht := h.select t a (hs.trans ht)
  writable t a handler createdBy ht := h.writable t a handler createdBy (hs.trans ht)
  takes t a todo ht := h.takes t a todo (hs.trans ht)

theorem Fair.goes (h : Fair loader host calls c id sock) (hhttp : ServesHttp loader)
    (hhost : host.InSets loader.plugins) :
    Goes loader host (fun s => Guided loader host calls c s ∧
      (serverLoop loader host).Reachable BoundedShort s) (fun s a => calls s = .returns a) := by
  have hserves := serves_http hhttp host ShortPage
  apply Guided.goes hhost hserves
  intro s hs
  obtain ⟨a, ha⟩ := h.returns s hs
  exact ⟨a, ha, h.bounded s a hs ha⟩

theorem guided_of_mem {last : Config HttpHandler Surroundings}
    {steps : List (Config HttpHandler Surroundings × Answers Surroundings)}
    (hrun : (serverLoop loader host).Run c steps last)
    (hsteps : ∀ step ∈ steps, calls step.1 = .returns step.2)
    {step : Config HttpHandler Surroundings × Answers Surroundings} (hstep : step ∈ steps) :
    Guided loader host calls c step.1 := by
  obtain ⟨before, after, rfl⟩ := List.append_of_mem hstep
  obtain ⟨middle, hbefore, hafter⟩ := Machine.Run.append_iff.mp hrun
  obtain ⟨s, a⟩ := step
  cases hafter with
  | cons =>
      refine ⟨before, hbefore, ?_⟩
      exact fun other hother => hsteps other (List.mem_append_left _ hother)

theorem sending_of_visit {s : Config HttpHandler Surroundings} (h : s.visit = some (.write id)) :
    ∃ todo, s.phase = .sending (id :: todo) := by
  obtain ⟨server, phase, trace⟩ := s
  cases phase with
  | top | returned => cases h
  | reading writeSet todo =>
      cases todo with
      | nil => cases h
      | cons => cases h
  | sending todo =>
      cases todo with
      | nil => cases h
      | cons first todo =>
          cases h
          exact ⟨todo, rfl⟩

/-- A connection with something to send is not read in a pass. -/
theorem Pass.not_read {a : Answers Surroundings} {last : Config HttpHandler Surroundings}
    {steps : List (Config HttpHandler Surroundings × Answers Surroundings)}
    (h : Pass loader host c a steps last)
    (horderly : Orderly (host.acceptors loader.plugins) c) {handler : HttpHandler}
    (hstore : c.server.sessions.store id = some (.connection sock handler createdBy))
    (hpending : handler.response.data ≠ []) : .read id ∉ visits ((c, a) :: steps) := by
  obtain ⟨hidle, -⟩ := ready_pending h.top (h.bounded _ List.mem_cons_self).allowed horderly
  rw [h.visits_cons, (h.visits_eq horderly).1]
  intro hmem
  rcases List.mem_append.mp hmem with hread | hwritten
  · obtain ⟨other, hother, heq⟩ := List.mem_map.mp hread
    cases heq
    obtain ⟨session, hsession, hnone⟩ := hidle id hother
    cases hstore.symm.trans hsession
    have hempty : (!handler.response.data.isEmpty) = false := hnone
    exact hpending (by simpa using hempty)
  · obtain ⟨other, -, heq⟩ := List.mem_map.mp hwritten
    cases heq

/-- A connection that `select` finds writable is written to in the pass. -/
theorem Pass.written {a : Answers Surroundings} {last : Config HttpHandler Surroundings}
    {steps : List (Config HttpHandler Surroundings × Answers Surroundings)}
    (h : Pass loader host c a steps last)
    (horderly : Orderly (host.acceptors loader.plugins) c) {handler : HttpHandler}
    (hstore : c.server.sessions.store id = some (.connection sock handler createdBy))
    (hwritable : sock ∈ a.writeSet) : .write id ∈ visits steps := by
  rw [(h.visits_eq horderly).1]
  apply List.mem_append_right
  apply List.mem_map_of_mem
  refine List.mem_filter.mpr ⟨horderly.sound.wellFormed.mem_of_store hstore, ?_⟩
  exact isReady_iff.mpr ⟨_, hstore, hwritable⟩

/-- What a successful `OnWrite` leaves pending is less. -/
theorem after_write_less {a : Answers Surroundings} {handler : HttpHandler} (hpos : 0 < a.sent)
    (hsize : a.sent ≤ handler.response.data.length)
    (hshort : handler.response.data.length < 2 ^ 31) :
    ∃ left : HttpHandler, (Session.connection sock handler createdBy).after a (.write id) =
        some (.connection sock left createdBy) ∧
      left.response.data.length < handler.response.data.length := by
  obtain ⟨n, hn⟩ := Int.eq_ofNat_of_zero_le hpos.le
  have hdid : ProtocolHandler.didSend handler a.sent =
      .ok (⟨handler.request, ⟨handler.response.data.drop n⟩⟩ : HttpHandler) := by
    rw [hn]
    exact didSend_drop handler (by omega) (by omega)
  refine ⟨⟨handler.request, ⟨handler.response.data.drop n⟩⟩, ?_, ?_⟩
  · rw [Session.after, Session.afterWrite, if_pos hpos, hdid]
  · simp only [List.length_drop]
    omega

/-- A pass sends at least a byte of what is pending, and reads nothing. -/
theorem Fair.pass (h : Fair loader host calls c id sock) (hhttp : ServesHttp loader)
    (hhost : host.InSets loader.plugins)
    (hreached : (serverLoop loader host).Reachable BoundedShort c) (htop : c.phase = .top)
    {handler : HttpHandler}
    (hstore : c.server.sessions.store id = some (.connection sock handler createdBy))
    (hpending : handler.response.data ≠ []) :
    ∃ a steps last handler', Pass loader host c a steps last ∧
      (∀ step ∈ (c, a) :: steps, calls step.1 = .returns step.2) ∧
      Guided loader host calls c last ∧ (serverLoop loader host).Reachable BoundedShort last ∧
      last.server.sessions.store id = some (.connection sock handler' createdBy) ∧
      handler'.response.data.length < handler.response.data.length ∧
      pagesBy id last.trace = pagesBy id c.trace := by
  have hhere : Guided loader host calls c c := .refl
  have horderly := reachable_orderly hhost (fun _ _ hbounded => hbounded.1) hreached
  obtain ⟨a, steps, last, hpass, hsteps, hguided, hlast⟩ :=
    (h.goes hhttp hhost).pass ⟨hhere, hreached⟩ htop (fun a ha => h.select c a hhere ha htop)
  have ha := hsteps (c, a) List.mem_cons_self
  have hwritable := h.writable c a handler createdBy hhere ha htop hstore hpending
  have hwrite := hpass.written horderly hstore hwritable
  obtain ⟨step, hmem, hvisit, hfound, hleft⟩ := @Pass.visited _ _ _ _ _ _ _ _ _ hpass horderly
    (.write id) hwrite _ hstore
  obtain ⟨todo, hsending⟩ := sending_of_visit hvisit
  have hinside := List.mem_cons_of_mem (c, a) hmem
  have hpos : 0 < step.2.sent :=
    h.takes step.1 step.2 todo (guided_of_mem hpass.run hsteps hinside) (hsteps step hinside)
      hsending
  have hsize : step.2.sent ≤ handler.response.data.length :=
    (hpass.bounded step hinside).allowed.send id todo sock handler createdBy hsending hfound
  obtain ⟨-, hshort, -⟩ :=
    (reachable_streamOk hhttp hhost hreached).streams id sock handler createdBy hstore
  obtain ⟨left, hafter, hless⟩ :=
    @after_write_less id sock createdBy step.2 handler hpos hsize hshort
  refine ⟨a, steps, last, left, hpass, hsteps, hguided, hlast, hleft.trans hafter, hless, ?_⟩
  exact run_pagesBy hpass.run (hpass.not_read horderly hstore hpending)

/-- What is pending is sent within as many passes as it has bytes. -/
theorem Fair.drains (hfair : Fair loader host calls c id sock) (hhttp : ServesHttp loader)
    (hhost : host.InSets loader.plugins)
    (h : (serverLoop loader host).Reachable BoundedShort c) (htop : c.phase = .top)
    {handler : HttpHandler}
    (hstore : c.server.sessions.store id = some (.connection sock handler createdBy)) :
    ∃ steps last handler', (serverLoop loader host).Run c steps last ∧
      (∀ step ∈ steps, calls step.1 = .returns step.2) ∧
      passes steps ≤ handler.response.data.length ∧ last.phase = .top ∧
      last.server.sessions.store id = some (.connection sock handler' createdBy) ∧
      handler'.response.data = [] ∧
      pageCodec.decodeStream (onWire sock last.trace) = (pagesBy id c.trace, []) := by
  induction hlength : handler.response.data.length using Nat.strong_induction_on
    generalizing c handler with
  | _ length ih =>
      by_cases hidle : handler.response.data = []
      · refine ⟨[], c, handler, .nil, by simp, Nat.zero_le _, htop, hstore, hidle, ?_⟩
        exact decoded_of_idle hhttp hhost h hstore hidle
      · obtain ⟨a, steps, middle, left, hpass, hsteps, hguided, hreached, hleft, hless, hpages⟩ :=
          hfair.pass hhttp hhost h htop hstore hidle
        obtain ⟨more, last, handler', hrun, hmore, hcount, hrest⟩ :=
          ih left.response.data.length (by omega) (hfair.from hguided) hreached hpass.back hleft rfl
        rw [hpages] at hrest
        refine ⟨((c, a) :: steps) ++ more, last, handler',
          Machine.Run.append_iff.mpr ⟨middle, hpass.run, hrun⟩,
          List.forall_mem_append.mpr ⟨hsteps, hmore⟩, ?_, hrest⟩
        have hone := hpass.passes_eq
        rw [passes] at hone hcount ⊢
        rw [List.filter_append, List.length_append, hone]
        omega

/-- Where the surroundings are fair to a client, all pages that were composed
for it reach it: what is pending is sent within as many passes as it has bytes,
and then the client reads these pages and nothing else. -/
theorem pages_drained (loader : PluginLoader HttpHandler Surroundings) (hhttp : ServesHttp loader)
    (host : Host) (hhost : host.InSets loader.plugins)
    (calls : Config HttpHandler Surroundings → SystemCall Surroundings)
    (c : Config HttpHandler Surroundings)
    (h : (serverProcess loader host).Reachable (Promised BoundedShort) (.running c))
    (htop : c.phase = .top) (id : Nat) (sock : Handle) (handler : HttpHandler) (createdBy : Nat)
    (hstore : c.server.sessions.store id = some (.connection sock handler createdBy))
    (hfair : Fair loader host calls c id sock) :
    ∃ (steps : List (Config HttpHandler Surroundings × Answers Surroundings)) (last : _)
        (handler' : HttpHandler),
      (serverProcess loader host).Run (.running c) (steps.map ofLoop) (.running last) ∧
      (∀ step ∈ steps, calls step.1 = .returns step.2) ∧
      passes steps ≤ handler.response.data.length ∧ last.phase = .top ∧
      last.server.sessions.store id = some (.connection sock handler' createdBy) ∧
      handler'.response.data = [] ∧
      pageCodec.decodeStream (onWire sock last.trace) = (pagesBy id c.trace, []) := by
  obtain ⟨steps, last, handler', hrun, hsteps, hcount, hback, hrest⟩ :=
    hfair.drains hhttp hhost (reachable_running h) htop hstore
  refine ⟨steps, last, handler', run_ofLoop hrun ?_, hsteps, hcount, hback, hrest⟩
  rw [hback]
  exact Phase.noConfusion

end Runs

/-! The HTTP server has answered its first client, and `send` takes one byte at
a time from then on. -/

section Http

theorem fair_draining : Fair httpLoader loopback (fun s => .returns (draining s))
    (pendingFirst .top) 1 5 where
  returns s _ := ⟨draining s, rfl⟩
  bounded s a hs ha := by
    cases ha
    exact (ReadsNone.guided hs).bounded
  select s a _ ha _ := by
    cases ha
    simp [draining]
  writable s a handler createdBy hs ha _ hstore hpending := by
    cases ha
    obtain ⟨hreached, -⟩ := ReadsNone.guided hs
    have hsound := (reachable_sound hreached).1
    obtain ⟨writes, hwrite⟩ := exists_writes hsound
    have hbusy : (!handler.response.data.isEmpty) = true := by simpa using hpending
    rw [writeSet_draining hwrite]
    exact FdSet.mem_filled.mpr
      ⟨(mem_writes hsound hwrite 5).mpr ⟨1, _, hstore, hbusy, rfl⟩, by decide⟩
  takes s a _ _ ha _ := by
    cases ha
    exact Int.one_pos

theorem pages_drained_answered :
    ServesHttp httpLoader ∧ loopback.InSets httpLoader.plugins ∧
      ∃ (steps : List (Config HttpHandler Surroundings × Answers Surroundings)) (last : _)
          (handler : HttpHandler), (serverProcess httpLoader loopback).Run
          (.running (pendingFirst .top)) (steps.map ofLoop) (.running last) ∧
        last.server.sessions.store 1 = some (.connection 5 handler 0) ∧
        handler.response.data = [] ∧
        pageCodec.decodeStream (onWire 5 last.trace) =
          (pagesBy 1 (pendingFirst .top).trace, []) := by
  have hreached := running_of_reachable boundedShort_pendingFirst Phase.noConfusion
  obtain ⟨steps, last, handler, hrun, -, -, -, hstore, hidle, hread⟩ :=
    pages_drained httpLoader servesHttp_httpLoader loopback inSets_loopback
      (fun s => .returns (draining s)) (pendingFirst .top) hreached rfl 1 5 _ 0 rfl fair_draining
  exact ⟨servesHttp_httpLoader, inSets_loopback, steps, last, handler, hrun, hstore, hidle, hread⟩

end Http

end ModServer
