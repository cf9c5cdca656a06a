import ModServer.Http.Client
import ModServer.Server.Conversation

/-!
What the clients of HTTP connections can read of what they were sent, at any
time while descriptors are below `FD_SETSIZE`: the pages whose responses were
composed for them, except perhaps the last, of which a part may still be
pending.
-/

namespace ModServer

open Library Http

/-- The page whose response the event makes the handler of the session
compose. -/
def pageIn (id : Nat) : Event HttpHandler Surroundings → Option Bytes
  | .didReceive session env handler data size =>
      if session = id then (handler.composed env data size).map (fun _ => env.page) else none
  | _ => none

/-- The pages whose responses the handler of the session composed, in order. -/
def pagesBy (id : Nat) (trace : HttpTrace) : List Bytes :=
  trace.filterMap (pageIn id)

theorem composed_eq (env : Surroundings) (handler : HttpHandler) (data : DataChunk) (size : Int) :
    handler.composed env data size =
      (handler.composed env data size).map (responseTo ∘ fun _ => env.page) := by
  unfold HttpHandler.composed
  split
  · rfl
  · split
    · rfl
    · rfl

theorem composedBy_eq (id : Nat) (trace : HttpTrace) :
    composedBy id trace = (pagesBy id trace).map responseTo := by
  rw [composedBy, pagesBy, List.map_filterMap]
  congr 1
  funext event
  cases event with
  | didReceive session env handler data size =>
      rw [composedIn, pageIn]
      split
      · rw [Option.map_map]
        exact composed_eq env handler data size
      · rfl
  | fdSet | fdIsSet | select | accepted | recv | stored | send | closed => rfl

/-- What was sent are responses, the last one perhaps in part, and what is
pending is the rest of that one. -/
structure Delivering (t : Conversation HttpHandler) (pages : List Bytes) (part : Bytes) :
    Prop where
  request : t.handler.request = none
  short : t.handler.response.data.length < 2 ^ 31
  sent : t.sent = pages.flatMap responseTo ++ part
  rest : (part = [] ∧ t.handler.response.data = []) ∨
    (t.handler.response.data ≠ [] ∧ ∃ page, responseTo page = part ++ t.handler.response.data)

namespace Delivering

variable {t next : Conversation HttpHandler} {pages : List Bytes} {part : Bytes}

theorem didReceive (h : Delivering t pages part) {env : Surroundings} {bytes : Bytes}
    (hidle : t.handler.response.data = []) (hne : bytes ≠ [])
    (hsize : bytes.length ≤ DataChunk.bufSize) (hshort : (responseTo env.page).length < 2 ^ 31)
    (hstep : t.step (.didReceive env bytes) = .ok next) : Delivering next pages [] := by
  obtain ⟨⟨request, response⟩, received, sent⟩ := t
  obtain ⟨hrequest, -, hsent, hrest⟩ := h
  cases hrequest
  have hfresh := didReceive_fresh env response hne hsize
  obtain ⟨handler, hdid, hnext⟩ := bind_eq_ok.mp hstep
  cases hfresh.symm.trans hdid
  cases hnext
  have hpart : part = [] := by
    obtain ⟨hnil, -⟩ | ⟨hpending, -⟩ := hrest
    · exact hnil
    · exact absurd hidle hpending
  subst hpart
  exact ⟨rfl, hshort, hsent, Or.inr ⟨responseTo_ne_nil env.page, env.page, rfl⟩⟩

theorem didSend (h : Delivering t pages part) {size : Int}
    (hpending : t.handler.response.data ≠ []) (hpos : 0 < size)
    (hsize : size ≤ t.handler.response.data.length) (hstep : t.step (.didSend size) = .ok next) :
    ∃ pages part, Delivering next pages part := by
  obtain ⟨⟨request, response⟩, received, sent⟩ := t
  obtain ⟨hrequest, hshort, hsent, hrest⟩ := h
  cases hrequest
  simp only at hshort hsize hpending hsent hrest
  obtain ⟨n, rfl⟩ : ∃ n : Nat, size = n := ⟨size.toNat, (Int.toNat_of_nonneg (by omega)).symm⟩
  have hdrop := didSend_drop ⟨none, response⟩ (by omega : 0 < n) (by omega)
  obtain ⟨handler, hdid, hnext⟩ := bind_eq_ok.mp hstep
  cases hdrop.symm.trans hdid
  cases hnext
  obtain ⟨page, hpage⟩ : ∃ page, responseTo page = part ++ response.data := by
    obtain ⟨-, hempty⟩ | ⟨-, hpage⟩ := hrest
    · exact absurd hempty hpending
    · exact hpage
  have hlength : (response.data.drop n).length < 2 ^ 31 := by
    rw [List.length_drop]
    omega
  have hmore : sent ++ response.data.take n =
      pages.flatMap responseTo ++ (part ++ response.data.take n) := by
    rw [hsent, List.append_assoc]
  have hwhole : responseTo page = (part ++ response.data.take n) ++ response.data.drop n := by
    rw [hpage, List.append_assoc, List.take_append_drop]
  by_cases hall : response.data.drop n = []
  · -- the response is out, and nothing is pending
    refine ⟨pages ++ [page], [], rfl, hlength, ?_, Or.inl ⟨rfl, hall⟩⟩
    rw [hall, List.append_nil] at hwhole
    rw [List.flatMap_append, List.flatMap_singleton, List.append_nil, hwhole]
    exact hmore
  · exact ⟨pages, part ++ response.data.take n, rfl, hlength, hmore, Or.inr ⟨hall, page, hwhole⟩⟩

end Delivering

theorem reachable_delivering {loader : PluginLoader HttpHandler Surroundings}
    (hhttp : ServesHttp loader) {host : Host} (hhost : host.InSets loader.plugins)
    {c : Config HttpHandler Surroundings} (h : (serverLoop loader host).Reachable BoundedShort c)
    {id : Nat} {sock : Handle} {handler : HttpHandler} {createdBy : Nat}
    (hstore : c.server.sessions.store id = some (.connection sock handler createdBy)) :
    ∃ pages part,
      Delivering ⟨handler, receivedOn sock c.trace, onWire sock c.trace⟩ pages part := by
  have hin : (serverLoop loader host).Reachable (BoundedIn ShortPage) c := h
  have hsolo := reachable_speaks hhost hin ⟨id, sock, handler, hstore, rfl⟩
  refine hsolo.invariant (P := fun t => ∃ pages part, Delivering t pages part) ?_ ?_
  · intro t hstart
    obtain ⟨handler, received, sent⟩ := t
    obtain ⟨hcreates, -, hsent⟩ := hstart
    cases hcreates.eq_new hhttp
    exact ⟨[], [], rfl, Nat.two_pow_pos 31, hsent, Or.inl ⟨rfl, rfl⟩⟩
  · intro t call next _ hdelivering hpolite hstep
    obtain ⟨pages, part, hdelivering⟩ := hdelivering
    cases call with
    | didReceive env bytes =>
        obtain ⟨hidle, hne, hsize, hshort⟩ := hpolite
        have hempty : t.handler.response.data = [] := by
          have hnone : (!t.handler.response.data.isEmpty) = false := hidle
          simpa using hnone
        exact ⟨pages, [], hdelivering.didReceive hempty hne hsize hshort hstep⟩
    | didSend size =>
        obtain ⟨hbusy, hpos, hsize⟩ := hpolite
        have hpending : t.handler.response.data ≠ [] := by
          have hsome : (!t.handler.response.data.isEmpty) = true := hbusy
          simpa using hsome
        exact hdelivering.didSend hpending hpos hsize hstep

/-- A client of which nothing is pending can read all pages. -/
theorem decoded_of_idle {loader : PluginLoader HttpHandler Surroundings}
    (hhttp : ServesHttp loader) {host : Host} (hhost : host.InSets loader.plugins)
    {c : Config HttpHandler Surroundings} (h : (serverLoop loader host).Reachable BoundedShort c)
    {id : Nat} {sock : Handle} {handler : HttpHandler} {createdBy : Nat}
    (hstore : c.server.sessions.store id = some (.connection sock handler createdBy))
    (hidle : handler.response.data = []) :
    pageCodec.decodeStream (onWire sock c.trace) = (pagesBy id c.trace, []) := by
  obtain ⟨pages, part, hdelivering⟩ := reachable_delivering hhttp hhost h hstore
  obtain ⟨hpart, -⟩ | ⟨hpending, -⟩ := hdelivering.rest
  · have hwire : onWire sock c.trace = pages.flatMap responseTo ++ part := hdelivering.sent
    have hstreams := (reachable_streamOk hhttp hhost h).streams
    obtain ⟨-, -, hstream⟩ := hstreams id sock handler createdBy hstore
    rw [composedBy_eq, hwire, hpart, hidle, List.append_nil, List.append_nil,
      ← List.flatMap_def] at hstream
    have hpages : pages = pagesBy id c.trace := pageCodec.flatMap_encode_injective hstream
    rw [hwire, hpart, List.append_nil, hpages]
    exact pageCodec.decodeStream_flatMap _
  · exact absurd hidle hpending

/-- At any time a client can read, of what it was sent on its connection, the
pages whose responses were composed for it: all of them when nothing is pending
and otherwise all but the last, with a part of that one's response left. How
`send` and `recv` cut the streams, and what other clients do, makes no
difference. -/
theorem pages_delivered (loader : PluginLoader HttpHandler Surroundings) (hhttp : ServesHttp loader)
    (host : Host) (hhost : host.InSets loader.plugins) (c : Config HttpHandler Surroundings)
    (h : (serverLoop loader host).Reachable BoundedShort c) (id : Nat) (sock : Handle)
    (handler : HttpHandler) (createdBy : Nat)
    (hstore : c.server.sessions.store id = some (.connection sock handler createdBy)) :
    (handler.response.data = [] ∧
      pageCodec.decodeStream (onWire sock c.trace) = (pagesBy id c.trace, [])) ∨
    ∃ delivered page part, pagesBy id c.trace = delivered ++ [page] ∧
      pageCodec.decodeStream (onWire sock c.trace) = (delivered, part) ∧
      handler.response.data ≠ [] ∧ responseTo page = part ++ handler.response.data := by
  obtain ⟨pages, part, hdelivering⟩ := reachable_delivering hhttp hhost h hstore
  obtain ⟨-, hempty⟩ | ⟨hpending, page, hpage⟩ := hdelivering.rest
  · exact Or.inl ⟨hempty, decoded_of_idle hhttp hhost h hstore hempty⟩
  · apply Or.inr
    simp only at hpending hpage
    have hwire : onWire sock c.trace = pages.flatMap responseTo ++ part := hdelivering.sent
    have hstreams := (reachable_streamOk hhttp hhost h).streams
    obtain ⟨-, -, hstream⟩ := hstreams id sock handler createdBy hstore
    rw [composedBy_eq, hwire, List.append_assoc, ← List.flatMap_def, ← hpage] at hstream
    have hwhole : (pages ++ [page]).flatMap responseTo =
        (pagesBy id c.trace).flatMap responseTo := by
      rw [List.flatMap_append, List.flatMap_singleton]
      exact hstream
    have hpages : pages ++ [page] = pagesBy id c.trace := pageCodec.flatMap_encode_injective hwhole
    refine ⟨pages, page, part, hpages.symm, ?_, hpending, hpage⟩
    rw [hwire]
    exact pageCodec.decodeStream_append pages (pageCodec.decode_part hpage hpending)

/-- The first client was sent a part of its response. -/
theorem pages_delivered_written :
    ServesHttp httpLoader ∧ loopback.InSets httpLoader.plugins ∧
      (serverLoop httpLoader loopback).Reachable BoundedShort (written .top) ∧
      ∃ delivered page part, pagesBy 1 (written .top).trace = delivered ++ [page] ∧
        pageCodec.decodeStream (onWire 5 (written .top).trace) = (delivered, part) ∧
        responseTo page = part ++ (responseTo failing.env.page).drop 10 := by
  have hreached := (reachable_pendingFirst.run run_serving tame_run_serving).mono
    (fun _ _ htame => htame.boundedShort)
  refine ⟨servesHttp_httpLoader, inSets_loopback, hreached, ?_⟩
  obtain ⟨hempty, -⟩ | ⟨delivered, page, part, hpages, hread, -, hpage⟩ :=
    pages_delivered httpLoader servesHttp_httpLoader loopback inSets_loopback (written .top)
      hreached 1 5 _ 0 rfl
  · have hshort : (responseTo failing.env.page).length ≤ 10 := List.drop_eq_nil_iff.mp hempty
    rw [length_responseTo] at hshort
    omega
  · exact ⟨delivered, page, part, hpages, hread, hpage⟩

end ModServer
