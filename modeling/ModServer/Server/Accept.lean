import ModServer.Http.Plugin
import ModServer.Server.Orderly

/-!
What happens when `accept` fails. `AcceptorSession::OnRead` does not look at
the descriptor: it registers a session for `kInvalidSocket`, whose unsigned
value is not below any `m_maxFd`, and `m_maxFd` becomes that value plus one,
which is 0. The next `select` looks at no descriptor at all.
-/

namespace ModServer

open Library ProtocolHandler

variable {H Env : Type}

/-- The server is as it was, and `select`, whose first argument is `m_maxFd` as
an `int`, still looks at every session. -/
structure AcceptIntact (before after : Server H Env) : Prop where
  sessions : after.sessions.keys = before.sessions.keys
  maxFd : after.maxFd = before.maxFd
  polled : ∀ id ∈ after.sessions.keys, ∃ session, after.sessions.store id = some session ∧
    0 ≤ session.handle.toInt ∧ session.handle.toInt < after.maxFd.toInt32.toInt

/-- Registering a session without a socket. -/
theorem Server.addSession_invalid (server : Server H Env) (protoHandler : H) (createdBy : Nat) :
    (server.addSession (.connection invalidSocket protoHandler createdBy)).maxFd = 0 := by
  have hmax : server.maxFd ≤ invalidSocket.toUInt32 := by
    have hbound := server.maxFd.toNat_lt
    have hinvalid : invalidSocket.toUInt32.toNat = 2 ^ 32 - 1 := by decide
    rw [UInt32.le_iff_toNat_le, hinvalid]
    omega
  have hzero : (invalidSocket + 1).toUInt32 = 0 := by decide
  have hset : (server.addSession (.connection invalidSocket protoHandler createdBy)).maxFd =
      if server.maxFd ≤ invalidSocket.toUInt32 then (invalidSocket + 1).toUInt32
      else server.maxFd := rfl
  rw [hset, if_pos hmax, hzero]

variable [ProtocolHandler H Env]

theorem accept_failed (loader : PluginLoader H Env) (host : Host) (c : Config H Env)
    (h : (serverLoop loader host).Reachable (fun _ _ => True) c) (id : Nat) (sock : Handle)
    (pluginId : Nat) (hstore : c.server.sessions.store id = some (.acceptor sock pluginId))
    (a : Answers Env) (hfailed : a.accepted = invalidSocket) :
    ∃ next events, c.server.onRead a id = .ok (1, next, events) ∧
      ¬ AcceptIntact c.server next ∧ next.maxFd = 0 ∧
      next.sessions.keys = c.server.sessions.keys ++ [c.server.sessions.next] ∧
      ∃ session, next.sessions.store c.server.sessions.next = some session ∧
        session.handle = invalidSocket := by
  obtain ⟨hsound, -⟩ := reachable_sound h
  obtain ⟨plugin, hplugin⟩ := hsound.plugin_ok hstore
  have honRead : c.server.onRead a id =
      .ok (1, c.server.addSession
        (.connection a.accepted (plugin.newProtocolHandler a.env) plugin.id),
        [.accepted a.accepted c.server.sessions.next]) := by
    have hderef := Server.deref_eq_ok.mpr hstore
    exact bind_eq_ok.mpr ⟨_, hderef, bind_eq_ok.mpr ⟨plugin, hplugin, rfl⟩⟩
  rw [hfailed] at honRead
  refine ⟨_, _, honRead, ?_, c.server.addSession_invalid _ _, rfl,
    .connection invalidSocket (plugin.newProtocolHandler a.env) plugin.id, ?_, rfl⟩
  · intro hintact
    have hlength := congrArg List.length hintact.sessions
    rw [Server.addSession_sessions, Registry.add_keys, List.length_append] at hlength
    simp at hlength
  · rw [Server.addSession_sessions, Registry.add_store, Function.update_self]

/-- The first `accept` of the HTTP server fails. -/
theorem not_intact_listening :
    (serverLoop Http.httpLoader Http.loopback).Reachable (fun _ _ => True) Http.listening ∧
      ∃ next events, Http.listening.server.onRead Http.failing 0 = .ok (1, next, events) ∧
        ¬ AcceptIntact Http.listening.server next := by
  refine ⟨.start Http.start_listening, _, _, rfl, ?_⟩
  intro hintact
  exact absurd hintact.sessions (by decide)

theorem accept_failed_listening :
    Http.failing.accepted = invalidSocket ∧
      ∃ next events, Http.listening.server.onRead Http.failing 0 = .ok (1, next, events) ∧
        next.maxFd = 0 := by
  obtain ⟨next, events, honRead, -, hmaxFd, -⟩ :=
    accept_failed Http.httpLoader Http.loopback Http.listening (.start Http.start_listening) 0 3 0
      rfl Http.failing rfl
  exact ⟨rfl, next, events, honRead, hmaxFd⟩

end ModServer
