import ModServer.Library.Registry
import ModServer.Plugin.Loader
import ModServer.Server.FdSet

/-!
Sessions and what the server sees of sockets, from `server_core/session.h`,
`tcp_session.h` and `socket/`. What the operating system answers to a call is
part of `Answers`; which calls were made, and with which arguments, is kept as
a list of events.
-/

namespace ModServer

open Library

/-- How a step of the server can go wrong. -/
inductive Fault where
  | assertion
  | handler (fault : HandlerFault)
  | deadSession
  | deadPlugin
  | eraseEnd
  | nullHandler
  deriving DecidableEq, Repr

/-- An acceptor keeps a reference to its plugin and has no handler. The code
of a connection's handler is in the plugin that created it. -/
inductive Session (H : Type) where
  | acceptor (sock : Handle) (plugin : Nat)
  | connection (sock : Handle) (protoHandler : H) (createdBy : Nat)
  deriving DecidableEq, Repr

namespace Session

variable {H : Type}

/-- `socket()->handle()`. -/
def handle : Session H → Handle
  | acceptor sock _ => sock
  | connection sock _ _ => sock

/-- The plugin that the session refers to. -/
def plugin : Session H → Nat
  | acceptor _ plugin => plugin
  | connection _ _ createdBy => createdBy

def IsConnection (session : Session H) : Prop :=
  ∃ sock protoHandler createdBy, session = connection sock protoHandler createdBy

/-- Whether the session is a connection whose handler has something to send. -/
def pending {Env : Type} [ProtocolHandler H Env] : Session H → Bool
  | acceptor _ _ => false
  | connection _ protoHandler _ => ProtocolHandler.hasDataToSend protoHandler

end Session

/-- What the server did that can be seen from outside it. -/
inductive Event (H Env : Type) where
  | fdSet (handle : Handle)
  | fdIsSet (handle : Handle)
  | select (nfds : Int32)
  | accepted (sock : Handle) (session : Nat)
  | recv (sock : Handle) (bytes : Bytes)
  | stored (index : Nat)
  | didReceive (session : Nat) (env : Env) (handler : H) (data : DataChunk) (size : Int)
  | send (sock : Handle) (length : Int) (taken : Bytes)
  | closed (sock : Handle)

/-- What a step of the loop finds outside: the result of `select` and the sets
it leaves, what `FD_ISSET` reads behind a set, the bytes `recv` delivers or the
negated result of a failure, and the results of `accept` and `send`. A step
looks at what it needs. -/
structure Answers (Env : Type) where
  selectRc : Int
  readSet : FdSet
  writeSet : FdSet
  outside : Handle → Bool
  received : Except Nat Bytes
  accepted : Handle
  sent : Int
  env : Env

end ModServer
