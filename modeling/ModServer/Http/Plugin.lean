import ModServer.Http.Handler
import ModServer.Server.Init

/-!
The HTTP plugin, from `server_plugin/http/http_plugin.cpp`, and a server that
serves it on the loopback interface.
-/

namespace ModServer.Http

def httpLib : DynamicLib HttpHandler Surroundings where
  getProc name := name ∈ ServerPlugin.exportedNames
  defaultPort := 8080
  socketType := .tcp
  newHandler _ := .new

def httpLoader : PluginLoader HttpHandler Surroundings :=
  PluginLoader.new.addPlugin httpLib

/-- A host on which opening the listener gives descriptor 3. -/
def loopback : Host where
  serverIp := ascii "127.0.0.1"
  inetAddr _ := 0x0100007F
  socket _ := 3
  bind _ _ := 0
  listen _ _ := 0

/-- The state in which the loop starts there. -/
def listening : Config HttpHandler Surroundings where
  server :=
    { pluginLoader := httpLoader
      sessions := Library.Registry.empty.add (.acceptor 3 0)
      maxFd := 4 }
  phase := .top
  trace := []

theorem start_listening : (serverLoop httpLoader loopback).start listening :=
  ⟨listening.server, rfl, by decide, rfl⟩

/-- Answers of a host on which every call fails. -/
def failing : Answers Surroundings where
  selectRc := -1
  readSet := .zero
  writeSet := .zero
  outside _ := false
  received := .error 1
  accepted := invalidSocket
  sent := -1
  env := ⟨none, none, 0⟩

/-- Answers when a client waits on the listener and is accepted as `sock`. -/
def arriving (sock : Handle) : Answers Surroundings :=
  { failing with selectRc := 1, readSet := .filled [3], accepted := sock }

def polledListener : Config HttpHandler Surroundings where
  server := listening.server
  phase := .reading .zero [0]
  trace := [.fdSet 3, .select 4, .fdIsSet 3]

/-- The state after the first client was accepted. -/
def connected (sock : Handle) : Config HttpHandler Surroundings where
  server := listening.server.addSession (.connection sock .new 0)
  phase := .reading .zero []
  trace := polledListener.trace ++ [.accepted sock 1]

theorem reachable_connected {sock : Handle}
    {allowed : Config HttpHandler Surroundings → Answers Surroundings → Prop}
    (hpoll : allowed listening (arriving sock)) (haccept : allowed polledListener (arriving sock)) :
    (serverLoop httpLoader loopback).Reachable allowed (connected sock) :=
  .step (arriving sock) (.step (arriving sock) (.start start_listening) hpoll rfl) haccept rfl

end ModServer.Http
