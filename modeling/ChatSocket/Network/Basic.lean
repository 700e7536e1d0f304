/-
# `Network.Basic` — the server, its clients, and the messages between them

A `Network` is the server's registry and the connections: for each one the
client at its other end and the messages on their way in both directions, whole
and in order.  The server handles one event at a time, as in `Server.Atomic`.

A connection is under the descriptor the server knows it by.  A client that has
hung up types and receives no more, and what is sent to it is lost; what it sent
before still arrives, and after that the server sees the end of the connection.
A connection that the server turns away is none: its client leaves at once.
-/
import ChatSocket.Network.News

namespace ChatSocket

open Kit

structure Conn where
  fd : Int
  client : Client
  up : List Msg
  down : List Msg
  hungUp : Bool
  deriving DecidableEq

structure Network where
  registry : Registry
  conns : List Conn
  deriving DecidableEq

inductive NetEvent where
  /-- A client connects; with an argument, `main` sets its name. -/
  | joins (fd : Int) (mallocOk : Bool) (argv : Option (List UInt8))
  /-- The user of a client types a line. -/
  | types (fd : Int) (line : List UInt8)
  /-- The next message to a client arrives. -/
  | delivers (fd : Int)
  /-- The server handles the next message of a client. -/
  | serves (fd : Int)
  /-- A client hangs up. -/
  | hangsUp (fd : Int)
  /-- The server sees the end of a connection. -/
  | seesEnd (fd : Int)
  deriving DecidableEq

namespace Conn

/-- The connection of a client that has just been registered. -/
def new (fd : Int) (argv : Option (List UInt8)) : Conn :=
  ⟨fd, .boot, (argv.map Client.setMyName).toList, [], false⟩

/-- What the server sends goes on its way, unless nobody is there. -/
def send (acts : List Act) (c : Conn) : Conn :=
  if c.hungUp then c else { c with down := c.down ++ msgsTo c.fd acts }

def typed (line : List UInt8) (c : Conn) : Conn :=
  { c with
    client := (c.client.processSendMsg line).1
    up := c.up ++ (c.client.processSendMsg line).2 }

def delivered (msg : Msg) (down : List Msg) (c : Conn) : Conn :=
  { c with client := c.client.handleRxMsgLib msg, down := down }

def served (up : List Msg) (c : Conn) : Conn := { c with up := up }

def gone (c : Conn) : Conn := { c with hungUp := true, down := [] }

end Conn

namespace Network

def boot : Network := ⟨.empty, []⟩

/-- The connection under a descriptor. -/
def conn (s : Network) (fd : Int) : Option Conn := look Conn.fd fd s.conns

def change (s : Network) (fd : Int) (f : Conn → Conn) : Network :=
  { s with conns := alter Conn.fd fd f s.conns }

/-- The server has handled an event and sent what it sends. -/
def after (s : Network) (q : Registry × List Act) : Network :=
  ⟨q.1, s.conns.map (Conn.send q.2)⟩

end Network

def netStep (s : Network) : NetEvent → Option (Network × List Act)
  | .joins fd mallocOk argv =>
      (atomicStep s.registry (.accepted fd mallocOk)).map fun q =>
        if s.registry.Accepts mallocOk then (⟨q.1, s.conns ++ [.new fd argv]⟩, q.2)
        else (⟨q.1, s.conns⟩, q.2)
  | .types fd line =>
      match s.conn fd with
      | some { hungUp := false, .. } => some (s.change fd (.typed line), [])
      | _ => none
  | .delivers fd =>
      match s.conn fd with
      | some { down := msg :: down, hungUp := false, .. } =>
          some (s.change fd (.delivered msg down), [])
      | _ => none
  | .serves fd =>
      match s.conn fd with
      | some { up := msg :: up, .. } =>
          (atomicStep s.registry (.rxMsg fd msg)).map fun q =>
            ((s.change fd (.served up)).after q, q.2)
      | _ => none
  | .hangsUp fd =>
      match s.conn fd with
      | some { hungUp := false, .. } => some (s.change fd .gone, [])
      | _ => none
  | .seesEnd fd =>
      match s.conn fd with
      | some { up := [], hungUp := true, .. } =>
          (atomicStep s.registry (.closed fd)).map fun q =>
            (Network.after { s with conns := s.conns.filter fun c => c.fd ≠ fd } q, q.2)
      | _ => none

/-! ## The connection under a descriptor -/

namespace Conn

variable (acts : List Act) (c : Conn)

@[simp] theorem fd_send : (c.send acts).fd = c.fd := by
  unfold send
  split <;> rfl

@[simp] theorem up_send : (c.send acts).up = c.up := by
  unfold send
  split <;> rfl

@[simp] theorem hungUp_send : (c.send acts).hungUp = c.hungUp := by
  unfold send
  split <;> rfl

end Conn

namespace Network

variable {s : Network}

theorem conn_fd {fd : Int} {c : Conn} (h : s.conn fd = some c) : c.fd = fd := look_key h

theorem conn_change {fd : Int} {f : Conn → Conn} (hf : ∀ c, (f c).fd = c.fd) (g : Int) :
    (s.change fd f).conn g = if g = fd then (s.conn fd).map f else s.conn g := look_alter hf

theorem conn_after (q : Registry × List Act) (g : Int) :
    (s.after q).conn g = (s.conn g).map (Conn.send q.2) :=
  look_map fun c => c.fd_send q.2

theorem conn_join (r : Registry) (c : Conn) (g : Int) :
    Network.conn ⟨r, s.conns ++ [c]⟩ g = (s.conn g).or (if c.fd = g then some c else none) :=
  look_append c

theorem conn_drop (r : Registry) (fd g : Int) :
    Network.conn ⟨r, s.conns.filter fun c => c.fd ≠ fd⟩ g
      = if g = fd then none else s.conn g := look_filter_ne

end Network

end ChatSocket
