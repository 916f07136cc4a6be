import SeqPar.Fault
import SeqPar.Node.Basic

/-!
# The network

Programs talk to peers over sockets.  The behaviour of the peers is scripted: the socket that is
made as the `k`-th follows the `k`-th peer of the script, and past the end of the script a peer
accepts every connection and never sends anything.  Every operation on a socket is logged.

Messages are bytes, and they arrive one after the other.  One call hands over at most `messageSize`
bytes of a message; what is left of it stays for the next call.  The cut may lie within a character,
and then neither part is a text.  A closed socket is of no more use.

A script may also replay a record of what the calls of an earlier run got.  Such messages were cut
when they were recorded, so each is handed over as it is, whether or not the socket was closed.

## Main definitions

* `Peer` — the script of one socket.
* `SocketEvent` — an operation on a socket, as it is logged.
* `Network` — the peers and the log, with one function for each operation.
* `Network.messageSize`, `Peer.cut` — how much of a message one call hands over.
* `textOfBytes` — the text that bytes stand for.
-/

namespace SeqPar

/-- What the other side of a socket does. -/
structure Peer where
  /-- It refuses to be connected to. -/
  refuses : Bool
  /-- The messages that it still sends. -/
  messages : List ByteArray
  /-- The user interrupts the program when no message is left to be received. -/
  interrupts : Bool
  /-- The messages replay what the calls of an earlier run got. -/
  replays : Bool
  deriving Inhabited

/-- The peer of a socket beyond the script. -/
def Peer.silent : Peer :=
  { refuses := false, messages := [], interrupts := false, replays := false }

/-- An operation on the socket of the given number. -/
inductive SocketEvent where
  /-- The socket was made. -/
  | made (socket : Nat)
  /-- It was connected to a host and port. -/
  | connected (socket : Nat) (host port : Value)
  /-- It was bound to a host and port. -/
  | bound (socket : Nat) (host port : Value)
  /-- It started to listen, with a queue of the given length. -/
  | listening (socket queue : Nat)
  /-- It accepted a connection. -/
  | accepted (socket : Nat)
  /-- A text was sent. -/
  | sent (socket : Nat) (text : String)
  /-- At most the given number of bytes was asked for. -/
  | received (socket size : Nat)
  /-- It was closed. -/
  | closed (socket : Nat)

/-- The sockets of a program. -/
structure Network where
  /-- The peers of the sockets that are still to be made. -/
  script : List Peer
  /-- The peers of the sockets that were made, in order. -/
  sockets : List Peer
  /-- The sockets that were closed. -/
  closed : List Nat
  /-- The operations so far, in order. -/
  log : List SocketEvent

namespace Network

/-- A network without sockets. -/
def ofScript (script : List Peer) : Network :=
  { script := script, sockets := [], closed := [], log := [] }

instance : Inhabited Network := ⟨ofScript []⟩

/-- The network with an operation logged. -/
def record (n : Network) (event : SocketEvent) : Network :=
  { n with log := n.log ++ [event] }

/-- The peer of a socket. -/
def peer (n : Network) (socket : Nat) : Peer :=
  n.sockets.getD socket .silent

/-- Makes a socket: its number and the network with it. -/
def make (n : Network) : Nat × Network :=
  let socket := n.sockets.length
  (socket,
    { n with
      script := n.script.tail
      sockets := n.sockets ++ [n.script.headD .silent] }.record (.made socket))

/-- Closes a socket. -/
def close (n : Network) (socket : Nat) : Network :=
  { n with closed := socket :: n.closed }.record (.closed socket)

/-- Whether a socket is of no more use. -/
def isShut (n : Network) (socket : Nat) : Bool :=
  n.closed.contains socket && !(n.peer socket).replays

/-- The number of bytes that are asked for. -/
def messageSize : Nat := 2048

/-- The length of the queue of a server. -/
def queueLength : Nat := 10

end Network

/-- The bytes of a message that one call hands over, and what stays for the next one. -/
def Peer.cut (p : Peer) (message : ByteArray) : ByteArray × List ByteArray :=
  if p.replays || message.size ≤ Network.messageSize then (message, [])
  else (message.extract 0 Network.messageSize, [message.extract Network.messageSize message.size])

/-- Asks for the next bytes of a socket: the bytes, or `none` when the peer has no message left. -/
def Network.receive (n : Network) (socket : Nat) : Option ByteArray × Network :=
  let logged := n.record (.received socket messageSize)
  let p := n.peer socket
  match p.messages with
  | [] => (none, logged)
  | message :: rest =>
    let (bytes, left) := p.cut message
    (some bytes,
      { logged with sockets := n.sockets.set socket { p with messages := left ++ rest } })

/-! ### Texts from bytes -/

/-- A byte that goes on with a character. -/
def continuesCharacter (byte : UInt8) : Bool :=
  128 ≤ byte && byte < 192

/-- The fault of bytes that were cut out of a text within a character: either the character at the
front has no start, or the character at the end has no end. -/
def splitCharacterFault (bytes : List UInt8) : Fault :=
  let front := bytes.headD 0
  if continuesCharacter front then .undecodable front.toNat 0 0 "invalid start byte"
  else
    let last := bytes.length - 1
    let start := last - (bytes.reverse.takeWhile continuesCharacter).length
    .undecodable (bytes.getD start 0).toNat start last "unexpected end of data"

/-- The text that bytes stand for. -/
def textOfBytes (bytes : ByteArray) : Except Fault String :=
  if h : bytes.IsValidUTF8 then .ok (.fromUTF8 bytes h)
  else .error (splitCharacterFault bytes.toList)

end SeqPar
