/-
  Akbench.Uds.Processes
  ─────────────────────
  **`uds_bandwidth`: ONE LISTENING SOCKET PER ITERATION.**

  In every iteration the receiver makes a socket, binds it to `SOCKET_PATH`,
  listens and accepts; the sender makes a socket and retries `connect()` until
  it succeeds.  Both then call `Wait()`, transfer, call `Wait()` again and
  close what they opened.  No barrier orders `listen()` and `connect()`.

  Of the system: `connect()` succeeds as soon as the socket bound to the path
  is listening with a free place in its backlog, of which `listen(fd, 0)`
  leaves one; it fails and is retried otherwise.  Closing a listening socket
  drops the connection queued on it.  `Wait()` is a correct barrier.

  Sockets and connections go by the iteration that made them.
-/
import Akbench.Common.Stream

namespace Akbench.Uds

open Framing (slice untag)

/-! ## §1. The two processes and their sockets. -/

/-- Where `SendProcess` is. -/
inductive SenderPc where
  /-- In `GenerateDataToSend`. -/
  | generating
  /-- At the head of the iteration loop. -/
  | ready
  /-- `sock_fd` made, before the next `connect()`. -/
  | connecting
  /-- Before the first `barrier.Wait()`. -/
  | connected
  /-- Inside the first `barrier.Wait()`. -/
  | waiting1
  /-- In the `send` loop. -/
  | sending
  /-- Before the second `barrier.Wait()`. -/
  | sent
  /-- Inside the second `barrier.Wait()`. -/
  | waiting2
  /-- Before `close(sock_fd)`. -/
  | closing
  | exited
  /-- Aborted in `GenerateDataToSend`. -/
  | aborted
  /-- Killed by a `send` to a connection nobody can read. -/
  | killed
  deriving DecidableEq, Repr

/-- Where `ReceiveProcess` is. -/
inductive ReceiverPc where
  /-- At the head of the iteration loop. -/
  | ready
  /-- `listen_fd` made, before `remove(SOCKET_PATH)`. -/
  | removing
  /-- Before `bind()`. -/
  | binding
  /-- Before `listen()`. -/
  | listening
  /-- In `accept()`. -/
  | accepting
  /-- Before the first `barrier.Wait()`. -/
  | accepted
  /-- Inside the first `barrier.Wait()`. -/
  | waiting1
  /-- In the `recv` loop. -/
  | receiving
  /-- Before the second `barrier.Wait()`. -/
  | received
  /-- Inside the second `barrier.Wait()`. -/
  | waiting2
  /-- Before `close(conn_fd)`. -/
  | closingConn
  /-- Before `close(listen_fd)`. -/
  | closingListener
  /-- Before `remove(SOCKET_PATH)` at the end of the iteration. -/
  | unlinking
  /-- Before `VerifyDataReceived`. -/
  | verifying
  | exited
  /-- Aborted on a failed call. -/
  | failed
  /-- Aborted in `VerifyDataReceived`. -/
  | aborted
  deriving DecidableEq, Repr

structure Sender where
  pc : SenderPc
  iteration : Nat
  totalSent : Nat
  deriving DecidableEq, Repr

structure Receiver where
  pc : ReceiverPc
  iteration : Nat
  totalReceived : Nat
  readData : List UInt8
  deriving DecidableEq, Repr

/-- A listening socket. -/
structure Listener where
  /-- The iteration of the receiver that made it. -/
  iteration : Nat
  /-- The connection in its backlog. -/
  queue : Option Nat
  deriving DecidableEq, Repr

/-- The two processes, the barrier and what the kernel holds for them. -/
structure State where
  barrier : Rendezvous Side
  sender : Sender
  receiver : Receiver
  /-- The socket bound to `SOCKET_PATH`. -/
  path : Option Nat
  /-- `listen_fd`, while it listens. -/
  listener : Option Listener
  /-- The connection behind `conn_fd`. -/
  conn : Option Nat
  /-- The bytes in flight on each connection. -/
  stream : Nat → Stream

/-- Both processes past the constructor of their barrier; `read_data` is
zeroed once, before the iterations. -/
def State.fresh (c : Transfer) : State where
  barrier := .fresh
  sender := ⟨.generating, 0, 0⟩
  receiver := ⟨.ready, 0, 0, List.replicate c.dataSize 0⟩
  path := none
  listener := none
  conn := none
  stream := fun _ => []

/-- The connection in the backlog of the listening socket. -/
def State.queued (s : State) : Option Nat := s.listener.bind Listener.queue

/-- `sock_fd` is connected. -/
def SenderPc.isConnected : SenderPc → Bool
  | .connected | .waiting1 | .sending | .sent | .waiting2 | .closing => true
  | _ => false

/-- The other end of `sock_fd` is still held. -/
def State.hasReader (s : State) : Bool :=
  s.conn == some s.sender.iteration || s.queued == some s.sender.iteration

/-- The other end of `conn_fd` is still open. -/
def State.hasWriter (s : State) : Bool :=
  s.sender.pc.isConnected && s.conn == some s.sender.iteration

/-! ## §2. Steps. -/

/-- The sender moves on to `pc`. -/
def State.senderTo (s : State) (pc : SenderPc) : State :=
  { s with sender := { s.sender with pc := pc } }

/-- The receiver moves on to `pc`. -/
def State.receiverTo (s : State) (pc : ReceiverPc) : State :=
  { s with receiver := { s.receiver with pc := pc } }

/-- `connect()`: `none` is `ENOENT` or `ECONNREFUSED`. -/
def State.connect (s : State) : Option State :=
  match s.path, s.listener with
  | some k, some l =>
      if l.iteration = k ∧ l.queue = none then
        some { s.senderTo .connected with
          listener := some { l with queue := some s.sender.iteration } }
      else none
  | _, _ => none

/-- What `SendProcess` makes of a turn of its loop. -/
def afterSend (s : State) : SendTurn → Option State
  | .finished => some (s.senderTo .sent)
  | .wrote stream totalSent =>
      some { s with
        stream := Function.update s.stream s.sender.iteration stream
        sender := { s.sender with totalSent := totalSent } }
  -- `SIGPIPE`
  | .noReader => some (s.senderTo .killed)
  | .blocked => none

/-- `SendProcess`; `m` is what a `send` accepts. -/
def senderStep (c : Transfer) (s : State) (m : Nat) : Option State :=
  match s.sender.pc with
  -- `GenerateDataToSend`, before the loop
  | .generating =>
      if checksumSize < c.dataSize then some (s.senderTo .ready)
      else some (s.senderTo .aborted)
  -- `socket()`
  | .ready =>
      if s.sender.iteration < c.total then some (s.senderTo .connecting)
      else some (s.senderTo .exited)
  | .connecting =>
      match s.connect with
      | some s' => some s'
      -- `usleep(100000)`, and again
      | none => some s
  | .connected => some { s.senderTo .waiting1 with barrier := s.barrier.arrive .sender }
  -- `size_t total_sent = 0`
  | .waiting1 =>
      if s.barrier.CanLeave .sender then
        some { s with
          barrier := s.barrier.leave .sender
          sender := { s.sender with pc := .sending, totalSent := 0 } }
      else none
  | .sending =>
      afterSend s
        (c.sendTurn s.sender.iteration s.sender.totalSent (s.stream s.sender.iteration)
          s.hasReader m)
  | .sent => some { s.senderTo .waiting2 with barrier := s.barrier.arrive .sender }
  | .waiting2 =>
      if s.barrier.CanLeave .sender then
        some { s.senderTo .closing with barrier := s.barrier.leave .sender }
      else none
  | .closing =>
      some { s with
        sender := { s.sender with pc := .ready, iteration := s.sender.iteration + 1 } }
  | .exited | .aborted | .killed => none

/-- `accept()` on the listening socket. -/
def accept (s : State) : Option State :=
  match s.listener with
  -- "Failed to accept connection"
  | none => some (s.receiverTo .failed)
  | some l =>
      match l.queue with
      -- nobody has connected: it blocks
      | none => none
      | some j =>
          some { s.receiverTo .accepted with
            listener := some { l with queue := none }
            conn := some j }

/-- What `ReceiveProcess` makes of a turn of its loop on connection `j`: what
was received lands in `read_data` behind what was there. -/
def afterReceive (s : State) (j : Nat) : ReceiveTurn → Option State
  -- the `break` leads where the end of the loop does
  | .finished | .endOfFile => some (s.receiverTo .received)
  | .got stream totalReceived data =>
      some { s with
        stream := Function.update s.stream j stream
        receiver := { s.receiver with
          totalReceived := totalReceived
          readData := data ++ s.receiver.readData.drop totalReceived } }
  | .blocked => none

/-- `ReceiveProcess`; `m` is what a `recv` returns. -/
def receiverStep (c : Transfer) (s : State) (m : Nat) : Option State :=
  match s.receiver.pc with
  | .ready =>
      if s.receiver.iteration < c.total then some (s.receiverTo .removing)
      else some (s.receiverTo .exited)
  -- `remove(SOCKET_PATH)`
  | .removing => some { s.receiverTo .binding with path := none }
  | .binding =>
      match s.path with
      -- "Failed to bind socket"
      | some _ => some (s.receiverTo .failed)
      | none => some { s.receiverTo .listening with path := some s.receiver.iteration }
  | .listening =>
      some { s.receiverTo .accepting with listener := some ⟨s.receiver.iteration, none⟩ }
  | .accepting => accept s
  | .accepted => some { s.receiverTo .waiting1 with barrier := s.barrier.arrive .receiver }
  -- `size_t total_received = 0`; `read_data` keeps what it has
  | .waiting1 =>
      if s.barrier.CanLeave .receiver then
        some { s with
          barrier := s.barrier.leave .receiver
          receiver := { s.receiver with pc := .receiving, totalReceived := 0 } }
      else none
  | .receiving =>
      match s.conn with
      | none => some (s.receiverTo .failed)
      | some j =>
          afterReceive s j
            (c.receiveTurn s.receiver.totalReceived
              (s.receiver.readData.take s.receiver.totalReceived) (s.stream j) s.hasWriter m)
  | .received => some { s.receiverTo .waiting2 with barrier := s.barrier.arrive .receiver }
  | .waiting2 =>
      if s.barrier.CanLeave .receiver then
        some { s.receiverTo .closingConn with barrier := s.barrier.leave .receiver }
      else none
  | .closingConn => some { s.receiverTo .closingListener with conn := none }
  | .closingListener => some { s.receiverTo .unlinking with listener := none }
  -- `remove(SOCKET_PATH)` once more
  | .unlinking => some { s.receiverTo .verifying with path := none }
  | .verifying =>
      match verifyDataReceived s.receiver.readData c.dataSize with
      | none => some (s.receiverTo .aborted)
      -- the result is not looked at
      | some _ =>
          some { s with receiver :=
            { s.receiver with pc := .ready, iteration := s.receiver.iteration + 1 } }
  | .exited | .failed | .aborted => none

/-- One step of one process.  The number is read only by a `send` or a `recv`:
what the kernel accepts or returns. -/
inductive Act where
  | sender (m : Nat)
  | receiver (m : Nat)

def step (c : Transfer) (s : State) : Act → Option State
  | .sender m => senderStep c s m
  | .receiver m => receiverStep c s m

/-- The benchmark after `fork()` and the constructors of the barriers. -/
def system (c : Transfer) : System State Act where
  init s := s = State.fresh c
  step := step c

/-- Both processes have made all their iterations. -/
def State.Finished (s : State) : Prop :=
  s.sender.pc = .exited ∧ s.receiver.pc = .exited

instance (s : State) : Decidable s.Finished :=
  inferInstanceAs (Decidable (_ ∧ _))

/-- What the receiver accepted is what the sender opened in the receiver's
iteration. -/
def State.Paired (s : State) : Prop :=
  ∀ j, s.conn = some j → j = s.receiver.iteration

/-- The sender is about to call `connect()` while the listening socket of an
earlier iteration is still open. -/
def State.ListenerStale (s : State) : Prop :=
  s.sender.pc = .connecting ∧ ∃ l, s.listener = some l ∧ l.iteration < s.sender.iteration

instance (s : State) : Decidable s.ListenerStale :=
  inferInstanceAs (Decidable (s.sender.pc = .connecting ∧
    ∃ l ∈ s.listener, l.iteration < s.sender.iteration))

/-- The step is not such a `connect()`. -/
def Timely (s : State) : Act → Prop
  | .sender _ => ¬ s.ListenerStale
  | .receiver _ => True

instance (s : State) : ∀ a, Decidable (Timely s a)
  | .sender _ => inferInstanceAs (Decidable (¬ s.ListenerStale))
  | .receiver _ => inferInstanceAs (Decidable True)

end Akbench.Uds
