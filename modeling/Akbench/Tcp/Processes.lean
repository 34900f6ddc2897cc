/-
  Akbench.Tcp.Processes
  ─────────────────────
  **`tcp_bandwidth`: THREE `Wait()`S PER ITERATION.**

  In every iteration the receiver makes a socket, binds it to the port and
  listens; the first `Wait()` lets the sender call `connect()`.  The receiver
  accepts; the second `Wait()` starts the transfer.  The sender shuts its side
  down when it has sent everything; after the third `Wait()` the receiver
  verifies what it has and both close what they opened.

  Of the system: `connect()` to a listening socket succeeds, before `accept()`
  is called, and fails and is retried when nobody listens; a port is free once
  the socket bound to it is closed; closing a listening socket drops what is
  in its backlog; a connection is a reliable byte stream.  `Wait()` is a
  correct barrier, and `data_to_send` is given.

  Sockets and connections go by the iteration that made them.
-/
import Akbench.Common.Stream
import Akbench.Transfer.EndOfData

namespace Akbench.Tcp

/-! ## §1. The two processes and their sockets. -/

/-- Where `SendProcess` is. -/
inductive SenderPc where
  /-- In `GenerateDataToSend`. -/
  | generating
  /-- At the head of the iteration loop. -/
  | ready
  /-- `sock_fd` made, before the first `barrier.Wait()`. -/
  | created
  /-- Inside the first `barrier.Wait()`. -/
  | waiting1
  /-- Before the next `connect()`. -/
  | connecting
  /-- Before the second `barrier.Wait()`. -/
  | connected
  /-- Inside the second `barrier.Wait()`. -/
  | waiting2
  /-- In the `send` loop. -/
  | sending
  /-- Before `shutdown(sock_fd, SHUT_WR)`. -/
  | shutting
  /-- Before the third `barrier.Wait()`. -/
  | sent
  /-- Inside the third `barrier.Wait()`. -/
  | waiting3
  /-- Before `close(sock_fd)`. -/
  | closing
  | exited
  /-- Aborted in `GenerateDataToSend`. -/
  | aborted
  /-- Ended by a `send` to a connection nobody can read. -/
  | killed
  deriving DecidableEq, Repr

/-- Where `ReceiveProcess` is. -/
inductive ReceiverPc where
  /-- At the head of the iteration loop. -/
  | ready
  /-- `listen_fd` made, before `bind()`. -/
  | binding
  /-- Before `listen()`. -/
  | listening
  /-- Before the first `barrier.Wait()`. -/
  | listened
  /-- Inside the first `barrier.Wait()`. -/
  | waiting1
  /-- In `accept()`. -/
  | accepting
  /-- Before the second `barrier.Wait()`. -/
  | accepted
  /-- Inside the second `barrier.Wait()`. -/
  | waiting2
  /-- In the `recv` loop. -/
  | receiving
  /-- Before the third `barrier.Wait()`. -/
  | received
  /-- Inside the third `barrier.Wait()`. -/
  | waiting3
  /-- Before `VerifyDataReceived`. -/
  | verifying
  /-- Before `close(conn_fd)`. -/
  | closingConn
  /-- Before `close(listen_fd)`. -/
  | closingListener
  | exited
  /-- Aborted on a failed call. -/
  | failed
  /-- In a `memcpy` past the end of `received_data`. -/
  | overrun
  /-- Aborted: the verification failed. -/
  | aborted
  deriving DecidableEq, Repr

structure Sender where
  pc : SenderPc
  iteration : Nat
  totalSent : Nat
  deriving DecidableEq, Repr

structure Receiver where
  pc : ReceiverPc
  iteration : Nat
  totalReceived : Nat
  receivedData : List UInt8
  deriving DecidableEq, Repr

/-- A listening socket. -/
structure Listener where
  /-- The iteration of the receiver that made it. -/
  iteration : Nat
  /-- The connections in its backlog. -/
  queue : List Nat
  deriving DecidableEq, Repr

/-- The two processes, the barrier and what the kernel holds for them. -/
structure State where
  barrier : Rendezvous Side
  sender : Sender
  receiver : Receiver
  /-- The socket bound to the port. -/
  port : Option Nat
  /-- That socket, while it listens. -/
  listener : Option Listener
  /-- The connection behind `conn_fd`. -/
  conn : Option Nat
  /-- The bytes in flight on each connection. -/
  stream : Nat → Stream

/-- Both processes past the constructor of their barrier. -/
def State.fresh : State where
  barrier := .fresh
  sender := ⟨.generating, 0, 0⟩
  receiver := ⟨.ready, 0, 0, []⟩
  port := none
  listener := none
  conn := none
  stream := fun _ => []

/-- `sock_fd` is connected and not shut down. -/
def SenderPc.isWriting : SenderPc → Bool
  | .connected | .waiting2 | .sending | .shutting => true
  | _ => false

/-- The other end of `sock_fd` is still held. -/
def State.hasReader (s : State) : Bool :=
  s.conn == some s.sender.iteration ||
    s.listener.any fun l => l.queue.contains s.sender.iteration

/-- The other end of connection `j` is still open. -/
def State.hasWriter (s : State) (j : Nat) : Bool :=
  s.sender.pc.isWriting && s.sender.iteration == j

/-! ## §2. Steps. -/

/-- The sender moves on to `pc`. -/
def State.senderTo (s : State) (pc : SenderPc) : State :=
  { s with sender := { s.sender with pc := pc } }

/-- The receiver moves on to `pc`. -/
def State.receiverTo (s : State) (pc : ReceiverPc) : State :=
  { s with receiver := { s.receiver with pc := pc } }

/-- `connect()`: `none` is `ECONNREFUSED`. -/
def State.connect (s : State) : Option State :=
  s.listener.map fun l =>
    { s.senderTo .connected with
      listener := some { l with queue := l.queue ++ [s.sender.iteration] } }

/-- What `SendProcess` makes of a turn of its loop. -/
def afterSend (s : State) : SendTurn → Option State
  | .finished => some (s.senderTo .shutting)
  | .wrote stream totalSent =>
      some { s with
        stream := Function.update s.stream s.sender.iteration stream
        sender := { s.sender with totalSent := totalSent } }
  -- `SIGPIPE`
  | .noReader => some (s.senderTo .killed)
  | .blocked => none

/-- `SendProcess`; `m` is what a `send` accepts. -/
def senderStep (c : Transfer) (s : State) (m : Nat) : Option State :=
  match s.sender.pc with
  -- `GenerateDataToSend`, before the loop
  | .generating =>
      if checksumSize < c.dataSize then some (s.senderTo .ready)
      else some (s.senderTo .aborted)
  -- `iteration < num_warmups + num_iterations`; then `socket()`
  | .ready =>
      if s.sender.iteration < c.total then some (s.senderTo .created)
      else some (s.senderTo .exited)
  -- "Wait until the receiver is ready"
  | .created => some { s.senderTo .waiting1 with barrier := s.barrier.arrive .sender }
  | .waiting1 =>
      if s.barrier.CanLeave .sender then
        some { s.senderTo .connecting with barrier := s.barrier.leave .sender }
      else none
  | .connecting =>
      match s.connect with
      | some s' => some s'
      -- `sleep(1)`, and again
      | none => some s
  | .connected => some { s.senderTo .waiting2 with barrier := s.barrier.arrive .sender }
  -- `size_t total_sent = 0`
  | .waiting2 =>
      if s.barrier.CanLeave .sender then
        some { s with
          barrier := s.barrier.leave .sender
          sender := { s.sender with pc := .sending, totalSent := 0 } }
      else none
  | .sending =>
      afterSend s
        (c.sendTurn s.sender.iteration s.sender.totalSent (s.stream s.sender.iteration)
          s.hasReader m)
  | .shutting => some (s.senderTo .sent)
  | .sent => some { s.senderTo .waiting3 with barrier := s.barrier.arrive .sender }
  | .waiting3 =>
      if s.barrier.CanLeave .sender then
        some { s.senderTo .closing with barrier := s.barrier.leave .sender }
      else none
  -- the connection has been shut down already
  | .closing =>
      some { s with
        sender := { s.sender with pc := .ready, iteration := s.sender.iteration + 1 } }
  | .exited | .aborted | .killed => none

/-- `accept()` on the listening socket; then `received_data` is made, of
zeros. -/
def accept (c : Transfer) (s : State) : Option State :=
  match s.listener with
  -- "receive: accept"
  | none => some (s.receiverTo .failed)
  | some l =>
      match l.queue with
      -- nobody has connected: it blocks
      | [] => none
      | j :: rest =>
          some { s with
            listener := some { l with queue := rest }
            conn := some j
            receiver := { s.receiver with
              pc := .accepted
              receivedData := List.replicate c.dataSize 0 } }

/-- What `ReceiveProcess` makes of a turn of its loop on connection `j`: the
bytes in `recv_buffer` are copied into `received_data`. -/
def afterReceive (s : State) (j : Nat) : ReceiveTurn → Option State
  -- "Sender disconnected prematurely" and the end of the loop are one
  | .finished | .endOfFile => some (s.receiverTo .received)
  | .got stream totalReceived recvBuffer =>
      -- `memcpy(received_data.data() + total_received, ..)`
      if s.receiver.totalReceived + recvBuffer.length ≤ s.receiver.receivedData.length then
        some { s with
          stream := Function.update s.stream j stream
          receiver := { s.receiver with
            totalReceived := totalReceived
            receivedData :=
              overwrite s.receiver.receivedData s.receiver.totalReceived recvBuffer } }
      else some (s.receiverTo .overrun)
  | .blocked => none

/-- `ReceiveProcess`; `m` is what a `recv` returns. -/
def receiverStep (c : Transfer) (s : State) (m : Nat) : Option State :=
  match s.receiver.pc with
  -- `socket()` and `setsockopt(SO_REUSEADDR)`
  | .ready =>
      if s.receiver.iteration < c.total then some (s.receiverTo .binding)
      else some (s.receiverTo .exited)
  | .binding =>
      match s.port with
      -- "receive: bind"
      | some _ => some (s.receiverTo .failed)
      | none => some { s.receiverTo .listening with port := some s.receiver.iteration }
  | .listening =>
      some { s.receiverTo .listened with listener := some ⟨s.receiver.iteration, []⟩ }
  | .listened => some { s.receiverTo .waiting1 with barrier := s.barrier.arrive .receiver }
  | .waiting1 =>
      if s.barrier.CanLeave .receiver then
        some { s.receiverTo .accepting with barrier := s.barrier.leave .receiver }
      else none
  | .accepting => accept c s
  | .accepted => some { s.receiverTo .waiting2 with barrier := s.barrier.arrive .receiver }
  -- `size_t total_received = 0`
  | .waiting2 =>
      if s.barrier.CanLeave .receiver then
        some { s with
          barrier := s.barrier.leave .receiver
          receiver := { s.receiver with pc := .receiving, totalReceived := 0 } }
      else none
  | .receiving =>
      match s.conn with
      -- "receive: recv"
      | none => some (s.receiverTo .failed)
      | some j =>
          afterReceive s j
            (c.receiveTurn s.receiver.totalReceived [] (s.stream j) (s.hasWriter j) m)
  | .received => some { s.receiverTo .waiting3 with barrier := s.barrier.arrive .receiver }
  | .waiting3 =>
      if s.barrier.CanLeave .receiver then
        some { s.receiverTo .verifying with barrier := s.barrier.leave .receiver }
      else none
  | .verifying =>
      if verifyDataReceived s.receiver.receivedData c.dataSize = some true then
        some (s.receiverTo .closingConn)
      -- its sockets go with the process
      else some { s.receiverTo .aborted with port := none, listener := none, conn := none }
  | .closingConn => some { s.receiverTo .closingListener with conn := none }
  | .closingListener =>
      some { s with
        port := none
        listener := none
        receiver := { s.receiver with pc := .ready, iteration := s.receiver.iteration + 1 } }
  | .exited | .failed | .overrun | .aborted => none

/-- One step of one process.  The number is read only by a `send` or a `recv`:
what the kernel accepts or returns. -/
inductive Act where
  | sender (m : Nat)
  | receiver (m : Nat)

def step (c : Transfer) (s : State) : Act → Option State
  | .sender m => senderStep c s m
  | .receiver m => receiverStep c s m

/-- The benchmark after `fork()` and the constructors of the barriers. -/
def system (c : Transfer) : System State Act where
  init s := s = State.fresh
  step := step c

/-- Both processes have made all their iterations. -/
def State.Finished (s : State) : Prop :=
  s.sender.pc = .exited ∧ s.receiver.pc = .exited

instance (s : State) : Decidable s.Finished :=
  inferInstanceAs (Decidable (_ ∧ _))

end Akbench.Tcp
