/-
  Akbench.SharedMemory.Session
  ────────────────────────────
  **ALL ITERATIONS OF `shm_bandwidth` AND `mmap_bandwidth`.**

  In each iteration one process sets a shared object up, the other one opens
  it by name, and both run the pipeline over it:

    • `shm_bandwidth` — the receiver creates a segment before the first
      barrier of the iteration and unlinks it at the end;
    • `mmap_bandwidth` — the sender truncates and resizes one file before the
      first barrier and zeroes it after; the file stays.

  The four processes take the same steps in different orders.  `after` gives
  the order, `step` what each step does.  Requests for memory are granted; a
  call on a missing file, descriptor or mapping ends the process.
-/
import Akbench.SharedMemory.Turns
import Akbench.Common.Checksum

namespace Akbench.SharedMemory

/-! ## §1. The shared objects. -/

/-- A run of one of the two programs. -/
structure Session extends Params where
  /-- `num_warmups + num_iterations`.  With warm-ups that are not negative and
  an iteration at least, `CalculateBandwidth` behind the loops finds what it
  asks for; it is not part of this model. -/
  total : Nat

/-- `sizeof(SharedBuffer) + 2 * buffer_size`. -/
def Params.totalSize (c : Params) : Nat := (16 + 2 * c.bufferSize) % wordSize

/-- A segment or a file. -/
structure Object where
  size : Nat
  /-- The iteration in which it was created or last truncated; no code reads
  it. -/
  setUp : Nat
  memory : Buffer

/-- An object just created or truncated in the iteration `setUp`. -/
def Object.empty (setUp : Nat) : Object := ⟨0, setUp, Buffer.zero setUp⟩

/-! ## §2. The processes. -/

/-- Where a process is. -/
inductive Stage where
  /-- Before the `barrier.Wait()` ahead of all iterations. -/
  | first
  | wait0
  /-- In `GenerateDataToSend`. -/
  | generating
  /-- At the head of the iteration loop. -/
  | start
  /-- Before `shm_open(O_CREAT | O_RDWR)`, `open(O_CREAT | O_RDWR | O_TRUNC)`. -/
  | create
  /-- Before `ftruncate`. -/
  | resize
  /-- Before `mmap` of an object of one's own. -/
  | map
  /-- Before `memset`. -/
  | clear
  | arrive1
  | wait1
  /-- Before `shm_open(O_RDWR)`, `open(O_RDWR)`. -/
  | joinOpen
  /-- Before `fstat`. -/
  | joinStat
  /-- Before `mmap` of the other side's object. -/
  | joinMap
  | arrive2
  | wait2
  /-- In the pipeline loop. -/
  | loop
  | wait3
  /-- Before `VerifyDataReceived`. -/
  | verifying
  /-- Before `munmap` and `close`. -/
  | unmap
  /-- Before `shm_unlink`. -/
  | unlink
  | exited
  /-- Aborted: a call failed. -/
  | failed
  /-- Aborted: the verification failed. -/
  | aborted
  /-- Aborted in `GenerateDataToSend`. -/
  | refused
  deriving DecidableEq, Repr

instance : Fintype Stage where
  elems := {.first, .wait0, .generating, .start, .create, .resize, .map, .clear, .arrive1, .wait1,
    .joinOpen, .joinStat, .joinMap, .arrive2, .wait2, .loop, .wait3, .verifying, .unmap, .unlink,
    .exited, .failed, .aborted, .refused}
  complete st := by cases st <;> decide

/-- What each stage of `ReceiveProcess` in `shm_bandwidth` leads to. -/
def Shm.receiveProcess : Stage → Stage
  | .start => .create
  | .create => .resize
  | .resize => .map
  | .map => .clear
  | .clear => .arrive1
  | .arrive1 => .wait1
  | .wait1 => .arrive2
  | .arrive2 => .wait2
  | .wait2 => .loop
  | .loop => .wait3
  | .wait3 => .verifying
  | .verifying => .unmap
  | .unmap => .unlink
  | .unlink => .start
  | _ => .failed

/-- What each stage of `SendProcess` in `shm_bandwidth` leads to. -/
def Shm.sendProcess : Stage → Stage
  | .generating => .start
  | .start => .arrive1
  | .arrive1 => .wait1
  | .wait1 => .joinOpen
  | .joinOpen => .joinMap
  | .joinMap => .arrive2
  | .arrive2 => .wait2
  | .wait2 => .loop
  | .loop => .wait3
  | .wait3 => .unmap
  | .unmap => .start
  | _ => .failed

/-- What each stage of `SendProcess` in `mmap_bandwidth` leads to. -/
def Mmap.sendProcess : Stage → Stage
  | .first => .wait0
  | .wait0 => .generating
  | .generating => .start
  | .start => .create
  | .create => .resize
  | .resize => .map
  | .map => .arrive1
  | .arrive1 => .wait1
  | .wait1 => .clear
  | .clear => .arrive2
  | .arrive2 => .wait2
  | .wait2 => .loop
  | .loop => .wait3
  | .wait3 => .unmap
  | .unmap => .start
  | _ => .failed

/-- What each stage of `ReceiveProcess` in `mmap_bandwidth` leads to. -/
def Mmap.receiveProcess : Stage → Stage
  | .first => .wait0
  | .wait0 => .start
  | .start => .arrive1
  | .arrive1 => .wait1
  | .wait1 => .joinOpen
  | .joinOpen => .joinStat
  | .joinStat => .joinMap
  | .joinMap => .arrive2
  | .arrive2 => .wait2
  | .wait2 => .loop
  | .loop => .wait3
  | .wait3 => .verifying
  | .verifying => .unmap
  | .unmap => .start
  | _ => .failed

/-- What a stage leads to. -/
def after : Program → Side → Stage → Stage
  | .shm, .sender => Shm.sendProcess
  | .shm, .receiver => Shm.receiveProcess
  | .mmap, .sender => Mmap.sendProcess
  | .mmap, .receiver => Mmap.receiveProcess

/-- Where a run starts: only `mmap_bandwidth` waits once ahead of all
iterations, and its sender generates its data after that. -/
def Program.entry : Program → Side → Stage
  | .shm, .sender => .generating
  | .shm, .receiver => .start
  | .mmap, _ => .first

/-- The side that sets the object up. -/
def Program.creator : Program → Side
  | .shm => .receiver
  | .mmap => .sender

/-- The side that opens the object by name. -/
def Program.joiner : Program → Side
  | .shm => .sender
  | .mmap => .receiver

/-- A process outside its pipeline loop. -/
structure Party where
  stage : Stage
  iteration : Nat
  /-- What `shm_fd`, `fd` refers to. -/
  fd : Option Nat
  /-- What `shared_buffer`, `mapped_region` shows. -/
  mapping : Option Nat
  /-- The length of the mapping. -/
  length : Nat
  /-- `file_stat.st_size`. -/
  stSize : Nat
  deriving DecidableEq, Repr

/-- The two processes, the barrier, and the objects by number. -/
structure State where
  barrier : Rendezvous Side
  party : Side → Party
  sendLoop : SendLoop
  receiveLoop : ReceiveLoop
  /-- What `SHM_NAME`, `MMAP_FILE_PATH` names. -/
  name : Option Nat
  object : Nat → Object
  /-- How many objects there have been. -/
  created : Nat

/-- Both processes about to begin, the name not taken. -/
def State.fresh (c : Session) : State where
  barrier := .fresh
  party p := ⟨c.program.entry p, 0, none, none, 0, 0⟩
  sendLoop := .fresh
  receiveLoop := .fresh c.toParams
  name := none
  object _ := Object.empty 0
  created := 0

namespace State

/-- `p` becomes `x`. -/
def become (s : State) (p : Side) (x : Party) : State :=
  { s with party := Function.update s.party p x }

/-- `p` goes to a stage. -/
def go (s : State) (p : Side) (stage : Stage) : State :=
  s.become p { s.party p with stage := stage }

/-- `p` becomes `x` and goes to a stage; from the end of an iteration it goes
to the next one. -/
def goOn (s : State) (p : Side) (x : Party) (stage : Stage) : State :=
  if stage = .start then s.become p { x with stage := stage, iteration := x.iteration + 1 }
  else s.become p { x with stage := stage }

/-- `p` enters a barrier. -/
def arrive (s : State) (p : Side) (stage : Stage) : State :=
  { s.go p stage with barrier := s.barrier.arrive p }

/-- `p` leaves a barrier. -/
def leave (s : State) (p : Side) (stage : Stage) : State :=
  { s.go p stage with barrier := s.barrier.leave p }

/-- A call on what a name, a descriptor or a pointer stands for; on nothing it
fails. -/
def use (s : State) (p : Side) (id : Option Nat) (call : Nat → State) : Option State :=
  match id with
  | some id => some (call id)
  | none => some (s.go p .failed)

/-- An object changes. -/
def store (s : State) (id : Nat) (o : Object) : State :=
  { s with object := Function.update s.object id o }

end State

/-- `shm_open(O_CREAT | O_RDWR)` and `open(O_CREAT | O_RDWR | O_TRUNC)`: both
make an object where there is none; of one that is there, only the second
drops the content. -/
def openCreate (c : Session) (s : State) (p : Side) : State × Nat :=
  match s.name with
  | none =>
      ({ s.store s.created (Object.empty (s.party p).iteration) with
        name := some s.created
        created := s.created + 1 }, s.created)
  | some id =>
      match c.program with
      | .shm => (s, id)
      | .mmap => (s.store id (Object.empty (s.party p).iteration), id)

/-- One step of the pipeline loop, or the first step after it. -/
def loopStep (c : Session) (s : State) (p : Side) (next : Stage) : Option State :=
  match (s.party p).mapping with
  | none => some (s.go p .failed)
  | some id =>
      match p with
      | .sender =>
          if s.sendLoop.Over c.toParams then some (s.arrive .sender next)
          else
            match sendTurn c.toParams (s.party .sender).iteration s.barrier (s.object id).memory
                s.sendLoop with
            | some (b, m, l) =>
                some { s.store id { s.object id with memory := m } with
                  barrier := b
                  sendLoop := l }
            | none => none
      | .receiver =>
          if s.receiveLoop.Over c.toParams then some (s.arrive .receiver next)
          else
            match receiveTurn c.toParams s.barrier (s.object id).memory s.receiveLoop with
            | some (b, l) => some { s with barrier := b, receiveLoop := l }
            | none => none

/-- The locals of a pipeline loop about to begin. -/
def resetLoop (c : Session) (s : State) : Side → State
  | .sender => { s with sendLoop := .fresh }
  | .receiver => { s with receiveLoop := .fresh c.toParams }

/-- What `mmap` of the other side's object is asked for: `shm_bandwidth`
computes the size, `mmap_bandwidth` asks `fstat`. -/
def joinSize (c : Session) (x : Party) : Nat :=
  match c.program with
  | .shm => c.totalSize
  | .mmap => x.stSize

/-- One step of one of the four processes. -/
def sessionStep (c : Session) (s : State) (p : Side) : Option State :=
  let x := s.party p
  let next := after c.program p x.stage
  match x.stage with
  | .first | .arrive1 | .arrive2 => some (s.arrive p next)
  | .wait0 | .wait1 | .wait3 =>
      if s.barrier.CanLeave p then some (s.leave p next) else none
  -- `GenerateDataToSend`, before the iteration loop
  | .generating =>
      if checksumSize < c.dataSize then some (s.go p next) else some (s.go p .refused)
  | .start => if x.iteration < c.total then some (s.go p next) else some (s.go p .exited)
  | .create =>
      let (s', id) := openCreate c s p
      some (s'.become p { x with stage := next, fd := some id })
  | .resize =>
      s.use p x.fd fun id => (s.store id { s.object id with size := c.totalSize }).go p next
  | .map =>
      s.use p x.fd fun id =>
        s.become p { x with stage := next, mapping := some id, length := c.totalSize }
  | .clear =>
      s.use p x.mapping fun id =>
        (s.store id { s.object id with memory := Buffer.zero x.iteration }).go p next
  | .joinOpen =>
      s.use p s.name fun id => s.become p { x with stage := next, fd := some id }
  | .joinStat =>
      s.use p x.fd fun id =>
        s.become p { x with stage := next, stSize := (s.object id).size }
  | .joinMap =>
      s.use p x.fd fun id =>
        s.become p { x with stage := next, mapping := some id, length := joinSize c x }
  | .wait2 =>
      if s.barrier.CanLeave p then some (resetLoop c (s.leave p next) p) else none
  | .loop => loopStep c s p next
  | .verifying =>
      if verifyDataReceived s.receiveLoop.receivedData c.dataSize = some true then
        some (s.go p next)
      else some (s.go p .aborted)
  | .unmap => some (s.goOn p { x with fd := none, mapping := none } next)
  | .unlink => some ({ s with name := none }.goOn p x next)
  | .exited | .failed | .aborted | .refused => none

/-- The benchmark after `ClearResource`, `CleanupResources` and `fork()`. -/
def sessionSystem (c : Session) : System State Side where
  init s := s = State.fresh c
  step := sessionStep c

end Akbench.SharedMemory
