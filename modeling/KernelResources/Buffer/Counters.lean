import KernelResources.Buffer.Machine.Steps

-- Clients that count in blocks. Each goes through a list of blocks, and for each of them reads the
-- block, adds one to the counter in its first eight bytes, writes it and releases it, one step at a
-- time. The clients take turns; one that sleeps lets its turn pass.

namespace KernelResources.Buffer

inductive Phase where
  | asking
  | counting
  | writing
  | releasing
  -- A fault ended the client.
  | stopped
  deriving DecidableEq, Repr

structure Client where
  task : TaskId
  todo : List BlockId
  phase : Phase

namespace Client

variable {n : Nat}

def name (c : Client) : String := toString c.task.id

def buffer? (c : Client) (s : Machine n 1) : Option Block :=
  (s.held.find? c.name).map s.bytesAt

def attempt (c : Client) (s : Machine n 1) (event : Machine.Event 1) (next : Client) :
    Client × Machine n 1 :=
  let (report, s) := s.step c.task event
  match report.reply with
  | .done _ => (next, s)
  | .asleep => (next, s)
  | _ => ({ c with phase := .stopped }, s)

def turn (c : Client) (s : Machine n 1) : Client × Machine n 1 :=
  match c.todo with
  | [] => (c, s)
  | b :: rest =>
    match c.phase with
    | .asking => c.attempt s (.read 0 b c.name) { c with phase := .counting }
    | .counting =>
      match c.buffer? s with
      | none => (c, s)
      | some block =>
        c.attempt s (.put c.name 0 (Block.counterBytes (block.counter + 1)))
          { c with phase := .writing }
    | .writing => c.attempt s (.write c.name) { c with phase := .releasing }
    | .releasing => c.attempt s (.release c.name) { c with todo := rest, phase := .asking }
    | .stopped => (c, s)

def isDone (c : Client) : Bool := c.todo.isEmpty || c.phase = .stopped

end Client

namespace Counters

variable {n : Nat}

def round : List Client → Machine n 1 → List Client × Machine n 1
  | [], s => ([], s)
  | c :: rest, s =>
    let (c, s) := c.turn s
    let (rest, s) := round rest s
    (c :: rest, s)

def run : (rounds : Nat) → List Client → Machine n 1 → List Client × Machine n 1
  | 0, clients, s => (clients, s)
  | rounds + 1, clients, s =>
    if clients.all Client.isDone then (clients, s)
    else
      let (clients, s) := round clients s
      run rounds clients s

def visits (blocks : List BlockId) (rounds offset : Nat) : List BlockId :=
  (List.range (rounds * blocks.length)).filterMap fun r => blocks[(r + offset) % blocks.length]?

def clients (blocks : List BlockId) (threads rounds : Nat) : List Client :=
  (List.range threads).map fun t => ⟨⟨t + 1⟩, visits blocks rounds t, .asking⟩

-- In every round some client that is not done takes one of its four steps for a block.
def roundsFor (clients : List Client) : Nat := 4 * clients.foldl (fun all client => all + client.todo.length) 0 + 1

def final (n : Nat) (blocks : List BlockId) (threads rounds : Nat) : Machine n 1 :=
  let all := clients blocks threads rounds
  (run (roundsFor all) all (.start n 1 .zeroed)).2

def total (s : Machine n 1) (b : BlockId) : UInt64 :=
  match s.caches[0].disk.written? b with
  | some block => block.counter
  | none => 0

end Counters

end KernelResources.Buffer
