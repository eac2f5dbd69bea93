import KernelResources.Buffer.Counters
import KernelResources.Proofs.Buffer.Ledger

namespace KernelResources.Buffer

open Machine

variable {n : Nat}

def nameOf (task : TaskId) : String := toString task.id

namespace Client

def request? (c : Client) (s : Machine n 1) : Option (Event 1) :=
  match c.todo with
  | [] => none
  | b :: _ =>
    match c.phase with
    | .asking => some (.read (Fin.last 0) b c.name)
    | .counting =>
      (c.buffer? s).map fun block => .put c.name 0 (Block.counterBytes (block.counter + 1))
    | .writing => some (.write c.name)
    | .releasing => some (.release c.name)
    | .stopped => none

def advanced (c : Client) : Client :=
  match c.phase with
  | .asking => { c with phase := .counting }
  | .counting => { c with phase := .writing }
  | .writing => { c with phase := .releasing }
  | .releasing => { c with todo := c.todo.tail, phase := .asking }
  | .stopped => c

def owed (c : Client) : List BlockId :=
  match c.phase with
  | .releasing => c.todo.tail
  | _ => c.todo

theorem turn_idle {c : Client} {s : Machine n 1} (idle : c.request? s = none) : c.turn s = (c, s) := by
  unfold request? at idle
  unfold turn
  cases todo : c.todo with
  | nil => rfl
  | cons b rest =>
    rw [todo] at idle
    cases phase : c.phase with
    | counting =>
      rw [phase] at idle
      dsimp only at idle ⊢
      rw [Option.map_eq_none_iff.mp idle]
    | stopped => rfl
    | _ =>
      rw [phase] at idle
      cases idle

theorem turn_attempt {c : Client} {s : Machine n 1} {event : Event 1} (asks : c.request? s = some event) :
    c.turn s = c.attempt s event c.advanced := by
  unfold request? at asks
  unfold turn advanced
  cases todo : c.todo with
  | nil =>
    rw [todo] at asks
    cases asks
  | cons b rest =>
    rw [todo] at asks
    cases phase : c.phase with
    | counting =>
      rw [phase] at asks
      obtain ⟨block, seen, rfl⟩ := Option.map_eq_some_iff.mp asks
      dsimp only
      rw [seen]
    | stopped =>
      rw [phase] at asks
      cases asks
    | _ =>
      rw [phase] at asks
      cases asks
      rfl

end Client

structure Team (n : Nat) where
  clients : List Client
  machine : Machine n 1

-- Clients that have not begun: no more of them than there are buffers, and for no block more than its
-- count of references can tell.
structure Fresh (n : Nat) (clients : List Client) : Prop where
  distinct : (clients.map (·.task)).Nodup
  asking : ∀ c ∈ clients, c.phase = .asking
  few : clients.length ≤ n
  counted : ∀ b, clients.countP (b ∈ ·.todo) < UInt32.size

theorem Fresh.of_length {clients : List Client} (distinct : (clients.map (·.task)).Nodup)
    (asking : ∀ c ∈ clients, c.phase = .asking) (few : clients.length ≤ n)
    (small : clients.length < UInt32.size) : Fresh n clients :=
  ⟨distinct, asking, few, fun _ => Nat.lt_of_le_of_lt List.countP_le_length small⟩

namespace Team

def start (clients : List Client) (disk : Disk) : Team n := ⟨clients, .start n 1 disk⟩

def Finished (t : Team n) : Prop := ∀ c ∈ t.clients, c.todo = []

instance (t : Team n) : Decidable t.Finished :=
  inferInstanceAs (Decidable (∀ c ∈ t.clients, c.todo = []))

inductive Turn : Team n → Team n → Prop where
  | take (before : List Client) (c : Client) (after : List Client) (s : Machine n 1) :
      Turn ⟨before ++ c :: after, s⟩ ⟨before ++ (c.turn s).1 :: after, (c.turn s).2⟩

inductive Turns : Team n → Team n → Prop where
  | refl {t : Team n} : Turns t t
  | step {t u v : Team n} : Turns t u → Turn u v → Turns t v

theorem Turns.trans {t u v : Team n} (first : Turns t u) (second : Turns u v) : Turns t v := by
  induction second with
  | refl => exact first
  | step _ turn ih => exact .step ih turn

theorem round_turns (before clients : List Client) (s : Machine n 1) :
    Turns ⟨before ++ clients, s⟩
      ⟨before ++ (Counters.round clients s).1, (Counters.round clients s).2⟩ := by
  induction clients generalizing before s with
  | nil => exact .refl
  | cons c rest ih =>
    have first : Turns ⟨before ++ c :: rest, s⟩ _ := .step .refl (.take before c rest s)
    have later := ih (before ++ [(c.turn s).1]) (c.turn s).2
    simp only [List.append_assoc, List.singleton_append] at later
    exact first.trans later

theorem run_turns (rounds : Nat) (clients : List Client) (s : Machine n 1) :
    Turns ⟨clients, s⟩ ⟨(Counters.run rounds clients s).1, (Counters.run rounds clients s).2⟩ := by
  induction rounds generalizing clients s with
  | zero => exact .refl
  | succ rounds ih =>
    unfold Counters.run
    split
    · exact .refl
    · exact (round_turns [] clients s).trans (ih _ _)

end Team

end KernelResources.Buffer
