import KernelResources.Proofs.Buffer.Increments

namespace KernelResources.Buffer

open Machine

variable {n : Nat} {disk : Disk}

namespace Client

def taken (c : Client) : Nat :=
  match c.phase with
  | .asking => 0
  | .counting => 1
  | .writing => 2
  | .releasing => 3
  | .stopped => 0

def left (c : Client) : Nat := 4 * c.todo.length - c.taken

theorem left_advanced {c : Client} {s : Machine n 1} {event : Event 1} (asks : c.request? s = some event) :
    c.advanced.left < c.left := by
  unfold request? at asks
  unfold left advanced taken
  cases todo : c.todo with
  | nil =>
    rw [todo] at asks
    cases asks
  | cons b rest =>
    cases phase : c.phase with
    | stopped =>
      rw [todo, phase] at asks
      cases asks
    | _ =>
      simp only [List.tail_cons, List.length_cons]
      omega

end Client

namespace Counters

def left : List Client → Nat
  | [] => 0
  | c :: rest => c.left + left rest

theorem left_roundsFor (clients : List Client) : left clients < roundsFor clients := by
  have all : ∀ (clients : List Client) (before : Nat),
      4 * before + left clients ≤
        4 * clients.foldl (fun all client => all + client.todo.length) before := by
    intro clients
    induction clients with
    | nil => exact fun before => Nat.le_refl _
    | cons c rest ih =>
      intro before
      have later := ih (before + c.todo.length)
      have own : c.left ≤ 4 * c.todo.length := Nat.sub_le ..
      rw [List.foldl_cons, left]
      omega
  have bound := all clients 0
  rw [roundsFor]
  omega

end Counters

namespace Working

variable {a : Account n 1} {disks : Vector Disk 1} {goal : BlockId → UInt64}
  {before clients : List Client}

theorem round (working : Working disks goal (before ++ clients) a)
    (works : ∀ (c : Fin 1) (task : TaskId) (b : BlockId), disks[c].fails task b = false) :
    (∃ z : Account n 1, z.machine = (Counters.round clients a.machine).2 ∧
        Working disks goal (before ++ (Counters.round clients a.machine).1) z) ∧
      Counters.left (Counters.round clients a.machine).1 ≤ Counters.left clients ∧
      (Counters.left (Counters.round clients a.machine).1 = Counters.left clients →
        ∀ c ∈ clients, c.request? a.machine = none) := by
  induction clients generalizing before a with
  | nil => exact ⟨⟨a, rfl, working⟩, Nat.le_refl _, by simp⟩
  | cons c rest ih =>
    obtain ⟨z, machine, between⟩ := working.turn works
    have regrouped : Working disks goal ((before ++ [(c.turn a.machine).1]) ++ rest) z := by
      rw [List.append_assoc]
      exact between
    obtain ⟨⟨y, same, later⟩, less, idle⟩ := ih regrouped
    rw [machine] at same later less idle
    rw [List.append_assoc] at later
    refine ⟨⟨y, same, later⟩, ?_⟩
    rw [Counters.round, Counters.left, Counters.left]
    cases asks : c.request? a.machine with
    | none =>
      rw [Client.turn_idle asks] at less idle ⊢
      dsimp only at less idle ⊢
      refine ⟨by omega, ?_⟩
      intro equal
      exact List.forall_mem_cons.mpr ⟨asks, idle (by omega)⟩
    | some event =>
      have fewer := Client.left_advanced asks
      rw [working.turn_advances works asks] at less ⊢
      dsimp only at less ⊢
      exact ⟨by omega, by omega⟩

theorem run (working : Working disks goal clients a)
    (works : ∀ (c : Fin 1) (task : TaskId) (b : BlockId), disks[c].fails task b = false) {rounds : Nat}
    (enough : Counters.left clients < rounds) :
    ∀ c ∈ (Counters.run rounds clients a.machine).1, c.todo = [] := by
  induction rounds generalizing clients a with
  | zero => cases enough
  | succ rounds ih =>
    unfold Counters.run
    split
    · rename_i done
      intro c member
      have ended := List.all_eq_true.mp done c member
      simpa [Client.isDone, working.unstopped member] using ended
    · rename_i undone
      have alone : Working disks goal ([] ++ clients) a := working
      obtain ⟨⟨z, machine, later⟩, less, idle⟩ := alone.round works
      -- A round without a step would leave nobody to ask, but somebody always does.
      have fewer : Counters.left (Counters.round clients a.machine).1 ≠ Counters.left clients := by
        intro equal
        have left : ∃ c ∈ clients, c.todo ≠ [] := by
          by_contra none
          apply undone
          apply List.all_eq_true.mpr
          intro c member
          have finished : c.todo = [] := by_contra fun unfinished => none ⟨c, member, unfinished⟩
          simp [Client.isDone, finished]
        obtain ⟨c, member, _, _, asks⟩ := working.somebody_asks left
        rw [idle equal c member] at asks
        cases asks
      rw [List.nil_append] at later
      have rest := ih later (by omega)
      rw [machine] at rest
      exact rest

end Working

theorem Team.rounds_finish {clients : List Client} (fresh : Fresh n clients)
    (works : ∀ task b, disk.fails task b = false) :
    ∀ c ∈ (Counters.run (Counters.roundsFor clients) clients (.start n 1 disk)).1, c.todo = [] := by
  have finished :=
    (Working.start fresh disk).run (only_disk_works works) (Counters.left_roundsFor clients)
  rw [machine_start] at finished
  exact finished

namespace Counters

theorem total_final (blocks : List BlockId) {threads : Nat} (rounds : Nat) (few : threads ≤ n)
    (counted : threads < UInt32.size) (b : BlockId) :
    total (final n blocks threads rounds) b = UInt64.ofNat (threads * rounds * blocks.count b) := by
  have fresh := fresh_clients (n := n) blocks rounds few counted
  have works : ∀ task b, Disk.zeroed.fails task b = false := fun _ _ => rfl
  obtain ⟨a, machine, working⟩ :=
    Team.turns_start fresh works (Team.run_turns (roundsFor (clients blocks threads rounds)) _ _)
  dsimp only at machine
  rw [final, ← machine]
  exact total_finished working (Team.rounds_finish fresh works) b

end Counters

end KernelResources.Buffer
