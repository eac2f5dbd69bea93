import KernelResources.Proofs.Buffer.CacheStructure
import KernelResources.Proofs.Buffer.StepMoves

namespace KernelResources.Buffer

open Machine Stage

variable {n m : Nat}

namespace Account

structure Sound (a : Account n m) : Prop where
  intact : ∀ c : Fin m, a.machine.caches[c].pool.Intact
  accounted : Accounted ⟨a.machine, a.ledger, [], []⟩

theorem slot_start (disks : Vector Disk m) (p : Place n m) :
    (start n disks).machine.slot p = .fresh := by
  simp [start, Machine.slot, Cache.start, Pool.start]

theorem sound_start (disks : Vector Disk m) : Sound (start n disks) := by
  refine ⟨intact_start disks, ⟨⟨?_, ?_, ?_, .nil, .nil, .nil⟩, ?_, ?_, ?_, ?_⟩⟩
  · intro name
    rfl
  · intro name
    rfl
  · intro task
    rfl
  · intro p
    rw [slot_start]
    rfl
  · intro p
    rw [slot_start]
    rfl
  · intro g member
    cases member
  · intro task call found
    cases found

theorem sound_proceeds {a : Account n m} (sound : Sound a) {task : TaskId} {event : Event m}
    (orderly : Orderly a task event) : Proceeds (fun _ => True) a task event :=
  next_proceeds _ sound.accounted sound.intact orderly fun _ _ _ _ _ _ => trivial

theorem next_sound {a : Account n m} (sound : Sound a) {task : TaskId} {event : Event m}
    (orderly : Orderly a task event) : Sound (a.next task event) :=
  ⟨intact_machine sound.intact task event orderly.1,
    moves_accounted (sound_proceeds sound orderly).moves sound.accounted⟩

theorem run_sound {a b : Account n m} (path : Run Orderly a b) (sound : Sound a) : Sound b := by
  induction path with
  | refl => exact sound
  | step _ orderly ih => exact next_sound ih orderly

-- In every state that the tasks can bring about the count of a buffer is the sum of the live buffers,
-- the live pins, the calls asleep and the lost references on it, and no step then finds a count of zero
-- where it has a reference to drop.
theorem references_have_owners {disks : Vector Disk m} {a : Account n m}
    (path : Run Orderly (start n disks) a) :
    (∀ p : Place n m, (a.machine.slot p).refs.toNat =
      a.ledger.buffersAt p.spot + a.ledger.pinsAt p.spot + a.machine.sleepersAt p
        + a.ledger.leakedAt p.spot) ∧
    ∀ task event, Orderly a task event →
      ∀ reply ∈ (a.machine.step task event).1.reply ::
        (a.machine.step task event).1.woken.map (·.reply),
      ∀ i, reply ≠ .halted (.releaseUnreferenced i) ∧ reply ≠ .halted (.unpinUnreferenced i) := by
  have sound := run_sound path (sound_start disks)
  refine ⟨fun p => sound.accounted.balance p, ?_⟩
  intro task event orderly reply member
  obtain ⟨referenced, _, told, _⟩ := sound_proceeds sound orderly
  rcases List.mem_cons.mp member with rfl | later
  · exact referenced
  · obtain ⟨woken, present, rfl⟩ := List.mem_map.mp later
    exact (told woken present).heard.referenced

-- One task asks for a block, another sleeps on it, and the first pins its buffer and forgets it.
theorem references_have_owners_forgotten :
    let a := ((((start 2 #v[.zeroed]).next ⟨1⟩ (.read 0 ⟨1, 5⟩ "a")).next ⟨2⟩
      (.acquire 0 ⟨1, 5⟩ "b")).next ⟨1⟩ (.pin "a" "p")).next ⟨1⟩ (.forget "a")
    let p : Place 2 1 := ⟨0, 0⟩
    Run Orderly (start 2 #v[.zeroed]) a ∧
      (a.ledger.buffersAt p.spot, a.ledger.pinsAt p.spot, a.machine.sleepersAt p,
        a.ledger.leakedAt p.spot) = (0, 1, 1, 1) ∧
      (a.machine.slot p).refs.toNat =
        a.ledger.buffersAt p.spot + a.ledger.pinsAt p.spot + a.machine.sleepersAt p
          + a.ledger.leakedAt p.spot := by
  have path : Run Orderly (start 2 #v[.zeroed]) (((((start 2 #v[.zeroed]).next ⟨1⟩
      (.read 0 ⟨1, 5⟩ "a")).next ⟨2⟩ (.acquire 0 ⟨1, 5⟩ "b")).next ⟨1⟩ (.pin "a" "p")).next ⟨1⟩
      (.forget "a")) := by
    refine .step (.step (.step (.step .refl ?_) ?_) ?_) ?_ <;>
      exact ⟨trivial, by decide +kernel⟩
  exact ⟨path, by decide +kernel, (references_have_owners path).1 ⟨0, 0⟩⟩

end Account

end KernelResources.Buffer
