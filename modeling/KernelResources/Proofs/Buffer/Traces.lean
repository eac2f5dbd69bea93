import KernelResources.Proofs.Buffer.MachineRuns

namespace KernelResources.Buffer

variable {n m : Nat}

def Cache.Act.transfer? : Cache.Act n → Option Machine.Transfer
  | .transfers direction b interrupts => some ⟨direction, b, interrupts⟩
  | _ => none

namespace Machine

variable {α : Type} {s t u : Machine n m} {c d : Fin m} {acts more : List (Cache.Act n)}

def actsAt (s : Machine n m) (c : Fin m) : List (Cache.Act n) :=
  Effect.acts ((s.past.filter (·.1 == c)).map (·.2))

theorem transfers_acts (s : Machine n m) (c : Fin m) :
    s.transfers c = (s.actsAt c).filterMap Cache.Act.transfer? := by
  unfold transfers actsAt
  congr 1

structure Traced (s t : Machine n m) (c : Fin m) (clock : Clock) (acts : List (Cache.Act n)) : Prop where
  clock : t.clock = clock
  acts : ∀ d, t.actsAt d = s.actsAt d ++ if c = d then acts else []
  cpu : ∀ task, t.cpu task = s.cpu task

theorem Traced.trans {clock later : Clock} (first : Traced s t c clock acts)
    (second : Traced t u c later more) : Traced s u c later (acts ++ more) where
  clock := second.clock
  acts := by
    intro d
    rw [second.acts, first.acts, List.append_assoc]
    split
    · rfl
    · rfl
  cpu := fun task => (second.cpu task).trans (first.cpu task)

theorem acts_append (past more : List (Effect PoolLock (Cache.Act n))) :
    Effect.acts (past ++ more) = Effect.acts more ++ Effect.acts past := by
  simp [Effect.acts]

theorem run_traced {task : TaskId} {op : Cache.Run n α} {result : Except CacheFault α}
    {state : Cache n × Clock} (ends : op.Ends (s.entry task c) result state acts) :
    Traced s (s.run task c op).2 c state.2 acts where
  clock := congrArg Prod.snd ends.state
  acts := by
    intro d
    have done : Effect.acts (op.run (s.entry task c)).2.past = acts := ends.acts
    have past : (s.run task c op).2.past = (op.run (s.entry task c)).2.past.map (c, ·) ++ s.past := rfl
    rw [actsAt, past, List.filter_append, List.map_append, acts_append]
    congr 1
    split
    · rename_i here
      subst here
      rw [List.filter_eq_self.mpr (by simp), List.map_map]
      exact (congrArg Effect.acts (List.map_id' _)).trans done
    · rename_i elsewhere
      rw [List.filter_eq_nil_iff.mpr (by simp [elsewhere])]
      rfl
  cpu := by
    intro who
    have unmoved : (op.run (s.entry task c)).2.cpu = s.cpu task := ends.cpu
    rw [cpu, show (s.run task c op).2.cpus = s.cpus.put task (op.run (s.entry task c)).2.cpu from rfl,
      Registry.find?_put, unmoved]
    split
    · rename_i same
      rw [eq_of_beq same]
      rfl
    · rfl

theorem released?_none (kept : ∀ (c : Fin m) (i : Fin n), .leavesLock i ∉ s.actsAt c) :
    s.released? = none := by
  refine List.findSome?_eq_none_iff.mpr ?_
  rintro ⟨c, effect⟩ member
  have mine : effect ∈ (s.past.filter (·.1 == c)).map (·.2) :=
    List.mem_map.mpr ⟨_, List.mem_filter.mpr ⟨member, by simp⟩, rfl⟩
  cases effect with
  | act what =>
    cases what with
    | leavesLock i =>
      refine absurd ?_ (kept c i)
      exact List.mem_filterMap.mpr ⟨_, List.mem_reverse.mpr mine, rfl⟩
    | _ => rfl
  | _ => rfl

theorem wake_unreleased (kept : ∀ (c : Fin m) (i : Fin n), .leavesLock i ∉ s.actsAt c) :
    s.wake = ([], s) := by
  rw [wake, released?_none kept]

end Machine

end KernelResources.Buffer
