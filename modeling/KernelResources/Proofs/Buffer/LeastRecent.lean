import KernelResources.Proofs.Buffer.Recency
import KernelResources.Proofs.Buffer.SoleVisits

namespace KernelResources.Buffer

open Machine

variable {n : Nat}

structure Access where
  block : BlockId
  clock : Option Clock

def Clock.readings : Clock → List Access → List UInt64
  | _, [] => []
  | clock, access :: rest =>
    (access.clock.getD clock).now :: readings (access.clock.getD clock).read.2 rest

-- A cache at work, the only one of its machine: its answers so far, and how many reads it has asked of the
-- device.
structure Service (n : Nat) where
  machine : Machine n 1
  replies : List Reply
  loads : Nat

namespace Service

def start (n : Nat) (disk : Disk) : Service n := ⟨.start n 1 disk, [], 0⟩

def ask (s : Service n) (task : TaskId) (event : Event 1) : Service n :=
  let (report, machine) := s.machine.step task event
  ⟨machine, s.replies ++ [report.reply],
    s.loads + (machine.transfers (Fin.last 0)).countP (·.direction = .read)⟩

def setClock (s : Service n) (task : TaskId) : Option Clock → Service n
  | none => s
  | some clock => s.ask task (.setClock (some clock.now) (some clock.step))

def access (s : Service n) (task : TaskId) (a : Access) : Service n :=
  ((s.ask task (.read (Fin.last 0) a.block "block")).setClock task a.clock).ask task (.release "block")

def serve (s : Service n) (task : TaskId) (accesses : List Access) : Service n :=
  accesses.foldl (·.access task ·) s

end Service

namespace Machine

def buffer (s : Machine n 1) (i : Fin n) : Slot := s.slot ⟨Fin.last 0, i⟩

theorem buffer_slot (s : Machine n 1) (i : Fin n) : s.buffer i = s.slot ⟨0, i⟩ := rfl

structure Idle (s : Machine n 1) : Prop where
  intact : s.caches[(0 : Fin 1)].pool.Intact
  asleep : s.asleep = []
  held : s.held = []
  unreferenced : ∀ i, (s.buffer i).refs = 0
  unlocked : ∀ i, (s.buffer i).data.holder = none
  unqueued : ∀ i, (s.buffer i).data.sleepers = []
  healthy : ∀ task b, s.caches[(0 : Fin 1)].disk.fails task b = false

-- The buffers in `order` carry the blocks accessed last, the last one first, and were released in that
-- order. The others were never used.
structure Recalls (s : Machine n 1) (past : List BlockId) (order : List (Fin n)) : Prop where
  distinct : order.Nodup
  mapped : ∀ i, i ∈ order ↔ (s.buffer i).mapped = true
  valid : ∀ i ∈ order, (s.buffer i).valid = true
  blocks : (order.map fun i => (s.buffer i).block) = (recent past).take n
  used : ∀ i ∈ order, 0 < (s.buffer i).released
  unused : ∀ i, i ∉ order → (s.buffer i).released = 0
  sorted : order.Pairwise fun i j => (s.buffer j).released < (s.buffer i).released

theorem cache_start (disk : Disk) : (Machine.start n 1 disk).caches[(0 : Fin 1)] = .start n disk :=
  entry_replicate ..

theorem buffer_start (disk : Disk) (i : Fin n) : (Machine.start n 1 disk).buffer i = .fresh := by
  rw [buffer_slot, slot, cache_start]
  exact Pool.slot_start i

theorem idle_start {disk : Disk} (healthy : ∀ task b, disk.fails task b = false) :
    (Machine.start n 1 disk).Idle where
  intact := by
    rw [cache_start]
    exact Pool.intact_start n
  asleep := rfl
  held := rfl
  unreferenced := fun i => by rw [buffer_start]; rfl
  unlocked := fun i => by rw [buffer_start]; rfl
  unqueued := fun i => by rw [buffer_start]; rfl
  healthy := by
    rw [cache_start]
    exact healthy

theorem recalls_start (disk : Disk) : (Machine.start n 1 disk).Recalls [] [] where
  distinct := .nil
  mapped := fun i => by rw [buffer_start]; simp [Slot.fresh]
  valid := nofun
  blocks := by simp [recent]
  used := nofun
  unused := fun i _ => by rw [buffer_start]; rfl
  sorted := .nil

structure Accessed (s t : Machine n 1) (b : BlockId) (i : Fin n) (now : UInt64) : Prop where
  apart : ∀ j, j ≠ i → t.buffer j = s.buffer j
  block : (t.buffer i).block = b
  mapped : (t.buffer i).mapped = true
  valid : (t.buffer i).valid = true
  released : (t.buffer i).released = Clock.stamp now

variable {s t : Machine n 1} {past : List BlockId} {order : List (Fin n)} {b : BlockId} {i : Fin n}
  {now : UInt64}

theorem Recalls.accessed (recalls : s.Recalls past order) (accessed : s.Accessed t b i now)
    (later : ∀ j, (s.buffer j).released < Clock.stamp now)
    (blocks : b :: ((order.erase i).map fun j => (s.buffer j).block) = (recent (past ++ [b])).take n) :
    t.Recalls (past ++ [b]) (i :: order.erase i) := by
  have others : ∀ j ∈ order.erase i, t.buffer j = s.buffer j :=
    fun j member => accessed.apart j (recalls.distinct.mem_erase_iff.mp member).1
  have positive : 0 < Clock.stamp now := by
    have bound := later i
    grind
  refine ⟨?_, ?_, ?_, ?_, ?_, ?_, ?_⟩
  · exact List.nodup_cons.mpr ⟨recalls.distinct.not_mem_erase, recalls.distinct.erase i⟩
  · intro j
    rw [List.mem_cons, recalls.distinct.mem_erase_iff]
    by_cases same : j = i
    · subst same
      simp [accessed.mapped]
    · rw [accessed.apart j same, ← recalls.mapped]
      simp [same]
  · refine List.forall_mem_cons.mpr ⟨accessed.valid, fun j member => ?_⟩
    rw [others j member]
    exact recalls.valid j (List.mem_of_mem_erase member)
  · rw [← blocks, List.map_cons, accessed.block]
    exact congrArg (b :: ·) (List.map_congr_left fun j member => by rw [others j member])
  · refine List.forall_mem_cons.mpr ⟨?_, fun j member => ?_⟩
    · rw [accessed.released]
      exact positive
    · rw [others j member]
      exact recalls.used j (List.mem_of_mem_erase member)
  · intro j absent
    rw [List.mem_cons, not_or, recalls.distinct.mem_erase_iff] at absent
    rw [accessed.apart j absent.1]
    exact recalls.unused j fun member => absent.2 ⟨absent.1, member⟩
  · refine List.pairwise_cons.mpr ⟨fun j member => ?_, ?_⟩
    · rw [others j member, accessed.released]
      exact later j
    · refine (recalls.sorted.sublist List.erase_sublist).imp_of_mem ?_
      intro j k first second earlier
      rw [others j first, others k second]
      exact earlier

theorem erase_between {α : Type} [DecidableEq α] {x : α} {before after : List α}
    (distinct : (before ++ x :: after).Nodup) : (before ++ x :: after).erase x = before ++ after := by
  have fresh : x ∉ before := fun member =>
    (List.nodup_append.mp distinct).2.2 x member x List.mem_cons_self rfl
  rw [List.erase_append_right _ fresh, List.erase_cons_head]

theorem Recalls.blocks_hit (recalls : s.Recalls past order) (holds : (s.buffer i).holds b = true) :
    b ∈ (recent past).take n ∧
      b :: ((order.erase i).map fun j => (s.buffer j).block) = (recent (past ++ [b])).take n := by
  obtain ⟨mapped, carries⟩ := (Slot.holds_iff ..).mp holds
  have member : i ∈ order := (recalls.mapped i).mpr mapped
  have known : b ∈ (recent past).take n := by
    rw [← recalls.blocks, ← carries]
    exact List.mem_map_of_mem member
  cases n with
  | zero => exact i.elim0
  | succ k =>
    refine ⟨known, ?_⟩
    obtain ⟨before, after, rfl⟩ := List.append_of_mem member
    have blocks := recalls.blocks
    have distinct := (nodup_recent past).sublist (List.take_sublist (k + 1) _)
    rw [List.map_append, List.map_cons, carries] at blocks
    rw [← blocks] at distinct
    rw [recent_concat, List.take_succ_cons, take_erase_hit known, ← blocks, erase_between distinct,
      erase_between recalls.distinct, List.map_append]

theorem Recalls.full (recalls : s.Recalls past order) (member : i ∈ order)
    (oldest : ∀ j, (s.buffer i).released ≤ (s.buffer j).released) (j : Fin n) : j ∈ order := by
  by_contra absent
  have positive := recalls.used i member
  have bound := oldest j
  rw [recalls.unused j absent] at bound
  exact absurd positive (UInt64.not_lt.mpr bound)

theorem Recalls.blocks_last {k : Nat} {s : Machine (k + 1) 1} {order : List (Fin (k + 1))}
    {i : Fin (k + 1)} (recalls : s.Recalls past order) (member : i ∈ order)
    (oldest : ∀ j, (s.buffer i).released ≤ (s.buffer j).released) :
    ((order.erase i).map fun j => (s.buffer j).block) = (recent past).take k := by
  have all : order.length = k + 1 := by
    have every := recalls.full member oldest
    have same := (List.perm_ext_iff_of_nodup recalls.distinct (List.nodup_finRange (k + 1))).mpr
      (by simp only [List.mem_finRange, every, implies_true])
    rw [same.length_eq, List.length_finRange]
  obtain ⟨before, after, rfl⟩ := List.append_of_mem member
  -- Nothing comes after the one that was released first.
  have last : after = [] := by
    cases after with
    | nil => rfl
    | cons j after =>
      have sorted := (List.pairwise_append.mp recalls.sorted).2.1
      have older := (List.pairwise_cons.mp sorted).1 j List.mem_cons_self
      exact absurd older (UInt64.not_lt.mpr (oldest j))
  subst last
  rw [List.length_append, List.length_singleton] at all
  have first := congrArg (List.take k) recalls.blocks
  rw [List.map_append, List.take_take, Nat.min_eq_left (Nat.le_succ k),
    List.take_left' (by rw [List.length_map]; omega)] at first
  rw [erase_between recalls.distinct, List.append_nil, first]

theorem Recalls.blocks_spare {k : Nat} {s : Machine (k + 1) 1} {order : List (Fin (k + 1))}
    {i : Fin (k + 1)} (recalls : s.Recalls past order) (unused : i ∉ order) :
    ((order.erase i).map fun j => (s.buffer j).block) = (recent past).take k := by
  have short : order.length ≤ k := by
    have larger : (i :: order).Nodup := List.nodup_cons.mpr ⟨unused, recalls.distinct⟩
    have bound := larger.length_le_card
    rw [List.length_cons, Fintype.card_fin] at bound
    omega
  have few : (recent past).length ≤ k := by
    have lengths := congrArg List.length recalls.blocks
    rw [List.length_map, List.length_take] at lengths
    omega
  rw [List.erase_of_not_mem unused, recalls.blocks, List.take_of_length_le few,
    List.take_of_length_le (by omega)]

theorem Recalls.blocks_miss (recalls : s.Recalls past order) (idle : s.Idle)
    (absent : s.caches[(0 : Fin 1)].pool.find? b = none)
    (chosen : s.caches[(0 : Fin 1)].pool.leastRecentlyReleased = some i) :
    b ∉ (recent past).take n ∧
      b :: ((order.erase i).map fun j => (s.buffer j).block) = (recent (past ++ [b])).take n := by
  have unknown : b ∉ (recent past).take n := by
    rw [← recalls.blocks]
    intro member
    obtain ⟨j, used, carries⟩ := List.mem_map.mp member
    have holds : (s.buffer j).holds b = true :=
      (Slot.holds_iff ..).mpr ⟨(recalls.mapped j).mp used, carries⟩
    have free := (Pool.find?_none _ idle.intact b).mp absent j
    exact Bool.false_ne_true (free.symm.trans holds)
  refine ⟨unknown, ?_⟩
  cases n with
  | zero => exact i.elim0
  | succ k =>
    rw [recent_concat, List.take_succ_cons, take_erase_miss unknown]
    by_cases member : i ∈ order
    · rw [recalls.blocks_last member fun j =>
        Pool.leastRecentlyReleased_le chosen j (idle.unreferenced j)]
    · rw [recalls.blocks_spare member]

structure InHand (slot : Slot) (task : TaskId) (b : BlockId) : Prop where
  block : slot.block = b
  mapped : slot.mapped = true
  valid : slot.valid = true
  refs : slot.refs = 1
  holder : slot.data.holder = some task
  sleepers : slot.data.sleepers = []

structure Reading (s t : Machine n 1) (task : TaskId) (b : BlockId) (i : Fin n) (clock : Clock) :
    Prop where
  intact : t.caches[(0 : Fin 1)].pool.Intact
  asleep : t.asleep = []
  held : t.held = [("block", ⟨0, i⟩)]
  healthy : ∀ task b, t.caches[(0 : Fin 1)].disk.fails task b = false
  clock : t.clock = clock
  apart : ∀ j, j ≠ i → t.buffer j = s.buffer j
  inHand : InHand (t.buffer i) task b

variable {task : TaskId}

theorem awake_nobody (nobody : s.asleep = []) (task : TaskId) : s.isAsleep task = false := by
  rw [isAsleep, nobody]
  rfl

theorem intact_sole (intact : s.caches[(0 : Fin 1)].pool.Intact) (task : TaskId) (event : Event 1)
    (regular : event.Regular) : (s.step task event).2.caches[(0 : Fin 1)].pool.Intact :=
  intact_machine (fun c => by rw [Subsingleton.elim c 0]; exact intact) task event regular 0

theorem enter_free (slot : Slot) (free : slot.data.holder = none) (task : TaskId) :
    (slot.enter task).data = { slot.data with holder := some task } := by
  unfold Slot.enter SleepLock.enter SleepLock.tryLock
  rw [free]

theorem reading {x : Slot} {transfers : List Transfer} (idle : s.Idle)
    (intact : t.caches[(0 : Fin 1)].pool.Intact) (held : t.held = s.held.put "block" ⟨0, i⟩)
    (leaves : s.Leaves ⟨0, i⟩ x s.clock transfers t) (inHand : InHand x task b) :
    Reading s t task b i s.clock where
  intact := intact
  asleep := leaves.asleep.trans idle.asleep
  held := by
    rw [held, idle.held]
    rfl
  healthy := by
    intro b
    rw [leaves.disks]
    exact idle.healthy b
  clock := leaves.clock
  apart := by
    intro j other
    rw [buffer_slot, leaves.slots, if_neg (by simpa using other)]
    rfl
  inHand := by
    rw [buffer_slot, leaves.slots, if_pos rfl]
    exact inHand

theorem read_idle (idle : s.Idle) (recalls : s.Recalls past order) (positive : 0 < n) (task : TaskId)
    (b : BlockId) :
    ∃ i info bytes, (s.step task (.read 0 b "block")).1.reply = .done (.buffer info bytes) ∧
      Reading s (s.step task (.read 0 b "block")).2 task b i s.clock ∧
      ((s.step task (.read 0 b "block")).2.transfers 0).countP (·.direction = .read) =
        (if b ∈ (recent past).take n then 0 else 1) ∧
      b :: ((order.erase i).map fun j => (s.buffer j).block) = (recent (past ++ [b])).take n := by
  have awake := awake_nobody idle.asleep task
  have free : s.held.find? "block" = none := by
    rw [idle.held]
    rfl
  have intact := intact_sole idle.intact task (.read 0 b "block") trivial
  cases found : s.caches[(0 : Fin 1)].pool.find? b with
  | some i =>
    have holds := Pool.find?_holds found
    obtain ⟨mapped, carries⟩ := (Slot.holds_iff ..).mp holds
    have valid := recalls.valid i ((recalls.mapped i).mpr mapped)
    obtain ⟨known, blocks⟩ := recalls.blocks_hit holds
    obtain ⟨info, bytes, enabled, t, stepped, held, leaves⟩ :=
      read_hit (p := ⟨0, i⟩) (b := b) awake free found (idle.unlocked i) valid
    have lock := enter_free (s.buffer i).refer (idle.unlocked i) task
    rw [stepped] at intact ⊢
    refine ⟨i, info, bytes, rfl, reading idle intact held leaves ?_, ?_, blocks⟩
    · refine ⟨carries, mapped, valid, congrArg (· + 1) (idle.unreferenced i), ?_, ?_⟩
      · exact congrArg SleepLock.holder lock
      · exact (congrArg SleepLock.sleepers lock).trans (idle.unqueued i)
    · rw [leaves.transfers, if_pos known]
      rfl
  | none =>
    have available : s.caches[(0 : Fin 1)].pool.leastRecentlyReleased ≠ none := fun nothing =>
      Pool.referenced_of_none nothing ⟨0, positive⟩ (idle.unreferenced _)
    obtain ⟨i, chosen⟩ := Option.ne_none_iff_exists'.mp available
    obtain ⟨unknown, blocks⟩ := recalls.blocks_miss idle found chosen
    obtain ⟨info, bytes, enabled, t, stepped, held, interrupts, leaves⟩ :=
      read_miss (p := ⟨0, i⟩) (b := b) awake free found chosen (idle.unlocked i)
        (idle.healthy _ b)
    have lock := enter_free ((s.buffer i).retag b) (idle.unlocked i) task
    rw [stepped] at intact ⊢
    refine ⟨i, info, bytes, rfl, reading idle intact held leaves ?_, ?_, blocks⟩
    · refine ⟨rfl, rfl, rfl, rfl, ?_, ?_⟩
      · exact congrArg SleepLock.holder lock
      · exact (congrArg SleepLock.sleepers lock).trans (idle.unqueued i)
    · rw [leaves.transfers, if_neg unknown]
      rfl

theorem reading_setClock {clock : Clock} (hand : Reading s t task b i clock) (set : Clock) :
    t.step task (.setClock (some set.now) (some set.step)) =
        (⟨.done .unit, (t.cpu task).enabled, []⟩, { t with past := [], clock := set }) ∧
      Reading s { t with past := [], clock := set } task b i set := by
  have awake := awake_nobody hand.asleep task
  refine ⟨?_, hand.intact, hand.asleep, hand.held, hand.healthy, rfl, hand.apart, hand.inHand⟩
  rw [step_awake awake]
  rfl

theorem reading_release {clock : Clock} (hand : Reading s t task b i clock) (idle : s.Idle) :
    (t.step task (.release "block")).1.reply = .done .unit ∧
      (t.step task (.release "block")).2.Idle ∧
      Accessed s (t.step task (.release "block")).2 b i clock.now ∧
      (t.step task (.release "block")).2.clock = clock.read.2 ∧
      (t.step task (.release "block")).2.transfers 0 = [] := by
  have awake := awake_nobody hand.asleep task
  have known : t.held.find? "block" = some ⟨0, i⟩ := by
    rw [hand.held]
    rfl
  have intact := intact_sole hand.intact task (.release "block") trivial
  obtain ⟨enabled, u, stepped, held, leaves⟩ := release_alone awake known hand.inHand.holder
    hand.inHand.sleepers (by rw [show (t.slot ⟨0, i⟩).refs = 1 from hand.inHand.refs]; decide)
  have here : u.buffer i = (t.buffer i).unlock.stamp t.clock.now := by
    rw [buffer_slot, leaves.slots, if_pos rfl]
    rfl
  have apart : ∀ j, j ≠ i → u.buffer j = s.buffer j := by
    intro j other
    rw [← hand.apart j other, buffer_slot, leaves.slots, if_neg (by simpa using other)]
    rfl
  have rests : ∀ j, (u.buffer j).refs = 0 ∧ (u.buffer j).data.holder = none ∧
      (u.buffer j).data.sleepers = [] := by
    intro j
    by_cases same : j = i
    · rw [same, here]
      exact ⟨congrArg (· - 1) hand.inHand.refs, rfl, hand.inHand.sleepers⟩
    · rw [apart j same]
      exact ⟨idle.unreferenced j, idle.unlocked j, idle.unqueued j⟩
  rw [stepped] at intact ⊢
  refine ⟨rfl, ?_, ?_, ?_, leaves.transfers⟩
  · refine ⟨intact, leaves.asleep.trans hand.asleep, ?_, fun j => (rests j).1,
      fun j => (rests j).2.1, fun j => (rests j).2.2, ?_⟩
    · rw [held, hand.held]
      rfl
    · intro b
      rw [leaves.disks]
      exact hand.healthy b
  · refine ⟨apart, ?_, ?_, ?_, ?_⟩ <;> rw [here]
    · exact hand.inHand.block
    · exact hand.inHand.mapped
    · exact hand.inHand.valid
    · rw [hand.clock]
      rfl
  · rw [leaves.clock, hand.clock]

end Machine

theorem Clock.toNat_stamp {t : UInt64} (bounded : t.toNat + 1 < UInt64.size) :
    (Clock.stamp t).toNat = t.toNat + 1 := by
  rw [UInt64.size] at bounded
  have sum : (t + 1).toNat = t.toNat + 1 := by
    rw [UInt64.toNat_add]
    simp only [UInt64.toNat_ofNat]
    omega
  unfold Clock.stamp
  split
  · rename_i overflows
    rw [overflows] at sum
    simp at sum
  · exact sum

theorem Clock.stamp_lt {t u : UInt64} (earlier : t < u) (bounded : u.toNat + 1 < UInt64.size) :
    Clock.stamp t < Clock.stamp u := by
  have before := UInt64.lt_iff_toNat_lt.mp earlier
  rw [UInt64.lt_iff_toNat_lt, Clock.toNat_stamp bounded, Clock.toNat_stamp (by omega)]
  omega

namespace Service

variable {s t : Service n} {past : List BlockId} {order : List (Fin n)} {task : TaskId}

theorem loads_ask (s : Service n) (task : TaskId) (event : Event 1) :
    (s.ask task event).loads =
      s.loads + (((s.machine.step task event).2.transfers 0).countP (·.direction = .read)) := rfl

theorem access_asks (s : Service n) (task : TaskId) (a : Access) :
    s.access task a =
      ((s.ask task (.read 0 a.block "block")).setClock task a.clock).ask task (.release "block") := rfl

def Answered (s t : Service n) : Prop :=
  ∀ reply ∈ t.replies, reply ∈ s.replies ∨ ∃ answer, reply = .done answer

theorem Answered.ask (answered : Answered s t) {event : Event 1} {answer : Answer}
    (told : (t.machine.step task event).1.reply = .done answer) : Answered s (t.ask task event) := by
  intro reply member
  rcases List.mem_append.mp member with before | last
  · exact answered reply before
  · exact .inr ⟨answer, (List.mem_singleton.mp last).trans told⟩

structure Served (s t : Service n) (past : List BlockId) (a : Access) : Prop where
  idle : t.machine.Idle
  recalls : ∃ order, t.machine.Recalls (past ++ [a.block]) order
  clock : t.machine.clock = (a.clock.getD s.machine.clock).read.2
  released : ∀ i, (t.machine.buffer i).released ≤ Clock.stamp (a.clock.getD s.machine.clock).now
  loads : t.loads = s.loads + if a.block ∈ (recent past).take n then 0 else 1
  answered : Answered s t

theorem setClock_reading {before : Machine n 1} {b : BlockId} {i : Fin n} {clock : Clock}
    (hand : Reading before t.machine task b i clock) (answered : Answered s t) (set : Option Clock) :
    Reading before (t.setClock task set).machine task b i (set.getD clock) ∧
      (t.setClock task set).loads = t.loads ∧ Answered s (t.setClock task set) := by
  cases set with
  | none => exact ⟨hand, rfl, answered⟩
  | some set =>
    obtain ⟨stepped, kept⟩ := reading_setClock hand set
    refine ⟨?_, ?_, answered.ask (by rw [stepped])⟩
    · simp only [setClock, ask, stepped]
      exact kept
    · rw [setClock, loads_ask, stepped]
      rfl

theorem access_served (idle : s.machine.Idle) (recalls : s.machine.Recalls past order)
    (positive : 0 < n) (task : TaskId) (a : Access)
    (later : ∀ i, (s.machine.buffer i).released <
      Clock.stamp (a.clock.getD s.machine.clock).now) : Served s (s.access task a) past a := by
  obtain ⟨i, info, bytes, told, hand, loads, blocks⟩ := read_idle idle recalls positive task a.block
  have begun : Answered s (s.ask task (.read 0 a.block "block")) :=
    Answered.ask (fun _ => .inl) told
  obtain ⟨set, counted, answered⟩ := setClock_reading (s := s)
    (t := s.ask task (.read 0 a.block "block")) hand begun a.clock
  obtain ⟨given, rest, accessed, clock, silent⟩ := reading_release set idle
  refine ⟨rest, ⟨_, recalls.accessed accessed later blocks⟩, clock, ?_, ?_, answered.ask given⟩
  · intro j
    by_cases same : j = i
    · subst same
      exact accessed.released ▸ UInt64.le_refl _
    · refine UInt64.le_of_lt ?_
      exact accessed.apart j same ▸ later j
  · rw [access_asks, loads_ask, silent, counted, loads_ask, loads]
    rfl

structure Rising (clock : Clock) (accesses : List Access) : Prop where
  rising : (clock.readings accesses).Pairwise (· < ·)
  bounded : ∀ t ∈ clock.readings accesses, t.toNat + 1 < UInt64.size

structure Caught (s t : Service n) (past : List BlockId) (accesses : List Access) : Prop where
  idle : t.machine.Idle
  recalls : ∃ order, t.machine.Recalls (past ++ accesses.map (·.block)) order
  loads : t.loads = s.loads + misses n past (accesses.map (·.block))
  answered : Answered s t

theorem serve_caught (positive : 0 < n) (task : TaskId) (accesses : List Access)
    (idle : s.machine.Idle) (recalls : s.machine.Recalls past order)
    (clock : Rising s.machine.clock accesses)
    (later : ∀ t ∈ s.machine.clock.readings accesses, ∀ i,
      (s.machine.buffer i).released < Clock.stamp t) :
    Caught s (s.serve task accesses) past accesses := by
  induction accesses generalizing s past order with
  | nil =>
    refine ⟨idle, ⟨order, ?_⟩, rfl, fun _ => .inl⟩
    rw [List.map_nil, List.append_nil]
    exact recalls
  | cons a rest ih =>
    have first := access_served idle recalls positive task a (later _ List.mem_cons_self)
    obtain ⟨order, recalls⟩ := first.recalls
    obtain ⟨earlier, rising⟩ := List.pairwise_cons.mp clock.rising
    have readings : (s.access task a).machine.clock.readings rest =
        (a.clock.getD s.machine.clock).read.2.readings rest := by
      rw [first.clock]
    have all := ih first.idle recalls
      ⟨readings ▸ rising, fun t member => clock.bounded t (List.mem_cons_of_mem _ (readings ▸ member))⟩
      (by
        intro t member i
        rw [readings] at member
        have bound := clock.bounded t (List.mem_cons_of_mem _ member)
        exact UInt64.lt_of_le_of_lt (first.released i) (Clock.stamp_lt (earlier t member) bound))
    refine ⟨all.idle, ?_, ?_, ?_⟩
    · obtain ⟨order, recalls⟩ := all.recalls
      refine ⟨order, ?_⟩
      rw [List.map_cons, List.append_cons]
      exact recalls
    · refine all.loads.trans ?_
      rw [first.loads, List.map_cons, misses, Nat.add_assoc]
    · intro reply member
      rcases all.answered reply member with before | done
      · exact first.answered reply before
      · exact .inr done

theorem start_caught {disk : Disk} (positive : 0 < n) (healthy : ∀ task b, disk.fails task b = false)
    (task : TaskId) {accesses : List Access} (clock : Rising .start accesses) :
    Caught (start n disk) ((start n disk).serve task accesses) [] accesses := by
  refine serve_caught positive task accesses (idle_start healthy) (recalls_start disk) clock ?_
  intro t member i
  rw [show ((start n disk).machine.buffer i).released = 0 from congrArg _ (buffer_start disk i),
    UInt64.lt_iff_toNat_lt, Clock.toNat_stamp (clock.bounded t member)]
  exact Nat.succ_pos _

theorem isCached_recalls {s : Machine n 1} (idle : s.Idle) (recalls : s.Recalls past order)
    (task : TaskId) (b : BlockId) :
    (s.step task (.isCached 0 b)).1.reply = .done (.flag (decide (b ∈ (recent past).take n))) := by
  obtain ⟨t, ran, _⟩ := s.opened.run_isCached task 0 b
  have known : (s.caches[(0 : Fin 1)].pool.find? b).isSome = decide (b ∈ (recent past).take n) := by
    rw [Bool.eq_iff_iff, Option.isSome_iff_exists, decide_eq_true_iff, ← recalls.blocks, List.mem_map]
    refine exists_congr fun i => ?_
    rw [Pool.find?_some _ idle.intact, Slot.holds_iff]
    exact and_congr (recalls.mapped i).symm Iff.rfl
  rw [step_awake (awake_nobody idle.asleep task), ← known]
  simp only [advance, ran]
  rfl

-- A cache that starts empty and has at least one buffer holds after any accesses the blocks accessed
-- last, and has loaded a block whenever it was none of those; so a larger one loads no more often.
theorem holds_most_recent {disk : Disk} (positive : 0 < n) (healthy : ∀ task b, disk.fails task b = false)
    (task : TaskId) (accesses : List Access) (clock : Rising .start accesses) :
    let blocks := accesses.map (·.block)
    let served := (start n disk).serve task accesses
    (∀ reply ∈ served.replies, ∃ answer, reply = .done answer) ∧
      (∀ b, (served.machine.step task (.isCached 0 b)).1.reply =
        .done (.flag (decide (b ∈ (recent blocks).take n)))) ∧
      ((recent blocks).take n).length = min n blocks.dedup.length ∧
      served.loads = misses n [] blocks ∧
      ∀ larger, n ≤ larger → ((start larger disk).serve task accesses).loads ≤ served.loads := by
  intro blocks served
  have caught := start_caught positive healthy task clock
  obtain ⟨order, recalls⟩ := caught.recalls
  have loads : served.loads = misses n [] blocks := caught.loads.trans (Nat.zero_add _)
  refine ⟨?_, isCached_recalls caught.idle recalls task, ?_, loads, ?_⟩
  · intro reply member
    rcases caught.answered reply member with before | done
    · cases before
    · exact done
  · rw [List.length_take, length_recent]
  · intro larger more
    have other := start_caught (Nat.lt_of_lt_of_le positive more) healthy task clock
    rw [loads, other.loads]
    exact (Nat.zero_add _).trans_le (misses_antitone more [] blocks)

def turns : List Access :=
  [⟨⟨1, 5⟩, none⟩, ⟨⟨1, 18⟩, none⟩, ⟨⟨1, 5⟩, some ⟨40, 3⟩⟩, ⟨⟨1, 31⟩, none⟩, ⟨⟨1, 18⟩, none⟩]

theorem turns_hold_most_recent : Rising .start turns ∧
    (let served := (start 2 .zeroed).serve ⟨1⟩ turns
     (∀ reply ∈ served.replies, ∃ answer, reply = .done answer) ∧
      (∀ b, (served.machine.step ⟨1⟩ (.isCached 0 b)).1.reply =
        .done (.flag (decide (b ∈ (recent (turns.map (·.block))).take 2)))) ∧
      ((recent (turns.map (·.block))).take 2).length = min 2 (turns.map (·.block)).dedup.length ∧
      served.loads = misses 2 [] (turns.map (·.block)) ∧
      ∀ larger, 2 ≤ larger → ((start larger .zeroed).serve ⟨1⟩ turns).loads ≤ served.loads) ∧
    (recent (turns.map (·.block))).take 2 = [⟨1, 18⟩, ⟨1, 31⟩] ∧
    ((start 2 .zeroed).serve ⟨1⟩ turns).loads = 4 := by
  have clock : Rising .start turns := by
    have bounded : (Clock.start.readings turns).all (fun t => t.toNat + 1 < UInt64.size) = true := by
      decide +kernel
    exact ⟨by decide +kernel, fun t member => of_decide_eq_true (List.all_eq_true.mp bounded t member)⟩
  have healthy : ∀ task b, Disk.zeroed.fails task b = false := fun _ _ => rfl
  have all := holds_most_recent (n := 2) (by decide) healthy ⟨1⟩ turns clock
  refine ⟨clock, all, by decide +kernel, ?_⟩
  rw [all.2.2.2.1]
  decide +kernel

end Service

end KernelResources.Buffer
