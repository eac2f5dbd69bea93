import KernelResources.Proofs.Buffer.References

namespace KernelResources.Buffer

open Machine Stage

variable {n m : Nat}

namespace Account

variable {a z : Account n m} {task : TaskId} {event : Event m}

theorem next_tag (regular : event.Regular) {p : Place n m} (referenced : (a.machine.slot p).refs ≠ 0) :
    (a.machine.slot p).SameTag ((a.next task event).machine.slot p) := by
  rcases next_tags regular with same | ⟨c, b, i, chosen, same⟩
  · exact same p
  · have unreferenced : (a.machine.slot ⟨c, i⟩).refs = 0 := Pool.refs_leastRecentlyReleased chosen
    have apart : p ≠ ⟨c, i⟩ := fun here => referenced (here ▸ unreferenced)
    have tag := same p
    rw [slot_recycle, if_neg apart] at tag
    exact tag

theorem answers_granted (sound : Sound a) (orderly : Orderly a task event) {who : TaskId}
    {request : Request m} {info : BufferInfo} {bytes : Block}
    (answers : Answers a task event who request info bytes) :
    request.granted who info.index bytes ∈ (a.next task event).ledger.unreleased := by
  obtain ⟨_, distinct, told, _⟩ := sound_proceeds sound orderly
  have own : ∀ request, a.ledger.note task event (a.machine.step task event).1.reply =
        a.ledger.hear task request (a.machine.step task event).1.reply →
      (a.machine.step task event).1.reply = .done (.buffer info bytes) →
      request.granted task info.index bytes ∈ (a.next task event).ledger.unreleased := by
    intro request noted reply
    apply Ledger.resume_keeps distinct
    rw [noted, reply]
    exact a.ledger.hear_grants info bytes
  cases answers with
  | read asked reply =>
    subst asked
    exact own _ rfl reply
  | acquire asked reply =>
    subst asked
    exact own _ rfl reply
  | woken member asked reply =>
    obtain ⟨_, other, known, granted⟩ := told _ member
    rw [asked] at known
    cases known
    exact granted info bytes reply

theorem next_keeps (sound : Sound a) (orderly : Orderly a task event) {g : Grant m}
    (member : g ∈ a.ledger.unreleased) :
    (∃ name answer, event = .release name ∧ (a.machine.step task event).1.reply = .done answer ∧
        a.ledger.grants.find? name = some g) ∨
      ∃ h ∈ (a.next task event).ledger.unreleased, g.Alike h := by
  have distinct := (sound_proceeds sound orderly).distinct
  rcases Ledger.note_keeps sound.accounted.booked.grantsDistinct member event with
    given | ⟨h, noted, alike⟩
  · exact .inl given
  · exact .inr ⟨h, Ledger.resume_keeps distinct noted, alike⟩

theorem same_place (sound : Sound a) {p q : Place n m} {b : BlockId} (cache : p.cache = q.cache)
    (holdsP : (a.machine.slot p).holds b = true) (holdsQ : (a.machine.slot q).holds b = true) :
    p = q := by
  obtain ⟨c, i⟩ := p
  obtain ⟨d, j⟩ := q
  dsimp only at cache
  subst cache
  obtain ⟨mappedP, blockP⟩ := (Slot.holds_iff ..).mp holdsP
  obtain ⟨mappedQ, blockQ⟩ := (Slot.holds_iff ..).mp holdsQ
  rw [(sound.intact c).distinct i j mappedP mappedQ (blockP.trans blockQ.symm)]

theorem spots_nodup (sound : Sound a) : (a.ledger.unreleased.map (·.spot)).Nodup := by
  apply List.nodup_iff_count_le_one.mpr
  intro spot
  by_cases out : spot ∈ a.ledger.unreleased.map (·.spot)
  · obtain ⟨g, member, rfl⟩ := List.mem_map.mp out
    obtain ⟨p, spot, _⟩ := sound.accounted.fits g member
    have once := sound.accounted.once p
    rw [spot, ← Ledger.count_unreleased] at once
    rw [List.count_eq_countP, List.countP_map]
    refine le_trans (le_of_eq (List.countP_congr ?_)) (le_trans (Nat.le_add_right _ _) once)
    intro h _
    simp
  · rw [List.count_eq_zero_of_not_mem out]
    exact Nat.zero_le 1

theorem blocks_nodup (sound : Sound a) :
    (a.ledger.unreleased.map fun g => (g.spot.cache, g.block)).Nodup := by
  refine List.Nodup.map_on ?_ (List.Nodup.of_map _ (spots_nodup sound))
  intro g member h other same
  obtain ⟨p, spotP, fitP⟩ := sound.accounted.fits g member
  obtain ⟨q, spotQ, fitQ⟩ := sound.accounted.fits h other
  obtain ⟨cache, block⟩ := Prod.mk.inj same
  have together : p.cache = q.cache := by
    rw [← spotP, ← spotQ] at cache
    exact cache
  have here : p = q := same_place sound together fitP.holds (block ▸ fitQ.holds)
  have spot : g.spot = h.spot := by rw [← spotP, ← spotQ, here]
  exact List.inj_on_of_nodup_map (spots_nodup sound) member other spot

def Referring (p : Place n m) : Rule n m :=
  fun a task event => Orderly a task event ∧ (a.machine.slot p).refs ≠ 0

theorem run_holds {p : Place n m} {b : BlockId} (path : Run (Referring p) a z)
    (holds : (a.machine.slot p).holds b = true) : (z.machine.slot p).holds b = true := by
  induction path with
  | refl => exact holds
  | step _ kept ih =>
    obtain ⟨⟨regular, _⟩, referenced⟩ := kept
    obtain ⟨mapped, block⟩ := next_tag regular referenced
    rw [Slot.holds, ← mapped, ← block]
    exact ih

theorem answers_place (sound : Sound a) (orderly : Orderly a task event) {who : TaskId}
    {request : Request m} {info : BufferInfo} {bytes : Block}
    (answers : Answers a task event who request info bytes) :
    ∃ p : Place n m, p.cache = request.cache ∧ p.slot.val = info.index ∧
      ((a.next task event).machine.slot p).holds request.block = true ∧
      ((a.next task event).machine.slot p).data.holder = some who := by
  have granted := answers_granted sound orderly answers
  obtain ⟨p, spot, fit⟩ := (next_sound sound orderly).accounted.fits _ granted
  obtain ⟨cache, index⟩ := Spot.mk.inj spot
  exact ⟨p, cache, index, fit.holds, fit.locked⟩

-- What is out carries the block that was asked for and is locked for the task that asked, and neither a
-- buffer nor a block is out twice.
structure Exclusive (a : Account n m) : Prop where
  carries : ∀ g ∈ a.ledger.unreleased, ∃ p : Place n m, p.spot = g.spot ∧
    (a.machine.slot p).holds g.block = true ∧ (a.machine.slot p).data.holder = some g.task
  onePerBuffer : (a.ledger.unreleased.map (·.spot)).Nodup
  onePerBlock : (a.ledger.unreleased.map fun g => (g.spot.cache, g.block)).Nodup

structure Respects (a : Account n m) (task : TaskId) (event : Event m) : Prop where
  tags : ∀ p : Place n m, (a.machine.slot p).refs ≠ 0 →
    ((a.next task event).machine.slot p).mapped = (a.machine.slot p).mapped ∧
    ((a.next task event).machine.slot p).block = (a.machine.slot p).block ∧
    ∀ bucket : Fin bucketCount,
      p.slot ∈ (a.next task event).machine.caches[p.cache].pool.buckets[bucket].members ↔
        p.slot ∈ a.machine.caches[p.cache].pool.buckets[bucket].members
  keeps : ∀ g ∈ a.ledger.unreleased,
    (∃ name answer, event = .release name ∧ (a.machine.step task event).1.reply = .done answer ∧
        a.ledger.grants.find? name = some g) ∨
      ∃ h ∈ (a.next task event).ledger.unreleased, g.Alike h
  woken : ∀ woken ∈ (a.machine.step task event).1.woken, ∃ request,
    (a.ledger.note task event (a.machine.step task event).1.reply).requests.find? woken.task =
      some request
  answered : ∀ who request info bytes, Answers a task event who request info bytes →
    request.granted who info.index bytes ∈ (a.next task event).ledger.unreleased ∧
    ∃ p : Place n m, p.cache = request.cache ∧ p.slot.val = info.index ∧
      ((a.next task event).machine.slot p).holds request.block = true ∧
      ((a.next task event).machine.slot p).data.holder = some who

-- As long as there are references on the buffer, all calls for its block wait for it or get it.
structure Shares (p : Place n m) (b : BlockId) (a : Account n m) : Prop where
  waits : ∀ task call, a.machine.asleep.find? task = some call → call.place.cache = p.cache →
    call.block = b → call.place = p
  gets : ∀ task event, Referring p a task event →
    ∀ who request info bytes, Answers a task event who request info bytes →
      request.cache = p.cache → request.block = b → info.index = p.slot.val

theorem exclusive (sound : Sound a) : Exclusive a := by
  refine ⟨?_, spots_nodup sound, blocks_nodup sound⟩
  intro g member
  obtain ⟨p, spot, fit⟩ := sound.accounted.fits g member
  exact ⟨p, spot, fit.holds, fit.locked⟩

theorem respects (sound : Sound a) (orderly : Orderly a task event) : Respects a task event := by
  have later := next_sound sound orderly
  refine ⟨?_, fun g => next_keeps sound orderly, ?_, ?_⟩
  · intro p referenced
    have tag : (a.machine.slot p).SameTag ((a.next task event).machine.slot p) :=
      next_tag orderly.1 referenced
    refine ⟨tag.1.symm, tag.2.symm, ?_⟩
    intro bucket
    rw [(later.intact p.cache).listed, (sound.intact p.cache).listed]
    exact iff_of_eq (congrArg (· = bucket) tag.home.symm)
  · intro woken member
    obtain ⟨_, request, known, _⟩ := (sound_proceeds sound orderly).told woken member
    exact ⟨request, known⟩
  · intro who request info bytes answers
    exact ⟨answers_granted sound orderly answers, answers_place sound orderly answers⟩

theorem shares (sound : Sound a) {p : Place n m} {b : BlockId}
    (holds : (a.machine.slot p).holds b = true) : Shares p b a := by
  refine ⟨?_, ?_⟩
  · intro task call found cache same
    exact same_place sound cache (same ▸ sound.accounted.waits task call found) holds
  · intro task event kept who request info bytes answers cache same
    obtain ⟨q, place, index, holdsQ, _⟩ := answers_place sound kept.1 answers
    have here := same_place (next_sound sound kept.1) (place.trans cache) (same ▸ holdsQ)
      (run_holds (Run.refl.step kept) holds)
    rw [← index, here]

-- Buffers in use keep their blocks, in every state that the tasks can bring about and whatever they do
-- next.
theorem buffers_in_use_keep_their_blocks {disks : Vector Disk m} {a : Account n m}
    (path : Run Orderly (start n disks) a) :
    Exclusive a ∧ (∀ task event, Orderly a task event → Respects a task event) ∧
      ∀ (p : Place n m) (b : BlockId), (a.machine.slot p).holds b = true →
        ∀ z, Run (Referring p) a z → Shares p b z := by
  have sound := run_sound path (sound_start disks)
  refine ⟨exclusive sound, fun task event => respects sound, ?_⟩
  intro p b holds z segment
  exact shares (run_sound (segment.weaken fun _ _ _ kept => kept.1) sound) (run_holds segment holds)

-- A task that slept gets the buffer that it slept on, and its block, from the one who releases it.
theorem buffers_in_use_keep_their_blocks_shared :
    let a := ((start 2 #v[.zeroed]).next ⟨1⟩ (.read 0 ⟨1, 5⟩ "a")).next ⟨2⟩ (.acquire 0 ⟨1, 5⟩ "b")
    let p : Place 2 1 := ⟨0, 0⟩
    Run Orderly (start 2 #v[.zeroed]) a ∧
      (a.machine.slot p).holds ⟨1, 5⟩ = true ∧ (a.machine.slot p).refs = 2 ∧
      Orderly a ⟨1⟩ (.release "a") ∧
      (a.machine.step ⟨1⟩ (.release "a")).1.woken.map (·.task) = [⟨2⟩] ∧
      Exclusive a ∧ Respects a ⟨1⟩ (.release "a") ∧ Shares p ⟨1, 5⟩ a := by
  have path : Run Orderly (start 2 #v[.zeroed]) (((start 2 #v[.zeroed]).next ⟨1⟩
      (.read 0 ⟨1, 5⟩ "a")).next ⟨2⟩ (.acquire 0 ⟨1, 5⟩ "b")) :=
    .step (.step .refl ⟨trivial, by decide +kernel⟩) ⟨trivial, by decide +kernel⟩
  have holds : ((((start 2 #v[.zeroed]).next ⟨1⟩ (.read 0 ⟨1, 5⟩ "a")).next ⟨2⟩
      (.acquire 0 ⟨1, 5⟩ "b")).machine.slot ⟨0, 0⟩).holds ⟨1, 5⟩ = true := by decide +kernel
  have orderly : Orderly (((start 2 #v[.zeroed]).next ⟨1⟩ (.read 0 ⟨1, 5⟩ "a")).next ⟨2⟩
      (.acquire 0 ⟨1, 5⟩ "b")) ⟨1⟩ (.release "a") := ⟨trivial, by decide +kernel⟩
  obtain ⟨exclusive, respects, shares⟩ := buffers_in_use_keep_their_blocks path
  exact ⟨path, holds, by decide +kernel, orderly, by decide +kernel, exclusive,
    respects _ _ orderly, shares _ _ holds _ .refl⟩

end Account

end KernelResources.Buffer
