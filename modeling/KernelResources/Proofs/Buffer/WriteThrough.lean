import KernelResources.Proofs.Buffer.Identity

namespace KernelResources.Buffer

open Machine Stage

variable {n m : Nat} {disks : Vector Disk m}

def Ledger.Unedited (l : Ledger m) (spot : Spot m) : Prop :=
  ∀ g ∈ l.unreleased, g.spot = spot → g.edited = false

namespace Stage

-- The disks are as the books have them, and the valid bytes that nobody has changed are the disk's.
structure Mirrors (disks : Vector Disk m) (x : Stage n m) : Prop where
  contents : ∀ c b, x.machine.caches[c].disk.content b = x.ledger.content disks c b
  clean : ∀ p b, (x.machine.slot p).holds b = true → (x.machine.slot p).valid = true →
    x.ledger.Unedited p.spot →
    (x.machine.slot p).data.data = x.machine.caches[p.cache].disk.content b

variable {s t : Machine n m} {l l' : Ledger m} {hand locks hand' locks' : List (Place n m)}
  {p : Place n m}

theorem Mirrors.slot_change (mirrors : Mirrors disks ⟨s, l, hand, locks⟩) (p : Place n m) {slot : Slot}
    (contents : ∀ c : Fin m, t.caches[c].disk = s.caches[c].disk)
    (slots : ∀ q, t.slot q = if q = p then slot else s.slot q)
    (clean : ∀ b, slot.holds b = true → slot.valid = true → l.Unedited p.spot →
      slot.data.data = s.caches[p.cache].disk.content b) :
    Mirrors disks ⟨t, l, hand', locks'⟩ := by
  refine ⟨?_, ?_⟩
  · intro c b
    dsimp only
    rw [contents]
    exact mirrors.contents c b
  · intro q b
    dsimp only
    rw [contents, slots]
    split
    · rename_i here
      rw [here]
      exact clean b
    · exact mirrors.clean q b

theorem Mirrors.same_bytes (mirrors : Mirrors disks ⟨s, l, hand, locks⟩) (p : Place n m)
    {f : Slot → Slot} (tag : (f (s.slot p)).SameTag (s.slot p))
    (valid : (f (s.slot p)).valid = (s.slot p).valid)
    (bytes : (f (s.slot p)).data.data = (s.slot p).data.data) :
    Mirrors disks ⟨s.updateSlot p f, l, hand', locks'⟩ := by
  apply mirrors.slot_change p (s.disk_updateSlot p · f) (s.slot_updateSlot p · f)
  intro b
  rw [Slot.holds, tag.1, tag.2, valid, bytes]
  exact mirrors.clean p b

theorem Mirrors.books (mirrors : Mirrors disks ⟨s, l, hand, locks⟩) (caches : t.caches = s.caches)
    (written : l'.written = l.written)
    (edited : ∀ g ∈ l.unreleased, g ∈ l'.unreleased ∨ g.edited = false) :
    Mirrors disks ⟨t, l', hand', locks'⟩ := by
  refine ⟨?_, ?_⟩
  · intro c b
    dsimp only
    rw [caches, Ledger.content, written]
    exact mirrors.contents c b
  · intro p b holds valid unedited
    simp only [Machine.slot, caches] at holds valid ⊢
    apply mirrors.clean p b holds valid
    intro g member spot
    rcases edited g member with still | unchanged
    · exact unedited g still spot
    · exact unchanged

theorem Mirrors.same_books (mirrors : Mirrors disks ⟨s, l, hand, locks⟩) (caches : t.caches = s.caches)
    (written : l'.written = l.written) (out : l'.unreleased = l.unreleased) :
    Mirrors disks ⟨t, l', hand', locks'⟩ :=
  mirrors.books caches written fun _ member => .inl (out ▸ member)

theorem Mirrors.edit (mirrors : Mirrors disks ⟨s, l, hand, locks⟩)
    (accounted : Accounted ⟨s, l, hand, locks⟩) {name : String} (f : Block → Block)
    (found : s.held.find? name = some p) :
    Mirrors disks ⟨s.edit p f, l.edit name f, hand, locks⟩ := by
  obtain ⟨g, known, spotG, _⟩ := accounted.granted found
  refine ⟨?_, ?_⟩
  · intro c b
    simp only [Machine.edit, disk_updateSlot]
    exact mirrors.contents c b
  · intro q b
    simp only [Machine.edit, disk_updateSlot, slot_updateSlot]
    intro holds valid unedited
    by_cases here : q = p
    · subst here
      cases unedited _ (Ledger.revise_unreleased known _) spotG
    · rw [if_neg here] at holds valid ⊢
      apply mirrors.clean q b holds valid
      intro h member spotH
      rcases Ledger.revise_keeps accounted.booked.grantsDistinct member _ with still | same
      · exact unedited h still spotH
      · rw [known] at same
        cases same
        exact absurd (spot_inj.mp (spotH.symm.trans spotG)) here

theorem Mirrors.write (mirrors : Mirrors disks ⟨s, l, hand, locks⟩)
    (accounted : Accounted ⟨s, l, hand, locks⟩) {name : String}
    (found : s.held.find? name = some p) (intact : s.caches[p.cache].pool.Intact) :
    Mirrors disks ⟨s.store p, l.write name, hand, locks⟩ := by
  obtain ⟨g, known, spotG, fit⟩ := accounted.granted found
  obtain ⟨mapped, block⟩ := (Slot.holds_iff ..).mp fit.holds
  have cache : g.spot.cache = p.cache := congrArg Spot.cache spotG
  refine ⟨?_, ?_⟩
  · intro c b
    have before := mirrors.contents c b
    dsimp only [Ledger.content] at before ⊢
    rw [content_store, block, fit.bytes, Ledger.write, known]
    dsimp only
    rw [Registry.find?_put, cache]
    by_cases here : p.cache = c ∧ b = g.block
    · obtain ⟨rfl, rfl⟩ := here
      simp
    · have other : ((c, b) == (p.cache, g.block)) = false := by
        apply beq_eq_false_iff_ne.mpr
        intro same
        obtain ⟨sameCache, sameBlock⟩ := Prod.mk.inj same
        exact here ⟨sameCache.symm, sameBlock⟩
      rw [if_neg here, other]
      exact before
  · intro q b
    dsimp only
    rw [slot_store, content_store]
    intro holds valid unedited
    obtain ⟨mappedQ, rfl⟩ := (Slot.holds_iff ..).mp holds
    -- No other buffer of the cache carries the block that was written.
    by_cases here : p.cache = q.cache ∧ (s.slot q).block = (s.slot p).block
    · obtain ⟨c, i⟩ := p
      obtain ⟨d, j⟩ := q
      obtain ⟨rfl, same⟩ := here
      rw [if_pos ⟨rfl, same⟩, intact.distinct j i mappedQ mapped same]
    · rw [if_neg here]
      apply mirrors.clean q _ holds valid
      intro h member spotH
      have written : (l.write name).unreleased =
          (l.revise name fun grant => { grant with edited := false }).unreleased := by
        rw [Ledger.write, known]
        rfl
      rcases Ledger.revise_keeps accounted.booked.grantsDistinct member
        (fun grant => { grant with edited := false }) with still | same
      · exact unedited h (written ▸ still) spotH
      · rw [known] at same
        cases same
        have together := spot_inj.mp (spotG.symm.trans spotH)
        exact absurd ⟨congrArg Place.cache together, by rw [together]⟩ here

variable {x y : Stage n m}

theorem move_mirrors (move : Move (·.edited = false) x y) (accounted : Accounted x)
    (mirrors : Mirrors disks x) : Mirrors disks y := by
  cases move with
  | still same =>
    refine ⟨?_, ?_⟩
    · intro c b
      dsimp only
      rw [← same.contents]
      exact mirrors.contents c b
    · intro p b
      dsimp only
      rw [same.slot, ← same.contents]
      exact mirrors.clean p b
  | refer p _ => exact mirrors.same_bytes p ⟨rfl, rfl⟩ rfl rfl
  | recycle p b _ _ =>
    refine mirrors.slot_change p (fun c => disk_recycle _ p c b) (fun q => slot_recycle _ p q b) ?_
    intro other _ valid
    cases valid
  | unrefer p _ => exact mirrors.same_bytes p ⟨rfl, rfl⟩ rfl rfl
  | lock p task _ => exact mirrors.same_bytes p ⟨rfl, rfl⟩ rfl (holder_enter _ task).2
  | queue p task _ => exact mirrors.same_bytes p ⟨rfl, rfl⟩ rfl (holder_enter _ task).2
  | wake p => exact mirrors.same_bytes p ⟨rfl, rfl⟩ rfl rfl
  | unlock p => exact mirrors.same_bytes p ⟨rfl, rfl⟩ rfl rfl
  | load p b holds =>
    apply mirrors.slot_change p (disk_updateSlot _ p · _) (slot_updateSlot _ p · _)
    intro other holdsOther _ _
    have same : b = other :=
      ((Slot.holds_iff ..).mp holds).2.symm.trans ((Slot.holds_iff ..).mp holdsOther).2
    rw [← same]
    rfl
  | write name p found intact => exact mirrors.write accounted found intact
  | grant name p g _ _ _ fresh =>
    refine mirrors.books rfl rfl ?_
    intro h member
    have kept := List.mem_cons_of_mem g member
    rw [Ledger.unreleased, Registry.put, Registry.erase_absent fresh]
    exact .inl kept
  | edit name p f found => exact mirrors.edit accounted f found
  | giveBack name p g _ known unedited =>
    refine mirrors.books rfl rfl ?_
    intro h member
    rcases Ledger.erase_keeps accounted.booked.grantsDistinct member name with still | same
    · exact .inl still
    · rw [known] at same
      cases same
      exact .inr unedited
  | lose name =>
    refine mirrors.books rfl ?_ fun g member =>
      .inl ((Ledger.mem_lose _ name accounted.booked.grantsDistinct g).mpr member)
    dsimp only [Ledger.lose]
    split <;> rfl
  | pin pinName p _ => exact mirrors.same_books rfl rfl rfl
  | unpin pinName p _ => exact mirrors.same_books rfl rfl rfl
  | losePin pinName =>
    refine mirrors.same_books rfl ?_ ?_ <;> dsimp only [Ledger.losePin] <;> split <;> rfl
  | sleep task call _ _ => exact mirrors.same_books rfl rfl rfl
  | rouse task call _ => exact mirrors.same_books rfl rfl rfl

theorem moves_mirrors (moves : Moves (·.edited = false) x y) (accounted : Accounted x)
    (mirrors : Mirrors disks x) : Mirrors disks y := by
  induction moves with
  | refl => exact mirrors
  | step before move ih => exact move_mirrors move (moves_accounted before accounted) ih

end Stage

namespace Account

variable {a b : Account n m} {task : TaskId} {event : Event m}

def WrittenBack : Rule n m := fun a task event =>
  Orderly a task event ∧ ∀ name g answer, event = .release name →
    a.ledger.grants.find? name = some g → (a.machine.step task event).1.reply = .done answer →
      g.edited = false

theorem mirrors_start (disks : Vector Disk m) :
    Mirrors (n := n) disks ⟨(start n disks).machine, (start n disks).ledger, [], []⟩ := by
  refine ⟨?_, ?_⟩
  · intro c b
    simp [start, Ledger.content, Ledger.empty, Registry.find?, Cache.start]
  · intro p b holds
    rw [slot_start] at holds
    cases holds

theorem next_mirrors (sound : Sound a) (written : WrittenBack a task event)
    (mirrors : Mirrors disks ⟨a.machine, a.ledger, [], []⟩) :
    Mirrors disks ⟨(a.next task event).machine, (a.next task event).ledger, [], []⟩ := by
  have proceeds := next_proceeds (·.edited = false) sound.accounted sound.intact written.1 written.2
  exact moves_mirrors proceeds.moves sound.accounted mirrors

theorem run_mirrors (path : Run WrittenBack a b) (sound : Sound a)
    (mirrors : Mirrors disks ⟨a.machine, a.ledger, [], []⟩) :
    Mirrors disks ⟨b.machine, b.ledger, [], []⟩ := by
  induction path with
  | refl => exact mirrors
  | step before written ih =>
    have between := run_sound (before.weaken fun _ _ _ kept => kept.1) sound
    exact next_mirrors between written ih

-- In every state that the tasks can bring about, if they take no buffer back that was not written: the
-- disks hold what was last written to each block, and so do the bytes of every call to read that the
-- next step answers.
theorem reads_return_the_last_write {a : Account n m} (path : Run WrittenBack (start n disks) a) :
    (∀ (c : Fin m) (b : BlockId),
      a.machine.caches[c].disk.content b = a.ledger.content disks c b) ∧
    ∀ task event, WrittenBack a task event →
      ∀ who request info bytes, Answers a task event who request info bytes →
        request.loads = true →
          bytes = (a.next task event).machine.caches[request.cache].disk.content request.block ∧
          bytes = (a.next task event).ledger.content disks request.cache request.block := by
  have sound := run_sound (path.weaken fun _ _ _ kept => kept.1) (sound_start disks)
  have mirrors := run_mirrors path (sound_start disks) (mirrors_start disks)
  refine ⟨mirrors.contents, ?_⟩
  intro task event written who request info bytes answers loads
  have later := next_mirrors sound written mirrors
  have next := next_sound sound written.1
  have granted := answers_granted sound written.1 answers
  obtain ⟨p, spot, fit⟩ := next.accounted.fits _ granted
  have unedited : (a.next task event).ledger.Unedited p.spot := by
    intro g member same
    rw [List.inj_on_of_nodup_map (spots_nodup next) member granted (same.trans spot)]
    rfl
  have clean := later.clean p request.block fit.holds (fit.valid loads) unedited
  have cache : p.cache = request.cache := congrArg Spot.cache spot
  have last : bytes = (a.next task event).ledger.content disks request.cache request.block := by
    rw [← cache]
    exact fit.bytes.symm.trans (clean.trans (later.contents p.cache request.block))
  exact ⟨last.trans (later.contents request.cache request.block).symm, last⟩

def handsOver : Reply → Bool
  | .done (.buffer ..) => true
  | _ => false

theorem handsOver_iff {reply : Reply} :
    handsOver reply = true ↔ ∃ info bytes, reply = .done (.buffer info bytes) := by
  unfold handsOver
  split <;> simp_all

-- A block is written, its only buffer goes to another block, and the block is read again.
theorem reads_return_the_last_write_evicted :
    let a := ((((((start 1 #v[.zeroed]).next ⟨1⟩ (.acquire 0 ⟨1, 5⟩ "a")).next ⟨1⟩ (.fill "a" 7)).next ⟨1⟩
      (.write "a")).next ⟨1⟩ (.release "a")).next ⟨2⟩ (.read 0 ⟨1, 6⟩ "b")).next ⟨2⟩ (.release "b")
    Run WrittenBack (start 1 #v[.zeroed]) a ∧
      (a.machine.slot ⟨0, 0⟩).block = ⟨1, 6⟩ ∧
      (a.ledger.content #v[.zeroed] 0 ⟨1, 5⟩).get ⟨0, by decide⟩ = 7 ∧
      WrittenBack a ⟨1⟩ (.read 0 ⟨1, 5⟩ "c") ∧
      ∃ info bytes, Answers a ⟨1⟩ (.read 0 ⟨1, 5⟩ "c") ⟨1⟩ ⟨0, ⟨1, 5⟩, true, "c"⟩ info bytes ∧
        bytes = (a.next ⟨1⟩ (.read 0 ⟨1, 5⟩ "c")).machine.caches[(0 : Fin 1)].disk.content ⟨1, 5⟩ := by
  have kept : ∀ {a : Account 1 1} {task : TaskId} {event : Event 1}, Orderly a task event →
      (∀ name, event = .release name →
        (a.ledger.grants.find? name).map (·.edited) = some false) → WrittenBack a task event := by
    intro a task event orderly unedited
    refine ⟨orderly, ?_⟩
    intro name g answer released found _
    have same := unedited name released
    rw [found] at same
    exact Option.some.inj same
  have path : Run WrittenBack (start 1 #v[.zeroed]) (((((((start 1 #v[.zeroed]).next ⟨1⟩
      (.acquire 0 ⟨1, 5⟩ "a")).next ⟨1⟩ (.fill "a" 7)).next ⟨1⟩ (.write "a")).next ⟨1⟩
      (.release "a")).next ⟨2⟩ (.read 0 ⟨1, 6⟩ "b")).next ⟨2⟩ (.release "b")) := by
    refine .step (.step (.step (.step (.step (.step .refl ?_) ?_) ?_) ?_) ?_) ?_ <;>
      refine kept ⟨trivial, by decide +kernel⟩ ?_ <;> rintro name ⟨⟩ <;> decide +kernel
  generalize last : (((((((start 1 #v[.zeroed]).next ⟨1⟩ (.acquire 0 ⟨1, 5⟩ "a")).next ⟨1⟩
      (.fill "a" 7)).next ⟨1⟩ (.write "a")).next ⟨1⟩ (.release "a")).next ⟨2⟩
      (.read 0 ⟨1, 6⟩ "b")).next ⟨2⟩ (.release "b")) = a at path ⊢
  have next : WrittenBack a ⟨1⟩ (.read 0 ⟨1, 5⟩ "c") := by
    subst last
    exact kept ⟨trivial, by decide +kernel⟩ (by rintro name ⟨⟩)
  have told : handsOver (a.machine.step ⟨1⟩ (.read 0 ⟨1, 5⟩ "c")).1.reply = true := by
    subst last
    decide +kernel
  obtain ⟨info, bytes, reply⟩ := handsOver_iff.mp told
  have answers := Answers.read (a := a) rfl reply
  refine ⟨path, ?_, ?_, next, info, bytes, answers,
    ((reads_return_the_last_write path).2 _ _ next _ _ _ _ answers rfl).1⟩
  · subst last
    decide +kernel
  · subst last
    decide +kernel

end Account

end KernelResources.Buffer
