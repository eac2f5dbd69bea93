import KernelResources.Proofs.Buffer.Moves
import KernelResources.Proofs.Buffer.Unreleased

namespace KernelResources.Buffer

open Machine

variable {n m : Nat}

theorem spot_inj {p q : Place n m} : p.spot = q.spot ↔ p = q := by
  obtain ⟨c, i⟩ := p
  obtain ⟨d, j⟩ := q
  simp [Place.spot, Fin.ext_iff]

structure Booked (s : Machine n m) (l : Ledger m) : Prop where
  named : ∀ name, (s.held.find? name).map Place.spot = (l.grants.find? name).map Grant.spot
  pinned : ∀ name, (s.pins.find? name).map Place.spot = l.pins.find? name
  asked : ∀ task, (s.asleep.find? task).map SleepingCall.request = l.requests.find? task
  grantsDistinct : l.grants.keys.Nodup
  pinsDistinct : l.pins.keys.Nodup
  callsDistinct : s.asleep.keys.Nodup

theorem Booked.machine {s t : Machine n m} {l : Ledger m} (booked : Booked s l) (held : t.held = s.held)
    (pins : t.pins = s.pins) (asleep : t.asleep = s.asleep) : Booked t l := by
  obtain ⟨named, pinned, asked, grants, pinNames, calls⟩ := booked
  refine ⟨?_, ?_, ?_, grants, pinNames, ?_⟩
  · rw [held]
    exact named
  · rw [pins]
    exact pinned
  · rw [asleep]
    exact asked
  · rw [asleep]
    exact calls

namespace Stage

def references (x : Stage n m) (p : Place n m) : Nat :=
  Account.references ⟨x.machine, x.ledger⟩ p + x.hand.count p

def users (x : Stage n m) (p : Place n m) : Nat :=
  x.ledger.buffersAt p.spot + x.ledger.lostBuffersAt p.spot + x.locks.count p

-- Every reference and every lock has its owner, and no buffer in use leaves its block.
structure Accounted (x : Stage n m) : Prop where
  booked : Booked x.machine x.ledger
  balance : ∀ p, (x.machine.slot p).refs.toNat = x.references p
  exclusive : ∀ p, x.users p = if (x.machine.slot p).data.holder.isSome then 1 else 0
  fits : ∀ g ∈ x.ledger.unreleased, ∃ p : Place n m, p.spot = g.spot ∧ g.Fits (x.machine.slot p)
  waits : ∀ task call, x.machine.asleep.find? task = some call →
    (x.machine.slot call.place).holds call.block = true

variable {s t : Machine n m} {l l' : Ledger m} {hand locks hand' locks' : List (Place n m)}

theorem waits_change {p : Place n m} {slot : Slot}
    (waits : ∀ task call, s.asleep.find? task = some call →
      (s.slot call.place).holds call.block = true)
    (asleep : t.asleep = s.asleep) (slots : ∀ q, t.slot q = if q = p then slot else s.slot q)
    (kept : ∀ b, s.sleepersAt p ≠ 0 → (s.slot p).holds b = true → slot.holds b = true)
    (task : TaskId) (call : SleepingCall n m) (found : t.asleep.find? task = some call) :
    (t.slot call.place).holds call.block = true := by
  rw [asleep] at found
  have before := waits task call found
  rw [slots]
  split
  · rename_i here
    have some := Registry.tally_pos found (·.place)
    rw [here] at before some
    exact kept call.block (Nat.pos_iff_ne_zero.mp some) before
  · exact before

theorem Accounted.slot_change (accounted : Accounted ⟨s, l, hand, locks⟩) (p : Place n m) {slot : Slot}
    (held : t.held = s.held) (pins : t.pins = s.pins) (asleep : t.asleep = s.asleep)
    (slots : ∀ q, t.slot q = if q = p then slot else s.slot q)
    (elsewhere : ∀ q, q ≠ p → hand'.count q = hand.count q ∧ locks'.count q = locks.count q)
    (balance : slot.refs.toNat = Account.references ⟨s, l⟩ p + hand'.count p)
    (exclusive : l.buffersAt p.spot + l.lostBuffersAt p.spot + locks'.count p =
      if slot.data.holder.isSome then 1 else 0)
    (fits : ∀ g ∈ l.unreleased, g.spot = p.spot → g.Fits (s.slot p) → g.Fits slot)
    (waits : ∀ b, s.sleepersAt p ≠ 0 → (s.slot p).holds b = true → slot.holds b = true) :
    Accounted ⟨t, l, hand', locks'⟩ := by
  obtain ⟨booked, balanceS, exclusiveS, fitsS, waitsS⟩ := accounted
  refine ⟨booked.machine held pins asleep, ?_, ?_, ?_, ?_⟩
  · intro q
    have before := balanceS q
    simp only [references, Account.references, sleepersAt, asleep, slots] at before balance ⊢
    split
    · rename_i here
      subst here
      exact balance
    · rename_i apart
      rw [(elsewhere q apart).1]
      exact before
  · intro q
    have before := exclusiveS q
    simp only [users, slots] at before ⊢
    split
    · rename_i here
      subst here
      exact exclusive
    · rename_i apart
      rw [(elsewhere q apart).2]
      exact before
  · intro g member
    obtain ⟨q, spot, fit⟩ := fitsS g member
    refine ⟨q, spot, ?_⟩
    rw [slots]
    split
    · rename_i here
      subst here
      exact fits g member spot.symm fit
    · exact fit
  · exact waits_change waitsS asleep slots waits

theorem count_elsewhere {p q : Place n m} (apart : q ≠ p) (taken : List (Place n m)) :
    (p :: taken).count q = taken.count q := List.count_cons_of_ne (Ne.symm apart)

theorem Accounted.unused (accounted : Accounted ⟨s, l, hand, locks⟩) {p : Place n m}
    (unreferenced : (s.slot p).refs = 0) :
    Account.references ⟨s, l⟩ p = 0 ∧ hand.count p = 0 := by
  have balance := accounted.balance p
  simp only [references, unreferenced] at balance
  exact Nat.add_eq_zero_iff.mp balance.symm

theorem Accounted.refer (accounted : Accounted ⟨s, l, hand, locks⟩) {p : Place n m}
    (room : Account.references ⟨s, l⟩ p + hand.count p + 1 < UInt32.size) :
    Accounted ⟨s.updateSlot p .refer, l, p :: hand, locks⟩ := by
  refine accounted.slot_change p rfl rfl rfl (s.slot_updateSlot p · _) ?_ ?_ (accounted.exclusive p)
    (fun _ _ _ fit => ⟨fit.holds, fit.locked, fit.bytes, fit.valid⟩) (fun _ _ holds => holds)
  · intro q apart
    exact ⟨count_elsewhere apart hand, rfl⟩
  · have before := accounted.balance p
    simp only [references] at before
    have grown : ((s.slot p).refs + 1).toNat = (s.slot p).refs.toNat + 1 := by
      rw [UInt32.toNat_add]
      exact Nat.mod_eq_of_lt (by rw [before]; exact room)
    rw [List.count_cons_self, ← Nat.add_assoc, ← before]
    exact grown

theorem Accounted.recycle (accounted : Accounted ⟨s, l, hand, locks⟩) {p : Place n m} (b : BlockId)
    (unreferenced : (s.slot p).refs = 0) : Accounted ⟨s.recycle p b, l, p :: hand, locks⟩ := by
  obtain ⟨references, inHand⟩ := accounted.unused unreferenced
  refine accounted.slot_change p rfl rfl rfl (s.slot_recycle p · b) ?_ ?_ (accounted.exclusive p) ?_ ?_
  · intro q apart
    exact ⟨count_elsewhere apart hand, rfl⟩
  · rw [List.count_cons_self, references, inHand]
    rfl
  · -- Who has the buffer out, or sleeps on it, would have a reference.
    intro g member spot _
    have out := Ledger.unreleased_pos member
    rw [spot] at out
    simp only [Account.references, Ledger.leakedAt] at references
    omega
  · intro c waiting
    simp only [Account.references] at references
    omega

theorem Accounted.unrefer (accounted : Accounted ⟨s, l, p :: hand, locks⟩) (released : UInt64 → UInt64) :
    Accounted ⟨s.updateSlot p fun slot => { slot.unrefer with released := released slot.released }, l,
      hand, locks⟩ := by
  refine accounted.slot_change p rfl rfl rfl (s.slot_updateSlot p · _) ?_ ?_ (accounted.exclusive p)
    (fun _ _ _ fit => ⟨fit.holds, fit.locked, fit.bytes, fit.valid⟩) (fun _ _ holds => holds)
  · intro q apart
    exact ⟨(count_elsewhere apart hand).symm, rfl⟩
  · have before := accounted.balance p
    simp only [references, List.count_cons_self] at before
    have one : 1 ≤ (s.slot p).refs := by
      rw [UInt32.le_iff_toNat_le, before]
      exact Nat.le_add_left 1 _
    have shrunk : ((s.slot p).refs - 1).toNat = (s.slot p).refs.toNat - 1 :=
      UInt32.toNat_sub_of_le _ _ one
    rw [before] at shrunk
    exact shrunk

theorem holder_enter (lock : SleepLock Block) (task : TaskId) :
    (lock.enter task).2.holder = lock.holder.or (some task) ∧ (lock.enter task).2.data = lock.data := by
  unfold SleepLock.enter SleepLock.tryLock
  cases holder : lock.holder <;> simp [holder]

theorem Accounted.enter (accounted : Accounted ⟨s, l, hand, locks⟩) {p : Place n m} {task : TaskId}
    (elsewhere : ∀ q, q ≠ p → locks'.count q = locks.count q)
    (taken : locks'.count p = locks.count p + if (s.slot p).data.holder.isNone then 1 else 0) :
    Accounted ⟨s.updateSlot p (.enter task), l, hand, locks'⟩ := by
  obtain ⟨holder, data⟩ := holder_enter (s.slot p).data task
  refine accounted.slot_change p rfl rfl rfl (s.slot_updateSlot p · _)
    (fun q apart => ⟨rfl, elsewhere q apart⟩) (accounted.balance p) ?_ ?_ (fun _ _ holds => holds)
  · have before := accounted.exclusive p
    simp only [users] at before
    simp only [Slot.enter, holder, taken]
    cases held : (s.slot p).data.holder <;> simp [held] at before ⊢ <;> omega
  · intro g _ _ fit
    refine ⟨fit.holds, ?_, data.trans fit.bytes, fit.valid⟩
    rw [Slot.enter, holder, fit.locked]
    rfl

theorem Accounted.wake (accounted : Accounted ⟨s, l, hand, locks⟩) (p : Place n m) :
    Accounted ⟨s.updateSlot p fun slot => { slot with data := slot.data.wake.2 }, l, hand, locks⟩ :=
  accounted.slot_change p rfl rfl rfl (s.slot_updateSlot p · _) (fun _ _ => ⟨rfl, rfl⟩)
    (accounted.balance p) (accounted.exclusive p)
    (fun _ _ _ fit => ⟨fit.holds, fit.locked, fit.bytes, fit.valid⟩) (fun _ _ holds => holds)

theorem Accounted.sole (accounted : Accounted ⟨s, l, hand, p :: locks⟩) :
    locks.count p = 0 ∧ ∀ g ∈ l.unreleased, g.spot ≠ p.spot := by
  have before := accounted.exclusive p
  simp only [users, List.count_cons_self] at before
  have one : (if (s.slot p).data.holder.isSome then 1 else 0) ≤ 1 := by split <;> decide
  refine ⟨by omega, ?_⟩
  intro g member spot
  have out := Ledger.unreleased_pos member
  rw [spot] at out
  omega

theorem Accounted.unlock (accounted : Accounted ⟨s, l, hand, p :: locks⟩) :
    Accounted ⟨s.updateSlot p .unlock, l, hand, locks⟩ := by
  obtain ⟨_, nobody⟩ := accounted.sole
  refine accounted.slot_change p rfl rfl rfl (s.slot_updateSlot p · _) ?_ (accounted.balance p) ?_
    (fun g member spot => absurd spot (nobody g member)) (fun _ _ holds => holds)
  · intro q apart
    exact ⟨rfl, (count_elsewhere apart locks).symm⟩
  · have before := accounted.exclusive p
    simp only [users, List.count_cons_self] at before
    have one : (if (s.slot p).data.holder.isSome then 1 else 0) ≤ 1 := by split <;> decide
    show _ = 0
    omega

theorem Accounted.load (accounted : Accounted ⟨s, l, hand, p :: locks⟩) (bytes : Block) :
    Accounted ⟨s.updateSlot p (.load bytes), l, hand, p :: locks⟩ := by
  obtain ⟨_, nobody⟩ := accounted.sole
  exact accounted.slot_change p rfl rfl rfl (s.slot_updateSlot p · _) (fun _ _ => ⟨rfl, rfl⟩)
    (accounted.balance p) (accounted.exclusive p)
    (fun g member spot => absurd spot (nobody g member)) (fun _ _ holds => holds)

theorem Accounted.rebook (accounted : Accounted ⟨s, l, hand, locks⟩)
    (slots : ∀ q, t.slot q = s.slot q) (booked : Booked t l')
    (references : ∀ q, Stage.references ⟨t, l', hand', locks'⟩ q = Stage.references ⟨s, l, hand, locks⟩ q)
    (users : ∀ q, Stage.users ⟨t, l', hand', locks'⟩ q = Stage.users ⟨s, l, hand, locks⟩ q)
    (out : ∀ g ∈ l'.unreleased, g ∈ l.unreleased ∨
      ∃ p : Place n m, p.spot = g.spot ∧ g.Fits (s.slot p))
    (calls : ∀ task call, t.asleep.find? task = some call →
      s.asleep.find? task = some call ∨ (s.slot call.place).holds call.block = true) :
    Accounted ⟨t, l', hand', locks'⟩ := by
  refine ⟨booked, ?_, ?_, ?_, ?_⟩
  · intro q
    rw [slots, references]
    exact accounted.balance q
  · intro q
    rw [slots, users]
    exact accounted.exclusive q
  · intro g member
    simp only [slots]
    rcases out g member with old | new
    · exact accounted.fits g old
    · exact new
  · intro task call found
    rw [slots]
    rcases calls task call found with old | new
    · exact accounted.waits task call old
    · exact new

theorem Accounted.still (accounted : Accounted ⟨s, l, hand, locks⟩) (same : s.Still t) :
    Accounted ⟨t, l, hand, locks⟩ := by
  refine accounted.rebook same.slot
    (accounted.booked.machine same.held.symm same.pins.symm same.asleep.symm) ?_ (fun _ => rfl)
    (fun _ member => .inl member) ?_
  · intro q
    rw [references, references, Account.references, Account.references, sleepersAt, sleepersAt,
      same.asleep]
  · intro task call found
    rw [← same.asleep] at found
    exact .inl found

theorem Accounted.granted (accounted : Accounted ⟨s, l, hand, locks⟩) {name : String} {p : Place n m}
    (found : s.held.find? name = some p) :
    ∃ g, l.grants.find? name = some g ∧ g.spot = p.spot ∧ g.Fits (s.slot p) := by
  have known := accounted.booked.named name
  dsimp only at known
  rw [found] at known
  obtain ⟨g, grant, spot⟩ := Option.map_eq_some_iff.mp known.symm
  obtain ⟨q, spotQ, fit⟩ := accounted.fits g (Ledger.named_unreleased grant)
  rw [spot, spot_inj] at spotQ
  exact ⟨g, grant, spot, spotQ ▸ fit⟩

theorem Accounted.once (accounted : Accounted ⟨s, l, hand, locks⟩) (p : Place n m) :
    l.buffersAt p.spot + l.lostBuffersAt p.spot + locks.count p ≤ 1 := by
  have exclusive := accounted.exclusive p
  simp only [users] at exclusive
  rw [exclusive]
  split <;> decide

theorem Accounted.revise (accounted : Accounted ⟨s, l, hand, locks⟩) {name : String} {p : Place n m}
    (found : s.held.find? name = some p) {f : Grant m → Grant m} {slot : Slot}
    (held : t.held = s.held) (pins : t.pins = s.pins) (asleep : t.asleep = s.asleep)
    (slots : ∀ q, t.slot q = if q = p then slot else s.slot q)
    (refs : slot.refs = (s.slot p).refs) (holder : slot.data.holder = (s.slot p).data.holder)
    (tag : slot.SameTag (s.slot p)) (spot : ∀ g, (f g).spot = g.spot)
    (fits : ∀ g, g.Fits (s.slot p) → (f g).Fits slot) :
    Accounted ⟨t, l.revise name f, hand, locks⟩ := by
  obtain ⟨h, grant, spotH, fitH⟩ := accounted.granted found
  have once := accounted.once p
  obtain ⟨⟨named, pinned, asked, grants, pinNames, calls⟩, balance, exclusive, fitsS, waits⟩ := accounted
  have buffers : ∀ place, (l.revise name f).buffersAt place = l.buffersAt place :=
    fun place => Registry.tally_update l.grants name f _ place spot
  refine ⟨⟨?_, ?_, ?_, ?_, pinNames, ?_⟩, ?_, ?_, ?_, ?_⟩
  · intro other
    dsimp only [Ledger.revise]
    rw [held, named, Registry.find?_update]
    split
    · cases l.grants.find? other <;> simp [spot]
    · rfl
  · rw [pins]
    exact pinned
  · rw [asleep]
    exact asked
  · dsimp only [Ledger.revise]
    rw [Registry.keys_update]
    exact grants
  · rw [asleep]
    exact calls
  · intro q
    have before := balance q
    simp only [references, Account.references, sleepersAt, asleep, buffers, slots] at before ⊢
    split
    · rename_i here
      rw [refs, ← here]
      exact before
    · exact before
  · intro q
    have before := exclusive q
    simp only [users, buffers, slots] at before ⊢
    split
    · rename_i here
      subst here
      rw [holder]
      exact before
    · exact before
  · -- At the place itself only one buffer can be out, so it is the one that changed.
    intro g member
    by_cases here : g.spot = p.spot
    · have bound : (l.revise name f).buffersAt p.spot + (l.revise name f).lostBuffersAt p.spot ≤ 1 := by
        rw [buffers]
        exact le_trans (Nat.le_add_right _ _) once
      have same : g = f h := Ledger.unreleased_singular bound member
        (Ledger.revise_unreleased grant f) here ((spot h).trans spotH)
      refine ⟨p, here.symm, ?_⟩
      rw [slots, if_pos rfl, same]
      exact fits h fitH
    · rcases Ledger.unreleased_revise grants member with old | ⟨k, known, rfl⟩
      · obtain ⟨q, spotQ, fit⟩ := fitsS g old
        refine ⟨q, spotQ, ?_⟩
        have apart : q ≠ p := fun same => here (spotQ.symm.trans (congrArg _ same))
        rw [slots, if_neg apart]
        exact fit
      · rw [grant] at known
        cases known
        exact absurd ((spot h).trans spotH) here
  · apply waits_change waits asleep slots
    intro b _ holds
    rw [Slot.holds, tag.1, tag.2]
    exact holds

theorem count_hand (p q : Place n m) (taken : List (Place n m)) :
    (p :: taken).count q = taken.count q + if p.spot = q.spot then 1 else 0 := by
  simp [List.count_cons, spot_inj]

theorem references_counts (q : Place n m) :
    Stage.references ⟨s, l, hand, locks⟩ q =
      l.grants.tally (·.spot) q.spot + l.pins.tally id q.spot + s.asleep.tally (·.place) q
        + l.lostBuffers.countP (·.spot = q.spot) + l.lostPins.count q.spot + hand.count q := by
  simp only [references, Account.references, Ledger.buffersAt, Ledger.pinsAt, sleepersAt,
    Ledger.leakedAt, Ledger.lostBuffersAt]
  omega

theorem users_counts (q : Place n m) :
    Stage.users ⟨s, l, hand, locks⟩ q = l.grants.tally (·.spot) q.spot
      + l.lostBuffers.countP (·.spot = q.spot) + locks.count q := rfl

theorem Accounted.grant (accounted : Accounted ⟨s, l, p :: hand, p :: locks⟩) {name : String}
    {g : Grant m} (spot : g.spot = p.spot) (fits : g.Fits (s.slot p))
    (fresh : l.grants.find? name = none) :
    Accounted ⟨{ s with held := s.held.put name p }, { l with grants := l.grants.put name g }, hand,
      locks⟩ := by
  obtain ⟨named, pinned, asked, grants, pinNames, calls⟩ := accounted.booked
  refine accounted.rebook (fun _ => rfl)
    ⟨?_, pinned, asked, Registry.nodup_put grants name g, pinNames, calls⟩ ?_ ?_ ?_
    (fun _ _ found => .inl found)
  · intro other
    dsimp only
    rw [Registry.find?_put, Registry.find?_put]
    split
    · simp [spot]
    · exact named other
  · intro q
    simp only [references_counts, count_hand, Registry.tally_put, Registry.erase_absent fresh, spot]
    omega
  · intro q
    simp only [users_counts, count_hand, Registry.tally_put, Registry.erase_absent fresh, spot]
    omega
  · intro h member
    rcases Ledger.unreleased_put member with rfl | old
    · exact .inr ⟨p, spot.symm, fits⟩
    · exact .inl old

theorem Accounted.giveBack (accounted : Accounted ⟨s, l, hand, locks⟩) {name : String} {p : Place n m}
    (found : s.held.find? name = some p) :
    Accounted ⟨{ s with held := s.held.erase name }, { l with grants := l.grants.erase name },
      p :: hand, p :: locks⟩ := by
  obtain ⟨g, grant, spot, _⟩ := accounted.granted found
  obtain ⟨named, pinned, asked, grants, pinNames, calls⟩ := accounted.booked
  refine accounted.rebook (fun _ => rfl)
    ⟨?_, pinned, asked, Registry.nodup_erase grants name, pinNames, calls⟩ ?_ ?_
    (fun _ member => .inl (Ledger.unreleased_erase member)) (fun _ _ found => .inl found)
  · intro other
    dsimp only
    rw [Registry.find?_erase, Registry.find?_erase]
    split
    · rfl
    · exact named other
  · intro q
    simp only [references_counts, count_hand, Registry.tally_erase grants grant, spot]
    omega
  · intro q
    simp only [users_counts, count_hand, Registry.tally_erase grants grant, spot]
    omega

theorem Accounted.lose (accounted : Accounted ⟨s, l, hand, locks⟩) (name : String) :
    Accounted ⟨{ s with held := s.held.erase name }, l.lose name, hand, locks⟩ := by
  obtain ⟨named, pinned, asked, grants, pinNames, calls⟩ := accounted.booked
  have members := l.mem_lose name grants
  cases grant : l.grants.find? name with
  | none =>
    have unheld : s.held.find? name = none := by
      have known := named name
      dsimp only at known
      rw [grant] at known
      exact Option.map_eq_none_iff.mp known
    rw [Registry.erase_absent unheld, Ledger.lose, grant]
    exact accounted
  | some g =>
    rw [Ledger.lose, grant] at members ⊢
    refine accounted.rebook (fun _ => rfl)
      ⟨?_, pinned, asked, Registry.nodup_erase grants name, pinNames, calls⟩ ?_ ?_
      (fun h member => .inl ((members h).mp member)) (fun _ _ found => .inl found)
    · intro other
      dsimp only
      rw [Registry.find?_erase, Registry.find?_erase]
      split
      · rfl
      · exact named other
    · intro q
      simp only [references_counts, List.countP_cons, decide_eq_true_eq,
        Registry.tally_erase grants grant]
      omega
    · intro q
      simp only [users_counts, List.countP_cons, decide_eq_true_eq, Registry.tally_erase grants grant]
      omega

theorem Accounted.pin (accounted : Accounted ⟨s, l, p :: hand, locks⟩) {pinName : String}
    (fresh : l.pins.find? pinName = none) :
    Accounted ⟨{ s with pins := s.pins.put pinName p },
      { l with pins := l.pins.put pinName p.spot }, hand, locks⟩ := by
  obtain ⟨named, pinned, asked, grants, pinNames, calls⟩ := accounted.booked
  refine accounted.rebook (fun _ => rfl)
    ⟨named, ?_, asked, grants, Registry.nodup_put pinNames pinName _, calls⟩ ?_ (fun _ => rfl)
    (fun _ member => .inl member) (fun _ _ found => .inl found)
  · intro other
    dsimp only
    rw [Registry.find?_put, Registry.find?_put]
    split
    · rfl
    · exact pinned other
  · intro q
    simp only [references_counts, count_hand, Registry.tally_put, Registry.erase_absent fresh, id_eq]
    omega

theorem Accounted.unpin (accounted : Accounted ⟨s, l, hand, locks⟩) {pinName : String} {p : Place n m}
    (found : s.pins.find? pinName = some p) :
    Accounted ⟨{ s with pins := s.pins.erase pinName }, { l with pins := l.pins.erase pinName },
      p :: hand, locks⟩ := by
  obtain ⟨named, pinned, asked, grants, pinNames, calls⟩ := accounted.booked
  have known : l.pins.find? pinName = some p.spot := by
    have same := pinned pinName
    dsimp only at same
    rw [found] at same
    exact same.symm
  refine accounted.rebook (fun _ => rfl)
    ⟨named, ?_, asked, grants, Registry.nodup_erase pinNames pinName, calls⟩ ?_ (fun _ => rfl)
    (fun _ member => .inl member) (fun _ _ found => .inl found)
  · intro other
    dsimp only
    rw [Registry.find?_erase, Registry.find?_erase]
    split
    · rfl
    · exact pinned other
  · intro q
    simp only [references_counts, count_hand, Registry.tally_erase pinNames known, id_eq]
    omega

theorem Accounted.losePin (accounted : Accounted ⟨s, l, hand, locks⟩) (pinName : String) :
    Accounted ⟨{ s with pins := s.pins.erase pinName }, l.losePin pinName, hand, locks⟩ := by
  have same := accounted.booked.pinned pinName
  dsimp only at same
  cases known : l.pins.find? pinName with
  | none =>
    rw [known] at same
    rw [Registry.erase_absent (Option.map_eq_none_iff.mp same), Ledger.losePin, known]
    exact accounted
  | some spot =>
    rw [known] at same
    obtain ⟨p, found, rfl⟩ := Option.map_eq_some_iff.mp same
    have taken := accounted.unpin found
    obtain ⟨named, pinned, asked, grants, pinNames, calls⟩ := taken.booked
    rw [Ledger.losePin, known]
    refine taken.rebook (fun _ => rfl) ⟨named, pinned, asked, grants, pinNames, calls⟩ ?_
      (fun _ => rfl) (fun _ member => .inl member) (fun _ _ found => .inl found)
    intro q
    simp only [references_counts, List.count_cons, beq_iff_eq, spot_inj]
    omega

theorem Accounted.sleep {call : SleepingCall n m}
    (accounted : Accounted ⟨s, l, call.place :: hand, locks⟩) {task : TaskId}
    (holds : (s.slot call.place).holds call.block = true) (awake : s.asleep.find? task = none) :
    Accounted ⟨{ s with asleep := s.asleep.put task call },
      { l with requests := l.requests.put task call.request }, hand, locks⟩ := by
  obtain ⟨named, pinned, asked, grants, pinNames, calls⟩ := accounted.booked
  refine accounted.rebook (fun _ => rfl)
    ⟨named, pinned, ?_, grants, pinNames, Registry.nodup_put calls task call⟩ ?_ (fun _ => rfl)
    (fun _ member => .inl member) ?_
  · intro other
    dsimp only
    rw [Registry.find?_put, Registry.find?_put]
    split
    · rfl
    · exact asked other
  · intro q
    simp only [references_counts, count_hand, spot_inj, Registry.tally_put, Registry.erase_absent awake]
    omega
  · intro other slept found
    dsimp only at found
    rw [Registry.find?_put] at found
    split at found
    · cases found
      exact .inr holds
    · exact .inl found

theorem Accounted.rouse (accounted : Accounted ⟨s, l, hand, locks⟩) {task : TaskId}
    {call : SleepingCall n m} (found : s.asleep.find? task = some call) :
    Accounted ⟨{ s with asleep := s.asleep.erase task },
      { l with requests := l.requests.erase task }, call.place :: hand, locks⟩ := by
  obtain ⟨named, pinned, asked, grants, pinNames, calls⟩ := accounted.booked
  refine accounted.rebook (fun _ => rfl)
    ⟨named, pinned, ?_, grants, pinNames, Registry.nodup_erase calls task⟩ ?_ (fun _ => rfl)
    (fun _ member => .inl member) ?_
  · intro other
    dsimp only
    rw [Registry.find?_erase, Registry.find?_erase]
    split
    · rfl
    · exact asked other
  · intro q
    simp only [references_counts, count_hand, spot_inj, Registry.tally_erase calls found]
    omega
  · intro other slept still
    dsimp only at still
    rw [Registry.find?_erase] at still
    split at still
    · cases still
    · exact .inl still

theorem Accounted.write (accounted : Accounted ⟨s, l, hand, locks⟩) {name : String} {p : Place n m}
    (found : s.held.find? name = some p) : Accounted ⟨s.store p, l.write name, hand, locks⟩ := by
  obtain ⟨g, grant, _, _⟩ := accounted.granted found
  have slots : ∀ q, (s.store p).slot q = if q = p then s.slot p else s.slot q := by
    intro q
    rw [slot_store]
    split
    · rename_i here
      rw [here]
    · rfl
  have revised : Accounted
      ⟨s.store p, l.revise name fun grant => { grant with edited := false }, hand, locks⟩ :=
    accounted.revise found rfl rfl rfl slots rfl rfl ⟨rfl, rfl⟩ (fun _ => rfl)
      (fun _ fit => ⟨fit.holds, fit.locked, fit.bytes, fit.valid⟩)
  obtain ⟨⟨named, pinned, asked, grants, pinNames, calls⟩, balance, exclusive, fits, waits⟩ := revised
  rw [Ledger.write, grant]
  exact ⟨⟨named, pinned, asked, grants, pinNames, calls⟩, balance, exclusive, fits, waits⟩

variable {fair : Grant m → Prop} {x y : Stage n m}

theorem move_accounted (move : Move fair x y) (accounted : Accounted x) : Accounted y := by
  cases move with
  | still same => exact accounted.still same
  | refer p room => exact accounted.refer room
  | recycle p b _ unreferenced => exact accounted.recycle b unreferenced
  | unrefer p released => exact accounted.unrefer released
  | lock p task free =>
    refine accounted.enter (fun q apart => count_elsewhere apart _) ?_
    rw [List.count_cons_self, free]
    rfl
  | queue p task taken =>
    refine accounted.enter (fun _ _ => rfl) ?_
    rw [Option.isNone_eq_false_iff.mpr (Option.isSome_iff_ne_none.mpr taken)]
    rfl
  | wake p => exact accounted.wake p
  | unlock p => exact accounted.unlock
  | load p b _ => exact accounted.load _
  | write name p found _ => exact accounted.write found
  | grant name p g spot fits _ fresh => exact accounted.grant spot fits fresh
  | edit name p f found =>
    exact accounted.revise found rfl rfl rfl (slot_updateSlot _ p · _) rfl rfl ⟨rfl, rfl⟩ (fun _ => rfl)
      (fun _ fit => ⟨fit.holds, fit.locked, congrArg f fit.bytes, fit.valid⟩)
  | giveBack name p g found _ _ => exact accounted.giveBack found
  | lose name => exact accounted.lose name
  | pin pinName p fresh => exact accounted.pin fresh
  | unpin pinName p found => exact accounted.unpin found
  | losePin pinName => exact accounted.losePin pinName
  | sleep task call holds awake => exact accounted.sleep holds awake
  | rouse task call found => exact accounted.rouse found

theorem moves_accounted (moves : Moves fair x y) (accounted : Accounted x) : Accounted y := by
  induction moves with
  | refl => exact accounted
  | step _ move ih => exact move_accounted move ih

end Stage

end KernelResources.Buffer
