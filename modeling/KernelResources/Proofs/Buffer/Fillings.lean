import KernelResources.Proofs.Buffer.Exchanges

namespace KernelResources.Buffer

open Machine

variable {n m : Nat}

structure Exchange.Fills (x : Exchange n m) (p : Place n m) (bytes : Block) : Prop where
  place : x.place = p
  loads : x.Loads
  invalid : x.slot.valid = false
  content : bytes = x.machine.caches[x.place.cache].disk.content x.transfer.block

namespace Machine

-- Part of a step: no buffer goes to another block or loses its bytes, and bytes change where one of the
-- transfers fills their buffer.
structure Fills (s : Machine n m) (xs : List (Exchange n m)) (t : Machine n m) : Prop where
  tags : ∀ p, (s.slot p).SameTag (t.slot p)
  valid : ∀ p, (s.slot p).valid = true → (t.slot p).valid = true
  bytes : ∀ p, t.bytesAt p = s.bytesAt p ∨ ∃ x ∈ xs, x.Fills p (t.bytesAt p)

variable {s t u : Machine n m} {xs ys : List (Exchange n m)}

theorem fills_contents (xs : List (Exchange n m)) (same : s.SameContents t) : Fills s xs t where
  tags := fun p => (same.slot p).tag
  valid := fun p valid => (same.slot p).valid ▸ valid
  bytes := fun p => .inl (same.slot p).bytes.symm

theorem Fills.trans (first : Fills s xs t) (second : Fills t ys u) : Fills s (xs ++ ys) u where
  tags := by
    intro p
    obtain ⟨mapped, block⟩ := first.tags p
    exact ⟨mapped.trans (second.tags p).1, block.trans (second.tags p).2⟩
  valid := fun p valid => second.valid p (first.valid p valid)
  bytes := by
    intro p
    rcases second.bytes p with same | ⟨x, member, fills⟩
    · rw [same]
      rcases first.bytes p with kept | ⟨x, member, fills⟩
      · exact .inl kept
      · exact .inr ⟨x, List.mem_append_left _ member, fills⟩
    · exact .inr ⟨x, List.mem_append_right _ member, fills⟩

theorem load_fills (s : Machine n m) (task : TaskId) (p : Place n m) (b : BlockId) :
    Fills s (s.made task p (Cache.loadOrRelease p.slot b))
      (s.run task p.cache (Cache.loadOrRelease p.slot b)).2 := by
  cases valid : (s.slot p).valid with
  | true =>
    obtain ⟨t, ran, agrees⟩ := s.run_load_valid task b valid
    rw [ran]
    exact fills_contents _ (contents_agrees agrees)
  | false =>
    cases fails : s.caches[p.cache].disk.fails task b with
    | true => exact fills_contents _ (contents_run s task p.cache (Cache.contents_load_fails valid fails))
    | false =>
      obtain ⟨t, ran, agrees⟩ := s.run_load_succeeds task valid fails
      rw [ran, made_load valid (Cache.load_succeeds (s.entry task p.cache) valid fails) rfl]
      have slots : ∀ q, t.slot q =
          if q = p then (s.slot p).load (s.caches[p.cache].disk.content b) else s.slot q := by
        intro q
        rw [agrees.slot, slot_updateSlot]
      refine ⟨fun q => ?_, valid_update agrees fun _ => rfl, fun q => ?_⟩
      · rw [slots]
        split
        · rename_i here
          subst here
          exact ⟨rfl, rfl⟩
        · exact ⟨rfl, rfl⟩
      · rw [bytesAt, bytesAt, slots]
        split
        · rename_i here
          subst here
          exact .inr ⟨_, List.mem_singleton_self _, rfl, ⟨rfl, fails⟩, valid, rfl⟩
        · exact .inl rfl

theorem finish_fills (s : Machine n m) (task : TaskId) (call : SleepingCall n m) :
    Fills s (s.finishExchanges task call) (s.finish task call).2 := by
  unfold finish finishExchanges
  by_cases loads : call.loads = true
  · rw [if_pos loads, if_pos loads]
    have loaded := load_fills s task call.place call.block
    generalize s.run task call.place.cache _ = ended at loaded ⊢
    obtain ⟨result, t⟩ := ended
    cases result with
    | error fault => exact loaded
    | ok => exact ⟨loaded.tags, loaded.valid, loaded.bytes⟩
  · rw [if_neg loads, if_neg loads]
    exact fills_contents _ (.refl _)

theorem enter_fills (s : Machine n m) (task : TaskId) (call : SleepingCall n m) :
    Fills s (s.enterExchanges task call) (s.enter task call).2 := by
  have entered := contents_run s task call.place.cache (Cache.contents_enter call.place.slot _)
  unfold enter enterExchanges
  generalize s.run task call.place.cache _ = ended at entered ⊢
  obtain ⟨result, t⟩ := ended
  match result with
  | .error fault => exact fills_contents _ entered
  | .ok true => exact (fills_contents [] entered).trans (finish_fills t task call)
  | .ok false => exact fills_contents _ entered

theorem resumeAll_fills (tasks : List TaskId) (s : Machine n m) :
    Fills s (resumeExchanges tasks s) (resumeAll tasks s).2 := by
  induction tasks generalizing s with
  | nil => exact fills_contents _ (.refl s)
  | cons task rest ih =>
    unfold resumeExchanges resumeAll
    cases s.asleep.find? task with
    | none => exact ih s
    | some call =>
      have looked := enter_fills { s with asleep := s.asleep.erase task } task call
      have resumed := looked.trans (ih _)
      exact ⟨resumed.tags, resumed.valid, resumed.bytes⟩

theorem contents_wakened (s : Machine n m) (p : Place n m) :
    s.SameContents (s.updateSlot p fun slot => { slot with data := (s.slot p).data.wake.2 }) :=
  contents_updateSlot s p ⟨⟨rfl, rfl⟩, rfl, rfl⟩

theorem wake_fills (s : Machine n m) : Fills s s.wakeExchanges s.wake.2 := by
  unfold wake wakeExchanges
  cases s.released? with
  | none => exact fills_contents _ (.refl s)
  | some p =>
    exact (fills_contents [] (contents_wakened s p)).trans (resumeAll_fills (s.slot p).data.wake.1 _)

theorem claim_bytes (s : Machine n m) (task : TaskId) (c : Fin m) (b : BlockId) (p : Place n m) :
    (s.run task c (Cache.claim b)).2.bytesAt p = s.bytesAt p := by
  cases found : s.caches[c].pool.find? b with
  | some i =>
    obtain ⟨t, ran, agrees⟩ := s.run_claim_found task found
    rw [ran, bytesAt, agrees.slot]
    exact ((contents_updateSlot s ⟨c, i⟩ (f := .refer) ⟨⟨rfl, rfl⟩, rfl, rfl⟩).slot p).bytes.symm
  | none =>
    cases chosen : s.caches[c].pool.leastRecentlyReleased with
    | some i =>
      obtain ⟨t, ran, agrees⟩ := s.run_claim_recycles task found chosen
      rw [ran, bytesAt, agrees.slot, slot_recycle]
      split
      · rename_i here
        subst here
        rfl
      · rfl
    | none =>
      obtain ⟨t, ran, agrees⟩ := s.run_claim_exhausted task found chosen
      rw [ran, bytesAt, agrees.slot]
      rfl

theorem call_bytes (s : Machine n m) (task : TaskId) (c : Fin m) (b : BlockId) (loads : Bool)
    (name : String) (p : Place n m) :
    (s.call task c b loads name).2.bytesAt p = s.bytesAt p ∨
      ∃ x ∈ s.callExchanges task c b loads name, x.Fills p ((s.call task c b loads name).2.bytesAt p) := by
  have claimed := claim_bytes s task c b p
  unfold call callExchanges
  cases s.held.find? name with
  | some _ => exact .inl rfl
  | none =>
    dsimp only
    generalize s.run task c (Cache.claim b) = ended at claimed ⊢
    obtain ⟨result, t⟩ := ended
    cases result with
    | error fault => exact .inl claimed
    | ok i =>
      rw [← claimed]
      exact (enter_fills t task ⟨⟨c, i⟩, b, loads, name⟩).bytes p

inductive Edits (s : Machine n m) (p : Place n m) (bytes : Block) : Event m → Prop where
  | fill {name : String} {byte : UInt8} (live : s.held.find? name = some p)
      (filled : bytes = .filled byte) : Edits s p bytes (.fill name byte)
  | put {name : String} {offset : Nat} {new : List UInt8} (live : s.held.find? name = some p)
      (inside : offset + new.length ≤ blockSize) (filled : bytes = (s.bytesAt p).overwrite offset new) :
      Edits s p bytes (.put name offset new)

def Explains (s : Machine n m) (event : Event m) (xs : List (Exchange n m)) (t : Machine n m)
    (p : Place n m) : Prop :=
  t.bytesAt p = s.bytesAt p ∨ s.Edits p (t.bytesAt p) event ∨ ∃ x ∈ xs, x.Fills p (t.bytesAt p)

variable {event : Event m} {task : TaskId} {p : Place n m} {name pinName : String}

theorem explains_contents (same : s.SameContents t) : Explains s event xs t p :=
  .inl (same.slot p).bytes.symm

theorem explains_withBuffer {f : Place n m → Reply × Machine n m}
    (found : ∀ q, s.held.find? name = some q → Explains s event xs (f q).2 p) :
    Explains s event xs (s.withBuffer name f).2 p := by
  unfold withBuffer
  cases held : s.held.find? name with
  | some q => exact found q held
  | none => exact .inl rfl

theorem explains_edit {q : Place n m} {f : Block → Block}
    (edits : p = q → s.Edits p (f (s.bytesAt p)) event) : Explains s event xs (s.edit q f) p := by
  by_cases here : p = q
  · have edited : (s.edit q f).bytesAt p = f (s.bytesAt p) := by
      rw [bytesAt, edit, slot_updateSlot, if_pos here, ← here]
      rfl
    exact .inr (.inl (edited ▸ edits here))
  · refine .inl ?_
    rw [bytesAt, edit, slot_updateSlot, if_neg here]
    rfl

theorem advance_explains (s : Machine n m) (task : TaskId) {event : Event m} (regular : event.Regular)
    (p : Place n m) :
    Explains s event (s.advanceExchanges task event) (s.advance task event).2 p := by
  cases event with
  | tamper => exact absurd regular id
  | read c b name => exact (call_bytes s task c b true name p).imp_right .inr
  | acquire c b name => exact (call_bytes s task c b false name p).imp_right .inr
  | fill name byte =>
    refine explains_withBuffer fun q live => explains_edit fun here => ?_
    exact .fill (here ▸ live) rfl
  | put name offset new =>
    refine explains_withBuffer fun q live => ?_
    split
    · rename_i inside
      exact explains_edit fun here => .put (here ▸ live) inside rfl
    · exact .inl rfl
  | _ => exact explains_contents (contents_advance s task trivial)

theorem step_explains (s : Machine n m) (task : TaskId) {event : Event m} (regular : event.Regular)
    (p : Place n m) : Explains s event (s.exchanges task event) (s.step task event).2 p := by
  cases asleep : s.isAsleep task with
  | true =>
    rw [step_asleep asleep]
    exact .inl rfl
  | false =>
    have made : s.exchanges task event = s.opened.advanceExchanges task event ++
        (s.opened.advance task event).2.wakeExchanges := if_neg (by simp [asleep])
    rw [step_awake asleep, made]
    rcases (wake_fills (s.opened.advance task event).2).bytes p with same | ⟨x, member, fills⟩
    · rw [Explains, same]
      rcases advance_explains s.opened task regular p with kept | edits | ⟨x, member, fills⟩
      · exact .inl kept
      · refine .inr (.inl ?_)
        cases edits with
        | fill live filled => exact .fill live filled
        | put live inside filled => exact .put live inside filled
      · exact .inr (.inr ⟨x, List.mem_append_left _ member, fills⟩)
    · exact .inr (.inr ⟨x, List.mem_append_right _ member, fills⟩)

-- What a call is told that has its buffer to wait for: whoever gets it sees it as it is at that moment.
inductive Told (t : Machine n m) (p : Place n m) : Reply → Prop where
  | buffer (bytes : Block) : Told t p (.done (.buffer (t.infoAt p) bytes))
  | asleep : Told t p .asleep
  | halted (fault : CacheFault) : Told t p (.halted fault)

theorem finish_told (s : Machine n m) (task : TaskId) (call : SleepingCall n m) :
    Told (s.finish task call).2 call.place (s.finish task call).1 := by
  unfold finish
  by_cases loads : call.loads = true
  · rw [if_pos loads]
    generalize s.run task call.place.cache _ = ended
    obtain ⟨result, t⟩ := ended
    cases result with
    | error fault => exact .halted fault
    | ok => exact .buffer _
  · rw [if_neg loads]
    exact .buffer _

theorem enter_told (s : Machine n m) (task : TaskId) (call : SleepingCall n m) :
    Told (s.enter task call).2 call.place (s.enter task call).1 := by
  unfold enter
  generalize s.run task call.place.cache _ = ended
  obtain ⟨result, t⟩ := ended
  match result with
  | .error fault => exact .halted fault
  | .ok true => exact finish_told t task call
  | .ok false => exact .asleep

theorem call_told (s : Machine n m) (task : TaskId) (p : Place n m) (b : BlockId) (loads : Bool)
    (name : String) :
    s.held.find? name ≠ none ∧ (s.call task p.cache b loads name).1 = .refused (.handleInUse name) ∨
      ∃ i, Told (s.call task p.cache b loads name).2 ⟨p.cache, i⟩
        (s.call task p.cache b loads name).1 := by
  unfold call
  cases s.held.find? name with
  | some _ => exact .inl ⟨nofun, rfl⟩
  | none =>
    refine .inr ?_
    dsimp only
    generalize s.run task p.cache _ = ended
    obtain ⟨result, t⟩ := ended
    cases result with
    | error fault => exact ⟨p.slot, .halted fault⟩
    | ok i => exact ⟨i, enter_told t task _⟩

theorem resumeAll_told (tasks : List TaskId) (s : Machine n m) :
    ∀ woken ∈ (resumeAll tasks s).1, ∃ call xs u, s.asleep.find? woken.task = some call ∧
      Fills s xs u ∧ Told u call.place woken.reply := by
  induction tasks generalizing s with
  | nil => exact List.forall_mem_nil _
  | cons task rest ih =>
    unfold resumeAll
    cases found : s.asleep.find? task with
    | none => exact ih s
    | some call =>
      have looked := enter_fills { s with asleep := s.asleep.erase task } task call
      intro woken member
      rcases List.mem_cons.mp member with rfl | later
      · exact ⟨call, _, _, found, ⟨looked.tags, looked.valid, looked.bytes⟩, enter_told _ task call⟩
      · obtain ⟨other, xs, u, waits, fills, told⟩ := ih _ woken later
        have resumed := looked.trans fills
        exact ⟨other, _, u, asleep_resumed found waits, ⟨resumed.tags, resumed.valid, resumed.bytes⟩, told⟩

theorem wake_told (s : Machine n m) :
    ∀ woken ∈ s.wake.1, ∃ call xs u, s.asleep.find? woken.task = some call ∧
      Fills s xs u ∧ Told u call.place woken.reply := by
  unfold wake
  cases s.released? with
  | none => exact List.forall_mem_nil _
  | some p =>
    intro woken member
    obtain ⟨call, xs, u, waits, fills, told⟩ := resumeAll_told (s.slot p).data.wake.1 _ woken member
    exact ⟨call, _, u, waits, (fills_contents [] (contents_wakened s p)).trans fills, told⟩

end Machine

end KernelResources.Buffer
