import KernelResources.Proofs.Page.Stock

namespace KernelResources.Page

variable {cores : Nat}

def Stock.rowIn (start stop : Nat) : List Nat :=
  match nextMultiple start with
  | .ok first => row ((stop - first) / pageSize) first
  | .error _ => []

def Stock.rowOf : Except WordFault (Except InitError Frames) → List Nat
  | .ok (.ok f) => rowIn f.base f.limit
  | _ => []

def Call.asked : Call → List Nat
  | .init start stop => Stock.rowOf (Frames.plan start stop)
  | .free address => [address]
  | .freeRange start stop => Stock.rowIn start stop
  | _ => []

def Holder.lostBy (asked : List Nat) : Holder.Reply → List Nat
  | .halted (.coreOutside .free _ _) => asked.head?.toList
  | _ => []

def Holder.handed : Holder.Reply → List Nat
  | .done (.page page _) => [page]
  | .done (.pages pages _) => pages
  | _ => []

def Holder.faults : Holder.Reply → List Fault
  | .halted fault => [fault]
  | .done (.pages _ (some (some fault))) => [fault]
  | _ => []

namespace Stock

open Holder (lostBy faults)

-- What may stop a call: anything but a table or a count that was left.
def Ordinary : Fault → Prop
  | .word fault => fault = .addOverflow
  | _ => True

structure Serves (asked : List Nat) (s : Stock cores) (reply : Holder.Reply) (t : Stock cores) :
    Prop where
  ordinary : ∀ fault ∈ faults reply, Ordinary fault
  lost : t.lost = lostBy asked reply ++ s.lost
  asked : ∀ p, t.has p = true → s.has p = true ∨ p ∈ asked

def told (result : Except Fault Unit) : Holder.Reply := .map (fun _ => .unit) (.ofRun result)

variable {s t : Stock cores} {core : Nat}

theorem ordinary_none {reply : Holder.Reply} (none : faults reply = []) :
    ∀ fault ∈ faults reply, Ordinary fault := by
  rw [none]
  exact nofun

theorem ordinary_one {reply : Holder.Reply} {fault : Fault} (one : faults reply = [fault])
    (plain : Ordinary fault) : ∀ fault ∈ faults reply, Ordinary fault := by
  rw [one]
  intro other member
  rw [List.mem_singleton.mp member]
  exact plain

theorem serves_same {reply : Holder.Reply} (asked : List Nat)
    (ordinary : ∀ fault ∈ faults reply, Ordinary fault) (kept : lostBy asked reply = []) :
    Serves asked s reply s := by
  refine ⟨ordinary, ?_, fun _ => .inl⟩
  rw [kept]
  rfl

theorem free_serves (s : Stock cores) (core address : Nat) :
    Serves [address] s (told (s.free core address).1) (s.free core address).2 := by
  unfold free
  split
  · exact serves_same _ (ordinary_one rfl trivial) rfl
  · split
    · refine ⟨ordinary_none rfl, rfl, ?_⟩
      intro p has
      rw [has_push, Bool.or_eq_true, decide_eq_true_iff] at has
      exact has.symm.imp_right List.mem_singleton.mpr
    · refine ⟨ordinary_one rfl trivial, rfl, ?_⟩
      intro p has
      rw [has_lose, Bool.or_eq_true, decide_eq_true_iff] at has
      exact has.symm.imp_right List.mem_singleton.mpr

theorem free_known (s : Stock cores) (core address : Nat) (freed : (s.free core address).1 = .ok ()) :
    core < cores := by
  unfold free at freed
  split at freed
  · cases freed
  · split at freed
    · assumption
    · cases freed

theorem freeAll_known (known : core < cores) (s : Stock cores) (pages : List Nat) (caller : Caller)
    (id count : Nat) : (s.freeAll core pages).1 ≠ .error (.coreOutside caller id count) := by
  induction pages generalizing s with
  | nil => exact nofun
  | cons page rest ih =>
    unfold freeAll
    split
    · exact ih _
    · rename_i failed
      intro same
      cases same
      unfold free at failed
      split at failed
      · cases failed
      · rw [dif_pos known] at failed
        cases failed

theorem lostBy_told {result : Except Fault Unit}
    (inside : ∀ caller id count, result ≠ .error (.coreOutside caller id count)) (asked : List Nat) :
    lostBy asked (told result) = [] := by
  cases result with
  | ok value => rfl
  | error fault =>
    cases fault with
    | coreOutside caller id count => exact absurd rfl (inside caller id count)
    | word fault => rfl
    | freeRejected error => rfl

theorem freeAll_serves (s : Stock cores) (core : Nat) (pages : List Nat) :
    Serves pages s (told (s.freeAll core pages).1) (s.freeAll core pages).2 := by
  induction pages generalizing s with
  | nil => exact serves_same _ (ordinary_none rfl) rfl
  | cons page rest ih =>
    have first := free_serves s core page
    have known := free_known s core page
    unfold freeAll
    generalize s.free core page = ended at first known
    obtain ⟨result, t⟩ := ended
    cases result with
    | error fault =>
      refine ⟨first.ordinary, ?_, fun p has => (first.asked p has).imp_right ?_⟩
      · rw [first.lost]
        rfl
      · intro member
        rw [List.mem_singleton.mp member]
        exact List.mem_cons_self
    | ok value =>
      have later := ih t
      have kept := lostBy_told (freeAll_known (known rfl) t rest)
      refine ⟨later.ordinary, ?_, ?_⟩
      · rw [later.lost, kept, kept, first.lost]
        rfl
      · intro p has
        rcases later.asked p has with before | member
        · exact (first.asked p before).imp_right fun same => by
            rw [List.mem_singleton.mp same]
            exact List.mem_cons_self
        · exact .inr (List.mem_cons_of_mem _ member)

theorem addWord_ordinary {a b : Nat} {fault : WordFault} (failed : addWord a b = .error fault) :
    Ordinary (.word fault) := (addWord_error.mp failed).2

theorem nextMultiple_ordinary {start : Nat} {fault : WordFault}
    (failed : nextMultiple start = .error fault) : Ordinary (.word fault) := by
  unfold nextMultiple at failed
  split at failed
  · cases failed
  · exact addWord_ordinary failed

theorem plan_ordinary {start stop : Nat} {fault : WordFault}
    (failed : Frames.plan start stop = .error fault) : Ordinary (.word fault) := by
  unfold Frames.plan roundUp at failed
  cases sum : addWord start pageSize with
  | error why =>
    rw [sum] at failed
    cases failed
    exact addWord_ordinary sum
  | ok value =>
    rw [sum] at failed
    simp only [bind, Except.bind, pure, Except.pure] at failed
    split at failed
    · cases failed
    split at failed
    · cases failed
    split at failed
    · cases failed
    · cases failed

theorem freeRange_serves (s : Stock cores) (core start stop : Nat) :
    Serves (rowIn start stop) s (told (s.freeRange core start stop).1)
      (s.freeRange core start stop).2 := by
  unfold freeRange rowIn
  cases rounded : nextMultiple start with
  | error fault =>
    exact serves_same _ (ordinary_one rfl (nextMultiple_ordinary rounded)) rfl
  | ok first =>
    dsimp only
    have all := freeAll_serves s core (row ((stop - first) / pageSize) first)
    generalize s.freeAll core (row ((stop - first) / pageSize) first) = ended at all
    obtain ⟨result, t⟩ := ended
    cases result with
    | error fault => exact all
    | ok value =>
      dsimp only
      cases total : addWord (first + (stop - first) / pageSize * pageSize) pageSize with
      | ok sum => exact all
      | error fault =>
        exact ⟨ordinary_one rfl (addWord_ordinary total), all.lost, all.asked⟩

theorem init_serves (s : Stock cores) (core start stop : Nat) :
    Serves (Call.init start stop).asked s
      (match (s.init core start stop).1 with
        | .ok result => .map (fun _ => .unit) (.ofExcept result)
        | .error fault => .halted fault) (s.init core start stop).2 := by
  unfold init
  by_cases managed : s.managed.isSome = true
  · rw [if_pos managed]
    exact serves_same _ (ordinary_none rfl) rfl
  · rw [if_neg managed]
    cases planned : Frames.plan start stop with
    | error fault =>
      exact serves_same _ (ordinary_one rfl (plan_ordinary planned)) rfl
    | ok split =>
      cases split with
      | error error => exact serves_same _ (ordinary_none rfl) rfl
      | ok f =>
        have pages : (Call.init start stop).asked = rowOf (Frames.plan start stop) := rfl
        rw [pages, planned]
        dsimp only [rowOf]
        have freed := freeRange_serves { s with managed := some f } core f.base f.limit
        generalize freeRange { s with managed := some f } core f.base f.limit = ended at freed
        obtain ⟨result, t⟩ := ended
        cases result with
        | error fault => exact ⟨freed.ordinary, freed.lost, freed.asked⟩
        | ok value => exact ⟨ordinary_none rfl, freed.lost, freed.asked⟩

theorem has_pop {c : Fin cores} {p : Nat} (has : (s.pop c).has p = true) : s.has p = true := by
  rw [has_iff] at has ⊢
  refine has.imp_right ?_
  rintro ⟨other, member⟩
  rw [stack_pop] at member
  split at member
  · exact ⟨c, List.mem_of_mem_tail member⟩
  · exact ⟨other, member⟩

theorem alloc_serves (s : Stock cores) (core : Nat) :
    (∀ fault, (s.alloc core).1 = .error fault → Ordinary fault) ∧
      (s.alloc core).2.lost = s.lost ∧ (s.alloc core).2.Grows s := by
  unfold alloc
  split
  · exact ⟨nofun, rfl, .refl s⟩
  · split
    · split
      · exact ⟨nofun, rfl, .refl s⟩
      · exact ⟨nofun, rfl, fun _ => has_pop⟩
    · exact ⟨fun _ same => by cases same; trivial, rfl, .refl s⟩

theorem allocMany_serves (s : Stock cores) (core count : Nat) :
    (∀ fault, (s.allocMany core count).2.1 = some (some fault) → Ordinary fault) ∧
      (s.allocMany core count).2.2.lost = s.lost ∧ (s.allocMany core count).2.2.Grows s := by
  induction count generalizing s with
  | zero => exact ⟨nofun, rfl, .refl s⟩
  | succ count ih =>
    unfold allocMany
    have first := alloc_serves s core
    generalize s.alloc core = ended at first
    obtain ⟨result, t⟩ := ended
    obtain ⟨ordinary, lost, shrinks⟩ := first
    cases result with
    | error fault =>
      refine ⟨?_, lost, shrinks⟩
      rintro other ⟨⟩
      exact ordinary fault rfl
    | ok page =>
      cases page with
      | none => exact ⟨nofun, lost, shrinks⟩
      | some page =>
        obtain ⟨ordinary, same, less⟩ := ih t
        exact ⟨ordinary, same.trans lost, Grows.trans less shrinks⟩

theorem serve_serves (s : Stock cores) (core : Nat) (call : Call) :
    Serves call.asked s (s.serve core call).1 (s.serve core call).2 := by
  cases call with
  | init start stop =>
    have taken := init_serves s core start stop
    simp only [serve]
    generalize s.init core start stop = ended at taken
    obtain ⟨result, t⟩ := ended
    cases result with
    | ok value => exact taken
    | error fault => exact taken
  | alloc =>
    have taken := alloc_serves s core
    simp only [serve]
    generalize s.alloc core = ended at taken
    obtain ⟨result, t⟩ := ended
    obtain ⟨ordinary, lost, shrinks⟩ := taken
    cases result with
    | error fault =>
      have plain := ordinary fault rfl
      refine ⟨ordinary_one rfl plain, lost.trans ?_, fun p has => .inl (shrinks p has)⟩
      unfold lostBy
      split <;> rfl
    | ok page =>
      cases page with
      | none => exact ⟨ordinary_none rfl, lost, fun p has => .inl (shrinks p has)⟩
      | some page => exact ⟨ordinary_none rfl, lost, fun p has => .inl (shrinks p has)⟩
  | allocMany count =>
    obtain ⟨ordinary, lost, shrinks⟩ := allocMany_serves s core count
    refine ⟨?_, lost, fun p has => .inl (shrinks p has)⟩
    simp only [serve]
    cases missing : (s.allocMany core count).2.1 with
    | none => exact ordinary_none rfl
    | some stop =>
      cases stop with
      | none => exact ordinary_none rfl
      | some fault => exact ordinary_one rfl (ordinary fault missing)
  | free address => exact free_serves s core address
  | freeRange start stop => exact freeRange_serves s core start stop
  | freePages id =>
    simp only [serve, freePages]
    split
    · exact serves_same _ (ordinary_none rfl) rfl
    · exact serves_same _ (ordinary_one rfl trivial) rfl
  | totalFree => exact serves_same _ (ordinary_none rfl) rfl
  | capacity => exact serves_same _ (ordinary_none rfl) rfl
  | isFree address => exact serves_same _ (ordinary_none rfl) rfl

def KeepsOthers (s t : Stock cores) (core : Fin cores) : Prop :=
  ∀ other : Fin cores, other ≠ core → t.stack[other] = s.stack[other]

variable {p : Nat}

theorem alloc_none : (s.alloc core).1 = .ok none ↔
    s.managed = none ∨ core < cores ∧ ∀ c : Fin cores, s.stack[c] = [] := by
  unfold alloc
  cases managed : s.managed with
  | none => simp
  | some f =>
    by_cases known : core < cores
    · cases found : s.source ⟨core, known⟩ with
      | none => simp [known, found, source_none.mp found]
      | some c =>
        obtain ⟨page, rest, stack⟩ := source_some found
        simp only [known, dif_pos, found, stack, List.head?_cons, Except.ok.injEq, reduceCtorEq, false_or,
          true_and, false_iff]
        intro all
        rw [all c] at stack
        cases stack
    · simp [known]

theorem alloc_some (s : Stock cores) (core p : Nat) (taken : (s.alloc core).1 = .ok (some p)) :
    ∃ (known : core < cores) (c : Fin cores), s.source ⟨core, known⟩ = some c ∧
      s.stack[c] = p :: (s.alloc core).2.stack[c] ∧ s.KeepsOthers (s.alloc core).2 c := by
  unfold alloc at taken ⊢
  cases managed : s.managed with
  | none =>
    rw [managed] at taken
    cases taken
  | some f =>
    rw [managed] at taken
    by_cases known : core < cores
    · cases found : s.source ⟨core, known⟩ with
      | none =>
        simp only [known, dif_pos, found] at taken
        cases taken
      | some c =>
        obtain ⟨page, rest, stack⟩ := source_some found
        simp only [known, dif_pos, found, stack] at taken
        cases taken
        refine ⟨known, c, found, ?_, ?_⟩
        · simp [known, found, stack_pop, stack]
        · intro other away
          simp [known, found, stack_pop, Ne.symm away]
    · simp only [known, dif_neg, not_false_iff] at taken
      cases taken

theorem free_ok (freed : (s.free core p).1 = .ok ()) :
    ∃ known : core < cores, (s.free core p).2 = s.push ⟨core, known⟩ p := by
  unfold free at freed ⊢
  split at freed
  · cases freed
  · split at freed
    · rename_i known
      exact ⟨known, by rw [dif_pos known]⟩
    · cases freed

theorem serve_alloc_stock : (s.serve core .alloc).2 = (s.alloc core).2 := by
  unfold serve
  dsimp only
  split <;> simp_all

theorem serve_alloc_page {bytes : List UInt8}
    (told : (s.serve core .alloc).1 = .done (.page p bytes)) : (s.alloc core).1 = .ok (some p) := by
  unfold serve at told
  dsimp only at told
  split at told <;> simp_all

theorem serve_alloc_none : (s.serve core .alloc).1 = .done .noPage ↔ (s.alloc core).1 = .ok none := by
  unfold serve
  dsimp only
  split <;> simp_all

theorem serve_free_unit (told : (s.serve core (.free p)).1 = .done .unit) :
    (s.free core p).1 = .ok () := by
  unfold serve at told
  dsimp only at told
  generalize s.free core p = ended at told ⊢
  obtain ⟨result, t⟩ := ended
  cases result with
  | ok value => rfl
  | error fault => cases told

theorem serve_page {call : Call} {bytes : List UInt8}
    (shown : (s.serve core call).1 = .done (.page p bytes)) :
    bytes = List.replicate pageSize allocFill := by
  cases call with
  | alloc =>
    simp only [serve] at shown
    split at shown
    · cases shown
      rfl
    · cases shown
    · cases shown
  | init start stop =>
    simp only [serve] at shown
    split at shown
    · rename_i result t ended
      cases result <;> cases shown
    · cases shown
  | free address =>
    simp only [serve] at shown
    cases result : (s.free core address).1 <;> rw [result] at shown <;> cases shown
  | freeRange start stop =>
    simp only [serve] at shown
    cases result : (s.freeRange core start stop).1 <;> rw [result] at shown <;> cases shown
  | freePages id =>
    simp only [serve] at shown
    cases result : s.freePages id <;> rw [result] at shown <;> cases shown
  | _ => cases shown

end Stock

end KernelResources.Page
