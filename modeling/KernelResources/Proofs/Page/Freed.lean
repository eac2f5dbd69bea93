import KernelResources.Proofs.Page.Isolation
import KernelResources.Proofs.Page.Rejections
import KernelResources.Proofs.Page.Sheltered

namespace KernelResources.Page

open Holder (Event handed)

variable {cores : Nat}

abbrev Attempt : Type := Nat × Except Fault Unit

namespace Allocator

-- The frees that a run over `count` pages makes, up to the first that fails. It goes the way of `freeRun`.
def freesOf : (count address : Nat) → Execution (Fin cores) (Act cores) (Allocator cores) → List Attempt
  | 0, _, _ => []
  | count + 1, address, e =>
    if address = 0 then freesOf count (address + pageSize) e
    else (address, ((free address).run e).1) :: match ((free address).run e).1 with
      | .ok () => freesOf count (address + pageSize) ((free address).run e).2
      | .error _ => []

def freesIn (start stop : Nat) (e : Execution (Fin cores) (Act cores) (Allocator cores)) : List Attempt :=
  match nextMultiple start with
  | .ok first => freesOf ((stop - first) / pageSize) first e
  | .error _ => []

def freesAtInit (start stop : Nat) (e : Execution (Fin cores) (Act cores) (Allocator cores)) :
    List Attempt :=
  if e.state.frames.isInitialized then []
  else match Frames.plan start stop with
    | .ok (.ok f) =>
      freesIn f.base f.limit (({ e with state := e.state.founded f }).note (.act (.tells (.ready f))))
    | _ => []

end Allocator

def Holder.frees (h : Holder cores) : Event → List Attempt
  | .free name =>
    match h.held.find? name with
    | some address => [(address, ((Allocator.free address).run h.execution).1)]
    | none => []
  | .freeAddress address =>
    if address = 0 then [] else [(address, ((Allocator.free address).run h.execution).1)]
  | .freeRange start stop => Allocator.freesIn start stop h.execution
  | .init start stop =>
    if !h.allocator.frames.isInitialized && leavesRam h.allocator.ram start stop then []
    else Allocator.freesAtInit start stop h.execution
  | _ => []

inductive Happening where
  | freed (page : Nat)
  | handed (page : Nat)
  deriving DecidableEq, Repr

def Attempt.happening? : Attempt → Option Happening
  | (_, .error (.freeRejected _)) => none
  | (page, _) => some (.freed page)

def Holder.happenings (h : Holder cores) (event : Event) : List Happening :=
  (h.frees event).filterMap Attempt.happening? ++ (handed (h.step event).1.reply).map .handed

namespace Stock

variable {s t u : Stock cores} {core page : Nat}

def tries (core : Nat) : List Nat → Stock cores → List Attempt
  | [], _ => []
  | page :: rest, s =>
    (page, (s.free core page).1) :: match (s.free core page).1 with
      | .ok () => tries core rest (s.free core page).2
      | .error _ => []

def triesAtInit (s : Stock cores) (core start stop : Nat) : List Attempt :=
  if s.managed.isSome then []
  else match Frames.plan start stop with
    | .ok (.ok f) => tries core (rowIn f.base f.limit) { s with managed := some f }
    | _ => []

def tried (s : Stock cores) (core : Nat) : Call → List Attempt
  | .init start stop => s.triesAtInit core start stop
  | .free address => tries core [address] s
  | .freeRange start stop => tries core (rowIn start stop) s
  | _ => []

-- A stretch of a run, as the pages see it: only pages that were not free are freed, and a page that is
-- free stays so until it is handed out.
inductive Course : Stock cores → List Happening → Stock cores → Prop where
  | nil {s : Stock cores} : Course s [] s
  | quiet {s t u : Stock cores} {rest : List Happening} (grows : s.Grows t) (later : Course t rest u) :
      Course s rest u
  | freed {s t u : Stock cores} {page : Nat} {rest : List Happening} (out : s.has page = false)
      (back : t.has page = true) (grows : s.Grows t) (later : Course t rest u) :
      Course s (.freed page :: rest) u
  | handed {s t u : Stock cores} {page : Nat} {rest : List Happening}
      (others : ∀ p, p ≠ page → s.has p = true → t.has p = true) (later : Course t rest u) :
      Course s (.handed page :: rest) u

theorem Course.append {first later : List Happening} (before : Course s first t)
    (after : Course t later u) : Course s (first ++ later) u := by
  induction before with
  | nil => exact after
  | quiet grows _ ih => exact .quiet grows (ih after)
  | freed out back grows _ ih => exact .freed out back grows (ih after)
  | handed others _ ih => exact .handed others (ih after)

theorem Course.handed_first {all front back : List Happening} (course : Course s all u)
    (free : s.has page = true) (split : all = front ++ .freed page :: back) : .handed page ∈ front := by
  induction course generalizing front with
  | nil => simp at split
  | quiet grows _ ih => exact ih (grows page free) split
  | freed out back grows _ ih =>
    cases front with
    | nil =>
      cases split
      rw [out] at free
      cases free
    | cons first front =>
      cases split
      exact List.mem_cons_of_mem _ (ih (grows page free) rfl)
  | @handed _ _ _ given _ others _ ih =>
    cases front with
    | nil => cases split
    | cons first front =>
      cases split
      by_cases same : page = given
      · subst same
        exact List.mem_cons_self
      · exact List.mem_cons_of_mem _ (ih (others page same free) rfl)

theorem Course.handed_between {all front middle back : List Happening} (course : Course s all u)
    (split : all = front ++ .freed page :: (middle ++ .freed page :: back)) :
    .handed page ∈ middle := by
  induction course generalizing front with
  | nil => simp at split
  | quiet _ _ ih => exact ih split
  | freed _ taken _ later ih =>
    cases front with
    | nil =>
      cases split
      exact later.handed_first taken rfl
    | cons first front =>
      cases split
      exact ih rfl
  | handed _ _ ih =>
    cases front with
    | nil => cases split
    | cons first front =>
      cases split
      exact ih rfl

section Calls

theorem refusal_none_has (accepted : s.refusal page = none) : s.has page = false := by
  unfold refusal at accepted
  split at accepted
  · cases accepted
  · split at accepted
    · cases accepted
    · split at accepted
      · cases accepted
      · rename_i out
        exact Bool.eq_false_iff.mpr out

theorem course_tries (s : Stock cores) (core : Nat) (pages : List Nat) :
    Course s ((tries core pages s).filterMap Attempt.happening?) (s.freeAll core pages).2 := by
  induction pages generalizing s with
  | nil => exact .nil
  | cons page rest ih =>
    unfold tries freeAll free
    cases refused : s.refusal page with
    | some error => exact .nil
    | none =>
      have out := refusal_none_has refused
      by_cases known : core < cores
      · simp only [known, dif_pos]
        refine .freed out ?_ ?_ (ih (s.push ⟨core, known⟩ page))
        · rw [has_push, decide_eq_true rfl, Bool.true_or]
        · intro p has
          rw [has_push, has, Bool.or_true]
      · simp only [known, dif_neg, not_false_iff]
        refine .freed out (t := s.lose page) ?_ ?_ .nil
        · rw [has_lose, decide_eq_true rfl, Bool.true_or]
        · intro p has
          rw [has_lose, has, Bool.or_true]

theorem freeRange_stock (s : Stock cores) (core start stop : Nat) :
    (s.freeRange core start stop).2 = (s.freeAll core (rowIn start stop)).2 := by
  unfold freeRange rowIn
  cases nextMultiple start with
  | error fault => rfl
  | ok first =>
    dsimp only
    generalize s.freeAll core (row ((stop - first) / pageSize) first) = ended
    obtain ⟨result, t⟩ := ended
    cases result with
    | error fault => rfl
    | ok value =>
      dsimp only
      cases addWord (first + (stop - first) / pageSize * pageSize) pageSize <;> rfl

theorem course_init (s : Stock cores) (core start stop : Nat) :
    Course s ((s.triesAtInit core start stop).filterMap Attempt.happening?)
      (s.init core start stop).2 := by
  unfold triesAtInit init
  by_cases managed : s.managed.isSome = true
  · rw [if_pos managed, if_pos managed]
    exact .nil
  · rw [if_neg managed, if_neg managed]
    cases Frames.plan start stop with
    | error fault => exact .nil
    | ok split =>
      cases split with
      | error error => exact .nil
      | ok f =>
        have freed := course_tries { s with managed := some f } core (rowIn f.base f.limit)
        rw [← freeRange_stock] at freed
        dsimp only
        generalize freeRange { s with managed := some f } core f.base f.limit = ended at freed ⊢
        obtain ⟨result, t⟩ := ended
        cases result with
        | error fault => exact .quiet (t := { s with managed := some f }) (fun _ has => has) freed
        | ok value => exact .quiet (t := { s with managed := some f }) (fun _ has => has) freed

theorem has_pop_other {c : Fin cores} {first : Nat} {rest : List Nat} (stack : s.stack[c] = first :: rest)
    {p : Nat} (other : p ≠ first) (has : s.has p = true) : (s.pop c).has p = true := by
  rw [has_iff] at has ⊢
  refine has.imp_right ?_
  rintro ⟨core, member⟩
  refine ⟨core, ?_⟩
  rw [stack_pop]
  split
  · rename_i same
    subst same
    rw [stack] at member ⊢
    exact (List.mem_cons.mp member).resolve_left other
  · exact member

theorem course_alloc (s : Stock cores) (core : Nat) :
    (∀ page, (s.alloc core).1 = .ok (some page) → Course s [.handed page] (s.alloc core).2) ∧
      ((∀ page, (s.alloc core).1 ≠ .ok (some page)) → Course s [] (s.alloc core).2) := by
  unfold alloc
  cases s.managed with
  | none => exact ⟨nofun, fun _ => .nil⟩
  | some f =>
    by_cases known : core < cores
    · simp only [known, dif_pos]
      cases found : s.source ⟨core, known⟩ with
      | none => exact ⟨nofun, fun _ => .nil⟩
      | some c =>
        obtain ⟨first, rest, stack⟩ := source_some found
        dsimp only
        rw [stack]
        refine ⟨?_, fun nothing => absurd rfl (nothing first)⟩
        rintro page ⟨⟩
        exact .handed (fun p other has => has_pop_other stack other has) .nil
    · simp only [known, dif_neg, not_false_iff]
      exact ⟨nofun, fun _ => .nil⟩

theorem course_allocMany (s : Stock cores) (core count : Nat) :
    Course s ((s.allocMany core count).1.map .handed) (s.allocMany core count).2.2 := by
  induction count generalizing s with
  | zero => exact .nil
  | succ count ih =>
    obtain ⟨given, nothing⟩ := course_alloc s core
    unfold allocMany
    generalize s.alloc core = ended at given nothing ⊢
    obtain ⟨result, t⟩ := ended
    cases result with
    | error fault => exact nothing fun _ same => by cases same
    | ok page =>
      cases page with
      | none => exact nothing fun _ same => by cases same
      | some page => exact (given page rfl).append (ih t)

theorem course_serve (s : Stock cores) (core : Nat) (call : Call) :
    Course s ((s.tried core call).filterMap Attempt.happening? ++
      (handed (s.serve core call).1).map .handed) (s.serve core call).2 := by
  cases call with
  | init start stop =>
    have taken := course_init s core start stop
    simp only [tried, serve]
    generalize s.init core start stop = ended at taken ⊢
    obtain ⟨result, t⟩ := ended
    cases result with
    | error fault => simpa [handed] using taken
    | ok value => cases value <;> simpa [handed, Outcome.map, Outcome.ofExcept] using taken
  | alloc =>
    obtain ⟨given, nothing⟩ := course_alloc s core
    simp only [tried, serve, List.filterMap_nil, List.nil_append]
    generalize s.alloc core = ended at given nothing ⊢
    obtain ⟨result, t⟩ := ended
    cases result with
    | error fault => exact nothing fun _ same => by cases same
    | ok page =>
      cases page with
      | none => exact nothing fun _ same => by cases same
      | some page => exact given page rfl
  | allocMany count => exact course_allocMany s core count
  | free address =>
    have freed := course_tries s core [address]
    have left : (s.freeAll core [address]).2 = (s.free core address).2 := by
      unfold freeAll
      generalize s.free core address = ended
      obtain ⟨result, t⟩ := ended
      cases result <;> rfl
    have silent : handed (s.serve core (.free address)).1 = [] := Allocator.handed_told _
    rw [left] at freed
    rw [silent, List.map_nil, List.append_nil]
    exact freed
  | freeRange start stop =>
    have freed := course_tries s core (rowIn start stop)
    have silent : handed (s.serve core (.freeRange start stop)).1 = [] := Allocator.handed_told _
    rw [← freeRange_stock] at freed
    rw [silent, List.map_nil, List.append_nil]
    exact freed
  | freePages id =>
    simp only [tried, serve, freePages]
    split <;> exact .nil
  | totalFree => exact .nil
  | capacity => exact .nil
  | isFree address => exact .nil

theorem refusal_free {address : Nat} (refused : s.refusal page = some (.doubleFree page)) :
    (s.free core address).2.refusal page = some (.doubleFree page) := by
  have keeps : ∀ t : Stock cores, t.managed = s.managed → s.Grows t →
      t.refusal page = some (.doubleFree page) := by
    intro t managed grows
    unfold refusal at refused ⊢
    rw [managed]
    cases range : s.managed with
    | none =>
      rw [range] at refused
      cases refused
    | some f =>
      rw [range] at refused
      dsimp only at refused ⊢
      cases place : f.indexOf page with
      | error error =>
        rw [place] at refused
        exact refused
      | ok i =>
        rw [place] at refused
        dsimp only at refused ⊢
        by_cases has : s.has page = true
        · rw [if_pos (grows page has)]
        · rw [if_neg has] at refused
          cases refused
  unfold free
  split
  · exact refused
  · split
    · refine keeps _ rfl fun p has => ?_
      rw [has_push, has, Bool.or_true]
    · refine keeps _ rfl fun p has => ?_
      rw [has_lose, has, Bool.or_true]

theorem tries_rejected {pages : List Nat} {result : Except Fault Unit}
    (refused : s.refusal page = some (.doubleFree page)) (made : (page, result) ∈ tries core pages s) :
    result = .error (.freeRejected (.doubleFree page)) := by
  induction pages generalizing s with
  | nil => cases made
  | cons first rest ih =>
    unfold tries at made
    rcases List.mem_cons.mp made with here | later
    · obtain ⟨rfl, rfl⟩ := Prod.mk.inj here
      unfold free
      rw [refused]
    · have still : (s.free core first).2.refusal page = some (.doubleFree page) := refusal_free refused
      split at later
      · exact ih still later
      · cases later

end Calls

end Stock

namespace Allocator

variable {s : Stock cores} {e : Execution (Fin cores) (Act cores) (Allocator cores)}

theorem freesOf_tries (shows : Shows e.state s) (count address : Nat) :
    freesOf count address e = s.tries e.cpu.core (Stock.row count address) := by
  induction count generalizing s e address with
  | zero => rfl
  | succ count ih =>
    rw [Stock.row_succ]
    unfold freesOf
    by_cases zero : address = 0
    · rw [if_pos zero, if_pos zero]
      exact ih shows _
    · rw [if_neg zero, if_neg zero]
      obtain ⟨b, yields, follows, -⟩ := free_follows shows e.cpu.core address
      obtain ⟨told, left, still⟩ := yields e rfl rfl
      unfold Stock.tries
      rw [told]
      cases (s.free e.cpu.core address).1 with
      | error fault => rfl
      | ok value =>
        have rest := ih (left ▸ follows.shows) (address + pageSize)
        rw [still] at rest
        dsimp only
        rw [rest]

theorem freesIn_tries (shows : Shows e.state s) (start stop : Nat) :
    freesIn start stop e = s.tries e.cpu.core (Stock.rowIn start stop) := by
  unfold freesIn Stock.rowIn
  cases nextMultiple start with
  | error fault => rfl
  | ok first => exact freesOf_tries shows _ first

theorem freesAtInit_tries (shows : Shows e.state s) {start stop : Nat}
    (stays : e.state.frames.isInitialized = false → leavesRam e.state.ram start stop = false) :
    freesAtInit start stop e = s.triesAtInit e.cpu.core start stop := by
  unfold freesAtInit Stock.triesAtInit
  cases shows with
  | running f frames managed _ =>
    have taken : e.state.frames.isInitialized = true := by
      rw [frames]
      rfl
    rw [if_pos taken, managed, if_pos (Option.isSome_some)]
  | idle aligned frames lists stock =>
    have unmanaged : s.managed = none := by
      rw [stock]
      rfl
    rw [frames] at stays ⊢
    rw [unmanaged]
    cases plan : Frames.plan start stop with
    | error fault => rfl
    | ok split =>
      cases split with
      | error error => rfl
      | ok f =>
        have lies := Frames.lies_of_plan aligned plan (stays rfl)
        have founded := (follows_founded (.idle aligned frames lists stock) frames lies).shows
        exact freesIn_tries (e := ({ e with state := e.state.founded f }).note (.act (.tells (.ready f))))
          founded f.base f.limit

end Allocator

namespace Holder

variable {h : Holder cores} {s : Stock cores} {event : Event} {call : Call}

theorem free_tried (shows : h.allocator.Shows s) (address : Nat) :
    [(address, ((Allocator.free address).run h.execution).1)] = s.tries h.cpu.core [address] := by
  obtain ⟨_, yields, _⟩ := Allocator.free_follows shows h.cpu.core address
  unfold Stock.tries
  rw [(yields h.execution rfl rfl).1]
  generalize s.free h.cpu.core address = freed
  obtain ⟨result, t⟩ := freed
  cases result <;> rfl

theorem frees_tried (shows : h.allocator.Shows s) (asks : h.call? event = some call) :
    h.frees event = s.tried h.cpu.core call := by
  cases event with
  | free name =>
    simp only [call?, Option.map_eq_some_iff] at asks
    obtain ⟨address, held, rfl⟩ := asks
    simp only [frees, held]
    exact free_tried shows address
  | freeAddress address =>
    simp only [call?] at asks
    split at asks
    · cases asks
    · rename_i nonzero
      cases asks
      simp only [frees, if_neg nonzero]
      exact free_tried shows address
  | freeRange start stop =>
    cases asks
    exact Allocator.freesIn_tries (e := h.execution) shows start stop
  | init start stop =>
    simp only [call?] at asks
    split at asks
    · cases asks
    · rename_i stays
      cases asks
      simp only [frees, if_neg stays]
      refine Allocator.freesAtInit_tries (e := h.execution) shows fun idle => ?_
      have idle : h.allocator.frames.isInitialized = false := idle
      have inside : leavesRam h.allocator.ram start stop = false := by simpa [idle] using stays
      exact inside
  | alloc name =>
    simp only [call?] at asks
    split at asks
    · cases asks
    · cases asks
      rfl
  | allocMany name count =>
    cases asks
    rfl
  | freePages core =>
    cases asks
    rfl
  | totalFree =>
    cases asks
    rfl
  | capacity =>
    cases asks
    rfl
  | isFree address =>
    cases asks
    rfl
  | _ => cases asks

theorem frees_none (asks : h.call? event = none) : h.frees event = [] := by
  cases event with
  | free name =>
    simp only [call?, Option.map_eq_none_iff] at asks
    simp only [frees, asks]
  | freeAddress address =>
    simp only [call?] at asks
    split at asks
    · rename_i zero
      simp only [frees, if_pos zero]
    · cases asks
  | freeRange start stop => cases asks
  | init start stop =>
    simp only [call?] at asks
    split at asks
    · rename_i leaves
      simp only [frees, if_pos leaves]
    · cases asks
  | _ => rfl

end Holder

namespace Account

variable {ram : Ram} {a b c : Account cores} {past later : List Happening} {event : Event}

inductive History (rule : Rule cores) (a : Account cores) : List Happening → Account cores → Prop where
  | refl : History rule a [] a
  | step {past : List Happening} {b : Account cores} {event : Event} (before : History rule a past b)
      (kept : rule b event) : History rule a (past ++ b.holder.happenings event) (b.next event)

theorem History.run {rule : Rule cores} (path : History rule a past b) : Run rule a b := by
  induction path with
  | refl => exact .refl
  | step _ kept ih => exact .step ih kept

theorem next_course (sound : Sound a) (event : Event) :
    Stock.Course a.stock (a.holder.happenings event) (a.next event).stock := by
  unfold Holder.happenings
  cases asks : a.holder.call? event with
  | some call =>
    rw [Holder.frees_tried sound.shows asks, (Holder.step_serves sound.shows asks).1, (next_served asks).1]
    exact Stock.course_serve a.stock a.holder.cpu.core call
  | none =>
    rw [Holder.frees_none asks, (Holder.step_writes asks).2.1, (next_unserved asks).1]
    exact .nil

theorem history_course (path : History Spares a past b) (sound : Sound a) :
    Stock.Course a.stock past b.stock := by
  induction path with
  | refl => exact .nil
  | step before spares ih => exact ih.append (next_course (run_sound before.run sound) _)

theorem next_lost (a : Account cores) (event : Event) {page : Nat} (lost : page ∈ a.lost) :
    page ∈ (a.next event).lost := List.mem_append_right _ lost

theorem run_lost {rule : Rule cores} (path : Run rule a b) {page : Nat} (lost : page ∈ a.lost) :
    page ∈ b.lost := by
  induction path with
  | refl => exact lost
  | step _ _ ih => exact next_lost _ _ ih

theorem free_lost (sound : Sound a) {address : Nat} (asks : a.holder.call? event = some (.free address))
    (nowhere : ¬ a.holder.cpu.core < cores) (out : a.Out address) :
    (a.holder.step event).1.reply = .halted (.coreOutside .free a.holder.cpu.core cores) ∧
      (a.next event).lost = address :: a.lost := by
  obtain ⟨reply, -⟩ := Holder.step_serves sound.shows asks
  have told : (a.stock.serve a.holder.cpu.core (.free address)).1 =
      .halted (.coreOutside .free a.holder.cpu.core cores) := by
    simp only [Stock.serve, Stock.free, out_refusal sound out, dif_neg nowhere]
    rfl
  rw [told] at reply
  have lost : (a.next event).lost =
      Holder.lostBy (a.asked event) (a.holder.step event).1.reply ++ a.lost := rfl
  rw [(next_served asks).2, reply] at lost
  exact ⟨reply, lost⟩

theorem lost_rejects (sound : Sound a) {page : Nat} (lost : page ∈ a.lost) :
    a.Rejects page (.doubleFree page) := by
  have has : a.stock.has page = true := Stock.has_iff.mpr (.inl (sound.lost ▸ lost))
  obtain ⟨f, managed, ⟨i, known, rfl⟩⟩ := sound.shows.manages has
  obtain ⟨frames, -⟩ := sound.shows.of_managed managed
  exact .doubleFree frames known rfl (.inr lost)

theorem lost_stays (sound : Sound a) {page : Nat} (lost : page ∈ a.lost) (event : Event) :
    (∀ result, (page, result) ∈ a.holder.frees event →
      result = .error (.freeRejected (.doubleFree page))) ∧
    page ∉ handed (a.holder.step event).1.reply := by
  constructor
  · intro result made
    have has : a.stock.has page = true := Stock.has_iff.mpr (.inl (sound.lost ▸ lost))
    obtain ⟨f, managed, -⟩ := sound.shows.manages has
    have refused := rejects_refusal sound (lost_rejects sound lost)
    cases asks : a.holder.call? event with
    | none =>
      rw [Holder.frees_none asks] at made
      cases made
    | some call =>
      rw [Holder.frees_tried sound.shows asks] at made
      cases call with
      | init start stop =>
        rw [Stock.tried, Stock.triesAtInit, if_pos (by rw [managed]; rfl)] at made
        cases made
      | free address => exact Stock.tries_rejected refused made
      | freeRange start stop => exact Stock.tries_rejected refused made
      | _ => cases made
  · intro given
    exact ((sound_hands sound event).2.1 page given).2.1 lost

-- In every state that the calls can bring about, whatever the client writes beside the links, a free takes
-- back the pages that are handed out and no others, and what it rejects leaves no trace. A page that is
-- freed where there is no core is lost for good, and between two frees that take a page back it was handed
-- out.
theorem frees_take_back_what_is_out (aligned : ram.base % pageSize = 0)
    (path : History Spares (start cores ram) past a) :
    (∀ address e, e.state = a.holder.allocator → Judges a address e) ∧
    (∀ error, (Fault.freeRejected error).message = "kfree: " ++ error.message) ∧
    (∀ event address, a.holder.call? event = some (.free address) → ¬ a.holder.cpu.core < cores →
      a.Out address →
        (a.holder.step event).1.reply = .halted (.coreOutside .free a.holder.cpu.core cores) ∧
          (a.next event).lost = address :: a.lost) ∧
    (∀ page ∈ a.lost, ∀ b, Run Spares a b → page ∈ b.lost ∧ b.Rejects page (.doubleFree page) ∧
      ∀ event,
        (∀ result, (page, result) ∈ b.holder.frees event →
          result = .error (.freeRejected (.doubleFree page))) ∧
        page ∉ handed (b.holder.step event).1.reply) ∧
    ∀ page front middle back, past = front ++ .freed page :: (middle ++ .freed page :: back) →
      .handed page ∈ middle := by
  have sound := run_sound path.run (sound_start aligned)
  refine ⟨sound_judges sound, ?_, fun event address => free_lost sound, ?_, ?_⟩
  · intro error
    rfl
  · intro page lost b onward
    have later := run_sound onward sound
    have still := run_lost onward lost
    exact ⟨still, lost_rejects later still, lost_stays later still⟩
  · intro page front middle back split
    exact (history_course path (sound_start aligned)).handed_between split

-- A page is freed when its range is taken over, handed out, and freed again where there is no core.
theorem frees_take_back_what_is_out_lost :
    let past : List Happening := [.freed 0x80001000, .freed 0x80002000, .freed 0x80003000,
      .handed 0x80003000, .freed 0x80003000]
    let a := ((((start 2 (.zeroed 0x80000000 4)).next (.init 0x80000000 0x80004000)).next
      (.alloc "p")).next (.moveTo 9)).next (.free "p")
    History Spares (start 2 (.zeroed 0x80000000 4)) past a ∧ 0x80003000 ∈ a.lost ∧
      .handed 0x80003000 ∈ [Happening.handed 0x80003000] ∧
      a.Rejects 0x80003000 (.doubleFree 0x80003000) := by
  have path : History Spares (start 2 (.zeroed 0x80000000 4)) _
      (((((start 2 (.zeroed 0x80000000 4)).next (.init 0x80000000 0x80004000)).next
        (.alloc "p")).next (.moveTo 9)).next (.free "p")) :=
    .step (.step (.step (.step .refl (spares_silent rfl)) (spares_silent rfl)) (spares_silent rfl))
      (spares_silent rfl)
  have done : ([] ++ (start 2 (.zeroed 0x80000000 4)).holder.happenings (.init 0x80000000 0x80004000) ++
      ((start 2 (.zeroed 0x80000000 4)).next (.init 0x80000000 0x80004000)).holder.happenings
        (.alloc "p") ++
      (((start 2 (.zeroed 0x80000000 4)).next (.init 0x80000000 0x80004000)).next
        (.alloc "p")).holder.happenings (.moveTo 9) ++
      ((((start 2 (.zeroed 0x80000000 4)).next (.init 0x80000000 0x80004000)).next
        (.alloc "p")).next (.moveTo 9)).holder.happenings (.free "p")) =
      [.freed 0x80001000, .freed 0x80002000, .freed 0x80003000, .handed 0x80003000,
        .freed 0x80003000] := by
    decide +kernel
  rw [done] at path
  obtain ⟨-, -, -, lost, between⟩ := frees_take_back_what_is_out (by decide) path
  have gone : 0x80003000 ∈ (((((start 2 (.zeroed 0x80000000 4)).next
      (.init 0x80000000 0x80004000)).next (.alloc "p")).next (.moveTo 9)).next (.free "p")).lost := by
    decide +kernel
  exact ⟨path, gone,
    between 0x80003000 [.freed 0x80001000, .freed 0x80002000] [.handed 0x80003000] [] rfl,
    (lost _ gone _ .refl).2.1⟩

end Account

end KernelResources.Page
