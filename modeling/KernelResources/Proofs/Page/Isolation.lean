import KernelResources.Proofs.Page.Account

namespace KernelResources.Page

open Holder (Event Reply handed)

variable {cores : Nat}

namespace Holder

variable {h : Holder cores} {event : Event} {address page : Nat} {bytes : List UInt8}

theorem written_inside (wrote : h.written event = some (address, bytes))
    (through : h.through event = some page) :
    page ≤ address ∧ address + bytes.length ≤ page + pageSize ∧
      h.allocator.ram.covers address bytes.length = true := by
  cases event with
  | fill name byte =>
    have held : h.held.find? name = some page := through
    simp only [written, held] at wrote
    split at wrote
    · rename_i inside
      cases wrote
      rw [List.length_replicate]
      exact ⟨Nat.le_refl _, Nat.le_refl _, inside⟩
    · cases wrote
  | write name offset new =>
    have held : h.held.find? name = some page := through
    simp only [written, held, Bool.and_eq_true, decide_eq_true_eq] at wrote
    split at wrote
    · rename_i fits
      cases wrote
      obtain ⟨inside, small⟩ := fits
      rw [Ram.covers_iff] at inside ⊢
      omega
    · cases wrote
  | _ => cases through

end Holder

namespace Allocator

variable {a : Allocator cores} {s : Stock cores} {p : Nat}

theorem Shows.manages (shows : Shows a s) (has : s.has p = true) :
    ∃ f, s.managed = some f ∧ f.Manages p := by
  cases shows with
  | idle _ _ _ stock =>
    rw [stock, Stock.not_has_iff.mpr (by simp [Stock.empty])] at has
    cases has
  | running f _ managed kept => exact ⟨f, managed, kept.manages has⟩

end Allocator

namespace Account

variable {ram : Ram} {a b : Account cores} {event : Event} {page : Nat} {bytes : List UInt8}

-- Memory is written through pages that were handed out and not freed since, and by the allocator.
def Owned : Rule cores := fun a event =>
  ∀ address bytes, a.holder.written event = some (address, bytes) →
    ∃ page, a.holder.through event = some page ∧ page ∈ a.live.keys

theorem owned_silent (silent : a.holder.written event = none) : Owned a event := by
  intro address bytes wrote
  rw [silent] at wrote
  cases wrote

section Books

variable {live : Registry Nat (List UInt8)}

theorem find?_issued (pages : List Nat) (live : Registry Nat (List UInt8)) (page : Nat) :
    (pages.foldl issued live).find? page =
      if page ∈ pages then some (List.replicate pageSize allocFill) else live.find? page := by
  induction pages generalizing live with
  | nil => rfl
  | cons first rest ih =>
    rw [List.foldl_cons, ih, issued, Registry.find?_put]
    by_cases later : page ∈ rest
    · rw [if_pos later, if_pos (List.mem_cons_of_mem _ later)]
    · rw [if_neg later]
      by_cases same : page = first
      · rw [if_pos (beq_iff_eq.mpr same), if_pos (List.mem_cons.mpr (.inl same))]
      · rw [if_neg fun equal => same (eq_of_beq equal),
          if_neg fun member => (List.mem_cons.mp member).elim same later]

theorem wrote_none (through : Option Nat) : wrote live through none = live := by
  cases through <;> rfl

theorem find?_wrote_other {through : Option Nat} {written : Option (Nat × List UInt8)}
    (away : through ≠ some page) : (wrote live through written).find? page = live.find? page := by
  unfold wrote
  split
  · rename_i other address bytes
    rw [Registry.find?_update, if_neg fun same => away (congrArg some (eq_of_beq same).symm)]
  · rfl

end Books

theorem find?_next (a : Account cores) (event : Event) (page : Nat) :
    (a.next event).live.find? page =
      if page ∈ handed (a.holder.step event).1.reply then some (List.replicate pageSize allocFill)
      else (wrote (a.live.filter fun pair => !((a.asked event).contains pair.1 &&
        (a.next event).holder.allocator.isFree pair.1)) (a.holder.through event)
          (a.holder.written event)).find? page :=
  find?_issued ..

structure Isolated (ram : Ram) (a : Account cores) : Prop where
  sound : Sound a
  wiped : ∀ p, a.stock.has p = true → a.holder.allocator.ram.Full p freeFill
  out : ∀ page bytes, a.live.find? page = some bytes →
    (∃ f, a.stock.managed = some f ∧ f.Manages page) ∧ a.stock.has page = false
  contents : ∀ page bytes, a.live.find? page = some bytes →
    a.holder.allocator.ram.bytes page pageSize = bytes
  outside : ∀ address, (∀ f, a.stock.managed = some f → ¬ f.Covers address) →
    a.holder.allocator.ram.byte address = ram.byte address

theorem isolated_start (aligned : ram.base % pageSize = 0) : Isolated ram (start cores ram) := by
  refine ⟨sound_start aligned, ?_, nofun, nofun, fun _ _ => rfl⟩
  intro p has
  rw [Stock.not_has_iff.mpr (by simp [start, Stock.empty])] at has
  cases has

theorem bytes_congr {r s : Ram} (same : ∀ k, k < pageSize → s.byte (page + k) = r.byte (page + k)) :
    s.bytes page pageSize = r.bytes page pageSize :=
  List.map_congr_left fun k small => same k (List.mem_range.mp small)

theorem owned_spares (isolated : Isolated ram a) (owned : Owned a event) : Spares a event := by
  intro f address bytes frames wrote k small word
  obtain ⟨page, through, live⟩ := owned address bytes wrote
  obtain ⟨least, _, _⟩ := Holder.written_inside wrote through
  obtain ⟨contents, found⟩ := Registry.find?_known live
  obtain ⟨⟨g, managed, inside⟩, _⟩ := isolated.out page contents found
  obtain ⟨same, kept⟩ := isolated.sound.shows.of_managed managed
  cases frames.symm.trans same
  have below := Frames.page_outside_table kept.lies inside word
  omega

theorem find?_served (sound : Sound a) {call : Call} (asks : a.holder.call? event = some call)
    (page : Nat) : (a.next event).live.find? page =
      if page ∈ handed (a.holder.step event).1.reply then some (List.replicate pageSize allocFill)
      else if page ∈ call.asked ∧ (a.next event).stock.has page = true then none
      else a.live.find? page := by
  have free := (served_sound sound asks).shows.isFree
  rw [find?_next, Holder.written_call asks, wrote_none, Registry.find?_filter_keys a.live fun page =>
    !((a.asked event).contains page && (a.next event).holder.allocator.isFree page),
    (next_served asks).2, free]
  have freed : (call.asked.contains page && (a.next event).stock.has page) =
      decide (page ∈ call.asked ∧ (a.next event).stock.has page = true) := by simp
  rw [freed]
  by_cases freed : page ∈ call.asked ∧ (a.next event).stock.has page = true
  · rw [decide_eq_true freed, if_pos freed]
    rfl
  · rw [decide_eq_false freed, if_neg freed]
    rfl

theorem served_live (isolated : Isolated ram a) {call : Call} (asks : a.holder.call? event = some call)
    (found : (a.next event).live.find? page = some bytes) :
    (a.next event).stock.has page = false ∧
      (page ∈ handed (a.holder.step event).1.reply ∧ bytes = List.replicate pageSize allocFill ∧
          a.stock.has page = true ∨
        page ∉ handed (a.holder.step event).1.reply ∧ a.live.find? page = some bytes ∧
          a.stock.has page = false) := by
  obtain ⟨reply, _⟩ := Holder.step_serves isolated.sound.shows asks
  obtain ⟨stock, _⟩ := next_served asks
  rw [find?_served isolated.sound asks] at found
  split at found
  · rename_i member
    rw [reply] at member
    obtain ⟨⟨c, stacked⟩, gone⟩ :=
      (Allocator.serve_hands isolated.sound.shows a.holder.cpu.core call).2 page member
    rw [reply, stock]
    exact ⟨gone, .inl ⟨member, (Option.some.inj found).symm, Stock.has_iff.mpr (.inr ⟨c, stacked⟩)⟩⟩
  · rename_i kept
    split at found
    · cases found
    · rename_i unfreed
      obtain ⟨_, out⟩ := isolated.out page bytes found
      refine ⟨Bool.eq_false_iff.mpr fun has => ?_, .inr ⟨kept, found, out⟩⟩
      have serves := Stock.serve_serves a.stock a.holder.cpu.core call
      rcases serves.asked page (stock ▸ has) with before | asked
      · rw [out] at before
        cases before
      · exact unfreed ⟨asked, has⟩

theorem served_isolated (isolated : Isolated ram a) {call : Call}
    (asks : a.holder.call? event = some call) : Isolated ram (a.next event) := by
  have sound := served_sound isolated.sound asks
  obtain ⟨_, follows⟩ := Holder.step_serves isolated.sound.shows asks
  rw [← (next_served asks).1] at follows
  refine ⟨sound, ?_, ?_, ?_, ?_⟩
  · intro p has k small
    obtain ⟨f, managed, inside⟩ := sound.shows.manages has
    have treats := follows.treats f managed
    cases before : a.stock.has p with
    | false => exact treats.taken p inside before has k small
    | true =>
      exact (treats.spared p inside (before.trans has.symm) k small).trans
        (isolated.wiped p before k small)
  · intro page bytes found
    obtain ⟨out, handed | kept⟩ := served_live isolated asks found
    · obtain ⟨f, managed, inside⟩ := isolated.sound.shows.manages handed.2.2
      exact ⟨⟨f, follows.managed f managed, inside⟩, out⟩
    · obtain ⟨⟨f, managed, inside⟩, _⟩ := isolated.out page bytes kept.2.1
      exact ⟨⟨f, follows.managed f managed, inside⟩, out⟩
  · intro page bytes found
    obtain ⟨out, ⟨_, rfl, before⟩ | ⟨_, kept, before⟩⟩ := served_live isolated asks found
    · obtain ⟨f, managed, inside⟩ := isolated.sound.shows.manages before
      exact ((follows.treats f (follows.managed f managed)).handed page inside before out).bytes
    · obtain ⟨⟨f, managed, inside⟩, _⟩ := isolated.out page bytes kept
      rw [← isolated.contents page bytes kept]
      exact bytes_congr ((follows.treats f (follows.managed f managed)).spared page inside
        (before.trans out.symm))
  · intro address beyond
    have earlier := isolated.outside address fun f managed => beyond f (follows.managed f managed)
    cases managed : (a.next event).stock.managed with
    | none =>
      rw [show (a.next event).holder.allocator = a.holder.allocator from (follows.idle managed).1]
      exact earlier
    | some f => exact ((follows.treats f managed).outside address (beyond f managed)).trans earlier

theorem unserved_live (asks : a.holder.call? event = none) :
    (a.next event).live = wrote a.live (a.holder.through event) (a.holder.written event) := by
  obtain ⟨_, unhanded, _⟩ := Holder.step_writes asks
  have books : (a.next event).live = (handed (a.holder.step event).1.reply).foldl issued
      (wrote (a.live.filter fun pair => !((a.asked event).contains pair.1 &&
        (a.next event).holder.allocator.isFree pair.1)) (a.holder.through event)
          (a.holder.written event)) := rfl
  rw [books, unhanded, (next_unserved asks).2, List.filter_eq_self.mpr (by simp)]
  rfl

theorem Isolated.rewritten (isolated : Isolated ram a) (sound : Sound b) (stock : b.stock = a.stock)
    {f : Frames} (managed : a.stock.managed = some f) (here : f.Manages page)
    (out : a.stock.has page = false)
    (books : ∀ q, b.live.find? q = if q = page then some bytes else a.live.find? q)
    (written : b.holder.allocator.ram.bytes page pageSize = bytes)
    (elsewhere : ∀ q, f.Manages q → q ≠ page → ∀ k, k < pageSize →
      b.holder.allocator.ram.byte (q + k) = a.holder.allocator.ram.byte (q + k))
    (outside : ∀ address, ¬ f.Covers address →
      b.holder.allocator.ram.byte address = a.holder.allocator.ram.byte address) : Isolated ram b := by
  refine ⟨sound, ?_, ?_, ?_, ?_⟩
  · rw [stock]
    intro p has k small
    obtain ⟨g, same, managedP⟩ := isolated.sound.shows.manages has
    cases managed.symm.trans same
    have unlike : p ≠ page := by
      rintro rfl
      rw [out] at has
      cases has
    rw [elsewhere p managedP unlike k small]
    exact isolated.wiped p has k small
  · rw [stock]
    intro q new found
    rw [books] at found
    split at found
    · rename_i same
      rw [same]
      exact ⟨⟨f, managed, here⟩, out⟩
    · exact isolated.out q new found
  · intro q new found
    rw [books] at found
    split at found
    · rename_i same
      cases found
      rw [same]
      exact written
    · rename_i unlike
      obtain ⟨⟨g, same, managedQ⟩, _⟩ := isolated.out q new found
      cases managed.symm.trans same
      rw [← isolated.contents q new found]
      exact bytes_congr (elsewhere q managedQ unlike)
  · rw [stock]
    intro other beyond
    rw [outside other (beyond f managed)]
    exact isolated.outside other beyond

theorem unserved_isolated (isolated : Isolated ram a) (asks : a.holder.call? event = none)
    (owned : Owned a event) : Isolated ram (a.next event) := by
  have sound := next_sound isolated.sound (owned_spares isolated owned)
  have stock := (next_unserved asks).1
  have memory : (a.next event).holder.allocator =
    Holder.overwritten a.holder.allocator (a.holder.written event) := (Holder.step_writes asks).1
  have live := unserved_live asks
  cases written : a.holder.written event with
  | none =>
    rw [written] at memory live
    rw [wrote_none] at live
    refine ⟨sound, ?_, ?_, ?_, ?_⟩
    · rw [stock, memory]
      exact isolated.wiped
    · rw [stock, live]
      exact isolated.out
    · rw [live, memory]
      exact isolated.contents
    · rw [stock, memory]
      exact isolated.outside
  | some piece =>
    obtain ⟨address, bytes⟩ := piece
    obtain ⟨page, through, known⟩ := owned address bytes written
    obtain ⟨least, most, inside⟩ := Holder.written_inside written through
    obtain ⟨old, found⟩ := Registry.find?_known known
    obtain ⟨⟨f, managed, here⟩, out⟩ := isolated.out page old found
    rw [written] at memory live
    rw [through] at live
    have books : ∀ q, (a.next event).live.find? q = if q = page then
        some (patched (address - page) bytes old) else a.live.find? q := by
      intro q
      rw [live, wrote, Registry.find?_update]
      by_cases same : q = page
      · rw [if_pos (beq_iff_eq.mpr same), if_pos same, same, found]
        rfl
      · rw [if_neg fun equal => same (eq_of_beq equal), if_neg same]
    -- What is written lies in one page, and all other pages are apart from it.
    refine isolated.rewritten sound stock managed here out books ?_ ?_ ?_ <;> rw [memory]
    · rw [← isolated.contents page old found]
      exact Ram.bytes_setBytes least most inside
    · intro q managedQ unlike k small
      have apart := Frames.pages_apart managedQ here unlike
      exact Ram.byte_setBytes_of_outside (by omega)
    · intro other beyond
      apply Ram.byte_setBytes_of_outside
      apply Ram.beside_of_ne
      rintro k small rfl
      exact beyond (.inr ⟨page, here, by omega, by omega⟩)

theorem run_isolated (path : Run Owned a b) (isolated : Isolated ram a) : Isolated ram b := by
  induction path with
  | refl => exact isolated
  | step _ owned ih =>
    rename_i between event _
    cases asks : between.holder.call? event with
    | none => exact unserved_isolated ih asks owned
    | some call => exact served_isolated ih asks

-- Where memory stands: pages that are not handed out are wiped, the others hold what their owners wrote,
-- and the rest is as it was before the range was taken over.
structure Separated (ram : Ram) (a : Account cores) : Prop where
  wiped : ∀ f (i : UInt32), a.holder.allocator.frames = ⟨some f⟩ → i.toNat < f.count →
    f.linkWord a.holder.allocator.ram i ≠ allocated →
      a.holder.allocator.ram.bytes (f.page i) pageSize = List.replicate pageSize freeFill
  owned : ∀ page bytes, a.live.find? page = some bytes →
    a.holder.allocator.ram.bytes page pageSize = bytes
  read : ∀ name page bytes, a.holder.held.find? name = some page → a.live.find? page = some bytes →
    (a.holder.step (.read name)).1.reply = .done (.bytes bytes)
  outside : ∀ address, (∀ f, a.holder.allocator.frames = ⟨some f⟩ → ¬ f.Covers address) →
    a.holder.allocator.ram.byte address = ram.byte address
  -- A page could be filled with anything, and no link would change.
  apart : ∀ f page byte address, a.holder.allocator.frames = ⟨some f⟩ → f.Manages page →
    f.InTable address →
      (a.holder.allocator.ram.fillPage page byte).byte address = a.holder.allocator.ram.byte address

structure Confined (a : Account cores) (event : Event) : Prop where
  shown : ∀ page bytes, (a.holder.step event).1.reply = .done (.page page bytes) →
    bytes = List.replicate pageSize allocFill
  fresh : ∀ page ∈ handed (a.holder.step event).1.reply,
    (a.next event).holder.allocator.ram.bytes page pageSize = List.replicate pageSize allocFill
  -- Whoever owns a page sees no step that neither writes through it nor frees it.
  kept : ∀ page ∈ a.live.keys, a.holder.through event ≠ some page →
    page ∉ a.asked event ∨ (a.next event).holder.allocator.isFree page = false →
      (a.next event).live.find? page = a.live.find? page
  -- The client changes no link, and a call only those of the pages that it takes back or hands out.
  table : a.holder.call? event = none → ∀ f address, a.holder.allocator.frames = ⟨some f⟩ →
    f.InTable address →
      (a.next event).holder.allocator.ram.byte address = a.holder.allocator.ram.byte address
  words : ∀ f (i : UInt32), a.holder.allocator.frames = ⟨some f⟩ → i.toNat < f.count →
    a.holder.allocator.isFree (f.page i) = (a.next event).holder.allocator.isFree (f.page i) →
      f.linkWord (a.next event).holder.allocator.ram i = f.linkWord a.holder.allocator.ram i

theorem isolated_separated (isolated : Isolated ram a) : Separated ram a := by
  refine ⟨?_, isolated.contents, ?_, ?_, ?_⟩
  · intro f i frames known word
    obtain ⟨_, kept⟩ := isolated.sound.shows.of_frames frames
    exact (isolated.wiped _ ((kept.unmarked known).mp word)).bytes
  · intro name page bytes held found
    obtain ⟨⟨f, managed, inside⟩, _⟩ := isolated.out page bytes found
    have covered := Frames.page_inside (isolated.sound.shows.of_managed managed).2.lies inside
    rw [← isolated.contents page bytes found]
    simp only [Holder.step, Holder.advance, Holder.withBytes, held, covered, if_true]
  · intro address beyond
    exact isolated.outside address fun f managed => beyond f (isolated.sound.shows.of_managed managed).1
  · intro f page byte address frames inside word
    obtain ⟨_, kept⟩ := isolated.sound.shows.of_frames frames
    have below := Frames.page_outside_table kept.lies inside word
    rw [Ram.byte_fillPage (Frames.page_inside kept.lies inside) (Frames.page_aligned kept.lies inside),
      if_neg (by omega)]

theorem owned_table (isolated : Isolated ram a) (owned : Owned a event)
    (asks : a.holder.call? event = none) {f : Frames} {address : Nat}
    (frames : a.holder.allocator.frames = ⟨some f⟩) (word : f.InTable address) :
    (a.next event).holder.allocator.ram.byte address = a.holder.allocator.ram.byte address := by
  have memory : (a.next event).holder.allocator =
    Holder.overwritten a.holder.allocator (a.holder.written event) := (Holder.step_writes asks).1
  rw [memory]
  exact table_overwritten (owned_spares isolated owned) frames word

theorem served_confined (isolated : Isolated ram a) {call : Call}
    (asks : a.holder.call? event = some call) : Confined a event := by
  have next := served_isolated isolated asks
  obtain ⟨reply, follows⟩ := Holder.step_serves isolated.sound.shows asks
  obtain ⟨stock, asked⟩ := next_served asks
  refine ⟨?_, ?_, ?_, ?_, ?_⟩
  · intro page bytes shown
    exact Stock.serve_page (reply.symm.trans shown)
  · intro page member
    refine next.contents page _ ?_
    rw [find?_served isolated.sound asks, if_pos member]
  · intro page member _ unfreed
    obtain ⟨bytes, found⟩ := Registry.find?_known member
    obtain ⟨_, out⟩ := isolated.out page bytes found
    rw [find?_served isolated.sound asks, if_neg, if_neg]
    · rintro ⟨request, has⟩
      rcases unfreed with unasked | free
      · exact unasked (asked ▸ request)
      · rw [next.sound.shows.isFree, has] at free
        cases free
    · rw [reply]
      intro again
      obtain ⟨stacked, _⟩ :=
        (Allocator.serve_hands isolated.sound.shows a.holder.cpu.core call).2 page again
      rw [Stock.has_iff.mpr (.inr stacked)] at out
      cases out
  · intro none
    rw [asks] at none
    cases none
  · intro f i frames known same
    have managed := (isolated.sound.shows.of_frames frames).1
    rw [isolated.sound.shows.isFree, next.sound.shows.isFree, stock] at same
    exact ((follows.treats f (follows.managed f managed)).words managed).2 i known same

theorem unserved_confined (isolated : Isolated ram a) (owned : Owned a event)
    (asks : a.holder.call? event = none) : Confined a event := by
  have unhanded := (Holder.step_writes asks).2.1
  refine ⟨?_, ?_, ?_, fun _ f address => owned_table isolated owned asks, ?_⟩
  · intro page bytes shown
    rw [shown] at unhanded
    cases unhanded
  · rw [unhanded]
    exact nofun
  · intro page _ away _
    rw [unserved_live asks, find?_wrote_other away]
  · intro f i frames known _
    exact Frames.linkWord_congr known fun address => owned_table isolated owned asks frames

theorem isolated_confined (isolated : Isolated ram a) (owned : Owned a event) : Confined a event := by
  cases asks : a.holder.call? event with
  | none => exact unserved_confined isolated owned asks
  | some call => exact served_confined isolated asks

-- In every state that the calls can bring about, if memory is written only by the allocator and through
-- pages that it handed out.
theorem pages_are_isolated (aligned : ram.base % pageSize = 0)
    (path : Run Owned (start cores ram) a) :
    Separated ram a ∧ ∀ event, Owned a event → Confined a event := by
  have isolated := run_isolated path (isolated_start aligned)
  exact ⟨isolated_separated isolated, fun event => isolated_confined isolated⟩

-- The owner of a page writes to it, and the page beside it comes and goes.
theorem pages_are_isolated_written :
    let a := (((start 2 (.zeroed 0x80000000 4)).next (.init 0x80000000 0x80004000)).next
      (.alloc "p")).next (.write "p" 3 [7, 8])
    let b := (a.next (.alloc "q")).next (.free "q")
    Run Owned (start 2 (.zeroed 0x80000000 4)) b ∧ Owned b (.freeAddress 0x80002000) ∧
      (b.live.find? 0x80003000).map (·.take 6) = some [5, 5, 5, 7, 8, 5] ∧
      Separated (.zeroed 0x80000000 4) b ∧ Confined b (.freeAddress 0x80002000) := by
  have before : Run Owned (start 2 (.zeroed 0x80000000 4))
      (((start 2 (.zeroed 0x80000000 4)).next (.init 0x80000000 0x80004000)).next (.alloc "p")) :=
    .step (.step .refl (owned_silent rfl)) (owned_silent rfl)
  have writes : Owned (((start 2 (.zeroed 0x80000000 4)).next (.init 0x80000000 0x80004000)).next
      (.alloc "p")) (.write "p" 3 [7, 8]) :=
    fun _ _ _ => ⟨0x80003000, by decide +kernel, by decide +kernel⟩
  have path : Run Owned (start 2 (.zeroed 0x80000000 4))
      ((((((start 2 (.zeroed 0x80000000 4)).next (.init 0x80000000 0x80004000)).next (.alloc "p")).next
        (.write "p" 3 [7, 8])).next (.alloc "q")).next (.free "q")) :=
    .step (.step (.step before writes) (owned_silent rfl)) (owned_silent rfl)
  have isolated := pages_are_isolated (by decide) path
  exact ⟨path, owned_silent rfl, by decide +kernel, isolated.1, isolated.2 _ (owned_silent rfl)⟩

end Account

end KernelResources.Page
