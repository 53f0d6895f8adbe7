import AstraCore.CheckedBytes
import AstraCore.PriorityQueue
import Mathlib.Data.Finset.Card
import Mathlib.Data.Multiset.Range

namespace AstraCore.SplitHttp
open CheckedBytes PriorityQueue List

-- `cmp` is reversed, so that the packet with the smallest number is the greatest. The numbers are `u64`; a queue does not live
-- long enough to come to their end.
structure Packet where
  seq : Nat
  data : Bytes

variable (heap : Heap Packet.seq)

structure UploadQueue where
  store : heap.Store
  nextSeq : Nat
  maxPackets : Nat

variable {heap}

def UploadQueue.new : UploadQueue heap := ⟨heap.empty,0,128⟩

def UploadQueue.push (queue : UploadQueue heap) (seq : Nat) (data : Bytes) : UploadQueue heap :=
  if seq < queue.nextSeq then queue
  else if heap.len queue.store ≥ queue.maxPackets then queue
  else {queue with store := heap.push ⟨seq,data⟩ queue.store}

def UploadQueue.tryPop (queue : UploadQueue heap) : Option Bytes × UploadQueue heap :=
  if heap.len queue.store = 0 then (none,queue)
  else if (heap.peek queue.store).map Packet.seq = some queue.nextSeq then
    match heap.pop queue.store with
    | some (pkt,rest) => (some pkt.data,{queue with store := rest, nextSeq := queue.nextSeq + 1})
    | none => (none,queue)
  else (none,queue)

def UploadQueue.items (queue : UploadQueue heap) : Multiset Packet := heap.items queue.store

def UploadQueue.Takes (queue : UploadQueue heap) (seq : Nat) : Prop := queue.nextSeq ≤ seq ∧ queue.items.card < queue.maxPackets

instance (queue : UploadQueue heap) (seq : Nat) : Decidable (queue.Takes seq) := inferInstanceAs (Decidable (_ ∧ _))

theorem UploadQueue.push_takes (queue : UploadQueue heap) (seq data) :
    queue.push seq data = if queue.Takes seq then {queue with store := heap.push ⟨seq,data⟩ queue.store} else queue := by
  unfold UploadQueue.push
  by_cases old : seq < queue.nextSeq
  · rw [if_pos old,if_neg fun takes => absurd takes.1 (Nat.not_le.mpr old)]
  · rw [if_neg old]
    by_cases full : heap.len queue.store ≥ queue.maxPackets
    · rw [if_pos full,if_neg fun takes => absurd takes.2 (Nat.not_lt.mpr full)]
    · rw [if_neg full,if_pos ⟨Nat.not_lt.mp old,Nat.not_le.mp full⟩]

theorem UploadQueue.push_items (queue : UploadQueue heap) (data) (takes : queue.Takes seq) : (queue.push seq data).items = ⟨seq,data⟩ ::ₘ queue.items := by
  rw [queue.push_takes,if_pos takes]
  exact heap.items_push ..

theorem UploadQueue.tryPop_some {queue : UploadQueue heap} (popped : queue.tryPop = (some data,later)) :
    ∃ pkt, pkt.seq = queue.nextSeq ∧ pkt.data = data ∧ queue.items = pkt ::ₘ later.items ∧
      (∀ other ∈ later.items, queue.nextSeq ≤ other.seq) ∧ later.nextSeq = queue.nextSeq + 1 ∧ later.maxPackets = queue.maxPackets := by
  unfold UploadQueue.tryPop at popped
  split at popped
  · cases popped
  · split at popped
    · rename_i top
      obtain ⟨pkt,peeked,seq⟩ := Option.map_eq_some_iff.mp top
      obtain ⟨rest,goes⟩ := Heap.peek_some peeked
      rw [goes] at popped
      obtain ⟨same,rfl⟩ := Prod.mk.inj popped
      refine ⟨pkt,seq,Option.some.inj same,heap.pop_items _ _ _ goes,fun other member => ?_,rfl,rfl⟩
      rw [← seq]
      exact heap.pop_first _ _ _ goes other member
    · cases popped

theorem UploadQueue.tryPop_none {queue : UploadQueue heap} (stuck : queue.tryPop = (none,later)) : later = queue := by
  unfold UploadQueue.tryPop at stuck
  split at stuck
  · exact (Prod.mk.inj stuck).2.symm
  · split at stuck
    · split at stuck
      · cases stuck
      · exact (Prod.mk.inj stuck).2.symm
    · exact (Prod.mk.inj stuck).2.symm

theorem UploadQueue.tryPop_next (queue : UploadQueue heap) (present : pkt ∈ queue.items) (next : pkt.seq = queue.nextSeq)
    (clear : ∀ other ∈ queue.items, queue.nextSeq ≤ other.seq) : ∃ data later, queue.tryPop = (some data,later) := by
  obtain ⟨top,rest,popped,items,least⟩ := Heap.peek_mem present
  have inside : top ∈ heap.items queue.store := by
    rw [items]
    exact Multiset.mem_cons_self ..
  have seq := Nat.le_antisymm (next ▸ least) (clear top inside)
  have filled : heap.len queue.store ≠ 0 := by
    rw [Heap.len,items,Multiset.card_cons]
    exact Nat.succ_ne_zero _
  have peeked : (heap.peek queue.store).map Packet.seq = some queue.nextSeq := by
    rw [Heap.peek,popped]
    exact congrArg some seq
  rw [UploadQueue.tryPop,if_neg filled,if_pos peeked,popped]
  exact ⟨_,_,rfl⟩

inductive QueueEvent where
  | push (seq : Nat) (data : Bytes)
  | tryPop

structure Track (heap : Heap Packet.seq) where
  queue : UploadQueue heap
  delivered : List Bytes
  taken : List Nat

def Track.start : Track heap := ⟨.new,[],[]⟩

section
variable (track : Track heap)

def Track.advance : QueueEvent → Track heap
  | .push seq data => ⟨track.queue.push seq data,track.delivered,if track.queue.Takes seq then track.taken ++ [seq] else track.taken⟩
  | .tryPop => ⟨track.queue.tryPop.2,track.delivered ++ track.queue.tryPop.1.toList,track.taken⟩

def Track.after (events : List QueueEvent) : Track heap := events.foldl Track.advance track

def trackOf (heap : Heap Packet.seq) (events : List QueueEvent) : Track heap := Track.start.after events

theorem Track.after_concat (events event) : track.after (events ++ [event]) = (track.after events).advance event := by
  rw [Track.after,foldl_append]
  rfl

theorem Track.after_append (events more) : track.after (events ++ more) = (track.after events).after more := by
  rw [Track.after,foldl_append]
  rfl

def pushed : List QueueEvent → List Nat
  | [] => []
  | .push seq _ :: rest => seq :: pushed rest
  | .tryPop :: rest => pushed rest

theorem pushed_append : pushed (events ++ more) = pushed events ++ pushed more := by
  induction events with
  | nil => rfl
  | cons event rest ih =>
    cases event with
    | push seq data => exact congrArg (seq :: ·) ih
    | tryPop => exact ih

theorem mem_pushed : seq ∈ pushed events ↔ ∃ data, .push seq data ∈ events := by
  induction events with
  | nil => simp [pushed]
  | cons event rest ih =>
    cases event with
    | push other data =>
      rw [pushed,mem_cons,ih]
      constructor
      · rintro (rfl | ⟨data,inside⟩)
        · exact ⟨data,mem_cons_self ..⟩
        · exact ⟨data,mem_cons_of_mem _ inside⟩
      · rintro ⟨found,inside⟩
        rcases mem_cons.mp inside with same | later
        · exact .inl (QueueEvent.push.inj same).1
        · exact .inr ⟨found,later⟩
    | tryPop =>
      rw [pushed,ih]
      exact exists_congr fun data => (or_iff_right (by simp)).symm.trans mem_cons.symm

theorem taken_pushed (early : ∀ seq ∈ track.taken, seq ∈ before) (inside : seq ∈ (track.after events).taken) : seq ∈ before ++ pushed events := by
  induction events generalizing track before with
  | nil => exact mem_append_left _ (early seq inside)
  | cons event rest ih =>
    cases event with
    | push other data =>
      have step : ∀ seq ∈ (track.advance (.push other data)).taken, seq ∈ before ++ [other] := by
        intro seq member
        rw [Track.advance] at member
        split at member
        · rcases mem_append.mp member with old | new
          · exact mem_append_left _ (early seq old)
          · exact mem_append_right _ new
        · exact mem_append_left _ (early seq member)
      have found := ih _ step inside
      rwa [append_assoc] at found
    | tryPop => exact ih (track.advance .tryPop) early inside

end

section
variable (heap : Heap Packet.seq)

def waiting (events : List QueueEvent) : Finset Nat :=
  (pushed events).toFinset.filter fun seq => (trackOf heap events).delivered.length ≤ seq

def QueueEvent.Fits (n : Nat) (payload : Nat → Bytes) : QueueEvent → Prop
  | .push seq data => seq < n ∧ data = payload seq
  | .tryPop => True

instance (n : Nat) (payload : Nat → Bytes) : (event : QueueEvent) → Decidable (event.Fits n payload)
  | .push seq data => inferInstanceAs (Decidable (seq < n ∧ data = payload seq))
  | .tryPop => inferInstanceAs (Decidable True)

-- Every number below `n` is pushed, each time with its payload, and at no moment do more than 128 numbers wait.
structure Posted (n : Nat) (payload : Nat → Bytes) (events : List QueueEvent) : Prop where
  fixed : ∀ event ∈ events, event.Fits n payload
  all : ∀ seq, seq < n → seq ∈ pushed events
  window : ∀ before, before <+: events → (waiting heap before).card ≤ 128

-- At every moment the payloads of the first numbers have come out in their order, and in the end those of all numbers do.
structure Reassembles (n : Nat) (payload : Nat → Bytes) (events : List QueueEvent) : Prop where
  ordered : ∀ before, before <+: events →
    (trackOf heap before).delivered = (List.range (trackOf heap before).delivered.length).map payload
  complete : ∃ pops, (trackOf heap (events ++ List.replicate pops .tryPop)).delivered = (List.range n).map payload

def TakenOnce (n : Nat) (events : List QueueEvent) : Prop :=
  (∀ seq, seq < n → seq ∈ (trackOf heap events).taken) ∧ ∀ seq, seq + 1 < n → (trackOf heap events).taken.count seq ≤ 1

-- A number is pushed again only when it has been delivered.
def Unrepeated (events : List QueueEvent) : Prop :=
  ∀ before seq data, before ++ [.push seq data] <+: events → seq ∉ waiting heap before

end

structure Sound (payload : Nat → Bytes) (track : Track heap) : Prop where
  size : track.queue.maxPackets = 128
  payloads : ∀ pkt ∈ track.queue.items, pkt.data = payload pkt.seq
  delivered : track.delivered = (List.range track.queue.nextSeq).map payload
  taken : (track.taken : Multiset Nat) = track.queue.items.map Packet.seq + Multiset.range track.queue.nextSeq
  -- A packet that was left behind has the number that came out last, and nothing comes out any more.
  recent : ∀ pkt ∈ track.queue.items, track.queue.nextSeq ≤ pkt.seq + 1

theorem start_items : (Track.start : Track heap).queue.items = 0 := heap.items_empty

theorem start_sound (payload) : Sound payload (Track.start : Track heap) := by
  refine ⟨rfl,?_,rfl,?_,?_⟩
  · rw [start_items]
    exact fun pkt inside => absurd inside (Multiset.notMem_zero pkt)
  · rw [start_items]
    rfl
  · exact fun pkt _ => Nat.zero_le _

theorem push_sound (sound : Sound payload track) (seq) : Sound payload (track.advance (.push seq (payload seq))) := by
  by_cases takes : track.queue.Takes seq
  · have items := track.queue.push_items (payload seq) takes
    rw [track.queue.push_takes,if_pos takes] at items
    rw [Track.advance,track.queue.push_takes,if_pos takes,if_pos takes]
    refine ⟨sound.size,fun pkt inside => ?_,sound.delivered,?_,fun pkt inside => ?_⟩
    · rw [items] at inside
      rcases Multiset.mem_cons.mp inside with rfl | old
      · rfl
      · exact sound.payloads pkt old
    · rw [items,Multiset.map_cons,← Multiset.coe_add,sound.taken,Multiset.cons_add,Multiset.add_comm]
      exact Multiset.singleton_add ..
    · rw [items] at inside
      rcases Multiset.mem_cons.mp inside with rfl | old
      · exact Nat.le_succ_of_le takes.1
      · exact sound.recent pkt old
  · have same : track.advance (.push seq (payload seq)) = track := by
      rw [Track.advance,if_neg takes,track.queue.push_takes,if_neg takes]
    rw [same]
    exact sound

theorem tryPop_sound {track : Track heap} (sound : Sound payload track) : Sound payload (track.advance .tryPop) := by
  rcases popped : track.queue.tryPop with ⟨_ | data,later⟩
  · have same : track.advance .tryPop = track := by
      rw [Track.advance,popped,UploadQueue.tryPop_none popped,Option.toList_none,append_nil]
    rw [same]
    exact sound
  · obtain ⟨pkt,seq,rfl,items,behind,next,size⟩ := UploadQueue.tryPop_some popped
    have advanced : track.advance .tryPop = ⟨later,track.delivered ++ [pkt.data],track.taken⟩ := by
      rw [Track.advance,popped]
      rfl
    have inside : pkt ∈ track.queue.items := by
      rw [items]
      exact Multiset.mem_cons_self ..
    rw [advanced]
    refine ⟨size.trans sound.size,fun other member => ?_,?_,?_,fun other member => ?_⟩
    · exact sound.payloads other (by rw [items]; exact Multiset.mem_cons_of_mem member)
    · rw [next,range_succ,map_append,← sound.delivered,sound.payloads pkt inside,seq]
      rfl
    · rw [sound.taken,items,Multiset.map_cons,next,Multiset.range_succ,seq,Multiset.cons_add,Multiset.add_cons]
    · rw [next]
      exact Nat.succ_le_succ (behind other member)

theorem advance_sound (sound : Sound payload track) (fits : event.Fits n payload) : Sound payload (track.advance event) := by
  cases event with
  | push seq data =>
    rw [fits.2]
    exact push_sound sound seq
  | tryPop => exact tryPop_sound sound

theorem after_sound (fixed : ∀ event ∈ events, event.Fits n payload) (sound : Sound payload track) : Sound payload (track.after events) := by
  induction events generalizing track with
  | nil => exact sound
  | cons event rest ih =>
    have kept := advance_sound sound (fixed event (mem_cons_self ..))
    exact ih (fun other inside => fixed other (mem_cons_of_mem _ inside)) kept

theorem posted_sound (posted : Posted heap n payload events) (front : before <+: events) : Sound payload (trackOf heap before) :=
  after_sound (fun event inside => posted.fixed event (front.subset inside)) (start_sound payload)

theorem pops_taken (pops) (track : Track heap) : (track.after (List.replicate pops .tryPop)).taken = track.taken := by
  induction pops generalizing track with
  | zero => rfl
  | succ pops ih => exact ih _

theorem pops_sound (pops) (sound : Sound payload track) : Sound payload (track.after (List.replicate pops .tryPop)) := by
  induction pops generalizing track with
  | zero => exact sound
  | succ pops ih => exact ih (tryPop_sound sound)

theorem tryPop_advances {track : Track heap} (sound : Sound payload track) (all : ∀ seq, seq < n → seq ∈ track.taken)
    (once : ∀ seq, seq + 1 < n → track.taken.count seq ≤ 1) (left : track.queue.nextSeq < n) :
    (track.advance .tryPop).queue.nextSeq = track.queue.nextSeq + 1 := by
  have next : track.queue.nextSeq ∈ track.queue.items.map Packet.seq := by
    have member : track.queue.nextSeq ∈ (track.taken : Multiset Nat) := all _ left
    rw [sound.taken,Multiset.mem_add] at member
    rcases member with inside | old
    · exact inside
    · exact absurd (Multiset.mem_range.mp old) (Nat.lt_irrefl _)
  obtain ⟨pkt,inside,seq⟩ := Multiset.mem_map.mp next
  have clear : ∀ other ∈ track.queue.items, track.queue.nextSeq ≤ other.seq := by
    intro other member
    by_contra old
    -- A packet that was left behind was taken twice.
    have twice : 2 ≤ (track.taken : Multiset Nat).count other.seq := by
      have first := Multiset.count_pos.mpr (Multiset.mem_map_of_mem Packet.seq member)
      have second := Multiset.count_pos.mpr (Multiset.mem_range.mpr (Nat.not_le.mp old))
      rw [sound.taken,Multiset.count_add]
      omega
    rw [Multiset.coe_count] at twice
    exact absurd (once other.seq (by omega)) (by omega)
  obtain ⟨data,later,popped⟩ := track.queue.tryPop_next inside seq clear
  obtain ⟨-,-,-,-,-,step,-⟩ := UploadQueue.tryPop_some popped
  rw [Track.advance,popped]
  exact step

theorem pops_deliver (left) (sound : Sound payload track) (all : ∀ seq, seq < n → seq ∈ track.taken)
    (once : ∀ seq, seq + 1 < n → track.taken.count seq ≤ 1) (missing : track.queue.nextSeq + left = n) :
    (track.after (List.replicate left .tryPop)).queue.nextSeq = n := by
  induction left generalizing track with
  | zero => exact missing
  | succ left ih =>
    have step := tryPop_advances sound all once (by omega)
    exact ih (tryPop_sound sound) all once (by omega)

theorem sound_next (sound : Sound payload track) : track.delivered.length = track.queue.nextSeq := by
  rw [sound.delivered,length_map,length_range]

theorem taken_once (sound : Sound payload track) (reached : track.queue.nextSeq = n) (early : seq + 1 < n) : track.taken.count seq ≤ 1 := by
  have single : (Multiset.range track.queue.nextSeq).count seq ≤ 1 := Multiset.nodup_iff_count_le_one.mp (Multiset.nodup_range _) seq
  have absent : (track.queue.items.map Packet.seq).count seq = 0 := by
    apply Multiset.count_eq_zero.mpr
    intro member
    obtain ⟨pkt,inside,rfl⟩ := Multiset.mem_map.mp member
    have near := sound.recent pkt inside
    omega
  rw [← Multiset.coe_count,sound.taken,Multiset.count_add]
  omega

theorem reassembles_iff_taken (posted : Posted heap n payload events) : Reassembles heap n payload events ↔ TakenOnce heap n events := by
  have sound := posted_sound posted prefix_rfl
  constructor
  · rintro ⟨-,pops,complete⟩
    have last := pops_sound pops sound
    rw [trackOf,Track.after_append] at complete
    have reached : ((trackOf heap events).after (List.replicate pops .tryPop)).queue.nextSeq = n := by
      rw [← sound_next last]
      exact (congrArg List.length complete).trans (by rw [length_map,length_range])
    have taken := pops_taken pops (trackOf heap events)
    constructor
    · intro seq inside
      rw [← taken,← Multiset.mem_coe,last.taken,reached]
      exact Multiset.mem_add.mpr (.inr (Multiset.mem_range.mpr inside))
    · intro seq early
      rw [← taken]
      exact taken_once last reached early
  · rintro ⟨all,once⟩
    constructor
    · intro before front
      have early := posted_sound posted front
      rw [sound_next early]
      exact early.delivered
    · have bounded : (trackOf heap events).queue.nextSeq ≤ n := by
        by_contra beyond
        have inside : n ∈ ((trackOf heap events).taken : Multiset Nat) := by
          rw [sound.taken]
          exact Multiset.mem_add.mpr (.inr (Multiset.mem_range.mpr (Nat.not_le.mp beyond)))
        have found := taken_pushed Track.start (fun _ none_ => none_) inside
        obtain ⟨data,member⟩ := mem_pushed.mp found
        exact absurd (posted.fixed _ member).1 (Nat.lt_irrefl n)
      have reached := pops_deliver (n - (trackOf heap events).queue.nextSeq) sound all once (by omega)
      refine ⟨n - (trackOf heap events).queue.nextSeq,?_⟩
      rw [trackOf,Track.after_append]
      exact (pops_sound _ sound).delivered.trans (congrArg (fun m => (List.range m).map payload) reached)

theorem waiting_push : waiting heap (events ++ [.push seq data]) =
      if (trackOf heap events).delivered.length ≤ seq then insert seq (waiting heap events) else waiting heap events := by
  have delivered : (trackOf heap (events ++ [.push seq data])).delivered = (trackOf heap events).delivered := by
    rw [trackOf,Track.after_concat]
    rfl
  unfold waiting
  rw [delivered,pushed_append]
  split
  · rename_i new
    ext other
    simp only [Finset.mem_filter,mem_toFinset,mem_append,Finset.mem_insert,pushed,mem_singleton]
    constructor
    · rintro ⟨old | rfl,late⟩
      · exact .inr ⟨old,late⟩
      · exact .inl rfl
    · rintro (rfl | ⟨old,late⟩)
      · exact ⟨.inr rfl,new⟩
      · exact ⟨.inl old,late⟩
  · rename_i stale
    ext other
    simp only [Finset.mem_filter,mem_toFinset,mem_append,pushed,mem_singleton]
    constructor
    · rintro ⟨old | rfl,late⟩
      · exact ⟨old,late⟩
      · exact absurd late stale
    · rintro ⟨old,late⟩
      exact ⟨.inl old,late⟩

theorem waiting_tryPop (events) : waiting heap (events ++ [.tryPop]) =
      (waiting heap events).filter fun seq => (trackOf heap (events ++ [.tryPop])).delivered.length ≤ seq := by
  have grown : (trackOf heap events).delivered.length ≤ (trackOf heap (events ++ [.tryPop])).delivered.length := by
    rw [trackOf,trackOf,Track.after_concat,Track.advance,length_append]
    exact Nat.le_add_right ..
  unfold waiting
  rw [Finset.filter_filter,pushed_append,show pushed [.tryPop] = [] from rfl,append_nil]
  refine Finset.filter_congr fun seq _ => ?_
  omega

structure Held (heap : Heap Packet.seq) (events : List QueueEvent) : Prop where
  single : ((trackOf heap events).queue.items.map Packet.seq).Nodup
  same : ∀ seq, seq ∈ (trackOf heap events).queue.items.map Packet.seq ↔ seq ∈ waiting heap events

theorem held_card (held : Held heap events) : (waiting heap events).card = (trackOf heap events).queue.items.card := by
  have same : waiting heap events = ⟨(trackOf heap events).queue.items.map Packet.seq,held.single⟩ := by
    ext seq
    exact (held.same seq).symm
  rw [same]
  exact Multiset.card_map ..

section
variable (sound : Sound payload (trackOf heap events)) (held : Held heap events)
include sound held

theorem push_held (fresh : seq ∉ waiting heap events)
    (window : (waiting heap (events ++ [.push seq data])).card ≤ 128) : Held heap (events ++ [.push seq data]) := by
  have next := sound_next sound
  by_cases new : (trackOf heap events).delivered.length ≤ seq
  · have takes : (trackOf heap events).queue.Takes seq := by
      refine ⟨by omega,?_⟩
      rw [waiting_push,if_pos new,Finset.card_insert_of_notMem fresh,held_card held] at window
      rw [sound.size]
      omega
    have items : (trackOf heap (events ++ [.push seq data])).queue.items = ⟨seq,data⟩ ::ₘ (trackOf heap events).queue.items := by
      rw [trackOf,Track.after_concat]
      exact UploadQueue.push_items _ data takes
    constructor
    · rw [items,Multiset.map_cons,Multiset.nodup_cons]
      exact ⟨fun inside => fresh ((held.same seq).mp inside),held.single⟩
    · intro other
      rw [items,Multiset.map_cons,Multiset.mem_cons,waiting_push,if_pos new,Finset.mem_insert,held.same]
  · have same : (trackOf heap (events ++ [.push seq data])).queue = (trackOf heap events).queue := by
      rw [trackOf,Track.after_concat]
      change UploadQueue.push _ seq data = _
      rw [UploadQueue.push_takes,if_neg fun takes => new (by rw [next]; exact takes.1)]
      rfl
    constructor
    · rw [same]
      exact held.single
    · intro other
      rw [same,waiting_push,if_neg new]
      exact held.same other

theorem tryPop_held : Held heap (events ++ [.tryPop]) := by
  have advanced : trackOf heap _ = (trackOf heap events).advance .tryPop := Track.after_concat ..
  rcases popped : (trackOf heap events).queue.tryPop with ⟨_ | data,later⟩
  · have same : trackOf heap (events ++ [.tryPop]) = trackOf heap events := by
      rw [advanced,Track.advance,popped,UploadQueue.tryPop_none popped,Option.toList_none,append_nil]
    constructor
    · rw [same]
      exact held.single
    · intro other
      rw [waiting_tryPop,same,held.same,Finset.mem_filter]
      refine (and_iff_left_of_imp fun inside => ?_).symm
      exact (Finset.mem_filter.mp inside).2
  · obtain ⟨pkt,seq,rfl,items,behind,step,-⟩ := UploadQueue.tryPop_some popped
    have queue : (trackOf heap (events ++ [.tryPop])).queue = later := by rw [advanced,Track.advance,popped]
    have grown : (trackOf heap (events ++ [.tryPop])).delivered.length = pkt.seq + 1 := by
      rw [advanced,sound_next (tryPop_sound sound),← advanced,queue,step,seq]
    have single := held.single
    rw [items,Multiset.map_cons,Multiset.nodup_cons] at single
    constructor
    · rw [queue]
      exact single.2
    · intro other
      rw [queue,waiting_tryPop,grown,Finset.mem_filter,← held.same,items,Multiset.map_cons,Multiset.mem_cons]
      constructor
      · intro inside
        obtain ⟨packet,member,rfl⟩ := Multiset.mem_map.mp inside
        have distinct : packet.seq ≠ pkt.seq := fun equal => single.1 (equal ▸ inside)
        have low := behind packet member
        exact ⟨.inr inside,by omega⟩
      · rintro ⟨rfl | inside,late⟩
        · exact absurd late (Nat.not_succ_le_self _)
        · exact inside

end

section
variable (posted : Posted heap n payload events) (unrepeated : Unrepeated heap events)
include posted unrepeated

theorem unrepeated_held (front : before <+: events) : Held heap before := by
  induction before using reverseRecOn with
  | nil =>
    have empty : (trackOf heap []).queue.items = 0 := start_items
    constructor
    · rw [empty]
      exact Multiset.nodup_zero
    · rw [empty]
      simp [waiting,pushed]
  | append_singleton before event ih =>
    have earlier := (prefix_append ..).trans front
    have held := ih earlier
    have sound := posted_sound posted earlier
    cases event with
    | push seq data => exact push_held sound held (unrepeated before seq data front) (posted.window _ front)
    | tryPop => exact tryPop_held sound held

theorem unrepeated_taken : TakenOnce heap n events := by
  have held := unrepeated_held posted unrepeated prefix_rfl
  have sound := posted_sound posted prefix_rfl
  have next := sound_next sound
  constructor
  · intro seq inside
    rw [← Multiset.mem_coe,sound.taken,Multiset.mem_add,held.same,Multiset.mem_range]
    by_cases old : seq < (trackOf heap events).queue.nextSeq
    · exact .inr old
    · exact .inl (Finset.mem_filter.mpr ⟨mem_toFinset.mpr (posted.all seq inside),by omega⟩)
  · intro seq _
    have nodup : (((trackOf heap events).taken : Multiset Nat)).Nodup := by
      rw [sound.taken,Multiset.nodup_add]
      refine ⟨held.single,Multiset.nodup_range _,Multiset.disjoint_left.mpr fun inside old => ?_⟩
      have late := (Finset.mem_filter.mp ((held.same _).mp inside)).2
      have early := Multiset.mem_range.mp old
      omega
    exact nodup_iff_count_le_one.mp (Multiset.coe_nodup.mp nodup) seq

end

theorem reassembly_iff (posted : Posted heap n payload events) :
    (Reassembles heap n payload events ↔ TakenOnce heap n events) ∧ (Unrepeated heap events → TakenOnce heap n events) :=
  ⟨reassembles_iff_taken posted,unrepeated_taken posted⟩

theorem waiting_card : (waiting heap events).card ≤ events.length := by
  have count : (pushed events).length ≤ events.length := by
    induction events with
    | nil => exact Nat.le_refl 0
    | cons event rest ih =>
      cases event with
      | push seq data => exact Nat.succ_le_succ ih
      | tryPop => exact Nat.le_succ_of_le ih
  exact (Finset.card_filter_le ..).trans ((toFinset_card_le _).trans count)

theorem posted_few (short : events.length ≤ 128) (fixed : ∀ event ∈ events, event.Fits n payload)
    (all : ∀ seq, seq < n → seq ∈ pushed events) : Posted heap n payload events :=
  ⟨fixed,all,fun _ front => waiting_card.trans (front.length_le.trans short)⟩

def bodyOf (seq : Nat) : Bytes := [UInt8.ofNat seq]

-- Two posts in the wrong order, the first of them sent again after it has come out.
def lateRepeat : List QueueEvent := [.push 1 (bodyOf 1),.push 0 (bodyOf 0),.tryPop,.push 0 (bodyOf 0),.tryPop]

theorem reassembly_iff_late : Posted (listed Packet.seq) 2 bodyOf lateRepeat ∧ Reassembles (listed Packet.seq) 2 bodyOf lateRepeat := by
  have posted : Posted (listed Packet.seq) 2 bodyOf lateRepeat := posted_few (by decide) (by decide) (by decide)
  refine ⟨posted,(reassembly_iff posted).1.mpr ?_⟩
  exact ⟨by decide,fun seq _ => nodup_iff_count_le_one.mp (by decide) seq⟩

-- The first post is sent again while it waits: once it has come out, its copy hides the second post for good.
def earlyRepeat : List QueueEvent := [.push 0 (bodyOf 0),.push 0 (bodyOf 0),.push 1 (bodyOf 1)]

theorem repeated_post_blocks : Posted (listed Packet.seq) 2 bodyOf earlyRepeat ∧
      (trackOf (listed Packet.seq) (earlyRepeat ++ [.tryPop,.tryPop,.tryPop])).delivered = [bodyOf 0] ∧
      ¬ Reassembles (listed Packet.seq) 2 bodyOf earlyRepeat := by
  have posted : Posted (listed Packet.seq) 2 bodyOf earlyRepeat := posted_few (by decide) (by decide) (by decide)
  refine ⟨posted,by rfl,fun reassembles => ?_⟩
  obtain ⟨-,once⟩ := (reassembles_iff_taken posted).mp reassembles
  have twice := once 0 (by decide)
  exact absurd twice (by decide)

end AstraCore.SplitHttp
