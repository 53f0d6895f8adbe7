import AstraCore.Machine
import AstraCore.FifoQueue
import AstraCore.KcpSending
import AstraCore.KcpReceiving

namespace AstraCore.KcpDelivery
open CheckedBytes KcpSegment KcpSending KcpReceiving Machine FifoQueue

-- One sender, one receiver and everything the network has ever been given. A copy may be
-- delivered any number of times, in any order or never, so nothing is taken out of it.
-- `pushed` and `delivered` record the two ends of the stream; no operation reads them.
structure Link where
  sender : SendingWorker
  receiver : ReceivingWorker
  data : List DataSegment
  acks : List AckSegment
  receivingNexts : List UInt32
  sendingNexts : List UInt32
  pushed : List Bytes
  delivered : List Bytes

inductive Event where
  | push (payload : Bytes)
  | flush (current : UInt32) (config : Config) (rto : UInt32)
  | receiveData (copy : Nat)
  | receiveAck (copy : Nat) (rto : UInt32)
  | flushAcks (current rto : UInt32) (conv : UInt16)
  | readMultiBuffer
  | takeReceivingNext
  | takeSendingNext
  | receivingNext (copy : Nat)
  | sendingNext (copy : Nat)

-- A panicking `flush` divides by zero before it has touched the worker, so it is no step.
def advance (link : Link) : Event → Option Link
  | .push payload =>
    match link.sender.push payload with
    | (sender,true) => some {link with sender,pushed := link.pushed ++ [payload]}
    | (sender,false) => some {link with sender}
  | .flush current config rto =>
    match link.sender.flush current config rto with
    | .error _ => none
    | .ok (sender,segs) => some {link with sender,data := link.data ++ segs}
  | .receiveData copy =>
    (link.data[copy]?).map fun seg => {link with receiver := link.receiver.processSegment seg}
  | .receiveAck copy rto =>
    (link.acks[copy]?).map fun seg => {link with sender := link.sender.processSegment seg rto}
  | .flushAcks current rto conv =>
    let (receiver,segs) := link.receiver.flushAcks current rto conv
    some {link with receiver,acks := link.acks ++ segs}
  | .readMultiBuffer =>
    let (receiver,chunks) := link.receiver.readMultiBuffer
    some {link with receiver,delivered := link.delivered ++ chunks}
  | .takeReceivingNext => some {link with receivingNexts := link.receivingNexts ++ [link.receiver.nextNumber]}
  | .takeSendingNext => some {link with sendingNexts := link.sendingNexts ++ [link.sender.firstUnacknowledged]}
  | .receivingNext copy =>
    (link.receivingNexts[copy]?).map fun value => {link with sender := link.sender.processReceivingNext value}
  | .sendingNext copy =>
    (link.sendingNexts[copy]?).map fun value => {link with receiver := link.receiver.processSendingNext value}

def initial (sender : SendingWorker) (mss windowSize : UInt32) : Link :=
  ⟨sender,(ReceivingWorker.new mss).setWindowSize windowSize,[],[],[],[],[],[]⟩

-- Numbers and payloads agree everywhere: in the sender's cache, in every copy in flight and in
-- the receiver's map; what was handed out is the front of what was pushed.
structure Genuine (pushed : List Bytes) (sender : SendingWorker) (flight : List (UInt32 × Bytes))
    (receiver : ReceivingWorker) (delivered : List Bytes) : Prop where
  numbered : sender.nextNumber.toNat = pushed.length
  cached : ∀ item ∈ sender.entries, pushed[item.1.toNat]? = some item.2
  inFlight : ∀ item ∈ flight, pushed[item.1.toNat]? = some item.2
  stored : Faithful pushed receiver.window.cache
  within : receiver.nextNumber.toNat ≤ pushed.length
  stream : delivered = pushed.take receiver.nextNumber.toNat

theorem Genuine.start (created : SendingWorker.new config = .ok sender) (empty : receiver.window.cache = ∅)
    (zero : receiver.nextNumber = 0) : Genuine [] sender [] receiver [] := by
  obtain ⟨entries,next,-⟩ := new_worker created
  refine ⟨by simp [next],by simp [entries],by simp,?_,by simp [zero],by simp⟩
  intro k seg found
  rw [empty] at found
  cases found

section
variable (genuine : Genuine pushed sender flight receiver delivered)
include genuine

theorem Genuine.sends (step : Forgets lost sender after)
    (copies : ∀ item ∈ more, item ∈ sender.entries) : Genuine pushed after (flight ++ more) receiver delivered := by
  refine {genuine with numbered := step.next ▸ genuine.numbered,cached := ?_,inFlight := ?_}
  · exact fun item member => genuine.cached item (step.kept item member)
  · intro item member
    rcases List.mem_append.mp member with old | new
    · exact genuine.inFlight item old
    · exact genuine.cached item (copies item new)

theorem Genuine.receives (stored : Faithful pushed after.window.cache) (still : after.nextNumber = receiver.nextNumber) :
    Genuine pushed sender flight after delivered :=
  {genuine with stored,within := still ▸ genuine.within,stream := still ▸ genuine.stream}

end

theorem getElem?_pushed {i : Nat} (found : pushed[i]? = some payload) (more : List Bytes) : (pushed ++ more)[i]? = some payload := by
  obtain ⟨inside,-⟩ := List.getElem?_eq_some_iff.mp found
  rw [List.getElem?_append_left inside]
  exact found

section
variable (genuine : Genuine pushed sender flight receiver delivered)
include genuine

theorem Genuine.last (payload) : (pushed ++ [payload])[sender.nextNumber.toNat]? = some payload := by
  simp [genuine.numbered]

theorem Genuine.pushes (bounded : pushed.length + 1 < 2^32) (payload) : Genuine (pushed ++ [payload])
      {sender with window := sender.window.push sender.nextNumber payload,nextNumber := sender.nextNumber + 1}
      flight receiver delivered := by
  have last := genuine.last payload
  refine ⟨?_,?_,?_,?_,?_,?_⟩
  · obtain ⟨step,-,-⟩ := next_in_range (by simpa using bounded) last
    simp [step,genuine.numbered]
  · intro item member
    rw [SendingWorker.entries,push_entries sender payload] at member
    rcases List.mem_append.mp member with old | new
    · exact getElem?_pushed (genuine.cached item old) _
    · rw [List.mem_singleton.mp new]
      exact last
  · exact fun item member => getElem?_pushed (genuine.inFlight item member) _
  · exact fun k seg found => getElem?_pushed (genuine.stored k seg found) _
  · exact Nat.le_trans genuine.within (by simp)
  · rw [List.take_append_of_le_length genuine.within]
    exact genuine.stream

theorem Genuine.drains : Drained pushed delivered receiver.window receiver.nextNumber (readLoop receiver.window receiver.nextNumber []) :=
  have bounded := genuine.numbered ▸ sender.nextNumber.toNat_lt
  readLoop_drains bounded delivered _ _ [] genuine.stored genuine.within (by simpa using genuine.stream)

theorem Genuine.reads : Genuine pushed sender flight receiver.readMultiBuffer.1 (delivered ++ receiver.readMultiBuffer.2) := by
  have drained := genuine.drains
  have stored : Faithful pushed _ := fun k seg found => genuine.stored k seg (drained.kept k seg found)
  exact {genuine with stored,within := drained.within,stream := drained.stream}

end

-- On top of that: whatever any acknowledgement in flight lets the sender forget, the receiver already holds.
structure Sound (link : Link) : Prop where
  genuine : Genuine link.pushed link.sender (link.data.map entry) link.receiver link.delivered
  listed : ∀ n ∈ link.receiver.acklist.numbers, link.receiver.Holds n
  named : ∀ ack ∈ link.acks, ∀ n ∈ ack.numberList, link.receiver.Holds n
  counted : ∀ ack ∈ link.acks, ack.receivingNext ≤ link.receiver.nextNumber
  pinged : ∀ value ∈ link.receivingNexts, value ≤ link.receiver.nextNumber
  retained : ∀ n payload, link.pushed[n.toNat]? = some payload → (n,payload) ∈ link.sender.entries ∨ link.receiver.Holds n

theorem initial_sound (created : SendingWorker.new config = .ok sender) : Sound (initial sender mss windowSize) := by
  refine ⟨.start created rfl rfl,?_,?_,?_,?_,?_⟩
  all_goals simp [initial,ReceivingWorker.new,ReceivingWorker.setWindowSize,AckList.new]

section
variable (sound : Sound link) (step : Forgets lost link.sender sender) (safe : ∀ n, lost n → link.receiver.Holds n)
include sound step safe

theorem Sound.sends (copies : ∀ seg ∈ segs, entry seg ∈ link.sender.entries) : Sound {link with sender,data := link.data ++ segs} := by
  refine {sound with genuine := ?_,retained := ?_}
  · simpa only [List.map_append] using sound.genuine.sends step (by simpa using copies)
  · intro n payload accepted
    rcases sound.retained n payload accepted with still | held
    · exact (step.only _ still).imp_right (safe n)
    · exact .inr held

theorem Sound.forgets : Sound {link with sender} := by
  have sent : Sound {link with sender,data := link.data ++ []} := sound.sends step safe (by simp)
  simpa using sent

end

section
variable (sound : Sound link) (step : Advances link.receiver receiver) (genuine : Genuine link.pushed link.sender (link.data.map entry) receiver delivered)
include sound step genuine

theorem Sound.receives (acks : ∀ seg ∈ segs, seg.receivingNext = receiver.nextNumber ∧ ∀ n ∈ seg.numberList, receiver.Holds n) :
    Sound {link with receiver,delivered,acks := link.acks ++ segs} := by
  refine ⟨genuine,?_,?_,?_,?_,?_⟩
  · intro n member
    exact (step.acked n member).elim (fun old => step.held n (sound.listed n old)) id
  · intro ack member n named
    rcases List.mem_append.mp member with old | new
    · exact step.held n (sound.named ack old n named)
    · exact (acks ack new).2 n named
  · intro ack member
    rcases List.mem_append.mp member with old | new
    · exact UInt32.le_trans (sound.counted ack old) step.forward
    · exact (acks ack new).1 ▸ UInt32.le_refl _
  · exact fun value member => UInt32.le_trans (sound.pinged value member) step.forward
  · exact fun n payload accepted => (sound.retained n payload accepted).imp_right (step.held n)

theorem Sound.updates : Sound {link with receiver,delivered} := by
  have received : Sound {link with receiver,delivered,acks := link.acks ++ []} := sound.receives step genuine (by simp)
  simpa using received

end

theorem Sound.pushes (sound : Sound link) (bounded : link.pushed.length + 1 < 2^32) (payload) : Sound {link with
      sender := {link.sender with
        window := link.sender.window.push link.sender.nextNumber payload,nextNumber := link.sender.nextNumber + 1}
      pushed := link.pushed ++ [payload]} := by
  refine {sound with genuine := sound.genuine.pushes bounded payload,retained := ?_}
  intro n other accepted
  rw [SendingWorker.entries,push_entries link.sender payload]
  by_cases old : n.toNat < link.pushed.length
  · rw [List.getElem?_append_left old] at accepted
    exact (sound.retained n other accepted).imp_left (List.mem_append_left _)
  · obtain ⟨inside,-⟩ := List.getElem?_eq_some_iff.mp accepted
    have position : n = link.sender.nextNumber := by
      apply UInt32.toNat_inj.mp
      rw [sound.genuine.numbered]
      simp at inside
      omega
    subst position
    cases Option.some.inj ((sound.genuine.last payload).symm.trans accepted)
    exact .inl (by simp)

theorem advance_stream (step : advance link event = some next) :
    (∃ payload, event = .push payload ∧ next.pushed = link.pushed ++ [payload] ∧ next.delivered = link.delivered) ∨
      next.pushed = link.pushed ∧ ∃ chunks, next.delivered = link.delivered ++ chunks := by
  cases event with
  | push payload =>
    simp only [advance] at step
    split at step <;> cases step
    · exact .inl ⟨payload,rfl,rfl,rfl⟩
    · exact .inr ⟨rfl,[],by simp⟩
  | flush current config rto =>
    simp only [advance] at step
    split at step <;> cases step
    exact .inr ⟨rfl,[],by simp⟩
  | receiveData copy | receiveAck copy rto | receivingNext copy | sendingNext copy =>
    obtain ⟨_,-,rfl⟩ := Option.map_eq_some_iff.mp step
    exact .inr ⟨rfl,[],by simp⟩
  | readMultiBuffer =>
    cases step
    exact .inr ⟨rfl,_,rfl⟩
  | flushAcks _ _ _ | takeReceivingNext | takeSendingNext =>
    cases step
    exact .inr ⟨rfl,[],by simp⟩

theorem advance_pushed (step : advance link event = some next) : link.pushed <+: next.pushed := by
  rcases advance_stream step with ⟨payload,-,pushed,-⟩ | ⟨pushed,-⟩
  · exact ⟨[payload],pushed.symm⟩
  · exact pushed ▸ List.prefix_rfl

theorem advance_sound (sound : Sound link) (step : advance link event = some next) (bounded : next.pushed.length < 2^32) : Sound next := by
  cases event with
  | push payload =>
    simp only [advance] at step
    rcases push_cases link.sender payload with refused | accepted
    · rw [refused] at step
      cases step
      exact sound
    · rw [accepted] at step
      cases step
      exact sound.pushes (by simpa using bounded) payload
  | flush current config rto =>
    simp only [advance] at step
    split at step <;> cases step
    rename_i sender segs flushed
    obtain ⟨forgets,copies⟩ := flush_forgets flushed
    exact sound.sends forgets (fun _ never => never.elim) copies
  | receiveData copy =>
    obtain ⟨seg,found,rfl⟩ := Option.map_eq_some_iff.mp step
    have copy := sound.genuine.inFlight (entry seg) (List.mem_map_of_mem (List.mem_of_getElem? found))
    exact sound.updates (processSegment_advances _ seg)
      (sound.genuine.receives (processSegment_faithful _ sound.genuine.stored copy) (processSegment_next _ seg))
  | receiveAck copy rto =>
    obtain ⟨ack,found,rfl⟩ := Option.map_eq_some_iff.mp step
    have member := List.mem_of_getElem? found
    apply sound.forgets (processSegment_forgets link.sender ack rto)
    intro n lost
    rcases lost with counted | named
    · exact .inl (UInt32.lt_of_lt_of_le counted (sound.counted ack member))
    · exact sound.named ack member n named
  | flushAcks current rto conv =>
    cases step
    apply sound.receives (flushAcks_advances link.receiver current rto conv) (sound.genuine.receives sound.genuine.stored rfl)
    intro seg member
    obtain ⟨counted,named⟩ := flushAcks_segments member
    exact ⟨counted,fun n there => sound.listed n (named n there)⟩
  | readMultiBuffer =>
    cases step
    exact sound.updates sound.genuine.drains.advances sound.genuine.reads
  | takeReceivingNext =>
    cases step
    refine {sound with pinged := ?_}
    intro value member
    rcases List.mem_append.mp member with old | new
    · exact sound.pinged value old
    · rw [List.mem_singleton.mp new]
      exact UInt32.le_refl _
  | takeSendingNext =>
    cases step
    exact {sound with}
  | receivingNext copy =>
    obtain ⟨value,found,rfl⟩ := Option.map_eq_some_iff.mp step
    apply sound.forgets (processReceivingNext_forgets link.sender value)
    exact fun n lost => .inl (UInt32.lt_of_lt_of_le lost (sound.pinged value (List.mem_of_getElem? found)))
  | sendingNext copy =>
    obtain ⟨value,-,rfl⟩ := Option.map_eq_some_iff.mp step
    exact sound.updates (processSendingNext_advances link.receiver value)
      (sound.genuine.receives sound.genuine.stored rfl)

def Event.isPush : Event → Bool
  | .push _ => true
  | _ => false

def pushes (events : List Event) : Nat := events.countP Event.isPush

theorem pushed_at_most (path : run advance (initial sender mss windowSize) events = some link) : link.pushed.length ≤ pushes events := by
  refine run_history (fun history link => link.pushed.length ≤ pushes history) ?_ ?_ path
  · intro history link event next counted step
    rw [pushes,List.countP_append]
    rw [pushes] at counted
    rcases advance_stream step with ⟨payload,rfl,pushed,-⟩ | ⟨pushed,-⟩
    · rw [pushed,List.length_append]
      exact Nat.add_le_add counted (by simp [Event.isPush])
    · rw [pushed]
      omega
  · simp [initial]

theorem run_sound (created : SendingWorker.new config = .ok sender)
    (path : run advance (initial sender mss windowSize) events = some link) (few : pushes events < 2^31) : Sound link := by
  have bounded := pushed_at_most path
  refine run_invariant (fun link => link.pushed.length < 2^32 → Sound link) ?_ ?_ path (by omega)
  · intro link event next sound step bounded
    have earlier := (advance_pushed step).length_le
    exact advance_sound (sound (by omega)) step bounded
  · exact fun _ => initial_sound created

def Shows (link : Link) (queue : Fifo Bytes) : Prop :=
  link.pushed.length < 2^32 → Sound link ∧ queue.accepted = link.pushed ∧ queue.delivered = link.delivered

theorem advance_refines (shown : Shows link queue) (step : advance link event = some next) :
    ∃ after, Relation.ReflTransGen Fifo.Step queue after ∧ Shows next after := by
  by_cases bounded : next.pushed.length < 2^32
  · have earlier := (advance_pushed step).length_le
    obtain ⟨sound,accepted,delivered⟩ := shown (by omega)
    have later := advance_sound sound step bounded
    rcases advance_stream step with ⟨payload,-,pushed,still⟩ | ⟨pushed,chunks,grown⟩
    · refine ⟨queue.push payload,.single (queue.push_step payload),fun _ => ⟨later,?_,?_⟩⟩
      · rw [pushed,← accepted]
        rfl
      · rw [still,← delivered]
        rfl
    · have front : queue.delivered ++ chunks <+: queue.accepted := by
        rw [delivered,← grown,later.genuine.stream,accepted,pushed]
        exact List.take_prefix _ _
      exact ⟨_,queue.deliver_many chunks front,fun _ => ⟨later,accepted.trans pushed.symm,by rw [grown,← delivered]⟩⟩
  · exact ⟨queue,.refl,fun inside => absurd inside bounded⟩

-- Whatever the network does, the link behaves as a queue from `push` to `read_multi_buffer`.
theorem delivered_in_order (created : SendingWorker.new config = .ok sender)
    (path : run advance (initial sender mss windowSize) events = some link) (few : pushes events < 2^31) :
    link.delivered <+: link.pushed := by
  have start : Shows (initial sender mss windowSize) Fifo.empty := fun _ => ⟨initial_sound created,rfl,rfl⟩
  obtain ⟨queue,-,joined⟩ := run_simulates (fun _ _ _ _ => advance_refines) start path
  have bounded := pushed_at_most path
  obtain ⟨-,accepted,delivered⟩ := joined (by omega)
  rw [← accepted,← delivered]
  exact queue.inOrder

def freshSender : SendingWorker := ⟨.new,0,0,32,194,1553,false,false⟩

theorem freshSender_created : SendingWorker.new .default = .ok freshSender := by decide

-- The second segment arrives first and twice, and its acknowledgement overtakes the first segment.
def overtakingRun : List Event :=
  [.push [1,2],.push [3],.flush 0 .default 100,.receiveData 1,.receiveData 1,.flushAcks 5 100 7,.receiveAck 0 100,
    .takeReceivingNext,.receivingNext 0,.receiveData 0,.readMultiBuffer,.readMultiBuffer]

theorem delivered_in_order_overtaking : ∃ link,
    run advance (initial freshSender 1335 1024) overtakingRun = some link ∧ link.delivered <+: link.pushed := by
  obtain ⟨link,path⟩ := Option.isSome_iff_exists.mp
    (by decide : (run advance (initial freshSender 1335 1024) overtakingRun).isSome)
  exact ⟨link,path,delivered_in_order freshSender_created path (by decide)⟩

theorem nothing_lost (created : SendingWorker.new config = .ok sender)
    (path : run advance (initial sender mss windowSize) events = some link) (few : pushes events < 2^31) :
    link.sender.nextNumber.toNat = link.pushed.length ∧
      ∀ n payload, link.pushed[n]? = some payload →
        (∃ seg ∈ link.sender.window.cache, seg.number.toNat = n ∧ seg.payload = payload) ∨
        n < link.receiver.nextNumber.toNat ∨
        ∃ seg, link.receiver.window.cache.lookup (UInt32.ofNat n) = some seg ∧ seg.payload = payload := by
  have sound := run_sound created path few
  have bounded := pushed_at_most path
  refine ⟨sound.genuine.numbered,?_⟩
  intro n payload accepted
  obtain ⟨inside,-⟩ := List.getElem?_eq_some_iff.mp accepted
  have number := UInt32.toNat_ofNat_of_lt' (by change n < 2^32; omega)
  rcases sound.retained _ payload (by rw [number]; exact accepted) with still | behind | stored
  · obtain ⟨seg,member,same⟩ := List.mem_map.mp still
    obtain ⟨position,content⟩ := Prod.mk.inj same
    exact .inl ⟨seg,member,by rw [position,number],content⟩
  · rw [UInt32.lt_iff_toNat_lt,number] at behind
    exact .inr (.inl behind)
  · obtain ⟨seg,found⟩ := Option.isSome_iff_exists.mp (AList.lookup_isSome.mpr stored)
    have same := sound.genuine.stored _ seg found
    rw [number,accepted] at same
    exact .inr (.inr ⟨seg,found,(Option.some.inj same).symm⟩)

theorem nothing_lost_overtaking : ∃ link, run advance (initial freshSender 1335 1024) overtakingRun = some link ∧
      ∀ n payload, link.pushed[n]? = some payload →
        (∃ seg ∈ link.sender.window.cache, seg.number.toNat = n ∧ seg.payload = payload) ∨
        n < link.receiver.nextNumber.toNat ∨
        ∃ seg, link.receiver.window.cache.lookup (UInt32.ofNat n) = some seg ∧ seg.payload = payload := by
  obtain ⟨link,path⟩ := Option.isSome_iff_exists.mp
    (by decide : (run advance (initial freshSender 1335 1024) overtakingRun).isSome)
  exact ⟨link,path,(nothing_lost freshSender_created path (by decide)).2⟩

theorem readLoop_stops (window next result) : (readLoop window next result).1.cache.lookup (readLoop window next result).2.1 = none := by
  induction window,next,result using readLoop.induct with
  | case1 window next result seg found ih => rwa [readLoop_next found]
  | case2 window next result missing => rwa [readLoop_done missing]

-- After a read the receiver has everything, or the sender still has the number it waits for.
def Resumable (link : Link) : Prop :=
  link.delivered ++ link.receiver.readMultiBuffer.2 = link.pushed ∨
    ∃ seg ∈ link.sender.window.cache, seg.number = link.receiver.readMultiBuffer.1.nextNumber

theorem always_resumable (created : SendingWorker.new config = .ok sender)
    (path : run advance (initial sender mss windowSize) events = some link) (few : pushes events < 2^31) : Resumable link := by
  have sound := run_sound created path few
  have reads := sound.genuine.reads
  have missing := readLoop_stops link.receiver.window link.receiver.nextNumber []
  by_cases short : link.receiver.readMultiBuffer.1.nextNumber.toNat < link.pushed.length
  · have waited := List.getElem?_eq_getElem short
    rcases sound.retained _ _ waited with kept | held
    · obtain ⟨seg,member,same⟩ := List.mem_map.mp kept
      exact .inr ⟨seg,member,(Prod.mk.inj same).1⟩
    · rcases sound.genuine.drains.advances.held _ held with behind | stored
      · exact absurd behind (UInt32.lt_irrefl _)
      · exact absurd stored (AList.lookup_eq_none.mp missing)
  · left
    rw [reads.stream,List.take_of_length_le (Nat.le_of_not_lt short)]

theorem resumable_overtaking : ∃ link, run advance (initial freshSender 1335 1024) overtakingRun = some link ∧ Resumable link := by
  obtain ⟨link,path⟩ := Option.isSome_iff_exists.mp
    (by decide : (run advance (initial freshSender 1335 1024) overtakingRun).isSome)
  exact ⟨link,path,always_resumable freshSender_created path (by decide)⟩

end AstraCore.KcpDelivery
