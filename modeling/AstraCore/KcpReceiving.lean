import Mathlib.Data.List.AList
import AstraCore.KcpSegment

namespace AstraCore.KcpReceiving
open CheckedBytes KcpSegment List

abbrev Cache := AList (fun _ : UInt32 => DataSegment)

structure ReceivingWindow where
  cache : Cache

def ReceivingWindow.new : ReceivingWindow := ⟨∅⟩

section
variable (window : ReceivingWindow)

def ReceivingWindow.set (id : UInt32) (seg : DataSegment) : ReceivingWindow × Bool :=
  if id ∈ window.cache then (window,false) else (⟨window.cache.insert id seg⟩,true)

end

-- Three parallel vectors; their common length is part of the type, so an index
-- below `numbers.length` is inside all of them.
structure AckList where
  timestamps : List UInt32
  numbers : List UInt32
  nextFlush : List UInt32
  flushCandidates : List UInt32
  dirty : Bool
  mss : UInt32
  timestampsAligned : timestamps.length = numbers.length
  nextFlushAligned : nextFlush.length = numbers.length

-- `Vec::with_capacity(128)`, never exceeded by the guarded push below.
def candidateCapacity : Nat := 128

def AckList.new (mss : UInt32) : AckList := ⟨[],[],[],[],false,mss,rfl,rfl⟩

section
variable (list : AckList)

def AckList.add (number timestamp : UInt32) : AckList :=
  {list with
    timestamps := list.timestamps ++ [timestamp]
    numbers := list.numbers ++ [number]
    nextFlush := list.nextFlush ++ [0]
    dirty := true
    timestampsAligned := by simp [list.timestampsAligned]
    nextFlushAligned := by simp [list.nextFlushAligned]}

structure Compaction where
  timestamps : List UInt32
  numbers : List UInt32
  nextFlush : List UInt32
  count : Nat

def Compaction.visit (una : UInt32) (state : Compaction) (i : Nat) : Compaction :=
  if state.numbers.getD i 0 < una then state
  else if i ≠ state.count then
    ⟨state.timestamps.set state.count (state.timestamps.getD i 0),
      state.numbers.set state.count (state.numbers.getD i 0),
      state.nextFlush.set state.count (state.nextFlush.getD i 0),state.count + 1⟩
  else {state with count := state.count + 1}

def Compaction.Aligned (state : Compaction) : Prop :=
  state.timestamps.length = state.numbers.length ∧ state.nextFlush.length = state.numbers.length

theorem Compaction.visit_aligned (una i) (aligned : Aligned state) : Aligned (visit una state i) := by
  unfold visit
  split
  · exact aligned
  · split
    · simpa [Aligned] using aligned
    · exact aligned

theorem Compaction.scan_aligned (una) (indices : List Nat) (aligned : Aligned state) : Aligned (indices.foldl (visit una) state) := by
  induction indices generalizing state with
  | nil => exact aligned
  | cons i rest ih => exact ih (visit_aligned una i aligned)

def AckList.compact (una : UInt32) : Compaction :=
  (List.range list.numbers.length).foldl (Compaction.visit una) ⟨list.timestamps,list.numbers,list.nextFlush,0⟩

theorem AckList.compact_aligned (una) : (list.compact una).Aligned :=
  Compaction.scan_aligned una _ ⟨list.timestampsAligned,list.nextFlushAligned⟩

def AckList.clear (una : UInt32) : AckList :=
  let kept := list.compact una
  if kept.count < kept.numbers.length then
    {list with
      timestamps := kept.timestamps.take kept.count
      numbers := kept.numbers.take kept.count
      nextFlush := kept.nextFlush.take kept.count
      dirty := true
      timestampsAligned := by simp [(list.compact_aligned una).1,kept]
      nextFlushAligned := by simp [(list.compact_aligned una).2,kept]}
  else
    {list with
      timestamps := kept.timestamps
      numbers := kept.numbers
      nextFlush := kept.nextFlush
      timestampsAligned := (list.compact_aligned una).1
      nextFlushAligned := (list.compact_aligned una).2}

def AckList.needFlush : Bool := !list.numbers.isEmpty

structure AckFlush where
  nextFlush : List UInt32
  flushCandidates : List UInt32
  seg : AckSegment
  result : List AckSegment
  dirty : Bool

def freshAck (maxAcks : Nat) (conv : UInt16) : AckSegment := {AckSegment.new maxAcks with conv}

def AckFlush.visit (maxAcks : Nat) (current rto : UInt32) (conv : UInt16) (state : AckFlush) (i : Nat) :
    AckFlush :=
  if state.nextFlush.getD i 0 > current then
    if state.flushCandidates.length < candidateCapacity then
      {state with flushCandidates := state.flushCandidates ++ [list.numbers.getD i 0]}
    else state
  else
    let seg := (state.seg.putNumber (list.numbers.getD i 0)).putTimestamp (list.timestamps.getD i 0)
    let timeout := max (rto/2) 20
    let nextFlush := state.nextFlush.set i (current + timeout)
    if seg.isFull then
      {state with nextFlush,seg := freshAck maxAcks conv,result := state.result ++ [seg],dirty := false}
    else {state with nextFlush,seg}

end

def fillCandidates : List UInt32 → AckSegment → AckSegment
  | [],seg => seg
  | n :: rest,seg => if seg.isFull then seg else fillCandidates rest (seg.putNumber n)

theorem AckFlush.visit_length (list maxAcks current rto conv) (state i) :
    (visit list maxAcks current rto conv state i).nextFlush.length = state.nextFlush.length := by
  unfold visit
  dsimp only
  repeat' split
  all_goals simp

def AckList.scan (list : AckList) (current rto : UInt32) (conv : UInt16) : AckFlush :=
  let maxAcks := (list.mss.toNat - 17)/4
  (List.range list.numbers.length).foldl (AckFlush.visit list maxAcks current rto conv)
    ⟨list.nextFlush,[],freshAck maxAcks conv,[],list.dirty⟩

theorem AckList.scan_length (list : AckList) (current rto conv) : (list.scan current rto conv).nextFlush.length = list.numbers.length := by
  have keeps : ∀ (indices : List Nat) (maxAcks : Nat) state,
      (indices.foldl (AckFlush.visit list maxAcks current rto conv) state).nextFlush.length = state.nextFlush.length := by
    intro indices maxAcks
    induction indices with
    | nil => intro state; rfl
    | cons i rest ih => intro state; rw [foldl_cons,ih,AckFlush.visit_length]
  exact (keeps _ _ _).trans list.nextFlushAligned

def AckList.flush (list : AckList) (current rto : UInt32) (conv : UInt16) : AckList × List AckSegment :=
  let done := list.scan current rto conv
  let list := {list with
    nextFlush := done.nextFlush
    flushCandidates := done.flushCandidates
    nextFlushAligned := list.scan_length current rto conv}
  if done.dirty || !done.seg.isEmpty then
    ({list with dirty := false},done.result ++ [fillCandidates done.flushCandidates done.seg])
  else ({list with dirty := done.dirty},done.result)

structure ReceivingWorker where
  window : ReceivingWindow
  acklist : AckList
  nextNumber : UInt32
  windowSize : UInt32

def ReceivingWorker.new (mss : UInt32) : ReceivingWorker :=
  ⟨.new,.new (mss + UInt32.ofNat dataSegmentOverhead),0,1024⟩

section
variable (worker : ReceivingWorker)

def ReceivingWorker.setWindowSize (size : UInt32) : ReceivingWorker :=
  {worker with windowSize := size}

def ReceivingWorker.processSendingNext (number : UInt32) : ReceivingWorker :=
  {worker with acklist := worker.acklist.clear number}

def ReceivingWorker.processSegment (seg : DataSegment) : ReceivingWorker :=
  let idx := seg.number - worker.nextNumber
  if idx ≥ worker.windowSize then worker
  else
    {worker with
      acklist := (worker.acklist.clear seg.sendingNext).add seg.number seg.timestamp
      window := (worker.window.set seg.number seg).1}

theorem erase_shorter {cache : Cache} {id : UInt32} (found : cache.lookup id = some seg) : (cache.erase id).keys.length < cache.keys.length := by
  have member : id ∈ cache.keys := AList.mem_keys.mp (AList.lookup_isSome.mp (by simp [found]))
  have nonempty := length_pos_of_mem member
  rw [AList.keys_erase,length_erase_of_mem member]
  omega

def readLoop (window : ReceivingWindow) (nextNumber : UInt32) (result : List Bytes) :
    ReceivingWindow × UInt32 × List Bytes :=
  match _found : window.cache.lookup nextNumber with
  | some seg => readLoop ⟨window.cache.erase nextNumber⟩ (nextNumber + 1) (result ++ [seg.payload])
  | none => (window,nextNumber,result)
termination_by window.cache.keys.length
decreasing_by exact erase_shorter _found

def ReceivingWorker.readMultiBuffer : ReceivingWorker × List Bytes :=
  let (window,nextNumber,result) := readLoop worker.window worker.nextNumber []
  ({worker with window,nextNumber},result)

def ReceivingWorker.flushAcks (current rto : UInt32) (conv : UInt16) :
    ReceivingWorker × List AckSegment :=
  let (acklist,segs) := worker.acklist.flush current rto conv
  ({worker with acklist},segs.map fun seg =>
    {seg with receivingNext := worker.nextNumber,receivingWindow := worker.nextNumber + worker.windowSize})

-- `close_read` has an empty body.
def ReceivingWorker.closeRead : ReceivingWorker := worker

def ReceivingWorker.updateNecessary : Bool := worker.acklist.needFlush

theorem getD_mem {numbers : List UInt32} (inside : i < numbers.length) : numbers.getD i 0 ∈ numbers := by
  rw [getD_eq_getElem?_getD,getElem?_eq_getElem inside]
  exact getElem_mem inside

theorem Compaction.visit_numbers (una) (inside : i < state.numbers.length) (member : n ∈ (visit una state i).numbers) : n ∈ state.numbers := by
  unfold visit at member
  split at member
  · exact member
  · split at member
    · rcases mem_or_eq_of_mem_set member with old | moved
      · exact old
      · rw [moved]; exact getD_mem inside
    · exact member

theorem Compaction.scan_numbers (una) (indices : List Nat) (state) (inside : ∀ i ∈ indices, i < state.numbers.length) :
    ∀ n ∈ (indices.foldl (visit una) state).numbers, n ∈ state.numbers := by
  induction indices generalizing state with
  | nil => exact fun n member => member
  | cons i rest ih =>
    have length : (visit una state i).numbers.length = state.numbers.length := by
      unfold visit
      split
      · rfl
      · split <;> simp
    intro n member
    have later := ih _ (fun j other => by rw [length]; exact inside j (by simp [other])) n member
    exact visit_numbers una (inside i (by simp)) later

theorem AckList.clear_numbers {list : AckList} (member : n ∈ (list.clear una).numbers) : n ∈ list.numbers := by
  have scanned : ∀ n ∈ (list.compact una).numbers, n ∈ list.numbers :=
    Compaction.scan_numbers una _ ⟨list.timestamps,list.numbers,list.nextFlush,0⟩ (fun i => by simp)
  unfold AckList.clear at member
  dsimp only at member
  split at member
  · exact scanned n (mem_of_mem_take member)
  · exact scanned n member

structure AckFlush.From (numbers : List UInt32) (state : AckFlush) : Prop where
  candidates : ∀ n ∈ state.flushCandidates, n ∈ numbers
  filling : ∀ n ∈ state.seg.numberList, n ∈ numbers
  full : ∀ seg ∈ state.result, ∀ n ∈ seg.numberList, n ∈ numbers

@[simp] theorem putTimestamp_numbers (seg : AckSegment) (timestamp) : (seg.putTimestamp timestamp).numberList = seg.numberList := by
  unfold AckSegment.putTimestamp
  split <;> rfl

theorem AckFlush.visit_from (list maxAcks current rto conv state) (inside : i < list.numbers.length) (source : From list.numbers state) :
    From list.numbers (visit list maxAcks current rto conv state i) := by
  have listed := getD_mem inside
  have grown : ∀ n ∈ ((state.seg.putNumber (list.numbers.getD i 0)).putTimestamp (list.timestamps.getD i 0)).numberList,n ∈ list.numbers := by
    intro n member
    rw [putTimestamp_numbers] at member
    rcases mem_append.mp member with old | new
    · exact source.filling n old
    · rw [mem_singleton.mp new]; exact listed
  unfold visit
  dsimp only
  split
  · split
    · refine ⟨?_,source.filling,source.full⟩
      intro n member
      rcases mem_append.mp member with old | new
      · exact source.candidates n old
      · rw [mem_singleton.mp new]; exact listed
    · exact source
  · split
    · refine ⟨source.candidates,by simp [freshAck,AckSegment.new],?_⟩
      intro seg member
      rcases mem_append.mp member with old | new
      · exact source.full seg old
      · rw [mem_singleton.mp new]; exact grown
    · exact ⟨source.candidates,grown,source.full⟩

theorem AckFlush.scan_from (list maxAcks current rto conv) (indices : List Nat)
    (state) (inside : ∀ i ∈ indices, i < list.numbers.length) (source : From list.numbers state) :
    From list.numbers (indices.foldl (visit list maxAcks current rto conv) state) := by
  induction indices generalizing state with
  | nil => exact source
  | cons i rest ih =>
    exact ih _ (fun j other => inside j (by simp [other])) (visit_from _ _ _ _ _ _ (inside i (by simp)) source)

theorem fillCandidates_numbers (seg) (member : n ∈ (fillCandidates candidates seg).numberList) : n ∈ seg.numberList ∨ n ∈ candidates := by
  induction candidates generalizing seg with
  | nil => exact .inl member
  | cons candidate rest ih =>
    rw [fillCandidates] at member
    split at member
    · exact .inl member
    · rcases ih _ member with filled | later
      · rcases mem_append.mp filled with old | new
        · exact .inl old
        · exact .inr (by simp [mem_singleton.mp new])
      · exact .inr (mem_cons_of_mem _ later)

theorem AckList.flush_numbers (list : AckList) (current rto conv) : (list.flush current rto conv).1.numbers = list.numbers ∧
      ∀ seg ∈ (list.flush current rto conv).2, ∀ n ∈ seg.numberList, n ∈ list.numbers := by
  have source : AckFlush.From list.numbers (list.scan current rto conv) := by
    apply AckFlush.scan_from
    · intro i; simp
    · exact ⟨by simp,by simp [freshAck,AckSegment.new],by simp⟩
  unfold AckList.flush
  dsimp only
  split
  · refine ⟨rfl,?_⟩
    intro seg member n named
    rcases mem_append.mp member with full | last
    · exact source.full seg full n named
    · rw [mem_singleton.mp last] at named
      rcases fillCandidates_numbers _ named with filled | postponed
      · exact source.filling n filled
      · exact source.candidates n postponed
  · exact ⟨rfl,source.full⟩

def Faithful (pushed : List Bytes) (cache : Cache) : Prop :=
  ∀ k seg, cache.lookup k = some seg → pushed[k.toNat]? = some seg.payload

def ReceivingWorker.Holds (n : UInt32) : Prop :=
  n < worker.nextNumber ∨ n ∈ worker.window.cache

end

-- One step of the receiver: it loses nothing it holds, never goes back, and acknowledges only what it holds.
structure Advances (before after : ReceivingWorker) : Prop where
  held : ∀ n, before.Holds n → after.Holds n
  forward : before.nextNumber ≤ after.nextNumber
  acked : ∀ n ∈ after.acklist.numbers, n ∈ before.acklist.numbers ∨ after.Holds n

theorem processSendingNext_advances (worker number) : Advances worker (worker.processSendingNext number) :=
  ⟨fun _ held => held,UInt32.le_refl _,fun _ member => .inl (AckList.clear_numbers member)⟩

theorem flushAcks_advances (worker current rto conv) : Advances worker (worker.flushAcks current rto conv).1 :=
  ⟨fun _ held => held,UInt32.le_refl _,fun _ member => .inl ((worker.acklist.flush_numbers current rto conv).1 ▸ member)⟩

theorem flushAcks_segments {worker : ReceivingWorker} (member : seg ∈ (worker.flushAcks current rto conv).2) :
    seg.receivingNext = worker.nextNumber ∧ ∀ n ∈ seg.numberList, n ∈ worker.acklist.numbers := by
  obtain ⟨ack,flushed,rfl⟩ := mem_map.mp member
  exact ⟨rfl,(worker.acklist.flush_numbers current rto conv).2 ack flushed⟩

theorem set_lookup {window : ReceivingWindow} (found : (window.set seg.number seg).1.cache.lookup k = some other) :
    window.cache.lookup k = some other ∨ k = seg.number ∧ other = seg := by
  unfold ReceivingWindow.set at found
  split at found
  · exact .inl found
  · by_cases same : k = seg.number
    · subst same
      rw [AList.lookup_insert] at found
      exact .inr ⟨rfl,(Option.some.inj found).symm⟩
    · rw [AList.lookup_insert_ne same] at found
      exact .inl found

theorem set_member (window : ReceivingWindow) : seg.number ∈ (window.set seg.number seg).1.cache ∧
      ∀ k ∈ window.cache, k ∈ (window.set seg.number seg).1.cache := by
  unfold ReceivingWindow.set
  split
  · exact ⟨by assumption,fun k member => member⟩
  · exact ⟨by simp,fun k member => by simp [member]⟩

theorem processSegment_next (worker : ReceivingWorker) (seg) : (worker.processSegment seg).nextNumber = worker.nextNumber := by
  unfold ReceivingWorker.processSegment
  dsimp only
  split <;> rfl

theorem processSegment_advances (worker seg) : Advances worker (worker.processSegment seg) := by
  unfold ReceivingWorker.processSegment
  dsimp only
  split
  · exact ⟨fun _ held => held,UInt32.le_refl _,fun _ member => .inl member⟩
  · obtain ⟨stored,kept⟩ := set_member worker.window
    refine ⟨fun n held => held.imp_right (kept n),UInt32.le_refl _,?_⟩
    intro n member
    rcases mem_append.mp member with old | new
    · exact .inl (AckList.clear_numbers old)
    · rw [mem_singleton.mp new]
      exact .inr (.inr stored)

theorem processSegment_lookup {worker : ReceivingWorker} (found : (worker.processSegment seg).window.cache.lookup k = some other) :
    worker.window.cache.lookup k = some other ∨ k = seg.number ∧ other = seg := by
  unfold ReceivingWorker.processSegment at found
  dsimp only at found
  split at found
  · exact .inl found
  · exact set_lookup found

theorem processSegment_faithful (worker : ReceivingWorker) (faithful : Faithful pushed worker.window.cache)
    (genuine : pushed[seg.number.toNat]? = some seg.payload) : Faithful pushed (worker.processSegment seg).window.cache := by
  intro k other found
  rcases processSegment_lookup found with old | ⟨rfl,rfl⟩
  · exact faithful k other old
  · exact genuine

theorem next_in_range {pushed : List Bytes} {next : UInt32} (bounded : pushed.length < 2^32) (front : pushed[next.toNat]? = some payload) :
    (next + 1).toNat = next.toNat + 1 ∧ next.toNat < pushed.length ∧ pushed.take (next.toNat + 1) = pushed.take next.toNat ++ [payload] := by
  obtain ⟨inside,-⟩ := List.getElem?_eq_some_iff.mp front
  refine ⟨?_,inside,?_⟩
  · change (next.toNat + 1) % 2^32 = _
    omega
  · rw [take_add_one,front]
    rfl

theorem readLoop_next (found : window.cache.lookup later = some seg) (result) :
    readLoop window later result = readLoop ⟨window.cache.erase later⟩ (later + 1) (result ++ [seg.payload]) := by
  rw [readLoop]
  split <;> simp_all

theorem readLoop_done (missing : window.cache.lookup later = none) (result) : readLoop window later result = (window,later,result) := by
  rw [readLoop]
  split <;> simp_all

-- Draining: nothing is stored anew, what leaves the map is behind the new position, and the
-- payloads taken out are the pushed ones between the two positions.
structure Drained (pushed earlier : List Bytes) (window : ReceivingWindow) (next : UInt32)
    (done : ReceivingWindow × UInt32 × List Bytes) : Prop where
  kept : ∀ k seg, done.1.cache.lookup k = some seg → window.cache.lookup k = some seg
  behind : ∀ k ∈ window.cache, k ∈ done.1.cache ∨ k < done.2.1
  forward : next ≤ done.2.1
  within : done.2.1.toNat ≤ pushed.length
  stream : earlier ++ done.2.2 = pushed.take done.2.1.toNat

theorem lookup_of_erase {cache : Cache} {id : UInt32} (found : (cache.erase id).lookup k = some seg) : cache.lookup k = some seg := by
  by_cases same : k = id
  · subst same; rw [AList.lookup_erase] at found; cases found
  · rwa [AList.lookup_erase_ne same] at found

theorem readLoop_drains {pushed : List Bytes} (bounded : pushed.length < 2^32) (earlier window)
    (next result) (faithful : Faithful pushed window.cache) (within : next.toNat ≤ pushed.length)
    (stream : earlier ++ result = pushed.take next.toNat) : Drained pushed earlier window next (readLoop window next result) := by
  induction window,next,result using readLoop.induct with
  | case1 window next result seg found ih =>
    obtain ⟨step,inside,taken⟩ := next_in_range bounded (faithful next seg found)
    have smaller : Faithful pushed (window.cache.erase next) := fun k other there => faithful k other (lookup_of_erase there)
    have rest := ih smaller (by rw [step]; exact inside) (by rw [step,taken,← stream,append_assoc])
    rw [readLoop_next found]
    have advanced : next < next + 1 := by rw [UInt32.lt_iff_toNat_lt]; omega
    refine ⟨fun k other there => lookup_of_erase (rest.kept k other there),?_,?_,rest.within,rest.stream⟩
    · intro k member
      by_cases same : k = next
      · subst same
        exact .inr (UInt32.lt_of_lt_of_le advanced rest.forward)
      · exact rest.behind k (AList.mem_erase.mpr ⟨same,member⟩)
    · exact UInt32.le_trans (UInt32.le_of_lt advanced) rest.forward
  | case2 window next result missing =>
    rw [readLoop_done missing]
    exact ⟨fun _ _ there => there,fun _ member => .inl member,UInt32.le_refl _,within,stream⟩

theorem Drained.advances (drained : Drained pushed earlier worker.window worker.nextNumber (window,later,chunks)) :
    Advances worker {worker with window,nextNumber := later} := by
  refine ⟨?_,drained.forward,fun _ member => .inl member⟩
  intro n held
  rcases held with behind | there
  · exact .inl (UInt32.lt_of_lt_of_le behind drained.forward)
  · exact (drained.behind n there).symm

def Waiting (cache : Cache) : UInt32 → List Bytes → Prop
  | _,[] => True
  | next,chunk :: rest => (∃ seg, cache.lookup next = some seg ∧ seg.payload = chunk) ∧ Waiting cache (next + 1) rest

theorem Waiting.mono (more : ∀ k seg, few.lookup k = some seg → many.lookup k = some seg)
    (waiting : Waiting few onward chunks) : Waiting many onward chunks := by
  induction chunks generalizing onward with
  | nil => exact waiting
  | cons chunk rest ih =>
    obtain ⟨⟨seg,found,same⟩,later⟩ := waiting
    exact ⟨⟨seg,more onward seg found,same⟩,ih later⟩

theorem readLoop_waiting : ∃ chunks, (readLoop window later result).2.2 = result ++ chunks ∧ Waiting window.cache later chunks := by
  induction window,later,result using readLoop.induct with
  | case1 window later result seg found ih =>
    obtain ⟨chunks,read,waiting⟩ := ih
    refine ⟨seg.payload :: chunks,?_,⟨seg,found,rfl⟩,waiting.mono fun _ _ => lookup_of_erase⟩
    rw [readLoop_next found,read,append_assoc]
    rfl
  | case2 window later result missing => exact ⟨[],by rw [readLoop_done missing]; simp,True.intro⟩

theorem readMultiBuffer_waiting (worker : ReceivingWorker) : Waiting worker.window.cache worker.nextNumber worker.readMultiBuffer.2 := by
  obtain ⟨chunks,read,waiting⟩ := readLoop_waiting
  have same : worker.readMultiBuffer.2 = chunks := read
  rw [same]
  exact waiting

end AstraCore.KcpReceiving
