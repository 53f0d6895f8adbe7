import AstraCore.KcpRetransmission

namespace AstraCore.KcpAcks
open KcpSegment KcpReceiving KcpRetransmission List

structure Entry where
  number : UInt32
  timestamp : UInt32
  nextFlush : UInt32
deriving DecidableEq, Repr

def row (list : AckList) (i : Nat) : Entry := ⟨list.numbers.getD i 0,list.timestamps.getD i 0,list.nextFlush.getD i 0⟩
def entries (list : AckList) : List Entry := (List.range list.numbers.length).map (row list)

def byteSize (seg : AckSegment) : Nat := 2 + 1 + 1 + 4 + 4 + 4 + 1 + seg.numberList.length * 4

inductive Call where
  | add (number timestamp : UInt32)
  | clear (una : UInt32)
  | flush (current rto : UInt32) (conv : UInt16)

def apply (list : AckList) : Call → AckList
  | .add number timestamp => list.add number timestamp
  | .clear una => list.clear una
  | .flush current rto conv => (list.flush current rto conv).1

def after (mtu : UInt32) (calls : List Call) : AckList := calls.foldl apply (.new mtu)

def Entry.due (current : UInt32) (entry : Entry) : Bool := decide (entry.nextFlush ≤ current)

def Entry.later (current rto : UInt32) (entry : Entry) : Entry :=
  if entry.due current then {entry with nextFlush := current + nextTimeout rto} else entry

-- All due numbers go out once and in order, and only behind them some of those that are not due.
structure FlushExact (mtu : UInt32) (list : AckList) (current rto : UInt32) (conv : UInt16) : Prop where
  returns : (scanChecked list current rto conv).isSome
  sent : ∃ more, (list.flush current rto conv).2.flatMap AckSegment.numberList =
      ((entries list).filter (Entry.due current)).map Entry.number ++ more ∧
    more <+: ((entries list).filter fun entry => !entry.due current).map Entry.number
  cut : ∃ full last, (list.flush current rto conv).2 = full ++ last ∧ last.length ≤ 1 ∧
    (∀ seg ∈ full, 1 ≤ seg.numberList.length ∧ seg.numberList.length ≤ 128) ∧ ∀ seg ∈ last, seg.numberList.length ≤ 128
  sized : 21 ≤ mtu → ∀ seg ∈ (list.flush current rto conv).2, byteSize seg ≤ mtu.toNat
  left : entries (list.flush current rto conv).1 = (entries list).map (Entry.later current rto)

theorem range_foldl (holds : Nat → α → Prop) (start : holds 0 s)
    (step : ∀ k s, k < n → holds k s → holds (k+1) (visit s k)) : holds n ((List.range n).foldl visit s) := by
  have reached : ∀ k ≤ n, holds k ((List.range k).foldl visit s) := by
    intro k
    induction k with
    | zero => exact fun _ => start
    | succ k ih =>
      intro inside
      rw [range_succ,foldl_append]
      exact step k _ inside (ih (Nat.le_of_succ_le inside))
  exact reached n (Nat.le_refl n)

theorem filter_succ : (List.range (k+1)).filter p = (List.range k).filter p ++ if p k then [k] else [] := by
  rw [range_succ,filter_append]
  congr 1
  exact filter_cons

structure Packed (original : List UInt32) (places : List Nat) (k : Nat) (moved : List UInt32) : Prop where
  width : moved.length = original.length
  front : moved.take places.length = places.map (original.getD · 0)
  back : moved.drop k = original.drop k

theorem packed_start (original) : Packed original [] 0 original := ⟨rfl,rfl,rfl⟩

section
variable (packed : Packed original places k moved)
include packed

theorem packed_here : moved.getD k 0 = original.getD k 0 := by
  have same := congrArg head? packed.back
  rw [head?_drop,head?_drop] at same
  rw [getD_eq_getElem?_getD,getD_eq_getElem?_getD,same]

theorem packed_skip : Packed original places (k+1) moved := by
  refine ⟨packed.width,packed.front,?_⟩
  rw [← drop_drop,← drop_drop,packed.back]

theorem packed_take (behind : places.length ≤ k) (inside : k < original.length) :
    Packed original (places ++ [k]) (k+1) (moved.set places.length (moved.getD k 0)) := by
  have width := packed.width
  have early : places.length < moved.length := by omega
  refine ⟨by rw [length_set,width],?_,?_⟩
  · rw [packed_here packed,set_eq_take_append_cons_drop,if_pos early,length_append,length_singleton,packed.front,map_append,← singleton_append,← append_assoc]
    exact take_left' (by simp)
  · rw [drop_set_of_lt (by omega)]
    exact (packed_skip packed).back

end

theorem set_same (v : List UInt32) : v.set i (v.getD i 0) = v := by
  by_cases inside : i < v.length
  · rw [getD_inside inside,set_getElem_self]
  · exact set_eq_of_length_le (by omega)

def kept (numbers : List UInt32) (una : UInt32) (k : Nat) : List Nat :=
  (List.range k).filter fun i => decide (una ≤ numbers.getD i 0)

theorem kept_length (numbers una k) : (kept numbers una k).length ≤ k :=
  (length_filter_le ..).trans (by rw [length_range])

structure Compacted (list : AckList) (una : UInt32) (k : Nat) (state : Compaction) : Prop where
  timestamps : Packed list.timestamps (kept list.numbers una k) k state.timestamps
  numbers : Packed list.numbers (kept list.numbers una k) k state.numbers
  nextFlush : Packed list.nextFlush (kept list.numbers una k) k state.nextFlush
  count : state.count = (kept list.numbers una k).length

theorem visit_kept (stays : ¬ state.numbers.getD i 0 < una) : Compaction.visit una state i = ⟨state.timestamps.set state.count (state.timestamps.getD i 0),
      state.numbers.set state.count (state.numbers.getD i 0),state.nextFlush.set state.count (state.nextFlush.getD i 0),state.count + 1⟩ := by
  rw [Compaction.visit,if_neg stays]
  split
  · rfl
  · rename_i same
    rw [not_not] at same
    rw [← same,set_same,set_same,set_same]

theorem visit_compacted (compacted : Compacted list una k state) (inside : k < list.numbers.length) :
    Compacted list una (k+1) (Compaction.visit una state k) := by
  have here := packed_here compacted.numbers
  have behind := kept_length list.numbers una k
  have times := list.timestampsAligned
  have flushes := list.nextFlushAligned
  by_cases gone : list.numbers.getD k 0 < una
  · have same : kept list.numbers una (k+1) = kept list.numbers una k := by
      rw [kept,filter_succ,if_neg (by simpa using gone),append_nil]
      rfl
    rw [Compaction.visit,here,if_pos gone]
    refine ⟨?_,?_,?_,?_⟩ <;> rw [same]
    · exact packed_skip compacted.timestamps
    · exact packed_skip compacted.numbers
    · exact packed_skip compacted.nextFlush
    · exact compacted.count
  · have more : kept list.numbers una (k+1) = kept list.numbers una k ++ [k] := by
      rw [kept,filter_succ,if_pos (by simpa using gone)]
      rfl
    rw [visit_kept (by rwa [here]),compacted.count]
    refine ⟨?_,?_,?_,?_⟩ <;> rw [more]
    · exact packed_take compacted.timestamps behind (by omega)
    · exact packed_take compacted.numbers behind inside
    · exact packed_take compacted.nextFlush behind (by omega)
    · simp

theorem compact_compacted (list) : Compacted list una list.numbers.length (list.compact una) := by
  refine range_foldl _ ?_ fun k state inside compacted => visit_compacted compacted inside
  exact ⟨packed_start _,packed_start _,packed_start _,rfl⟩

theorem clear_vectors (list : AckList) : (list.clear una).numbers = (kept list.numbers una list.numbers.length).map (list.numbers.getD · 0) ∧
      (list.clear una).timestamps = (kept list.numbers una list.numbers.length).map (list.timestamps.getD · 0) ∧
      (list.clear una).nextFlush = (kept list.numbers una list.numbers.length).map (list.nextFlush.getD · 0) := by
  obtain ⟨timestamps,numbers,nextFlush,count⟩ := compact_compacted list
  have times := list.timestampsAligned
  have flushes := list.nextFlushAligned
  rw [← numbers.front,← timestamps.front,← nextFlush.front,← count,AckList.clear]
  split
  · exact ⟨rfl,rfl,rfl⟩
  · have first := numbers.width
    have second := timestamps.width
    have third := nextFlush.width
    rw [take_of_length_le (by omega),take_of_length_le (by omega),take_of_length_le (by omega)]
    exact ⟨rfl,rfl,rfl⟩

theorem map_getD (places : List Nat) (f : Nat → UInt32) (inside : j < places.length) : (places.map f).getD j 0 = f places[j] := by
  rw [getD_inside (by rwa [length_map]),getElem_map]

theorem range_map (places : List Nat) (same : ∀ (j : Nat) (inside : j < places.length), f j = g places[j]) :
    (List.range places.length).map f = places.map g := by
  apply ext_getElem
  · simp
  · intro j first second
    have inside : j < places.length := by simpa using first
    rw [getElem_map,getElem_range,getElem_map]
    exact same j inside

theorem entries_clear (list una) : entries (list.clear una) = (entries list).filter fun entry => decide (una ≤ entry.number) := by
  obtain ⟨numbers,timestamps,nextFlush⟩ := clear_vectors list
  have width : (list.clear una).numbers.length = (kept list.numbers una list.numbers.length).length := by
    rw [numbers,length_map]
  rw [entries,entries,filter_map,width]
  refine range_map _ ?_
  intro j inside
  rw [row,row,numbers,timestamps,nextFlush,map_getD _ _ inside,map_getD _ _ inside,map_getD _ _ inside]

def ackLimit (maxAcks : Nat) : Nat := min (max maxAcks 1) 128

section
variable (list : AckList)

def dueAt (current : UInt32) (i : Nat) : Bool := decide (list.nextFlush.getD i 0 ≤ current)
def number (i : Nat) : UInt32 := list.numbers.getD i 0

def nextTime (current rto : UInt32) (i : Nat) : UInt32 :=
  if dueAt list current i then current + nextTimeout rto else list.nextFlush.getD i 0

structure Scanned (maxAcks : Nat) (current rto : UInt32) (k : Nat) (state : AckFlush) : Prop where
  width : state.nextFlush.length = list.numbers.length
  done : ∀ i < k, state.nextFlush.getD i 0 = nextTime list current rto i
  rest : ∀ i ≥ k, state.nextFlush.getD i 0 = list.nextFlush.getD i 0
  sent : state.result.flatMap AckSegment.numberList ++ state.seg.numberList =
    ((List.range k).filter (dueAt list current)).map (number list)
  waiting : state.flushCandidates = (((List.range k).filter fun i => !dueAt list current i).map (number list)).take candidateCapacity
  full : ∀ seg ∈ state.result, seg.numberList.length = ackLimit maxAcks
  filling : state.seg.numberList.length < ackLimit maxAcks
  limit : state.seg.limit = ackLimit maxAcks

end

theorem ackLimit_positive (maxAcks) : 0 < ackLimit maxAcks := by
  rw [ackLimit]
  omega

theorem scan_start (maxAcks) : Scanned list maxAcks current rto 0 ⟨list.nextFlush,[],freshAck maxAcks conv,[],list.dirty⟩ :=
  ⟨list.nextFlushAligned,fun _ early => absurd early (Nat.not_lt_zero _),fun _ _ => rfl,rfl,rfl,
    fun _ found => absurd found not_mem_nil,ackLimit_positive maxAcks,rfl⟩

theorem visit_postponed (postponed : current < state.nextFlush.getD k 0) : AckFlush.visit list maxAcks current rto conv state k = {state with
      flushCandidates := if state.flushCandidates.length < candidateCapacity then state.flushCandidates ++ [number list k]
        else state.flushCandidates} := by
  rw [AckFlush.visit,if_pos postponed]
  split
  · rfl
  · rfl

def putEntry (list : AckList) (k : Nat) (seg : AckSegment) : AckSegment :=
  (seg.putNumber (list.numbers.getD k 0)).putTimestamp (list.timestamps.getD k 0)

theorem putEntry_numbers : (putEntry list k seg).numberList = seg.numberList ++ [number list k] := putTimestamp_numbers _ _

theorem putEntry_limit : (putEntry list k seg).limit = seg.limit := by
  unfold putEntry AckSegment.putTimestamp
  split
  · rfl
  · rfl

theorem visit_due (reached : ¬ current < state.nextFlush.getD k 0) : AckFlush.visit list maxAcks current rto conv state k =
      if (putEntry list k state.seg).isFull then
        {state with
          nextFlush := state.nextFlush.set k (current + nextTimeout rto),seg := freshAck maxAcks conv
          result := state.result ++ [putEntry list k state.seg],dirty := false}
      else {state with nextFlush := state.nextFlush.set k (current + nextTimeout rto),seg := putEntry list k state.seg} := by
  rw [AckFlush.visit,if_neg reached]
  rfl

theorem take_noted : (if (waiting.take capacity).length < capacity then waiting.take capacity ++ [n] else waiting.take capacity) =
      (waiting ++ [n]).take capacity := by
  rw [length_take]
  split
  · have all : waiting.length < capacity := by omega
    rw [take_of_length_le (Nat.le_of_lt all),take_of_length_le (by rw [length_append]; exact all)]
  · rw [take_append_of_le_length (by omega)]

section
variable (scanned : Scanned list maxAcks current rto k state)
include scanned

theorem postponed_scanned (later : dueAt list current k = false) (conv) :
    Scanned list maxAcks current rto (k+1) (AckFlush.visit list maxAcks current rto conv state k) := by
  have here := scanned.rest k (Nat.le_refl k)
  have postponed : current < state.nextFlush.getD k 0 := by
    rw [here]
    exact UInt32.not_le.mp (of_decide_eq_false later)
  rw [visit_postponed postponed]
  refine ⟨scanned.width,?_,fun i past => scanned.rest i (Nat.le_of_succ_le past),?_,?_,scanned.full,scanned.filling,scanned.limit⟩
  · intro i early
    rcases Nat.lt_succ_iff_lt_or_eq.mp early with before | rfl
    · exact scanned.done i before
    · rw [nextTime,later]
      exact here
  · rw [filter_succ,later]
    exact scanned.sent.trans (by rw [if_neg Bool.false_ne_true,append_nil])
  · rw [scanned.waiting,take_noted,filter_succ,later,map_append]
    rfl

theorem due_scanned (due : dueAt list current k = true) (inside : k < list.numbers.length) :
    Scanned list maxAcks current rto (k+1) (AckFlush.visit list maxAcks current rto conv state k) := by
  have here := scanned.rest k (Nat.le_refl k)
  have reached : ¬ current < state.nextFlush.getD k 0 := by
    rw [here]
    exact UInt32.not_lt.mpr (of_decide_eq_true due)
  have width : (state.nextFlush.set k (current + nextTimeout rto)).length = list.numbers.length := by
    rw [length_set,scanned.width]
  have done : ∀ i < k+1, (state.nextFlush.set k (current + nextTimeout rto)).getD i 0 = nextTime list current rto i := by
    intro i early
    rcases Nat.lt_succ_iff_lt_or_eq.mp early with before | rfl
    · rw [set_other _ _ (Nat.ne_of_gt before)]
      exact scanned.done i before
    · rw [getD_inside (by rw [width]; exact inside),getElem_set_self,nextTime,if_pos due]
  have rest : ∀ i ≥ k+1, (state.nextFlush.set k (current + nextTimeout rto)).getD i 0 = list.nextFlush.getD i 0 := by
    intro i past
    rw [set_other _ _ (Nat.ne_of_lt past)]
    exact scanned.rest i (Nat.le_of_succ_le past)
  have sent : state.result.flatMap AckSegment.numberList ++ (putEntry list k state.seg).numberList =
      ((List.range (k+1)).filter (dueAt list current)).map (number list) := by
    rw [filter_succ,if_pos due,map_append,← scanned.sent,putEntry_numbers,append_assoc]
    rfl
  have waiting : state.flushCandidates = (((List.range (k+1)).filter fun i => !dueAt list current i).map (number list)).take candidateCapacity := by
    rw [filter_succ,due,Bool.not_true,if_neg Bool.false_ne_true,append_nil]
    exact scanned.waiting
  have limited : (putEntry list k state.seg).limit = ackLimit maxAcks := (putEntry_limit ..).trans scanned.limit
  have longer : (putEntry list k state.seg).numberList.length = state.seg.numberList.length + 1 := by
    rw [putEntry_numbers,length_append,length_singleton]
  have filling := scanned.filling
  rw [visit_due reached]
  split
  · rename_i isFull
    refine ⟨width,done,rest,?_,waiting,?_,ackLimit_positive maxAcks,rfl⟩
    · rw [← sent,flatMap_append,flatMap_singleton]
      exact append_nil _
    · intro seg found
      rcases mem_append.mp found with old | new
      · exact scanned.full seg old
      · rw [mem_singleton.mp new,← limited]
        exact beq_iff_eq.mp isFull
  · rename_i open_
    have room : (putEntry list k state.seg).numberList.length ≠ ackLimit maxAcks := by
      rw [← limited]
      exact fun same => open_ (beq_iff_eq.mpr same)
    exact ⟨width,done,rest,sent,waiting,scanned.full,by dsimp only; omega,limited⟩

end

def maxAcks (list : AckList) : Nat := (list.mss.toNat - 17)/4

theorem scan_scanned (list current rto conv) : Scanned list (maxAcks list) current rto list.numbers.length (list.scan current rto conv) := by
  refine range_foldl _ (scan_start _) ?_
  intro k state inside scanned
  cases due : dueAt list current k with
  | false => exact postponed_scanned scanned due conv
  | true => exact due_scanned scanned due inside

theorem fillCandidates_fills (seg) (room : seg.numberList.length ≤ seg.limit) :
    (fillCandidates candidates seg).numberList = seg.numberList ++ candidates.take (seg.limit - seg.numberList.length) ∧
      (fillCandidates candidates seg).numberList.length ≤ seg.limit := by
  induction candidates generalizing seg with
  | nil => exact ⟨by simp [fillCandidates],room⟩
  | cons n rest ih =>
    rw [fillCandidates]
    split
    · rename_i isFull
      have none : seg.limit - seg.numberList.length = 0 := by
        have := beq_iff_eq.mp isFull
        omega
      exact ⟨by rw [none,take_zero,append_nil],room⟩
    · rename_i open_
      have more : seg.numberList.length ≠ seg.limit := fun same => open_ (beq_iff_eq.mpr same)
      have width : (seg.putNumber n).numberList.length = seg.numberList.length + 1 := by
        simp [AckSegment.putNumber]
      obtain ⟨filled,bounded⟩ := ih (seg.putNumber n) (by rw [width]; change _ ≤ seg.limit; omega)
      refine ⟨?_,bounded⟩
      have left : seg.limit - seg.numberList.length = (seg.limit - (seg.numberList.length + 1)) + 1 := by omega
      rw [filled,width,left,take_succ_cons]
      change (seg.numberList ++ [n]) ++ rest.take (seg.limit - (seg.numberList.length + 1)) = _
      rw [append_assoc,singleton_append]

theorem entries_due (list current) : ((entries list).filter (Entry.due current)).map Entry.number =
      ((List.range list.numbers.length).filter (dueAt list current)).map (number list) := by
  rw [entries,filter_map,map_map]
  rfl

theorem entries_waiting (list current) : ((entries list).filter fun entry => !entry.due current).map Entry.number =
      ((List.range list.numbers.length).filter fun i => !dueAt list current i).map (number list) := by
  rw [entries,filter_map,map_map]
  rfl

theorem flush_segments (list : AckList) (current rto conv) :
    (list.flush current rto conv).2 = (list.scan current rto conv).result ∧ (list.scan current rto conv).seg.numberList = [] ∨
      (list.flush current rto conv).2 = (list.scan current rto conv).result ++
        [fillCandidates (list.scan current rto conv).flushCandidates (list.scan current rto conv).seg] := by
  rw [AckList.flush]
  split
  · exact .inr rfl
  · rename_i quiet
    have empty : (list.scan current rto conv).seg.isEmpty = true := by
      cases shape : (list.scan current rto conv).seg.isEmpty with
      | true => rfl
      | false => simp [shape] at quiet
    exact .inl ⟨rfl,List.isEmpty_iff.mp empty⟩

theorem flush_sent (list current rto conv) : ∃ more, (list.flush current rto conv).2.flatMap AckSegment.numberList =
        ((entries list).filter (Entry.due current)).map Entry.number ++ more ∧
      more <+: ((entries list).filter fun entry => !entry.due current).map Entry.number := by
  have scanned := scan_scanned list current rto conv
  rw [entries_due,entries_waiting,← scanned.sent]
  rcases flush_segments list current rto conv with ⟨segs,empty⟩ | segs
  · exact ⟨[],by rw [segs,empty,append_nil,append_nil], nil_prefix⟩
  · have room : (list.scan current rto conv).seg.numberList.length ≤ (list.scan current rto conv).seg.limit := by
      rw [scanned.limit]
      exact Nat.le_of_lt scanned.filling
    obtain ⟨filled,-⟩ := fillCandidates_fills _ room
    rw [segs,flatMap_append,flatMap_singleton,filled,← append_assoc]
    refine ⟨_,rfl,?_⟩
    rw [scanned.waiting]
    exact ( take_prefix _ _).trans ( take_prefix _ _)

theorem flush_cut (list : AckList) (current rto conv) : ∃ full last, (list.flush current rto conv).2 = full ++ last ∧ last.length ≤ 1 ∧
      (∀ seg ∈ full, seg.numberList.length = ackLimit (maxAcks list)) ∧ ∀ seg ∈ last, seg.numberList.length ≤ ackLimit (maxAcks list) := by
  have scanned := scan_scanned list current rto conv
  rcases flush_segments list current rto conv with ⟨segs,-⟩ | segs
  · exact ⟨_,[],by rw [segs,append_nil],Nat.zero_le 1,scanned.full,fun _ found => absurd found not_mem_nil⟩
  · have room : (list.scan current rto conv).seg.numberList.length ≤ (list.scan current rto conv).seg.limit := by
      rw [scanned.limit]
      exact Nat.le_of_lt scanned.filling
    obtain ⟨-,bounded⟩ := fillCandidates_fills _ room
    rw [scanned.limit] at bounded
    exact ⟨_,_,segs,Nat.le_refl 1,scanned.full,forall_mem_singleton.mpr bounded⟩

theorem flush_vectors (list : AckList) (current rto conv) :
    (list.flush current rto conv).1.numbers = list.numbers ∧ (list.flush current rto conv).1.timestamps = list.timestamps ∧
      (list.flush current rto conv).1.nextFlush = (list.scan current rto conv).nextFlush := by
  rw [AckList.flush]
  split
  · exact ⟨rfl,rfl,rfl⟩
  · exact ⟨rfl,rfl,rfl⟩

theorem entries_flush : entries (list.flush current rto conv).1 = (entries list).map (Entry.later current rto) := by
  obtain ⟨numbers,timestamps,nextFlush⟩ := flush_vectors list current rto conv
  have scanned := scan_scanned list current rto conv
  rw [entries,entries,map_map,numbers]
  apply map_congr_left
  intro i found
  have time := scanned.done i (mem_range.mp found)
  rw [row,numbers,timestamps,nextFlush,time,nextTime]
  change _ = if dueAt list current i = true then _ else _
  split
  · rfl
  · rfl

theorem size_bounded (wide : 21 ≤ mtu) (few : seg.numberList.length ≤ ackLimit ((mtu - 17)/4)) : byteSize seg ≤ mtu := by
  rw [ackLimit] at few
  rw [byteSize]
  omega

theorem flush_exact (list current conv) (fits : current.toNat + (nextTimeout rto).toNat < 2^32) : FlushExact list.mss list current rto conv where
  returns := (acks_exact_iff list current rto conv).mpr (.inr fits)
  sent := flush_sent list current rto conv
  cut := by
    obtain ⟨full,last,segs,one,whole,bounded⟩ := flush_cut list current rto conv
    have least := ackLimit_positive (maxAcks list)
    have most : ackLimit (maxAcks list) ≤ 128 := Nat.min_le_right _ _
    refine ⟨full,last,segs,one,?_,?_⟩
    · intro seg found
      rw [whole seg found]
      exact ⟨least,most⟩
    · exact fun seg found => (bounded seg found).trans most
  sized wide seg found := by
    obtain ⟨full,last,segs,-,whole,bounded⟩ := flush_cut list current rto conv
    apply size_bounded (UInt32.le_iff_toNat_le.mp wide)
    rw [segs] at found
    rcases mem_append.mp found with early | late
    · exact Nat.le_of_eq (whole seg early)
    · exact bounded seg late
  left := entries_flush

theorem apply_mss : (apply list call).mss = list.mss := by
  cases call with
  | add number timestamp => rfl
  | clear una =>
    rw [apply,AckList.clear]
    split
    · rfl
    · rfl
  | flush current rto conv =>
    rw [apply,AckList.flush]
    split
    · rfl
    · rfl

theorem after_mss : (after mtu calls).mss = mtu := by
  have kept : ∀ list, (calls.foldl apply list).mss = list.mss := by
    induction calls with
    | nil => exact fun list => rfl
    | cons call rest ih => exact fun list => (ih _).trans (apply_mss)
  exact kept (.new mtu)

theorem acks_kept (mtu : UInt32) (calls : List Call) : ((after mtu calls).timestamps.length = (after mtu calls).numbers.length ∧
        (after mtu calls).nextFlush.length = (after mtu calls).numbers.length) ∧
      (∀ una, entries ((after mtu calls).clear una) = (entries (after mtu calls)).filter fun entry => decide (una ≤ entry.number)) ∧
      ∀ current rto conv, current.toNat + (nextTimeout rto).toNat < 2^32 → FlushExact mtu (after mtu calls) current rto conv := by
  refine ⟨⟨(after mtu calls).timestampsAligned,(after mtu calls).nextFlushAligned⟩,entries_clear (after mtu calls),?_⟩
  intro current rto conv fits
  have exactly := flush_exact (after mtu calls) current conv fits
  rwa [after_mss] at exactly

theorem acks_kept_two : FlushExact 21 (after 21 [.add 7 1,.add 8 2]) 0 100 3 ∧
    ((after 21 [.add 7 1,.add 8 2]).flush 0 100 3).2.map AckSegment.numberList = [[7],[8]] :=
  ⟨(acks_kept 21 [.add 7 1,.add 8 2]).2.2 0 100 3 (by decide),by decide +kernel⟩

end AstraCore.KcpAcks
