import AstraCore.KcpFlush
import AstraCore.KcpReceiving
import AstraCore.Machine

namespace AstraCore.KcpRetransmission
open CheckedBytes KcpSegment KcpSending KcpReceiving KcpFlush FirstServed Machine List

def add32 (a b : UInt32) : Option UInt32 := if a.toNat + b.toNat < 2^32 then some (a + b) else none

-- The loop of `SendingWindow::flush` with checked additions. The subtraction in the test wraps by its name.
def flushChecked (current rto maxInFlightSize : UInt32) : List DataSegment → (inFlight total : UInt32) → Option Flushed
  | [],_,total => some ⟨[],total,[]⟩
  | seg :: rest,inFlight,total =>
    if current - seg.timeout ≥ 0x7FFFFFFF then
      (flushChecked current rto maxInFlightSize rest inFlight total).map fun later => {later with cache := seg :: later.cache}
    else do
      let total ← (if seg.transmit = 0 then add32 total 1 else some total)
      let timeout ← add32 current rto
      let transmit ← add32 seg.transmit 1
      let seg := {seg with timeout,timestamp := current,transmit}
      let inFlight ← add32 inFlight 1
      if inFlight ≥ maxInFlightSize then some ⟨seg :: rest,total,[seg]⟩
      else (flushChecked current rto maxInFlightSize rest inFlight total).map fun later => ⟨seg :: later.cache,later.total,seg :: later.sent⟩

def nextTimeout (rto : UInt32) : UInt32 := max (rto/2) 20

def visitChecked (list : AckList) (maxAcks : Nat) (current rto : UInt32) (conv : UInt16) (state : AckFlush) (i : Nat) : Option AckFlush :=
  if state.nextFlush.getD i 0 > current then some (AckFlush.visit list maxAcks current rto conv state i)
  else (add32 current (nextTimeout rto)).map fun _ => AckFlush.visit list maxAcks current rto conv state i

def scanChecked (list : AckList) (current rto : UInt32) (conv : UInt16) : Option AckFlush :=
  let maxAcks := (list.mss.toNat - 17)/4
  (List.range list.numbers.length).foldlM (visitChecked list maxAcks current rto conv) ⟨list.nextFlush,[],freshAck maxAcks conv,[],list.dirty⟩

structure Slot where
  segment : DataSegment
  sent : Option (UInt32 × UInt32)

-- A sending window and a list of acknowledgements. `clock` is the time of the last flush of the window.
structure Timer where
  slots : List Slot
  total : UInt32
  clock : UInt32
  acks : AckList

def Timer.new (mss : UInt32) : Timer := ⟨[],0,0,.new mss⟩

def Timer.window (t : Timer) : SendingWindow := ⟨t.slots.map Slot.segment,t.total⟩

inductive Event where
  | push (number : UInt32) (payload : Bytes)
  | flush (current rto maxInFlightSize : UInt32)
  | add (number timestamp : UInt32)
  | clear (una : UInt32)
  | flushAcks (current rto : UInt32) (conv : UInt16)

def remark (current rto : UInt32) (slots : List Slot) (cache : List DataSegment) : List Slot :=
  List.zipWith (fun slot seg => if seg = slot.segment then slot else ⟨seg,some (current,rto)⟩) slots cache

def Allowed (t : Timer) : Event → Prop
  | .flush current _ maxInFlightSize => t.clock ≤ current ∧ 1 ≤ maxInFlightSize
  | _ => True

instance (t : Timer) : (event : Event) → Decidable (Allowed t event)
  | .flush current _ maxInFlightSize => inferInstanceAs (Decidable (t.clock ≤ current ∧ 1 ≤ maxInFlightSize))
  | .push .. | .add .. | .clear _ | .flushAcks .. => isTrue trivial

section
variable (t : Timer)

def step : Event → Timer
  | .push number payload => {t with slots := t.slots ++ [⟨⟨0,⟨0⟩,0,number,0,payload,0,0⟩,none⟩]}
  | .flush current rto maxInFlightSize =>
    let window := (t.window.flush current rto maxInFlightSize).1
    {t with slots := remark current rto t.slots window.cache,total := window.totalInFlightSize,clock := current}
  | .add number timestamp => {t with acks := t.acks.add number timestamp}
  | .clear una => {t with acks := t.acks.clear una}
  | .flushAcks current rto conv => {t with acks := (t.acks.flush current rto conv).1}

def advance (event : Event) : Option Timer := if Allowed t event then some (step t event) else none

def Slot.due (current : UInt32) (slot : Slot) : Bool :=
  match slot.sent with
  | none => true
  | some (time,rto) => decide (time.toNat + rto.toNat ≤ current.toNat)

def Slot.again (current rto : UInt32) (slot : Slot) : Slot := ⟨resend current rto slot.segment,some (current,rto)⟩

-- A flush without overflow that sends exactly the first that are due. The cache behind it tells segments of one number apart.
def FlushExact (current rto maxInFlightSize : UInt32) : Prop :=
  ∃ done, flushChecked current rto maxInFlightSize t.window.cache 0 t.total = some done ∧
    done.cache = (serve (Slot.due current) (Slot.again current rto) maxInFlightSize.toNat t.slots).map Slot.segment ∧
    done.sent = (served (Slot.due current) maxInFlightSize.toNat t.slots).map fun slot => resend current rto slot.segment

def Exact : Event → Prop
  | .flush current rto maxInFlightSize => Allowed t (.flush current rto maxInFlightSize) → FlushExact t current rto maxInFlightSize
  | .flushAcks current rto conv => (scanChecked t.acks current rto conv).isSome
  | _ => True

-- The wrapped difference tells past from future within half of the numbers: a segment that was never sent is due since zero.
def Slot.Timely (current : UInt32) (slot : Slot) : Prop :=
  match slot.sent with
  | none => current.toNat < 0x7FFFFFFF
  | some (time,rto) => (time.toNat + rto.toNat ≤ current.toNat → current.toNat - (time.toNat + rto.toNat) < 0x7FFFFFFF) ∧
    (current.toNat < time.toNat + rto.toNat → time.toNat + rto.toNat - current.toNat ≤ 0x80000001)

structure Fits (current rto total : UInt32) (front : List DataSegment) : Prop where
  each : ∀ seg ∈ front, current.toNat + rto.toNat < 2^32 ∧ seg.transmit.toNat + 1 < 2^32
  total : total.toNat + front.countP (fun seg => decide (seg.transmit = 0)) < 2^32

structure FlushSafe (current rto maxInFlightSize : UInt32) : Prop where
  timely : ∀ slot ∈ reached (Slot.due current) maxInFlightSize.toNat t.slots, slot.Timely current
  fits : Fits current rto t.total ((served (Slot.due current) maxInFlightSize.toNat t.slots).map Slot.segment)

def Safe : Event → Prop
  | .flush current rto maxInFlightSize => Allowed t (.flush current rto maxInFlightSize) → FlushSafe t current rto maxInFlightSize
  | .flushAcks current rto _ => (∀ time ∈ t.acks.nextFlush, current < time) ∨ current.toNat + (nextTimeout rto).toNat < 2^32
  | _ => True

end

theorem add32_fits (fits : a.toNat + b.toNat < 2^32) : add32 a b = some (a + b) := if_pos fits

theorem add32_some (added : add32 a b = some c) : a.toNat + b.toNat < 2^32 ∧ c = a + b := by
  rw [add32] at added
  split at added
  · cases added
    exact ⟨‹_›,rfl⟩
  · cases added

theorem fits_nil : Fits current rto total [] := ⟨fun _ found => absurd found not_mem_nil,total.toNat_lt⟩

theorem fits_cons (seg) : Fits current rto total (seg :: front) ↔
      (seg.transmit = 0 → total.toNat + 1 < 2^32) ∧ (current.toNat + rto.toNat < 2^32 ∧ seg.transmit.toNat + 1 < 2^32) ∧
        Fits current rto (if seg.transmit = 0 then total + 1 else total) front := by
  constructor
  · rintro ⟨each,counted⟩
    obtain ⟨first,later⟩ := forall_mem_cons.mp each
    by_cases fresh : seg.transmit = 0
    · rw [countP_cons_of_pos (by simpa using fresh)] at counted
      have room : total.toNat + 1 < 2^32 := by omega
      refine ⟨fun _ => room,first,later,?_⟩
      rw [if_pos fresh,next_toNat room]
      omega
    · rw [countP_cons_of_neg (by simpa using fresh)] at counted
      exact ⟨fun fresh' => absurd fresh' fresh,first,later,by rwa [if_neg fresh]⟩
  · rintro ⟨room,first,later,counted⟩
    refine ⟨forall_mem_cons.mpr ⟨first,later⟩,?_⟩
    by_cases fresh : seg.transmit = 0
    · rw [if_pos fresh,next_toNat (room fresh)] at counted
      rw [countP_cons_of_pos (by simpa using fresh)]
      omega
    · rw [if_neg fresh] at counted
      rwa [countP_cons_of_neg (by simpa using fresh)]

theorem total_some (seg : DataSegment) : (if seg.transmit = 0 then add32 total 1 else some total) = some counted ↔
      (seg.transmit = 0 → total.toNat + 1 < 2^32) ∧ counted = if seg.transmit = 0 then total + 1 else total := by
  split
  · rename_i fresh
    constructor
    · intro added
      obtain ⟨room,same⟩ := add32_some added
      exact ⟨fun _ => room,same⟩
    · rintro ⟨room,rfl⟩
      exact add32_fits (room fresh)
  · rename_i old
    constructor
    · intro same
      cases same
      exact ⟨fun fresh => absurd fresh old,rfl⟩
    · rintro ⟨-,rfl⟩
      rfl

theorem flushChecked_fits (going : Going limit inFlight) (total) (fits : Fits current rto total (served (isDue current) (allowance limit inFlight) cache)) :
    flushChecked current rto limit cache inFlight total = some (flushCache current rto limit cache inFlight total) := by
  induction cache generalizing inFlight total with
  | nil => rfl
  | cons seg rest ih =>
    obtain ⟨k,positive⟩ := allowance_positive limit inFlight
    rw [flushChecked,flushCache]
    by_cases later : current - seg.timeout ≥ 0x7FFFFFFF
    · have skipped : isDue current seg = false := by simp [isDue,later]
      rw [served_skips skipped] at fits
      rw [if_pos later,if_pos later,ih going total fits]
      rfl
    · have due : isDue current seg = true := by simp [isDue,later]
      rw [positive,served_due due,fits_cons] at fits
      obtain ⟨room,⟨timeout,transmit⟩,behind⟩ := fits
      have counted := (total_some seg).mpr ⟨room,rfl⟩
      have flown : add32 inFlight 1 = some _ := add32_fits (going_room going)
      rw [if_neg later,if_neg later,counted,add32_fits timeout,add32_fits transmit,flown]
      dsimp only [Option.bind_eq_bind,Option.bind_some]
      by_cases reached : inFlight + 1 ≥ limit
      · rw [if_pos reached,if_pos reached]
      · obtain ⟨still,more⟩ := allowance_more going reached
        obtain rfl : k = allowance limit (inFlight + 1) := by omega
        rw [if_neg reached,if_neg reached,ih still _ behind]
        rfl

theorem flushChecked_some (going : Going limit inFlight) (total) (returned : flushChecked current rto limit cache inFlight total = some done) :
    Fits current rto total (served (isDue current) (allowance limit inFlight) cache) := by
  induction cache generalizing inFlight total done with
  | nil =>
    rw [served_nil]
    exact fits_nil
  | cons seg rest ih =>
    obtain ⟨k,positive⟩ := allowance_positive limit inFlight
    rw [flushChecked] at returned
    by_cases later : current - seg.timeout ≥ 0x7FFFFFFF
    · have skipped : isDue current seg = false := by simp [isDue,later]
      rw [if_pos later] at returned
      obtain ⟨behind,returned,-⟩ := Option.map_eq_some_iff.mp returned
      rw [served_skips skipped]
      exact ih going total returned
    · have due : isDue current seg = true := by simp [isDue,later]
      rw [if_neg later] at returned
      obtain ⟨counted,added,returned⟩ := Option.bind_eq_some_iff.mp returned
      obtain ⟨room,rfl⟩ := (total_some seg).mp added
      obtain ⟨timeout,added,returned⟩ := Option.bind_eq_some_iff.mp returned
      obtain ⟨timed,rfl⟩ := add32_some added
      obtain ⟨transmit,added,returned⟩ := Option.bind_eq_some_iff.mp returned
      obtain ⟨sent,rfl⟩ := add32_some added
      obtain ⟨flying,added,returned⟩ := Option.bind_eq_some_iff.mp returned
      obtain ⟨-,rfl⟩ := add32_some added
      rw [positive,served_due due,fits_cons]
      refine ⟨room,⟨timed,sent⟩,?_⟩
      by_cases reached : inFlight + 1 ≥ limit
      · have one := allowance_last going reached
        obtain rfl : k = 0 := by omega
        exact fits_nil ..
      · rw [if_neg reached] at returned
        obtain ⟨still,more⟩ := allowance_more going reached
        obtain rfl : k = allowance limit (inFlight + 1) := by omega
        obtain ⟨behind,returned,-⟩ := Option.map_eq_some_iff.mp returned
        exact ih still _ returned

def Marked (now : UInt32) (slot : Slot) : Prop :=
  match slot.sent with
  | none => slot.segment.timeout = 0
  | some (time,rto) => slot.segment.timeout = time + rto ∧ time ≤ now

theorem marked_later (marked : Marked now slot) (later : now ≤ current) : Marked current slot := by
  rcases slot with ⟨segment,sent⟩
  cases sent with
  | none => exact marked
  | some last => exact ⟨marked.1,UInt32.le_trans marked.2 later⟩

theorem isDue_iff : isDue current seg = true ↔ (2^32 - seg.timeout.toNat + current.toNat) % 2^32 < 0x7FFFFFFF := by
  rw [isDue,Bool.not_eq_true',decide_eq_false_iff_not,ge_iff_le,UInt32.le_iff_toNat_le,Nat.not_le]
  rfl

theorem timely_iff (marked : Marked now slot) (later : now ≤ current) : isDue current slot.segment = slot.due current ↔ slot.Timely current := by
  have bounded := current.toNat_lt
  rcases slot with ⟨segment,sent⟩
  cases sent with
  | none =>
    have zero := marked
    change isDue current segment = true ↔ current.toNat < 0x7FFFFFFF
    rw [isDue_iff,zero]
    change (2^32 - 0 + current.toNat) % 2^32 < 0x7FFFFFFF ↔ _
    omega
  | some last =>
    rcases last with ⟨time,rto⟩
    obtain ⟨timeout,before⟩ := marked
    have early := UInt32.le_iff_toNat_le.mp (UInt32.le_trans before later)
    have small := rto.toNat_lt
    have wrapped : segment.timeout.toNat = (time.toNat + rto.toNat) % 2^32 := by
      rw [timeout,UInt32.toNat_add]
    change isDue current segment = decide _ ↔ (time.toNat + rto.toNat ≤ current.toNat → current.toNat - (time.toNat + rto.toNat) < 0x7FFFFFFF) ∧
        (current.toNat < time.toNat + rto.toNat → time.toNat + rto.toNat - current.toNat ≤ 0x80000001)
    rw [Bool.eq_iff_iff,isDue_iff,decide_eq_true_iff,wrapped]
    omega

def Slot.taken (current : UInt32) (slot : Slot) : Bool := isDue current slot.segment

theorem slots_served : (serve (Slot.taken current) (Slot.again current rto) k slots).map Slot.segment =
        serve (isDue current) (resend current rto) k (slots.map Slot.segment) ∧
      (served (Slot.taken current) k slots).map Slot.segment = served (isDue current) k (slots.map Slot.segment) :=
  serve_map Slot.segment (fun _ => rfl) (fun _ => rfl) k slots

theorem remark_same : remark current rto slots (slots.map Slot.segment) = slots := by
  induction slots with
  | nil => rfl
  | cons slot rest ih =>
    change (if slot.segment = slot.segment then slot else _) :: remark current rto rest _ = _
    rw [if_pos rfl,ih]

theorem remark_served : remark current rto slots (serve (isDue current) (resend current rto) k (slots.map Slot.segment)) =
      serve (Slot.taken current) (Slot.again current rto) k slots := by
  induction slots generalizing k with
  | nil =>
    rw [serve_nil]
    rfl
  | cons slot rest ih =>
    cases k with
    | zero =>
      exact remark_same
    | succ k =>
      rw [map_cons,serve,serve]
      change remark current rto _ (if slot.taken current then _ else _) = _
      split
      · change (if resend current rto slot.segment = slot.segment then slot else slot.again current rto) :: remark current rto rest _ = _
        rw [if_neg (resend_changes current rto slot.segment),ih]
      · change (if slot.segment = slot.segment then slot else _) :: remark current rto rest _ = _
        rw [if_pos rfl,ih]

theorem flush_slots : (step t (.flush current rto limit)).slots = serve (Slot.taken current) (Slot.again current rto) (allowance limit 0) t.slots := by
  change remark current rto t.slots (t.window.flush current rto limit).1.cache = _
  rw [(window_flush t.window current rto limit).1]
  exact remark_served ..

def MarkedAll (t : Timer) : Prop := ∀ slot ∈ t.slots, Marked t.clock slot

theorem step_marked (marked : MarkedAll t) (allowed : Allowed t event) : MarkedAll (step t event) := by
  cases event with
  | push number payload =>
    intro slot found
    rcases mem_append.mp found with before | last
    · exact marked slot before
    · cases mem_singleton.mp last
      exact rfl
  | flush current rto limit =>
    change ∀ slot ∈ (step t _).slots, Marked current slot
    rw [flush_slots]
    have made : ∀ slot : Slot, Marked current (slot.again current rto) := fun slot => ⟨rfl,UInt32.le_refl current⟩
    exact serve_forall (fun slot found => marked_later (marked slot found) allowed.1) made _
  | add number timestamp | clear una | flushAcks current rto conv => exact marked

theorem allowance_whole (positive : 1 ≤ limit) : allowance limit 0 = limit.toNat := by
  have least := UInt32.le_iff_toNat_le.mp positive
  change 1 ≤ limit.toNat at least
  change max 1 (limit.toNat - 0) = limit.toNat
  omega

theorem flush_exact_iff (marked : MarkedAll t) (allowed : Allowed t (.flush current rto limit)) :
    FlushExact t current rto limit ↔ FlushSafe t current rto limit := by
  have whole := allowance_whole allowed.2
  obtain ⟨cached,front⟩ := slots_served
  obtain ⟨behind,sent⟩ := @flushCache_serves limit 0 current rto t.window.cache (.inl rfl) t.total
  rw [whole] at behind sent
  have timely : (∀ slot ∈ reached (Slot.due current) limit.toNat t.slots, slot.taken current = slot.due current) ↔
      ∀ slot ∈ reached (Slot.due current) limit.toNat t.slots, slot.Timely current :=
    forall_congr' fun slot => forall_congr' fun found => timely_iff (marked slot (mem_of_reached found)) allowed.1
  have agree := @serve_view_iff _ (Slot.taken current) (Slot.again current rto) _ Slot.segment (Slot.due current)
    (fun slot => resend_changes current rto slot.segment) limit.toNat t.slots
  constructor
  · rintro ⟨done,returned,cache,-⟩
    have fits := flushChecked_some (.inl rfl) t.total returned
    have same := returned.symm.trans (flushChecked_fits (.inl rfl) t.total fits)
    rw [Option.some.inj same] at cache
    have equal := agree.mp ((cached.trans behind.symm).trans cache)
    refine ⟨timely.mp equal,?_⟩
    rw [whole] at fits
    rw [← reached_served equal,front]
    exact fits
  · rintro ⟨inTime,fits⟩
    have equal := timely.mpr inTime
    rw [← reached_served equal,front,← whole] at fits
    refine ⟨_,flushChecked_fits (.inl rfl) t.total fits,?_,?_⟩
    · exact behind.trans (cached.symm.trans (agree.mpr equal))
    · rw [sent,← reached_served equal]
      change (served (isDue current) limit.toNat (t.slots.map Slot.segment)).map _ = _
      rw [← front,map_map]
      rfl

theorem set_other (times : List UInt32) (time) (other : i ≠ j) : (times.set i time).getD j 0 = times.getD j 0 := by
  simp [getElem?_set_ne other]

theorem getD_inside {times : List UInt32} (inside : i < times.length) : times.getD i 0 = times[i] := by
  simp [inside]

theorem visit_other (state) (other : i ≠ j) : (AckFlush.visit list maxAcks current rto conv state i).nextFlush.getD j 0 = state.nextFlush.getD j 0 := by
  unfold AckFlush.visit
  dsimp only
  split
  · split
    · rfl
    · rfl
  · split
    · exact set_other state.nextFlush _ other
    · exact set_other state.nextFlush _ other

theorem visitChecked_some (state i) (fits : current < state.nextFlush.getD i 0 ∨ current.toNat + (nextTimeout rto).toNat < 2^32) :
    visitChecked list maxAcks current rto conv state i = some (AckFlush.visit list maxAcks current rto conv state i) := by
  rw [visitChecked]
  split
  · rfl
  · rename_i reached
    rcases fits with postponed | fits
    · exact absurd postponed reached
    · rw [add32_fits fits]
      rfl

theorem visitChecked_none (state i) (overflows : ¬ (current < state.nextFlush.getD i 0 ∨ current.toNat + (nextTimeout rto).toNat < 2^32)) :
    visitChecked list maxAcks current rto conv state i = none := by
  obtain ⟨reached,overflows⟩ := not_or.mp overflows
  rw [visitChecked,if_neg reached,add32,if_neg overflows]
  rfl

theorem scan_some_iff (list maxAcks current rto conv) (times : Nat → UInt32)
    {indices : List Nat} (once : indices.Nodup) (state) (same : ∀ i ∈ indices, state.nextFlush.getD i 0 = times i) :
    (indices.foldlM (visitChecked list maxAcks current rto conv) state).isSome ↔
      ∀ i ∈ indices, current < times i ∨ current.toNat + (nextTimeout rto).toNat < 2^32 := by
  induction indices generalizing state with
  | nil => simp
  | cons i rest ih =>
    obtain ⟨apart,once⟩ := nodup_cons.mp once
    obtain ⟨here,later⟩ := forall_mem_cons.mp same
    have kept : ∀ j ∈ rest, (AckFlush.visit list maxAcks current rto conv state i).nextFlush.getD j 0 = times j := by
      intro j found
      have other : i ≠ j := by
        rintro rfl
        exact apart found
      rw [visit_other state other]
      exact later j found
    rw [foldlM_cons,forall_mem_cons,← ih once _ kept,← here]
    by_cases fits : current < state.nextFlush.getD i 0 ∨ current.toNat + (nextTimeout rto).toNat < 2^32
    · rw [visitChecked_some state i fits]
      exact (and_iff_right fits).symm
    · rw [visitChecked_none state i fits]
      exact iff_of_false Bool.false_ne_true (fun both => fits both.1)

theorem acks_exact_iff (acks current rto conv) : (scanChecked acks current rto conv).isSome ↔
      (∀ time ∈ acks.nextFlush, current < time) ∨ current.toNat + (nextTimeout rto).toNat < 2^32 := by
  have visited := scan_some_iff acks ((acks.mss.toNat - 17)/4) current rto conv (fun i => acks.nextFlush.getD i 0)
    (nodup_range (n := acks.numbers.length)) ⟨acks.nextFlush,[],freshAck ((acks.mss.toNat - 17)/4) conv,[],acks.dirty⟩ (fun _ _ => rfl)
  rw [scanChecked,visited]
  constructor
  · intro each
    by_cases fits : current.toNat + (nextTimeout rto).toNat < 2^32
    · exact .inr fits
    · refine .inl fun time found => ?_
      obtain ⟨i,inside,rfl⟩ := mem_iff_getElem.mp found
      have here := each i (mem_range.mpr (acks.nextFlushAligned ▸ inside))
      rw [getD_inside inside] at here
      exact here.resolve_right fits
  · rintro (postponed | fits) i found
    · have inside := acks.nextFlushAligned ▸ mem_range.mp found
      rw [getD_inside inside]
      exact .inl (postponed _ (getElem_mem inside))
    · exact .inr fits

theorem exact_safe (marked : MarkedAll t) : Exact t event ↔ Safe t event := by
  cases event with
  | push number payload => exact Iff.rfl
  | flush current rto limit => exact forall_congr' fun allowed => flush_exact_iff marked allowed
  | add number timestamp | clear una => exact Iff.rfl
  | flushAcks current rto conv => exact acks_exact_iff t.acks current rto conv

theorem advance_marked (t event next) (marked : MarkedAll t) (moved : advance t event = some next) : MarkedAll next := by
  rw [advance] at moved
  split at moved
  · cases moved
    exact step_marked marked ‹_›
  · cases moved

-- The timer is exact and nothing overflows, in a run from a new connection, as long as the due segments are within half of the numbers.
theorem retransmission_iff (mss : UInt32) (events : List Event) :
    Meets advance Exact (.new mss) events ↔ Meets advance Safe (.new mss) events := by
  have fresh : MarkedAll (.new mss) := fun slot found => absurd found not_mem_nil
  exact meets_congr MarkedAll advance_marked (fun t event marked => exact_safe marked) fresh

-- At 0x7FFFFFFF a segment that was never sent is not due.
theorem never_sent_not_due : ¬ Meets advance Exact (.new 1326) [.push 0 [],.flush 0x7FFFFFFF 100 1] ∧
      ((step (.new 1326) (.push 0 [])).window.flush 0x7FFFFFFF 100 1).2 = [] := by
  refine ⟨?_,by decide⟩
  rintro ⟨-,later⟩
  obtain ⟨exactly,-⟩ := later _ rfl
  obtain ⟨done,returned,-,sent⟩ := exactly ⟨by decide,by decide⟩
  cases returned
  exact absurd sent (by decide)

end AstraCore.KcpRetransmission
