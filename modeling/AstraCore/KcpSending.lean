import AstraCore.KcpSegment

namespace AstraCore.KcpSending
open CheckedBytes KcpSegment

structure Config where
  mtu : UInt32
  tti : UInt32
  uplinkCapacity : UInt32
  downlinkCapacity : UInt32
  cwndMultiplier : UInt32
  maxSendingWindow : UInt32
deriving DecidableEq, Repr

def Config.default : Config := ⟨1350,50,5,20,1,2*1024*1024⟩

def inFlightSize (capacity mtu tti : UInt32) : Checked UInt32 := do
  let packets ← div32 (capacity*1024*1024) mtu
  let ticks ← div32 1000 tti
  let size ← div32 packets ticks
  .ok (if size < 8 then 8 else size)

section
variable (config : Config)

def Config.sendingInFlightSize : Checked UInt32 :=
  inFlightSize config.uplinkCapacity config.mtu config.tti
def Config.sendingBufferSize : Checked UInt32 := div32 config.maxSendingWindow config.mtu
def Config.mss : UInt32 := config.mtu - UInt32.ofNat dataSegmentOverhead

end

theorem div32_isSome (d) : (div32 n d).toOption.isSome ↔ d ≠ 0 := by
  rw [div32]
  split
  · rename_i zero
    exact iff_of_false Bool.false_ne_true (fun other => other zero)
  · rename_i other
    exact iff_of_true rfl other

theorem ticks_iff (tti : UInt32) (some : tti ≠ 0) : 1000 / tti ≠ 0 ↔ tti ≤ 1000 := by
  have positive := Nat.pos_of_ne_zero fun zero => some (UInt32.toNat_inj.mp zero)
  have zero : 1000 / tti = 0 ↔ 1000 / tti.toNat = 0 := by
    rw [← UInt32.toNat_inj]
    rfl
  rw [ne_eq,zero,Nat.div_eq_zero_iff]
  change _ ↔ tti.toNat ≤ 1000
  omega

theorem inFlightSize_isSome : (inFlightSize capacity mtu tti).toOption.isSome ↔ mtu ≠ 0 ∧ 1 ≤ tti ∧ tti ≤ 1000 := by
  have least : 1 ≤ tti ↔ tti ≠ 0 := by
    rw [ne_eq,← UInt32.toNat_inj]
    change 1 ≤ tti.toNat ↔ ¬ tti.toNat = 0
    omega
  rw [least,inFlightSize]
  by_cases empty : mtu = 0
  · rw [div32,if_pos empty]
    exact iff_of_false Bool.false_ne_true (fun all => all.1 empty)
  by_cases never : tti = 0
  · rw [div32,if_neg empty,div32,if_pos never]
    exact iff_of_false Bool.false_ne_true (fun all => all.2.1 never)
  have ticks := ticks_iff tti never
  rw [div32,if_neg empty,ok_bind,div32,if_neg never,ok_bind]
  by_cases slow : 1000 / tti = 0
  · rw [div32,if_pos slow]
    exact iff_of_false Bool.false_ne_true (fun all => ticks.mpr all.2.2 slow)
  · rw [div32,if_neg slow]
    exact iff_of_true rfl ⟨empty,never,ticks.mp slow⟩

structure SendingWindow where
  cache : List DataSegment
  totalInFlightSize : UInt32
deriving DecidableEq, Repr

def SendingWindow.new : SendingWindow := ⟨[],0⟩
def SendingWindow.isEmpty (window : SendingWindow) : Bool := window.cache.isEmpty

section
variable (window : SendingWindow)

def SendingWindow.push (number : UInt32) (payload : Bytes) : SendingWindow :=
  {window with cache := window.cache ++ [⟨0,⟨0⟩,0,number,0,payload,0,0⟩]}

def SendingWindow.firstNumber : UInt32 :=
  (window.cache.head?.map (·.number)).getD 0

def SendingWindow.clear (una : UInt32) : SendingWindow :=
  {window with cache := window.cache.dropWhile (fun seg => decide (seg.number < una))}

def fastAckCache (number rto : UInt32) : List DataSegment → List DataSegment
  | [] => []
  | seg :: rest =>
    if number - seg.number > 0x7FFFFFFF then seg :: rest
    else
      (if seg.transmit > 0 && seg.timeout > rto/3 then {seg with timeout := seg.timeout - rto/3} else seg) ::
        fastAckCache number rto rest

def SendingWindow.handleFastAck (number rto : UInt32) : SendingWindow :=
  {window with cache := fastAckCache number rto window.cache}

structure Flushed where
  cache : List DataSegment
  total : UInt32
  sent : List DataSegment

def flushCache (current rto maxInFlightSize : UInt32) :
    List DataSegment → (inFlight total : UInt32) → Flushed
  | [],_,total => ⟨[],total,[]⟩
  | seg :: rest,inFlight,total =>
    if current - seg.timeout ≥ 0x7FFFFFFF then
      let later := flushCache current rto maxInFlightSize rest inFlight total
      {later with cache := seg :: later.cache}
    else
      let total := if seg.transmit = 0 then total + 1 else total
      let seg := {seg with timeout := current + rto,timestamp := current,transmit := seg.transmit + 1}
      if inFlight + 1 ≥ maxInFlightSize then ⟨seg :: rest,total,[seg]⟩
      else
        let later := flushCache current rto maxInFlightSize rest (inFlight + 1) total
        ⟨seg :: later.cache,later.total,seg :: later.sent⟩

def SendingWindow.flush (current rto maxInFlightSize : UInt32) :
    SendingWindow × List DataSegment :=
  if window.isEmpty then (window,[])
  else
    let done := flushCache current rto maxInFlightSize window.cache 0 window.totalInFlightSize
    (⟨done.cache,done.total⟩,done.sent)

def SendingWindow.remove (number : UInt32) : SendingWindow × Bool :=
  if window.cache.any (fun seg => seg.number == number) then
    ({cache := window.cache.eraseP (fun seg => seg.number == number)
      totalInFlightSize := if window.totalInFlightSize > 0 then window.totalInFlightSize - 1 else window.totalInFlightSize},
      true)
  else (window,false)

end

structure SendingWorker where
  window : SendingWindow
  firstUnacknowledged : UInt32
  nextNumber : UInt32
  remoteNextNumber : UInt32
  controlWindow : UInt32
  windowSize : UInt32
  firstUnacknowledgedUpdated : Bool
  closed : Bool
deriving DecidableEq, Repr

def SendingWorker.new (config : Config) : Checked SendingWorker := do
  let controlWindow ← config.sendingInFlightSize
  let windowSize ← config.sendingBufferSize
  .ok ⟨.new,0,0,32,controlWindow,windowSize,false,false⟩

section
variable (worker : SendingWorker)

def SendingWorker.findFirstUnacknowledged : SendingWorker :=
  let found := if !worker.window.isEmpty then worker.window.firstNumber else worker.nextNumber
  {worker with
    firstUnacknowledged := found
    firstUnacknowledgedUpdated :=
      if worker.firstUnacknowledged != found then true else worker.firstUnacknowledgedUpdated}

def SendingWorker.processReceivingNext (nextNumber : UInt32) : SendingWorker :=
  {worker with window := worker.window.clear nextNumber}.findFirstUnacknowledged

def SendingWorker.processAck (number : UInt32) : SendingWorker × Bool :=
  if number - worker.firstUnacknowledged > 0x7FFFFFFF || number - worker.nextNumber < 0x7FFFFFFF then (worker,false)
  else
    let (window,removed) := worker.window.remove number
    let worker := {worker with window := window}
    (if removed then worker.findFirstUnacknowledged else worker,removed)

end

structure AckScan where
  worker : SendingWorker
  maxack : UInt32
  maxackRemoved : Bool

def AckScan.next (scan : AckScan) (number : UInt32) : AckScan :=
  let (worker,removed) := scan.worker.processAck number
  if scan.maxack < number then ⟨worker,number,removed⟩ else ⟨worker,scan.maxack,scan.maxackRemoved⟩

def SendingWorker.processSegment (worker : SendingWorker) (seg : AckSegment) (rto : UInt32) : SendingWorker :=
  if worker.closed then worker
  else
    let worker := if worker.remoteNextNumber < seg.receivingWindow
      then {worker with remoteNextNumber := seg.receivingWindow} else worker
    let worker := worker.processReceivingNext seg.receivingNext
    if seg.isEmpty then worker
    else
      let scan := seg.numberList.foldl AckScan.next ⟨worker,0,false⟩
      if scan.maxackRemoved then {scan.worker with window := scan.worker.window.handleFastAck scan.maxack rto}
      else scan.worker

def SendingWorker.push (worker : SendingWorker) (payload : Bytes) : SendingWorker × Bool :=
  if worker.closed then (worker,false)
  else if UInt32.ofNat worker.window.cache.length > worker.windowSize then (worker,false)
  else
    ({worker with window := worker.window.push worker.nextNumber payload,nextNumber := worker.nextNumber + 1},true)

def SendingWorker.flush (worker : SendingWorker) (current : UInt32) (config : Config) (rto : UInt32) :
    Checked (SendingWorker × List DataSegment) :=
  if worker.closed then .ok (worker,[])
  else do
    let cwnd ← config.sendingInFlightSize
    let windowGap := worker.remoteNextNumber - worker.firstUnacknowledged
    let cwnd := if cwnd > windowGap then windowGap else cwnd
    let cwnd := if cwnd > worker.controlWindow then worker.controlWindow else cwnd
    let cwnd := cwnd*config.cwndMultiplier
    if !worker.window.isEmpty then
      let (window,segs) := worker.window.flush current rto cwnd
      .ok ({worker with window := window,firstUnacknowledgedUpdated := false},segs)
    else .ok (worker,[])

def SendingWorker.closeWrite (worker : SendingWorker) : SendingWorker :=
  {worker with window := worker.window.clear 0xFFFFFFFF}

def SendingWorker.isEmpty (worker : SendingWorker) : Bool := worker.window.isEmpty
def SendingWorker.updateNecessary (worker : SendingWorker) : Bool := !worker.isEmpty

def entry (seg : DataSegment) : UInt32 × Bytes := (seg.number,seg.payload)
def SendingWorker.entries (worker : SendingWorker) : List (UInt32 × Bytes) := worker.window.cache.map entry

theorem fastAckCache_entries (number rto cache) : (fastAckCache number rto cache).map entry = cache.map entry := by
  induction cache with
  | nil => rfl
  | cons seg rest ih =>
    rw [fastAckCache]
    split
    · rfl
    · rw [List.map_cons,ih]
      split <;> rfl

theorem flushCache_entries (inFlight total) : (flushCache current rto maxInFlightSize cache inFlight total).cache.map entry = cache.map entry ∧
      ∀ seg ∈ (flushCache current rto maxInFlightSize cache inFlight total).sent, entry seg ∈ cache.map entry := by
  induction cache generalizing inFlight total with
  | nil => simp [flushCache]
  | cons seg rest ih =>
    rw [flushCache]
    dsimp only
    split
    · obtain ⟨same,sent⟩ := ih inFlight total
      exact ⟨by simp [same],fun other member => by simpa using Or.inr (by simpa using sent other member)⟩
    · split
      · simp [entry]
      · obtain ⟨same,sent⟩ := ih (inFlight + 1) (if seg.transmit = 0 then total + 1 else total)
        refine ⟨by simp [same,entry],?_⟩
        intro other member
        rcases List.mem_cons.mp member with rfl | later
        · simp [entry]
        · exact List.mem_cons_of_mem _ (sent other later)

-- One step of the sender other than `push`: entries may only disappear, and only
-- those whose number satisfies `lost`.
structure Forgets (lost : UInt32 → Prop) (before after : SendingWorker) : Prop where
  kept : ∀ item ∈ after.entries, item ∈ before.entries
  only : ∀ item ∈ before.entries, item ∈ after.entries ∨ lost item.1
  next : after.nextNumber = before.nextNumber

theorem Forgets.same (entries : after.entries = before.entries) (next : after.nextNumber = before.nextNumber) : Forgets lost before after :=
  ⟨fun _ member => entries ▸ member,fun _ member => .inl (entries ▸ member),next⟩

theorem Forgets.trans (first : Forgets lost before middle) (second : Forgets lost middle after) : Forgets lost before after := by
  refine ⟨fun item member => first.kept item (second.kept item member),?_,second.next.trans first.next⟩
  intro item member
  rcases first.only item member with still | gone
  · exact second.only item still
  · exact .inr gone

theorem Forgets.mono (step : Forgets few before after) (wider : ∀ number, few number → many number) : Forgets many before after :=
  ⟨step.kept,fun item member => (step.only item member).imp_right (wider item.1),step.next⟩

theorem find_forgets : Forgets lost worker worker.findFirstUnacknowledged :=
  .same rfl rfl

theorem clear_forgets : Forgets (· < una) worker {worker with window := worker.window.clear una} := by
  refine ⟨?_,?_,rfl⟩
  · intro item member
    obtain ⟨seg,found,rfl⟩ := List.mem_map.mp member
    exact List.mem_map_of_mem ((List.dropWhile_sublist _).subset found)
  · intro item member
    obtain ⟨seg,found,rfl⟩ := List.mem_map.mp member
    rw [← List.takeWhile_append_dropWhile (p := fun seg => decide (seg.number < una)) (l := worker.window.cache)] at found
    rcases List.mem_append.mp found with dropped | still
    · exact .inr (by simpa [entry] using List.all_eq_true.mp List.all_takeWhile seg dropped)
    · exact .inl (List.mem_map_of_mem still)

theorem processReceivingNext_forgets (worker next) : Forgets (· < next) worker (worker.processReceivingNext next) :=
  (clear_forgets).trans (find_forgets)

theorem remove_forgets (worker number) : Forgets (· = number) worker {worker with window := (worker.window.remove number).1} := by
  unfold SendingWindow.remove
  split
  · refine ⟨?_,?_,rfl⟩
    · intro item member
      obtain ⟨seg,found,rfl⟩ := List.mem_map.mp member
      exact List.mem_map_of_mem (List.mem_of_mem_eraseP found)
    · intro item member
      obtain ⟨seg,found,rfl⟩ := List.mem_map.mp member
      by_cases named : seg.number = number
      · exact .inr named
      · exact .inl (List.mem_map_of_mem ((List.mem_eraseP_of_neg (by simpa using named)).mpr found))
  · exact .same rfl rfl

theorem processAck_forgets (worker number) : Forgets (· = number) worker (worker.processAck number).1 := by
  unfold SendingWorker.processAck
  split
  · exact .same rfl rfl
  · have removed := remove_forgets worker number
    dsimp only
    split
    · exact removed.trans (find_forgets)
    · exact removed

theorem scan_forgets (numbers : List UInt32) (scan) : Forgets (· ∈ numbers) scan.worker (numbers.foldl AckScan.next scan).worker := by
  induction numbers generalizing scan with
  | nil => exact .same rfl rfl
  | cons number rest ih =>
    have one : Forgets (· = number) scan.worker (scan.next number).worker := by
      unfold AckScan.next
      dsimp only
      split <;> exact processAck_forgets scan.worker number
    exact (one.mono fun n same => by simp [same]).trans ((ih (scan.next number)).mono fun n later => by simp [later])

theorem processSegment_forgets (worker seg rto) : Forgets (fun n => n < seg.receivingNext ∨ n ∈ seg.numberList) worker (worker.processSegment seg rto) := by
  unfold SendingWorker.processSegment
  split
  · exact .same rfl rfl
  · dsimp only
    generalize widened : (if worker.remoteNextNumber < seg.receivingWindow
      then {worker with remoteNextNumber := seg.receivingWindow} else worker) = opened
    have start : Forgets (fun n => n < seg.receivingNext ∨ n ∈ seg.numberList) worker opened := by
      subst widened
      split <;> exact .same rfl rfl
    have cumulative := start.trans ((processReceivingNext_forgets opened seg.receivingNext).mono fun n => Or.inl)
    split
    · exact cumulative
    · have selective := cumulative.trans ((scan_forgets seg.numberList ⟨_,0,false⟩).mono fun n => Or.inr)
      split
      · refine selective.trans (.same ?_ rfl)
        exact fastAckCache_entries _ _ _
      · exact selective

theorem flush_forgets (flushed : worker.flush current config rto = .ok (after,segs)) :
    Forgets (fun _ => False) worker after ∧ ∀ seg ∈ segs, entry seg ∈ worker.entries := by
  unfold SendingWorker.flush at flushed
  split at flushed
  · cases flushed; exact ⟨.same rfl rfl,by simp⟩
  · obtain ⟨cwnd,-,flushed⟩ := checked_bind flushed
    split at flushed
    · unfold SendingWindow.flush at flushed
      split at flushed
      · cases flushed; exact ⟨.same rfl rfl,by simp⟩
      · cases flushed
        obtain ⟨same,sent⟩ := flushCache_entries 0 worker.window.totalInFlightSize
        exact ⟨.same same rfl,sent⟩
    · cases flushed; exact ⟨.same rfl rfl,by simp⟩

theorem closeWrite_forgets (worker) : Forgets (fun _ => True) worker worker.closeWrite :=
  (clear_forgets).mono fun _ _ => True.intro

theorem push_cases (worker : SendingWorker) (payload) : worker.push payload = (worker,false) ∨ worker.push payload = ({worker with
        window := worker.window.push worker.nextNumber payload,nextNumber := worker.nextNumber + 1},true) := by
  unfold SendingWorker.push
  split
  · exact .inl rfl
  · split
    · exact .inl rfl
    · exact .inr rfl

theorem push_entries (worker : SendingWorker) (payload) :
    (worker.window.push worker.nextNumber payload).cache.map entry = worker.entries ++ [(worker.nextNumber,payload)] := by
  simp [SendingWindow.push,SendingWorker.entries,entry]

theorem new_worker (created : SendingWorker.new config = .ok worker) : worker.entries = [] ∧ worker.nextNumber = 0 ∧ worker.firstUnacknowledged = 0 := by
  obtain ⟨controlWindow,-,created⟩ := checked_bind created
  obtain ⟨windowSize,-,created⟩ := checked_bind created
  cases created
  exact ⟨rfl,rfl,rfl⟩

end AstraCore.KcpSending
