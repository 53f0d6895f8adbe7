import AstraCore.KcpFlush
import AstraCore.Machine

namespace AstraCore.KcpFlowControl
open CheckedBytes KcpSegment KcpSending KcpFlush FirstServed Machine
open List (map map_map mem_map not_mem_nil)

structure Flush where
  before : SendingWorker
  current : UInt32
  config : Config
  rto : UInt32
  inFlightSize : UInt32
  sent : List DataSegment

structure State where
  worker : SendingWorker
  flushes : List Flush

inductive Event where
  | push (payload : Bytes)
  | flush (current : UInt32) (config : Config) (rto : UInt32)
  | processSegment (seg : AckSegment) (rto : UInt32)
  | processReceivingNext (nextNumber : UInt32)

-- A configuration whose sizes divide by zero panics, and the run ends there.
def advance (s : State) : Event → Option State
  | .push payload => some {s with worker := (s.worker.push payload).1}
  | .flush current config rto => do
    let inFlightSize ← config.sendingInFlightSize.toOption
    let (worker,sent) ← (s.worker.flush current config rto).toOption
    some ⟨worker,s.flushes ++ [⟨s.worker,current,config,rto,inFlightSize,sent⟩]⟩
  | .processSegment seg rto => some {s with worker := s.worker.processSegment seg rto}
  | .processReceivingNext nextNumber => some {s with worker := s.worker.processReceivingNext nextNumber}

def pushes (events : List Event) : Nat :=
  events.countP fun
    | .push _ => true
    | _ => false

structure Run where
  config : Config
  worker : SendingWorker
  created : SendingWorker.new config = .ok worker
  events : List Event
  few : pushes events < 2^31
  last : State
  path : run advance ⟨worker,[]⟩ events = some last

section
variable (f : Flush)

def Flush.limit : Nat :=
  min (min f.inFlightSize.toNat (f.before.remoteNextNumber - f.before.firstUnacknowledged).toNat) f.before.controlWindow.toNat *
    f.config.cwndMultiplier.toNat

structure Controlled : Prop where
  inWindow : ∀ seg ∈ f.sent, f.before.firstUnacknowledged ≤ seg.number ∧ seg.number < f.before.remoteNextNumber
  atMost : f.sent.length ≤ f.limit

-- What the loop serves: the first due segments, as many as the limit as a machine word says, and one where that is zero.
def Flush.next : List DataSegment := served (isDue f.current) (max 1 (f.limit % 2^32)) f.before.window.cache

def Clear : Prop :=
  f.next = [] ∨ f.limit ≠ 0 ∧ ∀ seg ∈ f.next, seg.number < f.before.remoteNextNumber

def numbers (worker : SendingWorker) : List UInt32 := worker.window.cache.map DataSegment.number

-- The cache holds some of the numbers given out so far in their order, and the first of them is the first unacknowledged.
structure Tidy (count : Nat) (worker : SendingWorker) : Prop where
  sorted : (numbers worker).Pairwise (· < ·)
  given : ∀ n ∈ numbers worker, n < worker.nextNumber
  first : worker.firstUnacknowledged = (numbers worker).head?.getD worker.nextNumber
  counted : worker.nextNumber.toNat ≤ count
  unclosed : worker.closed = false

theorem tidy_more (tidy : Tidy count worker) (more : count ≤ later) : Tidy later worker :=
  ⟨tidy.sorted,tidy.given,tidy.first,Nat.le_trans tidy.counted more,tidy.unclosed⟩

theorem found_first : worker.findFirstUnacknowledged.firstUnacknowledged = (numbers worker).head?.getD worker.nextNumber := by
  rw [SendingWorker.findFirstUnacknowledged,numbers,SendingWindow.isEmpty,SendingWindow.firstNumber]
  cases worker.window.cache with
  | nil | cons seg rest => rfl

theorem find_tidy (tidy : Tidy count worker) (fewer : (numbers after).Sublist (numbers worker)) (next : after.nextNumber = worker.nextNumber)
    (closed : after.closed = worker.closed) : Tidy count after.findFirstUnacknowledged where
  sorted := tidy.sorted.sublist fewer
  given n found := by
    change n < after.nextNumber
    rw [next]
    exact tidy.given n (fewer.subset found)
  first := found_first
  counted := by
    change after.nextNumber.toNat ≤ count
    rw [next]
    exact tidy.counted
  unclosed := closed.trans tidy.unclosed

theorem same_tidy (tidy : Tidy count worker) (same : numbers after = numbers worker) (next : after.nextNumber = worker.nextNumber)
    (first : after.firstUnacknowledged = worker.firstUnacknowledged) (closed : after.closed = worker.closed) : Tidy count after where
  sorted := by rw [same]; exact tidy.sorted
  given := by rw [same,next]; exact tidy.given
  first := by rw [first,same,next]; exact tidy.first
  counted := by rw [next]; exact tidy.counted
  unclosed := closed.trans tidy.unclosed

theorem new_tidy (created : SendingWorker.new config = .ok worker) : Tidy 0 worker := by
  obtain ⟨controlWindow,-,created⟩ := checked_bind created
  obtain ⟨windowSize,-,created⟩ := checked_bind created
  cases created
  exact ⟨.nil,fun _ found => absurd found not_mem_nil,rfl,Nat.le_refl 0,rfl⟩

theorem push_tidy (tidy : Tidy count worker) (few : count + 1 < 2^32) : Tidy (count + 1) (worker.push payload).1 := by
  rcases push_cases worker payload with refused | taken
  · rw [refused]
    exact tidy_more tidy (Nat.le_succ count)
  rw [taken]
  have counted := tidy.counted
  have next : (worker.nextNumber + 1).toNat = worker.nextNumber.toNat + 1 := next_toNat (by omega)
  have larger : worker.nextNumber < worker.nextNumber + 1 := UInt32.lt_iff_toNat_lt.mpr (by omega)
  have grown : (worker.window.push worker.nextNumber payload).cache.map DataSegment.number = numbers worker ++ [worker.nextNumber] := by
    simp [SendingWindow.push,numbers]
  refine ⟨?_,?_,?_,?_,tidy.unclosed⟩
  · rw [numbers,grown]
    refine List.pairwise_append.mpr ⟨tidy.sorted,List.pairwise_singleton _ _,?_⟩
    intro n found m last
    rw [List.mem_singleton.mp last]
    exact tidy.given n found
  · rw [numbers,grown]
    intro n found
    rcases List.mem_append.mp found with before | last
    · exact UInt32.lt_trans (tidy.given n before) larger
    · rw [List.mem_singleton.mp last]
      exact larger
  · rw [numbers,grown]
    rw [tidy.first]
    cases numbers worker with
    | nil | cons n rest => rfl
  · change (worker.nextNumber + 1).toNat ≤ count + 1
    omega

theorem receivingNext_tidy (tidy : Tidy count worker) (nextNumber) : Tidy count (worker.processReceivingNext nextNumber) := by
  refine find_tidy tidy ?_ rfl rfl
  exact (List.dropWhile_sublist _).map DataSegment.number

theorem remove_fewer (window : SendingWindow) : ((window.remove number).1.cache.map DataSegment.number).Sublist (window.cache.map DataSegment.number) := by
  rw [SendingWindow.remove]
  split
  · exact List.eraseP_sublist.map DataSegment.number
  · exact .refl _

theorem remove_fails {window : SendingWindow} (kept : ¬ (window.remove number).2 = true) : (window.remove number).1 = window := by
  rw [SendingWindow.remove] at kept ⊢
  split
  · rename_i found
    rw [if_pos found] at kept
    exact absurd rfl kept
  · rfl

theorem processAck_tidy (tidy : Tidy count worker) (number) : Tidy count (worker.processAck number).1 := by
  unfold SendingWorker.processAck
  split
  · exact tidy
  · dsimp only
    split
    · exact find_tidy tidy (remove_fewer worker.window) rfl rfl
    · rename_i kept
      rw [remove_fails kept]
      exact tidy

theorem scan_tidy (acked : List UInt32) (scan) (tidy : Tidy count scan.worker) : Tidy count (acked.foldl AckScan.next scan).worker := by
  induction acked generalizing scan with
  | nil => exact tidy
  | cons number rest ih =>
    apply ih
    have one := processAck_tidy tidy number
    rw [AckScan.next]
    dsimp only
    split
    · exact one
    · exact one

theorem fastAck_numbers : (fastAckCache number rto cache).map DataSegment.number = cache.map DataSegment.number := by
  have same := congrArg (map Prod.fst) (fastAckCache_entries number rto cache)
  rwa [map_map,map_map] at same

theorem processSegment_tidy (tidy : Tidy count worker) : Tidy count (worker.processSegment seg rto) := by
  rw [SendingWorker.processSegment,if_neg (by rw [tidy.unclosed]; exact Bool.false_ne_true)]
  dsimp only
  generalize widened : (if worker.remoteNextNumber < seg.receivingWindow
    then {worker with remoteNextNumber := seg.receivingWindow} else worker) = opened
  have start : Tidy count opened := by
    subst widened
    split
    · exact same_tidy tidy rfl rfl rfl rfl
    · exact tidy
  have cumulative := receivingNext_tidy start seg.receivingNext
  split
  · exact cumulative
  · have selective := scan_tidy seg.numberList ⟨_,0,false⟩ cumulative
    split
    · exact same_tidy selective (fastAck_numbers ..) rfl rfl rfl
    · exact selective

theorem serve_numbers : (serve due (resend current rto) k cache).map DataSegment.number = cache.map DataSegment.number := by
  induction cache generalizing k with
  | nil => rw [serve_nil]
  | cons seg rest ih =>
    cases k with
    | zero => rw [serve_zero]
    | succ k =>
      rw [serve]
      split
      · rw [List.map_cons,ih]
        rfl
      · rw [List.map_cons,ih]
        rfl

theorem tidy_least (tidy : Tidy count worker) (found : seg ∈ worker.window.cache) : worker.firstUnacknowledged ≤ seg.number := by
  have member : seg.number ∈ numbers worker := List.mem_map_of_mem found
  rw [tidy.first]
  have sorted := tidy.sorted
  cases shape : numbers worker with
  | nil =>
    rw [shape] at member
    exact absurd member not_mem_nil
  | cons n rest =>
    rw [shape] at member sorted
    rcases List.mem_cons.mp member with same | later
    · rw [same]
      exact UInt32.le_refl n
    · exact UInt32.le_of_lt (List.rel_of_pairwise_cons sorted later)

theorem least_toNat (b : UInt32) : (if a > b then b else a).toNat = min a.toNat b.toNat := by
  split
  · rename_i more
    exact (Nat.min_eq_right (Nat.le_of_lt (UInt32.lt_iff_toNat_lt.mp more))).symm
  · rename_i less
    exact (Nat.min_eq_left (Nat.le_of_not_lt (mt UInt32.lt_iff_toNat_lt.mpr less))).symm

theorem flush_sent (tidy : Tidy count worker) (sized : config.sendingInFlightSize = .ok size) (flushed : worker.flush current config rto = .ok (after,sent)) :
    Tidy count after ∧ sent = (Flush.next ⟨worker,current,config,rto,size,sent⟩).map (resend current rto) := by
  rw [SendingWorker.flush,if_neg (by rw [tidy.unclosed]; exact Bool.false_ne_true),sized,ok_bind] at flushed
  dsimp only at flushed
  generalize computed : (if (if size > worker.remoteNextNumber - worker.firstUnacknowledged
      then worker.remoteNextNumber - worker.firstUnacknowledged else size) > worker.controlWindow then worker.controlWindow
    else if size > worker.remoteNextNumber - worker.firstUnacknowledged
      then worker.remoteNextNumber - worker.firstUnacknowledged else size) * config.cwndMultiplier = cwnd at flushed
  have limited : allowance cwnd 0 = max 1 ((Flush.mk worker current config rto size sent).limit % 2^32) := by
    rw [allowance,← computed,UInt32.toNat_mul,least_toNat,least_toNat]
    rfl
  obtain ⟨cached,segs⟩ := window_flush worker.window current rto cwnd
  rw [limited] at segs
  split at flushed
  · cases flushed
    refine ⟨same_tidy tidy ?_ rfl rfl rfl,segs⟩
    exact (congrArg (map DataSegment.number) cached).trans (serve_numbers ..)
  · rename_i empty
    have none : worker.window.cache = [] := by simpa [SendingWindow.isEmpty] using empty
    cases flushed
    refine ⟨tidy,?_⟩
    rw [Flush.next,none,served_nil]
    rfl

structure Real : Prop where
  tidy : ∃ count, Tidy count f.before
  sent : f.sent = f.next.map (resend f.current f.rto)

end

theorem controlled_iff (real : Real f) : Controlled f ↔ Clear f := by
  obtain ⟨count,tidy⟩ := real.tidy
  have cached : ∀ seg ∈ f.next, seg ∈ f.before.window.cache := fun seg found => List.mem_of_mem_filter (List.mem_of_mem_take found)
  have width : f.sent.length = f.next.length := by rw [real.sent,List.length_map]
  have most : f.next.length ≤ max 1 _ := List.length_take_le ..
  have within : (∀ seg ∈ f.sent, f.before.firstUnacknowledged ≤ seg.number ∧ seg.number < f.before.remoteNextNumber) ↔
      ∀ seg ∈ f.next, seg.number < f.before.remoteNextNumber := by
    rw [real.sent,List.forall_mem_map]
    refine forall_congr' fun seg => forall_congr' fun found => ?_
    have least := tidy_least tidy (cached seg found)
    exact and_iff_right least
  constructor
  · rintro ⟨inWindow,atMost⟩
    by_cases nothing : f.next = []
    · exact .inl nothing
    · have positive := List.length_pos_iff.mpr nothing
      exact .inr ⟨by omega,within.mp inWindow⟩
  · rintro (nothing | ⟨allowed,before⟩)
    · have none : f.sent = [] := by rw [real.sent,nothing]; rfl
      refine ⟨?_,by rw [none]; exact Nat.zero_le _⟩
      rw [none]
      exact fun _ found => absurd found not_mem_nil
    · refine ⟨within.mpr before,?_⟩
      omega

theorem step_real (few : count + pushes [event] < 2^31) (tidy : Tidy count s.worker) (real : ∀ f ∈ s.flushes, Real f)
    (taken : advance s event = some next) : Tidy (count + pushes [event]) next.worker ∧ ∀ f ∈ next.flushes, Real f := by
  cases event with
  | push payload =>
    cases taken
    exact ⟨push_tidy tidy (by omega),real⟩
  | flush current config rto =>
    obtain ⟨size,sized,taken⟩ := Option.bind_eq_some_iff.mp taken
    obtain ⟨⟨worker,sent⟩,flushed,taken⟩ := Option.bind_eq_some_iff.mp taken
    cases taken
    obtain ⟨kept,segs⟩ := flush_sent tidy (toOption_ok sized) (toOption_ok flushed)
    refine ⟨kept,?_⟩
    intro f found
    rcases List.mem_append.mp found with before | last
    · exact real f before
    · cases List.mem_singleton.mp last
      exact ⟨⟨count,tidy⟩,segs⟩
  | processSegment seg rto =>
    cases taken
    exact ⟨processSegment_tidy tidy,real⟩
  | processReceivingNext nextNumber =>
    cases taken
    exact ⟨receivingNext_tidy tidy nextNumber,real⟩

structure Ordered (worker : SendingWorker) : Prop where
  increasing : (numbers worker).Pairwise (· < ·)
  between : ∀ n ∈ numbers worker, worker.firstUnacknowledged ≤ n ∧ n < worker.nextNumber
  first : worker.firstUnacknowledged = (numbers worker).head?.getD worker.nextNumber

section
variable (tidy : Tidy count worker)
include tidy

theorem tidy_between (found : n ∈ numbers worker) : worker.firstUnacknowledged ≤ n ∧ n < worker.nextNumber := by
  obtain ⟨seg,cached,rfl⟩ := mem_map.mp found
  exact ⟨tidy_least tidy cached,tidy.given _ found⟩

theorem tidy_ordered : Ordered worker :=
  ⟨tidy.sorted,fun _ found => tidy_between tidy found,tidy.first⟩

theorem tidy_first_next : worker.firstUnacknowledged ≤ worker.nextNumber := by
  rw [tidy.first]
  cases shape : numbers worker with
  | nil => exact UInt32.le_refl _
  | cons n rest =>
    have given := tidy.given n (by rw [shape]; exact List.mem_cons_self)
    exact UInt32.le_of_lt given

theorem first_later (later : Tidy more after)
    (cached : ∀ n ∈ numbers after, n ∈ numbers worker ∨ worker.nextNumber ≤ n) (next : worker.nextNumber ≤ after.nextNumber) :
    worker.firstUnacknowledged ≤ after.firstUnacknowledged := by
  have least := tidy_first_next tidy
  rw [later.first]
  cases shape : numbers after with
  | nil => exact UInt32.le_trans least next
  | cons n rest =>
    rcases cached n (by rw [shape]; exact List.mem_cons_self) with old | new
    · exact (tidy_between tidy old).1
    · exact UInt32.le_trans least new

theorem forgets_later (later : Tidy more after) (forgets : Forgets lost worker after) : worker.firstUnacknowledged ≤ after.firstUnacknowledged := by
  refine first_later tidy later ?_ (by rw [forgets.next]; exact UInt32.le_refl _)
  intro n found
  obtain ⟨seg,cached,rfl⟩ := mem_map.mp found
  obtain ⟨old,before,same⟩ := mem_map.mp (forgets.kept (entry seg) (List.mem_map_of_mem cached))
  have number : old.number = seg.number := congrArg Prod.fst same
  rw [← number]
  exact .inl (List.mem_map_of_mem before)

end

theorem push_later (worker : SendingWorker) : worker.firstUnacknowledged ≤ (worker.push payload).1.firstUnacknowledged := by
  rcases push_cases worker payload with refused | taken
  · rw [refused]
    exact UInt32.le_refl _
  · rw [taken]
    exact UInt32.le_refl _

theorem step_later (few : count + pushes [event] < 2^31) (tidy : Tidy count s.worker) (real : ∀ f ∈ s.flushes, Real f)
    (taken : advance s event = some next) : s.worker.firstUnacknowledged ≤ next.worker.firstUnacknowledged := by
  have later := (step_real few tidy real taken).1
  cases event with
  | push payload =>
    cases taken
    exact push_later s.worker
  | flush current config rto =>
    obtain ⟨size,-,taken⟩ := Option.bind_eq_some_iff.mp taken
    obtain ⟨⟨worker,sent⟩,flushed,taken⟩ := Option.bind_eq_some_iff.mp taken
    cases taken
    exact forgets_later tidy later (flush_forgets (toOption_ok flushed)).1
  | processSegment seg rto =>
    cases taken
    exact forgets_later tidy later (processSegment_forgets s.worker seg rto)
  | processReceivingNext nextNumber =>
    cases taken
    exact forgets_later tidy later (processReceivingNext_forgets s.worker nextNumber)

theorem pushes_cons (event rest) : pushes (event :: rest) = pushes [event] + pushes rest :=
  @List.countP_append _ _ [event] rest

theorem run_later (few : count + pushes events < 2^31) (tidy : Tidy count s.worker) (real : ∀ f ∈ s.flushes, Real f)
    (path : run advance s events = some last) : Tidy (count + pushes events) last.worker ∧ (∀ f ∈ last.flushes, Real f) ∧
      s.worker.firstUnacknowledged ≤ last.worker.firstUnacknowledged := by
  induction events generalizing s count with
  | nil =>
    cases path
    exact ⟨tidy,real,UInt32.le_refl _⟩
  | cons event rest ih =>
    have split := pushes_cons event rest
    obtain ⟨next,taken,path⟩ := run_cons path
    obtain ⟨kept,flushes⟩ := step_real (by omega) tidy real taken
    have first := step_later (by omega) tidy real taken
    obtain ⟨later,reals,second⟩ := ih (by omega) kept flushes path
    rw [split,← Nat.add_assoc]
    exact ⟨later,reals,UInt32.le_trans first second⟩

theorem new_later (created : SendingWorker.new config = .ok worker) (few : pushes events < 2^31)
    (path : run advance ⟨worker,[]⟩ events = some last) : Tidy (pushes events) last.worker ∧ ∀ f ∈ last.flushes, Real f := by
  have none : ∀ f ∈ ([] : List Flush), Real f := fun _ found => absurd found not_mem_nil
  obtain ⟨tidy,real,-⟩ := run_later (by omega) (new_tidy created) none path
  rw [Nat.zero_add] at tidy
  exact ⟨tidy,real⟩

theorem run_real (r : Run) : ∀ f ∈ r.last.flushes, Real f := (new_later r.created r.few r.path).2

theorem flow_control_iff (r : Run) : (∀ f ∈ r.last.flushes, Controlled f) ↔ ∀ f ∈ r.last.flushes, Clear f :=
  forall_congr' fun f => forall_congr' fun found => controlled_iff (run_real r f found)

-- One segment more than the window that every worker starts with. The first flush sends the window, and the second at the
-- same time goes past what is not due again to the segment behind it.
def defaultWorker : SendingWorker := ⟨.new,0,0,32,194,1553,false,false⟩
def windowful : List Event := List.replicate 33 (.push []) ++ [.flush 0 .default 100,.flush 0 .default 100]

theorem sent_behind_window : ∃ r : Run, r.events = windowful ∧ ∃ f ∈ r.last.flushes,
    f.before.remoteNextNumber = 32 ∧ f.sent.map DataSegment.number = [32] ∧ ¬ Controlled f := by
  have created : SendingWorker.new .default = .ok defaultWorker := by decide
  have sent : (run advance ⟨defaultWorker,[]⟩ windowful).map (fun s => s.flushes.map fun f => (f.before.remoteNextNumber,f.sent.map DataSegment.number)) =
      some [(32,(List.range 32).map UInt32.ofNat),(32,[32])] := by decide +kernel
  obtain ⟨last,path,flushes⟩ := Option.map_eq_some_iff.mp sent
  have found : ((32 : UInt32),[(32 : UInt32)]) ∈ last.flushes.map fun f => (f.before.remoteNextNumber,f.sent.map DataSegment.number) := by
    rw [flushes]
    exact List.mem_cons_of_mem _ (List.mem_singleton_self _)
  obtain ⟨f,member,same⟩ := mem_map.mp found
  obtain ⟨remote,numbers⟩ := Prod.mk.inj same
  refine ⟨⟨.default,defaultWorker,created,windowful,by decide,last,path⟩,rfl,f,member,remote,numbers,?_⟩
  intro controlled
  have carried : (32 : UInt32) ∈ f.sent.map DataSegment.number := by
    rw [numbers]
    exact List.mem_singleton_self _
  obtain ⟨seg,sent,number⟩ := mem_map.mp carried
  have inside := (controlled.inWindow seg sent).2
  rw [remote,number] at inside
  exact absurd inside (by decide)

theorem sender_window (r : Run) : Ordered r.last.worker ∧
    ∀ front back middle, r.events = front ++ back → run advance ⟨r.worker,[]⟩ front = some middle →
      middle.worker.firstUnacknowledged ≤ r.last.worker.firstUnacknowledged := by
  refine ⟨tidy_ordered (new_later r.created r.few r.path).1,?_⟩
  intro front back middle split early
  have few := r.few
  have path := r.path
  rw [split,pushes,List.countP_append] at few
  change pushes front + pushes back < 2^31 at few
  rw [split] at path
  obtain ⟨between,first,late⟩ := run_split path
  cases Option.some.inj (early.symm.trans first)
  obtain ⟨tidy,real⟩ := new_later r.created (by omega) early
  exact (run_later few tidy real late).2.2

def halfAcknowledged : List Event := [.push [1],.push [2],.processReceivingNext 1]

theorem sender_window_half : ∃ r : Run, r.events = halfAcknowledged ∧ Ordered r.last.worker ∧
    r.last.worker.firstUnacknowledged = 1 ∧ ∃ middle, run advance ⟨r.worker,[]⟩ [.push [1]] = some middle ∧
      middle.worker.firstUnacknowledged ≤ r.last.worker.firstUnacknowledged := by
  have created : SendingWorker.new .default = .ok defaultWorker := by decide
  have evaluated : (run advance ⟨defaultWorker,[]⟩ halfAcknowledged).map (fun s => s.worker.firstUnacknowledged) = some 1 := by decide +kernel
  obtain ⟨last,path,first⟩ := Option.map_eq_some_iff.mp evaluated
  obtain ⟨ordered,later⟩ := sender_window ⟨.default,defaultWorker,created,halfAcknowledged,by decide,last,path⟩
  exact ⟨⟨.default,defaultWorker,created,halfAcknowledged,by decide,last,path⟩,rfl,ordered,first,_,rfl,later [.push [1]] _ _ rfl rfl⟩

end AstraCore.KcpFlowControl
