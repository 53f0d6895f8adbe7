import AstraCore.NetAddress
import Mathlib.Algebra.Order.BigOperators.Group.List
import Mathlib.Algebra.Order.Group.Nat

namespace AstraCore.Salamander
open CheckedBytes NetAddress List

def masked (key : Octets 64) (data : Bytes) : Bytes := data.mapIdx fun i b => b ^^^ key.val.getD (i % 64) 0

@[simp] theorem masked_length : (masked key data).length = data.length := length_mapIdx

theorem masked_masked : masked key (masked key data) = data := by
  apply ext_getElem
  · simp
  · intro i _ _
    simp only [masked,getElem_mapIdx,UInt8.xor_assoc,UInt8.xor_self,UInt8.xor_zero]

section
-- Blake2b with 64 bytes of output, as any function, and the password of both ends.
variable (blake : Bytes → Octets 64) (psk : Bytes)

-- The random salt is an argument.
def obfuscate (salt : Octets 16) (data : Bytes) : Bytes := salt.val ++ masked (blake (psk ++ salt.val)) data

def deobfuscate (data : Bytes) : Except String Bytes :=
  if data.length < 16 then .error "salamander: data too short"
  else .ok (masked (blake (psk ++ data.take 16)) (data.drop 16))

@[simp] theorem obfuscate_length : (obfuscate blake psk salt data).length = 16 + data.length := by
  rw [obfuscate,length_append,masked_length,salt.property]

theorem deobfuscate_obfuscate : deobfuscate blake psk (obfuscate blake psk salt data) = .ok data := by
  have whole : ¬ (obfuscate blake psk salt data).length < 16 := by
    rw [obfuscate_length]
    omega
  rw [deobfuscate,if_neg whole,obfuscate,take_left' salt.property,drop_left' salt.property,masked_masked]

theorem deobfuscate_length (done : deobfuscate blake psk data = .ok bytes) : bytes.length + 16 = data.length := by
  rw [deobfuscate] at done
  split at done
  · cases done
  · cases done
    rw [masked_length,length_drop]
    omega

-- One direction of the connection below: what is under way, and whether the writer has shut it down.
structure Pipe where
  flight : Bytes
  closed : Bool

def Pipe.ended (pipe : Pipe) : Prop := pipe.flight = [] ∧ pipe.closed = true

instance (pipe : Pipe) : Decidable pipe.ended := inferInstanceAs (Decidable (_ ∧ _))

def Pipe.pollWrite (pipe : Pipe) (accepts : Option Nat) (bytes : Bytes) : Option Nat × Pipe :=
  match accepts with
  | none => (none,pipe)
  | some n => (some (bytes.take n).length,{pipe with flight := pipe.flight ++ bytes.take n})

-- It hands over as much as it likes. Without a byte it is not ready, but for the end of the stream and a read without room.
def Pipe.pollRead (pipe : Pipe) (room arrives : Nat) : Option Bytes × Pipe :=
  if pipe.ended ∨ room = 0 then (some [],pipe)
  else if pipe.flight.take (min room arrives) = [] then (none,pipe)
  else (some (pipe.flight.take (min room arrives)),{pipe with flight := pipe.flight.drop (min room arrives)})

-- `SalamanderConn` over the pipe. What the pipe took of the salted block is what is reported.
def pollWrite (pipe : Pipe) (salt : Octets 16) (buf : Bytes) (accepts : Option Nat) : Option Nat × Pipe :=
  pipe.pollWrite accepts (obfuscate blake psk salt buf)

-- Whatever one read of the pipe brings is taken for a block of its own, and too little of one for nothing.
def unmasked (room : Nat) (data : Bytes) : Bytes :=
  if data.length = 0 then []
  else
    match deobfuscate blake psk data with
    | .ok deobf => deobf.take room
    | .error _ => []

def pollRead (pipe : Pipe) (room arrives : Nat) : Option Bytes × Pipe :=
  ((pipe.pollRead room arrives).1.map (unmasked blake psk room),(pipe.pollRead room arrives).2)

structure Written where
  buf : Bytes
  reported : Nat

structure Got where
  room : Nat
  bytes : Bytes
  atEnd : Bool

structure Session where
  pipe : Pipe
  writes : List Written
  reads : List Got

def Session.new : Session := ⟨⟨[],false⟩,[],[]⟩

-- What both ends do, with what the pipe does about it. Behind a shutdown nothing is taken any more.
inductive Action where
  | write (buf : Bytes) (salt : Octets 16) (accepts : Option Nat)
  | shutdown
  | read (room arrives : Nat)

section
variable (s : Session)

def step : Action → Session
  | .write buf salt accepts =>
    if s.pipe.closed then s
    else
      match pollWrite blake psk s.pipe salt buf accepts with
      | (none,pipe) => {s with pipe}
      | (some n,pipe) => {s with pipe,writes := s.writes ++ [⟨buf,n⟩]}
  | .shutdown => {s with pipe := {s.pipe with closed := true}}
  | .read room arrives =>
    match pollRead blake psk s.pipe room arrives with
    | (none,pipe) => {s with pipe}
    | (some bytes,pipe) => {s with pipe,reads := s.reads ++ [⟨room,bytes,decide s.pipe.ended⟩]}

def run (actions : List Action) : Session := actions.foldl (step blake psk) s

def Session.claimed : Bytes := s.writes.flatMap fun w => w.buf.take w.reported
def Session.arrived : Bytes := s.reads.flatMap Got.bytes

structure Transparent : Prop where
  within : ∀ w ∈ s.writes, w.reported ≤ w.buf.length
  exactly : s.arrived = s.claimed
  silent : ∀ r ∈ s.reads, 0 < r.room → r.bytes = [] → r.atEnd = true

end

def ReadsBack (actions : List Action) : Prop :=
  ∀ reads : List (Nat × Nat), (run blake psk .new (actions ++ .shutdown :: reads.map fun r => .read r.1 r.2)).pipe.ended →
    Transparent (run blake psk .new (actions ++ .shutdown :: reads.map fun r => .read r.1 r.2))

end

def Session.reported (s : Session) : Nat := (s.writes.map Written.reported).sum

-- `taken` counts the bytes that left the pipe. A salt is lost with every read that took one.
structure Accounted (s : Session) (taken : Nat) : Prop where
  balance : s.reported = taken + s.pipe.flight.length
  short : s.arrived.length ≤ taken
  shorter : 0 < taken → s.arrived.length < taken
  silent : taken = 0 → ∀ r ∈ s.reads, 0 < r.room → r.bytes = [] → r.atEnd = true

section
variable {blake : Bytes → Octets 64} {psk : Bytes}

theorem new_accounted : Accounted .new 0 := ⟨rfl,Nat.le_refl 0,fun some => absurd some (Nat.lt_irrefl 0),fun _ _ found => absurd found not_mem_nil⟩

inductive ReadCases (blake : Bytes → Octets 64) (psk : Bytes) (pipe : Pipe) (room arrives : Nat) : Prop where
  | waits (poll : pollRead blake psk pipe room arrives = (none,pipe))
  | nothing (poll : pollRead blake psk pipe room arrives = (some [],pipe)) (expected : pipe.ended ∨ room = 0)
  | took (poll : pollRead blake psk pipe room arrives = (some bytes,{pipe with flight := rest})) (data : pipe.flight = front ++ rest)
      (fewer : bytes.length < front.length)

theorem unmasked_shorter (some : data ≠ []) : (unmasked blake psk room data).length < data.length := by
  have positive := length_pos_iff.mpr some
  rw [unmasked,if_neg (by omega)]
  cases opened : deobfuscate blake psk data with
  | error e => exact positive
  | ok deobf =>
    have width := deobfuscate_length blake psk opened
    rw [length_take]
    omega

theorem pollRead_cases (pipe room arrives) : ReadCases blake psk pipe room arrives := by
  by_cases expected : pipe.ended ∨ room = 0
  · exact .nothing (by rw [pollRead,Pipe.pollRead,if_pos expected]; rfl) expected
  by_cases none : pipe.flight.take (min room arrives) = []
  · exact .waits (by rw [pollRead,Pipe.pollRead,if_neg expected,if_pos none]; rfl)
  · refine .took ?_ (take_append_drop (min room arrives) pipe.flight).symm (@unmasked_shorter blake psk _ room none)
    rw [pollRead,Pipe.pollRead,if_neg expected,if_neg none]
    rfl

theorem silent_accounted (accounted : Accounted s taken) (nothing : got.bytes = []) (fine : 0 < got.room → got.atEnd = true) :
    Accounted {s with reads := s.reads ++ [got]} taken := by
  have same : (s.reads ++ [got]).flatMap Got.bytes = s.arrived := by simp [Session.arrived,nothing]
  refine ⟨accounted.balance,?_,?_,?_⟩
  · exact (congrArg List.length same).trans_le accounted.short
  · exact fun some => (congrArg List.length same).trans_lt (accounted.shorter some)
  · intro none r found room empty
    rcases mem_append.mp found with before | last
    · exact accounted.silent none r before room empty
    · cases mem_singleton.mp last
      exact fine room

theorem took_accounted (accounted : Accounted s taken) (data : s.pipe.flight = front ++ rest) (fewer : got.bytes.length < front.length) :
    Accounted {s with pipe := {s.pipe with flight := rest},reads := s.reads ++ [got]} (taken + front.length) := by
  have width : ((s.reads ++ [got]).flatMap Got.bytes).length = s.arrived.length + got.bytes.length := by simp [Session.arrived]
  have balance := accounted.balance
  have short := accounted.short
  rw [data,length_append] at balance
  refine ⟨?_,?_,?_,?_⟩
  · change s.reported = taken + front.length + rest.length
    omega
  · rw [Session.arrived,width]
    omega
  · rw [Session.arrived,width]
    omega
  · omega

theorem read_accounted (accounted : Accounted s taken) : ∃ taken, Accounted (step blake psk s (.read room arrives)) taken := by
  rw [step]
  rcases @pollRead_cases blake psk s.pipe room arrives with poll | ⟨poll,expected⟩ | ⟨poll,data,fewer⟩
  · rw [poll]
    exact ⟨taken,accounted⟩
  · rw [poll]
    refine ⟨taken,@silent_accounted s taken ⟨room,[],_⟩ accounted rfl ?_⟩
    intro positive
    have ended := expected.resolve_right (by change 0 < room at positive; omega)
    exact decide_eq_true ended
  · rw [poll]
    exact ⟨_,@took_accounted s taken _ _ ⟨room,_,_⟩ accounted data fewer⟩

theorem write_accounted (accounted : Accounted s taken) : Accounted (step blake psk s (.write buf salt accepts)) taken := by
  rw [step]
  split
  · exact accounted
  cases accepts with
  | none => exact accounted
  | some n =>
    refine ⟨?_,accounted.short,accounted.shorter,accounted.silent⟩
    have balance := accounted.balance
    simp only [Session.reported,pollWrite,Pipe.pollWrite,map_append,sum_append,map_singleton,sum_singleton,length_append] at balance ⊢
    omega

theorem run_accounted : ∃ taken, Accounted (run blake psk .new actions) taken := by
  have longer : ∀ s taken, Accounted s taken → ∃ taken, Accounted (run blake psk s actions) taken := by
    induction actions with
    | nil => exact fun s taken accounted => ⟨taken,accounted⟩
    | cons action rest ih =>
      intro s taken accounted
      have next : ∃ taken, Accounted (step blake psk s action) taken := by
        cases action with
        | write buf salt accepts => exact ⟨taken,write_accounted accounted⟩
        | shutdown => exact ⟨taken,accounted.balance,accounted.short,accounted.shorter,accounted.silent⟩
        | read room arrives => exact read_accounted accounted
      obtain ⟨taken,accounted⟩ := next
      exact ih _ taken accounted
  exact longer .new 0 new_accounted

theorem claimed_length {writes : List Written} (within : ∀ w ∈ writes, w.reported ≤ w.buf.length) :
    (writes.flatMap fun w => w.buf.take w.reported).length = (writes.map Written.reported).sum := by
  induction writes with
  | nil => rfl
  | cons w rest ih =>
    rw [flatMap_cons,length_append,ih fun w found => within w (mem_cons_of_mem _ found),length_take,
      Nat.min_eq_left (within w (mem_cons_self ..)),map_cons,sum_cons]

theorem transparent_ended (accounted : Accounted s taken) (ended : s.pipe.ended) : Transparent s ↔ s.reported = 0 := by
  have balance := accounted.balance
  rw [ended.1,length_nil] at balance
  constructor
  · intro transparent
    have claimed := claimed_length transparent.within
    have width := congrArg List.length transparent.exactly
    rw [Session.claimed,claimed] at width
    change _ = s.reported at width
    have shorter := accounted.shorter
    omega
  · intro nothing
    have none : taken = 0 := by omega
    have zero : ∀ w ∈ s.writes, w.reported = 0 := fun w found => sum_eq_zero_iff.mp nothing _ (mem_map_of_mem found)
    have short := accounted.short
    refine ⟨fun w found => by rw [zero w found]; exact Nat.zero_le _,?_,accounted.silent none⟩
    have claimed : s.claimed = [] := flatMap_eq_nil_iff.mpr fun w found => by rw [zero w found,take_zero]
    rw [claimed]
    exact eq_nil_of_length_eq_zero (by omega)

theorem run_append (blake psk s first second) : run blake psk s (first ++ second) = run blake psk (run blake psk s first) second := foldl_append

theorem finish_writes (reads : List (Nat × Nat)) : (run blake psk s (.shutdown :: reads.map fun r => .read r.1 r.2)).writes = s.writes := by
  have later : ∀ s, (run blake psk s (reads.map fun r => .read r.1 r.2)).writes = s.writes := by
    induction reads with
    | nil => exact fun s => rfl
    | cons r rest ih =>
      intro s
      have read : (step blake psk s (.read r.1 r.2)).writes = s.writes := by
        rw [step]
        split <;> rfl
      exact (ih _).trans read
  exact later _

theorem finish_ended : ∃ reads : List (Nat × Nat), (run blake psk s (.shutdown :: reads.map fun r => .read r.1 r.2)).pipe.ended := by
  by_cases empty : s.pipe.flight = []
  · exact ⟨[],empty,rfl⟩
  refine ⟨[(s.pipe.flight.length,s.pipe.flight.length)],?_⟩
  have positive := length_pos_iff.mpr empty
  change (step blake psk ⟨⟨s.pipe.flight,true⟩,s.writes,s.reads⟩ (.read s.pipe.flight.length s.pipe.flight.length)).pipe.ended
  rw [step,pollRead,Pipe.pollRead]
  simp [empty,Pipe.ended]

end

-- The pipe takes no byte of any block that is written before the first shutdown.
def TakesNothing : List Action → Prop
  | [] | .shutdown :: _ => True
  | .write _ _ accepts :: rest => (accepts = none ∨ accepts = some 0) ∧ TakesNothing rest
  | .read .. :: rest => TakesNothing rest

section
variable {blake : Bytes → Octets 64} {psk : Bytes}

theorem write_reported (opened : s.pipe.closed = false) : (step blake psk s (.write buf salt accepts)).reported = 0 ↔
    s.reported = 0 ∧ (accepts = none ∨ accepts = some 0) := by
  rw [step,opened]
  cases accepts with
  | none => simp [pollWrite,Pipe.pollWrite,Session.reported]
  | some n =>
    simp only [pollWrite,Pipe.pollWrite,Session.reported,length_take,obfuscate_length,map_append,sum_append,map_singleton,
      sum_singleton,Bool.false_eq_true,if_false,reduceCtorEq,Option.some.injEq,false_or]
    omega

theorem write_closed (opened : s.pipe.closed = false) : (step blake psk s (.write buf salt accepts)).pipe.closed = false := by
  rw [step,opened]
  cases accepts <;> exact opened

theorem read_kept : (step blake psk s (.read room arrives)).reported = s.reported ∧
    (step blake psk s (.read room arrives)).pipe.closed = s.pipe.closed := by
  rw [step]
  rcases @pollRead_cases blake psk s.pipe room arrives with poll | ⟨poll,-⟩ | ⟨poll,-,-⟩ <;> rw [poll] <;> exact ⟨rfl,rfl⟩

theorem run_closed (closed : s.pipe.closed = true) : (run blake psk s actions).reported = s.reported := by
  induction actions generalizing s with
  | nil => rfl
  | cons action rest ih =>
    cases action with
    | write buf salt accepts =>
      have same : step blake psk s (.write buf salt accepts) = s := if_pos closed
      rw [run,foldl_cons,same]
      exact ih closed
    | shutdown => exact @ih ⟨⟨_,true⟩,_,_⟩ rfl
    | read room arrives => exact (ih (read_kept.2.trans closed)).trans read_kept.1

theorem run_reported (opened : s.pipe.closed = false) :
    (run blake psk s actions).reported = 0 ↔ s.reported = 0 ∧ TakesNothing actions := by
  induction actions generalizing s with
  | nil => exact (and_iff_left trivial).symm
  | cons action rest ih =>
    cases action with
    | write buf salt accepts =>
      have next := ih (@write_closed blake psk s buf salt accepts opened)
      rwa [write_reported opened,and_assoc] at next
    | shutdown =>
      have kept : (run blake psk s (.shutdown :: rest)).reported = s.reported := @run_closed blake psk ⟨⟨_,true⟩,_,_⟩ rest rfl
      rw [kept]
      exact (and_iff_left trivial).symm
    | read room arrives =>
      have next := ih ((@read_kept blake psk s room arrives).2.trans opened)
      rwa [read_kept.1] at next

end

-- One block that is read whole comes back. A stream of them does only where nothing of it is taken at all.
theorem salamander_transparent_iff (blake : Bytes → Octets 64) (psk : Bytes) (actions : List Action) :
    (ReadsBack blake psk actions ↔ TakesNothing actions) ∧
    ∀ salt buf, unmasked blake psk buf.length (obfuscate blake psk salt buf) = buf := by
  have same : ∀ reads : List (Nat × Nat),
      (run blake psk .new (actions ++ .shutdown :: reads.map fun r => .read r.1 r.2)).reported =
        (run blake psk .new actions).reported := by
    intro reads
    rw [run_append,Session.reported,finish_writes]
    rfl
  have none : TakesNothing actions ↔ (run blake psk .new actions).reported = 0 := by
    rw [@run_reported blake psk .new actions rfl]
    exact (and_iff_right rfl).symm
  refine ⟨?_,fun salt buf => ?_⟩
  · rw [none]
    constructor
    · intro back
      obtain ⟨reads,ended⟩ := @finish_ended blake psk _
      rw [← run_append] at ended
      obtain ⟨taken,accounted⟩ := run_accounted
      rw [← same reads]
      exact (transparent_ended accounted ended).mp (back reads ended)
    · intro nothing reads ended
      obtain ⟨taken,accounted⟩ := run_accounted
      exact (transparent_ended accounted ended).mpr ((same reads).trans nothing)
  · rw [unmasked,if_neg (by rw [obfuscate_length]; omega),deobfuscate_obfuscate]
    exact take_length

theorem three_reported_as_nineteen : ¬ ReadsBack (fun _ => .zero 64) [] [.write [1,2,3] (.zero 16) (some 19)] ∧
    (run (fun _ => .zero 64) [] .new [.write [1,2,3] (.zero 16) (some 19)]).writes = [⟨[1,2,3],19⟩] := by
  have written : (run (fun _ => .zero 64) [] .new [.write [1,2,3] (.zero 16) (some 19)]).writes = [⟨[1,2,3],19⟩] := rfl
  refine ⟨?_,written⟩
  intro back
  have transparent := back [(100,100)] (by decide)
  have within := transparent.within
  exact absurd (within _ (mem_singleton_self _)) (by decide)

end AstraCore.Salamander
