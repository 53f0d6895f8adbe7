import Mathlib.Data.List.Induction
import AstraCore.Buffers
import AstraCore.Machine

namespace AstraCore.MultiBuffers
open CheckedBytes Buffers Machine
open List (append_assoc append_nil forall_mem_append length_append length_take mem_of_getElem? not_mem_nil)

-- The two fields of the source. Nothing but the operations keeps `total_len` in step with the buffers.
structure MultiBuffer where
  bufs : List Buffer
  totalLen : Nat

-- `none` is a panic of a build with overflow checks: a subtraction, a slice or an assertion that fails.
def sub (a b : Nat) : Option Nat := if b ≤ a then some (a - b) else none

def blit (data : Bytes) (place : Nat) (bytes : Bytes) : Option Bytes :=
  if place + bytes.length ≤ data.length then some (data.take place ++ bytes ++ data.drop (place + bytes.length)) else none

def extended (fresh : Block) (bytes : Bytes) : Option Buffer :=
  if 0 + bytes.length ≤ SIZE then some (.fromSlice fresh bytes) else none

namespace MultiBuffer

def new : MultiBuffer := ⟨[],0⟩
def withBuffer (b : Buffer) : MultiBuffer := ⟨[b],b.len⟩
section
variable (mb : MultiBuffer)

def len : Nat := mb.totalLen
def isEmpty : Bool := mb.totalLen == 0
def bytes : Bytes := bytesOf mb.bufs

def pushBack (b : Buffer) : MultiBuffer := ⟨mb.bufs ++ [b],mb.totalLen + b.len⟩
def pushFront (b : Buffer) : MultiBuffer := ⟨b :: mb.bufs,mb.totalLen + b.len⟩

def popFront : Option (MultiBuffer × Option Buffer) :=
  match mb.bufs with
  | [] => some (mb,none)
  | b :: rest => (sub mb.totalLen b.len).map fun left => (⟨rest,left⟩,some b)

end

-- `drain` takes the buffers of the other one. Its length stays.
def append (mb other : MultiBuffer) : MultiBuffer × MultiBuffer := (other.bufs.foldl pushBack mb,{other with bufs := []})

def releaseAll (_ : MultiBuffer) : MultiBuffer := ⟨[],0⟩

end MultiBuffer

def cutLoop (fresh : Block) : List Buffer → Nat → MultiBuffer → Nat → Option (MultiBuffer × MultiBuffer)
  | [],totalLen,result,_ => some (result,⟨[],totalLen⟩)
  | b :: rest,totalLen,result,remaining =>
    if remaining = 0 then some (result,⟨b :: rest,totalLen⟩)
    else if b.len ≤ remaining then do
      let left ← sub totalLen b.len
      cutLoop fresh rest left (result.pushBack b) (remaining - b.len)
    else do
      let newBuf ← extended fresh (b.bytes.take remaining)
      let left ← sub totalLen remaining
      some (result.pushBack newBuf,⟨b.advance remaining :: rest,left⟩)

def MultiBuffer.cutFront (fresh : Block) (mb : MultiBuffer) (n : Nat) : Option (MultiBuffer × MultiBuffer) :=
  cutLoop fresh mb.bufs mb.totalLen .new n

def splitIdx (place : Nat) : List Buffer → Nat → Nat
  | [],_ => 0
  | b :: rest,count => if count + b.len > place then 0 else splitIdx place rest (count + b.len) + 1

def moveBack : Nat → MultiBuffer → MultiBuffer → Option (MultiBuffer × MultiBuffer)
  | 0,mb,result => some (mb,result)
  | more+1,mb,result => do
    let b ← mb.bufs.getLast?
    let left ← sub mb.totalLen b.len
    moveBack more ⟨mb.bufs.dropLast,left⟩ (result.pushFront b)

section
variable (mb : MultiBuffer)

def MultiBuffer.splitOff (place : Nat) : Option (MultiBuffer × MultiBuffer) :=
  moveBack (mb.bufs.length - splitIdx place mb.bufs 0) mb .new

def copyLoop : List Buffer → Bytes → Nat → Option (Bytes × Nat)
  | [],data,copied => some (data,copied)
  | b :: rest,data,copied =>
    if copied ≥ data.length then some (data,copied)
    else do
      let n := min (data.length - copied) b.len
      let data ← blit data copied (b.bytes.take n)
      copyLoop rest data (copied + n)

def MultiBuffer.copyBytes (data : Bytes) : Option (Bytes × Nat) := copyLoop mb.bufs data 0

-- The loop of `read_into`. A buffer that is not empty afterwards gave as much as the slice is long, which then is full.
def readLoop : List Buffer → Nat → Bytes → Nat → Option (MultiBuffer × Bytes × Nat)
  | [],totalLen,data,copied => some (⟨[],totalLen⟩,data,copied)
  | b :: rest,totalLen,data,copied =>
    if copied < data.length then do
      let n := min data.length b.len
      let data ← blit data copied (b.bytes.take n)
      let left ← sub totalLen n
      if (b.advance n).len = 0 then readLoop rest left data (copied + n)
      else some (⟨b.advance n :: rest,left⟩,data,copied + n)
    else some (⟨b :: rest,totalLen⟩,data,copied)

def MultiBuffer.readInto (data : Bytes) : Option (MultiBuffer × Bytes × Nat) :=
  readLoop mb.bufs mb.totalLen data 0

def overwrite (data front : Bytes) : Bytes := front ++ data.drop front.length

theorem overwrite_length (inside : front.length ≤ data.length) : (overwrite data front).length = data.length := by
  simp only [overwrite,length_append,List.length_drop]
  omega

theorem blit_overwrite (bytes) (inside : front.length + bytes.length ≤ data.length) :
    blit (overwrite data front) front.length bytes = some (overwrite data (front ++ bytes)) := by
  have width : (overwrite data front).length = data.length := overwrite_length (by omega)
  have before : (overwrite data front).take front.length = front := List.take_left
  have behind : (overwrite data front).drop (front.length + bytes.length) = data.drop (front.length + bytes.length) := by
    rw [overwrite,List.drop_append,List.drop_of_length_le (by omega),List.nil_append,List.drop_drop]
    congr 1
    omega
  rw [blit,if_pos (by omega),before,behind,overwrite,length_append]

theorem blit_overruns (before : front.length ≤ data.length)
    (outside : ¬ front.length + bytes.length ≤ data.length) : blit (overwrite data front) front.length bytes = none := by
  rw [blit,if_neg (by rwa [overwrite_length before])]

theorem sub_fits (fits : b ≤ a) : sub a b = some (a - b) := if_pos fits

-- A counter that is so many bytes ahead of its buffers. Every operation can be told by what it does to such a one.
def ahead (k : Nat) (bufs : List Buffer) : MultiBuffer := ⟨bufs,k + total bufs⟩

@[simp] theorem ahead_bufs : (ahead k bufs).bufs = bufs := rfl
@[simp] theorem ahead_totalLen : (ahead k bufs).totalLen = k + total bufs := rfl
@[simp] theorem ahead_bytes (k) : (ahead k bufs).bytes = bytesOf bufs := rfl

@[simp] theorem total_append : total (front ++ back) = total front + total back := by
  simp [total]

theorem sub_ahead : sub (k + total (b :: rest)) b.len = some (k + total rest) := by
  rw [total_cons,sub_fits (by omega)]
  congr 1
  omega

theorem pushBack_ahead (k) : (ahead k bufs).pushBack b = ahead k (bufs ++ [b]) := by
  simp [ahead,MultiBuffer.pushBack,Nat.add_assoc]

theorem pushFront_ahead (k) : (ahead k bufs).pushFront b = ahead k (b :: bufs) := by
  simp [ahead,MultiBuffer.pushFront]
  omega

theorem popFront_ahead : (ahead k (b :: rest)).popFront = some (ahead k rest,some b) := by
  change (sub (k + total (b :: rest)) b.len).map _ = _
  rw [sub_ahead]
  rfl

theorem append_ahead (k j) : (ahead k bufs).append (ahead j others) = (ahead k (bufs ++ others),ahead (j + total others) []) := by
  have taken : ∀ front, others.foldl MultiBuffer.pushBack (ahead k front) = ahead k (front ++ others) := by
    induction others with
    | nil => simp
    | cons b rest ih =>
      intro front
      rw [List.foldl_cons,pushBack_ahead,ih,append_assoc,List.singleton_append]
  exact Prod.ext (taken bufs) rfl

theorem extended_part (b : Buffer) : extended fresh (b.bytes.take n) = some (.fromSlice fresh (b.bytes.take n)) := by
  have bounded := b.len_bounded
  apply if_pos
  rw [length_take,b.bytes_length]
  omega

theorem cutLoop_ahead : cutLoop fresh bufs (k + total bufs) (ahead j front) n =
      some (ahead j (front ++ (Buffers.cutLoop fresh bufs n).1),ahead k (Buffers.cutLoop fresh bufs n).2) := by
  induction bufs generalizing front n with
  | nil => simp [cutLoop,Buffers.cutLoop,ahead]
  | cons b rest ih =>
    rw [cutLoop,Buffers.cutLoop]
    by_cases zero : n = 0
    · rw [if_pos zero,if_pos zero,append_nil]
      rfl
    rw [if_neg zero,if_neg zero]
    by_cases whole : b.len ≤ n
    · rw [if_pos whole,if_pos whole,sub_ahead]
      change cutLoop fresh rest _ _ (n - b.len) = _
      rw [pushBack_ahead,ih,append_assoc]
      rfl
    · have left : k + total (b :: rest) - n = k + total (b.advance n :: rest) := by
        simp only [total_cons,Buffer.advance_len]
        omega
      rw [if_neg whole,if_neg whole,extended_part,sub_fits (by rw [total_cons]; omega),left]
      change some _ = _
      rw [pushBack_ahead]
      rfl

theorem cutFront_ahead (fresh) : (ahead k bufs).cutFront fresh n = some (ahead 0 (Buffers.cutLoop fresh bufs n).1,ahead k (behind n bufs)) := by
  rw [← cutLoop_back fresh bufs n]
  exact cutLoop_ahead

theorem moveBack_ahead (k front back tail) : moveBack back.length (ahead k (front ++ back))
    (ahead 0 tail) = some (ahead k front,ahead 0 (back ++ tail)) := by
  induction back using List.reverseRecOn generalizing tail with
  | nil => simp [moveBack]
  | append_singleton back b ih =>
    have last : (front ++ (back ++ [b])).getLast? = some b := by simp
    have left : sub (k + total (front ++ (back ++ [b]))) b.len = some (k + total (front ++ back)) := by
      rw [sub_fits (by simp; omega)]
      simp
      omega
    have others : (front ++ (back ++ [b])).dropLast = front ++ back := by
      rw [← append_assoc,List.dropLast_concat]
    rw [length_append,List.length_singleton,moveBack,ahead_bufs,last,ahead_totalLen]
    change (sub _ b.len).bind _ = _
    rw [left,others]
    change moveBack back.length (ahead k (front ++ back)) ((ahead 0 tail).pushFront b) = _
    rw [pushFront_ahead,ih,append_assoc,List.singleton_append]

theorem splitOff_ahead (k bufs place) : (ahead k bufs).splitOff place =
      some (ahead k (bufs.take (splitIdx place bufs 0)),ahead 0 (bufs.drop (splitIdx place bufs 0))) := by
  have moved := moveBack_ahead k (bufs.take (splitIdx place bufs 0)) (bufs.drop (splitIdx place bufs 0)) []
  rw [List.take_append_drop,List.length_drop,append_nil] at moved
  exact moved

theorem splitIdx_fits (bufs : List Buffer) (fits : count ≤ place) : count + total (bufs.take (splitIdx place bufs count)) ≤ place := by
  induction bufs generalizing count with
  | nil => simpa using fits
  | cons b rest ih =>
    rw [splitIdx]
    split
    · simpa using fits
    · have later := ih (show count + b.len ≤ place by omega)
      rw [List.take_succ_cons,total_cons]
      omega

theorem splitIdx_longest (inside : k ≤ bufs.length) (fits : count + total (bufs.take k) ≤ place) : k ≤ splitIdx place bufs count := by
  induction bufs generalizing count k with
  | nil => exact inside
  | cons b rest ih =>
    cases k with
    | zero => exact Nat.zero_le _
    | succ k =>
      rw [List.take_succ_cons,total_cons] at fits
      rw [splitIdx,if_neg (by omega)]
      exact Nat.succ_le_succ (ih (Nat.le_of_succ_le_succ inside) (by omega))

theorem copyLoop_copies (data bufs front) (inside : front.length ≤ data.length) : copyLoop bufs (overwrite data front) front.length =
      some (overwrite data (front ++ (bytesOf bufs).take (data.length - front.length)),min data.length (front.length + total bufs)) := by
  induction bufs generalizing front with
  | nil => simp [copyLoop,inside]
  | cons b rest ih =>
    have shown := b.bytes_length
    have width := overwrite_length inside
    rw [copyLoop,width]
    by_cases full : front.length ≥ data.length
    · have none : data.length - front.length = 0 := by omega
      rw [if_pos full,none,List.take_zero,append_nil]
      congr 2
      omega
    · have taken : (b.bytes.take (min (data.length - front.length) b.len)).length = min (data.length - front.length) b.len := by
        rw [length_take]
        omega
      have longer : (front ++ b.bytes.take (min (data.length - front.length) b.len)).length = front.length + min (data.length - front.length) b.len := by
        rw [length_append,taken]
      rw [if_neg full]
      dsimp only
      rw [blit_overwrite _ (by omega)]
      change copyLoop rest _ _ = _
      rw [← longer,ih _ (by omega),longer,append_assoc,total_cons]
      have parts : b.bytes.take (min (data.length - front.length) b.len) ++
          (bytesOf rest).take (data.length - (front.length + min (data.length - front.length) b.len)) =
            (bytesOf (b :: rest)).take (data.length - front.length) := by
        rw [bytesOf_cons,List.take_append]
        congr 1
        · rw [← List.take_take,← shown,List.take_length]
        · congr 1
          omega
      rw [parts]
      congr 2
      omega

theorem copyBytes_copies (data) : mb.copyBytes data = some (overwrite data (mb.bytes.take data.length),min data.length (total mb.bufs)) := by
  have copied := copyLoop_copies data mb.bufs [] (Nat.zero_le _)
  rw [List.length_nil,Nat.zero_add] at copied
  exact copied

end

theorem readLoop_ahead (front) (inside : front.length ≤ data.length) : readLoop bufs (k + total bufs) (overwrite data front) front.length =
      (Buffers.readLoop data.length bufs front).toOption.map fun done =>
        (ahead k done.2,overwrite data done.1,done.1.length) := by
  induction bufs generalizing front with
  | nil => rfl
  | cons b rest ih =>
    have shown := b.bytes_length
    have width := overwrite_length inside
    rw [readLoop,Buffers.readLoop,width]
    by_cases below : front.length < data.length
    · rw [if_pos below,if_pos below]
      dsimp only
      have taken : (b.bytes.take (min data.length b.len)).length = min data.length b.len := by
        rw [length_take,shown]
        omega
      by_cases fits : front.length + min data.length b.len ≤ data.length
      · have longer : (front ++ b.bytes.take (min data.length b.len)).length = front.length + min data.length b.len := by
          rw [length_append,taken]
        rw [blit_overwrite _ (by omega),if_pos fits]
        change (sub _ _).bind _ = _
        rw [sub_fits (by rw [total_cons]; omega)]
        change (if (b.advance _).len = 0 then readLoop rest _ _ _ else _) = _
        by_cases used : (b.advance (min data.length b.len)).len = 0
        · have whole : min data.length b.len = b.len := by
            rw [Buffer.advance_len] at used
            omega
          have left : k + total (b :: rest) - min data.length b.len = k + total rest := by
            rw [total_cons]
            omega
          rw [if_pos used,if_pos used,left,← longer]
          exact ih _ (by omega)
        · have left : k + total (b :: rest) - min data.length b.len = k + total (b.advance (min data.length b.len) :: rest) := by
            rw [total_cons,total_cons,Buffer.advance_len]
            omega
          rw [if_neg used,if_neg used,left,← longer]
          rfl
      · rw [blit_overruns inside (by omega),if_neg fits]
        rfl
    · rw [if_neg below,if_neg below]
      rfl

theorem readInto_ahead (k) : (ahead k bufs).readInto data = (Buffers.readLoop data.length bufs []).toOption.map fun done =>
      (ahead k done.2,overwrite data done.1,done.1.length) :=
  readLoop_ahead [] (Nat.zero_le _)

namespace MultiBuffer

def Counted (mb : MultiBuffer) : Prop := mb.totalLen = total mb.bufs

end MultiBuffer

theorem counted_ahead (counted : mb.Counted) : ∃ bufs, mb = ahead 0 bufs := by
  refine ⟨mb.bufs,?_⟩
  rw [ahead,Nat.zero_add,← counted]

@[simp] theorem ahead_counted : (ahead k bufs).Counted ↔ k = 0 := by
  change k + total bufs = total bufs ↔ k = 0
  omega

structure LongestWithin (place : Nat) (bufs front : List Buffer) : Prop where
  whole : front <+: bufs
  fits : total front ≤ place
  longest : ∀ other, other <+: bufs → total other ≤ place → other <+: front

theorem splitIdx_front (place) : LongestWithin place bufs (bufs.take (splitIdx place bufs 0)) where
  whole := List.take_prefix _ _
  fits := by
    have fits := splitIdx_fits bufs (Nat.zero_le place)
    rwa [Nat.zero_add] at fits
  longest other front fits := by
    have same := List.prefix_iff_eq_take.mp front
    have short : other.length ≤ splitIdx place bufs 0 := by
      apply splitIdx_longest front.length_le
      rw [Nat.zero_add,← same]
      exact fits
    rw [same]
    exact List.take_prefix_take_left short

structure CutExact (mb : MultiBuffer) (n : Nat) (front back : MultiBuffer) : Prop where
  first : front.bytes = mb.bytes.take (min n mb.len)
  others : back.bytes = mb.bytes.drop (min n mb.len)
  counted : front.Counted ∧ back.Counted

structure SplitExact (mb : MultiBuffer) (place : Nat) (front back : MultiBuffer) : Prop where
  parts : front.bufs ++ back.bufs = mb.bufs
  longest : LongestWithin place mb.bufs front.bufs
  counted : front.Counted ∧ back.Counted

variable {mb : MultiBuffer}

theorem counted_bytes (counted : mb.Counted) : mb.bytes.length = mb.len :=
  (bytesOf_length mb.bufs).trans counted.symm

theorem take_within (bytes : Bytes) : bytes.take (min n bytes.length) = bytes.take n := by
  rw [← List.take_take,List.take_length]

theorem drop_within (bytes : Bytes) : bytes.drop (min n bytes.length) = bytes.drop n := by
  rcases Nat.le_total n bytes.length with inside | beyond
  · rw [Nat.min_eq_left inside]
  · rw [Nat.min_eq_right beyond,List.drop_length,List.drop_of_length_le beyond]

theorem parts_conserved (fresh : Block) {mb : MultiBuffer} (counted : mb.Counted) (n place : Nat) (data : Bytes) :
    (∃ front back, mb.cutFront fresh n = some (front,back) ∧ CutExact mb n front back) ∧
      (∃ front back, mb.splitOff place = some (front,back) ∧ SplitExact mb place front back) ∧
      mb.copyBytes data = some (overwrite data (mb.bytes.take (min data.length mb.len)),min data.length mb.len) := by
  have width := counted_bytes counted
  obtain ⟨bufs,rfl⟩ := counted_ahead counted
  refine ⟨⟨_,_,cutFront_ahead fresh,?_,?_,ahead_counted.mpr rfl,ahead_counted.mpr rfl⟩,
    ⟨_,_,splitOff_ahead 0 bufs place,?_,splitIdx_front place,ahead_counted.mpr rfl,ahead_counted.mpr rfl⟩,?_⟩
  · rw [← width,take_within]
    exact cutLoop_front fresh bufs n
  · rw [← width,drop_within]
    exact behind_bytes n bufs
  · exact List.take_append_drop _ bufs
  · rw [copyBytes_copies,← width,take_within,ahead_bytes,bytesOf_length]
    rfl

-- Three bytes in two buffers, cut behind the second, split before the third, and copied into a slice of four.
def twoAndOne : MultiBuffer := ahead 0 [.fromSlice (.zero SIZE) [1,2],.fromSlice (.zero SIZE) [3]]

theorem parts_conserved_three : twoAndOne.Counted ∧
    (∃ front back, twoAndOne.cutFront (.zero SIZE) 1 = some (front,back) ∧ CutExact twoAndOne 1 front back) ∧
    (∃ front back, twoAndOne.splitOff 2 = some (front,back) ∧ SplitExact twoAndOne 2 front back) ∧
    twoAndOne.copyBytes [0,0,0,9] = some (overwrite [0,0,0,9] (twoAndOne.bytes.take (min 4 twoAndOne.len)),min 4 twoAndOne.len) :=
  ⟨ahead_counted.mpr rfl,parts_conserved (.zero SIZE) (ahead_counted.mpr rfl) 1 2 [0,0,0,9]⟩

def ReadExact (mb : MultiBuffer) (data : Bytes) : Prop :=
  ∃ rest, mb.readInto data = some (rest,overwrite data (mb.bytes.take (min data.length mb.len)),min data.length mb.len) ∧
    rest.bytes = mb.bytes.drop (min data.length mb.len) ∧ rest.Counted

theorem readInto_exact_iff {mb : MultiBuffer} (counted : mb.Counted) (data : Bytes) :
    ReadExact mb data ↔ Fits data.length 0 (lengths mb.bufs) := by
  have width := counted_bytes counted
  obtain ⟨bufs,rfl⟩ := counted_ahead counted
  constructor
  · rintro ⟨rest,returned,-⟩
    apply Classical.byContradiction
    intro overruns
    rw [readInto_ahead,readLoop_overruns bufs [] (Nat.zero_le _) overruns] at returned
    cases returned
  · intro fits
    refine ⟨ahead 0 (behind data.length bufs),?_,?_,ahead_counted.mpr rfl⟩
    · rw [readInto_ahead,readLoop_fits bufs [] (Nat.zero_le _) fits,← width,take_within,← length_take]
      rfl
    · rw [← width,drop_within]
      exact behind_bytes data.length bufs

theorem readInto_exact_three : ReadExact twoAndOne [0,0,0] :=
  (readInto_exact_iff (ahead_counted.mpr rfl) [0,0,0]).mpr (by decide)

-- The second buffer has two of the four bytes left when the slice has room for one.
def twoAndTwo : MultiBuffer := ahead 0 [.fromSlice (.zero SIZE) [1,2],.fromSlice (.zero SIZE) [3,4]]

theorem second_overruns : twoAndTwo.Counted ∧ twoAndTwo.readInto [0,0,0] = none ∧ ¬ ReadExact twoAndTwo [0,0,0] := by
  have read : twoAndTwo.readInto [0,0,0] = none := by
    exact (readInto_ahead 0).trans (by rw [List.length_cons]; rfl)
  refine ⟨ahead_counted.mpr rfl,read,?_⟩
  rintro ⟨rest,returned,-⟩
  cases returned

inductive Op where
  | pushBack (b : Buffer)
  | pushFront (b : Buffer)
  | popFront
  | cutFront (fresh : Block) (n : Nat)
  | splitOff (place : Nat)
  | releaseAll

def Op.act (mb : MultiBuffer) : Op → Option (MultiBuffer × List MultiBuffer)
  | .pushBack b => some (mb.pushBack b,[])
  | .pushFront b => some (mb.pushFront b,[])
  | .popFront => mb.popFront.map fun done => (done.1,[])
  | .cutFront fresh n => (mb.cutFront fresh n).map fun done => (done.2,[done.1])
  | .splitOff place => (mb.splitOff place).map fun done => (done.1,[done.2])
  | .releaseAll => some (mb.releaseAll,[])

inductive Call where
  | new
  | withBuffer (b : Buffer)
  | on (i : Nat) (op : Op)
  | append (i other : Nat)

-- Every MultiBuffer there is. A call on one that is not there, or an append of one to itself, cannot be made.
def advance (pool : List MultiBuffer) : Call → Option (List MultiBuffer)
  | .new => some (pool ++ [.new])
  | .withBuffer b => some (pool ++ [.withBuffer b])
  | .on i op =>
    match pool[i]? with
    | some mb => (op.act mb).map fun done => pool.set i done.1 ++ done.2
    | none => some pool
  | .append i j =>
    match pool[i]?,pool[j]? with
    | some mb,some other =>
      if i = j then some pool else some ((pool.set i (mb.append other).1).set j (mb.append other).2)
    | _,_ => some pool

structure Exact (mb : MultiBuffer) : Prop where
  counted : mb.Counted
  len : mb.len = mb.bytes.length
  isEmpty : mb.isEmpty = true ↔ mb.bytes = []

theorem exact_iff (mb) : Exact mb ↔ mb.Counted := by
  refine ⟨Exact.counted,fun counted => ?_⟩
  have width := counted_bytes counted
  refine ⟨counted,width.symm,?_⟩
  rw [← List.length_eq_zero_iff,width]
  exact beq_iff_eq

def Drained (pool : List MultiBuffer) : Call → Prop
  | .append i j => ∀ mb other, pool[i]? = some mb → pool[j]? = some other → i ≠ j → other.bytes = []
  | _ => True

def Covered (mb : MultiBuffer) : Prop := ∃ k, mb = ahead k mb.bufs

theorem ahead_covered (bufs) : Covered (ahead k bufs) := ⟨k,rfl⟩

theorem counted_covered (counted : mb.Counted) : Covered mb := by
  obtain ⟨bufs,rfl⟩ := counted_ahead counted
  exact ahead_covered bufs

theorem act_ahead (op : Op) (k) : ∃ j left others, op.act (ahead k bufs) = some (ahead j left,others) ∧
    (k = 0 → j = 0) ∧ ∀ other ∈ others, other.Counted := by
  have nothing : ∀ other ∈ ([] : List MultiBuffer), other.Counted := fun _ found => absurd found not_mem_nil
  have single : ∀ returned, ∀ other ∈ [ahead 0 returned], other.Counted := by
    intro returned other found
    rw [List.mem_singleton.mp found]
    exact ahead_counted.mpr rfl
  cases op with
  | pushBack b => exact ⟨k,_,[],by rw [Op.act,pushBack_ahead],fun zero => zero,nothing⟩
  | pushFront b => exact ⟨k,_,[],by rw [Op.act,pushFront_ahead],fun zero => zero,nothing⟩
  | popFront =>
    cases bufs with
    | nil => exact ⟨k,[],[],rfl,fun zero => zero,nothing⟩
    | cons b rest => exact ⟨k,rest,[],by rw [Op.act,popFront_ahead]; rfl,fun zero => zero,nothing⟩
  | cutFront fresh n => exact ⟨k,_,_,by rw [Op.act,cutFront_ahead]; rfl,fun zero => zero,single _⟩
  | splitOff place => exact ⟨k,_,_,by rw [Op.act,splitOff_ahead]; rfl,fun zero => zero,single _⟩
  | releaseAll => exact ⟨0,[],[],rfl,fun _ => rfl,nothing⟩

section
variable {property : MultiBuffer → Prop} {pool : List MultiBuffer} (held : ∀ mb ∈ pool, property mb)
include held

theorem forall_replaced (here : property left) (returned : ∀ mb ∈ others, property mb) (i) : ∀ mb ∈ pool.set i left ++ others, property mb := by
  intro mb found
  rcases List.mem_append.mp found with inside | new
  · rcases List.mem_or_eq_of_mem_set inside with old | same
    · exact held mb old
    · rw [same]
      exact here
  · exact returned mb new

theorem append_forall (first : property mb) (second : property other) (j) : ∀ each ∈ (pool.set i mb).set j other, property each := by
  have nothing : ∀ each ∈ ([] : List MultiBuffer), property each := fun _ found => absurd found not_mem_nil
  have one := forall_replaced held first nothing i
  rw [append_nil] at one
  have two := forall_replaced one second nothing j
  rwa [append_nil] at two

end

theorem advance_covered (pool call) (covered : ∀ mb ∈ pool, Covered mb) : ∃ next, advance pool call = some next ∧ ∀ mb ∈ next, Covered mb := by
  cases call with
  | new => exact ⟨_,rfl,forall_mem_append.mpr ⟨covered,List.forall_mem_singleton.mpr (ahead_covered [])⟩⟩
  | withBuffer b =>
    have made : MultiBuffer.withBuffer b = ahead 0 [b] := by simp [MultiBuffer.withBuffer,ahead]
    exact ⟨_,rfl,forall_mem_append.mpr ⟨covered,List.forall_mem_singleton.mpr (made ▸ ahead_covered [b])⟩⟩
  | on i op =>
    rw [advance]
    cases found : pool[i]? with
    | none => exact ⟨pool,rfl,covered⟩
    | some mb =>
      obtain ⟨k,same⟩ := covered mb (mem_of_getElem? found)
      obtain ⟨j,left,others,acted,-,counted⟩ := act_ahead op k
      rw [← same] at acted
      dsimp only
      rw [acted]
      refine ⟨pool.set i _ ++ others,rfl,?_⟩
      exact forall_replaced covered (ahead_covered left) (fun mb found => counted_covered (counted mb found)) i
  | append i j =>
    rw [advance]
    cases found : pool[i]? with
    | none => exact ⟨pool,rfl,covered⟩
    | some mb =>
      cases there : pool[j]? with
      | none => exact ⟨pool,rfl,covered⟩
      | some other =>
        dsimp only
        split
        · exact ⟨pool,rfl,covered⟩
        · obtain ⟨k,first⟩ := covered mb (mem_of_getElem? found)
          obtain ⟨l,second⟩ := covered other (mem_of_getElem? there)
          refine ⟨_,rfl,?_⟩
          rw [first,second,append_ahead]
          exact append_forall covered (ahead_covered ..) (ahead_covered ..) j

theorem append_counted_iff (first : mb.Counted) (second : other.Counted) : (mb.append other).1.Counted ∧
    ((mb.append other).2.Counted ↔ other.bytes = []) := by
  obtain ⟨bufs,rfl⟩ := counted_ahead first
  obtain ⟨others,rfl⟩ := counted_ahead second
  rw [append_ahead,ahead_bytes,← List.length_eq_zero_iff,bytesOf_length,Nat.zero_add]
  exact ⟨ahead_counted.mpr rfl,ahead_counted⟩

theorem advance_counted (counted : ∀ mb ∈ pool, mb.Counted) (taken : advance pool call = some next) : (∀ mb ∈ next, mb.Counted) ↔ Drained pool call := by
  cases call with
  | new =>
    cases taken
    refine iff_of_true (forall_mem_append.mpr ⟨counted,?_⟩) trivial
    exact List.forall_mem_singleton.mpr rfl
  | withBuffer b =>
    cases taken
    refine iff_of_true (forall_mem_append.mpr ⟨counted,?_⟩) trivial
    exact List.forall_mem_singleton.mpr (Nat.add_zero b.len).symm
  | on i op =>
    refine iff_of_true ?_ trivial
    rw [advance] at taken
    cases found : pool[i]? with
    | none =>
      rw [found] at taken
      cases taken
      exact counted
    | some mb =>
      obtain ⟨bufs,rfl⟩ := counted_ahead (counted mb (mem_of_getElem? found))
      obtain ⟨j,left,others,acted,zero,returned⟩ := act_ahead op 0
      rw [found] at taken
      dsimp only at taken
      rw [acted] at taken
      cases taken
      exact forall_replaced counted (ahead_counted.mpr (zero rfl)) returned i
  | append i j =>
    rw [advance] at taken
    cases found : pool[i]? with
    | none =>
      rw [found] at taken
      cases taken
      refine iff_of_true counted ?_
      intro mb other here
      rw [found] at here
      cases here
    | some mb =>
      cases there : pool[j]? with
      | none =>
        rw [found,there] at taken
        cases taken
        refine iff_of_true counted ?_
        intro mb other _ here
        rw [there] at here
        cases here
      | some other =>
        rw [found,there] at taken
        dsimp only at taken
        have drained : Drained pool (.append i j) ↔ (i ≠ j → other.bytes = []) := by
          simp [Drained,found,there]
        obtain ⟨first,second⟩ := append_counted_iff (counted mb (mem_of_getElem? found)) (counted other (mem_of_getElem? there))
        rw [drained]
        split at taken
        · rename_i same
          cases taken
          exact iff_of_true counted fun apart => absurd same apart
        · rename_i apart
          cases taken
          have inside : j < (pool.set i (mb.append other).1).length := by
            rw [List.length_set]
            exact (List.getElem?_eq_some_iff.mp there).1
          constructor
          · intro all _
            exact second.mp (all _ (List.mem_set inside _))
          · intro empty
            exact append_forall counted first (second.mpr (empty apart)) j

theorem lengths_exact_iff (calls : List Call) : (∃ last, run advance [] calls = some last) ∧
      (Always advance (fun pool => ∀ mb ∈ pool, Exact mb) [] calls ↔ Meets advance Drained [] calls) := by
  have empty : ∀ property : MultiBuffer → Prop, ∀ mb ∈ ([] : List MultiBuffer), property mb :=
    fun _ _ found => absurd found not_mem_nil
  constructor
  · obtain ⟨last,path,-⟩ := run_returns (fun pool => ∀ mb ∈ pool, Covered mb) advance_covered (empty _) calls
    exact ⟨last,path⟩
  · simp only [exact_iff]
    refine always_iff_meets ?_ (fun _ _ _ counted taken => advance_counted counted taken) (empty _)
    intro pool call counted
    obtain ⟨next,taken,-⟩ := advance_covered pool call fun mb found => counted_covered (counted mb found)
    exact ⟨next,taken⟩

theorem appended_not_empty : ∃ first second,
    run advance [] [.new,.withBuffer (.fromSlice (.zero SIZE) [7]),.append 0 1] = some [first,second] ∧
      second.bufs = [] ∧ second.len = 1 ∧ second.isEmpty = false ∧ ¬ Exact second := by
  have one : (Buffer.fromSlice (.zero SIZE) [7]).len = 1 := Buffer.fromSlice_len _ (by decide)
  refine ⟨_,_,rfl,rfl,one,?_,?_⟩
  · rfl
  · intro exactly
    have counted := exactly.counted
    cases counted

end AstraCore.MultiBuffers
