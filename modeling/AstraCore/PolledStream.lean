import AstraCore.ByteStream
import AstraCore.NetAddress
import Mathlib.Data.List.ReduceOption

namespace AstraCore.PolledStream
open CheckedBytes NetAddress ByteStream List
variable {cap : Nat}

inductive Ending where
  | stillOpen
  | closed
  | broken (e : String)
deriving DecidableEq

-- A connection as its polls see it: what each of them finds, nothing yet being one of the answers.
structure Stream (cap : Nat) where
  arrivals : List (Option (Segment UInt8 cap))
  ending : Ending

def Stream.text (stream : Stream cap) : Bytes := ByteStream.text stream.arrivals.reduceOption

def oneRead (bytes : Bytes) : Option (Segment UInt8 cap) :=
  if fits : 0 < bytes.length ∧ bytes.length ≤ cap then some ⟨bytes,fits⟩ else none

theorem stream_exists (bytes ending) : ∃ stream : Stream 1, stream.text = bytes ∧ stream.ending = ending := by
  obtain ⟨segments,rfl⟩ := text_exists Nat.one_pos bytes
  have undelayed : (segments.map some).reduceOption = segments := by
    rw [reduceOption,filterMap_map]
    exact filterMap_some
  exact ⟨⟨segments.map some,ending⟩,congrArg ByteStream.text undelayed,rfl⟩

-- The result of one poll with a buffer of `room` bytes. Success without a byte is the end of the stream.
inductive Fill (room : Nat) where
  | pending
  | failed (e : String)
  | filled (bytes : Bytes) (fits : bytes.length ≤ room)

def Stream.poll (room : Nat) (stream : Stream cap) : Fill room × Stream cap :=
  match stream.arrivals with
  | [] =>
    match stream.ending with
    | .stillOpen => (.pending,stream)
    | .closed => (.filled [] (Nat.zero_le room),stream)
    | .broken e => (.failed e,stream)
  | none :: rest => (.pending,⟨rest,stream.ending⟩)
  | some segment :: rest =>
    if longer : room < segment.val.length then
      (.filled (segment.val.take room) (List.length_take_le ..),⟨some (behind segment room longer) :: rest,stream.ending⟩)
    else (.filled segment.val (by omega),⟨rest,stream.ending⟩)

inductive Stream.PollCases (stream : Stream cap) (room : Nat) : Prop where
  | waits (poll : stream.poll room = (.pending,stream)) (empty : stream.arrivals = []) (ending : stream.ending = .stillOpen)
  | delayed (later : Stream cap) (poll : stream.poll room = (.pending,later)) (text : later.text = stream.text)
      (ending : later.ending = stream.ending) (fewer : later.arrivals.length < stream.arrivals.length)
  | closed (poll : stream.poll room = (.filled [] (Nat.zero_le room),stream)) (empty : stream.arrivals = [])
      (ending : stream.ending = .closed)
  | broken (e : String) (poll : stream.poll room = (.failed e,stream)) (empty : stream.arrivals = [])
      (ending : stream.ending = .broken e)
  | arrived (later : Stream cap) (bytes : Bytes) (fits : bytes.length ≤ room)
      (poll : stream.poll room = (.filled bytes fits,later)) (present : 0 < bytes.length)
      (text : stream.text = bytes ++ later.text) (ending : later.ending = stream.ending)
      (fewer : later.arrivals.length ≤ stream.arrivals.length)

theorem Stream.poll_cases (stream : Stream cap) (positive : 0 < room) : stream.PollCases room := by
  obtain ⟨arrivals,ending⟩ := stream
  cases arrivals with
  | nil =>
    cases ending with
    | stillOpen => exact .waits rfl rfl rfl
    | closed => exact .closed rfl rfl rfl
    | broken e => exact .broken e rfl rfl rfl
  | cons arrival rest =>
    cases arrival with
    | none => exact .delayed ⟨rest,ending⟩ rfl rfl rfl (Nat.lt_succ_self _)
    | some segment =>
      have size := segment.property
      by_cases longer : room < segment.val.length
      · refine .arrived ⟨some (behind segment room longer) :: rest,ending⟩ (segment.val.take room) (length_take_le ..) ?_ ?_ ?_
          rfl (Nat.le_refl _)
        · exact dif_pos longer
        · rw [length_take]
          omega
        · change segment.val ++ _ = _ ++ (segment.val.drop room ++ _)
          rw [← append_assoc,take_append_drop]
      · exact .arrived ⟨rest,ending⟩ segment.val (by omega) (dif_neg longer) size.1 rfl rfl (Nat.le_succ _)

-- What ends a computation on a stream before its result: it waits for bytes that do not come, it returns an error, or
-- it panics.
inductive Stop where
  | waits
  | error (text : String)
  | panic (fault : Panic)
deriving DecidableEq

def Stop.labelled (label : String) : Stop → Stop
  | .error text => .error (label ++ text)
  | .waits => .waits
  | .panic fault => .panic fault

abbrev Reading := Except Stop

def labelled (label : String) : Reading α → Reading α
  | .ok value => .ok value
  | .error stop => .error (stop.labelled label)

@[simp] theorem labelled_ok (label) (value : α) : labelled label (.ok value) = .ok value := rfl
@[simp] theorem labelled_error (label stop) : labelled label (.error stop : Reading α) = .error (stop.labelled label) := rfl

def fallible : Except String α → Reading α
  | .ok value => .ok value
  | .error e => .error (.error e)

def faulty : Checked α → Reading α
  | .ok value => .ok value
  | .error fault => .error (.panic fault)

theorem labelled_eq_ok : labelled label reading = .ok value ↔ reading = .ok value := by
  cases reading <;> simp

theorem fallible_eq_ok : fallible result = .ok value ↔ result = .ok value := by
  cases result <;> simp [fallible]

def Ending.stop : Ending → Stop
  | .stillOpen => .waits
  | .closed => .error "early eof"
  | .broken e => .error e

-- `read_exact`: it waits through delays, and at the end of the stream it has read too little.
def takeExact : (n : Nat) → (arrivals : List (Option (Segment UInt8 cap))) → Option (Octets n × List (Option (Segment UInt8 cap)))
  | 0,arrivals => some (⟨[],rfl⟩,arrivals)
  | _ + 1,[] => none
  | n + 1,none :: rest => takeExact (n + 1) rest
  | n + 1,some segment :: rest =>
    if longer : n + 1 < segment.val.length then
      some (⟨segment.val.take (n + 1),List.length_take_of_le (by omega)⟩,some (behind segment (n + 1) longer) :: rest)
    else
      (takeExact (n + 1 - segment.val.length) rest).map fun (front,rest) =>
        (⟨segment.val ++ front.val,by rw [List.length_append,front.property]; omega⟩,rest)

def readExact (n : Nat) (stream : Stream cap) : Reading (Octets n × Stream cap) :=
  match takeExact n stream.arrivals with
  | some (front,rest) => .ok (front,⟨rest,stream.ending⟩)
  | none => .error stream.ending.stop

theorem takeExact_enough (n) (enough : n ≤ (text arrivals.reduceOption).length) :
    ∃ front rest, takeExact n arrivals = some (front,rest) ∧ text arrivals.reduceOption = front.val ++ text rest.reduceOption := by
  induction arrivals generalizing n with
  | nil =>
    obtain rfl : n = 0 := Nat.le_zero.mp enough
    exact ⟨_,[],rfl,rfl⟩
  | cons arrival rest ih =>
    cases n with
    | zero => exact ⟨_,arrival :: rest,rfl,rfl⟩
    | succ n =>
      cases arrival with
      | none => exact ih (n + 1) enough
      | some segment =>
        rw [reduceOption_cons_of_some,text_cons,length_append] at enough
        rw [reduceOption_cons_of_some,text_cons]
        by_cases longer : n + 1 < segment.val.length
        · refine ⟨_,_,dif_pos longer,?_⟩
          rw [reduceOption_cons_of_some,text_cons,← append_assoc]
          exact congrArg (· ++ _) (take_append_drop ..).symm
        · obtain ⟨front,tail,taken,parts⟩ := ih (n + 1 - segment.val.length) (by omega)
          refine ⟨⟨segment.val ++ front.val,by rw [length_append,front.property]; omega⟩,tail,?_,?_⟩
          · rw [takeExact,dif_neg longer,taken]
            rfl
          · rw [parts,append_assoc]

theorem takeExact_short (n) (short : (text arrivals.reduceOption).length < n) : takeExact n arrivals = none := by
  induction arrivals generalizing n with
  | nil =>
    cases n with
    | zero => exact absurd short (Nat.not_lt_zero _)
    | succ n => rfl
  | cons arrival rest ih =>
    cases n with
    | zero => exact absurd short (Nat.not_lt_zero _)
    | succ n =>
      cases arrival with
      | none => exact ih (n + 1) short
      | some segment =>
        rw [reduceOption_cons_of_some,text_cons,length_append] at short
        rw [takeExact,dif_neg (by omega),ih _ (by omega)]
        rfl

theorem readExact_enough (stream) (parts : stream.text = front ++ later) (sized : front.length = n) :
    ∃ rest : Stream cap, readExact n stream = .ok (⟨front,sized⟩,rest) ∧ rest.text = later ∧ rest.ending = stream.ending := by
  obtain ⟨taken,rest,read,split⟩ := takeExact_enough n (by
    rw [← Stream.text,parts,length_append]
    omega)
  obtain ⟨first,behind⟩ := append_inj (parts.symm.trans split) (by rw [sized,taken.property])
  refine ⟨⟨rest,stream.ending⟩,?_,behind.symm,rfl⟩
  rw [readExact,read,show taken = ⟨front,sized⟩ from Subtype.ext first.symm]

theorem readExact_short (stream : Stream cap) (short : stream.text.length < n) : readExact n stream = .error stream.ending.stop := by
  rw [readExact,takeExact_short n short]

theorem readExact_ok (read : readExact n stream = .ok (front,rest)) : stream.text = front.val ++ rest.text ∧ rest.ending = stream.ending := by
  by_cases enough : n ≤ stream.text.length
  · have parts : stream.text = stream.text.take n ++ stream.text.drop n := (take_append_drop ..).symm
    obtain ⟨later,found,behind,ending⟩ := readExact_enough stream parts (length_take_of_le enough)
    cases read.symm.trans found
    exact ⟨behind ▸ parts,ending⟩
  · rw [readExact_short stream (by omega)] at read
    cases read

structure At (data : Bytes) (ending : Ending) (offset : Nat) (stream : Stream cap) : Prop where
  inside : offset ≤ data.length
  text : stream.text = data.drop offset
  ending : stream.ending = ending

theorem At.start (stream : Stream cap) : At stream.text stream.ending 0 stream :=
  ⟨Nat.zero_le _,rfl,rfl⟩

-- The two return the same value and end at the same place, or both fail. On a stream that stays open nothing is asked
-- where the slice is too short.
def Agree (data : Bytes) (ending : Ending) (sliced : Reading (α × Nat)) (streamed : Reading (α × Stream cap)) : Prop :=
  match sliced with
  | .ok (value,offset) => ∃ rest, streamed = .ok (value,rest) ∧ At data ending offset rest
  | .error (.error _) => ending = .stillOpen ∨ ∃ e, streamed = .error (.error e)
  | .error _ => False

theorem Agree.ok (at_ : At data ending offset stream) (value : α) : Agree data ending (.ok (value,offset)) (.ok (value,stream)) :=
  ⟨stream,rfl,at_⟩

theorem Agree.error (data ending first second) :
    Agree data ending (.error (.error first) : Reading (α × Nat)) (.error (.error second) : Reading (α × Stream cap)) :=
  .inr ⟨second,rfl⟩

theorem Agree.bind {later : α × Stream cap → Reading (β × Stream cap)} (agree : Agree data ending sliced streamed)
    (follows : ∀ value offset rest, At data ending offset rest → Agree data ending (onward (value,offset)) (later (value,rest))) :
    Agree data ending (sliced >>= onward) (streamed >>= later) := by
  cases sliced with
  | ok result =>
    obtain ⟨value,offset⟩ := result
    obtain ⟨rest,rfl,at_⟩ := agree
    exact follows value offset rest at_
  | error stop =>
    cases stop with
    | waits | panic fault => cases agree
    | error text =>
      rcases agree with isOpen | ⟨e,rfl⟩
      · exact .inl isOpen
      · exact .inr ⟨e,rfl⟩

theorem slice_width {data : Bytes} (enough : ¬ data.length < offset + n) : ((data.drop offset).take n).length = n := by
  simp
  omega

def sliceExact (data : Bytes) (offset n : Nat) (e : String) : Reading (Octets n × Nat) :=
  if short : data.length < offset + n then .error (.error e)
  else .ok (⟨(data.drop offset).take n,slice_width short⟩,offset + n)

theorem sliceExact_enough {data : Bytes} (enough : ¬ data.length < offset + n) (e) :
    sliceExact data offset n e = .ok (⟨(data.drop offset).take n,slice_width enough⟩,offset + n) :=
  dif_neg enough

theorem sliceExact_short (short : data.length < offset + n) (e) : sliceExact data offset n e = .error (.error e) :=
  dif_pos short

theorem exact_agree (at_ : At data ending offset stream) (n e label) :
    Agree data ending (sliceExact data offset n e) (labelled label (readExact n stream)) := by
  have inside := at_.inside
  unfold sliceExact
  split
  · have missing : stream.text.length < n := by simp [at_.text]; omega
    rw [readExact_short stream missing,at_.ending]
    cases ending with
    | stillOpen => exact .inl rfl
    | closed | broken e => exact .inr ⟨_,rfl⟩
  · rename_i enough
    have parts : stream.text = (data.drop offset).take n ++ data.drop (offset + n) := by
      simp [at_.text,← drop_drop]
    obtain ⟨rest,read,behind,ending⟩ := readExact_enough stream parts (slice_width enough)
    refine ⟨rest,by simp [read],⟨by omega,behind,ending.trans at_.ending⟩⟩

def Behind (data : Bytes) (offset : Nat) (rest : Bytes) : Prop := ∃ front : Bytes, front.length = offset ∧ data = front ++ rest

theorem Behind.start (data) : Behind data 0 data := ⟨[],rfl,rfl⟩

theorem Behind.takes (behind : Behind data offset (middle ++ rest)) (sized : middle.length = n) (e) :
    sliceExact data offset n e = .ok (⟨middle,sized⟩,offset + n) ∧ Behind data (offset + n) rest := by
  obtain ⟨front,before,rfl⟩ := behind
  refine ⟨?_,front ++ middle,by simp [before,sized],by simp⟩
  unfold sliceExact
  rw [dif_neg (by simp; omega)]
  simp only [drop_front before,take_front sized]

end AstraCore.PolledStream
