import AstraCore.PolledStream

namespace AstraCore.Dialogue
open CheckedBytes NetAddress ByteStream PolledStream
variable {cap : Nat}

-- One side of a conversation as a function of all that arrives at it: what it has said by the time it stops reading, and
-- its result with what it has left unread. Whatever it said before it stopped stays said. What it writes is always taken.
def Talk (cap : Nat) (α : Type) : Type := Stream cap → Bytes × Reading (α × Stream cap)

namespace Talk

def andThen (first : Talk cap α) (next : α → Talk cap β) : Talk cap β := fun stream =>
  match first stream with
  | (said,.error stop) => (said,.error stop)
  | (said,.ok (value,rest)) => (said ++ (next value rest).1,(next value rest).2)

instance : Monad (Talk cap) where
  pure value := fun stream => ([],.ok (value,stream))
  bind := andThen

def say (bytes : Bytes) : Talk cap Unit := fun stream => (bytes,.ok ((),stream))
def fail (text : String) : Talk cap α := fun _ => ([],.error (.error text))
def hear (label : String) (n : Nat) : Talk cap (Octets n) := fun stream => ([],labelled label (readExact n stream))

theorem bind_eq (first) (next : α → Talk cap β) : first >>= next = andThen first next := rfl
theorem pure_eq (value stream) : (pure value : Talk cap α) stream = ([],.ok (value,stream)) := rfl

theorem id_map (talk : Talk cap α) : id <$> talk = talk := by
  funext stream
  change andThen talk pure stream = talk stream
  unfold andThen
  rcases talk stream with ⟨said,_ | ⟨value,rest⟩⟩
  · rfl
  · simp [pure_eq]

theorem bind_assoc (talk : Talk cap α) (next) (later : β → Talk cap γ) : talk >>= next >>= later = talk >>= fun value => next value >>= later := by
  funext stream
  change andThen (andThen talk next) later stream = andThen talk (fun value => andThen (next value) later) stream
  unfold andThen
  rcases talk stream with ⟨said,_ | ⟨value,rest⟩⟩
  · rfl
  · dsimp only
    rcases next value rest with ⟨more,_ | ⟨other,behind⟩⟩
    · rfl
    · simp

instance : LawfulMonad (Talk cap) := LawfulMonad.mk' _ id_map (fun _ _ => rfl) bind_assoc

theorem bind_ok {next : α → Talk cap β} (finished : ((talk >>= next) stream).2 = .ok result) :
    ∃ value rest, (talk stream).2 = .ok (value,rest) ∧ (next value rest).2 = .ok result := by
  rw [bind_eq,andThen] at finished
  cases went : talk stream with
  | mk said reading =>
    rw [went] at finished
    cases reading with
    | error stop => cases finished
    | ok found => exact ⟨found.1,found.2,rfl,finished⟩

theorem bind_stop (next : α → Talk cap β) (stopped : (talk stream).2 = .error stop) : ((talk >>= next) stream).2 = .error stop := by
  rw [bind_eq,andThen]
  cases went : talk stream with
  | mk said reading =>
    rw [went] at stopped
    rw [show reading = .error stop from stopped]

theorem say_bind (bytes) (next : Talk cap α) (stream) : (say bytes >>= fun _ => next) stream = (bytes ++ (next stream).1,(next stream).2) := rfl

theorem fail_bind (text) (next : α → Talk cap β) : (fail text >>= next : Talk cap β) = fail text := rfl

def Answers (talk : Talk cap α) (heard said : Bytes) (value : α) : Prop :=
  ∀ stream rest, stream.text = heard ++ rest →
    ∃ later, talk stream = (said,.ok (value,later)) ∧ later.text = rest ∧ later.ending = stream.ending

def Hears (talk : Talk cap α) (bytes : Bytes) (value : α) : Prop := Answers talk bytes [] value

theorem Answers.say (bytes) : Answers (Talk.say bytes : Talk cap Unit) [] bytes () :=
  fun stream _ parts => ⟨stream,rfl,parts,rfl⟩

theorem Answers.bind (first : Answers talk heard said value)
    (second : Answers (next value) more further result) : Answers (talk >>= next) (heard ++ more) (said ++ further) result := by
  intro stream rest parts
  rw [List.append_assoc] at parts
  obtain ⟨middle,goes,behind,ending⟩ := first stream _ parts
  obtain ⟨later,goesOn,left,kept⟩ := second middle _ behind
  refine ⟨later,?_,left,kept.trans ending⟩
  rw [bind_eq,andThen,goes]
  dsimp only
  rw [goesOn]

theorem Answers.saying (bytes) (further : Answers next heard said value) : Answers (Talk.say bytes >>= fun _ => next) heard (bytes ++ said) value :=
  (Answers.say bytes).bind further

theorem Answers.hearing (first : Hears talk bytes value)
    (further : Answers (next value) heard said result) : Answers (talk >>= next) (bytes ++ heard) said result :=
  Answers.bind first further

theorem Hears.pure (value) : Hears (Pure.pure value : Talk cap α) [] value :=
  fun stream _ parts => ⟨stream,rfl,parts,rfl⟩

theorem Hears.hear (label octets) : Hears (Talk.hear label n : Talk cap (Octets n)) octets.val octets := by
  intro stream rest parts
  obtain ⟨later,read,behind,ending⟩ := readExact_enough stream parts octets.property
  refine ⟨later,?_,behind,ending⟩
  simp [Talk.hear,read]

theorem Hears.bind (first : Hears talk bytes value) (second : Hears (next value) more result) : Hears (talk >>= next) (bytes ++ more) result :=
  Answers.bind first second

theorem Hears.last (first : Hears talk bytes value) (second : Hears (next value) [] result) : Hears (talk >>= next) bytes result := by
  have heard := first.bind second
  rwa [List.append_nil] at heard

end Talk

-- Two sides that read nothing but what the other one says, once all of it has arrived, in whatever pieces.
structure Settled (left : Talk cap α) (right : Talk cap β) (l r : Stream cap) : Prop where
  toLeft : l.text = (right r).1
  toRight : r.text = (left l).1

structure Facing (left : Talk cap α) (right : Talk cap β) (l r : Stream cap) (a : Reading (α × Stream cap))
    (b : Reading (β × Stream cap)) : Prop where
  toLeft : l.text = (right r).1
  toRight : r.text = (left l).1
  leftEnds : (left l).2 = a
  rightEnds : (right r).2 = b

namespace Facing
variable {left : Talk cap α} {right : Talk cap β} {l r : Stream cap} {a : Reading (α × Stream cap)} {b : Reading (β × Stream cap)}

theorem start (settled : Settled left right l r) : Facing left right l r (left l).2 (right r).2 :=
  ⟨settled.toLeft,settled.toRight,rfl,rfl⟩

theorem symm (facing : Facing left right l r a b) : Facing right left r l b a :=
  ⟨facing.toRight,facing.toLeft,facing.rightEnds,facing.leftEnds⟩

theorem heard (hears : talk.Hears bytes value) (facing : Facing (Talk.say bytes >>= fun _ => left) (talk >>= next) l r a b) :
    ∃ later, Facing left (next value) l later a b := by
  obtain ⟨toLeft,toRight,leftEnds,rightEnds⟩ := facing
  obtain ⟨later,read,behind,-⟩ := hears r _ toRight
  have goes : (talk >>= next) r = next value later := by
    rw [Talk.bind_eq,Talk.andThen,read]
    rfl
  rw [goes] at toLeft rightEnds
  exact ⟨later,toLeft,behind,leftEnds,rightEnds⟩

theorem heard_left (hears : talk.Hears bytes value) (facing : Facing (talk >>= next) (Talk.say bytes >>= fun _ => right) l r a b) :
    ∃ later, Facing (next value) right later r a b := by
  obtain ⟨later,facing⟩ := facing.symm.heard hears
  exact ⟨later,facing.symm⟩

end Facing

def push (stream : Stream cap) (arrival : Option (Segment UInt8 cap)) : Stream cap := ⟨stream.arrivals ++ [arrival],stream.ending⟩
def close (stream : Stream cap) : Stream cap := ⟨stream.arrivals,.closed⟩

-- A conversation in progress. What arrives on one side has been said by the other, which knows what has arrived there so far
-- and nothing else; a side whose result is known may close behind its last byte.
inductive Exchange (left : Talk cap α) (right : Talk cap β) : Stream cap → Stream cap → Prop where
  | start : Exchange left right ⟨[],.stillOpen⟩ ⟨[],.stillOpen⟩
  | toLeft (arrival : Option (Segment UInt8 cap)) (before : Exchange left right l r)
      (said : (push l arrival).text <+: (right r).1) : Exchange left right (push l arrival) r
  | toRight (arrival : Option (Segment UInt8 cap)) (before : Exchange left right l r)
      (said : (push r arrival).text <+: (left l).1) : Exchange left right l (push r arrival)
  | leftDone (before : Exchange left right l r) (returned : (left l).2 ≠ .error .waits) (all : r.text = (left l).1) :
      Exchange left right l (close r)
  | rightDone (before : Exchange left right l r) (returned : (right r).2 ≠ .error .waits) (all : l.text = (right r).1) :
      Exchange left right (close l) r

end AstraCore.Dialogue
