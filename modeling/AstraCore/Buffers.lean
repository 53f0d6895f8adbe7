import AstraCore.NetAddress

namespace AstraCore.Buffers
open CheckedBytes NetAddress List

def SIZE : Nat := 8192

-- The memory of a buffer. The pool hands out blocks as their last users left them.
abbrev Block := Octets SIZE

theorem written_length (block : Block) (fits : place + bytes.length ≤ SIZE) :
    (block.val.take place ++ bytes ++ block.val.drop (place + bytes.length)).length = SIZE := by
  simp only [length_append,length_take,length_drop]
  omega

def writeAt (block : Block) (place : Nat) (bytes : Bytes) (fits : place + bytes.length ≤ SIZE) : Block :=
  ⟨block.val.take place ++ bytes ++ block.val.drop (place + bytes.length),written_length block fits⟩

theorem take_place (block : Block) (bounded : place ≤ SIZE) : (block.val.take place).length = place := by
  rw [length_take,block.property]
  exact Nat.min_eq_left bounded

theorem writeAt_before (block) (fits : place + bytes.length ≤ SIZE) (early : n ≤ place) :
    (writeAt block place bytes fits).val.take n = block.val.take n := by
  have inside : place ≤ SIZE := by omega
  have width := take_place block inside
  change (block.val.take place ++ bytes ++ block.val.drop (place + bytes.length)).take n = _
  rw [append_assoc,take_append_of_le_length (by omega),take_take,Nat.min_eq_left early]

theorem writeAt_through (block) (fits : place + bytes.length ≤ SIZE) :
    (writeAt block place bytes fits).val.take (place + bytes.length) = block.val.take place ++ bytes := by
  have inside : place ≤ SIZE := by omega
  have width := take_place block inside
  apply take_left'
  rw [length_append,width]

structure Buffer where
  data : Block
  start : Nat
  stop : Nat
  ordered : start ≤ stop
  bounded : stop ≤ SIZE

namespace Buffer

section
variable (b : Buffer)

def bytes : Bytes := (b.data.val.take b.stop).drop b.start
def len : Nat := b.stop - b.start
def available : Nat := SIZE - b.stop

@[simp] theorem bytes_length : b.bytes.length = b.len := by
  rw [bytes,length_drop,take_place b.data b.bounded]
  rfl

theorem len_bounded : b.len ≤ SIZE := Nat.le_trans (Nat.sub_le ..) b.bounded

def new (block : Block) : Buffer := ⟨block,0,0,Nat.le_refl 0,Nat.zero_le SIZE⟩

@[simp] theorem new_bytes (block) : (new block).bytes = [] := rfl
theorem front_fits (bytes : Bytes) : 0 + (bytes.take SIZE).length ≤ SIZE := by
  simp

theorem front_bounded (bytes : Bytes) : (bytes.take SIZE).length ≤ SIZE := length_take_le ..

def fromSlice (block : Block) (bytes : Bytes) : Buffer :=
  ⟨writeAt block 0 (bytes.take SIZE) (front_fits bytes),0,(bytes.take SIZE).length,Nat.zero_le _,front_bounded bytes⟩

@[simp] theorem fromSlice_bytes (block bytes) : (fromSlice block bytes).bytes = bytes.take SIZE := by
  have through := writeAt_through block (front_fits bytes)
  rw [Nat.zero_add] at through
  exact through

theorem fromSlice_len (block) {bytes : Bytes} (short : bytes.length ≤ SIZE) : (fromSlice block bytes).len = bytes.length := by
  rw [← bytes_length,fromSlice_bytes,take_of_length_le short]

-- `set_end` on a buffer that starts with its block. What lies before the end is what the block holds there.
def upTo (n : Nat) (bounded : n ≤ SIZE) : Buffer := ⟨b.data,0,n,Nat.zero_le n,bounded⟩

theorem upTo_bytes (bounded : n ≤ SIZE) : (b.upTo n bounded).bytes = b.data.val.take n := rfl
theorem upTo_len (bounded : n ≤ SIZE) : (b.upTo n bounded).len = n := rfl

def extend (n : Nat) : Checked Buffer :=
  if fits : b.stop + n ≤ SIZE then .ok {b with stop := b.stop + n,ordered := Nat.le_trans b.ordered (Nat.le_add_right ..),bounded := fits}
  else .error .capacity

theorem advanced_ordered : b.start + min n b.len ≤ b.stop := by
  have := b.ordered
  simp only [len]
  omega

def advance (n : Nat) : Buffer :=
  if b.start + min n b.len = b.stop then new b.data
  else {b with start := b.start + min n b.len,ordered := advanced_ordered b}

@[simp] theorem advance_bytes : (b.advance n).bytes = b.bytes.drop n := by
  have shown := b.bytes_length
  rw [advance]
  split
  · rename_i used
    have through : b.bytes.length ≤ n := by
      simp only [shown,len] at used ⊢
      omega
    rw [new_bytes,drop_of_length_le through]
  · rename_i left
    have inside : min n b.len = n := by
      have := b.ordered
      simp only [len] at left ⊢
      omega
    change (b.data.val.take b.stop).drop (b.start + min n b.len) = ((b.data.val.take b.stop).drop b.start).drop n
    rw [drop_drop,inside]

@[simp] theorem advance_len (n) : (b.advance n).len = b.len - n := by
  rw [← bytes_length,advance_bytes,length_drop,bytes_length]

theorem written_fits (bytes : Bytes) : b.stop + (bytes.take b.available).length ≤ SIZE := by
  have := b.bounded
  simp only [available,length_take]
  omega

def write (bytes : Bytes) : Except String (Nat × Buffer) :=
  if b.available = 0 then .error "buffer is full"
  else .ok ((bytes.take b.available).length,
    {data := writeAt b.data b.stop (bytes.take b.available) (written_fits b bytes)
     start := b.start
     stop := b.stop + (bytes.take b.available).length
     ordered := Nat.le_trans b.ordered (Nat.le_add_right ..)
     bounded := written_fits b bytes})

theorem appended_bytes (fits : b.stop + more.length ≤ SIZE) :
    ((writeAt b.data b.stop more fits).val.take (b.stop + more.length)).drop b.start = b.bytes ++ more := by
  have := b.ordered
  have width := take_place b.data b.bounded
  rw [writeAt_through,drop_append_of_le_length (by omega)]
  rfl

end

end Buffer

def bytesOf (bufs : List Buffer) : Bytes := bufs.flatMap Buffer.bytes
def total (bufs : List Buffer) : Nat := (bufs.map Buffer.len).sum

@[simp] theorem bytesOf_nil : bytesOf [] = [] := rfl
@[simp] theorem bytesOf_cons (b rest) : bytesOf (b :: rest) = b.bytes ++ bytesOf rest :=
  flatMap_cons
@[simp] theorem bytesOf_append : bytesOf (front ++ back) = bytesOf front ++ bytesOf back :=
  flatMap_append
@[simp] theorem total_nil : total [] = 0 := rfl
@[simp] theorem total_cons (b rest) : total (b :: rest) = b.len + total rest := sum_cons

@[simp] theorem bytesOf_length (bufs) : (bytesOf bufs).length = total bufs := by
  induction bufs with
  | nil => rfl
  | cons b rest ih => rw [bytesOf_cons,length_append,ih,Buffer.bytes_length,total_cons]

structure MultiBuffer where
  bufs : List Buffer
  totalLen : Nat
  counted : totalLen = total bufs

namespace MultiBuffer

def of (bufs : List Buffer) : MultiBuffer := ⟨bufs,total bufs,rfl⟩

def new : MultiBuffer := of []
def withBuffer (b : Buffer) : MultiBuffer := of [b]
def isEmpty (mb : MultiBuffer) : Bool := mb.totalLen == 0
def pushBack (mb : MultiBuffer) (b : Buffer) : MultiBuffer := of (mb.bufs ++ [b])
def append (mb other : MultiBuffer) : MultiBuffer := of (mb.bufs ++ other.bufs)
def bytes (mb : MultiBuffer) : Bytes := bytesOf mb.bufs

@[simp] theorem of_bufs (bufs) : (of bufs).bufs = bufs := rfl
@[simp] theorem of_totalLen (bufs) : (of bufs).totalLen = total bufs := rfl
@[simp] theorem of_bytes (bufs) : (of bufs).bytes = bytesOf bufs := rfl
@[simp] theorem new_bytes : new.bytes = [] := rfl
@[simp] theorem new_totalLen : new.totalLen = 0 := rfl

@[simp] theorem bytes_length (mb : MultiBuffer) : mb.bytes.length = mb.totalLen := by
  rw [bytes,bytesOf_length,mb.counted]

@[simp] theorem pushBack_bytes (mb : MultiBuffer) (b) : (mb.pushBack b).bytes = mb.bytes ++ b.bytes := by
  simp [pushBack,bytes]

@[simp] theorem append_bytes (mb other : MultiBuffer) : (mb.append other).bytes = mb.bytes ++ other.bytes := by
  simp [append,bytes]

theorem isEmpty_iff (mb : MultiBuffer) : mb.isEmpty = true ↔ mb.totalLen = 0 := beq_iff_eq

theorem empty_bytes {mb : MultiBuffer} (empty : mb.totalLen = 0) : mb.bytes = [] :=
  eq_nil_of_length_eq_zero (mb.bytes_length.trans empty)

end MultiBuffer

def cutLoop (fresh : Block) : List Buffer → Nat → List Buffer × List Buffer
  | [],_ => ([],[])
  | b :: rest,remaining =>
    if remaining = 0 then ([],b :: rest)
    else if b.len ≤ remaining then
      let (front,back) := cutLoop fresh rest (remaining - b.len)
      (b :: front,back)
    else ([.fromSlice fresh (b.bytes.take remaining)],b.advance remaining :: rest)

def MultiBuffer.cutFront (fresh : Block) (mb : MultiBuffer) (n : Nat) : MultiBuffer × MultiBuffer :=
  let (front,back) := cutLoop fresh mb.bufs n
  (of front,of back)

def behind : Nat → List Buffer → List Buffer
  | _,[] => []
  | n,b :: rest => if n = 0 then b :: rest else if b.len ≤ n then behind (n - b.len) rest else b.advance n :: rest

@[simp] theorem behind_zero (bufs) : behind 0 bufs = bufs := by
  cases bufs with
  | nil => rfl
  | cons b rest => exact if_pos rfl

theorem behind_whole (positive : n ≠ 0) (whole : b.len ≤ n) : behind n (b :: rest) = behind (n - b.len) rest := by
  rw [behind,if_neg positive,if_pos whole]

theorem behind_inside (inside : n < b.len) (positive : n ≠ 0) : behind n (b :: rest) = b.advance n :: rest := by
  rw [behind,if_neg positive,if_neg (by omega)]

@[simp] theorem behind_bytes (n bufs) : bytesOf (behind n bufs) = (bytesOf bufs).drop n := by
  induction bufs generalizing n with
  | nil => simp [behind]
  | cons b rest ih =>
    by_cases zero : n = 0
    · rw [zero,behind_zero,drop_zero]
    by_cases whole : b.len ≤ n
    · have gone : b.bytes.drop n = [] := drop_of_length_le (by simpa using whole)
      rw [behind_whole zero whole,ih,bytesOf_cons,drop_append,gone,b.bytes_length,nil_append]
    · rw [behind_inside (by omega) zero,bytesOf_cons,bytesOf_cons,Buffer.advance_bytes,drop_append_of_le_length (by rw [b.bytes_length]; omega)]

@[simp] theorem behind_total (n bufs) : total (behind n bufs) = total bufs - n := by
  rw [← bytesOf_length,behind_bytes,length_drop,bytesOf_length]

variable (fresh : Block)

theorem cutLoop_back (bufs n) : (cutLoop fresh bufs n).2 = behind n bufs := by
  induction bufs generalizing n with
  | nil => rfl
  | cons b rest ih =>
    grind [cutLoop,behind]

theorem cutLoop_front (bufs n) : bytesOf (cutLoop fresh bufs n).1 = (bytesOf bufs).take n := by
  induction bufs generalizing n with
  | nil => simp [cutLoop]
  | cons b rest ih =>
    have shown := b.bytes_length
    rw [cutLoop]
    split
    · rename_i zero
      simp [zero]
    · split
      · have all : b.bytes.take n = b.bytes := take_of_length_le (by omega)
        rw [bytesOf_cons,ih,bytesOf_cons,take_append,all,shown]
      · have bounded := b.len_bounded
        have short : (b.bytes.take n).length ≤ SIZE := by
          rw [length_take]
          omega
        rw [bytesOf_cons,bytesOf_nil,append_nil,Buffer.fromSlice_bytes,take_of_length_le short,bytesOf_cons,take_append_of_le_length (by omega)]

namespace MultiBuffer

@[simp] theorem cutFront_front (mb : MultiBuffer) (n) : (mb.cutFront fresh n).1.bytes = mb.bytes.take n :=
  cutLoop_front fresh mb.bufs n
@[simp] theorem cutFront_bufs (mb : MultiBuffer) (n) : (mb.cutFront fresh n).2.bufs = behind n mb.bufs :=
  cutLoop_back fresh mb.bufs n
@[simp] theorem cutFront_back (mb : MultiBuffer) (n) : (mb.cutFront fresh n).2.bytes = mb.bytes.drop n := by
  rw [bytes,cutFront_bufs,behind_bytes]
  rfl

end MultiBuffer

-- The loop of `read_into` for a slice of `room` bytes, of which `copied` are there. How much a buffer gives is not
-- lessened by what the buffers before it gave. One that is not empty afterwards has filled the slice.
def readLoop (room : Nat) : List Buffer → Bytes → Checked (Bytes × List Buffer)
  | [],copied => .ok (copied,[])
  | b :: rest,copied =>
    if copied.length < room then
      let n := min room b.len
      if copied.length + n ≤ room then
        if (b.advance n).len = 0 then readLoop room rest (copied ++ b.bytes.take n)
        else .ok (copied ++ b.bytes.take n,b.advance n :: rest)
      else .error .sliceIndex
    else .ok (copied,b :: rest)

def MultiBuffer.readInto (mb : MultiBuffer) (room : Nat) : Checked (Bytes × MultiBuffer) :=
  (readLoop room mb.bufs []).map fun done => (done.1,of done.2)

-- Behind `copied` bytes of a slice of `room` bytes, buffers of these lengths can be read from: the first that has bytes
-- may be longer than the slice, every later one that is reached has to fit into what is left of it.
def Fits (room : Nat) : Nat → List Nat → Prop
  | _,[] => True
  | copied,len :: rest => copied < room → (copied = 0 ∨ copied + len ≤ room) ∧ Fits room (copied + len) rest

instance decideFits (room : Nat) : (copied : Nat) → (lens : List Nat) → Decidable (Fits room copied lens)
  | _,[] => inferInstanceAs (Decidable True)
  | copied,len :: rest =>
    have := decideFits room (copied + len) rest
    inferInstanceAs (Decidable (copied < room → (copied = 0 ∨ copied + len ≤ room) ∧ Fits room (copied + len) rest))

def lengths (bufs : List Buffer) : List Nat := bufs.map Buffer.len

theorem fits_full (through : room ≤ copied) (lens) : Fits room copied lens := by
  cases lens with
  | nil => trivial
  | cons len rest =>
    intro below
    omega

theorem fits_nothing (empty : total bufs = 0) : Fits room 0 (lengths bufs) := by
  induction bufs with
  | nil => trivial
  | cons b rest ih =>
    rw [total_cons] at empty
    have none : b.len = 0 := by omega
    intro _
    refine ⟨.inl rfl,?_⟩
    rw [none]
    exact ih (by omega)

theorem readLoop_whole (below : copied.length < room) (whole : copied.length + b.len ≤ room) :
    readLoop room (b :: rest) copied = readLoop room rest (copied ++ b.bytes) := by
  have all : min room b.len = b.len := by omega
  have used : (b.advance b.len).len = 0 := by simp
  have shown : b.bytes.take b.len = b.bytes := take_of_length_le (by simp)
  rw [readLoop]
  simp only [all]
  rw [if_pos below,if_pos whole,if_pos used,shown]

theorem readLoop_filled (positive : 0 < room) (longer : room < b.len) : readLoop room (b :: rest) [] = .ok (b.bytes.take room,b.advance room :: rest) := by
  have part : min room b.len = room := by omega
  have left : ¬ (b.advance room).len = 0 := by
    rw [Buffer.advance_len]
    omega
  have below : ([] : Bytes).length < room := positive
  have inside : ([] : Bytes).length + room ≤ room := by simp
  rw [readLoop]
  simp only [part]
  rw [if_pos below,if_pos inside,if_neg left,nil_append]

theorem readLoop_done (full : copied.length = room) (bufs) : readLoop room bufs copied = .ok (copied,bufs) := by
  cases bufs with
  | nil => rfl
  | cons b rest => rw [readLoop,if_neg (by omega)]

theorem readLoop_fits (bufs) (copied : Bytes) (inside : copied.length ≤ room) (fits : Fits room copied.length (lengths bufs)) :
    readLoop room bufs copied = .ok (copied ++ (bytesOf bufs).take (room - copied.length),behind (room - copied.length) bufs) := by
  induction bufs generalizing copied with
  | nil => simp [readLoop,behind]
  | cons b rest ih =>
    have shown := b.bytes_length
    by_cases full : copied.length = room
    · rw [readLoop_done full,full,Nat.sub_self,take_zero,append_nil,behind_zero]
    have below : copied.length < room := by omega
    obtain ⟨first,later⟩ := fits below
    by_cases whole : copied.length + b.len ≤ room
    · have width : (copied ++ b.bytes).length = copied.length + b.len := by rw [length_append,shown]
      rw [← width] at later
      have rest_ok := ih (copied ++ b.bytes) (by omega) later
      have shorter : room - (copied.length + b.len) = room - copied.length - b.len := by omega
      have all : b.bytes.take (room - copied.length) = b.bytes := take_of_length_le (by omega)
      rw [readLoop_whole below whole,rest_ok,width,shorter,behind_whole (by omega) (by omega),bytesOf_cons,take_append,all,shown,append_assoc]
    · have nothing : copied = [] := by
        have : copied.length = 0 := by omega
        exact eq_nil_of_length_eq_zero this
      subst nothing
      simp only [length_nil,Nat.sub_zero,nil_append] at *
      rw [readLoop_filled below (by omega),behind_inside (by omega) (by omega),bytesOf_cons,take_append_of_le_length (by omega)]

theorem readLoop_overruns (bufs copied) (inside : copied.length ≤ room)
    (overruns : ¬ Fits room copied.length (lengths bufs)) : readLoop room bufs copied = .error .sliceIndex := by
  induction bufs generalizing copied with
  | nil => exact absurd trivial overruns
  | cons b rest ih =>
    have below : copied.length < room := by
      by_contra full
      exact overruns (fits_full (by omega) _)
    have width : (copied ++ b.bytes).length = copied.length + b.len := by rw [length_append,b.bytes_length]
    by_cases whole : copied.length + b.len ≤ room
    · rw [readLoop_whole below whole]
      apply ih (copied ++ b.bytes) (by omega)
      rw [width]
      intro later
      exact overruns fun _ => ⟨.inr whole,later⟩
    · have some : copied.length ≠ 0 := by
        intro nothing
        exact overruns fun _ => ⟨.inl nothing,fits_full (by omega) _⟩
      rw [readLoop,if_pos below]
      exact if_neg (by omega)

namespace MultiBuffer

section
variable {mb : MultiBuffer}

theorem readInto_fits (fits : Fits room 0 (lengths mb.bufs)) : mb.readInto room = .ok (mb.bytes.take room,of (behind room mb.bufs)) := by
  rw [readInto,readLoop_fits mb.bufs [] (Nat.zero_le room) fits]
  rfl

theorem readInto_overruns (overruns : ¬ Fits room 0 (lengths mb.bufs)) : mb.readInto room = .error .sliceIndex := by
  rw [readInto,readLoop_overruns mb.bufs [] (Nat.zero_le room) overruns]
  rfl

theorem readInto_within (read : mb.readInto room = .ok (front,rest)) : front.length ≤ room := by
  by_cases fits : Fits room 0 (lengths mb.bufs)
  · rw [readInto_fits fits] at read
    cases read
    exact length_take_le ..
  · rw [readInto_overruns fits] at read
    cases read

end

end MultiBuffer

end AstraCore.Buffers
