import AstraCore.CheckedBytes

namespace AstraCore.KcpSegment
open CheckedBytes
open List (drop_drop drop_zero length_drop length_take)

inductive Command where
  | ack
  | data
  | terminate
  | ping
deriving DecidableEq, Repr

def Command.byte : Command → UInt8
  | .ack => 0
  | .data => 1
  | .terminate => 2
  | .ping => 3

def Command.fromByte (b : UInt8) : Option Command :=
  if b = 0 then some .ack
  else if b = 1 then some .data
  else if b = 2 then some .terminate
  else if b = 3 then some .ping
  else none

theorem fromByte_byte (cmd) : Command.fromByte cmd.byte = some cmd := by
  cases cmd <;> rfl

structure SegmentOption where
  bits : UInt8
deriving DecidableEq, Repr

def SegmentOption.close : SegmentOption := ⟨1⟩
def SegmentOption.containsClose (opt : SegmentOption) : Bool := opt.bits &&& 1 != 0

def dataSegmentOverhead : Nat := 18

structure DataSegment where
  conv : UInt16
  option : SegmentOption
  timestamp : UInt32
  number : UInt32
  sendingNext : UInt32
  payload : Bytes
  timeout : UInt32
  transmit : UInt32
deriving DecidableEq, Repr

def DataSegment.serialize (seg : DataSegment) : Bytes :=
  u16ToBe seg.conv ++ [Command.data.byte,seg.option.bits] ++ u32ToBe seg.timestamp ++ u32ToBe seg.number ++
    u32ToBe seg.sendingNext ++ u16ToBe (UInt16.ofNat seg.payload.length) ++ seg.payload

-- The inner option is the `None` of a refused body; a panic is the outer failure.
def DataSegment.parse (conv : UInt16) (opt : SegmentOption) (data : Bytes) :
    Checked (Option (DataSegment × Bytes)) :=
  if data.length < 15 then .ok none
  else do
    let timestamp ← u32FromBe (← slice data 0 4)
    let data ← sliceFrom data 4
    let number ← u32FromBe (← slice data 0 4)
    let data ← sliceFrom data 4
    let sendingNext ← u32FromBe (← slice data 0 4)
    let data ← sliceFrom data 4
    let payloadLen := (← u16FromBe (← slice data 0 2)).toNat
    let data ← sliceFrom data 2
    if data.length < payloadLen then .ok none
    else do
      let payload ← slice data 0 payloadLen
      let remaining ← sliceFrom data payloadLen
      .ok (some (⟨conv,opt,timestamp,number,sendingNext,payload,0,0⟩,remaining))

structure AckSegment where
  conv : UInt16
  option : SegmentOption
  receivingWindow : UInt32
  receivingNext : UInt32
  timestamp : UInt32
  numberList : List UInt32
  limit : Nat
deriving DecidableEq, Repr

def ackNumberLimit : Nat := 128

def AckSegment.new (limit : Nat) : AckSegment :=
  ⟨0,⟨0⟩,0,0,0,[],min (max limit 1) ackNumberLimit⟩

def AckSegment.putTimestamp (seg : AckSegment) (timestamp : UInt32) : AckSegment :=
  if timestamp - seg.timestamp < 0x7FFFFFFF then {seg with timestamp := timestamp} else seg

def AckSegment.putNumber (seg : AckSegment) (number : UInt32) : AckSegment :=
  {seg with numberList := seg.numberList ++ [number]}

def AckSegment.isFull (seg : AckSegment) : Bool := seg.numberList.length == seg.limit
def AckSegment.isEmpty (seg : AckSegment) : Bool := seg.numberList.isEmpty

def AckSegment.serialize (seg : AckSegment) : Bytes :=
  u16ToBe seg.conv ++ [Command.ack.byte,seg.option.bits] ++ u32ToBe seg.receivingWindow ++
    u32ToBe seg.receivingNext ++ u32ToBe seg.timestamp ++ [UInt8.ofNat seg.numberList.length] ++
    seg.numberList.flatMap u32ToBe

def AckSegment.readNumber (data : Bytes) (seg : AckSegment) (i : Nat) : Checked AckSegment := do
  let n ← u32FromBe (← slice data (i*4) ((i+1)*4))
  .ok (seg.putNumber n)

def AckSegment.parse (conv : UInt16) (opt : SegmentOption) (data : Bytes) :
    Checked (Option (AckSegment × Bytes)) :=
  if data.length < 13 then .ok none
  else do
    let receivingWindow ← u32FromBe (← slice data 0 4)
    let data ← sliceFrom data 4
    let receivingNext ← u32FromBe (← slice data 0 4)
    let data ← sliceFrom data 4
    let timestamp ← u32FromBe (← slice data 0 4)
    let data ← sliceFrom data 4
    let count := (← byteAt data 0).toNat
    let data ← sliceFrom data 1
    if data.length < count*4 then .ok none
    else do
      let seg := {AckSegment.new 128 with conv,option := opt,receivingWindow,receivingNext,timestamp}
      let seg ← (List.range count).foldlM (AckSegment.readNumber data) seg
      let remaining ← sliceFrom data (count*4)
      .ok (some (seg,remaining))

structure CmdOnlySegment where
  conv : UInt16
  cmd : Command
  option : SegmentOption
  sendingNext : UInt32
  receivingNext : UInt32
  peerRto : UInt32
deriving DecidableEq, Repr

def CmdOnlySegment.new (cmd : Command) : CmdOnlySegment := ⟨0,cmd,⟨0⟩,0,0,0⟩

def CmdOnlySegment.serialize (seg : CmdOnlySegment) : Bytes :=
  u16ToBe seg.conv ++ [seg.cmd.byte,seg.option.bits] ++ u32ToBe seg.sendingNext ++
    u32ToBe seg.receivingNext ++ u32ToBe seg.peerRto

-- The second and third reads index [4..8] of a slice that already dropped its first word.
def CmdOnlySegment.parse (conv : UInt16) (cmd : Command) (opt : SegmentOption) (data : Bytes) :
    Checked (Option (CmdOnlySegment × Bytes)) :=
  if data.length < 12 then .ok none
  else do
    let sendingNext ← u32FromBe (← slice data 0 4)
    let data ← sliceFrom data 4
    let receivingNext ← u32FromBe (← slice data 4 8)
    let data ← sliceFrom data 4
    let peerRto ← u32FromBe (← slice data 4 8)
    let data ← sliceFrom data 4
    .ok (some (⟨conv,cmd,opt,sendingNext,receivingNext,peerRto⟩,data))

inductive Segment where
  | data (seg : DataSegment)
  | ack (seg : AckSegment)
  | cmdOnly (seg : CmdOnlySegment)
deriving DecidableEq, Repr

def Segment.conv : Segment → UInt16
  | .data seg => seg.conv
  | .ack seg => seg.conv
  | .cmdOnly seg => seg.conv

def Segment.serialize : Segment → Bytes
  | .data seg => seg.serialize
  | .ack seg => seg.serialize
  | .cmdOnly seg => seg.serialize

def readBody (conv : UInt16) (opt : SegmentOption) (data : Bytes) : Command → Checked (Option (Segment × Bytes))
  | .data => do
    let parsed ← DataSegment.parse conv opt data
    .ok (parsed.map fun (seg,remaining) => (.data seg,remaining))
  | .ack => do
    let parsed ← AckSegment.parse conv opt data
    .ok (parsed.map fun (seg,remaining) => (.ack seg,remaining))
  | .terminate => do
    let parsed ← CmdOnlySegment.parse conv .terminate opt data
    .ok (parsed.map fun (seg,remaining) => (.cmdOnly seg,remaining))
  | .ping => do
    let parsed ← CmdOnlySegment.parse conv .ping opt data
    .ok (parsed.map fun (seg,remaining) => (.cmdOnly seg,remaining))

def readSegment (data : Bytes) : Checked (Option (Segment × Bytes)) :=
  if data.length < 4 then .ok none
  else do
    let conv ← u16FromBe (← slice data 0 2)
    let data ← sliceFrom data 2
    let cmdByte ← byteAt data 0
    let opt : SegmentOption := ⟨← byteAt data 1⟩
    let data ← sliceFrom data 2
    match Command.fromByte cmdByte with
    | none => .ok none
    | some cmd => readBody conv opt data cmd

def payloadLength (data : Bytes) : Nat := (be16 ((data.drop 12).take 2)).toNat
def numberCount (data : Bytes) : Nat := (data.getD 12 0).toNat

theorem DataSegment.parse_eq (conv opt data) : DataSegment.parse conv opt data = if data.length < 15 then .ok none
      else if data.length < 14 + payloadLength data then .ok none
      else .ok (some (⟨conv,opt,be32 (data.take 4),be32 ((data.drop 4).take 4),be32 ((data.drop 8).take 4),
        (data.drop 14).take (payloadLength data),0,0⟩,data.drop (14 + payloadLength data))) := by
  unfold DataSegment.parse
  by_cases short : data.length < 15
  · rw [if_pos short,if_pos short]
  · rw [if_neg short,if_neg short]
    simp (disch := (try simp only [length_drop,length_take]); omega) only
      [slice_ok,sliceFrom_ok,u32FromBe_ok,u16FromBe_ok,ok_bind,Nat.sub_zero,drop_drop,drop_zero,Nat.reduceAdd]
    change (if (data.drop 14).length < payloadLength data then _ else _) = _
    have rest : (data.drop 14).length = data.length - 14 := length_drop
    by_cases truncated : data.length < 14 + payloadLength data
    · rw [if_pos truncated,if_pos (by omega)]
    · have fits : payloadLength data ≤ (data.drop 14).length := by omega
      rw [if_neg truncated,if_neg (by omega)]
      change (slice _ 0 (payloadLength data) >>= fun payload =>
        sliceFrom (data.drop 14) (payloadLength data) >>= _) = _
      rw [slice_ok (Nat.zero_le _) fits,sliceFrom_ok fits]
      simp

def numberAt (data : Bytes) (i : Nat) : UInt32 := be32 ((data.drop (i*4)).take 4)

theorem readNumbers_eq (seg) (indices : List Nat) (bounded : ∀ i ∈ indices, (i+1)*4 ≤ data.length) :
    indices.foldlM (AckSegment.readNumber data) seg = .ok {seg with numberList := seg.numberList ++ indices.map (numberAt data)} := by
  induction indices generalizing seg with
  | nil => simp; rfl
  | cons i rest ih =>
    have inside := bounded i (by simp)
    have ordered : i*4 ≤ (i+1)*4 := by omega
    have width : (i+1)*4 - i*4 = 4 := by omega
    have one : AckSegment.readNumber data seg i = .ok (seg.putNumber (numberAt data i)) := by
      unfold AckSegment.readNumber
      rw [slice_ok ordered inside,width,ok_bind,u32FromBe_ok (by simp; omega)]
      rfl
    rw [List.foldlM_cons,one,ok_bind,ih _ (fun j member => bounded j (by simp [member]))]
    simp [AckSegment.putNumber]

theorem AckSegment.parse_eq (conv opt data) : AckSegment.parse conv opt data = if data.length < 13 then .ok none
      else if data.length < 13 + 4*numberCount data then .ok none
      else .ok (some (⟨conv,opt,be32 (data.take 4),be32 ((data.drop 4).take 4),be32 ((data.drop 8).take 4),
        (List.range (numberCount data)).map (numberAt (data.drop 13)),128⟩,data.drop (13 + 4*numberCount data))) := by
  unfold AckSegment.parse
  by_cases short : data.length < 13
  · rw [if_pos short,if_pos short]
  · rw [if_neg short,if_neg short]
    have count : byteAt (data.drop 12) 0 = .ok (data.getD 12 0) := by
      apply byteAt_ok
      rw [List.getElem?_drop,List.getD_eq_getElem?_getD,List.getElem?_eq_getElem (by omega)]
      rfl
    simp (disch := (try simp only [length_drop,length_take]); omega) only
      [slice_ok,sliceFrom_ok,u32FromBe_ok,ok_bind,Nat.sub_zero,drop_drop,drop_zero,Nat.reduceAdd,count]
    change (if (data.drop 13).length < numberCount data*4 then _ else _) = _
    have rest : (data.drop 13).length = data.length - 13 := length_drop
    by_cases truncated : data.length < 13 + 4*numberCount data
    · rw [if_pos truncated,if_pos (by omega)]
    · rw [if_neg truncated,if_neg (by omega)]
      change ((List.range (numberCount data)).foldlM (AckSegment.readNumber (data.drop 13)) _ >>= fun seg =>
        .ok (some (seg,data.drop (13 + numberCount data*4)))) = _
      rw [readNumbers_eq _ _ (fun i member => by have := List.mem_range.mp member; omega)]
      simp [AckSegment.new,ackNumberLimit,Nat.mul_comm]

theorem CmdOnlySegment.parse_eq (conv cmd opt data) : CmdOnlySegment.parse conv cmd opt data = if data.length < 12 then .ok none
      else if data.length < 16 then .error .sliceIndex
      else .ok (some (⟨conv,cmd,opt,be32 (data.take 4),be32 ((data.drop 8).take 4),be32 ((data.drop 12).take 4)⟩,data.drop 12)) := by
  unfold CmdOnlySegment.parse
  by_cases short : data.length < 12
  · rw [if_pos short,if_pos short]
  · rw [if_neg short,if_neg short]
    by_cases narrow : data.length < 16
    · have beyond : (data.drop 8).length < 8 := by simp; omega
      simp (disch := (try simp only [length_drop,length_take]); omega) only
        [slice_ok,sliceFrom_ok,u32FromBe_ok,ok_bind,drop_drop,Nat.reduceAdd,slice_panics beyond,error_bind,if_pos narrow]
    · simp (disch := (try simp only [length_drop,length_take]); omega) only
        [slice_ok,sliceFrom_ok,u32FromBe_ok,ok_bind,drop_drop,drop_zero,Nat.reduceAdd,Nat.reduceSub,if_neg narrow]

theorem readBody_bare (conv opt body) (bare : cmd = .terminate ∨ cmd = .ping) :
    readBody conv opt body cmd = CmdOnlySegment.parse conv cmd opt body >>= fun parsed =>
      .ok (parsed.map fun (seg,remaining) => (.cmdOnly seg,remaining)) := by
  rcases bare with rfl | rfl <;> rfl

theorem readSegment_short (short : data.length < 4) : readSegment data = .ok none := by
  rw [readSegment,if_pos short]

theorem readSegment_header (two : head.length = 2) (cmd opt) (body : Bytes) : readSegment (head ++ cmd :: opt :: body) = match Command.fromByte cmd with
      | none => .ok none
      | some known => readBody (be16 head) ⟨opt⟩ body known := by
  have long : (head ++ cmd :: opt :: body).length = body.length + 4 := by simp; omega
  have front : (head ++ cmd :: opt :: body).take 2 = head := by rw [← two]; simp
  have back : (head ++ cmd :: opt :: body).drop 2 = cmd :: opt :: body := by rw [← two]; simp
  rw [readSegment,if_neg (by omega),slice_ok (Nat.zero_le _) (by omega)]
  simp only [drop_zero,front,ok_bind]
  rw [u16FromBe_ok two,ok_bind,sliceFrom_ok (by omega),back]
  have first : byteAt (cmd :: opt :: body) 0 = .ok cmd := byteAt_ok rfl
  have second : byteAt (cmd :: opt :: body) 1 = .ok opt := byteAt_ok rfl
  have after : sliceFrom (cmd :: opt :: body) 2 = .ok body := sliceFrom_ok (by simp)
  rw [ok_bind,first,ok_bind,second,ok_bind,after,ok_bind]

end AstraCore.KcpSegment
