import AstraCore.MuxSessionIo

namespace AstraCore.MuxStream
open CheckedBytes NetAddress MuxFrame MuxSessionIo

structure MuxWriter where
  sessionId : UInt16
  followup : Bool
  target : Option Destination
  written : Bytes

section
variable (sessionId : UInt16)

def MuxWriter.new (target : Option Destination) : MuxWriter := ⟨sessionId,false,target,[]⟩

section
variable (writer : MuxWriter)

def MuxWriter.nextStatus : MuxWriter × SessionStatus :=
  if writer.followup then (writer,.keep) else ({writer with followup := true},.new)

-- The target is added when the flag is still unset, which is asked for behind the branch that sets it.
def MuxWriter.nextMeta (isData : Bool) : MuxWriter × FrameMetadata :=
  let (writer,status) := writer.nextStatus
  let metadata := FrameMetadata.new writer.sessionId status
  let metadata := if isData then {metadata with option := metadata.option.set FrameOption.data} else metadata
  let metadata := if writer.followup then metadata else {metadata with target := writer.target}
  (writer,metadata)

def MuxWriter.writeFrame (metadata : FrameMetadata) (data : Option Bytes) : MuxWriter :=
  {writer with written := writer.written ++ encodeFrame metadata data}

def MuxWriter.writeMetaOnly : MuxWriter :=
  let (writer,metadata) := writer.nextMeta false
  writer.writeFrame metadata none

def MuxWriter.writeData (data : Bytes) : MuxWriter :=
  let (writer,metadata) := writer.nextMeta true
  writer.writeFrame metadata (some data)

def MuxWriter.close (hasError : Bool) : MuxWriter :=
  let metadata := FrameMetadata.new writer.sessionId .end_
  writer.writeFrame (if hasError then {metadata with option := metadata.option.set FrameOption.error} else metadata) none

inductive Call where
  | writeMetaOnly
  | writeData (data : Bytes)

def Call.data : Call → Option Bytes
  | .writeMetaOnly => none
  | .writeData data => some data

def MuxWriter.apply : Call → MuxWriter
  | .writeMetaOnly => writer.writeMetaOnly
  | .writeData data => writer.writeData data

end

def MuxWriter.stream (writer : MuxWriter) (calls : List Call) (hasError : Bool) : Bytes :=
  ((calls.foldl MuxWriter.apply writer).close hasError).written

-- What reading the stream should give: a frame for each call, the first one opening the session, and then the end.
structure Framed (target : Destination) (calls : List Call) (opening : Frame) (others : List Frame) (final : Frame) : Prop where
  opens : opening.1.status = .new ∧ opening.1.target = some target
  keeps : ∀ frame ∈ others, frame.1.status = .keep
  data : (opening :: others).map Prod.snd = calls.map Call.data
  ends : final.1.status = .end_ ∧ final.2 = none

def Announced (target : Destination) (calls : List Call) (stream : Bytes) : Prop :=
  ∃ opening others final, Framed target calls opening others final ∧
    readFrames (others.length + 2) stream = .ok (opening :: others ++ [final],[])

def Call.frame (status : SessionStatus) (call : Call) : Frame :=
  ({FrameMetadata.new sessionId status with
    option := if call.data.isSome then FrameOption.new.set FrameOption.data else FrameOption.new},call.data)

end

section
variable (writer : MuxWriter)

def MuxWriter.status : SessionStatus := if writer.followup then .keep else .new

theorem nextMeta_eq (call : Call) : writer.nextMeta call.data.isSome = ({writer with followup := true},(call.frame writer.sessionId writer.status).1) := by
  obtain ⟨sessionId,followup,target,written⟩ := writer
  cases followup <;> cases call <;> rfl

theorem apply_eq : writer.apply call = {writer with
      followup := true
      written := writer.written ++ wireFrames [call.frame writer.sessionId writer.status]} := by
  have next := nextMeta_eq writer call
  rw [wireFrames,List.flatMap_singleton]
  cases call with
  | writeMetaOnly =>
    exact congrArg (fun made : MuxWriter × FrameMetadata => made.1.writeFrame made.2 none) next
  | writeData data =>
    exact congrArg (fun made : MuxWriter × FrameMetadata => made.1.writeFrame made.2 (some data)) next

theorem wireFrames_append (front) : wireFrames (front ++ back) = wireFrames front ++ wireFrames back :=
  List.flatMap_append

theorem close_eq : (writer.close hasError).written = writer.written ++ wireFrames [closeFrame writer.sessionId hasError] := by
  cases hasError <;> rfl

theorem stream_followup (following : writer.followup = true) : writer.stream calls hasError = writer.written ++
      wireFrames (calls.map (Call.frame writer.sessionId .keep) ++ [closeFrame writer.sessionId hasError]) := by
  induction calls generalizing writer with
  | nil => exact close_eq writer
  | cons call rest later =>
    have kept : writer.status = .keep := if_pos following
    change (writer.apply call).stream rest hasError = _
    rw [apply_eq,kept,later _ rfl]
    rw [List.append_assoc,← wireFrames_append]
    rfl

end

theorem stream_cons (sessionId target) : (MuxWriter.new sessionId target).stream (call :: rest) hasError =
      wireFrames (call.frame sessionId .new :: rest.map (Call.frame sessionId .keep) ++ [closeFrame sessionId hasError]) := by
  change ((MuxWriter.new sessionId target).apply call).stream rest hasError = _
  rw [apply_eq,stream_followup _ rfl]
  exact (wireFrames_append _).symm

theorem opening_unreadable (call : Call) :
    readFrame (encodeFrame (call.frame sessionId .new).1 call.data ++ rest) = .error "truncated: missing target network" := by
  have size : (call.frame sessionId .new).1.encode.length = 4 := rfl
  have read : (be16 (u16ToBe (UInt16.ofNat (call.frame sessionId .new).1.encode.length))).toNat = 4 := by rw [size]; rfl
  rw [readFrame]
  simp only [encodeFrame,List.append_assoc]
  rw [readExact_front (u16ToBe_length _),ok_bind]
  rw [readExact_front (size.trans read.symm)]
  rfl

theorem stream_unreadable (some_ : calls ≠ []) :
    readFrames (count + 1) ((MuxWriter.new sessionId target).stream calls hasError) = .error "truncated: missing target network" := by
  cases calls with
  | nil => exact absurd rfl some_
  | cons call rest =>
    rw [stream_cons]
    exact congrArg (· >>= _) (opening_unreadable call)

theorem never_announced (sessionId : UInt16) (target : Destination) (calls : List Call) (hasError : Bool) :
    ¬ Announced target calls ((MuxWriter.new sessionId (some target)).stream calls hasError) := by
  rintro ⟨opening,others,final,framed,reads⟩
  by_cases none_ : calls = []
  · have each := framed.data
    rw [none_] at each
    cases each
  · rw [stream_unreadable none_] at reads
    cases reads

-- A session to 10.0.0.1:443 that writes one byte and closes.
theorem opened_unannounced : ¬ Announced ⟨.ipv4 ⟨[10,0,0,1],rfl⟩,⟨443⟩,.tcp⟩ [.writeData [1]]
      ((MuxWriter.new 1 (some ⟨.ipv4 ⟨[10,0,0,1],rfl⟩,⟨443⟩,.tcp⟩)).stream [.writeData [1]] false) := by
  rintro ⟨opening,others,final,-,reads⟩
  cases reads

end AstraCore.MuxStream
