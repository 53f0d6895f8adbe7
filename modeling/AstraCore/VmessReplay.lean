import AstraCore.Machine
import AstraCore.VmessInbound

namespace AstraCore.VmessReplay
open CheckedBytes NetAddress Crypto ProtoHeader VmessHeader ByteStream Dispatcher InboundLink VmessInbound Machine List
variable (crypto : Primitives) (handler : Handler)

def headerLength (authId cmdKey : Octets 16) (buffer : Bytes) : Nat :=
  match openVMessAEADHeader crypto cmdKey authId buffer with
  | .ok (_,_,count) => count
  | .error _ => 0

def wire (accepted : Accepted) : Bytes :=
  accepted.authId.val ++ accepted.buffer.take (headerLength crypto accepted.authId accepted.cmdKey accepted.buffer)

structure Connection where
  session : Session
  around : Circumstances
  incoming : Incoming 4096

def admits (now : Nat) (connection : Connection) : Option Bytes :=
  match handler.accept crypto now connection.incoming with
  | .error _ => none
  | .ok accepted =>
    if (serve labels connection.session connection.around connection.incoming.failure (accepted.answer crypto)).dispatch.isSome then
      some (wire crypto accepted)
    else none

def ValidWire (bytes : Bytes) : Prop :=
  ∃ (authId cmdKey : Octets 16) (header plaintext lenPlain : Bytes) (request : RequestHeader),
    bytes = authId.val ++ header ∧ Valid crypto handler authId cmdKey header plaintext lenPlain request

-- A connection that brings these bytes whole: no read ends behind the limit inside them, and the answer gets out.
structure Brings (connection : Connection) (bytes : Bytes) : Prop where
  front : bytes <+: text connection.incoming.segments
  passes : Unbroken connection.incoming.segments (bytes.length - 16)
  answered : connection.around.written = .ok ()

variable {crypto handler}

theorem wire_valid (valid : Valid crypto handler authId cmdKey header plaintext lenPlain request) :
    wire crypto ⟨authId,cmdKey,header ++ extra,request,server,rest⟩ = authId.val ++ header := by
  have length : headerLength crypto authId cmdKey (header ++ extra) = header.length := by
    rw [headerLength,open_record valid.sealed]
  rw [wire]
  rw [length,take_left]

theorem admits_iff : admits crypto handler now connection = some bytes ↔ ValidWire crypto handler bytes ∧ Brings connection bytes := by
  rw [admits]
  constructor
  · intro admitted
    split at admitted
    · cases admitted
    rename_i accepted accepts
    split at admitted
    · rename_i called
      obtain ⟨header,extra,plaintext,lenPlain,buffer,valid,stream⟩ := accept_sound accepts
      have bytes_eq : bytes = accepted.authId.val ++ header := by
        rw [← Option.some.inj admitted,← wire_valid valid,← buffer]
      refine ⟨⟨_,_,_,_,_,_,bytes_eq,valid⟩,?_,?_,?_⟩
      · rw [bytes_eq,stream,← append_assoc]
        exact prefix_append ..
      · rw [bytes_eq,length_append,accepted.authId.property,Nat.add_sub_cancel_left]
        exact (accept_passes valid now connection.incoming stream).mp ⟨accepted,accepts⟩
      · exact (serve_dispatched labels connection.session connection.around connection.incoming.failure (accepted.answer crypto)).mp called
    · cases admitted
  · rintro ⟨⟨authId,cmdKey,header,plaintext,lenPlain,request,rfl,valid⟩,⟨body,stream⟩,passes,answered⟩
    rw [append_assoc] at stream
    rw [length_append,authId.property,Nat.add_sub_cancel_left] at passes
    obtain ⟨accepted,accepts⟩ := (accept_passes valid now connection.incoming stream.symm).mpr passes
    rcases accept_valid valid now connection.incoming stream.symm with ⟨extra,history,rest,same,-⟩ | refused
    · rw [same]
      dsimp only
      rw [if_pos ((serve_dispatched ..).mpr answered),wire_valid valid]
    · rw [refused] at accepts
      cases accepts

variable (crypto handler) in
structure Entry where
  time : Nat
  bytes : Bytes
  valid : ValidWire crypto handler bytes

variable (crypto handler) in
structure State where
  clock : Nat
  admitted : List (Entry crypto handler)

structure Arrival where
  elapsed : Nat
  connection : Connection

section
variable (s : State crypto handler)

def advance (arrival : Arrival) : Option (State crypto handler) :=
  match found : admits crypto handler (s.clock + arrival.elapsed) arrival.connection with
  | none => some ⟨s.clock + arrival.elapsed,s.admitted⟩
  | some bytes =>
    some ⟨s.clock + arrival.elapsed,⟨s.clock + arrival.elapsed,bytes,((admits_iff).mp found).1⟩ :: s.admitted⟩

def Once : Prop :=
  s.admitted.Pairwise fun later earlier => later.bytes = earlier.bytes → earlier.time + 180 ≤ later.time

def Unrepeated (arrival : Arrival) : Prop :=
  ∀ entry ∈ s.admitted, s.clock + arrival.elapsed < entry.time + 180 → ¬ Brings arrival.connection entry.bytes

theorem advance_cases (arrival) : (admits crypto handler (s.clock + arrival.elapsed) arrival.connection = none ∧
      advance s arrival = some ⟨s.clock + arrival.elapsed,s.admitted⟩) ∨
    ∃ bytes valid, admits crypto handler (s.clock + arrival.elapsed) arrival.connection = some bytes ∧
      advance s arrival = some ⟨s.clock + arrival.elapsed,⟨s.clock + arrival.elapsed,bytes,valid⟩ :: s.admitted⟩ := by
  unfold advance
  split
  · rename_i none
    exact .inl ⟨none,rfl⟩
  · rename_i bytes found
    exact .inr ⟨bytes,((admits_iff).mp found).1,found,rfl⟩

theorem advance_once (arrival next) (once : Once s) (step : advance s arrival = some next) : Once next ↔ Unrepeated s arrival := by
  rcases advance_cases s arrival with ⟨refused,moved⟩ | ⟨bytes,valid,admitted,moved⟩
  · cases step.symm.trans moved
    refine iff_of_true once ?_
    intro entry _ _ brings
    rw [(admits_iff).mpr ⟨entry.valid,brings⟩] at refused
    cases refused
  · cases step.symm.trans moved
    have again : ∀ entry : Entry crypto handler, Brings arrival.connection entry.bytes ↔ bytes = entry.bytes := by
      intro entry
      rw [← Option.some.injEq,← admitted,admits_iff]
      exact (and_iff_right entry.valid).symm
    rw [Once,pairwise_cons]
    refine (and_iff_left once).trans (forall₂_congr fun entry _ => ?_)
    rw [again,← not_lt]
    exact ⟨fun late recent same => late same recent,fun late same recent => late recent same⟩

end

variable (crypto handler) in
def State.start (clock : Nat) : State crypto handler := ⟨clock,[]⟩

theorem replay_refused_iff (clock : Nat) (arrivals : List Arrival) :
    Always advance Once (State.start crypto handler clock) arrivals ↔
      Meets advance Unrepeated (State.start crypto handler clock) arrivals := by
  refine always_iff_meets ?_ advance_once List.Pairwise.nil
  intro s arrival _
  rcases advance_cases s arrival with ⟨-,moved⟩ | ⟨bytes,valid,-,moved⟩
  · exact ⟨_,moved⟩
  · exact ⟨_,moved⟩

section
variable (admitted : admits crypto handler now connection = some bytes)
include admitted

theorem repeated_admitted (later) : admits crypto handler later connection = some bytes :=
  (admits_iff).mpr ((admits_iff).mp admitted)

theorem repeat_not_once (s : State crypto handler) (soon : second < 180) :
    ∃ last, run advance s [⟨first,connection⟩,⟨second,connection⟩] = some last ∧ ¬ Once last := by
  have step : ∀ (s : State crypto handler) elapsed, ∃ valid, advance s ⟨elapsed,connection⟩ =
      some ⟨s.clock + elapsed,⟨s.clock + elapsed,bytes,valid⟩ :: s.admitted⟩ := by
    intro s elapsed
    have again := repeated_admitted admitted (s.clock + elapsed)
    rcases advance_cases s ⟨elapsed,connection⟩ with ⟨refused,-⟩ | ⟨other,valid,found,moved⟩
    · cases refused.symm.trans again
    · cases found.symm.trans again
      exact ⟨valid,moved⟩
  obtain ⟨valid,moved⟩ := step s first
  obtain ⟨valid',moved'⟩ := step ⟨s.clock + first,⟨s.clock + first,bytes,valid⟩ :: s.admitted⟩ second
  refine ⟨_,by rw [run,moved,Option.bind_some,run,moved',Option.bind_some,run],?_⟩
  intro once
  have late := rel_of_pairwise_cons once mem_cons_self rfl
  dsimp only at late
  omega

end

def sampleConnection : Connection := ⟨aimed,undisturbed,apart⟩

theorem sample_admitted_twice :
    ∃ last, run advance (State.start plain sampleHandler 1700000001) [⟨0,sampleConnection⟩,⟨1,sampleConnection⟩] = some last ∧
      ¬ Once last :=
  repeat_not_once (by decide +kernel :
    admits plain sampleHandler 1700000001 sampleConnection = some (sampleAuthId.val ++ sampleSealed)) _ (by decide)

end AstraCore.VmessReplay
