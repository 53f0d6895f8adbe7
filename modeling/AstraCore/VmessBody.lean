import AstraCore.VmessHandshake

namespace AstraCore.VmessBody
open CheckedBytes NetAddress Crypto VmessHeader ByteStream Dispatcher InboundLink VmessInbound VmessHandshake List
variable {cap : Nat}

def Sealed (crypto : Primitives) (key : Octets 16) (chunk piece : Bytes) : Prop :=
  ∃ size nonce aad ciphertext, piece = size ++ ciphertext ∧ crypto.gcmDecrypt key nonce aad ciphertext = .ok chunk

def Protected (crypto : Primitives) (key : Octets 16) (payload wire : Bytes) : Prop :=
  ∃ chunks pieces, List.Forall₂ (Sealed crypto key) chunks pieces ∧ chunks.flatten = payload ∧ pieces.flatten = wire

theorem sealed_longer (sealed : List.Forall₂ (Sealed crypto key) chunks pieces) : chunks.flatten.length + 16 * chunks.length ≤ pieces.flatten.length := by
  induction sealed with
  | nil => exact Nat.le_refl _
  | cons head tail ih =>
    obtain ⟨size,nonce,aad,ciphertext,rfl,opened⟩ := head
    have width := crypto.gcm_opened _ _ _ _ _ opened
    simp only [flatten_cons,length_append,length_cons]
    omega

theorem raw_protected_iff : Protected crypto key payload payload ↔ payload = [] := by
  constructor
  · rintro ⟨chunks,pieces,sealed,rfl,same⟩
    have longer := sealed_longer sealed
    rw [same] at longer
    obtain rfl : chunks = [] := eq_nil_of_length_eq_zero (by omega)
    rfl
  · rintro rfl
    exact ⟨[],[],.nil,rfl,rfl⟩

-- What a handler writes: its header and, behind it, the body. `taken` is what it takes from its link meanwhile.
structure Transcript where
  header : Bytes
  taken : Bytes
  body : Bytes
  result : Except String Unit

def Transcript.wire (transcript : Transcript) : Bytes := transcript.header ++ transcript.body

def relay (copies : Bool) (link : List (Segment UInt8 cap)) : Bytes := if copies then text link else []

structure OutboundCall where
  handler : OutboundHandler
  session : Session
  draws : OutboundDraws
  dialed : Except String Unit
  write : Bytes → Except String Unit
  read : Bytes → Except String Bytes
  ended : Except String Unit

namespace OutboundCall
variable (crypto : Primitives) (call : OutboundCall)

def handshake : Except String Bytes :=
  call.handler.handshake crypto call.session call.draws call.dialed call.write call.read

def copies : Bool := (call.handshake crypto).isOk

def request : Bytes :=
  match call.session.target,call.dialed with
  | some target,.ok () =>
    let requestBytes := call.handler.buildRequest crypto (call.handler.cmdKey crypto) target call.draws
    if (call.write requestBytes).isOk then requestBytes else []
  | _,_ => []

def process (link : List (Segment UInt8 cap)) : Transcript :=
  ⟨call.request crypto,relay (call.copies crypto) link,relay (call.copies crypto) link,
    (call.handshake crypto).bind fun _ => call.ended.mapError ("vmess copy: " ++ ·)⟩

end OutboundCall

structure InboundCall where
  handler : Handler
  now : Nat
  session : Session
  around : Circumstances
  incoming : Incoming 4096

namespace InboundCall
variable (crypto : Primitives) (call : InboundCall)

def outcome : Outcome := call.handler.process crypto call.now call.session call.around call.incoming

def copies : Bool := (call.outcome crypto).dispatch.isSome && call.around.dispatched.isOk

def process (link : List (Segment UInt8 cap)) : Transcript :=
  ⟨(call.outcome crypto).response,relay (call.copies crypto) link,relay (call.copies crypto) link,(call.outcome crypto).result⟩

end InboundCall

theorem relay_protected_iff : Protected crypto key (relay copies link) (relay copies link) ↔ copies = false ∨ link = [] := by
  rw [raw_protected_iff,relay]
  cases copies with
  | false => simp
  | true =>
    rw [if_pos rfl]
    cases link with
    | nil => simp
    | cons segment rest =>
      refine iff_of_false ?_ nofun
      intro empty
      have lengths := congrArg List.length empty
      rw [text_cons,length_append,length_nil] at lengths
      omega

def TellsApart (observer : Bytes → Bool) (first second : Bytes → Prop) : Prop :=
  (∀ wire, first wire → observer wire = true) ∧ ∀ wire, second wire → observer wire = false

def SameBoundaries (first second : List (Segment UInt8 cap)) : Prop :=
  first.map (·.val.length) = second.map (·.val.length)

theorem SameBoundaries.length (same : SameBoundaries first second) : (text first).length = (text second).length := by
  have sums := congrArg List.sum same
  simpa [text] using sums

theorem SameBoundaries.eq_of_text (same : SameBoundaries first second) (texts : text first = text second) : first = second := by
  induction first generalizing second with
  | nil =>
    cases second with
    | nil => rfl
    | cons _ _ => cases same
  | cons segment rest ih =>
    cases second with
    | nil => cases same
    | cons other others =>
      obtain ⟨width,behind⟩ := List.cons.inj same
      obtain ⟨here,later⟩ := append_inj texts width
      rw [Subtype.ext here,ih behind later]

section
variable {Call : Type} (copies : Primitives → Call → Bool) (process : Primitives → Call → List (Segment UInt8 cap) → Transcript)

-- All that can be seen of the reads of a link: under any library, any secrets and any counterpart that make for copying.
def Wires (link : List (Segment UInt8 cap)) (wire : Bytes) : Prop :=
  ∃ crypto call, copies crypto call = true ∧ (process crypto call link).wire = wire

variable {copies process}

theorem told_apart_iff (raw : ∀ crypto call link, copies crypto call = true → (process crypto call link).body = text link)
    (possible : ∃ crypto call, copies crypto call = true) (same : SameBoundaries first second) :
    (∃ observer, TellsApart observer (Wires copies process first) (Wires copies process second)) ↔ first ≠ second := by
  constructor
  · rintro ⟨observer,yes,no⟩ rfl
    obtain ⟨crypto,call,reached⟩ := possible
    have seen : Wires copies process first (process crypto call first).wire := ⟨crypto,call,reached,rfl⟩
    cases (yes _ seen).symm.trans (no _ seen)
  · intro different
    refine ⟨fun wire => decide (text first <:+ wire),?_,?_⟩
    · rintro wire ⟨crypto,call,reached,rfl⟩
      exact decide_eq_true ⟨_,by rw [Transcript.wire,raw crypto call first reached]⟩
    · rintro wire ⟨crypto,call,reached,rfl⟩
      refine decide_eq_false fun ends => different (same.eq_of_text ?_)
      have shown : text second <:+ (process crypto call second).wire := ⟨_,by rw [Transcript.wire,raw crypto call second reached]⟩
      exact (suffix_of_suffix_length_le ends shown (Nat.le_of_eq same.length)).eq_of_length same.length

end

def sharedMeeting : Meeting := { sampleMeeting with draws := ⟨sampleSession,sampleSession,sampleDraws⟩ }
def sharedRequest : Incoming 4096 := ⟨[⟨sharedMeeting.sent marked,by decide +kernel⟩],none⟩
def sharedCall : OutboundCall := ⟨sharedMeeting.outbound,sharedMeeting.departure,sharedMeeting.draws,.ok (),fun _ => .ok (),
  fun _ => .ok (sharedMeeting.reply marked sharedRequest),.ok ()⟩
def answeringCall : InboundCall := ⟨sharedMeeting.inbound,sharedMeeting.now,sharedMeeting.arrival,sharedMeeting.around,sharedRequest⟩

theorem sharedCall_copies : sharedCall.copies marked = true := by decide +kernel
theorem answeringCall_copies : answeringCall.copies marked = true := by decide +kernel

theorem body_protected_iff (crypto : Primitives) (key : Octets 16) (outbound : OutboundCall) (inbound : InboundCall)
    (link other : List (Segment UInt8 cap)) :
    (Protected crypto key (outbound.process crypto link).taken (outbound.process crypto link).body ↔
      outbound.copies crypto = false ∨ link = []) ∧
    (Protected crypto key (inbound.process crypto link).taken (inbound.process crypto link).body ↔
      inbound.copies crypto = false ∨ link = []) ∧
    (SameBoundaries link other →
      ((∃ observer, TellsApart observer (Wires OutboundCall.copies OutboundCall.process link)
        (Wires OutboundCall.copies OutboundCall.process other)) ↔ link ≠ other) ∧
      ((∃ observer, TellsApart observer (Wires InboundCall.copies InboundCall.process link)
        (Wires InboundCall.copies InboundCall.process other)) ↔ link ≠ other)) := by
  refine ⟨relay_protected_iff,relay_protected_iff,?_⟩
  intro same
  constructor
  · exact told_apart_iff (fun _ _ _ reached => if_pos reached) ⟨marked,sharedCall,sharedCall_copies⟩ same
  · exact told_apart_iff (fun _ _ _ reached => if_pos reached) ⟨marked,answeringCall,answeringCall_copies⟩ same

def samplePayload : List (Segment UInt8 8192) := [⟨[1,2,3],by decide⟩]

-- The request announces AES-128-GCM, chunks and masks, and both sides write their payload as it is.
theorem payload_sent_raw : (sharedMeeting.outbound.requestFor sharedMeeting.target).security = .aes128Gcm ∧
    (sharedMeeting.outbound.requestFor sharedMeeting.target).option = 0x05 ∧
    (sharedCall.process marked samplePayload).wire = sharedMeeting.sent marked ++ [1,2,3] ∧
    (answeringCall.process marked samplePayload).wire = (answeringCall.outcome marked).response ++ [1,2,3] ∧
    ∀ key, ¬ Protected marked key [1,2,3] [1,2,3] := by
  refine ⟨rfl,rfl,by decide +kernel,by decide +kernel,?_⟩
  intro key
  rw [raw_protected_iff]
  exact nofun

end AstraCore.VmessBody
