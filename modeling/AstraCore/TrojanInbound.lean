import AstraCore.InboundLink
import AstraCore.TextScan
import AstraCore.TrojanProtocol

namespace AstraCore.Trojan
open CheckedBytes NetAddress LossyUtf8 ByteStream Dispatcher InboundLink PolledStream TextScan List

structure Account where
  key : Octets 56

structure Fallback where
  name : String
  alpn : String
  path : String
  dest : String
deriving DecidableEq

structure ServerConfig where
  users : List Account
  fallbacks : List Fallback

structure Handler where
  config : ServerConfig

def fallbackBufSize : Nat := 2048

section
variable (handler : Handler)

def Handler.findUser (key : Octets 56) : Option Nat :=
  handler.config.users.findIdx? (fun user => decide (user.key = key))

def Fallback.matches_ (fb : Fallback) (sni alpn path : Text) : Bool :=
  (fb.name.toList == [] || fb.name.toList == sni) && (fb.alpn.toList == [] || fb.alpn.toList == alpn) &&
    (fb.path.toList == [] || decide (fb.path.toList <:+: path))

def Handler.matchFallback (sni alpn path : Text) : Option Fallback :=
  handler.config.fallbacks.find? (fun fb => fb.matches_ sni alpn path)

def Fallback.address (fb : Fallback) : String := if ':' ∈ fb.dest.toList then fb.dest else fb.dest ++ ":443"

def isAsciiHexdigit (b : UInt8) : Bool := (48 ≤ b && b ≤ 57) || (65 ≤ b && b ≤ 70) || (97 ≤ b && b ≤ 102)
def isAsciiLowercase (b : UInt8) : Bool := 97 ≤ b && b ≤ 122

def looksLikeTrojan (data : Bytes) : Bool :=
  if data.length < 58 then false
  else (data.take 56).all (fun b => isAsciiHexdigit b || isAsciiLowercase b) && (data.drop 56).take 2 == crlf

def word16 (data : Bytes) (pos : Nat) : Nat := (be16 ((data.drop pos).take 2)).toNat

-- The loop over the extensions of a ClientHello. A name that cannot be used is skipped together with what was read of it.
def sniLoop (data : Bytes) (extEnd pos : Nat) : Text :=
  if pos + 4 ≤ extEnd then
    let extType := word16 data pos
    let extDataLen := word16 data (pos + 2)
    let pos := pos + 4
    if extType = 0 ∧ pos + 2 ≤ extEnd then
      let pos := pos + 2
      if pos + 3 ≤ extEnd then
        let nameLen := word16 data (pos + 1)
        let pos := pos + 3
        match if pos + nameLen ≤ data.length then fromUtf8 ((data.drop pos).take nameLen) else none with
        | some name => name.toList
        | none => sniLoop data extEnd (pos + extDataLen)
      else sniLoop data extEnd (pos + extDataLen)
    else sniLoop data extEnd (pos + extDataLen)
  else []
termination_by extEnd - pos

section
variable (data : Bytes)

-- Every index stands behind a length check, so the default of `getD` is never read.
def extractSniFromClientHello : Text :=
  if data.length < 50 ∨ data.getD 0 0 ≠ 0x16 then []
  else
    let pos := 43
    let pos := pos + 1 + (data.getD pos 0).toNat
    if pos + 1 ≥ data.length then []
    else
      let pos := pos + 2 + word16 data pos
      if pos ≥ data.length then []
      else
        let pos := pos + 1 + (data.getD pos 0).toNat
        if pos + 1 ≥ data.length then []
        else
          let extEnd := pos + 2 + word16 data pos
          if extEnd > data.length then [] else sniLoop data extEnd (pos + 2)

def hostOf (line : Text) : Option Text :=
  if "host:".toList <+: toLowercase line then some (trim (line.drop 5))
  else if ":authority:".toList <+: toLowercase line then some (trim (line.drop 11))
  else none

def extractHttpPath : Text :=
  let s := ((fromUtf8 data).getD "").toList
  match (lines s).findSome? hostOf with
  | some host => host
  | none =>
    match (lines s).head? with
    | some line =>
      if ("GET ".toList <+: line ∨ "POST ".toList <+: line) ∧ (Text.bytes line).length > 5 then (line.splitOn ' ').getD 1 []
      else []
    | none => []

inductive Decision where
  | nothing
  | fallback (fb : Fallback)
  | refused
  | panicked
  | accepted (user : Nat) (target : Destination)
deriving DecidableEq

def Handler.admission : Reading (Nat × Destination × Nat) :=
  if data.length < 58 then .error (.error "trojan inbound: header too short")
  else do
    let (header,headerSize) ← readHeaderFromSlice data
    match handler.findUser header.key with
    | none => .error (.error "trojan inbound: unknown user")
    | some user =>
      if header.destination.network ≠ .tcp then .error (.error "trojan inbound: non-TCP not supported yet")
      else .ok (user,header.destination,headerSize)

def Handler.diverts : Option Fallback :=
  if handler.config.fallbacks ≠ [] ∧ looksLikeTrojan data = false then
    handler.matchFallback (extractSniFromClientHello data) [] (extractHttpPath data)
  else none

end

-- What surrounds a call: whether a fallback is reached, what the dispatcher answers, how many bytes the destination takes
-- before writing to it fails, and how copying ends otherwise.
structure Surroundings where
  connected : String → Except String Unit
  dispatched : Except String Unit
  accepts : Option (Nat × String)
  ended : Except String Unit

structure Outcome where
  decision : Decision
  dispatch : Option (Session × Destination)
  forwarded : Bytes
  result : Reading Unit

section
variable (around : Surroundings)

def Surroundings.hand (write copy : String) (first rest : Bytes) : Bytes × Reading Unit :=
  match around.accepts with
  | none => (first ++ rest,labelled copy (fallible around.ended))
  | some (count,e) =>
    if count < first.length then (first.take count,.error (.error (write ++ e)))
    else if count < (first ++ rest).length then ((first ++ rest).take count,.error (.error (copy ++ e)))
    else (first ++ rest,labelled copy (fallible around.ended))

def outSession (target : Destination) : Session :=
  ⟨some ⟨target,none,none,""⟩,some ⟨target,target,none,""⟩,some ⟨some "trojan",none,∅,false⟩⟩

def Handler.serve (data rest : Bytes) : Outcome :=
  match handler.diverts data with
  | some fb =>
    match around.connected fb.address with
    | .error e => ⟨.fallback fb,none,[],.error (.error ("fallback failed: fallback connect " ++ fb.address ++ ": " ++ e))⟩
    | .ok () =>
      let (forwarded,result) := around.hand "fallback write: " "fallback copy: " data rest
      ⟨.fallback fb,none,forwarded,result⟩
  | none =>
    match handler.admission data with
    | .error (.panic fault) => ⟨.panicked,none,[],.error (.panic fault)⟩
    | .error stop => ⟨.refused,none,[],.error stop⟩
    | .ok (user,target,headerSize) =>
      let called := some (outSession target,target)
      match around.dispatched with
      | .error e => ⟨.accepted user target,called,[],.error (.error e)⟩
      | .ok () =>
        let (forwarded,result) := around.hand "trojan: write remaining: " "trojan copy: " (data.drop headerSize) rest
        ⟨.accepted user target,called,forwarded,result⟩

def Handler.process (incoming : Incoming fallbackBufSize) : Outcome :=
  match incoming.segments with
  | [] =>
    match incoming.failure with
    | some e => ⟨.refused,none,[],.error (.error ("trojan inbound: read: " ++ e))⟩
    | none => ⟨.nothing,none,[],.ok ()⟩
  | first :: rest => handler.serve around first.val (text rest)

end

def Handler.decide (data : Bytes) : Decision :=
  match handler.diverts data with
  | some fb => .fallback fb
  | none =>
    match handler.admission data with
    | .error (.panic _) => .panicked
    | .error _ => .refused
    | .ok (user,target,_) => .accepted user target

theorem serve_decision : (handler.serve around data rest).decision = handler.decide data := by
  unfold Handler.serve Handler.decide
  cases handler.diverts data with
  | some fb =>
    dsimp only
    cases around.connected fb.address <;> rfl
  | none =>
    cases handler.admission data with
    | error stop => cases stop <;> rfl
    | ok admitted =>
      cases around.dispatched <;> rfl

end

def Surroundings.taken (around : Surroundings) (bytes : Bytes) : Bytes :=
  match around.accepts with
  | none => bytes
  | some (count,_) => bytes.take count

theorem hand_taken (around : Surroundings) : (around.hand write copy first rest).1 = around.taken (first ++ rest) := by
  unfold Surroundings.hand Surroundings.taken
  cases around.accepts with
  | none => rfl
  | some limit =>
    dsimp only
    split
    · rw [take_append_of_le_length (by omega)]
    · split
      · rfl
      · rw [take_of_length_le (by omega)]

theorem diverted_forwards (diverted : Handler.decide handler data = .fallback fb) : (handler.serve around data rest).forwarded =
      if (around.connected fb.address).isOk then around.taken (data ++ rest) else [] := by
  unfold Handler.decide at diverted
  unfold Handler.serve
  split at diverted
  · cases diverted
    cases around.connected fb.address with
    | error e => rfl
    | ok _ => exact hand_taken around
  · split at diverted <;> cases diverted

theorem refused_forwards (refused : Handler.decide handler data = .refused) : (handler.serve around data rest).forwarded = [] := by
  unfold Handler.decide at refused
  unfold Handler.serve
  split at refused
  · cases refused
  · split at refused
    · cases refused
    · dsimp only
    · cases refused

section
variable (handler : Handler)

def Handler.catchAll : Option Fallback := handler.matchFallback [] [] []

theorem hostOf_short (short : line.length ≤ 1) : hostOf line = none := by
  have lower := toLowercase_length line
  have host : ¬ "host:".toList <+: toLowercase line := by
    intro front
    have width := front.length_le
    simp at width
    omega
  have authority : ¬ ":authority:".toList <+: toLowercase line := by
    intro front
    have width := front.length_le
    simp at width
    omega
  rw [hostOf,if_neg host,if_neg authority]

theorem path_single (b) : extractHttpPath [b] = [] := by
  have short : ((fromUtf8 [b]).getD "").toList.length ≤ 1 := by
    cases decoded : fromUtf8 [b] with
    | none => simp
    | some s =>
      have bytes := chars_le_bytes s.toList
      have encoded : s.toList.flatMap String.utf8EncodeChar = [b] := fromUtf8_eq_some decoded
      rw [encoded] at bytes
      exact bytes
  generalize whole : ((fromUtf8 [b]).getD "").toList = s at short
  have bound : ∀ line ∈ lines s, line.length ≤ 1 := fun line member => (lines_length s member).trans short
  have hostless : (lines s).findSome? hostOf = none := by
    rw [findSome?_eq_none_iff]
    exact fun line member => hostOf_short (bound line member)
  simp only [extractHttpPath,whole,hostless]
  cases first : (lines s).head? with
  | none => rfl
  | some line =>
    have one := bound line (mem_of_head? first)
    apply if_neg
    rintro ⟨get | post,-⟩
    · have width := get.length_le
      simp at width
      omega
    · have width := post.length_le
      simp at width
      omega

theorem matchFallback_none (without : handler.config.fallbacks = []) : handler.matchFallback sni alpn path = none := by
  rw [Handler.matchFallback,without]
  rfl

theorem decide_single : handler.decide [b] = match handler.catchAll with
      | some fb => .fallback fb
      | none => .refused := by
  have foreign : looksLikeTrojan [b] = false := rfl
  have short : handler.admission [b] = .error _ := rfl
  have diverted : handler.diverts [b] = handler.catchAll := by
    unfold Handler.diverts
    split
    · rw [path_single]
      rfl
    · rename_i other
      have without : handler.config.fallbacks = [] := by simpa [foreign] using other
      exact (matchFallback_none handler without).symm
  unfold Handler.decide
  rw [diverted,short]

-- The first bytes of a stream, however many of them one read returns, tell the handler no more than its first byte does:
-- no fallback is chosen for its server name or path, and there is no key in front that turns it into a request.
def Steady (stream : Bytes) : Prop :=
  (∀ n, 0 < n → n ≤ fallbackBufSize → n ≤ stream.length →
    handler.matchFallback (extractSniFromClientHello (stream.take n)) [] (extractHttpPath (stream.take n)) = handler.catchAll) ∧
    if handler.catchAll.isSome then looksLikeTrojan stream = false else (stream.drop 56).take 2 ≠ crlf

theorem line_take {stream : Bytes} (enough : 58 ≤ n) : ((stream.take n).drop 56).take 2 = (stream.drop 56).take 2 := by
  rw [drop_take,take_take,Nat.min_eq_left (by omega)]

theorem looksLikeTrojan_take {stream : Bytes} (enough : 58 ≤ n) : looksLikeTrojan (stream.take n) = looksLikeTrojan stream := by
  unfold looksLikeTrojan
  rw [line_take enough,take_take,Nat.min_eq_left (by omega),length_take]
  by_cases short : stream.length < 58
  · rw [if_pos (by omega),if_pos short]
  · rw [if_neg (by omega),if_neg short]

theorem foreign_without_line (other : (stream.drop 56).take 2 ≠ crlf) : looksLikeTrojan stream = false := by
  unfold looksLikeTrojan
  split
  · rfl
  · simp [other]

theorem foreign_take (foreign : looksLikeTrojan stream = false) : looksLikeTrojan (stream.take n) = false := by
  by_cases enough : 58 ≤ n
  · rw [looksLikeTrojan_take enough]
    exact foreign
  · unfold looksLikeTrojan
    rw [if_pos (by rw [length_take]; omega)]

theorem admission_without_line (other : (data.drop 56).take 2 ≠ crlf) : ∃ e, handler.admission data = .error (.error e) := by
  unfold Handler.admission
  split
  · exact ⟨_,rfl⟩
  · rename_i enough
    rw [readHeaderFromSlice,dif_neg enough,if_pos other]
    exact ⟨_,rfl⟩

end

theorem line_missing {stream : Bytes} (other : (stream.drop 56).take 2 ≠ crlf) (n) : ((stream.take n).drop 56).take 2 ≠ crlf := by
  by_cases enough : 58 ≤ n
  · rw [line_take enough]
    exact other
  · intro line
    have width := crlf_enough line
    rw [length_take] at width
    omega

theorem steady_decides (steady : Steady handler stream) (positive : 0 < n) (room : n ≤ fallbackBufSize) (inside : n ≤ stream.length) :
    handler.decide (stream.take n) = match handler.catchAll with
      | some fb => .fallback fb
      | none => .refused := by
  obtain ⟨matched,request⟩ := steady
  have same := matched n positive room inside
  unfold Handler.decide Handler.diverts
  rw [same]
  cases caught : handler.catchAll with
  | some fb =>
    have foreign : looksLikeTrojan stream = false := by simpa [caught] using request
    have present : handler.config.fallbacks ≠ [] := by
      intro without
      rw [Handler.catchAll,matchFallback_none handler without] at caught
      cases caught
    rw [if_pos ⟨present,foreign_take foreign⟩]
  | none =>
    have other : (stream.drop 56).take 2 ≠ crlf := by simpa [caught] using request
    obtain ⟨e,refused⟩ := admission_without_line handler (line_missing other n)
    rw [refused,ite_self]

theorem keyed_not_refused (handler : Handler) (line : (data.drop 56).take 2 = crlf) (cut : data.length = 58) : handler.decide data ≠ .refused := by
  have panics : handler.admission data = .error (.panic .sliceIndex) := by
    rw [Handler.admission,if_neg (by omega),cut_panics ⟨line,by omega⟩]
    rfl
  unfold Handler.decide
  rw [panics]
  cases handler.diverts data <;> simp

theorem steady_of_decides (decides : ∀ n, 0 < n → n ≤ fallbackBufSize → n ≤ stream.length → handler.decide (stream.take n) = match handler.catchAll with
        | some fb => .fallback fb
        | none => .refused) : Steady handler stream := by
  cases caught : handler.catchAll with
  | some fb =>
    simp only [caught] at decides
    have diverted : ∀ n, 0 < n → n ≤ fallbackBufSize → n ≤ stream.length → handler.diverts (stream.take n) = some fb := by
      intro n positive room inside
      have decided := decides n positive room inside
      unfold Handler.decide at decided
      split at decided
      · cases decided
        assumption
      · split at decided <;> cases decided
    refine ⟨?_,?_⟩
    · intro n positive room inside
      have taken := diverted n positive room inside
      unfold Handler.diverts at taken
      split at taken
      · rw [taken,caught]
      · cases taken
    · rw [caught]
      by_cases enough : 58 ≤ stream.length
      · have taken := diverted 58 (by decide) (by decide) enough
        unfold Handler.diverts at taken
        split at taken
        · rename_i both
          rw [← looksLikeTrojan_take (Nat.le_refl 58)]
          exact both.2
        · cases taken
      · exact if_pos (by omega)
  | none =>
    simp only [caught] at decides
    have other : (stream.drop 56).take 2 ≠ crlf := by
      intro line
      have enough := crlf_enough line
      have keyed := (line_take (Nat.le_refl 58)).trans line
      exact keyed_not_refused handler keyed (length_take_of_le enough) (decides 58 (by decide) (by decide) enough)
    refine ⟨?_,by simpa [caught] using other⟩
    intro n positive room inside
    have decided := decides n positive room inside
    unfold Handler.decide at decided
    split at decided
    · cases decided
    · rename_i undiverted
      unfold Handler.diverts at undiverted
      split at undiverted
      · rw [undiverted,caught]
      · rename_i nowhere
        have without : handler.config.fallbacks = [] := by
          simpa [foreign_take (foreign_without_line other)] using nowhere
        rw [matchFallback_none handler without,caught]

def SegmentationIndependent (handler : Handler) (around : Surroundings) (failure : Option String) (stream : Bytes) : Prop :=
  ∀ first second : List (Segment UInt8 fallbackBufSize), text first = stream → text second = stream →
    (handler.process around ⟨first,failure⟩).decision = (handler.process around ⟨second,failure⟩).decision ∧
      (handler.process around ⟨first,failure⟩).forwarded = (handler.process around ⟨second,failure⟩).forwarded

theorem segment_front (parts : text (piece :: rest) = stream) :
    piece.val = stream.take piece.val.length ∧ piece.val.length ≤ stream.length ∧ piece.val ++ text rest = stream := by
  rw [text_cons] at parts
  refine ⟨?_,?_,parts⟩
  · rw [← parts,take_left]
  · rw [← parts,length_append]
    omega

theorem first_read (positive : 0 < n) (room : n ≤ fallbackBufSize) (inside : n ≤ stream.length) :
    ∃ (segment : Segment UInt8 fallbackBufSize) (rest : List (Segment UInt8 fallbackBufSize)),
      segment.val = stream.take n ∧ text (segment :: rest) = stream := by
  have width := length_take_of_le inside
  obtain ⟨rest,later⟩ := text_exists (by decide : 0 < fallbackBufSize) _
  refine ⟨⟨stream.take n,by omega⟩,rest,rfl,?_⟩
  rw [text_cons,later,take_append_drop]

theorem segmentation_independent_iff (handler : Handler) (around : Surroundings) (failure : Option String) (stream : Bytes) :
    SegmentationIndependent handler around failure stream ↔ Steady handler stream := by
  constructor
  · intro independent
    apply steady_of_decides
    intro n positive room inside
    obtain ⟨segment,rest,taken,parts⟩ := first_read positive room inside
    obtain ⟨single,later,first,whole⟩ := first_read (n := 1) (by decide) (by decide) (by omega : 1 ≤ stream.length)
    have same := (independent _ _ parts whole).1
    rw [Handler.process,Handler.process,serve_decision,serve_decision,taken,first] at same
    rw [same]
    cases stream with
    | nil => simp at inside; omega
    | cons b stream => exact decide_single handler
  · intro steady first second firstParts secondParts
    -- A stream without bytes arrives in one way only.
    cases first with
    | nil =>
      cases second with
      | nil => exact ⟨rfl,rfl⟩
      | cons segment rest =>
        obtain ⟨-,short,-⟩ := segment_front secondParts
        rw [← firstParts,text_nil,length_nil] at short
        omega
    | cons segment rest =>
      obtain ⟨front,inside,whole⟩ := segment_front firstParts
      cases second with
      | nil =>
        rw [← secondParts,text_nil,length_nil] at inside
        omega
      | cons other later =>
        obtain ⟨otherFront,otherInside,otherWhole⟩ := segment_front secondParts
        have decided := steady_decides steady segment.property.1 segment.property.2 inside
        have otherDecided := steady_decides steady other.property.1 other.property.2 otherInside
        rw [← front] at decided
        rw [← otherFront] at otherDecided
        simp only [Handler.process,serve_decision]
        refine ⟨decided.trans otherDecided.symm,?_⟩
        cases caught : handler.catchAll with
        | some fb =>
          simp only [caught] at decided otherDecided
          rw [diverted_forwards decided,diverted_forwards otherDecided,whole,otherWhole]
        | none =>
          simp only [caught] at decided otherDecided
          rw [refused_forwards decided,refused_forwards otherDecided]

def oneUser : Handler := ⟨⟨[⟨sampleKey⟩],[]⟩⟩
def obliging : Surroundings := ⟨fun _ => .ok (),.ok (),none,.ok ()⟩
def sampleTarget : Destination := tcpDestination (.ipv4 ⟨[10,0,0,2],rfl⟩) ⟨80⟩
def inOneRead : List (Segment UInt8 fallbackBufSize) :=
  [⟨sampleKey.val ++ crlf ++ [1,1,10,0,0,2,0,80,13,10,7],by decide⟩]
def inTwoReads : List (Segment UInt8 fallbackBufSize) :=
  [⟨[97],by decide⟩,⟨List.replicate 55 97 ++ crlf ++ [1,1,10,0,0,2,0,80,13,10,7],by decide⟩]

theorem request_refused_in_pieces : text inTwoReads = text inOneRead ∧
      (oneUser.process obliging ⟨inOneRead,none⟩).decision = .accepted 0 sampleTarget ∧
      (oneUser.process obliging ⟨inOneRead,none⟩).forwarded = [7] ∧
      (oneUser.process obliging ⟨inTwoReads,none⟩).decision = .refused ∧
      (oneUser.process obliging ⟨inTwoReads,none⟩).result = .error (.error "trojan inbound: header too short") ∧
      ¬ SegmentationIndependent oneUser obliging none (text inOneRead) := by
  have whole : (oneUser.process obliging ⟨inOneRead,none⟩).decision = .accepted 0 sampleTarget := by rfl
  have split : (oneUser.process obliging ⟨inTwoReads,none⟩).decision = .refused := by rfl
  refine ⟨by rfl,whole,by rfl,split,by rfl,?_⟩
  intro independent
  have same := (independent inOneRead inTwoReads rfl (by rfl)).1
  rw [whole] at same
  cases same

end AstraCore.Trojan
