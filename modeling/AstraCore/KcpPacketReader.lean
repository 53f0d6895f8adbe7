import AstraCore.KcpSegment
namespace AstraCore.KcpPacketReader
open CheckedBytes KcpSegment

def bodyLength (body : Bytes) : Command → Option Nat
  | .data =>
    if 14 ≤ body.length ∧ 14 + payloadLength body ≤ body.length then some (14 + payloadLength body) else none
  | .ack =>
    if 13 ≤ body.length ∧ 13 + 4*numberCount body ≤ body.length then some (13 + 4*numberCount body) else none
  | .terminate | .ping => if 12 ≤ body.length then some 12 else none

def command (data : Bytes) : Option Command := (data[2]?).bind Command.fromByte

def segmentLength (data : Bytes) : Option Nat :=
  (command data).bind fun cmd => (bodyLength (data.drop 4) cmd).map (· + 4)

-- A Terminate or Ping body that fewer than four further bytes follow.
def ClippedBody (body : Bytes) (cmd : Command) : Prop :=
  (cmd = .terminate ∨ cmd = .ping) ∧ 12 ≤ body.length ∧ body.length < 16

def ClippedCommand (data : Bytes) : Prop :=
  (command data = some .terminate ∨ command data = some .ping) ∧ 16 ≤ data.length ∧ data.length < 20

inductive Outcome (data : Bytes) (length : Option Nat) (clipped : Prop) :
    Checked (Option (Segment × Bytes)) → Prop where
  | panics (short : clipped) : Outcome data length clipped (.error .sliceIndex)
  | refuses (whole : ¬ clipped) (last : ∀ n, length = some n → n = data.length) :
      Outcome data length clipped (.ok none)
  | parses (whole : ¬ clipped) (found : length = some n) (bounded : n ≤ data.length) :
      Outcome data length clipped (.ok (some (seg,data.drop n)))

theorem data_outcome : Outcome body (bodyLength body .data) (ClippedBody body .data) (readBody conv opt body .data) := by
  have whole : ¬ ClippedBody body .data := by simp [ClippedBody]
  rw [readBody,DataSegment.parse_eq]
  by_cases short : body.length < 15
  · rw [if_pos short]
    apply Outcome.refuses whole
    intro n found
    rw [bodyLength] at found
    split at found
    · cases found; omega
    · cases found
  · rw [if_neg short]
    by_cases truncated : body.length < 14 + payloadLength body
    · rw [if_pos truncated]
      apply Outcome.refuses whole
      intro n found
      rw [bodyLength,if_neg (by omega)] at found
      cases found
    · rw [if_neg truncated]
      exact .parses whole (by rw [bodyLength,if_pos (by omega)]) (by omega)

theorem ack_outcome : Outcome body (bodyLength body .ack) (ClippedBody body .ack) (readBody conv opt body .ack) := by
  have whole : ¬ ClippedBody body .ack := by simp [ClippedBody]
  rw [readBody,AckSegment.parse_eq]
  by_cases short : body.length < 13
  · rw [if_pos short]
    apply Outcome.refuses whole
    intro n found
    rw [bodyLength,if_neg (by omega)] at found
    cases found
  · rw [if_neg short]
    by_cases truncated : body.length < 13 + 4*numberCount body
    · rw [if_pos truncated]
      apply Outcome.refuses whole
      intro n found
      rw [bodyLength,if_neg (by omega)] at found
      cases found
    · rw [if_neg truncated]
      exact .parses whole (by rw [bodyLength,if_pos (by omega)]) (by omega)

theorem cmdOnly_outcome (bare : cmd = .terminate ∨ cmd = .ping) : Outcome body (bodyLength body cmd)
    (ClippedBody body cmd) (readBody conv opt body cmd) := by
  have layout : bodyLength body cmd = if 12 ≤ body.length then some 12 else none := by
    rcases bare with rfl | rfl <;> rfl
  rw [readBody_bare conv opt body bare,CmdOnlySegment.parse_eq,layout]
  by_cases short : body.length < 12
  · rw [if_pos short,if_neg (by omega)]
    exact .refuses (fun clipped => by have := clipped.2.1; omega) (by simp)
  · rw [if_neg short,if_pos (by omega)]
    by_cases narrow : body.length < 16
    · rw [if_pos narrow]
      exact .panics ⟨bare,by omega,narrow⟩
    · rw [if_neg narrow]
      exact .parses (fun clipped => narrow clipped.2.2) rfl (by omega)

theorem body_outcome (conv) (opt) (body) (cmd) : Outcome body (bodyLength body cmd) (ClippedBody body cmd) (readBody conv opt body cmd) := by
  cases cmd with
  | data => exact data_outcome
  | ack => exact ack_outcome
  | terminate => exact cmdOnly_outcome (.inl rfl)
  | ping => exact cmdOnly_outcome (.inr rfl)

theorem header_split (long : 4 ≤ data.length) : ∃ cmd opt, data[2]? = some cmd ∧ data = data.take 2 ++ cmd :: opt :: data.drop 4 := by
  match data,long with
  | a :: b :: cmd :: opt :: body,_ => exact ⟨cmd,opt,rfl,rfl⟩

theorem segment_outcome (data) : Outcome data (segmentLength data) (ClippedCommand data) (readSegment data) := by
  by_cases short : data.length < 4
  · rw [readSegment_short short]
    apply Outcome.refuses (fun clipped => by have := clipped.2.1; omega)
    intro n found
    obtain ⟨cmd,-,mapped⟩ := Option.bind_eq_some_iff.mp found
    have empty : data.drop 4 = [] := List.drop_eq_nil_of_le (by omega)
    cases cmd <;> simp [bodyLength,empty] at mapped
  · obtain ⟨byte,opt,third,shape⟩ := header_split (by omega : 4 ≤ data.length)
    have two : (data.take 2).length = 2 := by simp; omega
    have rest : (data.drop 4).length = data.length - 4 := List.length_drop
    have read := readSegment_header two byte opt (data.drop 4)
    rw [← shape] at read
    have known : command data = Command.fromByte byte := by rw [command,third]; rfl
    rw [read]
    cases kind : Command.fromByte byte with
    | none =>
      rw [kind] at known
      exact .refuses (by simp [ClippedCommand,known]) (by simp [segmentLength,known])
    | some cmd =>
      rw [kind] at known
      have layout : segmentLength data = (bodyLength (data.drop 4) cmd).map (· + 4) := by simp [segmentLength,known]
      have same : ClippedCommand data ↔ ClippedBody (data.drop 4) cmd := by
        simp only [ClippedCommand,known,Option.some.injEq]
        refine and_congr_right fun _ => ?_
        omega
      dsimp only
      have inner := body_outcome (be16 (data.take 2)) ⟨opt⟩ (data.drop 4) cmd
      generalize readBody _ ⟨opt⟩ (data.drop 4) cmd = result at inner ⊢
      cases inner with
      | panics clipped => exact .panics (same.mpr clipped)
      | refuses whole last =>
        apply Outcome.refuses (mt same.mp whole)
        intro n found
        rw [layout] at found
        obtain ⟨m,body,rfl⟩ := Option.map_eq_some_iff.mp found
        have := last m body
        omega
      | parses whole found bounded =>
        rw [List.drop_drop]
        exact .parses (mt same.mp whole) (by rw [layout,found]; simp; omega) (by omega)

theorem readSegment_consumes (reads : readSegment data = .ok (some (seg,rest))) : rest.length < data.length := by
  have outcome := segment_outcome data
  rw [reads] at outcome
  cases outcome with
  | parses whole found bounded =>
    obtain ⟨cmd,-,mapped⟩ := Option.bind_eq_some_iff.mp found
    obtain ⟨m,-,rfl⟩ := Option.map_eq_some_iff.mp mapped
    simp only [List.length_drop]
    omega

def readLoop (remaining : Bytes) (result : List Segment) : Checked (List Segment) :=
  if remaining.isEmpty then .ok result
  else
    match _reads : readSegment remaining with
    | .error panic => .error panic
    | .ok none => .ok result
    | .ok (some (seg,rest)) => readLoop rest (result ++ [seg])
termination_by remaining.length
decreasing_by exact readSegment_consumes _reads

def read (data : Bytes) : Checked (List Segment) := readLoop data []

theorem readLoop_nil (result) : readLoop [] result = .ok result := by
  rw [readLoop]; rfl

theorem filled_of_read (reads : readSegment data = result) (other : result ≠ .ok none) : ¬ data.isEmpty = true := by
  intro empty
  rw [List.isEmpty_iff.mp empty] at reads
  exact other reads.symm

theorem readLoop_panics (reads : readSegment data = .error fault) (result) : readLoop data result = .error fault := by
  rw [readLoop,if_neg (filled_of_read reads (by simp))]
  split <;> simp_all

theorem readLoop_refuses (reads : readSegment data = .ok none) (result) : readLoop data result = .ok result := by
  rw [readLoop]
  split
  · rfl
  · split <;> simp_all

theorem readLoop_parses (reads : readSegment data = .ok (some (seg,rest))) (result) : readLoop data result = readLoop rest (result ++ [seg]) := by
  rw [readLoop,if_neg (filled_of_read reads (by simp))]
  split <;> simp_all

inductive SegmentTail : Bytes → Bytes → Prop where
  | here : SegmentTail data data
  | next (length : segmentLength data = some n) (rest : SegmentTail (data.drop n) tail) : SegmentTail data tail

theorem tail_of_last (last : ∀ n, segmentLength data = some n → n = data.length) (cut : SegmentTail data tail) : tail = data ∨ tail = [] := by
  cases cut with
  | here => exact .inl rfl
  | next found rest =>
    rw [last _ found,List.drop_length] at rest
    cases rest with
    | here => exact .inr rfl
    | next found _ => simp [segmentLength,command] at found

theorem empty_not_clipped : ¬ ClippedCommand [] := by
  simp [ClippedCommand]

theorem readLoop_returns_iff (data result) : (∃ segments, readLoop data result = .ok segments) ↔
    ∀ tail, SegmentTail data tail → ¬ ClippedCommand tail := by
  -- The measure of the loop is the length of what remains; each cut of the packet is met once.
  induction size : data.length using Nat.strongRecOn generalizing data result with
  | ind size ih =>
    subst size
    have outcome := segment_outcome data
    generalize reads : readSegment data = parsed at outcome
    cases outcome with
    | panics short =>
      rw [readLoop_panics reads]
      refine ⟨?_,fun whole => absurd short (whole data .here)⟩
      rintro ⟨segments,finished⟩
      cases finished
    | refuses whole last =>
      rw [readLoop_refuses reads]
      refine ⟨?_,fun _ => ⟨result,rfl⟩⟩
      rintro - tail cut
      rcases tail_of_last last cut with rfl | rfl
      · exact whole
      · exact empty_not_clipped
    | parses whole found bounded =>
      rw [readLoop_parses reads,ih _ (readSegment_consumes reads) _ _ rfl]
      constructor
      · intro later tail cut
        cases cut with
        | here => exact whole
        | next length rest =>
          cases Option.some.inj (found.symm.trans length)
          exact later tail rest
      · intro every tail cut
        exact every tail (.next found cut)

theorem read_returns_iff (data : Bytes) :
    (∃ segments, read data = .ok segments) ↔ ∀ tail, SegmentTail data tail → ¬ ClippedCommand tail :=
  readLoop_returns_iff data []

-- The sixteen bytes of a Ping on its own, as `Connection::ping` sends it.
theorem ping_packet_panics : ¬ ∃ segments, read [0,1,3,0,0,0,0,0,0,0,0,0,0,0,0,100] = .ok segments := by
  rintro ⟨segments,finished⟩
  have panics : readSegment [0,1,3,0,0,0,0,0,0,0,0,0,0,0,0,100] = .error .sliceIndex := by rfl
  rw [read,readLoop_panics panics] at finished
  cases finished

theorem readSegment_data (seg : DataSegment) (rest) (fits : seg.payload.length < 65536) : readSegment (seg.serialize ++ rest) =
      if seg.payload = [] ∧ rest = [] then .ok none
      else .ok (some (.data {seg with timeout := 0,transmit := 0},rest)) := by
  let front := u32ToBe seg.timestamp ++ (u32ToBe seg.number ++ (u32ToBe seg.sendingNext ++ u16ToBe (UInt16.ofNat seg.payload.length)))
  have width : front.length = 14 := by simp [front]
  have shape : seg.serialize ++ rest = u16ToBe seg.conv ++ Command.data.byte :: seg.option.bits :: (front ++ (seg.payload ++ rest)) := by
    simp [DataSegment.serialize,front]
  have size : (front ++ (seg.payload ++ rest)).length = 14 + (seg.payload.length + rest.length) := by simp [width]
  have announced : payloadLength (front ++ (seg.payload ++ rest)) = seg.payload.length := by
    simp [payloadLength,front,List.drop_append,List.drop_of_length_le]
    omega
  have remaining : (front ++ (seg.payload ++ rest)).drop (14 + seg.payload.length) = rest := by
    rw [← List.drop_drop,drop_front width,List.drop_left]
  rw [shape,readSegment_header (u16ToBe_length _),fromByte_byte]
  dsimp only
  rw [readBody,DataSegment.parse_eq,announced,remaining,size]
  by_cases bare : seg.payload = [] ∧ rest = []
  · rw [if_pos bare,if_pos (by simp [bare.1,bare.2])]
    rfl
  · have filled : 0 < seg.payload.length + rest.length := by
      rcases not_and_or.mp bare with some | some
      · have := List.length_pos_of_ne_nil some; omega
      · have := List.length_pos_of_ne_nil some; omega
    rw [if_neg bare,if_neg (by omega)]
    simp [front,List.drop_append,List.drop_of_length_le]

theorem number_words (numbers : List UInt32) (i) (inside : i < numbers.length) : numberAt (numbers.flatMap u32ToBe ++ rest) i = numbers[i] := by
  induction numbers generalizing i with
  | nil => simp at inside
  | cons number numbers ih =>
    cases i with
    | zero =>
      rw [numberAt]
      simp
    | succ i =>
      have skip : (i+1)*4 = 4 + i*4 := by omega
      rw [numberAt,skip,← List.drop_drop]
      exact ih i (by simpa using inside)

theorem words_length (numbers : List UInt32) : (numbers.flatMap u32ToBe).length = 4*numbers.length := by
  induction numbers with
  | nil => rfl
  | cons number numbers ih => simp; omega

theorem readSegment_ack (seg : AckSegment) (rest) (fits : seg.numberList.length < 256) :
    readSegment (seg.serialize ++ rest) = .ok (some (.ack {seg with limit := 128},rest)) := by
  let front := u32ToBe seg.receivingWindow ++ (u32ToBe seg.receivingNext ++ (u32ToBe seg.timestamp ++ [UInt8.ofNat seg.numberList.length]))
  let words := seg.numberList.flatMap u32ToBe
  have width : front.length = 13 := by simp [front]
  have shape : seg.serialize ++ rest = u16ToBe seg.conv ++ Command.ack.byte :: seg.option.bits :: (front ++ (words ++ rest)) := by
    simp [AckSegment.serialize,front,words]
  have size : (front ++ (words ++ rest)).length = 13 + (4*seg.numberList.length + rest.length) := by
    simp [words]; omega
  have announced : numberCount (front ++ (words ++ rest)) = seg.numberList.length := by
    simp [numberCount,front,List.getElem?_append]
    omega
  have remaining : (front ++ (words ++ rest)).drop (13 + 4*seg.numberList.length) = rest := by
    rw [← List.drop_drop,drop_front width,drop_front (words_length _)]
  have numbers : (List.range seg.numberList.length).map (numberAt (words ++ rest)) = seg.numberList := by
    apply List.ext_getElem
    · simp
    · intro i inside _
      rw [List.getElem_map,List.getElem_range]
      exact number_words _ _ (by simpa using inside)
  rw [shape,readSegment_header (u16ToBe_length _),fromByte_byte]
  dsimp only
  rw [readBody,AckSegment.parse_eq,announced,remaining,size,drop_front width,numbers]
  simp [front,List.drop_append,List.drop_of_length_le]

theorem readSegment_cmdOnly (seg : CmdOnlySegment) (rest) (bare : seg.cmd = .terminate ∨ seg.cmd = .ping) :
    readSegment (seg.serialize ++ rest) = if rest.length < 4 then .error .sliceIndex
      else .ok (some (.cmdOnly {seg with receivingNext := seg.peerRto,peerRto := be32 (rest.take 4)},rest)) := by
  let front := u32ToBe seg.sendingNext ++ (u32ToBe seg.receivingNext ++ u32ToBe seg.peerRto)
  have width : front.length = 12 := by simp [front]
  have shape : seg.serialize ++ rest = u16ToBe seg.conv ++ seg.cmd.byte :: seg.option.bits :: (front ++ rest) := by
    simp [CmdOnlySegment.serialize,front]
  have size : (front ++ rest).length = 12 + rest.length := by simp [width]
  rw [shape,readSegment_header (u16ToBe_length _),fromByte_byte]
  dsimp only
  rw [readBody_bare _ _ _ bare,CmdOnlySegment.parse_eq,if_neg (by omega)]
  by_cases clipped : rest.length < 4
  · rw [if_pos clipped,if_pos (by omega)]
    rfl
  · rw [if_neg clipped,if_neg (by omega)]
    simp [front,List.drop_append,List.drop_of_length_le]

theorem readLoop_extends (finished : readLoop data result = .ok out) : ∃ more, out = result ++ more := by
  induction data,result using readLoop.induct generalizing out with
  | case1 data result empty => rw [readLoop,if_pos empty] at finished; cases finished; exact ⟨[],by simp⟩
  | case2 data result filled fault reads => rw [readLoop_panics reads] at finished; cases finished
  | case3 data result filled reads => rw [readLoop_refuses reads] at finished; cases finished; exact ⟨[],by simp⟩
  | case4 data result filled seg rest reads ih =>
    rw [readLoop_parses reads] at finished
    obtain ⟨more,rfl⟩ := ih finished
    exact ⟨seg :: more,by simp⟩

-- What a sender may put into one packet: the length fields are one and two bytes wide.
def WellFormed : Segment → Prop
  | .data seg => seg.payload.length ≤ 65535
  | .ack seg => seg.numberList.length ≤ 255
  | .cmdOnly seg => seg.cmd = .terminate ∨ seg.cmd = .ping

-- The fields that travel. Timers and the fill limit are local to the worker that built the segment.
def wire : Segment → Segment
  | .data seg => .data {seg with timeout := 0,transmit := 0}
  | .ack seg => .ack {seg with limit := 128}
  | .cmdOnly seg => .cmdOnly seg

def header : Segment → Bytes
  | .data seg => u16ToBe seg.conv ++ [Command.data.byte,seg.option.bits]
  | .ack seg => u16ToBe seg.conv ++ [Command.ack.byte,seg.option.bits]
  | .cmdOnly seg => u16ToBe seg.conv ++ [seg.cmd.byte,seg.option.bits]

theorem header_length (seg) : (header seg).length = 4 := by
  cases seg <;> simp [header]

theorem serialize_header (seg) : ∃ body, seg.serialize = header seg ++ body := by
  cases seg with
  | data seg | ack seg | cmdOnly seg => exact ⟨_,by simp only [Segment.serialize]; rfl⟩

def packet (segments : List Segment) : Bytes := segments.flatMap Segment.serialize

theorem packet_empty_iff : packet segments = [] ↔ segments = [] := by
  cases segments with
  | nil => simp [packet]
  | cons seg rest =>
    obtain ⟨body,shape⟩ := serialize_header seg
    have width := header_length seg
    have long : (packet (seg :: rest)).length ≠ 0 := by simp [packet,shape,width]
    simpa using fun empty => long (by rw [empty]; rfl)

theorem packet_front (seg rest) : 4 ≤ (packet (seg :: rest)).length ∧ (packet (seg :: rest)).take 4 = header seg := by
  obtain ⟨body,shape⟩ := serialize_header seg
  have width := header_length seg
  have split : packet (seg :: rest) = header seg ++ (body ++ packet rest) := by simp [packet,shape]
  rw [split]
  simp [width]

-- The packets the reader gives back. A command segment survives only when the word behind
-- it repeats its two last fields; an empty Data segment only in front of another segment.
def Decodable : List Segment → Prop
  | [] => True
  | .data seg :: rest => (seg.payload ≠ [] ∨ rest ≠ []) ∧ Decodable rest
  | .ack _ :: rest => Decodable rest
  | .cmdOnly seg :: rest =>
    (∃ next, rest.head? = some next ∧ seg.receivingNext = seg.peerRto ∧ seg.peerRto = be32 (header next)) ∧
      Decodable rest

def Returns (data : Bytes) (result segments : List Segment) : Prop :=
  ∃ out, readLoop data result = .ok out ∧ out.map wire = result.map wire ++ segments.map wire

theorem packet_cons (seg rest) : packet (seg :: rest) = seg.serialize ++ packet rest := by
  simp [packet]

theorem returns_front (reads : readSegment data = .ok (some (back,rest))) (same : wire back = wire seg) :
    Returns data result (seg :: segments) ↔ Returns rest (result ++ [back]) segments := by
  simp [Returns,readLoop_parses reads,same]

theorem data_returns_iff (seg) (wellFormed : WellFormed (.data seg)) (ih : ∀ result, Returns (packet rest) result rest ↔ Decodable rest) :
    Returns (packet (.data seg :: rest)) result (.data seg :: rest) ↔ Decodable (.data seg :: rest) := by
  have reads := readSegment_data seg (packet rest) (Nat.lt_succ_of_le wellFormed)
  rw [packet_cons]
  by_cases bare : seg.payload = [] ∧ rest = []
  · rw [if_pos ⟨bare.1,packet_empty_iff.mpr bare.2⟩] at reads
    rw [Returns,Segment.serialize,readLoop_refuses reads]
    simp [Decodable,bare.1,bare.2]
  · rw [if_neg (fun both => bare ⟨both.1,packet_empty_iff.mp both.2⟩)] at reads
    have filled := not_and_or.mp bare
    exact (returns_front reads rfl).trans ((ih _).trans ⟨fun rest => ⟨filled,rest⟩,And.right⟩)

theorem ack_returns_iff (seg) (wellFormed : WellFormed (.ack seg)) (ih : ∀ result, Returns (packet rest) result rest ↔ Decodable rest) :
    Returns (packet (.ack seg :: rest)) result (.ack seg :: rest) ↔ Decodable (.ack seg :: rest) := by
  have reads := readSegment_ack seg (packet rest) (Nat.lt_succ_of_le wellFormed)
  exact (returns_front reads rfl).trans (ih _)

theorem cmdOnly_returns_iff (seg) (wellFormed : WellFormed (.cmdOnly seg)) (ih : ∀ result, Returns (packet rest) result rest ↔ Decodable rest) :
    Returns (packet (.cmdOnly seg :: rest)) result (.cmdOnly seg :: rest) ↔ Decodable (.cmdOnly seg :: rest) := by
  have reads := readSegment_cmdOnly seg (packet rest) wellFormed
  rw [packet_cons]
  cases rest with
  | nil =>
    rw [if_pos (by simp [packet])] at reads
    simp [Returns,Segment.serialize,readLoop_panics reads,Decodable]
  | cons next rest =>
    obtain ⟨long,word⟩ := packet_front next rest
    rw [if_neg (by omega),word] at reads
    by_cases same : seg.receivingNext = seg.peerRto ∧ seg.peerRto = be32 (header next)
    · obtain ⟨second,third⟩ := same
      have unchanged : {seg with receivingNext := seg.peerRto,peerRto := be32 (header next)} = seg := by
        rw [← third]
        exact congrArg (fun number => {seg with receivingNext := number}) second.symm
      rw [unchanged] at reads
      refine (returns_front reads rfl).trans ((ih _).trans ?_)
      simp [Decodable,second,third]
    · constructor
      · rintro ⟨out,finished,equal⟩
        rw [Segment.serialize,readLoop_parses reads] at finished
        obtain ⟨more,rfl⟩ := readLoop_extends finished
        simp only [List.map_append,List.map_cons,List.map_nil,List.append_assoc,List.cons_append,
          List.append_cancel_left_eq,List.cons.injEq,wire,Segment.cmdOnly.injEq] at equal
        have second := congrArg CmdOnlySegment.receivingNext equal.1
        have third := congrArg CmdOnlySegment.peerRto equal.1
        exact absurd ⟨second.symm,third.symm⟩ same
      · rintro ⟨⟨other,found,fields⟩,-⟩
        cases found
        exact absurd fields same

theorem readLoop_roundtrip_iff (result) (wellFormed : ∀ seg ∈ segments, WellFormed seg) :
    Returns (packet segments) result segments ↔ Decodable segments := by
  induction segments generalizing result with
  | nil => simp [Returns,packet,readLoop_nil,Decodable]
  | cons seg rest ih =>
    have front := wellFormed seg (by simp)
    have later := fun result => ih result (fun other member => wellFormed other (by simp [member]))
    cases seg with
    | data seg => exact data_returns_iff seg front later
    | ack seg => exact ack_returns_iff seg front later
    | cmdOnly seg => exact cmdOnly_returns_iff seg front later

theorem read_roundtrip_iff (segments : List Segment) (wellFormed : ∀ seg ∈ segments, WellFormed seg) :
    (∃ out, read (packet segments) = .ok out ∧ out.map wire = segments.map wire) ↔ Decodable segments := by
  simpa [read,Returns] using readLoop_roundtrip_iff [] wellFormed

def pingSegment : CmdOnlySegment := ⟨1,.ping,⟨0⟩,7,5,100⟩
def ackSegment : AckSegment := ⟨1,⟨0⟩,1024,3,9,[3,4],128⟩
def dataSegment : DataSegment := ⟨1,⟨0⟩,9,2,0,[104,105],59,1⟩

theorem ping_fails_roundtrip : WellFormed (.cmdOnly pingSegment) ∧
      ¬ ∃ out, read (packet [.cmdOnly pingSegment]) = .ok out ∧ out.map wire = [Segment.cmdOnly pingSegment].map wire := by
  refine ⟨.inr rfl,?_⟩
  rintro ⟨out,finished,-⟩
  have panics : readSegment (packet [.cmdOnly pingSegment]) = .error .sliceIndex := by rfl
  rw [read,readLoop_panics panics] at finished
  cases finished

theorem read_roundtrip_ack_data : (∀ seg ∈ [Segment.ack ackSegment,.data dataSegment], WellFormed seg) ∧
      ∃ out, read (packet [.ack ackSegment,.data dataSegment]) = .ok out ∧
        out.map wire = [Segment.ack ackSegment,.data dataSegment].map wire := by
  have wellFormed : ∀ seg ∈ [Segment.ack ackSegment,.data dataSegment], WellFormed seg := by
    simp [WellFormed,ackSegment,dataSegment]
  exact ⟨wellFormed,(read_roundtrip_iff _ wellFormed).mpr (by simp [Decodable,dataSegment])⟩

end AstraCore.KcpPacketReader
