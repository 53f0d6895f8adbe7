import AstraCore.ShadowsocksOutbound
import AstraCore.ShadowsocksSession

namespace AstraCore.Shadowsocks
open CheckedBytes NetAddress PolledStream
open List (append_assoc flatMap_cons length_append)
variable {cap : Nat} (suite : Suite) {c : CipherType}

def Clipped (c : CipherType) (text : Bytes) : Prop :=
  ∃ (frame : Frame) (rest : Bytes), text = frame.bytes ++ rest ∧ frame.body ≠ [] ∧ frame.body.length < c.nonceSize

def Incomplete (text : Bytes) : Prop := ∀ (frame : Frame) (rest : Bytes), text ≠ frame.bytes ++ rest

variable {frame : Frame}

theorem clipped_front (clipped : Clipped c (frame.bytes ++ rest)) : frame.body ≠ [] ∧ frame.body.length < c.nonceSize := by
  obtain ⟨other,later,same,present,short⟩ := clipped
  obtain ⟨rfl,-⟩ := Frame.bytes_inj same
  exact ⟨present,short⟩

theorem incomplete_unclipped (incomplete : Incomplete text) : ¬ Clipped c text := by
  rintro ⟨frame,rest,same,-,-⟩
  exact incomplete frame rest same

theorem incomplete_front (incomplete : Incomplete text) (parts : text = before.flatMap Frame.bytes ++ tail) : before = [] ∧ tail = text := by
  cases before with
  | nil => exact ⟨rfl,parts.symm⟩
  | cons first before =>
    rw [flatMap_cons,append_assoc] at parts
    exact absurd parts (incomplete first _)

def Frame.Passes (cipher : Octets c.keySize) (frame : Frame) : Prop := frame.body = [] ∨ ∃ pt, frame.Carries suite cipher pt

-- Behind the chunks that are passed there is never one too short for its nonce, and never the end of a closed stream.
def Spared (cipher : Octets c.keySize) (ending : Ending) (text : Bytes) : Prop :=
  ∀ (before : List Frame) (tail : Bytes), text = before.flatMap Frame.bytes ++ tail → (∀ frame ∈ before, frame.Passes suite cipher) →
    ¬ Clipped c tail ∧ (ending = .closed → ¬ Incomplete tail)

section
variable {suite} {cipher : Octets c.keySize}

theorem spared_passed (passes : frame.Passes suite cipher) (rest) : Spared suite cipher ending (frame.bytes ++ rest) ↔
    Spared suite cipher ending rest := by
  constructor
  · intro spared before tail parts passed
    refine spared _ tail (by rw [parts,flatMap_cons,append_assoc]) ?_
    intro other among
    rcases List.mem_cons.mp among with rfl | among
    · exact passes
    · exact passed other among
  · intro spared before tail parts passed
    obtain ⟨-,rfl⟩ | ⟨others,rfl,behind⟩ := frames_front parts
    · refine ⟨fun clipped => ?_,fun _ incomplete => incomplete frame rest rfl⟩
      obtain ⟨present,short⟩ := clipped_front clipped
      obtain empty | ⟨pt,carries⟩ := passes
      · exact present empty
      · have width := carries.length
        omega
    · exact spared others tail behind fun other among => passed other (List.mem_cons_of_mem _ among)

theorem spared_refused (sized : frame.Sized c) (refused : ∀ pt, ¬ frame.Carries suite cipher pt) (rest) :
    Spared suite cipher ending (frame.bytes ++ rest) := by
  intro before tail parts passed
  obtain ⟨-,rfl⟩ | ⟨others,rfl,-⟩ := frames_front parts
  · refine ⟨fun clipped => ?_,fun _ incomplete => incomplete frame rest rfl⟩
    exact absurd sized.2 (Nat.not_le_of_lt (clipped_front clipped).2)
  · obtain empty | ⟨pt,carries⟩ := passed frame (List.mem_cons_self ..)
    · have present := sized.1
      rw [empty] at present
      cases present
    · exact absurd carries (refused pt)

theorem spared_incomplete (incomplete : Incomplete text) : Spared suite cipher ending text ↔ ending ≠ .closed := by
  constructor
  · intro spared closed
    exact (spared [] text rfl nofun).2 closed incomplete
  · intro alive before tail parts _
    obtain ⟨-,rfl⟩ := incomplete_front incomplete parts
    exact ⟨incomplete_unclipped incomplete,fun closed => absurd closed alive⟩

theorem not_spared_clipped (clipped : Clipped c text) : ¬ Spared suite cipher ending text :=
  fun spared => (spared [] text rfl nofun).1 clipped

end

inductive Fate (room : Nat) (reader : DecryptingReader c) (stream : Stream cap) : Prop where
  | answers (polled : Polled) (reader' : DecryptingReader c) (stream' : Stream cap)
      (turn : reader.turn suite room stream = .returns polled reader' stream') (goes : polled.ends = false)
      (same : Spared suite reader'.cipher stream'.ending (backlog reader' stream') ↔
        Spared suite reader.cipher stream.ending (backlog reader stream))
      (lighter : 0 < room → ¬ Spared suite reader.cipher stream.ending (backlog reader stream) →
        weight reader' stream' < weight reader stream)
  | panics (fault : Panic) (reader' : DecryptingReader c) (stream' : Stream cap)
      (turn : reader.turn suite room stream = .returns (.panic fault) reader' stream')
      (harmed : ¬ Spared suite reader.cipher stream.ending (backlog reader stream))
  | fails (e : String) (reader' : DecryptingReader c) (stream' : Stream cap)
      (turn : reader.turn suite room stream = .returns (.error e) reader' stream')
      (spared : Spared suite reader.cipher stream.ending (backlog reader stream))
  | reads (reader' : DecryptingReader c) (stream' : Stream cap) (turn : reader.turn suite room stream = .again reader' stream')
      (same : Spared suite reader'.cipher stream'.ending (backlog reader' stream') ↔
        Spared suite reader.cipher stream.ending (backlog reader stream))
      (shorter : stream'.text.length < stream.text.length) (lighter : weight reader' stream' ≤ weight reader stream)
  | spins (turn : reader.turn suite room stream = .again reader stream)
      (harmed : ¬ Spared suite reader.cipher stream.ending (backlog reader stream))

theorem incomplete_empty (empty : stream.arrivals = []) : Incomplete (backlog reader stream) := by
  intro frame rest
  rw [backlog,text_of_empty empty,List.append_nil]
  exact held_incomplete reader.stage frame rest

theorem turn_fate (room) (reader : DecryptingReader c) : Fate suite room reader stream := by
  cases turn_cases suite room reader stream with
  | drains present turn =>
    exact .answers _ _ _ turn rfl Iff.rfl fun positive _ => weight_drained reader stream present positive
  | waits _ turn empty ending =>
    have spared : Spared suite reader.cipher stream.ending (backlog reader stream) :=
      (spared_incomplete (incomplete_empty empty)).mpr fun closed => by cases ending.symm.trans closed
    exact .answers _ _ _ turn rfl Iff.rfl fun _ harmed => absurd spared harmed
  | delayed _ later turn text ending fewer =>
    have kept : backlog reader later = backlog reader stream := by rw [backlog,backlog,text]
    exact .answers _ _ _ turn rfl (by rw [kept,ending]) fun _ _ => weight_delayed reader text fewer
  | broken _ e turn empty ending =>
    exact .fails e _ _ turn ((spared_incomplete (incomplete_empty empty)).mpr fun closed => by cases ending.symm.trans closed)
  | spins _ turn empty ending =>
    exact .spins turn fun spared => (spared_incomplete (incomplete_empty empty)).mp spared ending
  | fills dry stage later turn kept ending shorter fewer =>
    refine .reads _ _ turn ?_ shorter (weight_filled reader kept fewer)
    change Spared suite reader.cipher later.ending (stage.held ++ later.text) ↔ _
    rw [kept,ending]
  | empties _ frame later turn parts zero ending fewer =>
    refine .answers _ _ _ turn rfl ?_ fun _ _ => weight_taken reader _ _ parts (Nat.le_add_right _ _) fewer
    rw [parts,spared_passed (.inl zero),ending]
    rfl
  | faults _ frame later turn parts present clipped =>
    exact .panics _ _ _ turn (not_spared_clipped ⟨frame,later.text,parts,List.ne_nil_of_length_pos present,clipped⟩)
  | refuses _ frame e later turn parts present refused =>
    refine .fails e _ _ turn ?_
    have long : c.nonceSize ≤ frame.body.length := by
      by_contra short
      rw [openChunk,dif_neg short] at refused
      cases refused
    rw [parts]
    refine spared_refused ⟨present,long⟩ (fun pt carries => ?_) later.text
    rw [Frame.Carries,refused] at carries
    cases carries
  | opens dry frame pt later turn parts carries ending shorter fewer =>
    have width := carries.length
    refine .reads _ _ turn ?_ shorter (Nat.le_of_lt (weight_taken reader _ _ parts (by omega) fewer))
    rw [parts,spared_passed (.inr ⟨pt,carries⟩),ending]
    rfl

theorem pollRead_spared (spared : Spared suite reader.cipher stream.ending (backlog reader stream)) :
    ∃ polled later rest, reader.pollRead suite room stream = some (polled,later,rest) ∧ (∀ fault, polled ≠ .panic fault) ∧
      (polled.ends = false → Spared suite later.cipher rest.ending (backlog later rest)) := by
  refine loop_total (fun reader stream => Spared suite reader.cipher stream.ending (backlog reader stream))
    (fun polled later rest => (∀ fault, polled ≠ .panic fault) ∧
      (polled.ends = false → Spared suite later.cipher rest.ending (backlog later rest))) ?_ spared (Nat.lt_succ_self _)
  intro reader stream spared
  cases turn_fate suite room reader with
  | answers polled reader' stream' turn goes same =>
    refine .inl ⟨polled,reader',stream',turn,?_,fun _ => same.mpr spared⟩
    rintro fault rfl
    cases goes
  | panics _ _ _ _ harmed => exact absurd spared harmed
  | fails e reader' stream' turn => exact .inl ⟨.error e,reader',stream',turn,nofun,nofun⟩
  | reads reader' stream' turn same shorter => exact .inr ⟨reader',stream',turn,same.mpr spared,shorter⟩
  | spins _ harmed => exact absurd spared harmed

theorem pollRead_harmed (positive : 0 < room) (harmed : ¬ Spared suite reader.cipher stream.ending (backlog reader stream))
    (finished : reader.pollRead suite room stream = some (polled,later,rest)) : (∃ fault, polled = .panic fault) ∨
      polled.ends = false ∧ ¬ Spared suite later.cipher rest.ending (backlog later rest) ∧ weight later rest < weight reader stream := by
  refine loop_invariant (fun after left => ¬ Spared suite after.cipher left.ending _ ∧ weight after left ≤ weight reader stream)
    (fun polled later rest => (∃ fault, polled = .panic fault) ∨
      polled.ends = false ∧ ¬ Spared suite later.cipher rest.ending (backlog later rest) ∧ weight later rest < weight reader stream)
    ?_ ⟨harmed,Nat.le_refl _⟩ finished
  rintro after left ⟨harmed,within⟩
  cases turn_fate suite room after with
  | answers polled reader' stream' turn goes same lighter =>
    exact .inl ⟨polled,reader',stream',turn,.inr ⟨goes,fun spared => harmed (same.mp spared),Nat.lt_of_lt_of_le (lighter positive harmed) within⟩⟩
  | panics fault reader' stream' turn => exact .inl ⟨.panic fault,reader',stream',turn,.inl ⟨fault,rfl⟩⟩
  | fails _ _ _ _ spared => exact absurd spared harmed
  | reads reader' stream' turn same _ lighter =>
    exact .inr ⟨reader',stream',turn,fun spared => harmed (same.mp spared),Nat.le_trans lighter within⟩
  | spins turn => exact .inr ⟨after,left,turn,harmed,within⟩

def Behaves (reader : DecryptingReader c) (stream : Stream cap) : Prop :=
  ∀ rooms, ∃ polled later rest, reader.reads suite rooms stream = some (polled,later,rest) ∧
    ∀ answer ∈ polled, ∀ fault, answer ≠ .panic fault

theorem behaves_spared (spared : Spared suite reader.cipher stream.ending (backlog reader stream)) : Behaves suite reader stream := by
  intro rooms
  exact reads_total suite _
    (fun answer => ∀ fault, answer ≠ .panic fault) (fun room reader stream => pollRead_spared suite) spared rooms

-- The induction is on what is left to happen: a harmed reader is polled until it gives way.
theorem misbehaves (reader : DecryptingReader c) (stream : Stream cap)
    (harmed : ¬ Spared suite reader.cipher stream.ending (backlog reader stream)) : ¬ Behaves suite reader stream := by
  suffices run : ∃ n, ∀ polled later rest, reader.reads suite (List.replicate n 1) stream = some (polled,later,rest) → ∃ fault, .panic fault ∈ polled by
    intro behaves
    obtain ⟨n,panics⟩ := run
    obtain ⟨polled,later,rest,finished,calm⟩ := behaves (List.replicate n 1)
    obtain ⟨fault,among⟩ := panics polled later rest finished
    exact calm _ among fault rfl
  generalize bound : weight reader stream = left
  induction left using Nat.strongRecOn generalizing reader stream with
  | ind left ih =>
    cases first : reader.pollRead suite 1 stream with
    | none =>
      refine ⟨1,?_⟩
      intro polled later rest finished
      rw [List.replicate_one,DecryptingReader.reads,first] at finished
      cases finished
    | some result =>
      obtain ⟨answer,reader',stream'⟩ := result
      obtain ⟨fault,rfl⟩ | ⟨goes,still,lighter⟩ := pollRead_harmed suite Nat.one_pos harmed first
      · refine ⟨1,?_⟩
        intro polled later rest finished
        rw [List.replicate_one,DecryptingReader.reads,first] at finished
        cases finished
        exact ⟨fault,List.mem_singleton_self _⟩
      · obtain ⟨n,panics⟩ := ih _ (bound ▸ lighter) reader' stream' still rfl
        refine ⟨n + 1,?_⟩
        intro polled later rest finished
        obtain ⟨answer',_,_,again,run⟩ := reads_cons suite finished
        cases first.symm.trans again
        obtain ⟨ends,-⟩ | ⟨-,others,found,rfl⟩ := run
        · rw [goes] at ends
          cases ends
        · obtain ⟨fault,among⟩ := panics others later rest found
          exact ⟨fault,List.mem_cons_of_mem _ among⟩

theorem behaves_iff (reader : DecryptingReader c) (stream : Stream cap) :
    Behaves suite reader stream ↔ Spared suite reader.cipher stream.ending (backlog reader stream) := by
  constructor
  · intro behaves
    by_contra harmed
    exact misbehaves suite reader stream harmed behaves
  · exact behaves_spared suite

theorem incomplete_short (short : Short text) : Incomplete text := by
  rintro frame rest rfl
  obtain short | ⟨size,later,same,short⟩ := short
  · rw [length_append,frame.bytes_length] at short
    omega
  · rw [Frame.bytes,append_assoc] at same
    obtain ⟨sizes,rfl⟩ := List.append_inj same (by rw [frame.size.property,size.property])
    rw [length_append,frame.whole,show frame.size = size from Subtype.ext sizes] at short
    omega

theorem stop_calm (ending : Ending) (label fault) : ending.stop.labelled label ≠ .panic fault := by
  cases ending <;> nofun

theorem session_panics_iff (aead : c.isAead = true) (key iv) (stream : Stream cap) :
    (∃ fault, readTcpSession suite c key iv stream = .error (.panic fault)) ↔
      ∃ (frame : Frame) (rest : Bytes), stream.text = frame.bytes ++ rest ∧ frame.body.length < c.nonceSize := by
  obtain ⟨frame,rest,parts⟩ | short := framed_or_short stream.text
  · obtain ⟨later,-,-,session⟩ := readTcpSession_frame suite aead key iv stream frame parts
    rw [session]
    by_cases long : c.nonceSize ≤ frame.body.length
    · refine iff_of_false ?_ ?_
      · rintro ⟨fault,panics⟩
        rw [openChunk,dif_pos long,faulty,ok_bind] at panics
        generalize (suite.aead c).decrypt _ _ _ _ = opened at panics
        cases opened with
        | error e => cases panics
        | ok pt =>
          rw [fallible,labelled_ok,ok_bind] at panics
          cases read : readAddress pt with
          | error e | ok found => rw [read] at panics; cases panics
      · rintro ⟨other,later,same,clipped⟩
        obtain ⟨rfl,-⟩ := Frame.bytes_inj (parts.symm.trans same)
        omega
    · refine iff_of_true ⟨.sliceIndex,?_⟩ ⟨frame,rest,parts,by omega⟩
      rw [openChunk,dif_neg long]
      rfl
  · have incomplete := incomplete_short short
    refine iff_of_false ?_ ?_
    · rintro ⟨fault,panics⟩
      obtain ⟨label,stopped⟩ := readTcpSession_short suite aead key iv stream short
      rw [stopped] at panics
      exact stop_calm _ _ fault (Except.error.inj panics)
    · rintro ⟨frame,rest,same,-⟩
      exact incomplete frame rest same

def SessionCipher.Follows : SessionCipher c → List Frame → Prop
  | _,[] => True
  | session,frame :: rest =>
    frame.body ≠ [] ∧ c.nonceSize ≤ frame.body.length ∧
      ∃ pt later, session.decryptChunk suite (frame.body.drop c.nonceSize) frame.size.val = .ok (pt,later) ∧ later.Follows rest

def SessionCipher.Spared (session : SessionCipher c) (text : Bytes) : Prop :=
  ∀ (before : List Frame) (tail : Bytes), text = before.flatMap Frame.bytes ++ tail → session.Follows suite before → ¬ Clipped c tail

section
variable {suite} {session : SessionCipher c}

theorem session_spared_follows (present : frame.body ≠ []) (long : c.nonceSize ≤ frame.body.length)
    (opened : session.decryptChunk suite (frame.body.drop c.nonceSize) frame.size.val = .ok (pt,later)) (rest) :
    session.Spared suite (frame.bytes ++ rest) ↔ later.Spared suite rest := by
  constructor
  · intro spared before tail parts follows
    exact spared (frame :: before) tail (by rw [parts,flatMap_cons,append_assoc]) ⟨present,long,pt,later,opened,follows⟩
  · intro spared before tail parts follows
    obtain ⟨-,rfl⟩ | ⟨others,rfl,behind⟩ := frames_front parts
    · exact fun clipped => Nat.not_le_of_lt (clipped_front clipped).2 long
    · obtain ⟨-,-,_,_,found,follows⟩ := follows
      cases opened.symm.trans found
      exact spared others tail behind follows

theorem session_spared_ended (ended : ∀ others, ¬ session.Follows suite (frame :: others))
    (whole : frame.body = [] ∨ c.nonceSize ≤ frame.body.length) (rest) : session.Spared suite (frame.bytes ++ rest) := by
  intro before tail parts follows
  obtain ⟨-,rfl⟩ | ⟨others,rfl,-⟩ := frames_front parts
  · intro clipped
    obtain ⟨present,short⟩ := clipped_front clipped
    obtain empty | long := whole
    · exact present empty
    · omega
  · exact absurd follows (ended others)

theorem session_spared_incomplete (incomplete : Incomplete text) : session.Spared suite text := by
  intro before tail parts _
  obtain ⟨-,rfl⟩ := incomplete_front incomplete parts
  exact incomplete_unclipped incomplete

end

theorem toLinkLoop_short (turns) (session : SessionCipher c) (link) (short : Short stream.text) :
    ∃ label, (toLinkLoop suite (turns + 1) session link stream).2 = some (stream.ending.stop.labelled label) := by
  rw [toLinkLoop]
  obtain short | ⟨size,rest,parts,short⟩ := short
  · rw [readExact_short stream short]
    exact ⟨_,rfl⟩
  · obtain ⟨middle,read,text,ending⟩ := readExact_enough stream parts size.property
    have present := Nat.ne_of_gt (Nat.zero_lt_of_lt short)
    rw [read]
    dsimp only
    rw [if_neg present,readExact_short middle (by rwa [text]),ending]
    exact ⟨_,rfl⟩

theorem toLinkLoop_panics_iff (turns) (session : SessionCipher c) (stream : Stream cap) (enough : stream.text.length < turns) :
    (∀ link fault, (toLinkLoop suite turns session link stream).2 ≠ some (.panic fault)) ↔ session.Spared suite stream.text := by
  induction turns generalizing session stream with
  | zero => omega
  | succ turns ih =>
    obtain ⟨frame,later,parts⟩ | short := framed_or_short stream.text
    · obtain ⟨rest,text,turn⟩ := toLinkLoop_frame suite turns session stream frame parts
      have shorter : rest.text.length < turns := by
        rw [parts,length_append,frame.bytes_length] at enough
        rw [text]
        omega
      simp only [turn]
      rw [parts]
      by_cases empty : frame.body = []
      · simp only [if_pos empty]
        exact iff_of_true (fun _ _ => nofun) (session_spared_ended (fun _ follows => follows.1 empty) (.inl empty) later)
      · simp only [if_neg empty]
        by_cases long : c.nonceSize ≤ frame.body.length
        · simp only [if_pos long]
          cases opened : session.decryptChunk suite _ frame.size.val with
          | error e =>
            refine iff_of_true (fun _ _ => nofun) (session_spared_ended ?_ (.inr long) later)
            rintro others ⟨-,-,pt,after,found,-⟩
            rw [opened] at found
            cases found
          | ok result =>
            obtain ⟨pt,after⟩ := result
            rw [session_spared_follows empty long opened later,← text,← ih after rest shorter]
            constructor
            · intro calm link
              exact calm fun k => Nat.casesOn k (.ok ()) link
            · intro calm link
              cases link 0 with
              | error e => nofun
              | ok _ => exact calm fun k => link (k + 1)
        · simp only [if_neg long]
          refine iff_of_false (fun calm => calm (fun _ => .ok ()) .sliceIndex rfl) ?_
          intro spared
          exact spared [] _ rfl trivial ⟨frame,later,rfl,empty,by omega⟩
    · refine iff_of_true ?_ (session_spared_incomplete (incomplete_short short))
      intro link fault panics
      obtain ⟨label,stopped⟩ := toLinkLoop_short suite turns session link short
      rw [stopped] at panics
      exact stop_calm _ _ fault (Option.some.inj panics)

def Panics (result : Reading (Bytes × Option Stop)) : Prop :=
  ∃ fault, result = .error (.panic fault) ∨ ∃ bytes, result = .ok (bytes,some (.panic fault))

theorem response_panics_iff (aead : c.isAead = true) (key) (stream : Stream cap) :
    (∀ link, ¬ Panics (readResponse suite c key link stream)) ↔ ∀ (iv : Octets c.ivSize) body, stream.text = iv.val ++ body →
        SessionCipher.Spared suite ⟨suite.hkdfSha1 key iv.val c.keySize,Octets.zero c.nonceSize⟩ body := by
  by_cases short : stream.text.length < c.ivSize
  · refine iff_of_true ?_ ?_
    · rintro link ⟨fault,panics | ⟨bytes,panics⟩⟩
      · rw [readResponse,readExact_short stream short] at panics
        exact stop_calm _ _ fault (Except.error.inj panics)
      · rw [readResponse,readExact_short stream short] at panics
        cases panics
    · intro iv body parts
      rw [parts,length_append] at short
      omega
  · let iv : Octets c.ivSize := ⟨stream.text.take c.ivSize,List.length_take_of_le (by omega)⟩
    have parts : stream.text = iv.val ++ stream.text.drop c.ivSize := (List.take_append_drop ..).symm
    obtain ⟨rest,read,text,-⟩ := readExact_enough stream parts iv.property
    let session : SessionCipher c := ⟨suite.hkdfSha1 key iv.val c.keySize,Octets.zero c.nonceSize⟩
    have whole (link : Nat → Except String Unit) : readResponse suite c key link stream = .ok (toLink suite session link rest) := by
      rw [readResponse,read,labelled_ok,ok_bind]
      dsimp only
      rw [SessionCipher.new,createAuthenticator,if_pos aead]
      rfl
    have loop := toLinkLoop_panics_iff suite _ session rest (Nat.lt_succ_self _)
    constructor
    · intro calm other body same
      obtain ⟨equal,rfl⟩ := List.append_inj (same.symm.trans parts) (by rw [other.property,iv.property])
      rw [show other = iv from Subtype.ext equal,← text]
      refine loop.mp fun link fault panics => calm link ⟨fault,.inr ⟨(toLink suite session link rest).1,?_⟩⟩
      rw [whole]
      exact congrArg Except.ok (Prod.ext rfl panics)
    · rintro spared link ⟨fault,panics | ⟨bytes,panics⟩⟩
      · rw [whole] at panics
        cases panics
      · rw [whole] at panics
        have calm := loop.mpr (by rw [text]; exact spared iv _ parts) link fault
        exact calm (congrArg Prod.snd (Except.ok.inj panics))

theorem parsing_safe_iff (aead : c.isAead = true) (key iv : Bytes) (stream : Stream cap) :
    ((∀ fault, readTcpSession suite c key iv stream ≠ .error (.panic fault)) ↔
      ∀ (frame : Frame) (rest : Bytes), stream.text = frame.bytes ++ rest → c.nonceSize ≤ frame.body.length) ∧
    (∀ reader : DecryptingReader c, Behaves suite reader stream ↔ Spared suite reader.cipher stream.ending (backlog reader stream)) ∧
    ((∀ link, ¬ Panics (readResponse suite c key link stream)) ↔
      ∀ (iv : Octets c.ivSize) (body : Bytes), stream.text = iv.val ++ body →
        SessionCipher.Spared suite ⟨suite.hkdfSha1 key iv.val c.keySize,Octets.zero c.nonceSize⟩ body) := by
  refine ⟨?_,fun reader => behaves_iff suite reader stream,response_panics_iff suite aead key stream⟩
  have session := session_panics_iff suite aead key iv stream
  constructor
  · intro calm frame rest parts
    by_contra short
    obtain ⟨fault,panics⟩ := session.mpr ⟨frame,rest,parts,by omega⟩
    exact calm fault panics
  · intro whole fault panics
    obtain ⟨frame,rest,parts,short⟩ := session.mp ⟨fault,panics⟩
    exact absurd (whole frame rest parts) (by omega)

def clippedStream : Stream 64 := ⟨[some ⟨[0,1,7],by decide⟩],.stillOpen⟩
def clippedResponse : Stream 64 := ⟨[some ⟨List.replicate 16 0 ++ [0,1,7],by decide⟩],.stillOpen⟩

def wholeStream : Stream 64 := ⟨[some ⟨[0,12] ++ List.replicate 12 7,by decide⟩],.stillOpen⟩

theorem parsing_safe_whole : ¬ ∃ fault, readTcpSession exposedSuite .aes128Gcm [] [] wholeStream = .error (.panic fault) := by
  refine not_exists.mpr ((parsing_safe_iff exposedSuite rfl [] [] wholeStream).1.mpr fun frame rest parts => ?_)
  have whole : wholeStream.text = (⟨⟨[0,12],rfl⟩,List.replicate 12 7,rfl⟩ : Frame).bytes ++ [] := rfl
  obtain ⟨rfl,-⟩ := Frame.bytes_inj (whole.symm.trans parts)
  decide

-- All three readers panic on it, and the reader of a session whose peer closes the connection never returns.
theorem clipped_chunk_panics : readTcpSession exposedSuite .aes128Gcm [] [] clippedStream = .error (.panic .sliceIndex) ∧
    (∃ reader stream, (DecryptingReader.fresh (c := .aes128Gcm) (Octets.zero 16) (Octets.zero 12)).pollRead exposedSuite 1 clippedStream =
      some (.panic .sliceIndex,reader,stream)) ∧
    readResponse exposedSuite .aes128Gcm [] (fun _ => .ok ()) clippedResponse = .ok ([],some (.panic .sliceIndex)) ∧
    ∀ turns, (DecryptingReader.fresh (c := .aes128Gcm) (Octets.zero 16) (Octets.zero 12)).loop exposedSuite 1 turns
      (⟨[],.closed⟩ : Stream 64) = none :=
  ⟨rfl,⟨_,_,rfl⟩,rfl,pollRead_stuck exposedSuite rfl⟩

-- `poll_read`, polled again after each `Pending`, returns data, the end of the file or an error.
inductive Ends (room : Nat) : DecryptingReader c → Stream cap → Prop
  | returned (turn : reader.turn suite room stream = .returns polled later rest) (waited : polled ≠ .pending)
      (calm : ∀ fault, polled ≠ .panic fault) : Ends room reader stream
  | resumed (turn : reader.turn suite room stream = .returns .pending later rest) (ends : Ends room later rest) : Ends room reader stream
  | again (turn : reader.turn suite room stream = .again later rest) (ends : Ends room later rest) : Ends room reader stream

def Frame.Decides (cipher : Octets c.keySize) (frame : Frame) : Prop :=
  frame.body = [] ∨ (∃ pt, pt ≠ [] ∧ frame.Carries suite cipher pt) ∨ ∃ e, openChunk suite cipher frame.size frame.body = .ok (.error e)

def Decided (cipher : Octets c.keySize) (text : Bytes) : Prop :=
  ∃ (before : List Frame) (frame : Frame) (rest : Bytes), text = before.flatMap Frame.bytes ++ (frame.bytes ++ rest) ∧
    (∀ other ∈ before, other.Carries suite cipher []) ∧ frame.Decides suite cipher

def Settles (reader : DecryptingReader c) (stream : Stream cap) : Prop :=
  reader.output ≠ [] ∨ Decided suite reader.cipher (backlog reader stream)

section
variable {suite} {cipher : Octets c.keySize}

theorem decided_here (decides : frame.Decides suite cipher) : Decided suite cipher (frame.bytes ++ rest) :=
  ⟨[],frame,rest,rfl,nofun,decides⟩

theorem decided_front (decided : Decided suite cipher (frame.bytes ++ rest)) :
    frame.Decides suite cipher ∨ frame.Carries suite cipher [] ∧ Decided suite cipher rest := by
  obtain ⟨before,last,later,parts,carried,decides⟩ := decided
  obtain ⟨-,same⟩ | ⟨others,rfl,behind⟩ := frames_front parts
  · obtain ⟨rfl,-⟩ := Frame.bytes_inj same
    exact .inl decides
  · exact .inr ⟨carried frame (List.mem_cons_self ..),others,last,later,behind,fun other among => carried other (List.mem_cons_of_mem _ among),decides⟩

theorem decided_passed (carries : frame.Carries suite cipher []) : Decided suite cipher (frame.bytes ++ rest) ↔ Decided suite cipher rest := by
  constructor
  · intro decided
    obtain (empty | ⟨pt,present,opened⟩ | ⟨e,refused⟩) | ⟨-,later⟩ := decided_front decided
    · have width := carries.length
      rw [empty] at width
      omega
    · cases carries.symm.trans opened
      exact absurd rfl present
    · rw [Frame.Carries,refused] at carries
      cases carries
    · exact later
  · rintro ⟨before,last,later,parts,carried,decides⟩
    refine ⟨frame :: before,last,later,by rw [parts,flatMap_cons,append_assoc],?_,decides⟩
    intro other among
    rcases List.mem_cons.mp among with rfl | among
    · exact carries
    · exact carried other among

theorem undecided_incomplete (incomplete : Incomplete text) : ¬ Decided suite cipher text := by
  rintro ⟨before,frame,rest,parts,-⟩
  exact incomplete frame rest (incomplete_front incomplete parts).2.symm

theorem undecided_clipped (present : 0 < frame.body.length) (clipped : frame.body.length < c.nonceSize) :
    ¬ Decided suite cipher (frame.bytes ++ rest) := by
  have faults : openChunk suite cipher frame.size frame.body = .error .sliceIndex := by
    rw [openChunk,dif_neg (by omega)]
  intro decided
  obtain (empty | ⟨pt,-,opened⟩ | ⟨e,refused⟩) | ⟨opened,-⟩ := decided_front decided
  · rw [empty] at present
    cases present
  · rw [Frame.Carries,faults] at opened
    cases opened
  · cases faults.symm.trans refused
  · rw [Frame.Carries,faults] at opened
    cases opened

end

inductive Verdict (room : Nat) (reader : DecryptingReader c) (stream : Stream cap) : Prop where
  | ends (polled : Polled) (later : DecryptingReader c) (rest : Stream cap) (turn : reader.turn suite room stream = .returns polled later rest)
      (waited : polled ≠ .pending) (calm : ∀ fault, polled ≠ .panic fault) (settles : Settles suite reader stream)
  | panics (fault : Panic) (later : DecryptingReader c) (rest : Stream cap)
      (turn : reader.turn suite room stream = .returns (.panic fault) later rest) (silent : ¬ Settles suite reader stream)
  | goes (later : DecryptingReader c) (rest : Stream cap)
      (turn : reader.turn suite room stream = .returns .pending later rest ∨ reader.turn suite room stream = .again later rest)
      (ending : rest.ending = stream.ending) (same : Settles suite later rest ↔ Settles suite reader stream)
      (nearer : rest.text.length + rest.arrivals.length < stream.text.length + stream.arrivals.length)
  | spins (turn : reader.turn suite room stream = .again reader stream) (silent : ¬ Settles suite reader stream)

theorem turn_verdict (closed : stream.ending = .closed) : Verdict suite room reader stream := by
  have silent (dry : reader.output = []) (undecided : ¬ Decided suite reader.cipher _) :
      ¬ Settles suite reader stream := not_or.mpr ⟨not_not.mpr dry,undecided⟩
  cases turn_cases suite room reader stream with
  | drains present turn => exact .ends _ _ _ turn (by simp) (by simp) (.inl present)
  | waits _ _ _ ending | broken _ _ _ _ ending => cases closed.symm.trans ending
  | delayed _ later turn text ending fewer =>
    refine .goes _ _ (.inl turn) ending ?_ (by rw [text]; omega)
    rw [Settles,Settles,backlog,backlog,text]
  | spins dry turn empty => exact .spins turn (silent dry (undecided_incomplete (incomplete_empty empty)))
  | fills dry stage later turn kept ending shorter fewer =>
    refine .goes _ _ (.inr turn) ending ?_ (by omega)
    rw [Settles,Settles,← kept]
    rfl
  | empties _ frame later turn parts zero => exact .ends _ _ _ turn (by simp) (by simp) (.inr (parts ▸ decided_here (.inl zero)))
  | faults dry frame later turn parts present clipped =>
    exact .panics _ _ _ turn (silent dry (parts ▸ undecided_clipped present clipped))
  | refuses _ frame e later turn parts _ refused =>
    exact .ends _ _ _ turn (by simp) (by simp) (.inr (parts ▸ decided_here (.inr (.inr ⟨e,refused⟩))))
  | opens dry frame pt later turn parts carries ending shorter fewer =>
    refine .goes _ _ (.inr turn) ending ?_ (by omega)
    rw [Settles,Settles,parts]
    by_cases empty : pt = []
    · subst empty
      rw [decided_passed carries,dry]
      rfl
    · exact iff_of_true (.inl empty) (.inr (decided_here (.inr (.inl ⟨pt,empty,carries⟩))))

theorem settles_onward (closed : stream.ending = .closed)
    (turn : reader.turn suite room stream = .returns .pending after later ∨ reader.turn suite room stream = .again after later)
    (rest : later.ending = .closed → Settles suite after later) : Settles suite reader stream := by
  cases turn_verdict suite closed with
  | ends _ _ _ _ _ _ settles => exact settles
  | panics _ _ _ other => rcases turn with turn | turn <;> cases turn.symm.trans other
  | goes _ _ other ending same =>
    rcases turn with turn | turn <;> rcases other with other | other <;> cases turn.symm.trans other <;>
      exact same.mp (rest (ending.trans closed))
  | spins other =>
    rcases turn with turn | turn <;> cases turn.symm.trans other
    exact rest closed

theorem ends_settles (ends : Ends suite room reader stream) (closed : stream.ending = .closed) : Settles suite reader stream := by
  induction ends with
  | returned turn waited calm =>
    cases turn_verdict suite closed with
    | ends _ _ _ _ _ _ settles => exact settles
    | panics fault _ _ other =>
      cases turn.symm.trans other
      exact absurd rfl (calm fault)
    | goes _ _ other =>
      rcases other with other | other
      · cases turn.symm.trans other
        exact absurd rfl waited
      · cases turn.symm.trans other
    | spins other => cases turn.symm.trans other
  | resumed turn _ ih => exact settles_onward suite closed (.inl turn) ih
  | again turn _ ih => exact settles_onward suite closed (.inr turn) ih

theorem reader_ends_iff (room : Nat) (reader : DecryptingReader c) (stream : Stream cap) (closed : stream.ending = .closed) :
    Ends suite room reader stream ↔ Settles suite reader stream := by
  refine ⟨fun ends => ends_settles suite ends closed,fun settles => ?_⟩
  induction size : stream.text.length + stream.arrivals.length using Nat.strong_induction_on generalizing reader stream with
  | _ n ih =>
    subst size
    cases turn_verdict suite closed with
    | ends _ _ _ turn waited calm => exact .returned turn waited calm
    | panics _ _ _ _ silent => exact absurd settles silent
    | goes later rest turn ending same nearer =>
      have ends := ih _ nearer later rest (ending.trans closed) (same.mpr settles) rfl
      rcases turn with turn | turn
      · exact .resumed turn ends
      · exact .again turn ends
    | spins _ silent => exact absurd settles silent

theorem reader_ends_zero : Ends exposedSuite 1 (DecryptingReader.fresh (c := .aes128Gcm) (Octets.zero 16) (Octets.zero 12))
    (⟨[some ⟨[0,0],by decide⟩],.closed⟩ : Stream 64) :=
  (reader_ends_iff exposedSuite 1 _ _ rfl).mpr (.inr ⟨[],⟨⟨[0,0],rfl⟩,[],rfl⟩,[],rfl,by simp,.inl rfl⟩)

theorem closed_reader_spins :
    ¬ Ends exposedSuite 1 (DecryptingReader.fresh (c := .aes128Gcm) (Octets.zero 16) (Octets.zero 12)) (⟨[],.closed⟩ : Stream 64) := by
  intro ends
  obtain present | decided := ends_settles exposedSuite ends rfl
  · exact present rfl
  · exact undecided_incomplete (incomplete_empty rfl) decided

end AstraCore.Shadowsocks
