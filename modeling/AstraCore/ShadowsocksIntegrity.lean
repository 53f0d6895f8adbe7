import AstraCore.ShadowsocksSession

namespace AstraCore.Shadowsocks
open CheckedBytes NetAddress PolledStream List
variable {cap : Nat} (suite : Suite) {c : CipherType}

section
variable (cipher : Octets c.keySize)

-- What somebody on the way can make of the chunks of a sender, which are listed with their texts: any stream, as long as
-- an ideal AEAD lets nothing pass but those chunks where one is read.
def Attack (sent : List (Bytes × Bytes)) (wire : Bytes) : Prop :=
  ∀ (before : List Frame) (frame : Frame) (rest pt : Bytes), wire = before.flatMap Frame.bytes ++ (frame.bytes ++ rest) →
    frame.Carries suite cipher pt → (pt,frame.bytes) ∈ sent

def Intact (plain wire : Bytes) : Prop :=
  ∀ {cap} (stream : Stream cap), stream.text = wire → ∀ nonce rooms polled later rest,
    (DecryptingReader.fresh cipher nonce).reads suite rooms stream = some (polled,later,rest) → delivered polled <+: plain

theorem intact_iff (sized : ∀ frame ∈ wire, frame.Sized c) : Intact suite cipher plain (wire.flatMap Frame.bytes) ↔ plaintexts suite cipher wire <+: plain := by
  constructor
  · intro intact
    obtain ⟨stream,text,ending⟩ := stream_exists _ .stillOpen
    have ahead := fresh_ahead suite cipher (Octets.zero c.nonceSize) wire stream text
    let calls := List.replicate (weight (.fresh cipher (Octets.zero c.nonceSize)) stream + 1) 1
    obtain ⟨polled,later,rest,finished⟩ := reads_return suite sized ahead (by rw [ending]; nofun) calls
    have conveyed := reads_convey suite sized ahead finished
    have whole := conveyed.all (fun room among => by rw [eq_of_mem_replicate among]; exact Nat.one_pos)
      (by rw [length_replicate]; exact Nat.lt_succ_self _)
    rw [← whole]
    exact intact stream text _ _ _ _ _ finished
  · intro front cap stream text nonce rooms polled later rest finished
    exact (reads_convey suite sized (fresh_ahead suite cipher nonce wire stream text) finished).part.trans front

end

theorem encryptChunks_made {session : SessionCipher c} (wrote : session.encryptChunks suite chunks = .ok sent) (among : chunk ∈ chunks) :
    ∃ (later left : SessionCipher c) (bytes : Bytes), later.cipher = session.cipher ∧
      later.encryptChunk suite chunk = .ok (bytes,left) ∧ (chunk,bytes) ∈ chunks.zip sent := by
  induction chunks generalizing session sent with
  | nil => cases among
  | cons first chunks ih =>
    obtain ⟨⟨bytes,after⟩,made,wrote⟩ := checked_bind wrote
    obtain ⟨others,further,wrote⟩ := checked_bind wrote
    cases wrote
    rcases mem_cons.mp among with rfl | among
    · exact ⟨session,after,bytes,rfl,made,mem_cons_self ..⟩
    · obtain ⟨later,left,bytes',keyed,made',listed⟩ := ih further among
      have kept : after.cipher = session.cipher := by
        obtain ⟨ct,-,made⟩ := checked_bind made
        cases made
        rfl
      exact ⟨later,left,bytes',keyed.trans kept,made',mem_cons_of_mem _ listed⟩

theorem frames_among {frames before : List Frame} (parts : frames.flatMap Frame.bytes = before.flatMap Frame.bytes ++ (frame.bytes ++ rest)) :
    frame ∈ frames := by
  induction before generalizing frames with
  | nil =>
    obtain ⟨others,rfl,-⟩ := frames_head parts
    exact mem_cons_self ..
  | cons first before ih =>
    rw [flatMap_cons,append_assoc] at parts
    obtain ⟨others,rfl,later⟩ := frames_head parts
    exact mem_cons_of_mem _ (ih later.symm)

theorem replay_attack {cipher : Octets c.keySize} (carries : frame.Carries suite cipher chunk)
    (listed : (chunk,frame.bytes) ∈ sent) (copies) : Attack suite cipher sent ((List.replicate copies frame).flatMap Frame.bytes) := by
  intro before other rest pt parts opened
  cases eq_of_mem_replicate (frames_among parts)
  rw [Frame.Carries,carries] at opened
  cases opened
  exact listed

theorem replay_intact_iff (carries : frame.Carries suite cipher chunk) (copies) :
    Intact suite cipher plain ((List.replicate copies frame).flatMap Frame.bytes) ↔ (List.replicate copies chunk).flatten <+: plain := by
  have carried : List.Forall₂ (Frame.Carries suite cipher) (List.replicate copies frame) (List.replicate copies chunk) := by
    induction copies with
    | zero => exact .nil
    | succ copies ih => exact .cons carries ih
  rw [intact_iff suite cipher (fun other among => (sized_carried suite carried other among).1),plaintexts_carried suite carried]

theorem turn_silent {stream : Stream cap}
    (silent : ∀ (before : List Frame) (frame : Frame) (rest pt : Bytes), wire = before.flatMap Frame.bytes ++ (frame.bytes ++ rest) →
      frame.Carries suite cipher pt → pt = [])
    (state : reader.cipher = cipher ∧ reader.output = [] ∧ ∃ before : List Frame, wire = before.flatMap Frame.bytes ++ backlog reader stream) :
    (∃ polled reader' stream', reader.turn suite room stream = .returns polled reader' stream' ∧ polled.data = [] ∧
      (polled.ends = false → reader'.cipher = cipher ∧ reader'.output = [] ∧
        ∃ before : List Frame, wire = before.flatMap Frame.bytes ++ backlog reader' stream')) ∨
    ∃ reader' stream', reader.turn suite room stream = .again reader' stream' ∧ reader'.cipher = cipher ∧ reader'.output = [] ∧
      ∃ before : List Frame, wire = before.flatMap Frame.bytes ++ backlog reader' stream' := by
  obtain ⟨keyed,dry,before,parted⟩ := state
  have passed (frame : Frame) (later : Stream cap) (parts : backlog reader stream = frame.bytes ++ later.text) :
      wire = (before ++ [frame]).flatMap Frame.bytes ++ later.text := by
    rw [parted,parts,flatMap_append,append_assoc,flatMap_singleton]
  cases turn_cases suite room reader stream with
  | drains present => exact absurd dry present
  | waits _ turn => exact .inl ⟨_,_,_,turn,rfl,fun _ => ⟨keyed,dry,before,parted⟩⟩
  | delayed _ later turn text =>
    exact .inl ⟨_,_,_,turn,rfl,fun _ => ⟨keyed,dry,before,by rw [backlog,text]; exact parted⟩⟩
  | broken _ e turn => exact .inl ⟨_,_,_,turn,rfl,fun goes => by cases goes⟩
  | spins _ turn => exact .inr ⟨_,_,turn,keyed,dry,before,parted⟩
  | fills _ stage later turn kept => exact .inr ⟨_,_,turn,keyed,dry,before,parted.trans (congrArg _ kept.symm)⟩
  | empties _ frame later turn parts => exact .inl ⟨_,_,_,turn,rfl,fun _ => ⟨keyed,dry,_,passed frame later parts⟩⟩
  | faults _ _ _ turn | refuses _ _ _ _ turn => exact .inl ⟨_,_,_,turn,rfl,fun goes => by cases goes⟩
  | opens _ frame pt later turn parts carries =>
    rw [keyed] at carries
    have empty := silent before frame later.text pt (by rw [parted,parts]) carries
    exact .inr ⟨_,_,turn,keyed,empty,_,passed frame later parts⟩

theorem reads_silent (silent : ∀ (before : List Frame) (frame : Frame) (rest pt : Bytes), wire = before.flatMap Frame.bytes ++ (frame.bytes ++ rest) →
      frame.Carries suite cipher pt → pt = [])
    (state : reader.cipher = cipher ∧ reader.output = [] ∧ ∃ before : List Frame, wire = before.flatMap Frame.bytes ++ backlog reader stream)
    (finished : reader.reads suite rooms stream = some (polled,later,rest)) : delivered polled = [] := by
  induction rooms generalizing reader stream polled with
  | nil =>
    cases finished
    rfl
  | cons room rooms ih =>
    obtain ⟨answer,reader',stream',first,run⟩ := reads_cons suite finished
    obtain ⟨nothing,further⟩ := loop_invariant _ _ (fun reader stream state => turn_silent suite silent state) state first
    obtain ⟨-,rfl⟩ | ⟨goes,others,found,rfl⟩ := run
    · exact append_eq_nil_iff.mpr ⟨nothing,rfl⟩
    · exact append_eq_nil_iff.mpr ⟨nothing,ih (further goes) found⟩

theorem stream_integrity_iff (session : SessionCipher c) (chunks sent : List Bytes)
    (wrote : session.encryptChunks suite chunks = .ok sent) :
    (∀ wire, Attack suite session.cipher (chunks.zip sent) wire → Intact suite session.cipher chunks.flatten wire) ↔
      ∀ chunk ∈ chunks, Announceable c chunk → chunk = [] := by
  constructor
  · intro intact chunk among within
    obtain ⟨later,left,bytes,keyed,made,listed⟩ := encryptChunks_made suite wrote among
    obtain ⟨frame,framed,carries⟩ := encryptChunk_frame suite later chunk within
    cases made.symm.trans framed
    rw [keyed] at carries
    have replayed : Intact suite session.cipher chunks.flatten _ := intact _ (replay_attack suite carries listed (chunks.flatten.length + 1))
    have lengths := ((replay_intact_iff suite carries _).mp replayed).length_le
    rw [length_flatten,map_replicate,sum_replicate_nat] at lengths
    by_contra present
    have positive := length_pos_of_ne_nil present
    have more := Nat.mul_le_mul_left (chunks.flatten.length + 1) positive
    omega
  · intro silent wire attack cap stream text nonce rooms polled later rest finished
    rw [reads_silent suite ?_ ⟨rfl,rfl,[],text.symm⟩ finished]
    · exact nil_prefix
    · intro before frame rest pt parts carries
      have listed := attack before frame rest pt parts carries
      have small : announced frame.size < 2^16 := UInt16.toNat_lt _
      exact silent pt (of_mem_zip listed).1 (by rw [Announceable,← carries.length,frame.whole]; exact small)

theorem stream_integrity_iff_exposed :
    (∀ wire, Attack exposedSuite (c := .aes128Gcm) (Octets.zero 16) [([5],[0,29] ++ List.replicate 28 0 ++ [5])] wire →
      Intact exposedSuite (c := .aes128Gcm) (Octets.zero 16) [5] wire) ↔
      ∀ chunk ∈ [[5]], Announceable .aes128Gcm chunk → chunk = [] :=
  stream_integrity_iff exposedSuite (c := .aes128Gcm) ⟨Octets.zero 16,Octets.zero 12⟩ [[5]]
    [[0,29] ++ List.replicate 28 0 ++ [5]] rfl

theorem chunk_replayed :
    ∃ frame : Frame, SessionCipher.encryptChunks exposedSuite (c := .aes128Gcm) ⟨Octets.zero 16,Octets.zero 12⟩ [[5]] = .ok [frame.bytes] ∧
      Attack exposedSuite (c := .aes128Gcm) (Octets.zero 16) [([5],frame.bytes)] ([frame,frame].flatMap Frame.bytes) ∧
      ¬ Intact exposedSuite (c := .aes128Gcm) (Octets.zero 16) [5] ([frame,frame].flatMap Frame.bytes) := by
  obtain ⟨frame,sent,carries⟩ := encryptChunk_frame exposedSuite (c := .aes128Gcm) ⟨Octets.zero 16,Octets.zero 12⟩ [5]
    (announceable .aes128Gcm (by decide))
  refine ⟨frame,?_,replay_attack exposedSuite carries (mem_singleton_self _) 2,?_⟩
  · rw [SessionCipher.encryptChunks,sent]
    rfl
  · intro intact
    have longer := ((replay_intact_iff exposedSuite carries 2).mp intact).length_le
    simp at longer

end AstraCore.Shadowsocks
