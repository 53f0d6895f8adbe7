import AstraCore.Machine
import AstraCore.StreamSecurity

namespace AstraCore.SplitHttp
open CheckedBytes Machine

structure Post where
  seq : Nat
  body : Bytes

-- Where `upload_loop` stands: at its `select!`, in its inner loop, or behind both.
inductive UploadPhase where
  | receiving
  | posting
  | ended
deriving DecidableEq

-- The loop with its channel. `received` is all that has come out of the channel, `posts` every call of `send_post`.
structure Uploader where
  channel : List Bytes
  closed : Bool
  received : Bytes
  buf : Bytes
  seq : Nat
  posts : List Post
  phase : UploadPhase

def Uploader.start : Uploader := ⟨[],false,[],[],0,[],.receiving⟩

section
variable (maxUploadSize : Nat)

def phaseOf (buf : Bytes) : UploadPhase := if buf.length ≥ maxUploadSize then .posting else .receiving

-- The other end of the connection sends and closes; the loop takes from the channel; `send_post` returns, without an error if
-- `sent`.
inductive UploadEvent where
  | send (data : Bytes)
  | close
  | recv
  | post (sent : Bool)

section
variable (loop : Uploader)

def Uploader.extend (data : Bytes) (rest : List Bytes) : Uploader :=
  {loop with
    channel := rest
    received := loop.received ++ data
    buf := loop.buf ++ data
    phase := phaseOf maxUploadSize (loop.buf ++ data)}

-- The `else` of the `select!`: nobody can send any more.
def Uploader.finish : Uploader :=
  {loop with
    posts := if loop.buf ≠ [] then loop.posts ++ [⟨loop.seq,loop.buf⟩] else loop.posts
    phase := .ended}

def Uploader.postChunk (sent : Bool) : Uploader :=
  {loop with
    buf := loop.buf.drop maxUploadSize
    posts := loop.posts ++ [⟨loop.seq,loop.buf.take maxUploadSize⟩]
    seq := if sent then loop.seq + 1 else loop.seq
    phase := if sent then phaseOf maxUploadSize (loop.buf.drop maxUploadSize) else .ended}

def uploadStep : UploadEvent → Option Uploader
  | .send data => if loop.closed then none else some {loop with channel := loop.channel ++ [data]}
  | .close => some {loop with closed := true}
  | .recv =>
    if loop.phase = .receiving then
      match loop.channel with
      | data :: rest => some (loop.extend maxUploadSize data rest)
      | [] => if loop.closed then some loop.finish else none
    else none
  | .post sent => if loop.phase = .posting then some (loop.postChunk maxUploadSize sent) else none

def Uploader.posted : Bytes := (loop.posts.map Post.body).flatten

def Uploader.Waits : Prop := loop.phase = .receiving ∧ loop.channel = [] ∧ loop.closed = false

def InnerEnds : Prop :=
  ∃ bound, ∀ outcomes : List Bool, run (uploadStep maxUploadSize) loop (outcomes.map .post) ≠ none → outcomes.length ≤ bound

structure Faithful : Prop where
  numbered : loop.posts.map Post.seq = List.range loop.posts.length
  front : loop.posted <+: loop.received
  ends : InnerEnds maxUploadSize loop
  flushed : loop.Waits → loop.posted = loop.received

-- What the buffers have to do with the size: nothing is received with a size of zero, and whenever the loop waits it has
-- received a multiple of it.
structure Even : Prop where
  sized : loop.phase = .posting → 0 < maxUploadSize
  whole : loop.Waits → maxUploadSize ∣ loop.received.length

structure Running : Prop where
  parts : loop.received = loop.posted ++ loop.buf
  seq : loop.seq = loop.posts.length
  full : ∀ post ∈ loop.posts, post.body.length = maxUploadSize

structure Sane : Prop where
  numbered : loop.posts.map Post.seq = List.range loop.posts.length
  front : loop.posted <+: loop.received
  running : loop.phase ≠ .ended → Running maxUploadSize loop
  short : loop.phase = .receiving → loop.buf.length < maxUploadSize ∨ loop.received = []

end

end

theorem phaseOf_receiving (idle : phaseOf maxUploadSize buf = .receiving) : buf.length < maxUploadSize := by
  unfold phaseOf at idle
  split at idle
  · cases idle
  · omega

theorem phaseOf_posting (busy : phaseOf maxUploadSize buf = .posting) : maxUploadSize ≤ buf.length := by
  unfold phaseOf at busy
  split at busy
  · assumption
  · cases busy

theorem posted_append (loop : Uploader) : ((loop.posts ++ [post]).map Post.body).flatten = loop.posted ++ post.body := by
  rw [Uploader.posted]
  simp

theorem numbered_append {loop : Uploader} (numbered : loop.posts.map Post.seq = List.range loop.posts.length) (next : loop.seq = loop.posts.length) :
    (loop.posts ++ [(⟨loop.seq,body⟩ : Post)]).map Post.seq = List.range (loop.posts ++ [(⟨loop.seq,body⟩ : Post)]).length := by
  rw [List.map_append,numbered,List.length_append,List.length_singleton,List.range_succ,next]
  rfl

section
variable (sane : Sane maxUploadSize loop)
include sane

theorem extend_sane (idle : loop.phase = .receiving) : Sane maxUploadSize (loop.extend maxUploadSize data rest) := by
  obtain ⟨parts,seq,full⟩ := sane.running (by rw [idle]; decide)
  refine ⟨sane.numbered,sane.front.trans (List.prefix_append ..),fun _ => ⟨?_,seq,full⟩,fun later => .inl (phaseOf_receiving later)⟩
  change loop.received ++ data = loop.posted ++ (loop.buf ++ data)
  rw [parts,List.append_assoc]

theorem finish_sane (idle : loop.phase = .receiving) : Sane maxUploadSize loop.finish := by
  obtain ⟨parts,seq,-⟩ := sane.running (by rw [idle]; decide)
  refine ⟨?_,?_,fun on => absurd rfl on,fun later => by cases later⟩
  · unfold Uploader.finish
    split
    · exact numbered_append sane.numbered seq
    · exact sane.numbered
  · unfold Uploader.posted Uploader.finish
    split
    · exact ⟨[],by rw [List.append_nil,posted_append,← parts]⟩
    · exact sane.front

theorem postChunk_sane (busy : loop.phase = .posting) (long : maxUploadSize ≤ loop.buf.length) :
    Sane maxUploadSize (loop.postChunk maxUploadSize sent) := by
  obtain ⟨parts,seq,full⟩ := sane.running (by rw [busy]; decide)
  have whole : loop.received = (loop.posted ++ loop.buf.take maxUploadSize) ++ loop.buf.drop maxUploadSize := by
    rw [List.append_assoc,List.take_append_drop,parts]
  refine ⟨numbered_append sane.numbered seq,?_,fun on => ⟨?_,?_,?_⟩,fun later => .inl ?_⟩
  · change ((loop.posts ++ [(⟨loop.seq,loop.buf.take maxUploadSize⟩ : Post)]).map Post.body).flatten <+: loop.received
    rw [posted_append,whole]
    exact List.prefix_append ..
  · change loop.received = ((loop.posts ++ [(⟨loop.seq,loop.buf.take maxUploadSize⟩ : Post)]).map Post.body).flatten ++ loop.buf.drop maxUploadSize
    rw [posted_append]
    exact whole
  · cases sent with
    | false => exact absurd rfl on
    | true =>
      change loop.seq + 1 = (loop.posts ++ [_]).length
      rw [seq,List.length_append,List.length_singleton]
  · intro post member
    rcases List.mem_append.mp member with old | new
    · exact full post old
    · rw [List.mem_singleton.mp new]
      exact List.length_take_of_le long
  · cases sent with
    | false => cases later
    | true => exact phaseOf_receiving later

end

structure Invariant (maxUploadSize : Nat) (loop : Uploader) : Prop extends Sane maxUploadSize loop where
  long : loop.phase = .posting → maxUploadSize ≤ loop.buf.length

theorem start_invariant : Invariant maxUploadSize .start :=
  ⟨⟨rfl,List.prefix_rfl,fun _ => ⟨rfl,rfl,fun _ inside => by cases inside⟩,fun _ => .inr rfl⟩,fun busy => by cases busy⟩

theorem Invariant.sent (kept : Invariant maxUploadSize loop) (channel closed) : Invariant maxUploadSize {loop with channel, closed} := by
  refine ⟨⟨kept.numbered,kept.front,fun on => ?_,kept.short⟩,kept.long⟩
  obtain ⟨parts,seq,full⟩ := kept.running on
  exact ⟨parts,seq,full⟩

theorem step_invariant (kept : Invariant maxUploadSize loop) (step : uploadStep maxUploadSize loop event = some next) : Invariant maxUploadSize next := by
  cases event with
  | send data =>
    simp only [uploadStep] at step
    split at step
    · cases step
    · cases step
      exact kept.sent _ loop.closed
  | close =>
    cases step
    exact kept.sent loop.channel true
  | recv =>
    simp only [uploadStep] at step
    split at step
    · rename_i idle
      split at step
      · cases step
        exact ⟨extend_sane kept.toSane idle,fun busy => phaseOf_posting busy⟩
      · split at step
        · cases step
          exact ⟨finish_sane kept.toSane idle,fun busy => by cases busy⟩
        · cases step
    · cases step
  | post sent =>
    simp only [uploadStep] at step
    split at step
    · rename_i busy
      cases step
      refine ⟨postChunk_sane kept.toSane busy (kept.long busy),fun later => ?_⟩
      cases sent with
      | false => cases later
      | true => exact phaseOf_posting later
    · cases step

theorem post_refused (quiet : loop.phase ≠ .posting) : InnerEnds maxUploadSize loop := by
  refine ⟨0,fun outcomes goes => ?_⟩
  cases outcomes with
  | nil => exact Nat.le_refl 0
  | cons sent rest =>
    refine absurd ?_ goes
    rw [List.map_cons,run,uploadStep,if_neg quiet]
    rfl

theorem posts_bounded (positive : 0 < maxUploadSize) (kept : Invariant maxUploadSize loop) (outcomes : List Bool)
    (goes : run (uploadStep maxUploadSize) loop (outcomes.map .post) ≠ none) : outcomes.length ≤ loop.buf.length := by
  induction outcomes generalizing loop with
  | nil => exact Nat.zero_le _
  | cons sent rest ih =>
    by_cases busy : loop.phase = .posting
    · have step : uploadStep maxUploadSize loop (.post sent) = some _ := if_pos busy
      rw [List.map_cons,run,step] at goes
      have fewer := ih (step_invariant kept step) goes
      have long := kept.long busy
      change rest.length ≤ (loop.buf.drop maxUploadSize).length at fewer
      rw [List.length_drop] at fewer
      rw [List.length_cons]
      omega
    · rw [List.map_cons,run,uploadStep,if_neg busy] at goes
      exact absurd rfl goes

theorem posts_endless (busy : loop.phase = .posting) : run (uploadStep 0) loop ((List.replicate count true).map .post) ≠ none := by
  induction count generalizing loop with
  | zero => exact fun goes => by cases goes
  | succ count ih =>
    rw [List.replicate_succ,List.map_cons,run,uploadStep,if_pos busy]
    exact ih rfl

theorem innerEnds_iff (kept : Invariant maxUploadSize loop) : InnerEnds maxUploadSize loop ↔ (loop.phase = .posting → 0 < maxUploadSize) := by
  by_cases busy : loop.phase = .posting
  · constructor
    · rintro ⟨bound,bounded⟩ -
      by_contra zero
      obtain rfl : maxUploadSize = 0 := by omega
      have much := bounded (List.replicate (bound + 1) true) (posts_endless busy)
      rw [List.length_replicate] at much
      omega
    · intro positive
      exact ⟨loop.buf.length,fun outcomes goes => posts_bounded (positive busy) kept outcomes goes⟩
  · exact iff_of_true (post_refused busy) fun on => absurd on busy

theorem posted_length (posts : List Post) (full : ∀ post ∈ posts, post.body.length = size) :
    (posts.map Post.body).flatten.length = size * posts.length := by
  induction posts with
  | nil => rfl
  | cons post rest ih =>
    have later := ih fun other inside => full other (List.mem_cons_of_mem _ inside)
    rw [List.map_cons,List.flatten_cons,List.length_append,full post (List.mem_cons_self ..),List.length_cons,Nat.mul_succ]
    omega

theorem flushed_iff (kept : Invariant maxUploadSize loop) (idle : loop.phase = .receiving) :
    loop.posted = loop.received ↔ maxUploadSize ∣ loop.received.length := by
  obtain ⟨parts,-,full⟩ := kept.running (by rw [idle]; decide)
  have length : loop.received.length = maxUploadSize * loop.posts.length + loop.buf.length := by
    rw [parts,List.length_append,Uploader.posted,posted_length loop.posts full]
  have empty : loop.posted = loop.received ↔ loop.buf = [] := by
    rw [parts]
    exact List.self_eq_append_right
  rw [empty,length,Nat.dvd_add_right (Nat.dvd_mul_right ..)]
  rcases kept.short idle with short | none_
  · constructor
    · intro nothing
      rw [nothing]
      exact Nat.dvd_zero _
    · intro whole
      exact List.length_eq_zero_iff.mp (Nat.eq_zero_of_dvd_of_lt whole short)
  · rw [none_] at parts
    rw [(List.append_eq_nil_iff.mp parts.symm).2]
    exact iff_of_true rfl (Nat.dvd_zero _)

theorem faithful_iff (kept : Invariant maxUploadSize loop) : Faithful maxUploadSize loop ↔ Even maxUploadSize loop := by
  constructor
  · intro faithful
    refine ⟨(innerEnds_iff kept).mp faithful.ends,fun waits => ?_⟩
    exact (flushed_iff kept waits.1).mp (faithful.flushed waits)
  · intro even
    refine ⟨kept.numbered,kept.front,(innerEnds_iff kept).mpr even.sized,fun waits => ?_⟩
    exact (flushed_iff kept waits.1).mpr (even.whole waits)

theorem size_positive (configured : Int64) : 0 < if configured > 0 then configured.toNatClampNeg else 1000000 := by
  split
  · rename_i positive
    have above : 0 < configured.toInt := Int64.lt_iff_toInt_lt.mp positive
    rw [← Int64.toNat_toInt]
    omega
  · decide

theorem configured_size (found : StreamSecurity.Transport.fromStreamConfig stream = .splitHttp host path mode headers size interval) : 0 < size := by
  unfold StreamSecurity.Transport.fromStreamConfig at found
  split at found
  · cases found
  · -- The settings of the transports that come first.
    iterate 4
      split at found
      · cases found
    split at found
    · cases found
      exact size_positive _
    · split at found
      · cases found
      · cases found

theorem upload_faithful_iff (maxUploadSize : Nat) (events : List UploadEvent) :
    (Always (uploadStep maxUploadSize) (Faithful maxUploadSize) .start events ↔
      Always (uploadStep maxUploadSize) (Even maxUploadSize) .start events) ∧
    ∀ stream host path mode headers interval,
      StreamSecurity.Transport.fromStreamConfig stream = .splitHttp host path mode headers maxUploadSize interval → 0 < maxUploadSize :=
  ⟨always_congr (Invariant maxUploadSize) (fun _ _ _ kept step => step_invariant kept step) (fun _ kept => faithful_iff kept)
    (start_invariant),fun _ _ _ _ _ _ found => configured_size found⟩

theorem short_buffer_kept :
    ∃ loop, run (uploadStep 1000000) .start [.send [1,2,3],.recv] = some loop ∧ loop.Waits ∧ loop.received = [1,2,3] ∧ loop.posted = [] ∧
      ¬ Always (uploadStep 1000000) (Faithful 1000000) .start [.send [1,2,3],.recv] := by
  have path : run (uploadStep 1000000) .start [.send [1,2,3],.recv] = some ⟨[],false,[1,2,3],[1,2,3],0,[],.receiving⟩ := by rfl
  refine ⟨_,path,⟨rfl,rfl,rfl⟩,rfl,rfl,fun always => ?_⟩
  have faithful := always.2 _ rfl
  have last := faithful.2 _ rfl
  exact absurd (last.flushed ⟨rfl,rfl,rfl⟩) (by decide)

end AstraCore.SplitHttp
