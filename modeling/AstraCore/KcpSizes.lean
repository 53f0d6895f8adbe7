import AstraCore.KcpConnection
import AstraCore.StreamSecurity

namespace AstraCore.KcpSizes
open CheckedBytes KcpSegment KcpSending KcpConnection StreamSecurity

def mul32 (a b : UInt32) : Option UInt32 := if a.toNat * b.toNat < 2^32 then some (a * b) else none
def sub32 (a b : UInt32) : Option UInt32 := if b ≤ a then some (a - b) else none

-- Both in-flight sizes: `capacity * 1024 * 1024 / mtu / (1000 / tti)`, at least 8.
def inFlightChecked (capacity mtu tti : UInt32) : Option UInt32 := do
  let kilo ← mul32 capacity 1024
  let mega ← mul32 kilo 1024
  let packets ← (div32 mega mtu).toOption
  let ticks ← (div32 1000 tti).toOption
  let size ← (div32 packets ticks).toOption
  some (if size < 8 then 8 else size)

section
variable (config : Config)

def sendingInFlightChecked : Option UInt32 := inFlightChecked config.uplinkCapacity config.mtu config.tti
def receivingInFlightChecked : Option UInt32 := inFlightChecked config.downlinkCapacity config.mtu config.tti
def sendingBufferChecked : Option UInt32 := (div32 config.maxSendingWindow config.mtu).toOption
def mssChecked : Option UInt32 := sub32 config.mtu (UInt32.ofNat dataSegmentOverhead)

def kcpConfig : Transport → Option Config
  | .kcp mtu tti uplinkCapacity downlinkCapacity cwndMultiplier maxSendingWindow =>
    some ⟨mtu,tti,uplinkCapacity,downlinkCapacity,cwndMultiplier,maxSendingWindow⟩
  | _ => none

-- A round of `write_bytes` with bytes to write takes some of them or waits for room. It does not return.
def Progresses (mss : UInt32) : Prop :=
  ∀ (conn : Connection) (call : WriteCall), conn.mss = mss → conn.state = .active → call.offset < call.buf.length →
    (conn.writeRound call).2.2 = .waits ∨
      (conn.writeRound call).2.2 = .again ∧ call.offset < (conn.writeRound call).2.1.offset

structure Sound : Prop where
  sending : (sendingInFlightChecked config).isSome
  receiving : (receivingInFlightChecked config).isSome
  buffer : (sendingBufferChecked config).isSome
  writes : ∃ mss, mssChecked config = some mss ∧ 1 ≤ mss ∧ Progresses mss
  created : ∀ conversation, ∃ conn, Connection.new conversation config = .ok conn ∧ mssChecked config = some conn.mss

structure InRange : Prop where
  mtu : 18 < config.mtu
  tti : 1 ≤ config.tti ∧ config.tti ≤ 1000
  uplink : config.uplinkCapacity < 4096
  downlink : config.downlinkCapacity < 4096

end

theorem mul32_fits (fits : a.toNat * b.toNat < 2^32) : mul32 a b = some (a * b) := if_pos fits
theorem mul32_overflows (overflows : ¬ a.toNat * b.toNat < 2^32) : mul32 a b = none := if_neg overflows

theorem mul32_toNat {b : UInt32} (fits : a.toNat * b.toNat < 2^32) : (a * b).toNat = a.toNat * b.toNat := by
  rw [UInt32.toNat_mul,Nat.mod_eq_of_lt fits]

theorem inFlightChecked_eq (mtu) : inFlightChecked capacity mtu tti = if capacity < 4096 then (inFlightSize capacity mtu tti).toOption else none := by
  have small : capacity < 4096 ↔ capacity.toNat < 4096 := UInt32.lt_iff_toNat_lt
  have factor : (1024 : UInt32).toNat = 1024 := rfl
  rw [inFlightChecked]
  by_cases first : capacity.toNat * (1024 : UInt32).toNat < 2^32
  · have kilo := mul32_toNat first
    have mega : (capacity * 1024).toNat * (1024 : UInt32).toNat = capacity.toNat * 1048576 := by
      rw [kilo,factor]
      omega
    rw [mul32_fits first,Option.bind_eq_bind,Option.bind_some]
    by_cases fits : capacity < 4096
    · have second : (capacity * 1024).toNat * (1024 : UInt32).toNat < 2^32 := by
        have := small.mp fits
        omega
      rw [if_pos fits,mul32_fits second,Option.bind_some,inFlightSize]
      simp only [toOption_bind]
      rfl
    · have second : ¬ (capacity * 1024).toNat * (1024 : UInt32).toNat < 2^32 := by
        have := mt small.mpr fits
        omega
      rw [if_neg fits,mul32_overflows second]
      rfl
  · have large : ¬ capacity < 4096 := by
      rw [factor] at first
      rw [small]
      omega
    rw [if_neg large,mul32_overflows first]
    rfl

theorem inFlightChecked_isSome (mtu) : (inFlightChecked capacity mtu tti).isSome ↔ capacity < 4096 ∧ mtu ≠ 0 ∧ 1 ≤ tti ∧ tti ≤ 1000 := by
  rw [inFlightChecked_eq]
  split
  · rename_i small
    rw [inFlightSize_isSome]
    exact (and_iff_right small).symm
  · rename_i large
    exact iff_of_false Bool.false_ne_true (fun all => large all.1)

-- With an mss of zero the chunk is empty from the start, and the loop ends there.
def stuck : Connection := ⟨0,.default,0,.active,0,0,0,.new 50,.new 0,⟨.new,0,0,32,8,1553,false,false⟩⟩

theorem progresses_iff (mss) : Progresses mss ↔ 1 ≤ mss := by
  have least : 1 ≤ mss ↔ 1 ≤ mss.toNat := UInt32.le_iff_toNat_le
  constructor
  · intro progress
    apply Classical.byContradiction
    intro none
    have zero : mss = 0 := by
      apply UInt32.toNat_inj.mp
      change mss.toNat = 0
      have := mt least.mpr none
      omega
    subst zero
    rcases progress stuck (.start [0]) rfl rfl Nat.zero_lt_one with waits | ⟨again,-⟩
    · cases waits
    · cases again
  · intro some conn call same active inside
    have positive := least.mp some
    have length : (call.buf.take (min (call.offset + conn.mss.toNat) call.buf.length)).length = min (call.offset + conn.mss.toNat) call.buf.length := by
      rw [List.length_take]
      omega
    have further : call.offset < min (call.offset + conn.mss.toNat) call.buf.length := by
      rw [same]
      omega
    have chunk : (call.buf.take (min (call.offset + conn.mss.toNat) call.buf.length)).drop call.offset ≠ [] := by
      rw [ne_eq,List.drop_eq_nil_iff]
      omega
    rw [Connection.writeRound,if_neg (not_not.mpr active)]
    rw [if_neg chunk]
    split
    · exact .inr ⟨rfl,further⟩
    · exact .inl rfl

theorem mssChecked_iff : (∃ mss, mssChecked config = some mss ∧ 1 ≤ mss) ↔ 18 < config.mtu := by
  have overhead : (UInt32.ofNat dataSegmentOverhead).toNat = 18 := rfl
  rw [mssChecked,sub32]
  change _ ↔ 18 < config.mtu.toNat
  constructor
  · rintro ⟨mss,given,positive⟩
    split at given
    · rename_i fits
      have cut := UInt32.toNat_sub_of_le _ _ fits
      cases given
      have one : 1 ≤ (config.mtu - UInt32.ofNat dataSegmentOverhead).toNat := UInt32.le_iff_toNat_le.mp positive
      omega
    · cases given
  · intro wide
    have fits : UInt32.ofNat dataSegmentOverhead ≤ config.mtu := UInt32.le_iff_toNat_le.mpr (by omega)
    have cut := UInt32.toNat_sub_of_le _ _ fits
    refine ⟨_,if_pos fits,UInt32.le_iff_toNat_le.mpr ?_⟩
    change 1 ≤ (config.mtu - UInt32.ofNat dataSegmentOverhead).toNat
    omega

theorem new_connection (sending : (sendingInFlightChecked config).isSome) (buffer : (sendingBufferChecked config).isSome)
    (given : mssChecked config = some mss) (conversation) : ∃ conn, Connection.new conversation config = .ok conn ∧ mssChecked config = some conn.mss := by
  obtain ⟨size,sized⟩ := Option.isSome_iff_exists.mp sending
  obtain ⟨room,roomy⟩ := Option.isSome_iff_exists.mp buffer
  rw [sendingInFlightChecked,inFlightChecked_eq] at sized
  split at sized
  · have inFlight := toOption_ok sized
    have window := toOption_ok roomy
    have made : SendingWorker.new config = .ok ⟨.new,0,0,32,size,room,false,false⟩ := by
      rw [SendingWorker.new,Config.sendingInFlightSize,inFlight,Config.sendingBufferSize,window]
      rfl
    refine ⟨_,by rw [Connection.new,made]; rfl,?_⟩
    rw [mssChecked,sub32] at given ⊢
    split at given
    · rename_i fits
      exact if_pos fits
    · cases given
  · cases sized

theorem sound_iff : Sound config ↔ InRange config := by
  have packets : 18 < config.mtu → config.mtu ≠ 0 := by
    rintro wide zero
    rw [zero] at wide
    exact absurd wide (by decide)
  constructor
  · rintro ⟨sending,receiving,-,⟨mss,given,positive,-⟩,-⟩
    obtain ⟨uplink,-,tti⟩ := (inFlightChecked_isSome ..).mp sending
    obtain ⟨downlink,-⟩ := (inFlightChecked_isSome ..).mp receiving
    exact ⟨(mssChecked_iff).mp ⟨mss,given,positive⟩,tti,uplink,downlink⟩
  · rintro ⟨mtu,tti,uplink,downlink⟩
    obtain ⟨mss,given,positive⟩ := (mssChecked_iff).mpr mtu
    have sending := (inFlightChecked_isSome ..).mpr ⟨uplink,packets mtu,tti⟩
    have receiving := (inFlightChecked_isSome ..).mpr ⟨downlink,packets mtu,tti⟩
    have buffer : (sendingBufferChecked config).isSome := (div32_isSome ..).mpr (packets mtu)
    exact ⟨sending,receiving,buffer,⟨mss,given,positive,(progresses_iff mss).mpr positive⟩,new_connection sending buffer given⟩

def ofSettings (settings : KcpSettings) : Config :=
  ⟨settings.mtu.getD 1350,settings.tti.getD 50,settings.uplinkCapacity.getD 5,settings.downlinkCapacity.getD 20,1,2*1024*1024⟩

theorem settings_sound_iff {stream : StreamConfig} {settings : KcpSettings} (given : stream.kcpSettings = some settings)
    (plain : isH2 stream.network = false) :
    kcpConfig (.fromStreamConfig stream) = some (ofSettings settings) ∧
      (Sound (ofSettings settings) ↔ InRange (ofSettings settings)) := by
  refine ⟨?_,sound_iff⟩
  rw [Transport.fromStreamConfig,plain,given]
  rfl

def plainSettings : KcpSettings := ⟨none,none,none,none⟩

theorem settings_sound_default : isH2 "kcp" = false ∧
    kcpConfig (.fromStreamConfig {network := "kcp",kcpSettings := some plainSettings}) = some (ofSettings plainSettings) ∧
    (Sound (ofSettings plainSettings) ↔ InRange (ofSettings plainSettings)) := by
  have plain : isH2 "kcp" = false := by decide
  exact ⟨plain,settings_sound_iff rfl plain⟩

def slowSettings : KcpSettings := ⟨none,some 1001,none,none⟩

theorem slow_settings_panic :
    kcpConfig (.fromStreamConfig {network := "kcp",kcpSettings := some slowSettings}) = some (ofSettings slowSettings) ∧
      Connection.new 0 (ofSettings slowSettings) = .error .divideByZero ∧ ¬ Sound (ofSettings slowSettings) := by
  refine ⟨by decide,rfl,?_⟩
  intro sound
  have range := ((sound_iff).mp sound).tti.2
  exact absurd range (by decide)

end AstraCore.KcpSizes
