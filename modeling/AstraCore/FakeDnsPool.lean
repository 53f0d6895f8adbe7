import AstraCore.FakeDns

namespace AstraCore.FakeDns
open NetAddress Dispatcher Machine
open FakeDnsResolver (resolve)

section
variable (toLowercase : String → String)

def calls (resolver : FakeDnsResolver) (domains : List String) : FakeDnsResolver :=
  domains.foldl (fun resolver domain => (resolve toLowercase resolver domain).1) resolver

theorem run_counted (path : run (advance toLowercase) s events = some later) :
    s.allocations ≤ later.allocations ∧ later.resolver.pool.count = s.resolver.pool.count := by
  apply run_invariant (fun later => s.allocations ≤ later.allocations ∧ later.resolver.pool.count = s.resolver.pool.count) ?_ ?_ path
  · rintro middle event next ⟨more,count⟩ step
    obtain ⟨_,_,_,rfl⟩ | ⟨_,_,_,rfl⟩ | ⟨_,_,_,rfl⟩ | ⟨_,_,_,rfl⟩ | ⟨_,_,_,_,rfl⟩ := advance_cases toLowercase step
    · exact ⟨more,count⟩
    · exact ⟨more,count⟩
    · exact ⟨Nat.le_succ_of_le more,count⟩
    · exact ⟨Nat.le_succ_of_le more,count⟩
    · exact ⟨more,count⟩
  · exact ⟨Nat.le_refl _,rfl⟩

theorem fake_dns_unique (path : run (advance toLowercase) (start (FakeDnsResolver.new base bits)) events = some s) :
    (s.allocations ≤ 2^32 → ∀ first second ip, (first,.ok [ip]) ∈ s.answers → (second,.ok [ip]) ∈ s.answers →
      toLowercase first = toLowercase second) ∧
    (s.resolver.pool.count ≤ s.resolver.pool.next → ∀ more later, run (advance toLowercase) s more = some later →
      later.allocations < 2^32 - 1 → ∀ domain, later.resolver.domainToIp.lookup (toLowercase domain) = none →
        (resolve toLowercase later.resolver domain).2 = .error (.network "fake DNS pool exhausted")) := by
  constructor
  · intro room first second ip one two
    have answered := (run_consistent toLowercase path room).answered
    exact Option.some.inj ((answered first ip one).symm.trans (answered second ip two))
  · intro exhausted more later onward room domain unknown
    obtain ⟨grown,count⟩ := run_counted toLowercase onward
    have before := (run_consistent toLowercase path (by omega)).counted
    have here := (run_consistent toLowercase (run_join path onward) (by omega)).counted
    have used : later.resolver.pool.next ≥ later.resolver.pool.count := by
      rw [before,UInt32.le_iff_toNat_le] at exhausted
      rw [here,count,ge_iff_le,UInt32.le_iff_toNat_le]
      simp only [UInt32.toNat_ofNat'] at exhausted ⊢
      omega
    simp [resolve,unknown,FakeIpPool.allocate,used]

-- An address that was given out leads back to its name.
theorem names_recorded (path : run (advance toLowercase) (start (FakeDnsResolver.new base bits)) events = some s)
    (room : s.allocations ≤ 2^32) (given : (domain,.ok [ip]) ∈ s.answers) (busy) :
    s.resolver.getDomain busy ip = if busy then none else some (toLowercase domain) := by
  rw [FakeDnsResolver.getDomain,(run_consistent toLowercase path room).answered domain ip given]

end

theorem names_recorded_one : named.getDomain false (.v4 firstIp) = some "web.example" :=
  names_recorded id oneName_runs (by decide) (List.mem_singleton.mpr rfl) false

-- Three names exhaust a pool of four addresses.
def threeNames : List Event := ["a","b","c"].zipIdx.flatMap fun (name,task) => [.look task name,.allocate task,.insert task]

theorem fake_dns_unique_exhausted : ∃ s later,
    run (advance id) (start (FakeDnsResolver.new ⟨[10,0,0,0],rfl⟩ 30)) threeNames = some s ∧
    (∀ ip, ("a",.ok [ip]) ∈ s.answers → ("b",.ok [ip]) ∉ s.answers) ∧
    run (advance id) s [.look 3 "d",.allocate 3] = some later ∧
    (resolve id later.resolver "e").2 = .error (.network "fake DNS pool exhausted") := by
  obtain ⟨unique,exhausted⟩ := @fake_dns_unique id ⟨[10,0,0,0],rfl⟩ 30 threeNames _ rfl
  refine ⟨_,_,rfl,fun ip one two => ?_,rfl,exhausted (by decide) [.look 3 "d",.allocate 3] _ rfl (by decide) "e" rfl⟩
  exact absurd (unique (by decide) "a" "b" ip one two) (by decide)

-- A pool of two addresses, the second of which is given out first; then every call is refused until the counter comes round.
def pair : FakeDnsResolver := FakeDnsResolver.new ⟨[10,0,0,0],rfl⟩ 31
def taken : FakeDnsResolver := calls id pair ["a"]
def moved (n : Nat) : FakeDnsResolver := {taken with pool := {taken.pool with next := UInt32.ofNat (2 + n)}}

theorem moved_refused (room : n < 2^32 - 2) : resolve id (moved n) "b" = (moved (n + 1),.error (.network "fake DNS pool exhausted")) := by
  have unknown : (moved n).domainToIp.lookup "b" = none := rfl
  have used : (moved n).pool.next ≥ (moved n).pool.count := by
    change UInt32.ofNat (2 + n) ≥ 2
    rw [ge_iff_le,UInt32.le_iff_toNat_le]
    simp only [UInt32.toNat_ofNat',UInt32.toNat_ofNat]
    omega
  have onward : UInt32.ofNat (2 + n) + 1 = UInt32.ofNat (2 + (n + 1)) := by
    rw [← Nat.add_assoc,UInt32.ofNat_add _ 1]
    rfl
  simp only [resolve,FakeIpPool.allocate,unknown,used,if_true,id]
  simp only [moved,onward]

theorem refused_calls (n) (room : n ≤ 2^32 - 2) : calls id (moved 0) (List.replicate n "b") = moved n := by
  induction n with
  | zero => rfl
  | succ n ih =>
    rw [List.replicate_succ',calls,List.foldl_append]
    change (resolve id (calls id (moved 0) (List.replicate n "b")) "b").1 = _
    rw [ih (by omega),moved_refused (by omega)]

theorem address_given_twice : ∃ domains,
    (resolve id pair "a").2 = .ok [.v4 ⟨[10,0,0,1],rfl⟩] ∧
    (resolve id (calls id pair ["a"]) "b").2 = .error (.network "fake DNS pool exhausted") ∧
    (resolve id (calls id pair ("a" :: domains)) "b").2 = .ok [.v4 ⟨[10,0,0,0],rfl⟩] ∧
    (resolve id (calls id pair ("a" :: (domains ++ ["b"]))) "c").2 = .ok [.v4 ⟨[10,0,0,1],rfl⟩] := by
  obtain ⟨domains,reached⟩ : ∃ domains, calls id (moved 0) domains = moved (2^32 - 2) := ⟨_,refused_calls _ (Nat.le_refl _)⟩
  refine ⟨domains,by decide,by decide,?_,?_⟩
  · change (resolve id (calls id (moved 0) domains) "b").2 = _
    rw [reached]
    decide
  · change (resolve id (calls id (moved 0) (domains ++ ["b"])) "c").2 = _
    rw [calls,List.foldl_append]
    change (resolve id (resolve id (calls id (moved 0) domains) "b").1 "c").2 = _
    rw [reached]
    decide

end AstraCore.FakeDns
