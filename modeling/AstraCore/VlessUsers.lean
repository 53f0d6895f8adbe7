import AstraCore.Machine
import AstraCore.VlessInbound

namespace AstraCore.VlessUsers
open ProtoHeader VlessInbound Machine

section
variable (v : MemoryValidator)

def getCount : Nat := v.usersByUuid.keys.length

def advance (change : Change) : Option MemoryValidator := some (v.apply change)

def Listed (user : MemoryUser) : Prop := ∃ key, v.usersByUuid.lookup key = some user
def Mailed (user : MemoryUser) : Prop := ∃ email, v.usersByEmail.lookup email = some user

structure Consistent : Prop where
  users : ∀ user, Listed v user ↔ Mailed v user
  emails : ∀ one other, Mailed v one → Mailed v other → one.email = other.email → one = other
  uuids : ∀ one other, Listed v one → Listed v other → userKey one = userKey other → one = other

def Revokes : Change → Prop
  | .add _ => True
  | .del email => ∀ user, v.usersByEmail.lookup email = some user →
      (∀ id, processUUID id = userKey user → (v.apply (.del email)).get id = none) ∧
        getCount (v.apply (.del email)) + 1 = getCount v ∧ ∃ next, (v.apply (.del email)).add user = .ok next

def Fresh : Change → Prop
  | .add user => userKey user ∈ v.usersByUuid ∨ user.email ∉ v.usersByEmail
  | .del email => email ∉ v.usersByEmail

structure Keyed : Prop where
  uuid : ∀ key user, v.usersByUuid.lookup key = some user → userKey user = key
  email : ∀ email user, v.usersByEmail.lookup email = some user → user.email = email

theorem apply_add (user) : v.apply (.add user) = if userKey user ∈ v.usersByUuid then v
      else ⟨v.usersByUuid.insert (userKey user) user,v.usersByEmail.insert user.email user⟩ := by
  rw [MemoryValidator.apply,MemoryValidator.add]
  split <;> rfl

end

theorem keyed_step (v change next) (keyed : Keyed v) (step : advance v change = some next) : Keyed next := by
  cases step
  cases change with
  | add user =>
    rw [apply_add]
    split
    · exact keyed
    · refine ⟨fun key found held => ?_,fun email found held => ?_⟩
      · rw [FiniteMap.lookup_inserted] at held
        split at held
        · rename_i same
          cases held
          exact same.symm
        · exact keyed.uuid key found held
      · rw [FiniteMap.lookup_inserted] at held
        split at held
        · rename_i same
          cases held
          exact same.symm
        · exact keyed.email email found held
  | del email =>
    refine ⟨keyed.uuid,fun other found held => ?_⟩
    rw [MemoryValidator.apply,MemoryValidator.del,FiniteMap.lookup_erased] at held
    split at held
    · cases held
    · exact keyed.email other found held

theorem consistent_of (keyed : Keyed v) (users : ∀ user, Listed v user ↔ Mailed v user) : Consistent v := by
  refine ⟨users,?_,?_⟩
  · rintro one other ⟨first,found⟩ ⟨second,held⟩ same
    rw [← keyed.email _ _ found,same,keyed.email _ _ held,held] at found
    exact (Option.some.inj found).symm
  · rintro one other ⟨first,found⟩ ⟨second,held⟩ same
    rw [← keyed.uuid _ _ found,same,keyed.uuid _ _ held,held] at found
    exact (Option.some.inj found).symm

section
variable (keyed : Keyed v) (consistent : Consistent v)
include keyed consistent

theorem add_consistent (unknown : userKey user ∉ v.usersByUuid) : Consistent (v.apply (.add user)) ↔ user.email ∉ v.usersByEmail := by
  have added := keyed_step v (.add user) _ keyed rfl
  rw [apply_add,if_neg unknown] at added ⊢
  constructor
  · -- The user before under this e-mail stays in the table of UUIDs alone.
    intro after known
    obtain ⟨before,held⟩ := Option.isSome_iff_exists.mp (AList.lookup_isSome.mpr known)
    obtain ⟨key,listed⟩ := (consistent.users before).mpr ⟨_,held⟩
    have other : key ≠ userKey user := by
      rintro rfl
      exact unknown (AList.lookup_isSome.mp (Option.isSome_iff_exists.mpr ⟨_,listed⟩))
    obtain ⟨email,mailed⟩ := (after.users before).mp ⟨key,by rw [FiniteMap.lookup_inserted,if_neg other,listed]⟩
    rw [FiniteMap.lookup_inserted] at mailed
    split at mailed
    · cases mailed
      exact other (keyed.uuid _ _ listed).symm
    · rename_i apart
      exact apart ((keyed.email _ _ mailed).symm.trans (keyed.email _ _ held))
  · intro new
    refine consistent_of added fun found => ⟨?_,?_⟩
    · rintro ⟨key,listed⟩
      rw [FiniteMap.lookup_inserted] at listed
      split at listed
      · cases listed
        exact ⟨user.email,AList.lookup_insert _⟩
      · obtain ⟨email,mailed⟩ := (consistent.users found).mp ⟨key,listed⟩
        refine ⟨email,?_⟩
        rw [FiniteMap.lookup_inserted,if_neg ?_,mailed]
        rintro rfl
        exact new (AList.lookup_isSome.mp (Option.isSome_iff_exists.mpr ⟨_,mailed⟩))
    · rintro ⟨email,mailed⟩
      rw [FiniteMap.lookup_inserted] at mailed
      split at mailed
      · cases mailed
        exact ⟨userKey user,AList.lookup_insert _⟩
      · obtain ⟨key,listed⟩ := (consistent.users found).mpr ⟨email,mailed⟩
        refine ⟨key,?_⟩
        rw [FiniteMap.lookup_inserted,if_neg ?_,listed]
        rintro rfl
        exact unknown (AList.lookup_isSome.mp (Option.isSome_iff_exists.mpr ⟨_,listed⟩))

theorem del_consistent : Consistent (v.apply (.del email)) ↔ email ∉ v.usersByEmail := by
  constructor
  · intro after known
    obtain ⟨user,held⟩ := Option.isSome_iff_exists.mp (AList.lookup_isSome.mpr known)
    obtain ⟨other,mailed⟩ := (after.users user).mp ((consistent.users user).mpr ⟨email,held⟩)
    rw [MemoryValidator.apply,MemoryValidator.del,FiniteMap.lookup_erased] at mailed
    split at mailed
    · cases mailed
    · rename_i apart
      exact apart ((keyed.email _ _ mailed).symm.trans (keyed.email _ _ held))
  · intro unknown
    have same := AList.lookup_eq_none.mpr unknown
    refine consistent_of (keyed_step v (.del email) _ keyed rfl) fun user => (consistent.users user).trans (exists_congr fun other => ?_)
    rw [MemoryValidator.apply,MemoryValidator.del,FiniteMap.lookup_erased]
    split
    · rename_i this
      rw [this,same]
    · exact Iff.rfl

theorem change_consistent : Consistent (v.apply change) ↔ Fresh v change := by
  cases change with
  | del email => exact del_consistent keyed consistent
  | add user =>
    by_cases known : userKey user ∈ v.usersByUuid
    · rw [apply_add,if_pos known]
      exact iff_of_true consistent (.inl known)
    · exact (add_consistent keyed consistent known).trans ⟨.inr,fun fresh => fresh.resolve_left known⟩

end

theorem keyed_new : Keyed .new := ⟨fun _ _ held => absurd held (by simp [MemoryValidator.new]),fun _ _ held => absurd held (by simp [MemoryValidator.new])⟩

theorem consistent_new : Consistent .new := consistent_of keyed_new fun _ => by simp [Listed,Mailed,MemoryValidator.new]

theorem always_consistent_iff : Always advance Consistent .new changes ↔ Meets advance Fresh .new changes := by
  have both : Always advance Consistent .new changes ↔ Always advance (fun v => Keyed v ∧ Consistent v) .new changes :=
    always_congr Keyed keyed_step (fun v keyed => ⟨fun held => ⟨keyed,held⟩,And.right⟩) keyed_new
  refine both.trans (always_iff_meets (fun v change _ => ⟨_,rfl⟩) ?_ ⟨keyed_new,consistent_new⟩)
  rintro v change next ⟨keyed,consistent⟩ step
  have after := keyed_step v change next keyed step
  cases step
  exact ⟨fun held => (change_consistent keyed consistent).mp held.2,fun fresh => ⟨after,(change_consistent keyed consistent).mpr fresh⟩⟩

theorem users_consistent_iff (changes : List Change) :
    Always advance Consistent .new changes ∧ Meets advance Revokes .new changes ↔ Meets advance Fresh .new changes := by
  rw [always_consistent_iff]
  refine ⟨And.left,fun fresh => ⟨fresh,meets_mono ?_ fresh⟩⟩
  rintro v (user | email) allowed
  · trivial
  · intro user held
    exact absurd (AList.lookup_isSome.mp (Option.isSome_iff_exists.mpr ⟨_,held⟩)) allowed

theorem users_left_behind :
    ¬ (Always advance Consistent .new [.add ⟨none,"a",0⟩,.del "a"] ∧ Meets advance Revokes .new [.add ⟨none,"a",0⟩,.del "a"]) := by
  rintro ⟨always,-⟩
  obtain ⟨-,later⟩ := (always_consistent_iff).mp always
  exact absurd (AList.lookup_isSome.mp rfl) (later _ rfl).1

end AstraCore.VlessUsers
