import AstraCore.CheckedBytes
import AstraCore.KeyedList
import AstraCore.Machine

namespace AstraCore.OutboundManager
open CheckedBytes FiniteMap Machine List

structure Manager (Handler : Type) where
  handlers : AList (fun _ : String => Handler)

section
variable {Handler Settings : Type}

def Manager.new : Manager Handler := ⟨∅⟩

section
variable (manager : Manager Handler)

def Manager.addHandler (tag : String) (handler : Handler) : Manager Handler :=
  ⟨manager.handlers.insert tag handler⟩

def Manager.removeHandler (tag : String) : Option Handler × Manager Handler :=
  (manager.handlers.lookup tag,⟨manager.handlers.erase tag⟩)

def Manager.getHandler (tag : String) : Option Handler := manager.handlers.lookup tag

structure Iterates (order : List (String × Handler)) : Prop where
  once : (order.map Prod.fst).Nodup
  entries : ∀ tag handler, (tag,handler) ∈ order ↔ manager.getHandler tag = some handler

end

-- The first of the map's values in the order it happens to go through them.
def getDefaultHandler (order : List (String × Handler)) : Option Handler := order.head?.map Prod.snd

structure OutboundDetourConfig (Settings : Type) where
  tag : String
  settings : Settings

-- `build` stands for `build_outbound_handler`; the key is the tag of the configuration even where it is empty.
def buildConfig (build : OutboundDetourConfig Settings → Except String Handler) :
    Manager Handler → List (OutboundDetourConfig Settings) → Except String (Manager Handler)
  | manager,[] => .ok manager
  | manager,config :: rest => do
    let handler ← build config
    buildConfig build (manager.addHandler config.tag handler) rest

@[simp] theorem get_new : (Manager.new : Manager Handler).getHandler tag = none := AList.lookup_empty tag

theorem get_added (manager : Manager Handler) (tag other handler) :
    (manager.addHandler tag handler).getHandler other = if other = tag then some handler else manager.getHandler other :=
  lookup_inserted manager.handlers tag other handler

theorem get_removed (manager : Manager Handler) : (manager.removeHandler tag).2.getHandler other = if other = tag then none else manager.getHandler other :=
  lookup_erased manager.handlers tag other

def without (tag : String) (registered : List (String × Handler)) : List (String × Handler) :=
  registered.filter (fun entry => entry.1 ≠ tag)

theorem mem_without : (other,handler) ∈ without tag registered ↔ (other,handler) ∈ registered ∧ other ≠ tag := by
  simp [without]

theorem without_once {registered : List (String × Handler)} (once : (registered.map Prod.fst).Nodup) : ((without tag registered).map Prod.fst).Nodup :=
  once.sublist (filter_sublist.map Prod.fst)

theorem added_iterates (tracks : Iterates manager registered) : Iterates (manager.addHandler tag handler) (without tag registered ++ [(tag,handler)]) := by
  constructor
  · rw [map_append,nodup_append]
    refine ⟨without_once tracks.once,by simp,?_⟩
    rintro other present _ same rfl
    obtain ⟨entry,member,rfl⟩ := mem_map.mp present
    exact (mem_without.mp member).2 (mem_singleton.mp same)
  · intro other value
    rw [get_added,mem_append,mem_without,tracks.entries]
    split <;> grind

theorem removed_iterates {manager : Manager Handler} (tracks : Iterates manager registered) :
    Iterates (manager.removeHandler tag).2 (without tag registered) := by
  refine ⟨without_once tracks.once,?_⟩
  intro other value
  rw [get_removed,mem_without,tracks.entries]
  split <;> grind

structure Registry (Handler : Type) where
  manager : Manager Handler
  registered : List (String × Handler)
  tracks : Iterates manager registered

def Registry.new : Registry Handler := ⟨.new,[],⟨List.nodup_nil,by simp⟩⟩

section
variable (registry : Registry Handler)

def Registry.add (tag : String) (handler : Handler) : Registry Handler :=
  ⟨registry.manager.addHandler tag handler,without tag registry.registered ++ [(tag,handler)],
    added_iterates registry.tracks⟩

def Registry.remove (tag : String) : Registry Handler :=
  ⟨(registry.manager.removeHandler tag).2,without tag registry.registered,removed_iterates registry.tracks⟩

inductive Change (Handler : Type) where
  | add (tag : String) (handler : Handler)
  | remove (tag : String)

def advance : Change Handler → Option (Registry Handler)
  | .add tag handler => some (registry.add tag handler)
  | .remove tag => some (registry.remove tag)

end

def configured (outbounds : List (String × Handler)) : Registry Handler :=
  outbounds.foldl (fun registry outbound => registry.add outbound.1 outbound.2) .new

section
variable (registry : Registry Handler)

def DefaultFirst : Prop :=
  ∀ order, Iterates registry.manager order → getDefaultHandler order = registry.registered.head?.map Prod.snd

def OneHandler (outbounds : List (String × Handler)) : Prop :=
  ∀ one ∈ outbounds, ∀ other ∈ outbounds, one.2 = other.2

theorem iterates_front (tracks : Iterates manager registered)
    (present : (tag,handler) ∈ registered) : Iterates manager ((tag,handler) :: without tag registered) := by
  constructor
  · rw [map_cons,nodup_cons]
    refine ⟨?_,without_once tracks.once⟩
    intro again
    obtain ⟨entry,member,same⟩ := mem_map.mp again
    exact (mem_without.mp member).2 same
  · intro other value
    have found := (tracks.entries tag handler).mp present
    rw [mem_cons,mem_without,tracks.entries]
    grind

theorem defaultFirst_iff : DefaultFirst registry ↔ OneHandler registry.registered := by
  constructor
  · intro first
    have same : ∀ entry ∈ registry.registered, some entry.2 = registry.registered.head?.map Prod.snd := by
      rintro ⟨tag,handler⟩ present
      exact first _ (iterates_front registry.tracks present)
    intro one present other also
    exact Option.some.inj ((same one present).trans (same other also).symm)
  · intro one order iterates
    have alike : ∀ entry, entry ∈ order ↔ entry ∈ registry.registered := by
      rintro ⟨tag,handler⟩
      rw [iterates.entries,registry.tracks.entries]
    unfold getDefaultHandler
    cases chosen : order.head? with
    | none =>
      have empty : registry.registered = [] := by
        apply eq_nil_iff_forall_not_mem.mpr
        intro entry present
        rw [← alike,head?_eq_none_iff.mp chosen] at present
        cases present
      rw [empty]
      rfl
    | some entry =>
      have present := (alike entry).mp (mem_of_head? chosen)
      cases earliest : registry.registered.head? with
      | none =>
        rw [head?_eq_none_iff.mp earliest] at present
        cases present
      | some first => exact congrArg some (one entry present first (mem_of_head? earliest))

def Alone : Change Handler → Prop
  | .add tag handler => ∀ other value, registry.manager.getHandler other = some value → other ≠ tag → value = handler
  | .remove _ => True

theorem advance_total (change) : ∃ next, advance registry change = some next := by
  cases change <;> exact ⟨_,rfl⟩

theorem defaultFirst_kept (change next) (first : DefaultFirst registry) (step : advance registry change = some next) :
    DefaultFirst next ↔ Alone registry change := by
  rw [defaultFirst_iff] at first ⊢
  cases change with
  | remove tag =>
    cases step
    refine iff_of_true ?_ trivial
    intro one present other also
    exact first one (mem_without.mp present).1 other (mem_without.mp also).1
  | add tag handler =>
    cases step
    have added : (tag,handler) ∈ (registry.add tag handler).registered := mem_append_right _ (mem_singleton.mpr rfl)
    constructor
    · intro one other value found different
      have kept := mem_without.mpr ⟨(registry.tracks.entries other value).mpr found,different⟩
      exact one _ (mem_append_left _ kept) _ added
    · intro alone
      have same : ∀ entry ∈ (registry.add tag handler).registered, entry.2 = handler := by
        rintro ⟨other,value⟩ present
        rcases mem_append.mp present with kept | new
        · obtain ⟨old,different⟩ := mem_without.mp kept
          exact alone other value ((registry.tracks.entries other value).mp old) different
        · cases mem_singleton.mp new
          rfl
      intro one present other also
      exact (same one present).trans (same other also).symm

end

def Made (build : OutboundDetourConfig Settings → Except String Handler) (config : OutboundDetourConfig Settings)
    (outbound : String × Handler) : Prop := outbound.1 = config.tag ∧ build config = .ok outbound.2

theorem buildConfig_adds {build : OutboundDetourConfig Settings → Except String Handler} {registry : Registry Handler}
    (built : buildConfig build registry.manager configs = .ok manager) : ∃ outbounds, List.Forall₂ (Made build) configs outbounds ∧
      manager = (outbounds.foldl (fun registry outbound => registry.add outbound.1 outbound.2) registry).manager := by
  induction configs generalizing registry with
  | nil =>
    cases built
    exact ⟨[],.nil,rfl⟩
  | cons config rest ih =>
    obtain ⟨handler,made,built⟩ := checked_bind built
    obtain ⟨outbounds,others,same⟩ := @ih (registry.add config.tag handler) built
    exact ⟨(config.tag,handler) :: outbounds,.cons ⟨rfl,made⟩ others,same⟩

theorem adds_source (registry : Registry Handler) (outbounds : List (String × Handler))
    (present : entry ∈ (outbounds.foldl (fun registry outbound => registry.add outbound.1 outbound.2) registry).registered) :
    entry ∈ registry.registered ∨ entry ∈ outbounds := by
  induction outbounds generalizing registry with
  | nil => exact .inl present
  | cons outbound rest ih =>
    rcases ih _ present with before | later
    · rcases mem_append.mp before with kept | new
      · exact .inl (mem_of_mem_filter kept)
      · cases mem_singleton.mp new
        exact .inr mem_cons_self
    · exact .inr (mem_cons_of_mem _ later)

theorem adds_tagged (registry : Registry Handler) (outbounds : List (String × Handler))
    (named : (∃ value, registry.manager.getHandler tag = some value) ∨ ∃ value, (tag,value) ∈ outbounds) :
    ∃ value, (outbounds.foldl (fun registry outbound => registry.add outbound.1 outbound.2) registry).manager.getHandler tag
      = some value := by
  induction outbounds generalizing registry with
  | nil =>
    rcases named with found | ⟨value,present⟩
    · exact found
    · cases present
  | cons outbound rest ih =>
    apply ih
    have added := get_added registry.manager outbound.1 tag outbound.2
    by_cases same : tag = outbound.1
    · rw [if_pos same] at added
      exact .inl ⟨_,added⟩
    · rw [if_neg same] at added
      rcases named with ⟨value,found⟩ | ⟨value,present⟩
      · exact .inl ⟨value,added.trans found⟩
      · rcases mem_cons.mp present with rfl | later
        · exact absurd rfl same
        · exact .inr ⟨value,later⟩

theorem configured_iff (outbounds : List (String × Handler)) :
    (∀ outbound ∈ outbounds, (configured outbounds).manager.getHandler outbound.1 = some outbound.2) ∧
      DefaultFirst (configured outbounds) ↔ OneHandler outbounds := by
  rw [defaultFirst_iff]
  have source : ∀ entry ∈ (configured outbounds).registered, entry ∈ outbounds := by
    intro entry present
    rcases adds_source _ outbounds present with before | later
    · cases before
    · exact later
  constructor
  · rintro ⟨reachable,one⟩ first present second also
    have firstKept := ((configured outbounds).tracks.entries first.1 first.2).mpr (reachable first present)
    have secondKept := ((configured outbounds).tracks.entries second.1 second.2).mpr (reachable second also)
    exact one _ firstKept _ secondKept
  · intro one
    constructor
    · rintro ⟨tag,handler⟩ present
      obtain ⟨value,found⟩ := adds_tagged .new outbounds (.inr ⟨handler,present⟩)
      have kept := source _ (((configured outbounds).tracks.entries tag value).mpr found)
      rw [one _ present _ kept]
      exact found
    · intro first present second also
      exact one first (source first present) second (source second also)

theorem default_first_iff (build : OutboundDetourConfig Settings → Except String Handler)
    (configs : List (OutboundDetourConfig Settings)) (manager : Manager Handler)
    (built : buildConfig build .new configs = .ok manager) :
    ∃ outbounds, List.Forall₂ (Made build) configs outbounds ∧ manager = (configured outbounds).manager ∧
      ∀ changes, ((∀ outbound ∈ outbounds, manager.getHandler outbound.1 = some outbound.2) ∧
        Always advance DefaultFirst (configured outbounds) changes ↔
          OneHandler outbounds ∧ Meets advance Alone (configured outbounds) changes) := by
  obtain ⟨outbounds,made,same⟩ := @buildConfig_adds _ _ _ _ build .new built
  refine ⟨outbounds,made,same,?_⟩
  intro changes
  rw [same]
  constructor
  · rintro ⟨reachable,always⟩
    have start := always_start always
    exact ⟨(configured_iff outbounds).mp ⟨reachable,start⟩,(always_iff_meets (fun s event _ => advance_total s event) defaultFirst_kept start).mp always⟩
  · rintro ⟨one,alone⟩
    obtain ⟨reachable,start⟩ := (configured_iff outbounds).mpr one
    exact ⟨reachable,(always_iff_meets (fun s event _ => advance_total s event) defaultFirst_kept start).mpr alone⟩

end

def byProtocol (config : OutboundDetourConfig String) : Except String String := .ok config.settings

theorem default_first_alone : (configured [("direct","freedom")]).manager.getHandler "direct" = some "freedom" ∧
    Always advance DefaultFirst (configured [("direct","freedom")]) [.remove "direct",.add "proxy" "vless"] := by
  obtain ⟨outbounds,made,same,exact⟩ := default_first_iff byProtocol [⟨"direct","freedom"⟩] _ rfl
  have alone : outbounds = [("direct","freedom")] := by
    obtain _ | ⟨⟨tagged,handled⟩,⟨⟩⟩ := made
    exact congrArg (fun outbound => [outbound]) (Prod.ext tagged (Except.ok.inj handled).symm)
  subst alone
  have one : OneHandler [("direct","freedom")] := by
    rintro _ (_ | ⟨_,⟨⟩⟩) _ (_ | ⟨_,⟨⟩⟩)
    rfl
  have allowed : Meets advance Alone (configured [("direct","freedom")]) [.remove "direct",.add "proxy" "vless"] := by
    refine meets_cons trivial rfl (meets_cons ?_ rfl trivial)
    intro other value found
    have gone := (get_removed (configured [("direct","freedom")]).manager).symm.trans found
    have before := get_added .new "direct" other "freedom"
    split at gone <;> simp_all
  obtain ⟨reachable,always⟩ := (exact [.remove "direct",.add "proxy" "vless"]).mpr ⟨one,allowed⟩
  exact ⟨reachable _ (mem_singleton.mpr rfl),always⟩

-- Two outbounds: the map may go through the second one first, and under one empty tag only the second is left.
theorem default_not_first : (∃ manager, buildConfig byProtocol .new [⟨"proxy","vless"⟩,⟨"direct","freedom"⟩] = .ok manager ∧
      Iterates manager [("direct","freedom"),("proxy","vless")] ∧
      getDefaultHandler [("direct","freedom"),("proxy","vless")] = some "freedom") ∧
    ∃ manager, buildConfig byProtocol .new [⟨"","vless"⟩,⟨"","freedom"⟩] = .ok manager ∧
      manager.getHandler "" = some "freedom" := by
  refine ⟨⟨(configured [("proxy","vless"),("direct","freedom")]).manager,rfl,?_,rfl⟩,_,rfl,rfl⟩
  exact iterates_front (configured [("proxy","vless"),("direct","freedom")]).tracks
    (mem_cons_of_mem _ (mem_singleton.mpr rfl))

end AstraCore.OutboundManager
