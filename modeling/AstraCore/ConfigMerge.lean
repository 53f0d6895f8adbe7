import AstraCore.KeyedList
import AstraCore.OutboundManager
import AstraCore.TextScan

namespace AstraCore.ConfigMerge
open TextScan KeyedList OutboundManager List

inductive SectionName where
  | log
  | routing
  | dns
  | policy
  | api
  | stats
  | reverse
  | observatory
  | fakeDns
deriving DecidableEq

structure InboundDetourConfig (Settings : Type) where
  tag : String
  settings : Settings

structure Config (Section Settings : Type) where
  sections : SectionName → Option Section
  inbounds : List (InboundDetourConfig Settings)
  outbounds : List (OutboundDetourConfig Settings)

variable {Section Settings : Type}

-- One entry of a file: in the place of the first one with its tag, if it has a tag; else where `place` puts it.
def overrideEntry (tag : α → String) (place : List α → α → List α) (entries : List α) (ob : α) : List α :=
  match entries.findIdx? fun x => tag x = tag ob ∧ tag ob ≠ "" with
  | some idx => entries.set idx ob
  | none => place entries ob

def push (entries : List α) (ob : α) : List α := entries ++ [ob]
def insertFirst (entries : List α) (ob : α) : List α := ob :: entries

def isTail (filename : Text) : Bool := "tail".toList <:+: toLowercase filename

def Config.overrideWith (self other : Config Section Settings) (filename : Text) : Config Section Settings where
  sections name := if (other.sections name).isSome then other.sections name else self.sections name
  inbounds := other.inbounds.foldl (overrideEntry InboundDetourConfig.tag push) self.inbounds
  outbounds := other.outbounds.foldl (overrideEntry OutboundDetourConfig.tag (if isTail filename then push else insertFirst)) self.outbounds

structure Tagged (tag : α → String) (entries : List α) : Prop where
  distinct : (entries.map tag).Nodup
  named : ∀ entry ∈ entries, tag entry ≠ ""

structure Config.Proper (config : Config Section Settings) : Prop where
  inbounds : Tagged InboundDetourConfig.tag config.inbounds
  outbounds : Tagged OutboundDetourConfig.tag config.outbounds

-- Entries with known tags in their places, new ones in the order of the file: inbounds behind the others, outbounds in front of
-- them or, for a file with "tail" in its name, behind them.
structure Merged (base other : Config Section Settings) (filename : Text) : Prop where
  inbounds : (base.overrideWith other filename).inbounds =
    overlay InboundDetourConfig.tag base.inbounds other.inbounds ++ additions InboundDetourConfig.tag base.inbounds other.inbounds
  outbounds : (base.overrideWith other filename).outbounds =
    if "tail".toList <:+: filename then
      overlay OutboundDetourConfig.tag base.outbounds other.outbounds ++ additions OutboundDetourConfig.tag base.outbounds other.outbounds
    else additions OutboundDetourConfig.tag base.outbounds other.outbounds ++ overlay OutboundDetourConfig.tag base.outbounds other.outbounds
  untouchedInbounds : (base.overrideWith other filename).inbounds.filter (fun entry => entry.tag ∉ other.inbounds.map InboundDetourConfig.tag) =
    base.inbounds.filter fun entry => entry.tag ∉ other.inbounds.map InboundDetourConfig.tag
  untouchedOutbounds :
    (base.overrideWith other filename).outbounds.filter (fun entry => entry.tag ∉ other.outbounds.map OutboundDetourConfig.tag) =
      base.outbounds.filter fun entry => entry.tag ∉ other.outbounds.map OutboundDetourConfig.tag
  proper : (base.overrideWith other filename).Proper

-- When the outbounds come out as they should: with "tail" in the name; with it in another spelling, if there is nothing to put
-- in front or nothing to put it in front of; else if there is at most one new outbound.
def OutboundsInOrder (base other : Config Section Settings) (filename : Text) : Prop :=
  "tail".toList <:+: filename ∨
    (isTail filename = true ∧ (base.outbounds = [] ∨ additions OutboundDetourConfig.tag base.outbounds other.outbounds = [])) ∨
    (isTail filename = false ∧ (additions OutboundDetourConfig.tag base.outbounds other.outbounds).length ≤ 1)

theorem overrideEntry_named (entries) (named : tag ob ≠ "") : overrideEntry tag place entries ob = upsert tag place entries ob := by
  have same : (fun x => decide (tag x = tag ob ∧ tag ob ≠ "")) = fun x => decide (tag x = tag ob) := by
    funext x
    exact decide_eq_decide.mpr (and_iff_left named)
  unfold overrideEntry upsert
  cases found : entries.findIdx? fun x => decide (tag x = tag ob) with
  | none | some idx => rw [same,found]

theorem overrideEntries_named (file entries : List α) (named : ∀ ob ∈ file, tag ob ≠ "") :
    file.foldl (overrideEntry tag place) entries = file.foldl (upsert tag place) entries := by
  induction file generalizing entries with
  | nil => rfl
  | cons ob rest ih =>
    rw [foldl_cons,overrideEntry_named entries (named ob (mem_cons_self ..))]
    exact ih _ fun other inside => named other (mem_cons_of_mem _ inside)

section Entries
variable {tag : α → String} {base file : List α} (known : Tagged tag base) (given : Tagged tag file)
include known given

theorem pushed_entries : file.foldl (overrideEntry tag push) base = overlay tag base file ++ additions tag base file := by
  rw [overrideEntries_named file base given.named]
  exact upserts_behind known.distinct given.distinct

theorem inserted_entries : file.foldl (overrideEntry tag insertFirst) base = (additions tag base file).reverse ++ overlay tag base file := by
  rw [overrideEntries_named file base given.named]
  exact upserts_before known.distinct given.distinct

theorem arranged_tagged (arranged : entries.Perm (overlay tag base file ++ additions tag base file)) : Tagged tag entries := by
  refine ⟨(arranged.map tag).nodup_iff.mpr (merged_distinct known.distinct given.distinct),fun entry member => ?_⟩
  have inside := (arranged.map tag).mem_iff.mp (mem_map_of_mem member)
  rw [map_append,overlay_keys,mem_append] at inside
  rcases inside with old | new
  · obtain ⟨other,there,same⟩ := mem_map.mp old
    exact same ▸ known.named other there
  · obtain ⟨other,there,same⟩ := mem_map.mp new
    exact same ▸ given.named other (mem_filter.mp there).1

end Entries

theorem pushed_kept (tag : α → String) : (overlay tag base file ++ additions tag base file).filter (fun entry => tag entry ∉ file.map tag) =
      base.filter fun entry => tag entry ∉ file.map tag := by
  rw [filter_append,overlay_kept,additions_changed,append_nil]

theorem inserted_kept (tag : α → String) : ((additions tag base file).reverse ++ overlay tag base file).filter (fun entry => tag entry ∉ file.map tag) =
      base.filter fun entry => tag entry ∉ file.map tag := by
  rw [filter_append,filter_reverse,additions_changed,overlay_kept]
  rfl

theorem tail_lowercase (tail : "tail".toList <:+: filename) : isTail filename = true := by
  obtain ⟨front,back,rfl⟩ := tail
  apply decide_eq_true
  refine ⟨toLowercase front,toLowercase back,?_⟩
  simp only [toLowercase,flatMap_append]
  rfl

section Override
variable {base other : Config Section Settings} (known : base.Proper) (given : other.Proper) (filename : Text)
include known given

theorem overrideWith_inbounds : (base.overrideWith other filename).inbounds =
    overlay InboundDetourConfig.tag base.inbounds other.inbounds ++ additions InboundDetourConfig.tag base.inbounds other.inbounds :=
  pushed_entries known.inbounds given.inbounds

theorem overrideWith_outbounds : (base.overrideWith other filename).outbounds = if isTail filename then
      overlay OutboundDetourConfig.tag base.outbounds other.outbounds ++ additions OutboundDetourConfig.tag base.outbounds other.outbounds
    else (additions OutboundDetourConfig.tag base.outbounds other.outbounds).reverse ++ overlay OutboundDetourConfig.tag base.outbounds other.outbounds := by
  rw [Config.overrideWith]
  split
  · exact pushed_entries known.outbounds given.outbounds
  · exact inserted_entries known.outbounds given.outbounds

theorem overrideWith_proper : (base.overrideWith other filename).Proper := by
  constructor
  · rw [overrideWith_inbounds known given]
    exact arranged_tagged known.inbounds given.inbounds (List.Perm.refl _)
  · rw [overrideWith_outbounds known given]
    split
    · exact arranged_tagged known.outbounds given.outbounds (List.Perm.refl _)
    · refine arranged_tagged known.outbounds given.outbounds ?_
      exact ((reverse_perm _).append_right _).trans perm_append_comm

theorem overrideWith_untouched : (base.overrideWith other filename).inbounds.filter (fun entry => entry.tag ∉ other.inbounds.map InboundDetourConfig.tag) =
      base.inbounds.filter (fun entry => entry.tag ∉ other.inbounds.map InboundDetourConfig.tag) ∧
    (base.overrideWith other filename).outbounds.filter (fun entry => entry.tag ∉ other.outbounds.map OutboundDetourConfig.tag) =
      base.outbounds.filter fun entry => entry.tag ∉ other.outbounds.map OutboundDetourConfig.tag := by
  constructor
  · rw [overrideWith_inbounds known given]
    exact pushed_kept ..
  · rw [overrideWith_outbounds known given]
    split
    · exact pushed_kept ..
    · exact inserted_kept ..

end Override

theorem reverse_fixed {entries : List α} (distinct : (entries.map f).Nodup) : entries.reverse = entries ↔ entries.length ≤ 1 := by
  rcases entries with _ | ⟨first,_ | ⟨second,rest⟩⟩
  · simp
  · simp
  · refine iff_of_false (fun same => ?_) (by simp)
    have last : (second :: rest).getLast (by simp) = first := by
      have head := congrArg head? same
      rw [head?_reverse] at head
      exact Option.some.inj head
    have inside : first ∈ second :: rest := by
      rw [← last]
      exact getLast_mem _
    exact (nodup_cons.mp distinct).1 (mem_map_of_mem inside)

theorem append_swapped (tag : α → String) :
    overlay tag base file ++ additions tag base file = additions tag base file ++ overlay tag base file ↔ base = [] ∨ additions tag base file = [] := by
  constructor
  · intro same
    by_contra both
    rw [not_or] at both
    obtain ⟨change,changes,new⟩ := exists_cons_of_ne_nil both.2
    obtain ⟨entry,entries,old⟩ := exists_cons_of_ne_nil (show overlay tag base file ≠ [] by simpa [overlay] using both.1)
    rw [new,old] at same
    have first := (List.cons.inj same).1
    have fresh := additions_apart base file change (by rw [new]; exact mem_cons_self ..)
    rw [← overlay_keys base file,old] at fresh
    exact fresh (first ▸ mem_cons_self ..)
  · rintro (empty | none_)
    · rw [empty,overlay,map_nil,append_nil,nil_append]
    · rw [none_,append_nil,nil_append]

theorem merge_iff (base other : Config Section Settings) (filename : Text) (known : base.Proper) (given : other.Proper) :
    Merged base other filename ↔ OutboundsInOrder base other filename := by
  have outbounds : (base.overrideWith other filename).outbounds = (if "tail".toList <:+: filename then
        overlay OutboundDetourConfig.tag base.outbounds other.outbounds ++ additions OutboundDetourConfig.tag base.outbounds other.outbounds
      else additions OutboundDetourConfig.tag base.outbounds other.outbounds ++ overlay OutboundDetourConfig.tag base.outbounds other.outbounds) ↔
      OutboundsInOrder base other filename := by
    rw [overrideWith_outbounds known given,OutboundsInOrder]
    by_cases tail : "tail".toList <:+: filename
    · rw [if_pos tail,if_pos (tail_lowercase tail)]
      exact iff_of_true rfl (.inl tail)
    · rw [if_neg tail,or_iff_right tail]
      cases lower : isTail filename with
      | true =>
        rw [if_pos rfl,append_swapped]
        simp
      | false =>
        rw [if_neg (by decide),append_left_inj,reverse_fixed (additions_distinct given.outbounds.distinct base.outbounds)]
        simp
  have ⟨keptIn,keptOut⟩ := overrideWith_untouched known given filename
  constructor
  · intro merged
    exact outbounds.mp merged.outbounds
  · intro ordered
    exact ⟨overrideWith_inbounds known given filename,outbounds.mpr ordered,keptIn,keptOut,overrideWith_proper known given filename⟩

def outbound (tag : String) : OutboundDetourConfig Unit := ⟨tag,()⟩

def directOnly : Config Unit Unit := ⟨fun _ => none,[],[outbound "direct"]⟩
def oneProxy : Config Unit Unit := ⟨fun _ => none,[],[outbound "proxy"]⟩
def twoProxies : Config Unit Unit := ⟨fun _ => none,[],[outbound "first",outbound "second"]⟩

theorem samples_proper : directOnly.Proper ∧ oneProxy.Proper ∧ twoProxies.Proper :=
  ⟨⟨⟨by decide,by decide⟩,⟨by decide,by decide⟩⟩,⟨⟨by decide,by decide⟩,⟨by decide,by decide⟩⟩,⟨⟨by decide,by decide⟩,⟨by decide,by decide⟩⟩⟩

theorem merge_one_proxy : Merged directOnly oneProxy "b.json".toList ∧ OutboundsInOrder directOnly oneProxy "b.json".toList := by
  have ordered : OutboundsInOrder directOnly oneProxy "b.json".toList := .inr (.inr ⟨by decide,by decide⟩)
  exact ⟨(merge_iff _ _ _ samples_proper.1 samples_proper.2.1).mpr ordered,ordered⟩

theorem two_proxies_reversed : directOnly.Proper ∧ twoProxies.Proper ∧ ¬ Merged directOnly twoProxies "b.json".toList ∧
      (directOnly.overrideWith twoProxies "b.json".toList).outbounds.map OutboundDetourConfig.tag = ["second","first","direct"] := by
  refine ⟨samples_proper.1,samples_proper.2.2,fun merged => ?_,by decide⟩
  have tags := congrArg (List.map OutboundDetourConfig.tag) merged.outbounds
  exact absurd tags (by decide)

end AstraCore.ConfigMerge
