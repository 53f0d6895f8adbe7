import Mathlib.Data.List.AList
import Mathlib.Data.List.Nodup

namespace AstraCore.KeyedList
open List
variable {α κ : Type} [DecidableEq κ] (key : α → κ)

def upsert (place : List α → α → List α) (items : List α) (change : α) : List α :=
  match items.findIdx? fun item => key item = key change with
  | some i => items.set i change
  | none => place items change

def overlay (items changes : List α) : List α := items.map fun item => (changes.find? fun change => key change = key item).getD item
def additions (items changes : List α) : List α := changes.filter fun change => key change ∉ items.map key

variable {key}

theorem find_absent {changes : List α} (absent : k ∉ changes.map key) : (changes.find? fun change => key change = k) = none := by
  rw [find?_eq_none]
  intro change member same
  exact absent (mem_map.mpr ⟨change,member,of_decide_eq_true same⟩)

theorem upsert_new (absent : key change ∉ items.map key) : upsert key place items change = place items change := by
  have none_ : (items.findIdx? fun item => key item = key change) = none := by
    rw [findIdx?_eq_none_iff]
    intro item member
    exact decide_eq_false fun same => absent (mem_map.mpr ⟨item,member,same⟩)
  rw [upsert,none_]

theorem overlay_single : overlay key items [change] = items.map fun item => if key change = key item then change else item := by
  apply map_congr_left
  intro item _
  rw [find?_cons]
  by_cases same : key change = key item
  · rw [if_pos same,decide_eq_true same]
    rfl
  · rw [if_neg same,decide_eq_false same]
    rfl

theorem overlay_untouched (absent : key change ∉ items.map key) : overlay key items [change] = items := by
  rw [overlay_single]
  conv => rhs; rw [← map_id items]
  apply map_congr_left
  intro item member
  exact if_neg fun same => absent (mem_map.mpr ⟨item,member,same.symm⟩)

theorem upsert_known (distinct : (items.map key).Nodup) (known : key change ∈ items.map key) :
    upsert key place items change = overlay key items [change] := by
  have found : ∃ i, (items.findIdx? fun item => key item = key change) = some i ∧ items.set i change = overlay key items [change] := by
    induction items with
    | nil => cases known
    | cons first rest ih =>
      have ⟨fresh,others⟩ := nodup_cons.mp distinct
      rw [findIdx?_cons]
      by_cases same : key first = key change
      · have untouched := overlay_untouched (same ▸ fresh)
        refine ⟨0,by rw [decide_eq_true same]; rfl,?_⟩
        rw [overlay_single] at untouched
        rw [overlay_single,map_cons,if_pos same.symm,untouched]
        rfl
      · have inside := (mem_cons.mp known).resolve_left (Ne.symm same)
        obtain ⟨i,at_,set⟩ := ih others inside
        refine ⟨i + 1,by rw [decide_eq_false same,at_]; rfl,?_⟩
        rw [overlay_single] at set
        rw [overlay_single,map_cons,if_neg (Ne.symm same),set_cons_succ,set]
  obtain ⟨i,at_,set⟩ := found
  rw [upsert,at_]
  exact set

theorem overlay_keys (items changes) : (overlay key items changes).map key = items.map key := by
  rw [overlay,map_map]
  apply map_congr_left
  intro item _
  rw [Function.comp]
  cases found : changes.find? fun change => key change = key item with
  | none => rfl
  | some change =>
    have same := find?_some found
    exact of_decide_eq_true same

theorem overlay_nil : overlay key items [] = items := map_id items

theorem overlay_append : overlay key (items ++ more) changes = overlay key items changes ++ overlay key more changes :=
  map_append

theorem overlay_cons (apart : key change ∉ changes.map key) (items) :
    overlay key (overlay key items [change]) changes = overlay key items (change :: changes) := by
  rw [overlay_single,overlay,map_map]
  apply map_congr_left
  intro item _
  rw [Function.comp,find?_cons]
  by_cases same : key change = key item
  · rw [if_pos same,decide_eq_true same,find_absent apart]
    rfl
  · rw [if_neg same,decide_eq_false same]

theorem overlay_absent (absent : key change ∉ items.map key) : overlay key items (change :: changes) = overlay key items changes := by
  apply map_congr_left
  intro item member
  rw [find?_cons,decide_eq_false fun same => absent (mem_map.mpr ⟨item,member,same.symm⟩)]

theorem overlay_alone (absent : key change ∉ changes.map key) : overlay key [change] changes = [change] := by
  rw [overlay,map_singleton,find_absent absent]
  rfl

theorem additions_keys (same : items.map key = others.map key) : additions key items changes = additions key others changes := by
  rw [additions,additions,same]

theorem additions_known (known : key change ∈ items.map key) : additions key items (change :: changes) = additions key items changes := by
  rw [additions,filter_cons_of_neg (by simpa using known)]
  rfl

theorem additions_new (absent : key change ∉ items.map key) : additions key items (change :: changes) = change :: additions key items changes := by
  rw [additions,filter_cons_of_pos (by simpa using absent)]
  rfl

theorem additions_extended (keys : ∀ k, k ∈ others.map key ↔ k = key change ∨ k ∈ items.map key) (apart : key change ∉ changes.map key) :
    additions key others changes = additions key items changes := by
  apply filter_congr
  intro other member
  have different : key other ≠ key change := fun same => apart (mem_map.mpr ⟨other,member,same⟩)
  rw [decide_eq_decide,keys]
  exact not_congr (or_iff_right different)

theorem additions_distinct (distinct : (changes.map key).Nodup) (items) : ((additions key items changes).map key).Nodup :=
  (filter_sublist.map key).nodup distinct

theorem additions_apart (items changes) : ∀ change ∈ additions key items changes, key change ∉ items.map key :=
  fun _ member => of_decide_eq_true (mem_filter.mp member).2

theorem merged_distinct (distinct : (items.map key).Nodup) (changed : (changes.map key).Nodup) :
    ((overlay key items changes ++ additions key items changes).map key).Nodup := by
  rw [map_append,overlay_keys]
  refine nodup_append.mpr ⟨distinct,additions_distinct changed items,?_⟩
  intro k inside other member same
  obtain ⟨change,new,rfl⟩ := mem_map.mp member
  exact additions_apart items changes change new (same ▸ inside)

theorem upserts_behind (distinct : (items.map key).Nodup) (changed : (changes.map key).Nodup) :
    changes.foldl (upsert key fun items change => items ++ [change]) items = overlay key items changes ++ additions key items changes := by
  induction changes generalizing items with
  | nil => rw [foldl_nil,overlay_nil,additions,filter_nil,append_nil]
  | cons change changes ih =>
    have ⟨apart,others⟩ := nodup_cons.mp changed
    rw [foldl_cons]
    by_cases known : key change ∈ items.map key
    · rw [upsert_known distinct known,ih (by rw [overlay_keys]; exact distinct) others,overlay_cons apart,additions_known known,
        additions_keys (overlay_keys items [change])]
    · have more : ((items ++ [change]).map key).Nodup := by
        rw [map_append]
        exact nodup_append.mpr ⟨distinct,nodup_singleton _,fun k inside other member same =>
          known (mem_singleton.mp member ▸ same ▸ inside)⟩
      have keys : ∀ k, k ∈ (items ++ [change]).map key ↔ k = key change ∨ k ∈ items.map key := by
        intro k
        rw [map_append,mem_append,map_singleton,mem_singleton,or_comm]
      rw [upsert_new known,ih more others,overlay_append,overlay_alone apart,additions_extended keys apart,overlay_absent known,
        additions_new known,append_assoc]
      rfl

theorem upserts_before (distinct : (items.map key).Nodup) (changed : (changes.map key).Nodup) :
    changes.foldl (upsert key fun items change => change :: items) items = (additions key items changes).reverse ++ overlay key items changes := by
  induction changes generalizing items with
  | nil => rw [foldl_nil,overlay_nil,additions,filter_nil,reverse_nil,nil_append]
  | cons change changes ih =>
    have ⟨apart,others⟩ := nodup_cons.mp changed
    rw [foldl_cons]
    by_cases known : key change ∈ items.map key
    · rw [upsert_known distinct known,ih (by rw [overlay_keys]; exact distinct) others,overlay_cons apart,additions_known known,
        additions_keys (overlay_keys items [change])]
    · have more : ((change :: items).map key).Nodup := nodup_cons.mpr ⟨known,distinct⟩
      have keys : ∀ k, k ∈ (change :: items).map key ↔ k = key change ∨ k ∈ items.map key := fun k => mem_cons
      have front : overlay key (change :: items) changes = change :: overlay key items changes := by
        rw [← singleton_append,overlay_append,overlay_alone apart]
        rfl
      rw [upsert_new known,ih more others,front,additions_extended keys apart,overlay_absent known,additions_new known,reverse_cons,append_assoc]
      rfl

theorem overlay_kept (items changes) :
    (overlay key items changes).filter (fun item => key item ∉ changes.map key) = items.filter fun item => key item ∉ changes.map key := by
  induction items with
  | nil => rfl
  | cons first rest ih =>
    rw [overlay,map_cons,filter_cons,filter_cons]
    by_cases changed : key first ∈ changes.map key
    · have same : key ((changes.find? fun change => key change = key first).getD first) = key first := by
        have keys : (overlay key [first] changes).map key = [key first] := overlay_keys [first] changes
        exact (List.cons.inj keys).1
      rw [if_neg (by simpa [same] using changed),if_neg (by simpa using changed)]
      exact ih
    · rw [find_absent changed,if_pos (by simpa using changed),if_pos (by simpa using changed)]
      exact congrArg (first :: ·) ih

theorem additions_changed (items changes) : (additions key items changes).filter (fun item => key item ∉ changes.map key) = [] := by
  rw [filter_eq_nil_iff]
  intro change member
  have inside := (mem_filter.mp member).1
  simpa using ⟨change,inside,rfl⟩

end AstraCore.KeyedList

namespace AstraCore.FiniteMap
variable {Key Value : Type} [DecidableEq Key]

theorem lookup_inserted (map : AList (fun _ : Key => Value)) (key other value) :
    (map.insert key value).lookup other = if other = key then some value else map.lookup other := by
  split
  · rename_i same
    rw [same,AList.lookup_insert]
  · rename_i different
    exact AList.lookup_insert_ne different

theorem lookup_erased (map : AList (fun _ : Key => Value)) (key other) :
    (map.erase key).lookup other = if other = key then none else map.lookup other := by
  split
  · rename_i same
    rw [same,AList.lookup_erase]
  · rename_i different
    exact AList.lookup_erase_ne different

end AstraCore.FiniteMap
