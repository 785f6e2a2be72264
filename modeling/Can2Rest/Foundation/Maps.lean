import Std.Data.ExtTreeMap.Lemmas
import Mathlib.Data.List.Perm.Basic

/-!
# Ordered maps as C++ uses them

The access functions of `std::map` on `ExtTreeMap`: `operator[]` inserts a
default, `insert` keeps the entry that is there, and the entries of one map are
written into another in any order.
-/

namespace Can2Rest.Foundation

open Std

variable {α β : Type} [Ord α] [TransOrd α]

/-- `std::map::operator[]`: a missing key is inserted with a default value. -/
def mapIndex (map : ExtTreeMap α β) (k : α) (default : β) : β × ExtTreeMap α β :=
  match map[k]? with
  | some value => (value, map)
  | none => (default, map.insert k default)

theorem mapIndex_fst (map : ExtTreeMap α β) (k : α) (default : β) :
    (mapIndex map k default).1 = map[k]?.getD default := by
  unfold mapIndex
  cases map[k]? <;> rfl

theorem mapIndex_of_some {map : ExtTreeMap α β} {k : α} {value : β}
    (h : map[k]? = some value) (default : β) :
    mapIndex map k default = (value, map) := by
  simp only [mapIndex, h]

variable [LawfulEqOrd α] [DecidableEq α]

theorem getElem?_insert (map : ExtTreeMap α β) (k other : α) (value : β) :
    (map.insert k value)[other]? = if k = other then some value else map[other]? := by
  rw [ExtTreeMap.getElem?_insert]
  simp only [Std.compare_eq_iff_eq]

theorem getElem?_insertIfNew (map : ExtTreeMap α β) (k other : α) (value : β) :
    (map.insertIfNew k value)[other]? =
      if k = other then some (map[k]?.getD value) else map[other]? := by
  rw [ExtTreeMap.getElem?_insertIfNew]
  simp only [Std.compare_eq_iff_eq, ExtTreeMap.mem_iff_isSome_getElem?]
  by_cases h : k = other
  · subst h
    cases map[k]? <;> simp
  · simp [h]

theorem getElem?_insertIfNew_of_some {map : ExtTreeMap α β} {other : α} {value : β}
    (h : map[other]? = some value) (k : α) (new : β) :
    (map.insertIfNew k new)[other]? = some value := by
  rw [getElem?_insertIfNew]
  split
  next hk => rw [hk, h, Option.getD_some]
  next => exact h

theorem getElem?_mapIndex (map : ExtTreeMap α β) (k other : α) (default : β) :
    (mapIndex map k default).2[other]? =
      if k = other then some (map[k]?.getD default) else map[other]? := by
  unfold mapIndex
  cases h : map[k]? with
  | some value =>
      by_cases hk : k = other
      · simp [← hk, h]
      · simp [hk]
  | none =>
      rw [getElem?_insert]
      rfl

theorem insert_eq_self_iff {map : ExtTreeMap α β} {k : α} {value : β} :
    map.insert k value = map ↔ map[k]? = some value := by
  constructor
  · intro h
    rw [← h, getElem?_insert, if_pos rfl]
  · intro h
    apply ExtTreeMap.ext_getElem?
    intro other
    rw [getElem?_insert]
    split
    next hk => rw [← hk, h]
    next => rfl

theorem insertIfNew_of_mem {map : ExtTreeMap α β} {k : α} {value : β}
    (h : k ∈ map) : map.insertIfNew k value = map := by
  apply ExtTreeMap.ext_getElem?
  intro other
  rw [getElem?_insertIfNew]
  split
  next hk =>
      rw [← hk, ExtTreeMap.getElem?_eq_some_getElem h]
      rfl
  next => rfl

theorem insertIfNew_of_not_mem {map : ExtTreeMap α β} {k : α} {value : β}
    (h : k ∉ map) : map.insertIfNew k value = map.insert k value := by
  apply ExtTreeMap.ext_getElem?
  intro other
  rw [getElem?_insertIfNew, getElem?_insert, ExtTreeMap.getElem?_eq_none h]
  rfl

theorem insertIfNew_eq_self_iff {map : ExtTreeMap α β} {k : α} {value : β} :
    map.insertIfNew k value = map ↔ k ∈ map := by
  constructor
  · intro h
    rw [← h]
    exact ExtTreeMap.mem_insertIfNew_self
  · exact insertIfNew_of_mem

/-! ## Writing all entries of one map into another -/

theorem getElem?_insertMany_cases (target : ExtTreeMap α β) (entries : List (α × β)) (k : α) :
    (∃ value, (k, value) ∈ entries ∧ (target.insertMany entries)[k]? = some value) ∨
      k ∉ entries.map Prod.fst ∧ (target.insertMany entries)[k]? = target[k]? := by
  by_cases hk : k ∈ entries.map Prod.fst
  · left
    rw [ExtTreeMap.getElem?_insertMany_list, List.findSomeRev?_eq_findSome?_reverse]
    generalize hfound : entries.reverse.findSome? _ = found
    cases found with
    | some value =>
        obtain ⟨⟨key, value'⟩, hentry, hvalue⟩ := List.exists_of_findSome?_eq_some hfound
        simp only [Std.compare_eq_iff_eq, Option.ite_none_right_eq_some,
          Option.some.injEq] at hvalue
        obtain ⟨rfl, rfl⟩ := hvalue
        exact ⟨value', List.mem_reverse.mp hentry, Option.some_or⟩
    | none =>
        obtain ⟨entry, hentry, rfl⟩ := List.mem_map.mp hk
        have hnone := List.findSome?_eq_none_iff.mp hfound entry (List.mem_reverse.mpr hentry)
        simp [ReflCmp.compare_self] at hnone
  · refine .inr ⟨hk, ExtTreeMap.getElem?_insertMany_list_of_contains_eq_false ?_⟩
    rw [Bool.eq_false_iff]
    exact fun hcontains => hk (List.contains_iff_mem.mp hcontains)

/-- The entries of `map` in some order. -/
structure Listing (map : ExtTreeMap α β) (entries : List (α × β)) : Prop where
  perm : entries.Perm map.toList

omit [DecidableEq α] in
theorem Listing.mem_iff {map : ExtTreeMap α β} {entries : List (α × β)}
    (h : Listing map entries) {k : α} {value : β} :
    (k, value) ∈ entries ↔ map[k]? = some value := by
  rw [h.perm.mem_iff, ExtTreeMap.mem_toList_iff_getElem?_eq_some]

theorem Listing.getElem?_insertMany {map : ExtTreeMap α β} {entries : List (α × β)}
    (h : Listing map entries) (target : ExtTreeMap α β) (k : α) :
    (target.insertMany entries)[k]? = map[k]?.or target[k]? := by
  rcases getElem?_insertMany_cases target entries k with ⟨value, hentry, hsome⟩ | ⟨hk, hsame⟩
  · rw [hsome, h.mem_iff.mp hentry, Option.some_or]
  · cases hvalue : map[k]? with
    | some value => exact absurd (List.mem_map.mpr ⟨_, h.mem_iff.mpr hvalue, rfl⟩) hk
    | none => rw [hsame, Option.none_or]

end Can2Rest.Foundation
