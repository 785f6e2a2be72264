import Can2Rest.CanMessage
import Std.Data.ExtTreeMap.Lemmas

/-!
# The packet filter

This file models `can_id_filter.cpp`.  The filter is set up before the main loop
starts; `check_message` applies `operator[]` only to a key that exists, so no
later call changes it.
-/

namespace Can2Rest

structure CanIdFilter where
  invert : Bool
  filterList : Std.ExtTreeMap UInt32 Bool

namespace CanIdFilter

def new : CanIdFilter := ⟨false, ∅⟩

def setInvertFilter (filter : CanIdFilter) (invert : Bool) : CanIdFilter :=
  { filter with invert := invert }

def setFilter (filter : CanIdFilter) (id : UInt16) (allow : Bool) : CanIdFilter :=
  { filter with filterList := filter.filterList.insert id.toUInt32 allow }

def checkKeyExists (filter : CanIdFilter) (id : UInt16) : Bool :=
  filter.filterList.contains id.toUInt32

def checkMessage (filter : CanIdFilter) (id : UInt16) : Bool :=
  if !filter.checkKeyExists id then filter.invert
  else filter.filterList[id.toUInt32]?.getD false

theorem checkMessage_eq (filter : CanIdFilter) (id : UInt16) :
    filter.checkMessage id =
      filter.filterList[id.toUInt32]?.getD filter.invert := by
  rw [checkMessage, checkKeyExists, Std.ExtTreeMap.contains_eq_isSome_getElem?]
  cases filter.filterList[id.toUInt32]? <;> rfl

@[simp] theorem invert_setFilter (filter : CanIdFilter) (id : UInt16)
    (allow : Bool) : (filter.setFilter id allow).invert = filter.invert := rfl

theorem getElem?_setFilter (filter : CanIdFilter) (id other : UInt16)
    (allow : Bool) :
    (filter.setFilter id allow).filterList[other.toUInt32]? =
      if id = other then some allow else filter.filterList[other.toUInt32]? := by
  simp only [setFilter, Std.ExtTreeMap.getElem?_insert, Std.compare_eq_iff_eq]
  by_cases h : id = other
  · simp [h]
  · have hne : id.toUInt32 ≠ other.toUInt32 := by
      intro heq
      exact h (UInt16.toUInt32_inj.mp heq)
    simp [h, hne]

end CanIdFilter

end Can2Rest
