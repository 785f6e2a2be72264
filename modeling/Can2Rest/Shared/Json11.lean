import Can2Rest.Foundation.Binary64

/-!
# JSON values of `SHARED/json11`

An object is a `std::map` by key: its members are kept in key order, and the
order of `std::string` is the lexicographic order of unsigned bytes.
-/

namespace Can2Rest.Shared

open Can2Rest.Foundation

/-- `JsonInt` and `JsonDouble` are the two representations of a `NUMBER`. -/
inductive Json where
  | nul
  | int (value : Int)
  | double (value : Binary64)
  | bool (value : Bool)
  | string (value : Bytes)
  | array (items : List Json)
  | object (members : List (Bytes × Json))

namespace Json

/-! ## Object maps -/

/-- `map[key] = value`. -/
def assign (key : Bytes) (value : Json) :
    List (Bytes × Json) → List (Bytes × Json)
  | [] => [(key, value)]
  | (first, old) :: rest =>
      match compare key first with
      | .lt => (key, value) :: (first, old) :: rest
      | .eq => (key, value) :: rest
      | .gt => (first, old) :: assign key value rest

/-- `map.insert`, which keeps the entry that is there. -/
def insert (key : Bytes) (value : Json) :
    List (Bytes × Json) → List (Bytes × Json)
  | [] => [(key, value)]
  | (first, old) :: rest =>
      match compare key first with
      | .lt => (key, value) :: (first, old) :: rest
      | .eq => (first, old) :: rest
      | .gt => (first, old) :: insert key value rest

/-- `Json::object{{key, value}, ...}`. -/
def ofMembers (members : List (Bytes × Json)) : Json :=
  .object (members.foldl (fun map entry => insert entry.1 entry.2 map) [])

def find (key : Bytes) (members : List (Bytes × Json)) : Option Json :=
  members.lookup key

theorem find_cons (key first : Bytes) (value : Json) (map : List (Bytes × Json)) :
    find key ((first, value) :: map) = if key = first then some value else find key map := by
  unfold find
  split
  next h => rw [h, List.lookup_cons_self]
  next h => rw [List.lookup_cons, beq_false_of_ne h]

theorem find_assign (key other : Bytes) (value : Json) (map : List (Bytes × Json)) :
    find other (assign key value map) = if other = key then some value else find other map := by
  induction map with
  | nil => exact find_cons other key value []
  | cons entry map ih =>
      obtain ⟨first, old⟩ := entry
      rw [assign]
      split
      next hlt => rw [find_cons]
      next heq =>
          obtain rfl := Std.LawfulEqCmp.eq_of_compare heq
          rw [find_cons, find_cons]
          split
          next => rfl
          next => rfl
      next hgt =>
          rw [find_cons, find_cons, ih]
          split
          next hfirst =>
              rw [if_neg]
              rintro rfl
              rw [hfirst, Std.compare_self] at hgt
              cases hgt
          next => rfl

/-- In the order of the keys. -/
def Sorted (members : List (Bytes × Json)) : Prop :=
  members.Pairwise fun first second => compare first.1 second.1 = .lt

theorem mem_of_mem_assign {key : Bytes} {value : Json} {map : List (Bytes × Json)}
    {entry : Bytes × Json} (h : entry ∈ assign key value map) :
    entry = (key, value) ∨ entry ∈ map := by
  induction map with
  | nil => exact .inl (List.mem_singleton.mp h)
  | cons head map ih =>
      rw [assign] at h
      split at h
      next => exact List.mem_cons.mp h
      next => exact (List.mem_cons.mp h).imp_right (List.mem_cons_of_mem _)
      next =>
          rcases List.mem_cons.mp h with rfl | h
          · exact .inr List.mem_cons_self
          · exact (ih h).imp_right (List.mem_cons_of_mem _)

theorem sorted_assign (key : Bytes) (value : Json) {map : List (Bytes × Json)} (h : Sorted map) :
    Sorted (assign key value map) := by
  induction map with
  | nil => exact List.pairwise_singleton _ _
  | cons entry map ih =>
      obtain ⟨first, old⟩ := entry
      obtain ⟨hfirst, hmap⟩ := List.pairwise_cons.mp h
      rw [assign]
      split
      next hlt =>
          refine List.pairwise_cons.mpr ⟨?_, h⟩
          rintro other hother
          rcases List.mem_cons.mp hother with rfl | hother
          · exact hlt
          · exact Std.TransCmp.lt_trans hlt (hfirst other hother)
      next heq =>
          obtain rfl := Std.LawfulEqCmp.eq_of_compare heq
          exact List.pairwise_cons.mpr ⟨hfirst, hmap⟩
      next hgt =>
          refine List.pairwise_cons.mpr ⟨?_, ih hmap⟩
          rintro other hother
          rcases mem_of_mem_assign hother with rfl | hother
          · exact Std.OrientedCmp.gt_iff_lt.mp hgt
          · exact hfirst other hother

/-! ## Accessors -/

def isNull : Json → Bool
  | .nul => true
  | _ => false

def isNumber : Json → Bool
  | .int _ => true
  | .double _ => true
  | _ => false

def isBool : Json → Bool
  | .bool _ => true
  | _ => false

def isString : Json → Bool
  | .string _ => true
  | _ => false

def isArray : Json → Bool
  | .array _ => true
  | _ => false

def isObject : Json → Bool
  | .object _ => true
  | _ => false

def numberValue : Json → Binary64
  | .int value => .finite value
  | .double value => value
  | _ => .finite 0

def intValue (undefined : Binary64.OutOfRange) : Json → Int
  | .int value => value
  | .double value => value.toInt undefined
  | _ => 0

def boolValue : Json → Bool
  | .bool value => value
  | _ => false

def stringValue : Json → Bytes
  | .string value => value
  | _ => []

def arrayItems : Json → List Json
  | .array items => items
  | _ => []

def objectItems : Json → List (Bytes × Json)
  | .object members => members
  | _ => []

def member (key : Bytes) (value : Json) : Option Json := find key value.objectItems

/-! ## Serialization -/

def hexDigit (n : Nat) : UInt8 :=
  if n < 10 then UInt8.ofNat (48 + n) else UInt8.ofNat (87 + n)

def escapeControl (ch : UInt8) : Bytes :=
  ascii "\\u00" ++ [hexDigit (ch.toNat / 16), hexDigit (ch.toNat % 16)]

def dumpChars : Bytes → Bytes
  | [] => []
  | 0xe2 :: 0x80 :: 0xa8 :: rest => ascii "\\u2028" ++ dumpChars rest
  | 0xe2 :: 0x80 :: 0xa9 :: rest => ascii "\\u2029" ++ dumpChars rest
  | ch :: rest =>
      (if ch = 92 then ascii "\\\\"
       else if ch = 34 then ascii "\\\""
       else if ch = 8 then ascii "\\b"
       else if ch = 12 then ascii "\\f"
       else if ch = 10 then ascii "\\n"
       else if ch = 13 then ascii "\\r"
       else if ch = 9 then ascii "\\t"
       else if ch ≤ 0x1f then escapeControl ch
       else [ch]) ++ dumpChars rest

def dumpString (value : Bytes) : Bytes := 34 :: dumpChars value ++ [34]

/--
A negative zero would print as `-0`, but the sign of a zero is not kept.  The program
dumps no number that it has parsed.
-/
def dumpDouble : Binary64 → Bytes
  | .finite value => Binary64.formatG17 value
  | .infinite _ => ascii "null"

mutual

def dump : Json → Bytes
  | .nul => ascii "null"
  | .int value => intToDecimal value
  | .double value => dumpDouble value
  | .bool value => ascii (if value then "true" else "false")
  | .string value => dumpString value
  | .array items => ascii "[" ++ dumpItems true items ++ ascii "]"
  | .object members => ascii "\x7b" ++ dumpMembers true members ++ ascii "\x7d"

def dumpItems (first : Bool) : List Json → Bytes
  | [] => []
  | value :: rest =>
      (if first then [] else ascii ", ") ++ value.dump ++ dumpItems false rest

def dumpMembers (first : Bool) : List (Bytes × Json) → Bytes
  | [] => []
  | (key, value) :: rest =>
      (if first then [] else ascii ", ") ++ dumpString key ++ ascii ": " ++
        value.dump ++ dumpMembers false rest

end

end Json

end Can2Rest.Shared
