import Mathlib.Tactic.Common

/-!
# JSON values

`serde_json::Value` with the `preserve_order` feature: an object keeps its members in the
order of insertion, and inserting a key that is present replaces its value in place.

## Implementation notes

A `Map` is the list of its members. The functions below keep keys distinct; a list with a
key twice is no value of `serde_json`. Numbers are stored as `serde_json` stores them:
unsigned, negative or floating point.
-/

namespace OpenaiRs.Serde

/-- A field that may be missing. -/
inductive Omittable (α : Type*) where
  | omitted
  | value (a : α)
  deriving DecidableEq

/-- A field that may be an explicit `null`. -/
inductive Nullable (α : Type*) where
  | null
  | value (a : α)
  deriving DecidableEq

/-- The value of a field that is neither missing nor `null`. -/
def Omittable.toOption {α : Type*} : Omittable α → Option α
  | .omitted => none
  | .value a => some a

def Nullable.toOption {α : Type*} : Nullable α → Option α
  | .null => none
  | .value a => some a

/-- The text of a field that may be missing or `null`. -/
def Omittable.present {α : Type*} (field : Omittable (Nullable α)) : Option α :=
  field.toOption.bind Nullable.toOption

inductive Number where
  | posInt (n : UInt64)
  | negInt (n : Int64)
  | float (x : Float)

namespace Number

def asU64 : Number → Option UInt64
  | posInt n => some n
  | _ => none

def asI64 : Number → Option Int64
  | posInt n => if n ≤ Int64.maxValue.toUInt64 then some n.toInt64 else none
  | negInt n => some n
  | float _ => none

def asF64 : Number → Float
  | posInt n => n.toFloat
  | negInt n => n.toFloat
  | float x => x

/-- `Number::from_f64`: only finite numbers are JSON numbers. -/
def fromF64 (x : Float) : Option Number := if x.isFinite then some (.float x) else none

/-- `Number::from` for a signed integer. -/
def fromI64 (n : Int64) : Number := if n < 0 then .negInt n else .posInt n.toUInt64

end Number

inductive Value where
  | null
  | bool (b : Bool)
  | number (n : Number)
  | string (s : String)
  | array (items : List Value)
  | object (members : List (String × Value))

/-- The members of an object. -/
abbrev Map := List (String × Value)

namespace Value

def isNull : Value → Bool
  | null => true
  | _ => false

def asStr : Value → Option String
  | string s => some s
  | _ => none

def asArray : Value → Option (List Value)
  | array items => some items
  | _ => none

def asObject : Value → Option Map
  | object members => some members
  | _ => none

@[simp] theorem isNull_string (s : String) : (string s).isNull = false := rfl

theorem asObject_eq_some {value : Value} {members : Map} (h : value.asObject = some members) :
    value = .object members := by
  cases value with
  | object other =>
      cases h
      rfl
  | _ => cases h

end Value

namespace Map

def get (m : Map) (key : String) : Option Value := (m.find? (·.1 = key)).map Prod.snd

def containsKey (m : Map) (key : String) : Bool := m.any (·.1 = key)

/-- Replace the value of a key, or append a new member. -/
def insert (m : Map) (key : String) (value : Value) : Map :=
  if m.containsKey key then m.map fun member => if member.1 = key then (key, value) else member
  else m ++ [(key, value)]

/-- `entry(key).or_insert_with(..)`. -/
def orInsert (m : Map) (key : String) (value : Value) : Map :=
  if m.containsKey key then m else m ++ [(key, value)]

/-- `Map::remove`, which moves the last member into the gap. -/
def remove (m : Map) (key : String) : Map :=
  match m.getLast? with
  | none => []
  | some last =>
      if last.1 = key then m.filter (·.1 ≠ key)
      else if m.containsKey key then m.dropLast.map fun member => if member.1 = key then last else member
      else m

@[simp] theorem get_nil (key : String) : Map.get [] key = none := rfl

theorem get_cons (member : String × Value) (rest : Map) (key : String) :
    Map.get (member :: rest) key = if member.1 = key then some member.2 else Map.get rest key := by
  rw [get, List.find?_cons]
  by_cases heq : member.1 = key
  · simp [heq]
  · simp [heq, get]

theorem containsKey_eq_isSome (m : Map) (key : String) : m.containsKey key = (m.get key).isSome := by
  induction m with
  | nil => rfl
  | cons member rest ih =>
      rw [containsKey, List.any_cons, get_cons]
      by_cases heq : member.1 = key
      · simp [heq]
      · simpa [heq, containsKey] using ih

theorem get_append (m more : Map) (key : String) : Map.get (m ++ more) key = (m.get key).or (more.get key) := by
  induction m with
  | nil => rfl
  | cons member rest ih =>
      rw [List.cons_append, get_cons, get_cons, ih]
      split
      · rfl
      · rfl

theorem get_append_of_some {m : Map} {key : String} {value : Value} (h : m.get key = some value)
    (more : Map) : Map.get (m ++ more) key = some value := by
  rw [get_append, h]
  rfl

/-- Replacing the value of one key. -/
theorem get_map_replace (m : Map) (key other : String) (value : Value) :
    Map.get (m.map fun member => if member.1 = key then (key, value) else member) other =
      if key = other then (m.get key).map fun _ => value else m.get other := by
  induction m with
  | nil => simp
  | cons member rest ih =>
      rw [List.map_cons, get_cons, get_cons, get_cons, ih]
      by_cases hmember : member.1 = key
      · by_cases hother : key = other
        · simp [hmember, hother]
        · simp [hmember, hother]
      · by_cases hother : key = other
        · subst hother
          simp [hmember]
        · simp [hmember, hother]

/-- The members after an insertion. -/
theorem get_insert (m : Map) (key other : String) (value : Value) :
    (m.insert key value).get other = if key = other then some value else m.get other := by
  rw [insert, containsKey_eq_isSome]
  split
  · rename_i hsome
    obtain ⟨old, hold⟩ := Option.isSome_iff_exists.mp hsome
    rw [get_map_replace, hold]
    rfl
  · rename_i hnone
    rw [get_append, get_cons, get_nil]
    by_cases heq : key = other
    · subst heq
      have habsent : m.get key = none := by simpa using hnone
      simp [habsent]
    · simp [heq]

theorem containsKey_insert (m : Map) (key other : String) (value : Value) :
    (m.insert key value).containsKey other = (decide (key = other) || m.containsKey other) := by
  rw [containsKey_eq_isSome, get_insert, containsKey_eq_isSome]
  by_cases heq : key = other
  · simp [heq]
  · simp [heq]

/-- Inserting under another key keeps a member. -/
theorem get_insert_of_ne {m : Map} {key other : String} {value : Value}
    (h : m.get key = some value) (hne : other ≠ key) (inserted : Value) :
    (m.insert other inserted).get key = some value := by
  rw [get_insert, if_neg hne]
  exact h

/-- The inserted member is there. -/
theorem get_insert_self (m : Map) (key : String) (value : Value) :
    (m.insert key value).get key = some value := by
  rw [get_insert, if_pos rfl]

/-- `or_insert_with` keeps every member. -/
theorem get_orInsert_of_some {m : Map} {key : String} {value : Value} (h : m.get key = some value)
    (other : String) (inserted : Value) : (m.orInsert other inserted).get key = some value := by
  rw [orInsert]
  split
  · exact h
  · exact get_append_of_some h _

theorem containsKey_eq_false_iff {m : Map} {key : String} :
    m.containsKey key = false ↔ ∀ member ∈ m, member.1 ≠ key := by
  simp [containsKey]

/-- The key is gone. -/
theorem containsKey_remove (m : Map) (key : String) : (m.remove key).containsKey key = false := by
  rw [containsKey_eq_false_iff, remove]
  split
  · simp
  · rename_i last _
    split
    · simp
    · rename_i hlast
      split
      · intro member hmem
        obtain ⟨old, _, rfl⟩ := List.mem_map.mp hmem
        split
        · exact hlast
        · assumption
      · rename_i hnone
        exact containsKey_eq_false_iff.mp (by simpa using hnone)

/-- Removing what is not there changes nothing. -/
theorem remove_eq_self {m : Map} {key : String} (h : m.containsKey key = false) : m.remove key = m := by
  rw [remove]
  split
  · rename_i hempty
    exact (List.getLast?_eq_none_iff.mp hempty).symm
  · rename_i last hlast
    rw [if_neg (containsKey_eq_false_iff.mp h last (List.mem_of_getLast? hlast)), h]
    rfl

theorem mem_of_get {m : Map} {key : String} {value : Value} (h : m.get key = some value) : (key, value) ∈ m := by
  obtain ⟨member, hfind, hvalue⟩ := Option.map_eq_some_iff.mp h
  have hkey : member.1 = key := by simpa using List.find?_some hfind
  rw [← hkey, ← hvalue]
  exact List.mem_of_find?_eq_some hfind

theorem mem_insert {m : Map} {key : String} {value : Value} {member : String × Value}
    (h : member ∈ m.insert key value) : member ∈ m ∨ member = (key, value) := by
  rw [insert] at h
  split at h
  · obtain ⟨old, hold, rfl⟩ := List.mem_map.mp h
    split
    · exact .inr rfl
    · exact .inl hold
  · obtain hold | hnew := List.mem_append.mp h
    · exact .inl hold
    · exact .inr (List.mem_singleton.mp hnew)

theorem mem_of_mem_remove {m : Map} {key : String} {member : String × Value} (h : member ∈ m.remove key) :
    member ∈ m := by
  rw [remove] at h
  split at h
  · cases h
  · rename_i last hlast
    split at h
    · exact (List.mem_filter.mp h).1
    · split at h
      · obtain ⟨old, hold, rfl⟩ := List.mem_map.mp h
        split
        · exact List.mem_of_getLast? hlast
        · exact List.dropLast_subset _ hold
      · exact h

/-- The same keys, with related values. -/
def Pairs (R : String → Value → Value → Prop) (m m' : Map) : Prop :=
  List.Forall₂ (fun member member' => member'.1 = member.1 ∧ R member.1 member.2 member'.2) m m'

theorem Pairs.get {R : String → Value → Value → Prop} {m m' : Map} (h : Pairs R m m') (key : String) :
    Option.Rel (R key) (Map.get m key) (Map.get m' key) := by
  induction h with
  | nil => exact .none
  | @cons member member' rest rest' hmember _ ih =>
      obtain ⟨hkey, hvalue⟩ := hmember
      rw [get_cons, get_cons, hkey]
      by_cases heq : member.1 = key
      · rw [if_pos heq, if_pos heq]
        exact .some (heq ▸ hvalue)
      · rw [if_neg heq, if_neg heq]
        exact ih

end Map

end OpenaiRs.Serde
