import OpenaiRs.Serde.DistinctKeys
import OpenaiRs.Serde.Wire
import Mathlib.Data.List.Nodup
import Mathlib.Data.List.Perm.Subperm

/-!
# Structs that retain unknown members

A struct with derived codecs: the declared fields, each under its key, and a flattened `extra` with every other
member of the object. A struct that was decoded has no declared key in `extra`.

## Implementation notes

The declared fields are described once, as a tuple. Its entries are what is written for a value: a key with
the value under it, or without one where the field is skipped.
-/

namespace OpenaiRs.Serde

namespace Map

/-- The map that insertions build from nothing. -/
def collect (members : List (String × Value)) : Map :=
  members.foldl (fun m member => m.insert member.1 member.2) []

theorem nodup_collect (members : List (String × Value)) : ((collect members).map Prod.fst).Nodup := by
  suffices h : ∀ m : Map, (m.map Prod.fst).Nodup →
      ((members.foldl (fun m member => m.insert member.1 member.2) m).map Prod.fst).Nodup from h [] List.nodup_nil
  induction members with
  | nil => exact fun _ hnodup => hnodup
  | cons member rest ih => exact fun m hnodup => ih _ (nodup_insert hnodup member.1 member.2)

theorem mem_of_mem_collect {members : List (String × Value)} {member : String × Value}
    (h : member ∈ collect members) : member ∈ members := by
  suffices hfold : ∀ m : Map, member ∈ members.foldl (fun m member => m.insert member.1 member.2) m →
      member ∈ m ∨ member ∈ members from (hfold [] h).resolve_left List.not_mem_nil
  clear h
  induction members with
  | nil => exact fun _ h => .inl h
  | cons first rest ih =>
      intro m h
      obtain hbefore | hrest := ih _ h
      · obtain hold | rfl := mem_insert hbefore
        · exact .inl hold
        · exact .inr List.mem_cons_self
      · exact .inr (List.mem_cons_of_mem first hrest)

/-- Members with distinct keys are inserted one behind the other. -/
theorem collect_eq_self {members : List (String × Value)} (h : (members.map Prod.fst).Nodup) :
    collect members = members := by
  suffices hfold : ∀ m : Map, ((m ++ members).map Prod.fst).Nodup →
      members.foldl (fun m member => m.insert member.1 member.2) m = m ++ members from hfold [] h
  clear h
  induction members with
  | nil => exact fun m _ => (List.append_nil m).symm
  | cons member rest ih =>
      intro m hnodup
      have habsent : m.containsKey member.1 = false := by
        rw [containsKey_eq_false_iff]
        intro other hother heq
        rw [List.map_append] at hnodup
        exact (List.nodup_append.mp hnodup).2.2 other.1 (List.mem_map_of_mem hother) member.1
          List.mem_cons_self heq
      have hinsert : m.insert member.1 member.2 = m ++ [member] := if_neg (Bool.eq_false_iff.mp habsent)
      rw [List.foldl_cons, hinsert, ih _ (by rwa [List.append_assoc]), List.append_assoc]
      rfl

/-- Members whose values are rewritten, each under its key. -/
def rewrite (f : String → Value → Value) (m : Map) : Map := m.map fun member => (member.1, f member.1 member.2)

theorem rewrite_insert (f : String → Value → Value) (m : Map) (key : String) (value : Value) :
    (m.insert key value).rewrite f = (m.rewrite f).insert key (f key value) := by
  have hkey : (m.rewrite f).containsKey key = m.containsKey key := by
    rw [rewrite, containsKey, containsKey, List.any_map]
    rfl
  rw [insert, insert, hkey]
  split
  · rw [rewrite, rewrite, List.map_map, List.map_map]
    apply List.map_congr_left
    intro member _
    dsimp only [Function.comp]
    split <;> rfl
  · rw [rewrite, rewrite, List.map_append]
    rfl

/-- It does not matter whether values are rewritten before their members are inserted or after. -/
theorem rewrite_collect (f : String → Value → Value) (members : List (String × Value)) :
    (collect members).rewrite f = collect (rewrite f members) := by
  suffices hfold : ∀ m : Map, rewrite f (members.foldl (fun m member => m.insert member.1 member.2) m) =
      (rewrite f members).foldl (fun m member => m.insert member.1 member.2) (m.rewrite f) from hfold []
  induction members with
  | nil => exact fun _ => rfl
  | cons member rest ih =>
      intro m
      rw [List.foldl_cons, ih, rewrite_insert]
      rfl

end Map

/-- Two objects with the same members, in any order. -/
def Value.SameMembers (v w : Value) : Prop := ∃ m m' : Map, v = .object m ∧ w = .object m' ∧ m.Perm m'

theorem Value.SameMembers.refl (m : Map) : Value.SameMembers (.object m) (.object m) := ⟨m, m, rfl, rfl, .refl m⟩

theorem Value.SameMembers.trans {v w u : Value} (h : v.SameMembers w) (h' : w.SameMembers u) : v.SameMembers u := by
  obtain ⟨m, m', rfl, rfl, hperm⟩ := h
  obtain ⟨_, m'', heq, rfl, hperm'⟩ := h'
  cases heq
  exact ⟨m, m'', rfl, rfl, hperm.trans hperm'⟩

/-- What a derived codec writes for the declared fields; a field that is skipped has no value. -/
abbrev Entries := List (String × Option Value)

namespace Entries

def present (entries : Entries) : Map := entries.filterMap fun entry => entry.2.map (entry.1, ·)

theorem mem_present {entries : Entries} {key : String} {value : Value} :
    (key, value) ∈ entries.present ↔ (key, some value) ∈ entries := by
  rw [present, List.mem_filterMap]
  constructor
  · rintro ⟨⟨key', found⟩, hmem, h⟩
    obtain ⟨value', rfl, heq⟩ := Option.map_eq_some_iff.mp h
    cases heq
    exact hmem
  · intro hmem
    exact ⟨_, hmem, rfl⟩

theorem keys_present_sublist (entries : Entries) : (entries.present.map Prod.fst).Sublist (entries.map Prod.fst) := by
  induction entries with
  | nil => exact .slnil
  | cons entry rest ih =>
      obtain ⟨key, found⟩ := entry
      cases found with
      | none => exact ih.cons key
      | some value => exact ih.cons_cons key

/-- An object has under every key what the entries say. -/
def Agree (entries : Entries) (m : Map) : Prop := ∀ entry ∈ entries, m.get entry.1 = entry.2

end Entries

/-- The codec of the declared fields of a struct, as a tuple. -/
structure Fields (T : Type) where
  keys : List String
  entries : T → Entries
  read : Map → Option T
  /-- Every field is read from what is under its key. -/
  Reads : Map → T → Prop
  Valid : T → Prop
  keys_entries (t : T) : (entries t).map Prod.fst = keys
  reads_of_read {m : Map} {t : T} : read m = some t → Reads m t
  valid_of_read {m : Map} {t : T} : read m = some t → Valid t
  read_of_agree {t : T} {m : Map} : Valid t → (entries t).Agree m → read m = some t

namespace Fields

variable {α T : Type}

/-- No declared field. -/
def nil : Fields Unit where
  keys := []
  entries _ := []
  read _ := some ()
  Reads _ _ := True
  Valid _ := True
  keys_entries _ := rfl
  reads_of_read _ := trivial
  valid_of_read _ := trivial
  read_of_agree _ _ := rfl

/-- One more declared field. -/
def cons [Member α] (key : String) (rest : Fields T) : Fields (α × T) where
  keys := key :: rest.keys
  entries t := (key, Member.write t.1) :: rest.entries t.2
  read m := do
    let a ← Member.read (m.get key)
    let t ← rest.read m
    pure (a, t)
  Reads m t := Member.read (m.get key) = some t.1 ∧ rest.Reads m t.2
  Valid t := Member.Valid t.1 ∧ rest.Valid t.2
  keys_entries t := congrArg (key :: ·) (rest.keys_entries t.2)
  reads_of_read h := by
    obtain ⟨a, ha, h⟩ := Option.bind_eq_some_iff.mp h
    obtain ⟨t, ht, h⟩ := Option.bind_eq_some_iff.mp h
    cases h
    exact ⟨ha, rest.reads_of_read ht⟩
  valid_of_read h := by
    obtain ⟨a, ha, h⟩ := Option.bind_eq_some_iff.mp h
    obtain ⟨t, ht, h⟩ := Option.bind_eq_some_iff.mp h
    cases h
    exact ⟨Member.valid_of_read ha, rest.valid_of_read ht⟩
  read_of_agree hvalid hagree := by
    obtain ⟨hfirst, hrest⟩ := List.forall_mem_cons.mp hagree
    rw [hfirst, Member.read_write hvalid.1, rest.read_of_agree hvalid.2 hrest]
    rfl

@[simp] theorem keys_nil : nil.keys = [] := rfl

@[simp] theorem keys_cons [Member α] (key : String) (rest : Fields T) :
    (cons (α := α) key rest).keys = key :: rest.keys := rfl

@[simp] theorem entries_nil (t : Unit) : nil.entries t = [] := rfl

@[simp] theorem entries_cons [Member α] (key : String) (rest : Fields T) (t : α × T) :
    (cons key rest).entries t = (key, Member.write t.1) :: rest.entries t.2 := rfl

@[simp] theorem valid_nil (t : Unit) : nil.Valid t := trivial

@[simp] theorem valid_cons [Member α] (key : String) (rest : Fields T) (t : α × T) :
    (cons key rest).Valid t ↔ Member.Valid t.1 ∧ rest.Valid t.2 := Iff.rfl

end Fields

/-- Additional properties retained from an object. -/
structure ExtraFields where
  fields : Map
  nodup : (fields.map Prod.fst).Nodup

/-- An extra property has the name of a known property of its object. -/
structure ExtraFieldsConflict where
  key : String

namespace ExtraFields

def new : ExtraFields := ⟨[], List.nodup_nil⟩

/-- `Map::deserialize`. -/
def collect (members : List (String × Value)) : ExtraFields := ⟨Map.collect members, Map.nodup_collect members⟩

def ensureNoReserved (extra : ExtraFields) : List String → Except ExtraFieldsConflict Unit
  | [] => .ok ()
  | key :: reserved => if extra.fields.containsKey key then .error ⟨key⟩ else extra.ensureNoReserved reserved

def tryFromMap (fields : Map) (nodup : (fields.map Prod.fst).Nodup) (reserved : List String) :
    Except ExtraFieldsConflict ExtraFields := do
  let extra : ExtraFields := ⟨fields, nodup⟩
  extra.ensureNoReserved reserved
  pure extra

theorem ensureNoReserved_eq_ok_iff {extra : ExtraFields} {reserved : List String} :
    extra.ensureNoReserved reserved = .ok () ↔ ∀ key ∈ reserved, extra.fields.containsKey key = false := by
  induction reserved with
  | nil => simp [ensureNoReserved]
  | cons key rest ih =>
      rw [ensureNoReserved, List.forall_mem_cons]
      split
      · rename_i hcontains
        simp [hcontains]
      · rename_i hcontains
        rw [ih]
        exact (and_iff_right (Bool.eq_false_iff.mpr hcontains)).symm

end ExtraFields

/-- A struct with declared fields and a flattened `extra`. -/
class Struct (S : Type) where
  Declared : Type
  fields : Fields Declared
  declared : S → Declared
  extra : S → ExtraFields
  make : Declared → ExtraFields → S
  nodup_keys : fields.keys.Nodup := by simp
  make_declared (s : S) : make (declared s) (extra s) = s := by intros; rfl
  declared_make (d : Declared) (e : ExtraFields) : declared (make d e) = d := by intros; rfl
  extra_make (d : Declared) (e : ExtraFields) : extra (make d e) = e := by intros; rfl

namespace Struct

section Codec

variable {S : Type} [Struct S]

/-- The keys of the declared fields. -/
def keys (S : Type) [Struct S] : List String := (fields (S := S)).keys

def entries (s : S) : Entries := fields.entries (declared s)

/-- The members in the order in which they are written. -/
def members (s : S) : Map := (entries s).present ++ (extra s).fields

/-- The members of an object that no declared key names. -/
def undeclared (S : Type) [Struct S] (m : Map) : Map := m.filter fun member => member.1 ∉ keys S

theorem keys_entries (s : S) : (entries s).map Prod.fst = keys S := fields.keys_entries (declared s)

theorem nodup_present (s : S) : ((entries s).present.map Prod.fst).Nodup :=
  by
  have hnodup : ((entries s).map Prod.fst).Nodup := (keys_entries s).symm ▸ nodup_keys (S := S)
  exact hnodup.sublist (entries s).keys_present_sublist

theorem mem_keys_of_mem_present {s : S} {member : String × Value} (h : member ∈ (entries s).present) :
    member.1 ∈ keys S := by
  rw [← keys_entries s]
  exact List.mem_map_of_mem (Entries.mem_present.mp h)

/-- An object that agrees with the declared fields consists of them and of what is not declared. -/
theorem perm_of_agree {s : S} {m : Map} (hnodup : (m.map Prod.fst).Nodup) (h : (entries s).Agree m) :
    ((entries s).present ++ undeclared S m).Perm m := by
  have hdisjoint : ∀ member ∈ (entries s).present, ∀ other ∈ undeclared S m, member ≠ other := by
    intro member hmem other hother heq
    exact of_decide_eq_true (List.mem_filter.mp hother).2 (heq ▸ mem_keys_of_mem_present hmem)
  have hboth : ((entries s).present ++ undeclared S m).Nodup :=
    List.nodup_append.mpr ⟨List.Nodup.of_map _ (nodup_present s), (List.Nodup.of_map _ hnodup).filter _, hdisjoint⟩
  rw [List.perm_ext_iff_of_nodup hboth (List.Nodup.of_map _ hnodup)]
  rintro ⟨key, value⟩
  rw [List.mem_append, Entries.mem_present, undeclared, List.mem_filter, ← Map.get_eq_some_iff_mem hnodup]
  constructor
  · rintro (hmem | ⟨hmem, _⟩)
    · exact h _ hmem
    · exact hmem
  · intro hget
    by_cases hkey : key ∈ keys S
    · rw [← keys_entries s] at hkey
      obtain ⟨⟨key', found⟩, hmem, rfl⟩ := List.mem_map.mp hkey
      have hfound : found = some value := (h _ hmem).symm.trans hget
      exact .inl (hfound ▸ hmem)
    · exact .inr ⟨hget, decide_eq_true hkey⟩

/-- What decoding guarantees of a struct. -/
def Sound (s : S) : Prop := fields.Valid (declared s) ∧ (extra s).ensureNoReserved (keys S) = .ok ()

/-- No retained member has a declared key. -/
def Separate (s : S) : Prop := (extra s).ensureNoReserved (keys S) = .ok ()

theorem Sound.separate {s : S} (h : Sound s) : Separate s := h.2

theorem Separate.disjoint {s : S} (h : Separate s) {member other : String × Value} (hmem : member ∈ (entries s).present)
    (hother : other ∈ (extra s).fields) : member.1 ≠ other.1 := by
  have hfree := ExtraFields.ensureNoReserved_eq_ok_iff.mp h member.1 (mem_keys_of_mem_present hmem)
  exact (Map.containsKey_eq_false_iff.mp hfree other hother).symm

theorem Separate.nodup_members {s : S} (h : Separate s) : ((members s).map Prod.fst).Nodup := by
  rw [members, List.map_append]
  refine List.nodup_append.mpr ⟨nodup_present s, (extra s).nodup, ?_⟩
  intro key hkey key' hkey'
  obtain ⟨member, hmem, rfl⟩ := List.mem_map.mp hkey
  obtain ⟨other, hother, rfl⟩ := List.mem_map.mp hkey'
  exact h.disjoint hmem hother

theorem Sound.nodup_members {s : S} (h : Sound s) : ((members s).map Prod.fst).Nodup := h.separate.nodup_members

/-- What is written agrees with the entries of the declared fields. -/
theorem Separate.agree {s : S} (h : Separate s) : (entries s).Agree (members s) := by
  rintro ⟨key, found⟩ hmem
  cases found with
  | some value =>
      rw [Map.get_eq_some_iff_mem h.nodup_members]
      exact List.mem_append_left _ (Entries.mem_present.mpr hmem)
  | none =>
      rw [Option.eq_none_iff_forall_ne_some]
      intro value hget
      obtain hpresent | hextra := List.mem_append.mp (Map.mem_of_get hget)
      · have hkeys : ((entries s).map Prod.fst).Nodup := (keys_entries s).symm ▸ nodup_keys (S := S)
        have hsame := List.inj_on_of_nodup_map hkeys hmem (Entries.mem_present.mp hpresent) rfl
        cases hsame
      · have hkey : key ∈ keys S := keys_entries s ▸ List.mem_map_of_mem (f := Prod.fst) hmem
        have hfree := ExtraFields.ensureNoReserved_eq_ok_iff.mp h key hkey
        exact Map.containsKey_eq_false_iff.mp hfree _ hextra rfl

theorem Sound.agree {s : S} (h : Sound s) : (entries s).Agree (members s) := h.separate.agree

/-- What is written and not declared is what was retained. -/
theorem Sound.undeclared_members {s : S} (h : Sound s) : undeclared S (members s) = (extra s).fields := by
  have hpresent : undeclared S (entries s).present = [] := by
    refine List.filter_eq_nil_iff.mpr fun member hmem => ?_
    simpa using mem_keys_of_mem_present hmem
  have hextra : undeclared S (extra s).fields = (extra s).fields := by
    refine List.filter_eq_self.mpr fun member hmem => decide_eq_true fun hkey => ?_
    have hfree := ExtraFields.ensureNoReserved_eq_ok_iff.mp h.2 member.1 hkey
    exact Map.containsKey_eq_false_iff.mp hfree member hmem rfl
  rw [members, undeclared, List.filter_append]
  change undeclared S (entries s).present ++ undeclared S (extra s).fields = _
  rw [hpresent, hextra, List.nil_append]

/-- The value of a struct with the given declared fields, read from an object. -/
def of (S : Type) [Struct S] (d : Declared S) (m : Map) : S := make d (ExtraFields.collect (undeclared S m))

theorem sound_of {d : Declared S} (hd : fields.Valid d) (m : Map) : Sound (of S d m) := by
  refine ⟨(declared_make (S := S) d _).symm ▸ hd, ExtraFields.ensureNoReserved_eq_ok_iff.mpr fun key hkey => ?_⟩
  rw [of, extra_make, Map.containsKey_eq_false_iff]
  intro member hmem heq
  have hundeclared := (List.mem_filter.mp (Map.mem_of_mem_collect hmem)).2
  exact of_decide_eq_true hundeclared (heq ▸ hkey)

instance wire : Wire S where
  serialize s := .object (Map.collect (members s))
  deserialize v := v.asObject.bind fun m => (fields.read m).map (of S · m)
  Valid := Sound
  valid_of_deserialize h := by
    obtain ⟨m, _, h⟩ := Option.bind_eq_some_iff.mp h
    obtain ⟨d, hd, rfl⟩ := Option.map_eq_some_iff.mp h
    exact sound_of (fields.valid_of_read hd) m
  deserialize_serialize {s} h := by
    rw [Map.collect_eq_self h.nodup_members]
    have hread : fields.read (members s) = some (declared s) := fields.read_of_agree h.1 h.agree
    change (fields.read (members s)).map (of S · (members s)) = some s
    rw [hread]
    have hextra : ExtraFields.collect (undeclared S (members s)) = extra s := by
      rw [h.undeclared_members, ExtraFields.collect]
      congr 1
      exact Map.collect_eq_self (extra s).nodup
    rw [Option.map_some, of, hextra, make_declared]
  isNull_serialize {v _} h := by
    cases v with
    | object m => rfl
    | _ => cases h

theorem Separate.serialize_eq {s : S} (h : Separate s) : serialize s = .object (members s) :=
  congrArg Value.object (Map.collect_eq_self h.nodup_members)

theorem Sound.serialize_eq {s : S} (h : Sound s) : serialize s = .object (members s) := h.separate.serialize_eq

/-- Every declared field of a struct was read from the object. -/
theorem reads_of_deserialize {m : Map} {s : S} (h : deserialize (Value.object m) = some s) :
    fields.Reads m (declared s) := by
  obtain ⟨d, hd, rfl⟩ := Option.map_eq_some_iff.mp h
  rw [of, declared_make]
  exact fields.reads_of_read hd

/-- What is retained of an object is what no declared key names. -/
theorem extra_of_deserialize {m : Map} {s : S} (hnodup : (m.map Prod.fst).Nodup)
    (hread : deserialize (.object m) = some s) : (extra s).fields = undeclared S m := by
  obtain ⟨d, hd, rfl⟩ := Option.map_eq_some_iff.mp hread
  rw [of, extra_make]
  exact Map.collect_eq_self (hnodup.sublist (List.filter_sublist.map Prod.fst))

/-- A key that is not declared keeps its value. -/
theorem get_members_of_undeclared {m : Map} {s : S} (hnodup : (m.map Prod.fst).Nodup)
    (hread : deserialize (.object m) = some s) {key : String} (hkey : key ∉ keys S) :
    (members s).get key = m.get key := by
  have hpresent : (entries s).present.get key = none := by
    rw [← Option.not_isSome_iff_eq_none, ← Map.containsKey_eq_isSome, Bool.not_eq_true, Map.containsKey_eq_false_iff]
    exact fun member hmem heq => hkey (heq ▸ mem_keys_of_mem_present hmem)
  rw [members, extra_of_deserialize hnodup hread, Map.get_append, hpresent, Option.none_or, undeclared, Map.get,
    List.find?_filter, Map.get]
  congr 2
  funext member
  by_cases heq : member.1 = key
  · simp [heq, hkey]
  · simp [heq]

/-- A struct that was read from an object and has the entries of the object is written with all its members. -/
theorem sameMembers_of_agree {m : Map} {s : S} (hnodup : (m.map Prod.fst).Nodup)
    (hread : deserialize (.object m) = some s) (hagree : (entries s).Agree m) :
    (serialize s).SameMembers (.object m) := by
  refine ⟨members s, m, Sound.serialize_eq (Wire.valid_of_deserialize hread), rfl, ?_⟩
  rw [members, extra_of_deserialize hnodup hread]
  exact perm_of_agree hnodup hagree

end Codec

section Replay

variable {R I : Type} [Struct R] [Struct I] {x : R} {y : I}

theorem Sound.sameMembers_of_perm (hx : Sound x) (h : (members y).Perm (members x)) :
    (serialize y).SameMembers (serialize x) := by
  have hnodup : ((members y).map Prod.fst).Nodup := (h.map Prod.fst).nodup_iff.mpr hx.nodup_members
  exact ⟨members y, members x, congrArg Value.object (Map.collect_eq_self hnodup), hx.serialize_eq, h⟩

/-- A struct rebuilt from another one is written with the same members when the entries it no longer declares
follow the retained members. -/
theorem Sound.sameMembers_of_entries (hx : Sound x) {more : Entries}
    (hnodup : (keys I ++ more.map Prod.fst).Nodup) (hlength : (keys R).length ≤ (keys I).length + more.length)
    (hsub : ∀ entry ∈ entries y ++ more, entry ∈ entries x)
    (hextra : (extra y).fields = (extra x).fields ++ more.present) : (serialize y).SameMembers (serialize x) := by
  have hkeys : ((entries y ++ more).map Prod.fst).Nodup := by rwa [List.map_append, keys_entries]
  have hentries : (entries y ++ more).Perm (entries x) := by
    apply (List.subperm_of_subset (List.Nodup.of_map _ hkeys) hsub).perm_of_length_le
    rw [← List.length_map (f := Prod.fst), keys_entries, List.length_append, ← List.length_map (f := Prod.fst),
      keys_entries]
    exact hlength
  have hpresent : ((entries y).present ++ more.present).Perm (entries x).present := by
    rw [Entries.present, Entries.present, ← List.filterMap_append]
    exact hentries.filterMap _
  have hbehind : ((extra x).fields ++ more.present).Perm (more.present ++ (extra x).fields) := List.perm_append_comm
  apply hx.sameMembers_of_perm
  rw [members, hextra]
  calc (entries y).present ++ ((extra x).fields ++ more.present)
    List.Perm _ ((entries y).present ++ (more.present ++ (extra x).fields)) := hbehind.append_left _
    _ = ((entries y).present ++ more.present) ++ (extra x).fields := (List.append_assoc ..).symm
    List.Perm _ (members x) := hpresent.append_right _

/-- A struct is read as another one that declares some of its entries, and nothing is lost. -/
theorem Sound.exists_reread (hx : Sound x) {d : Declared I} (hd : fields.Valid d)
    (hsub : ∀ entry ∈ fields.entries d, entry ∈ entries x) :
    ∃ y : I, deserialize (serialize x) = some y ∧ declared y = d ∧ (serialize y).SameMembers (serialize x) := by
  have hagree : (fields.entries d).Agree (members x) := fun entry hmem => hx.agree entry (hsub entry hmem)
  have hread : fields.read (members x) = some d := fields.read_of_agree hd hagree
  have hdeclared : declared (of I d (members x)) = d := declared_make ..
  have hdeserialize : deserialize (.object (members x)) = some (of I d (members x)) :=
    congrArg (Option.map (of I · (members x))) hread
  rw [hx.serialize_eq]
  refine ⟨of I d (members x), hdeserialize, hdeclared, sameMembers_of_agree hx.nodup_members hdeserialize ?_⟩
  rwa [entries, hdeclared]

end Replay

end Struct

end OpenaiRs.Serde
