import OpenaiRs.Serde.Struct

/-!
# Containment of objects

An object contains another one when it has each of its members that is not null. For two structs that declare the
same keys this is a condition on each field and on what the second one retained.
-/

namespace OpenaiRs.Serde

/-- The first value is an object with every member of the second one that is not null. -/
def Value.Contains (v w : Value) : Prop :=
  ∃ m m' : Map, v = .object m ∧ w = .object m' ∧ ∀ member ∈ m', member.2.isNull = false → member ∈ m

theorem Value.Contains.refl (m : Map) : Value.Contains (.object m) (.object m) :=
  ⟨m, m, rfl, rfl, fun _ hmember _ => hmember⟩

theorem Omittable.eq_omitted_iff {α : Type} {field : Omittable α} : field = .omitted ↔ ∀ a, field ≠ .value a := by
  cases field with
  | omitted => exact ⟨nofun, fun _ => rfl⟩
  | value a => exact ⟨nofun, fun h => absurd rfl (h a)⟩

@[simp] theorem Omittable.present_omitted : (omitted : Omittable (Nullable String)).present = none := rfl

@[simp] theorem Omittable.present_value (text : String) : (value (.value text)).present = some text := rfl

/-- What is found is what was written, unless that is null. -/
def Preserves (found written : Option Value) : Prop :=
  ∀ value, written = some value → value.isNull = false → found = some value

namespace Preserves

@[simp] theorem self (found : Option Value) : Preserves found found := fun _ hwritten _ => hwritten

@[simp] theorem of_none (found : Option Value) : Preserves found none := fun _ hwritten _ => by cases hwritten

theorem some_iff {found : Option Value} {value : Value} (hnull : value.isNull = false) :
    Preserves found (some value) ↔ found = some value := by
  constructor
  · intro hpreserves
    exact hpreserves value rfl hnull
  · intro hfound other hother _
    rw [← hother]
    exact hfound

section Text

variable {f : Omittable (Nullable String)}

theorem write_eq_some_string {text : String} : Member.write f = some (.string text) ↔ f.present = some text := by
  obtain _ | _ | found := f
  · exact ⟨nofun, nofun⟩
  · exact ⟨nofun, nofun⟩
  · constructor
    · intro h
      cases h
      rfl
    · intro h
      cases h
      rfl

theorem nullable_iff {g : Omittable (Nullable String)} :
    Preserves (Member.write f) (Member.write g) ↔ ∀ text, g.present = some text → f.present = some text := by
  constructor
  · intro hpreserves text hg
    exact write_eq_some_string.mp (hpreserves _ (write_eq_some_string.mpr hg) rfl)
  · intro hpresent value hg hnull
    obtain _ | _ | text := g
    · cases hg
    · cases hg
      cases hnull
    · cases hg
      exact write_eq_some_string.mpr (hpresent text rfl)

theorem string_iff {g : Omittable String} :
    Preserves (Member.write f) (Member.write g) ↔ ∀ text, g = .value text → f.present = some text := by
  constructor
  · rintro hpreserves text rfl
    exact write_eq_some_string.mp (hpreserves (.string text) rfl rfl)
  · intro hpresent value hg hnull
    obtain _ | text := g
    · cases hg
    · cases hg
      exact write_eq_some_string.mpr (hpresent text rfl)

end Text

end Preserves

namespace Struct

variable {S T : Type} [Struct S] [Struct T] {s : S} {t : T}

theorem mem_members {key : String} {value : Value} :
    (key, value) ∈ members t ↔ (key, some value) ∈ entries t ∨ (key, value) ∈ (extra t).fields := by
  rw [members, List.mem_append, Entries.mem_present]

/-- A struct that retained nothing contains another one when it keeps every field and all that the other one
retained is null. -/
theorem contains_iff (hs : Separate s) (ht : Separate t) (hkeys : keys S ⊆ keys T) (hextra : (extra s).fields = []) :
    (serialize s).Contains (serialize t) ↔
      (∀ entry ∈ entries t, Preserves ((members s).get entry.1) entry.2) ∧
        ∀ member ∈ (extra t).fields, member.2.isNull = true := by
  have hmembers : (serialize s).Contains (serialize t) ↔
      ∀ member ∈ members t, member.2.isNull = false → (members s).get member.1 = some member.2 := by
    rw [hs.serialize_eq, ht.serialize_eq]
    constructor
    · rintro ⟨_, _, hv, hw, hcontains⟩ member hmem hnull
      cases hv
      cases hw
      exact (Map.get_eq_some_iff_mem hs.nodup_members).mpr (hcontains member hmem hnull)
    · intro hcontains
      refine ⟨_, _, rfl, rfl, fun member hmem hnull => ?_⟩
      exact (Map.get_eq_some_iff_mem hs.nodup_members).mp (hcontains member hmem hnull)
  rw [hmembers]
  constructor
  · intro hcontains
    constructor
    · rintro ⟨key, found⟩ hmem value rfl hnull
      exact hcontains (key, value) (mem_members.mpr (.inl hmem)) hnull
    · rintro ⟨key, value⟩ hmem
      by_contra hnull
      have hkept := hcontains (key, value) (mem_members.mpr (.inr hmem)) (Bool.eq_false_iff.mpr hnull)
      have hentry : (key, some value) ∈ entries s := by
        refine (mem_members.mp (Map.mem_of_get hkept)).resolve_right ?_
        rw [hextra]
        exact List.not_mem_nil
      -- A declared key of the first struct is declared in the second one, which did not retain it then.
      have hkey : key ∈ keys S := keys_entries s ▸ List.mem_map_of_mem (f := Prod.fst) hentry
      have hfree := ExtraFields.ensureNoReserved_eq_ok_iff.mp ht key (hkeys hkey)
      exact Map.containsKey_eq_false_iff.mp hfree _ hmem rfl
  · rintro ⟨hfields, hretained⟩ ⟨key, value⟩ hmem hnull
    obtain hentry | hfound := mem_members.mp hmem
    · exact hfields _ hentry value rfl hnull
    · exact absurd (hretained _ hfound) (Bool.eq_false_iff.mp hnull)

end Struct

end OpenaiRs.Serde
