import OpenaiRs.Catalog.Build

/-!
# A tool catalog is a reversible naming

Valid names are reserved before the others are mapped, and every mapped name is one that was not taken.
So the exposed names are distinct, whatever SHA-256 computes.
-/

namespace OpenaiRs.Catalog

open Rust Serde

section Naming

variable {sha256 : Bytes → Vector UInt8 32} {original name openaiName : Bytes} {used used' : Finset Bytes}
  {policy : ToolNamePolicy}

theorem firstDuplicate_eq_none {seen : Finset Bytes} {names : List Bytes} :
    firstDuplicate seen names = none ↔ names.Nodup ∧ ∀ name ∈ names, name ∉ seen := by
  induction names generalizing seen with
  | nil => simp [firstDuplicate]
  | cons name rest ih =>
      rw [firstDuplicate]
      split
      · rename_i hseen
        constructor
        · intro h
          cases h
        · intro h
          exact absurd hseen (h.2 name (.head _))
      · rename_i hnew
        rw [ih, List.nodup_cons]
        constructor
        · rintro ⟨hnodup, hrest⟩
          refine ⟨⟨fun hmem => hrest name hmem (Finset.mem_insert_self _ _), hnodup⟩, ?_⟩
          intro other hmem
          obtain rfl | hother := List.mem_cons.mp hmem
          · exact hnew
          · exact fun hseen => hrest other hother (Finset.mem_insert_of_mem hseen)
        · rintro ⟨⟨hname, hnodup⟩, hseen⟩
          refine ⟨hnodup, fun other hmem hother => ?_⟩
          obtain rfl | hold := Finset.mem_insert.mp hother
          · exact hname hmem
          · exact hseen other (.tail _ hmem) hold

/-- The search ends with a mapped name that is not taken. -/
theorem searchName_eq_some {fuel : Nat} {nonce : UInt64}
    (h : searchName sha256 original used fuel nonce = some name) : IsFunctionName name ∧ name ∉ used := by
  induction fuel generalizing nonce with
  | zero => cases h
  | succ fuel ih =>
      rw [searchName] at h
      split at h
      · exact ih h
      · rename_i hfree
        cases h
        exact ⟨isFunctionName_mappedName original nonce, hfree⟩

/-- A valid name is exposed as it is, another one under a name that was not taken. -/
theorem exposeName_eq_ok (h : exposeName sha256 policy used name = some (.ok (openaiName, used'))) :
    (IsFunctionName name ∧ openaiName = name ∧ used' = used) ∨
      (¬ IsFunctionName name ∧ IsFunctionName openaiName ∧ openaiName ∉ used ∧
        used' = insert openaiName used) := by
  rw [exposeName.eq_def] at h
  split at h
  · rename_i hvalid
    cases h
    exact .inl ⟨isValidFunctionName_iff.mp hvalid, rfl, rfl⟩
  · rename_i hinvalid
    rw [isValidFunctionName_iff] at hinvalid
    cases policy with
    | rejectInvalid => cases h
    | mapInvalid =>
        obtain ⟨candidate, hsearch, heq⟩ := Option.map_eq_some_iff.mp h
        cases heq
        obtain ⟨hname, hfree⟩ := searchName_eq_some hsearch
        exact .inr ⟨hinvalid, hname, hfree, rfl⟩

end Naming

section Freezing

variable {ρ : Type} {sha256 : Bytes → Vector UInt8 32} {reserved used used' : Finset Bytes}
  {catalog : ToolCatalog ρ} {done rest : List (Tool ρ)} {tool : Tool ρ} {openaiName name : Bytes}
  {policy : CatalogPolicy} {parameters : Map}

/-- A catalog of the tools that have been taken so far. -/
structure Frozen (reserved used : Finset Bytes) (catalog : ToolCatalog ρ) (done : List (Tool ρ)) : Prop where
  tools : catalog.entries.map CatalogEntry.mcpTool = done
  distinct : (catalog.entries.map CatalogEntry.openaiName).Nodup
  names : ∀ entry ∈ catalog.entries, IsFunctionName entry.openaiName
  kept : ∀ entry ∈ catalog.entries, IsFunctionName entry.mcpTool.name → entry.openaiName = entry.mcpTool.name
  mapped : ∀ entry ∈ catalog.entries, ¬ IsFunctionName entry.mcpTool.name → entry.openaiName ∉ reserved
  reserved : reserved ⊆ used
  used : ∀ entry ∈ catalog.entries, entry.openaiName ∈ used
  index : ∀ name i, catalog.byOpenaiName.lookup name = some i ↔
    catalog.entries[i]?.map CatalogEntry.openaiName = some name

theorem Frozen.empty (reserved : Finset Bytes) : Frozen reserved reserved (.empty : ToolCatalog ρ) [] where
  tools := rfl
  distinct := List.nodup_nil
  names _ hmem := by cases hmem
  kept _ hmem := by cases hmem
  mapped _ hmem := by cases hmem
  reserved := Finset.Subset.refl _
  used _ hmem := by cases hmem
  index name i := by simp [ToolCatalog.empty]

/-- A name that is exposed next is new. -/
theorem Frozen.fresh (hfrozen : Frozen reserved used catalog done)
    (hreserved : IsFunctionName tool.name → tool.name ∈ reserved) (hnew : tool.name ∉ done.map Tool.name)
    (hexpose : exposeName sha256 policy.names used tool.name = some (.ok (openaiName, used'))) :
    openaiName ∉ catalog.entries.map CatalogEntry.openaiName := by
  intro hmem
  obtain ⟨entry, hentry, rfl⟩ := List.mem_map.mp hmem
  obtain ⟨hvalid, hsame, -⟩ | ⟨-, -, hfree, -⟩ := exposeName_eq_ok hexpose
  · by_cases hremote : IsFunctionName entry.mcpTool.name
    · -- The other tool is exposed under its own name, which is another one.
      apply hnew
      rw [← hsame, hfrozen.kept entry hentry hremote, ← hfrozen.tools, List.map_map]
      exact List.mem_map_of_mem (f := Tool.name ∘ CatalogEntry.mcpTool) hentry
    · exact hfrozen.mapped entry hentry hremote (hsame ▸ hreserved hvalid)
  · exact hfree (hfrozen.used entry hentry)

theorem Frozen.index_push (hfrozen : Frozen reserved used catalog done) {entry : CatalogEntry ρ}
    (hfresh : entry.openaiName ∉ catalog.entries.map CatalogEntry.openaiName) (name : Bytes) (i : Nat) :
    (catalog.push entry).byOpenaiName.lookup name = some i ↔
      (catalog.push entry).entries[i]?.map CatalogEntry.openaiName = some name := by
  have habsent : ∀ i : Nat, catalog.entries[i]?.map CatalogEntry.openaiName ≠ some entry.openaiName := by
    intro i h
    obtain ⟨other, hother, hsame⟩ := Option.map_eq_some_iff.mp h
    exact hfresh (hsame ▸ List.mem_map_of_mem (List.mem_of_getElem? hother))
  have hlast : (catalog.push entry).entries[catalog.entries.length]? = some entry :=
    List.getElem?_concat_length
  have hold : ∀ i < catalog.entries.length, (catalog.push entry).entries[i]? = catalog.entries[i]? :=
    fun i hlt => List.getElem?_append_left hlt
  by_cases heq : name = entry.openaiName
  · subst heq
    rw [ToolCatalog.push, AList.lookup_insert]
    constructor
    · rintro ⟨⟩
      exact congrArg (Option.map CatalogEntry.openaiName) hlast
    · intro h
      obtain hlt | rfl | hgt := Nat.lt_trichotomy i catalog.entries.length
      · exact absurd (hold i hlt ▸ h) (habsent i)
      · rfl
      · obtain ⟨other, hother, -⟩ := Option.map_eq_some_iff.mp h
        have hbound := (List.getElem?_eq_some_iff.mp hother).1
        rw [List.length_append, List.length_singleton] at hbound
        omega
  · have hlookup : (catalog.push entry).byOpenaiName.lookup name = catalog.byOpenaiName.lookup name :=
      AList.lookup_insert_ne heq
    rw [hlookup, hfrozen.index]
    obtain hlt | rfl | hgt := Nat.lt_trichotomy i catalog.entries.length
    · rw [hold i hlt]
    · rw [hlast, List.getElem?_eq_none (Nat.le_refl _)]
      simpa using Ne.symm heq
    · have hlong : (catalog.push entry).entries.length ≤ i := by
        rw [ToolCatalog.push, List.length_append, List.length_singleton]
        omega
      rw [List.getElem?_eq_none (Nat.le_of_lt hgt), List.getElem?_eq_none hlong]

theorem Frozen.push (hfrozen : Frozen reserved used catalog done)
    (hreserved : IsFunctionName tool.name → tool.name ∈ reserved) (hnew : tool.name ∉ done.map Tool.name)
    (hexpose : exposeName sha256 policy.names used tool.name = some (.ok (openaiName, used'))) :
    Frozen reserved used' (catalog.push ⟨openaiName, tool, parameters⟩) (done ++ [tool]) := by
  have hfresh := hfrozen.fresh hreserved hnew hexpose
  have hspec := exposeName_eq_ok hexpose
  have hgrows : used ⊆ used' ∧ openaiName ∈ used' := by
    obtain ⟨hvalid, rfl, rfl⟩ | ⟨-, -, -, rfl⟩ := hspec
    · exact ⟨Finset.Subset.refl _, hfrozen.reserved (hreserved hvalid)⟩
    · exact ⟨Finset.subset_insert _ _, Finset.mem_insert_self _ _⟩
  have hall : ∀ {P : CatalogEntry ρ → Prop}, (∀ entry ∈ catalog.entries, P entry) →
      P ⟨openaiName, tool, parameters⟩ →
      ∀ entry ∈ (catalog.push ⟨openaiName, tool, parameters⟩).entries, P entry := by
    intro P hold hlast entry hmem
    obtain hentry | hentry := List.mem_append.mp hmem
    · exact hold entry hentry
    · rw [List.mem_singleton.mp hentry]
      exact hlast
  constructor
  · rw [ToolCatalog.push, List.map_append, hfrozen.tools]
    rfl
  · rw [ToolCatalog.push, List.map_append, List.nodup_append]
    refine ⟨hfrozen.distinct, List.nodup_singleton _, ?_⟩
    rintro other hother last hlast rfl
    obtain rfl : other = openaiName := List.mem_singleton.mp hlast
    exact hfresh hother
  · apply hall hfrozen.names
    obtain ⟨hvalid, rfl, -⟩ | ⟨-, hvalid, -, -⟩ := hspec
    · exact hvalid
    · exact hvalid
  · apply hall hfrozen.kept
    intro hvalid
    obtain ⟨-, hsame, -⟩ | ⟨hinvalid, -, -, -⟩ := hspec
    · exact hsame
    · exact absurd hvalid hinvalid
  · apply hall hfrozen.mapped
    intro hinvalid hmem
    obtain ⟨hvalid, -, -⟩ | ⟨-, -, hfree, -⟩ := hspec
    · exact hinvalid hvalid
    · exact hfree (hfrozen.reserved hmem)
  · exact hfrozen.reserved.trans hgrows.1
  · apply hall
    · exact fun entry hentry => hgrows.1 (hfrozen.used entry hentry)
    · exact hgrows.2
  · exact hfrozen.index_push hfresh

/-- The loop of `build` keeps the facts about the tools that it has taken. -/
theorem freeze_frozen {final : ToolCatalog ρ}
    (h : freeze sha256 policy used catalog rest = some (.ok final)) (hfrozen : Frozen reserved used catalog done)
    (hreserved : ∀ tool ∈ rest, IsFunctionName tool.name → tool.name ∈ reserved)
    (hnames : ((done ++ rest).map Tool.name).Nodup) : ∃ used', Frozen reserved used' final (done ++ rest) := by
  induction rest generalizing used catalog done with
  | nil =>
      cases h
      exact ⟨used, by rwa [List.append_nil]⟩
  | cons tool rest ih =>
      rw [freeze] at h
      split at h
      · cases h
      · cases h
      · rename_i openaiName used' hexpose
        split at h
        · cases h
        · rename_i parameters hschema
          have hnew : tool.name ∉ done.map Tool.name := by
            rw [List.map_append, List.nodup_append] at hnames
            exact fun hmem => hnames.2.2 _ hmem _ (.head _) rfl
          have hnext : Frozen reserved used' (catalog.push ⟨openaiName, tool, parameters⟩) (done ++ [tool]) :=
            hfrozen.push (hreserved tool (.head _)) hnew hexpose
          have hsplit : done ++ tool :: rest = (done ++ [tool]) ++ rest := by simp
          rw [hsplit] at hnames ⊢
          exact ih h hnext (fun other hmem => hreserved other (.tail _ hmem)) hnames

end Freezing

section Building

variable {ρ : Type} {sha256 : Bytes → Vector UInt8 32} {tools tools' : List (Tool ρ)} {policy : CatalogPolicy}
  {catalog : ToolCatalog ρ}

/-- The exposed names and the tools determine each other. -/
structure Reversible (tools : List (Tool ρ)) (catalog : ToolCatalog ρ) : Prop where
  remote : (tools.map Tool.name).Nodup
  tools : (catalog.entries.map CatalogEntry.mcpTool).Perm tools
  distinct : (catalog.entries.map CatalogEntry.openaiName).Nodup
  names : ∀ entry ∈ catalog.entries, IsFunctionName entry.openaiName
  /-- A tool with a valid name keeps it. -/
  kept : ∀ entry ∈ catalog.entries, IsFunctionName entry.mcpTool.name → entry.openaiName = entry.mcpTool.name
  resolve : ∀ name entry, catalog.resolve name = some entry ↔
    entry ∈ catalog.entries ∧ entry.openaiName = name

theorem Frozen.resolve {reserved used : Finset Bytes} (hfrozen : Frozen reserved used catalog tools)
    (name : Bytes) (entry : CatalogEntry ρ) :
    catalog.resolve name = some entry ↔ entry ∈ catalog.entries ∧ entry.openaiName = name := by
  rw [ToolCatalog.resolve, Option.bind_eq_some_iff]
  constructor
  · rintro ⟨i, hindex, hentry⟩
    rw [hfrozen.index, hentry] at hindex
    exact ⟨List.mem_of_getElem? hentry, Option.some.inj hindex⟩
  · rintro ⟨hmem, rfl⟩
    obtain ⟨i, hentry⟩ := List.mem_iff_getElem?.mp hmem
    refine ⟨i, ?_, hentry⟩
    rw [hfrozen.index, hentry]
    rfl

theorem sortTools_perm (tools : List (Tool ρ)) : (sortTools tools).Perm tools := List.perm_insertionSort _ _

theorem sortTools_pairwise (tools : List (Tool ρ)) :
    (sortTools tools).Pairwise fun left right => left.name ≤ right.name := by
  have : Std.Total fun left right : Tool ρ => left.name ≤ right.name := ⟨fun _ _ => List.le_total _ _⟩
  have : IsTrans (Tool ρ) fun left right => left.name ≤ right.name := ⟨fun _ _ _ => List.le_trans⟩
  exact List.pairwise_insertionSort _ tools

/-- Tools with distinct names have one order. -/
theorem sortTools_eq (hperm : tools.Perm tools') (hnames : (tools.map Tool.name).Nodup) :
    sortTools tools = sortTools tools' := by
  have hsame : ∀ a b, a ∈ sortTools tools → b ∈ sortTools tools' → a.name ≤ b.name → b.name ≤ a.name → a = b := by
    intro a b ha hb hab hba
    have hmem : a ∈ tools := (sortTools_perm tools).mem_iff.mp ha
    have hmem' : b ∈ tools := hperm.mem_iff.mpr ((sortTools_perm tools').mem_iff.mp hb)
    exact List.inj_on_of_nodup_map hnames hmem hmem' (List.le_antisymm hab hba)
  apply List.Perm.eq_of_pairwise hsame (sortTools_pairwise tools) (sortTools_pairwise tools')
  exact (sortTools_perm tools).trans (hperm.trans (sortTools_perm tools').symm)

theorem mem_reservedNames {tool : Tool ρ} (hmem : tool ∈ tools) (hvalid : IsFunctionName tool.name) :
    tool.name ∈ reservedNames tools := by
  rw [reservedNames, List.mem_toFinset, List.mem_filter]
  exact ⟨List.mem_map_of_mem hmem, isValidFunctionName_iff.mpr hvalid⟩

theorem build_reversible (h : build sha256 tools policy = some (.ok catalog)) : Reversible tools catalog := by
  rw [build] at h
  split at h
  · cases h
  · rename_i hnone
    have hnodup := (firstDuplicate_eq_none.mp hnone).1
    obtain ⟨used, hfrozen⟩ := freeze_frozen h (Frozen.empty _) (fun tool hmem => mem_reservedNames hmem) hnodup
    exact {
      remote := ((sortTools_perm tools).map Tool.name).nodup_iff.mp hnodup
      tools := by
        rw [hfrozen.tools]
        exact sortTools_perm tools
      distinct := hfrozen.distinct
      names := hfrozen.names
      kept := hfrozen.kept
      resolve := hfrozen.resolve }

/-- A catalog names its tools reversibly, and it does not depend on the order of the tools. -/
theorem catalog_is_reversible (sha256 : Bytes → Vector UInt8 32) (tools : List (Tool ρ)) (policy : CatalogPolicy) :
    (∀ catalog, build sha256 tools policy = some (.ok catalog) → Reversible tools catalog) ∧
      ∀ tools', tools.Perm tools' → (tools.map Tool.name).Nodup →
        build sha256 tools' policy = build sha256 tools policy := by
  constructor
  · intro catalog h
    exact build_reversible h
  · intro tools' hperm hnames
    rw [build, build, sortTools_eq hperm hnames]

/-- Two names that are mapped to the same candidate at first, and one that is reserved. -/
def crowdedTools : List (Tool Unit) :=
  [⟨utf8 "weather", [], ()⟩, ⟨utf8 "db/read", [], ()⟩, ⟨utf8 "db read", [], ()⟩]

/-- A hash that only sees the nonce. -/
def nonceHash (input : Bytes) : Vector UInt8 32 := Vector.replicate 32 (input.getLast?.getD 0)

theorem catalog_is_reversible_crowded :
    (build nonceHash crowdedTools ⟨.mapInvalid, .normalizeObject⟩).map
        (fun result => result.toOption.map fun catalog => catalog.entries.map CatalogEntry.openaiName) =
      some (some [utf8 "db_read__0000000000000000", utf8 "db_read__0101010101010101", utf8 "weather"]) ∧
    ∀ tools', crowdedTools.Perm tools' →
      build nonceHash tools' ⟨.mapInvalid, .normalizeObject⟩ =
        build nonceHash crowdedTools ⟨.mapInvalid, .normalizeObject⟩ := by
  constructor
  · decide
  · intro tools' hperm
    exact (catalog_is_reversible nonceHash crowdedTools _).2 tools' hperm (by decide)

end Building

end OpenaiRs.Catalog
