import OpenaiRs.Drift.Interface
import OpenaiRs.Drift.Report
import OpenaiRs.Rust.Result

/-!
# Completeness of the drift report

A report is empty exactly when the two documents have the same operation ids and schema names and it sees no
difference between two operations of one id. It looks at parameters and deprecation in one direction, so an empty
report says that the interfaces are the same only when nothing it passes over differs.
-/

namespace OpenaiRs.Drift

open Serde Rust

/-! ## What an empty report says of the extracted operations -/

section Empty

variable {opId : String} {fromOp toOp : OperationMeta} {report : DriftReport}

/-- A sequence of checks finds nothing when none of them does. -/
theorem isEmpty_foldl {α : Type} {check : DriftReport → α → DriftReport} {Passes : α → Prop}
    (h : ∀ report x, (check report x).isEmpty ↔ report.isEmpty ∧ Passes x) {items : List α} {report : DriftReport} :
    (items.foldl check report).isEmpty ↔ report.isEmpty ∧ ∀ x ∈ items, Passes x := by
  induction items generalizing report with
  | nil => simp
  | cons x rest ih => rw [List.foldl_cons, ih, h, List.forall_mem_cons, and_assoc]

/-- A check that adds a change when a condition holds. -/
theorem isEmpty_ite {change : DriftReport} (hchange : change.isEmpty = false) {c : Prop} [Decidable c] :
    (if c then change else report).isEmpty ↔ report.isEmpty ∧ ¬c := by
  split
  · rename_i hc
    simp [hchange, hc]
  · rename_i hc
    simp [hc]

/-- Two extracted operations between which no difference is seen. -/
structure OperationMeta.Matches (fromOp toOp : OperationMeta) : Prop where
  method : fromOp.method = toOp.method
  path : fromOp.path = toOp.path
  deprecated : toOp.deprecated → fromOp.deprecated
  successStatuses : fromOp.successStatuses = toOp.successStatuses
  paramLocations : ∀ name location : String, toOp.paramLocations[name]? = some location →
    fromOp.paramLocations[name]? = some location
  requiredParams : ∀ name ∈ toOp.requiredParams, name ∈ fromOp.requiredParams
  optionalParams : ∀ name ∈ toOp.optionalParams, name ∈ fromOp.optionalParams ∨ name ∈ fromOp.requiredParams

theorem isEmpty_checkLocation (entry : String × String) :
    (checkLocation opId fromOp report entry).isEmpty ↔
      report.isEmpty ∧ fromOp.paramLocations[entry.1]? = some entry.2 := by
  obtain ⟨param, toLoc⟩ := entry
  rw [checkLocation]
  split
  · rename_i fromLoc hfound
    rw [isEmpty_ite (DriftReport.isEmpty_breaking _ _), hfound, not_ne_iff, Option.some.injEq]
  · rename_i hnone
    simp [hnone]

theorem isEmpty_checkRequired (req : String) :
    (checkRequired opId fromOp report req).isEmpty ↔ report.isEmpty ∧ req ∈ fromOp.requiredParams := by
  rw [checkRequired, isEmpty_ite (DriftReport.isEmpty_breaking _ _), not_not]

theorem isEmpty_checkOptional (opt : String) :
    (checkOptional opId fromOp report opt).isEmpty ↔
      report.isEmpty ∧ (opt ∈ fromOp.optionalParams ∨ opt ∈ fromOp.requiredParams) := by
  rw [checkOptional, isEmpty_ite (DriftReport.isEmpty_additive _ _), not_and_or, not_not, not_not]

/-- The comparison of two operations looks at each field in one way. -/
theorem isEmpty_compareOperation :
    (compareOperation opId fromOp toOp report).isEmpty ↔ report.isEmpty ∧ fromOp.Matches toOp := by
  rw [compareOperation, isEmpty_foldl (fun _ => isEmpty_checkOptional),
    isEmpty_foldl (fun _ => isEmpty_checkRequired), isEmpty_foldl (fun _ => isEmpty_checkLocation),
    checkStatuses, isEmpty_ite (DriftReport.isEmpty_breaking _ _), checkDeprecation,
    isEmpty_ite (DriftReport.isEmpty_lifecycle _ _), checkRoute, isEmpty_ite (DriftReport.isEmpty_breaking _ _)]
  constructor
  · rintro ⟨⟨⟨⟨⟨⟨hreport, hroute⟩, hdeprecated⟩, hstatuses⟩, hlocations⟩, hrequired⟩, hoptional⟩
    obtain ⟨hmethod, hpath⟩ := not_or.mp hroute
    refine ⟨hreport, ?_⟩
    constructor
    · exact not_ne_iff.mp hmethod
    · exact not_ne_iff.mp hpath
    · intro hto
      by_contra hfrom
      exact hdeprecated ⟨hfrom, hto⟩
    · exact not_ne_iff.mp hstatuses
    · intro name location hlocation
      exact hlocations (name, location) (Std.ExtTreeMap.mem_toList_iff_getElem?_eq_some.mpr hlocation)
    · intro name hname
      exact hrequired name (Std.ExtTreeSet.mem_toList.mpr hname)
    · intro name hname
      exact hoptional name (Std.ExtTreeSet.mem_toList.mpr hname)
  · rintro ⟨hreport, hmatches⟩
    have hroute : ¬(fromOp.method ≠ toOp.method ∨ fromOp.path ≠ toOp.path) :=
      not_or.mpr ⟨not_ne_iff.mpr hmatches.method, not_ne_iff.mpr hmatches.path⟩
    have hdeprecated : ¬(¬fromOp.deprecated ∧ toOp.deprecated) := fun h => h.1 (hmatches.deprecated h.2)
    refine ⟨⟨⟨⟨⟨⟨hreport, hroute⟩, hdeprecated⟩, not_ne_iff.mpr hmatches.successStatuses⟩, ?_⟩, ?_⟩, ?_⟩
    · intro entry hentry
      exact hmatches.paramLocations _ _ (Std.ExtTreeMap.mem_toList_iff_getElem?_eq_some.mp hentry)
    · intro name hname
      exact hmatches.requiredParams name (Std.ExtTreeSet.mem_toList.mp hname)
    · intro name hname
      exact hmatches.optionalParams name (Std.ExtTreeSet.mem_toList.mp hname)

variable {fromOps toOps : BTreeMap OperationMeta} {fromSchemas toSchemas : BTreeSet}

theorem isEmpty_checkOperation (entry : String × OperationMeta) :
    (checkOperation toOps report entry).isEmpty ↔
      report.isEmpty ∧ ∃ toOp, toOps[entry.1]? = some toOp ∧ entry.2.Matches toOp := by
  obtain ⟨opId, fromOp⟩ := entry
  rw [checkOperation]
  split
  · rename_i toOp hfound
    rw [isEmpty_compareOperation, hfound]
    simp
  · rename_i hnone
    rw [operationRemoved, hnone]
    split <;> simp

theorem isEmpty_checkNewOperation (entry : String × OperationMeta) :
    (checkNewOperation fromOps report entry).isEmpty ↔ report.isEmpty ∧ entry.1 ∈ fromOps := by
  obtain ⟨opId, toOp⟩ := entry
  have hadded : (operationAdded opId toOp report).isEmpty = false := by
    rw [operationAdded]
    split <;> simp
  rw [checkNewOperation, isEmpty_ite hadded, not_not]

theorem isEmpty_checkNewSchema (name : String) :
    (checkNewSchema fromSchemas report name).isEmpty ↔ report.isEmpty ∧ name ∈ fromSchemas := by
  rw [checkNewSchema, isEmpty_ite (DriftReport.isEmpty_additive _ _), not_not]

theorem isEmpty_checkOldSchema (name : String) :
    (checkOldSchema toSchemas report name).isEmpty ↔ report.isEmpty ∧ name ∈ toSchemas := by
  rw [checkOldSchema, isEmpty_ite, not_not]
  split <;> simp

theorem isEmpty_analyze :
    (analyze fromOps toOps fromSchemas toSchemas report).isEmpty ↔
      report.isEmpty ∧
        (∀ (opId : String) (fromOp : OperationMeta), fromOps[opId]? = some fromOp →
            ∃ toOp, toOps[opId]? = some toOp ∧ fromOp.Matches toOp) ∧
          (∀ opId ∈ toOps, opId ∈ fromOps) ∧ ∀ name, name ∈ fromSchemas ↔ name ∈ toSchemas := by
  rw [analyze, isEmpty_foldl (fun _ => isEmpty_checkOldSchema), isEmpty_foldl (fun _ => isEmpty_checkNewSchema),
    isEmpty_foldl (fun _ => isEmpty_checkNewOperation), isEmpty_foldl (fun _ => isEmpty_checkOperation)]
  constructor
  · rintro ⟨⟨⟨⟨hreport, hold⟩, hnew⟩, hnewSchemas⟩, holdSchemas⟩
    refine ⟨hreport, fun opId fromOp hfound => ?_, fun opId hmem => ?_, fun name => ⟨?_, ?_⟩⟩
    · exact hold (opId, fromOp) (Std.ExtTreeMap.mem_toList_iff_getElem?_eq_some.mpr hfound)
    · obtain ⟨toOp, hfound⟩ := Option.isSome_iff_exists.mp (Std.ExtTreeMap.mem_iff_isSome_getElem?.mp hmem)
      exact hnew (opId, toOp) (Std.ExtTreeMap.mem_toList_iff_getElem?_eq_some.mpr hfound)
    · exact fun hmem => holdSchemas name (Std.ExtTreeSet.mem_toList.mpr hmem)
    · exact fun hmem => hnewSchemas name (Std.ExtTreeSet.mem_toList.mpr hmem)
  · rintro ⟨hreport, hold, hnew, hschemas⟩
    refine ⟨⟨⟨⟨hreport, ?_⟩, ?_⟩, ?_⟩, ?_⟩
    · intro entry hentry
      exact hold entry.1 entry.2 (Std.ExtTreeMap.mem_toList_iff_getElem?_eq_some.mp hentry)
    · intro entry hentry
      apply hnew
      rw [Std.ExtTreeMap.mem_iff_isSome_getElem?, Std.ExtTreeMap.mem_toList_iff_getElem?_eq_some.mp hentry]
      rfl
    · intro name hname
      exact (hschemas name).mpr (Std.ExtTreeSet.mem_toList.mp hname)
    · intro name hname
      exact (hschemas name).mp (Std.ExtTreeSet.mem_toList.mp hname)

/-- Comparing with itself finds nothing. -/
theorem OperationMeta.Matches.refl (op : OperationMeta) : op.Matches op where
  method := rfl
  path := rfl
  deprecated h := h
  successStatuses := rfl
  paramLocations _ _ h := h
  requiredParams _ h := h
  optionalParams _ h := .inl h

end Empty

/-! ## What is extracted of an operation -/

section Extracted

/-- A parameter that has a name is added. -/
def Params.addParameter (params : Params) (p : Parameter) : Params where
  required := if p.required then params.required.insert p.name else params.required
  optional := if p.required then params.optional else params.optional.insert p.name
  locations := p.location.elim params.locations (params.locations.insert p.name)

theorem Params.add_eq (params : Params) (p : Value) :
    params.add p = (Parameter.read p).elim params params.addParameter := by
  cases hname : (get p "name").bind Value.asStr with
  | none => simp [Params.add, Parameter.read, hname]
  | some name =>
      cases hlocation : (get p "in").bind Value.asStr with
      | none => cases hrequired : ((get p "required").bind Value.asBool).getD false <;>
          simp [Params.add, Parameter.read, Params.addParameter, hname, hlocation, hrequired]
      | some location => cases hrequired : ((get p "required").bind Value.asBool).getD false <;>
          simp [Params.add, Parameter.read, Params.addParameter, hname, hlocation, hrequired]

theorem foldl_add (params : Params) (values : List Value) :
    values.foldl Params.add params = (values.filterMap Parameter.read).foldl Params.addParameter params := by
  induction values generalizing params with
  | nil => rfl
  | cons value rest ih =>
      rw [List.foldl_cons, Params.add_eq, ih]
      cases hread : Parameter.read value with
      | none => rw [List.filterMap_cons_none hread, Option.elim_none]
      | some p => rw [List.filterMap_cons_some hread, List.foldl_cons, Option.elim_some]

theorem mem_required_foldl {params : Params} {declared : List Parameter} {name : String} :
    name ∈ (declared.foldl Params.addParameter params).required ↔
      name ∈ params.required ∨ ∃ p ∈ declared, p.name = name ∧ p.required := by
  induction declared generalizing params with
  | nil => simp
  | cons p rest ih =>
      rw [List.foldl_cons, ih, List.exists_mem_cons_iff, ← or_assoc]
      apply or_congr_left
      cases hrequired : p.required with
      | false => simp [Params.addParameter, hrequired]
      | true => simp [Params.addParameter, hrequired, Std.ExtTreeSet.mem_insert, or_comm]

theorem mem_optional_foldl {params : Params} {declared : List Parameter} {name : String} :
    name ∈ (declared.foldl Params.addParameter params).optional ↔
      name ∈ params.optional ∨ ∃ p ∈ declared, p.name = name ∧ p.required = false := by
  induction declared generalizing params with
  | nil => simp
  | cons p rest ih =>
      rw [List.foldl_cons, ih, List.exists_mem_cons_iff, ← or_assoc]
      apply or_congr_left
      cases hrequired : p.required with
      | false => simp [Params.addParameter, hrequired, Std.ExtTreeSet.mem_insert, or_comm]
      | true => simp [Params.addParameter, hrequired]

theorem locations_foldl (params : Params) (declared : List Parameter) :
    (declared.foldl Params.addParameter params).locations =
      (declared.filterMap fun p => p.location.map (p.name, ·)).foldl (fun m entry => m.insert entry.1 entry.2)
        params.locations := by
  induction declared generalizing params with
  | nil => rfl
  | cons p rest ih =>
      rw [List.foldl_cons, ih]
      cases hlocation : p.location with
      | none => simp [Params.addParameter, hlocation]
      | some location => simp [Params.addParameter, hlocation]

variable {o o' : Operation} {name : String}

theorem mem_requiredParams :
    name ∈ (OperationMeta.of o).requiredParams ↔ ∃ p ∈ o.declared, p.name = name ∧ p.required := by
  rw [OperationMeta.of, foldl_add, mem_required_foldl]
  exact or_iff_right Std.ExtTreeSet.not_mem_empty

theorem mem_optionalParams :
    name ∈ (OperationMeta.of o).optionalParams ↔ ∃ p ∈ o.declared, p.name = name ∧ p.required = false := by
  rw [OperationMeta.of, foldl_add, mem_optional_foldl]
  exact or_iff_right Std.ExtTreeSet.not_mem_empty

theorem paramLocations_getElem? : (OperationMeta.of o).paramLocations[name]? = o.lastLocation name := by
  rw [OperationMeta.of, foldl_add, locations_foldl, getElem?_foldl_insert, Std.ExtTreeMap.getElem?_empty,
    Option.or_none]
  rfl

theorem mem_successStatuses {status : String} :
    status ∈ (OperationMeta.of o).successStatuses ↔ status ∈ o.successes := by
  have hfold (statuses : List String) (s : BTreeSet) :
      statuses.foldl addStatus s = (statuses.filter (startsWith · "2")).foldl (fun s item => s.insert item) s :=
    (List.foldl_filter ..).symm
  rw [OperationMeta.of, hfold, mem_foldl_insert]
  exact or_iff_left Std.ExtTreeSet.not_mem_empty

/-- What is seen of the extracted operations is what is said of the parameters. -/
theorem matches_iff_alike : (OperationMeta.of o).Matches (OperationMeta.of o') ↔ Alike o o' := by
  constructor
  · intro h
    refine ⟨h.method, h.path, h.deprecated, fun status => ?_, fun name location hlocation => ?_,
      fun p hp hrequired => ?_, fun p hp => ?_⟩
    · rw [← mem_successStatuses, ← mem_successStatuses, h.successStatuses]
    · rw [← paramLocations_getElem?] at hlocation ⊢
      exact h.paramLocations name location hlocation
    · exact mem_requiredParams.mp (h.requiredParams p.name (mem_requiredParams.mpr ⟨p, hp, rfl, hrequired⟩))
    · have hfound : p.name ∈ (OperationMeta.of o).optionalParams ∨ p.name ∈ (OperationMeta.of o).requiredParams := by
        cases hrequired : p.required with
        | true => exact .inr (h.requiredParams p.name (mem_requiredParams.mpr ⟨p, hp, rfl, hrequired⟩))
        | false => exact h.optionalParams p.name (mem_optionalParams.mpr ⟨p, hp, rfl, hrequired⟩)
      obtain hoptional | hrequired := hfound
      · obtain ⟨q, hq, hname, _⟩ := mem_optionalParams.mp hoptional
        exact ⟨q, hq, hname⟩
      · obtain ⟨q, hq, hname, _⟩ := mem_requiredParams.mp hrequired
        exact ⟨q, hq, hname⟩
  · intro h
    constructor
    · exact h.method
    · exact h.path
    · exact h.deprecated
    · apply Std.ExtTreeSet.ext_mem
      intro status
      rw [mem_successStatuses, mem_successStatuses, h.successes]
    · intro name location hlocation
      rw [paramLocations_getElem?] at hlocation ⊢
      exact h.locations name location hlocation
    · intro name hname
      obtain ⟨p, hp, rfl, hrequired⟩ := mem_requiredParams.mp hname
      exact mem_requiredParams.mpr (h.required p hp hrequired)
    · intro name hname
      obtain ⟨p, hp, rfl, -⟩ := mem_optionalParams.mp hname
      obtain ⟨q, hq, hqname⟩ := h.names p hp
      cases hrequired : q.required with
      | true => exact .inr (mem_requiredParams.mpr ⟨q, hq, hqname, hrequired⟩)
      | false => exact .inl (mem_optionalParams.mpr ⟨q, hq, hqname, hrequired⟩)

end Extracted

/-! ## What is extracted of a document -/

section Documents

variable {doc : Value} {opId : String}

def insertAll (operations : BTreeMap OperationMeta) (entries : List (String × Operation)) : BTreeMap OperationMeta :=
  entries.foldl (fun m entry => m.insert entry.1 (OperationMeta.of entry.2)) operations

theorem extractMethod_eq (path : String) (pathObj : Map) (operations : BTreeMap OperationMeta) (method : String) :
    extractMethod path pathObj operations method = insertAll operations (declaredMethod path pathObj method) := by
  rw [extractMethod, declaredMethod]
  cases (pathObj.get method).bind Value.asObject with
  | none => rfl
  | some op =>
      cases hid : (op.get "operationId").bind Value.asStr with
      | none => simp [hid, insertAll]
      | some opId => simp [hid, insertAll]

theorem extractPath_eq (operations : BTreeMap OperationMeta) (member : String × Value) :
    extractPath operations member = insertAll operations (declaredPath member) := by
  rw [extractPath, declaredPath]
  cases member.2.asObject with
  | none => rfl
  | some pathObj =>
      have hmethod : extractMethod member.1 pathObj = fun operations method =>
          insertAll operations (declaredMethod member.1 pathObj method) := by
        funext operations method
        exact extractMethod_eq ..
      change httpMethods.foldl (extractMethod member.1 pathObj) operations = _
      rw [hmethod, insertAll, List.foldl_flatMap]
      rfl

/-- The operations are inserted in the order of the document. -/
theorem extractOperations_eq (doc : Value) : extractOperations doc = insertAll ∅ (declaredOperations doc) := by
  rw [extractOperations, declaredOperations]
  cases (get doc "paths").bind Value.asObject with
  | none => rfl
  | some paths =>
      have hpath : extractPath = fun operations member => insertAll operations (declaredPath member) := by
        funext operations member
        exact extractPath_eq ..
      change paths.foldl extractPath ∅ = _
      rw [hpath, Option.getD_some, insertAll, List.foldl_flatMap]
      rfl

theorem getElem?_extractOperations (doc : Value) (opId : String) :
    (extractOperations doc)[opId]? =
      (((declaredOperations doc).map fun entry => (entry.1, OperationMeta.of entry.2)).reverse.find?
        (·.1 = opId)).map Prod.snd := by
  have hinsert : insertAll ∅ (declaredOperations doc) =
      ((declaredOperations doc).map fun entry => (entry.1, OperationMeta.of entry.2)).foldl
        (fun m entry => m.insert entry.1 entry.2) ∅ := by
    rw [insertAll, List.foldl_map]
  rw [extractOperations_eq, hinsert, getElem?_foldl_insert, Std.ExtTreeMap.getElem?_empty, Option.or_none]

/-- An operation id that is found belongs to an operation of the document. -/
theorem exists_operation {op : OperationMeta} (h : (extractOperations doc)[opId]? = some op) :
    ∃ o, (opId, o) ∈ declaredOperations doc ∧ OperationMeta.of o = op := by
  rw [getElem?_extractOperations, Option.map_eq_some_iff] at h
  obtain ⟨entry, hfound, rfl⟩ := h
  have hkey := of_decide_eq_true (List.find?_some (p := fun entry : String × OperationMeta => entry.1 = opId) hfound)
  obtain ⟨⟨key, o⟩, hmem, rfl⟩ := List.mem_map.mp (List.mem_reverse.mp (List.mem_of_find?_eq_some hfound))
  cases hkey
  exact ⟨o, hmem, rfl⟩

theorem mem_extractOperations :
    opId ∈ extractOperations doc ↔ opId ∈ (declaredOperations doc).map Prod.fst := by
  rw [Std.ExtTreeMap.mem_iff_isSome_getElem?, getElem?_extractOperations, Option.isSome_map, List.find?_isSome]
  constructor
  · rintro ⟨entry, hentry, hkey⟩
    obtain ⟨declared, hdeclared, rfl⟩ := List.mem_map.mp (List.mem_reverse.mp hentry)
    exact List.mem_map.mpr ⟨declared, hdeclared, of_decide_eq_true hkey⟩
  · intro hmem
    obtain ⟨declared, hdeclared, rfl⟩ := List.mem_map.mp hmem
    exact ⟨_, List.mem_reverse.mpr (List.mem_map_of_mem hdeclared), decide_eq_true rfl⟩

/-- With unique ids every operation of the document is found. -/
theorem getElem?_of_mem (hunique : UniqueIds doc) {o : Operation} (h : (opId, o) ∈ declaredOperations doc) :
    (extractOperations doc)[opId]? = some (.of o) := by
  have hmem : opId ∈ extractOperations doc := mem_extractOperations.mpr (List.mem_map_of_mem (f := Prod.fst) h)
  obtain ⟨op, hop⟩ := Option.isSome_iff_exists.mp (Std.ExtTreeMap.mem_iff_isSome_getElem?.mp hmem)
  obtain ⟨o', ho', rfl⟩ := exists_operation hop
  rw [hop, hunique opId o o' h ho']

theorem mem_extractSchemaNames {name : String} : name ∈ extractSchemaNames doc ↔ name ∈ schemaNames doc := by
  rw [extractSchemaNames, schemaNames]
  cases ((get doc "components").bind (get · "schemas")).bind Value.asObject with
  | none => exact iff_of_false Std.ExtTreeSet.not_mem_empty List.not_mem_nil
  | some schemas =>
      have hfold : schemas.foldl (fun names member => names.insert member.1) (∅ : BTreeSet) =
          (schemas.map Prod.fst).foldl (fun names name => names.insert name) ∅ := List.foldl_map.symm
      rw [Option.getD_some]
      change name ∈ schemas.foldl (fun names member => names.insert member.1) (∅ : BTreeSet) ↔ _
      rw [hfold, mem_foldl_insert]
      exact or_iff_left Std.ExtTreeSet.not_mem_empty

end Documents

/-! ## The report -/

section Report

variable {read : String → Option Bytes} {fromSlice : Bytes → Option Value} {fromPath toPath : String}
variable {doc doc' : Value}

/-- The document that is read from a file. -/
def document (read : String → Option Bytes) (fromSlice : Bytes → Option Value) (path : String) : Option Value :=
  (read path).bind fromSlice

/-- Two documents that are read are compared. -/
theorem computeDrift_eq_ok (hfrom : document read fromSlice fromPath = some doc)
    (hto : document read fromSlice toPath = some doc') :
    ∃ start : DriftReport, start.isEmpty ∧
      computeDrift read fromSlice fromPath toPath = .ok (analyze (extractOperations doc) (extractOperations doc')
        (extractSchemaNames doc) (extractSchemaNames doc') start) := by
  obtain ⟨fromBytes, hfromBytes, hfromDoc⟩ := Option.bind_eq_some_iff.mp hfrom
  obtain ⟨toBytes, htoBytes, htoDoc⟩ := Option.bind_eq_some_iff.mp hto
  have hreadFile {action path : String} {bytes : Bytes} (h : read path = some bytes) :
      readFile read action path = .ok bytes := by
    rw [readFile, h]
  have hparse {path : String} {bytes : Bytes} {doc : Value} (h : fromSlice bytes = some doc) :
      parse fromSlice path bytes = .ok doc := by
    rw [parse, h]
  let start : DriftReport :=
    { fromSource := fromPath
      toSource := toPath
      fromOperationsCount := (extractOperations doc).size
      toOperationsCount := (extractOperations doc').size
      fromSchemasCount := (extractSchemaNames doc).size
      toSchemasCount := (extractSchemaNames doc').size
      lifecycleChanges := []
      breakingChanges := []
      additiveChanges := [] }
  refine ⟨start, rfl, ?_⟩
  apply bind_eq_ok.mpr ⟨fromBytes, hreadFile hfromBytes, ?_⟩
  apply bind_eq_ok.mpr ⟨toBytes, hreadFile htoBytes, ?_⟩
  exact bind_eq_ok.mpr ⟨doc, hparse hfromDoc, bind_eq_ok.mpr ⟨doc', hparse htoDoc, rfl⟩⟩

/-- Nothing is reported of two documents exactly when what is looked at is alike. -/
theorem isEmpty_analyze_iff_alike (hunique : UniqueIds doc) (hunique' : UniqueIds doc') {start : DriftReport}
    (hstart : start.isEmpty) :
    (analyze (extractOperations doc) (extractOperations doc') (extractSchemaNames doc) (extractSchemaNames doc')
      start).isEmpty ↔ AlikeInterface doc doc' := by
  rw [isEmpty_analyze]
  simp only [mem_extractOperations, mem_extractSchemaNames]
  constructor
  · rintro ⟨-, hold, hnew, hschemas⟩
    refine ⟨⟨fun opId => ⟨fun hmem => ?_, hnew opId⟩, hschemas⟩, fun opId o o' ho ho' => ?_⟩
    · obtain ⟨⟨_, o⟩, ho, rfl⟩ := List.mem_map.mp hmem
      obtain ⟨toOp, hfound, _⟩ := hold _ _ (getElem?_of_mem hunique ho)
      obtain ⟨o', ho', _⟩ := exists_operation hfound
      exact List.mem_map.mpr ⟨_, ho', rfl⟩
    · obtain ⟨toOp, hfound, hmatches⟩ := hold _ _ (getElem?_of_mem hunique ho)
      cases (getElem?_of_mem hunique' ho').symm.trans hfound
      exact matches_iff_alike.mp hmatches
  · rintro ⟨hnames, halike⟩
    refine ⟨hstart, fun opId fromOp hfound => ?_, fun opId => (hnames.operations opId).mpr, hnames.schemas⟩
    obtain ⟨o, ho, rfl⟩ := exists_operation hfound
    have hmem := (hnames.operations opId).mp (List.mem_map_of_mem (f := Prod.fst) ho)
    obtain ⟨⟨_, o'⟩, ho', rfl⟩ := List.mem_map.mp hmem
    exact ⟨_, getElem?_of_mem hunique' ho', matches_iff_alike.mpr (halike _ o o' ho ho')⟩

/-- A report of two documents that are read is empty exactly when what is looked at is alike. -/
theorem exists_report (hfrom : document read fromSlice fromPath = some doc)
    (hto : document read fromSlice toPath = some doc') (hunique : UniqueIds doc) (hunique' : UniqueIds doc') :
    ∃ report, computeDrift read fromSlice fromPath toPath = .ok report ∧
      (report.isEmpty ↔ AlikeInterface doc doc') := by
  obtain ⟨start, hstart, hreport⟩ := computeDrift_eq_ok hfrom hto
  exact ⟨_, hreport, isEmpty_analyze_iff_alike hunique hunique' hstart⟩

theorem AlikeInterface.same_iff (h : AlikeInterface doc doc') : SameInterface doc doc' ↔ Common doc doc' Intact := by
  constructor
  · intro hsame opId o o' ho ho'
    exact (h.operations opId o o' ho ho').same_iff.mp (hsame.operations opId o o' ho ho')
  · intro hintact
    refine ⟨h.names, fun opId o o' ho ho' => ?_⟩
    exact (h.operations opId o o' ho ho').same_iff.mpr (hintact opId o o' ho ho')

/-- An empty report is right where the common operations keep what the report passes over: no deprecation ends, and
the parameters in effect stay. -/
theorem sameInterface_of_intact (hfrom : document read fromSlice fromPath = some doc)
    (hto : document read fromSlice toPath = some doc') (hunique : UniqueIds doc) (hunique' : UniqueIds doc')
    (hintact : Common doc doc' Intact) :
    ∃ report, computeDrift read fromSlice fromPath toPath = .ok report ∧ (report.isEmpty → SameInterface doc doc') := by
  obtain ⟨report, hreport, halike⟩ := exists_report hfrom hto hunique hunique'
  exact ⟨report, hreport, fun hempty => (halike.mp hempty).same_iff.mpr hintact⟩

/-- Nothing is reported of a document and itself, whatever its operation ids are. -/
theorem isEmpty_analyze_self {start : DriftReport} (hstart : start.isEmpty) :
    (analyze (extractOperations doc) (extractOperations doc) (extractSchemaNames doc) (extractSchemaNames doc)
      start).isEmpty := by
  rw [isEmpty_analyze]
  exact ⟨hstart, fun _ op hop => ⟨op, hop, .refl op⟩, fun _ h => h, fun _ => Iff.rfl⟩

end Report

/-- **An empty report says that two documents have the same interface exactly when there is a difference that it looks
at or none that it passes over, and no document differs from itself.** -/
theorem computeDrift_complete_iff (read : String → Option Bytes) (fromSlice : Bytes → Option Value) :
    (∀ fromPath toPath doc doc', document read fromSlice fromPath = some doc →
      document read fromSlice toPath = some doc' → UniqueIds doc → UniqueIds doc' →
        ∃ report, computeDrift read fromSlice fromPath toPath = .ok report ∧
          ((report.isEmpty → SameInterface doc doc') ↔ ¬AlikeInterface doc doc' ∨ Common doc doc' Intact)) ∧
      ∀ path doc, document read fromSlice path = some doc →
        ∃ report, computeDrift read fromSlice path path = .ok report ∧ report.isEmpty := by
  constructor
  · intro fromPath toPath doc doc' hfrom hto hunique hunique'
    obtain ⟨report, hreport, hempty⟩ := exists_report hfrom hto hunique hunique'
    refine ⟨report, hreport, ?_⟩
    rw [hempty]
    constructor
    · intro hcomplete
      by_cases halike : AlikeInterface doc doc'
      · exact .inr (halike.same_iff.mp (hcomplete halike))
      · exact .inl halike
    · rintro (hdiffer | hintact) halike
      · exact absurd halike hdiffer
      · exact halike.same_iff.mpr hintact
  · intro path doc hdoc
    obtain ⟨start, hstart, hreport⟩ := computeDrift_eq_ok hdoc hdoc
    exact ⟨_, hreport, isEmpty_analyze_self hstart⟩

/-! ## A parameter that is dropped -/

/-- A document with one operation. -/
def listFiles (parameters : List Value) : Value :=
  .object [("paths", .object [("/files", .object [("get", .object [("operationId", .string "listFiles"),
    ("parameters", .array parameters)])])])]

def limit : Value := .object [("name", .string "limit"), ("in", .string "query")]

def withLimit : Bytes := utf8 ("\x7b\"paths\":\x7b\"/files\":\x7b\"get\":\x7b\"operationId\":\"listFiles\"," ++
  "\"parameters\":[\x7b\"name\":\"limit\",\"in\":\"query\"\x7d]\x7d\x7d\x7d\x7d")

def withoutLimit : Bytes := utf8 ("\x7b\"paths\":\x7b\"/files\":\x7b\"get\":\x7b\"operationId\":\"listFiles\"," ++
  "\"parameters\":[]\x7d\x7d\x7d\x7d")

def snapshots (path : String) : Option Bytes :=
  if path = "with.json" then some withLimit else if path = "without.json" then some withoutLimit else none

def decodeSnapshot (bytes : Bytes) : Option Value :=
  if bytes = withLimit then some (listFiles [limit])
  else if bytes = withoutLimit then some (listFiles [])
  else none

theorem document_with : document snapshots decodeSnapshot "with.json" = some (listFiles [limit]) := rfl

theorem document_without : document snapshots decodeSnapshot "without.json" = some (listFiles []) := rfl

theorem uniqueIds_listFiles (parameters : List Value) : UniqueIds (listFiles parameters) := by
  obtain ⟨o, ho⟩ : ∃ o, declaredOperations (listFiles parameters) = [("listFiles", o)] := ⟨_, rfl⟩
  intro opId first second hfirst hsecond
  rw [ho, List.mem_singleton] at hfirst hsecond
  cases hfirst
  cases hsecond
  rfl

theorem not_sameInterface : ¬SameInterface (listFiles [limit]) (listFiles []) := by
  intro hsame
  have hoperation := hsame.operations "listFiles" _ _ List.mem_cons_self List.mem_cons_self
  have hkept := (hoperation.effective { name := "limit", location := some "query", required := false }).mp (by decide)
  exact absurd hkept (by decide)

/-- A parameter that is added is reported. -/
theorem computeDrift_complete_added : ∃ report,
    computeDrift snapshots decodeSnapshot "without.json" "with.json" = .ok report ∧
      (report.isEmpty → SameInterface (listFiles []) (listFiles [limit])) := by
  obtain ⟨report, hreport, hiff⟩ := (computeDrift_complete_iff snapshots decodeSnapshot).1 "without.json" "with.json"
    _ _ document_without document_with (uniqueIds_listFiles _) (uniqueIds_listFiles _)
  refine ⟨report, hreport, hiff.mpr (.inl fun halike => ?_)⟩
  have hoperation := halike.operations "listFiles" _ _ List.mem_cons_self List.mem_cons_self
  obtain ⟨p, hp, _⟩ := hoperation.names { name := "limit", location := some "query", required := false } (by decide)
  exact absurd hp List.not_mem_nil

/-- The report passes over a parameter that is gone. -/
theorem computeDrift_passes_over : ∃ report,
    computeDrift snapshots decodeSnapshot "with.json" "without.json" = .ok report ∧ report.isEmpty ∧
      ¬SameInterface (listFiles [limit]) (listFiles []) :=
  ⟨_, rfl, rfl, not_sameInterface⟩

end OpenaiRs.Drift
