import SchemaInference.Proofs.Field.Repetition
import SchemaInference.Proofs.Number.Exact
import SchemaInference.Proofs.Schema.Emission
import SchemaInference.Schema.Inference

set_option autoImplicit false

namespace SchemaInference

namespace Double

/-- Whether a count is below the product of another one and a threshold does not change when both counts are
multiplied. -/
theorem lt_mul_exact_scaled (t : Double) {k c : Rat} (hk : 0 < k) (hc : 0 < c) (f : Rat) :
    lt (.finite (k * f)) (mul .exact (ofRat .exact (k * c)) t) = lt (.finite f) (mul .exact (ofRat .exact c) t) := by
  have hproduct {q : Rat} (ht : t.toRat? = some q) :
      lt (.finite (k * f)) (mul .exact (ofRat .exact (k * c)) t) = lt (.finite f) (mul .exact (ofRat .exact c) t) := by
    rw [lt_eq_of_toRat? rfl (toRat?_mul_exact (toRat?_ofRat_exact (k * c)) ht),
      lt_eq_of_toRat? rfl (toRat?_mul_exact (toRat?_ofRat_exact c) ht), mul_assoc, decide_eq_decide]
    exact mul_lt_mul_iff_right₀ hk
  have hofRat {c : Rat} (hc : 0 < c) : ofRat .exact c = .finite c := by
    simp [ofRat, ofExact, hc.ne']
  cases t with
  | nan => rw [hofRat hc, hofRat (mul_pos hk hc)]; rfl
  | infinite negative =>
    have hmul {c : Rat} (hc : 0 < c) : mul .exact (.finite c) (.infinite negative) = .infinite negative := by
      simp [mul, toRat?, isNan, isNegative, hc.ne', hc.not_gt]
    rw [hofRat hc, hofRat (mul_pos hk hc), hmul hc, hmul (mul_pos hk hc)]
    rfl
  | negativeZero => exact hproduct rfl
  | finite q => exact hproduct rfl

end Double

namespace FieldStats

variable (k : Nat) (s : FieldStats)

@[simp] theorem nonNullTags_times : (s.times k).nonNullTags = s.nonNullTags := rfl

@[simp] theorem nonNullElementTags_times : (s.times k).nonNullElementTags = s.nonNullElementTags := rfl

@[simp] theorem scopeSize_times : (s.times k).scopeSize = k * s.scopeSize := by
  change (if s.arrayDerived then max (k * s.frequency) (k * s.objectElements) else k * s.frequency) = _
  unfold scopeSize
  split
  · exact Nat.mul_max_mul_left k s.frequency s.objectElements
  · rfl

end FieldStats

namespace FieldMap

variable (m : FieldMap) {k : Nat}

theorem mapStats_times {change change' : FieldStats → FieldStats} (h : ∀ s, change' (s.times k) = (change s).times k) :
    (m.times k).mapStats change' = (m.mapStats change).times k := by
  induction m with
  | empty => rfl
  | field name stats sub rest _ ih => rw [times, mapStats, h, ih, mapStats, times]

theorem markAbsent_times (hk : 1 ≤ k) : (m.times k).markAbsent = m.markAbsent.times k := by
  induction m with
  | empty => rfl
  | field name stats sub rest ihsub ih =>
    have hmarked (s : FieldStats) :
        { s.times k with isNullable := (s.times k).isNullable || decide ((s.times k).frequency < (stats.times k).scopeSize) } =
          { s with isNullable := s.isNullable || decide (s.frequency < stats.scopeSize) }.times k := by
      have habsent : k * s.frequency < k * stats.scopeSize ↔ s.frequency < stats.scopeSize := Nat.mul_lt_mul_left hk
      rw [FieldStats.scopeSize_times]
      simp only [FieldStats.times, habsent]
    simp only [times, markAbsent, ihsub, ih]
    split
    · rename_i hderived
      have hbelow : stats.arrayDerived = true := hderived
      rw [if_pos hbelow, mapStats_times _ hmarked]
    · rename_i hderived
      have hbelow : ¬ stats.arrayDerived = true := hderived
      rw [if_neg hbelow]

theorem conflicts_times (above : String) : (m.times k).conflicts above = m.conflicts above := by
  induction m generalizing above with
  | empty => rfl
  | field name stats sub rest ihsub ih =>
    rw [times, conflicts, ihsub, ih]
    rfl

theorem toList_times : (m.times k).toList = m.toList.map fun e => (e.1, e.2.1.times k, e.2.2.times k) := by
  induction m with
  | empty => rfl
  | field name stats sub rest _ ih => rw [times, toList, ih, toList, List.map_cons]

theorem size_times : (m.times k).size = m.size := by
  rw [size, toList_times, List.length_map, size]

theorem frequencies_times : (m.times k).frequencies = m.frequencies.map (k * ·) := by
  rw [frequencies, toList_times, List.map_map, frequencies, List.map_map]
  rfl

theorem isEmpty_times : (m.times k).isEmpty = m.isEmpty := by
  cases m <;> rfl

end FieldMap

def Analysis.times (k : Nat) (a : Analysis) : Analysis :=
  { a with fields := a.fields.times k, documentCount := k * a.documentCount }

theorem Analysis.ofDocuments_repeated (g : Graph) (documents : List Item) {k : Nat} (hk : 1 ≤ k) :
    ofDocuments g (List.replicate k documents).flatten = (ofDocuments g documents).times k := by
  have hcount : ((List.replicate k documents).flatten.filter g.isMapping).length =
      k * (documents.filter g.isMapping).length := by
    rw [List.filter_flatten, List.map_replicate, List.length_flatten, List.map_replicate, List.sum_replicate_nat]
  unfold ofDocuments
  dsimp only
  rw [FieldMap.ofDocuments_repeated g documents hk, FieldMap.markAbsent_times _ hk, FieldMap.size_times,
    FieldMap.conflicts_times, hcount]
  rfl

theorem StabilityThresholds.accepts_times (t : StabilityThresholds) (frequencies : List Nat) (containing depth : Int)
    {k : Nat} (hk : 1 ≤ k) : t.accepts .exact (frequencies.map (k * ·)) (k * containing) depth =
      t.accepts .exact frequencies containing depth := by
  have hpos : (0 : Rat) < k := by exact_mod_cast hk
  have hnone : decide (k * containing ≤ 0) = decide (containing ≤ 0) := by
    rw [decide_eq_decide]
    exact mul_nonpos_iff_neg_imp_nonneg.trans (by constructor <;> intro h <;> omega)
  have hgreatest : (frequencies.map (k * ·)).foldl max 0 = k * frequencies.foldl max 0 := by
    have hfrom (first : Nat) : (frequencies.map (k * ·)).foldl max (k * first) = k * frequencies.foldl max first := by
      rw [List.foldl_map]
      exact List.foldl_hom (k * ·) fun a b => Nat.mul_max_mul_left k a b
    exact hfrom 0
  unfold accepts
  rw [List.isEmpty_map, hnone]
  split
  · rfl
  · rename_i hboth
    have hcontaining : (0 : Rat) < containing := by
      simp only [Bool.or_eq_true, decide_eq_true_eq, not_or, not_le] at hboth
      exact_mod_cast hboth.2
    have hbelow (threshold : Double) (f : Nat) :
        Double.lt (.finite ((k * f : Nat) : Rat)) (.mul .exact (.ofRat .exact ((k * containing : Int) : Rat)) threshold) =
          Double.lt (.finite f) (.mul .exact (.ofRat .exact containing) threshold) := by
      rw [Nat.cast_mul, Int.cast_mul, Int.cast_natCast]
      exact Double.lt_mul_exact_scaled threshold hpos hcontaining f
    simp only [List.filter_map, List.length_map, Function.comp_def, hgreatest, hbelow]

def Promotion.times (k : Nat) (p : Promotion) : Promotion :=
  { p with scope := k * p.scope }

def NestedPlan.times (k : Nat) (plan : NestedPlan) : NestedPlan :=
  { plan with fields := plan.fields.times k, frequency := k * plan.frequency }

namespace Settings

variable (s : Settings) {k : Nat}

theorem promotion?_times (hk : 1 ≤ k) (name : String) (stats : FieldStats) (nested : FieldMap) (depth : Nat) :
    s.promotion? .exact name (stats.times k) (nested.times k) depth =
      (s.promotion? .exact name stats nested depth).map (·.times k) := by
  have hobjects : isObjectArray (stats.times k) (nested.times k) = isObjectArray stats nested := by
    rw [isObjectArray, FieldMap.isEmpty_times, FieldStats.nonNullElementTags_times]
    rfl
  have haccepts : s.stability.accepts .exact (nested.times k).frequencies (stats.times k).frequency depth =
      s.stability.accepts .exact nested.frequencies stats.frequency depth := by
    rw [FieldMap.frequencies_times]
    exact s.stability.accepts_times nested.frequencies stats.frequency depth hk
  unfold promotion?
  rw [FieldMap.isEmpty_times, FieldStats.nonNullTags_times, hobjects, haccepts, FieldStats.scopeSize_times]
  change (if nested.isEmpty || s.isId name || decide (1 < stats.nonNullTags.length) then none
    else if isObjectArray stats nested then some (Promotion.mk true (k * stats.scopeSize))
    else if .object ∈ stats.tags ∧ ¬ stats.isArray ∧
      s.stability.accepts .exact nested.frequencies stats.frequency depth then some (Promotion.mk false (k * stats.frequency))
    else none) = _
  split_ifs <;> rfl

theorem plans_times (hk : 1 ≤ k) (strategy : NamingStrategy) (parent : String) (depth : Nat) (path : List String)
    (fields : FieldMap) (names : NameRegistry) :
    s.plans .exact strategy parent depth path (fields.times k) names =
      ((s.plans .exact strategy parent depth path fields names).1.map (·.times k),
        (s.plans .exact strategy parent depth path fields names).2) := by
  induction fields generalizing parent depth path names with
  | empty => rfl
  | field name stats nested rest ihnested ih =>
    rw [FieldMap.times, plans, plans, promotion?_times s hk]
    by_cases hdepth : s.maxDepth ≤ depth
    · rw [if_pos hdepth, if_pos hdepth]
      rfl
    · rw [if_neg hdepth, if_neg hdepth]
      cases s.promotion? .exact name stats nested (depth + 1) with
      | none => exact ih parent depth path names
      | some p =>
        simp only [Option.map_some, ihnested, ih]
        simp [NestedPlan.times, Promotion.times]

theorem promotions_times (hk : 1 ≤ k) (fields : FieldMap) (rootName : String) :
    promotions .exact s (fields.times k) rootName = (promotions .exact s fields rootName).map (·.times k) := by
  rw [promotions, plans_times s hk]
  rfl

theorem isRequired_times (hk : 1 ≤ k) (stats : FieldStats) (scope : Int) :
    s.isRequired .exact (stats.times k) (k * scope) = s.isRequired .exact stats scope := by
  have hpos : (0 : Int) < k := by omega
  have hnone : k * scope ≤ 0 ↔ scope ≤ 0 := by
    rw [← not_lt, ← not_lt, mul_pos_iff_of_pos_left hpos]
  have hshare : ((k * stats.frequency : Nat) : Rat) / ((k * scope : Int) : Rat) = (stats.frequency : Rat) / scope := by
    rw [Nat.cast_mul, Int.cast_mul, Int.cast_natCast]
    exact mul_div_mul_left _ _ (by exact_mod_cast hpos.ne')
  change (if stats.isNullable || decide (.null ∈ stats.tags) then false else if k * scope ≤ 0 then false else
    Double.le s.requiredThreshold (.ofRat .exact (((k * stats.frequency : Nat) : Rat) / ((k * scope : Int) : Rat)))) = _
  rw [hshare]
  simp only [hnone]
  rfl

theorem numberType_times (hk : 1 ≤ k) (samples : List Number) :
    s.numberType (List.replicate k samples).flatten = s.numberType samples := by
  have hne : k ≠ 0 := by omega
  have hempty : (List.replicate k samples).flatten.isEmpty = samples.isEmpty := by
    rw [Bool.eq_iff_iff, List.isEmpty_iff, List.isEmpty_iff, List.flatten_eq_nil_iff]
    simp [List.mem_replicate, hne]
  rw [numberType, hempty, List.all_flatten, List.all_replicate, if_neg hne]
  rfl

theorem scalarOf_times (hk : 1 ≤ k) (tag : Tag) (samples : List Number) :
    s.scalarOf tag (List.replicate k samples).flatten = s.scalarOf tag samples := by
  cases tag with
  | number => exact s.numberType_times hk samples
  | string | boolean | null | object | array | named => rfl

theorem resolve_times (hk : 1 ≤ k) (tags : TagSet) (fieldName : Option String) (samples : List Number) :
    s.resolve tags fieldName (List.replicate k samples).flatten = s.resolve tags fieldName samples := by
  unfold resolve
  simp only [scalarOf_times s hk]

theorem baseType_times (hk : 1 ≤ k) (stats : FieldStats) (path : List String) (promoted : PromotedNames) :
    s.baseType (stats.times k) path promoted = s.baseType stats path promoted := by
  unfold baseType
  simp only [FieldStats.nonNullTags_times, FieldStats.nonNullElementTags_times]
  simp only [FieldStats.times, resolve_times s hk, scalarOf_times s hk]
  rfl

theorem fieldDefinitions_times (hk : 1 ≤ k) (fields : FieldMap) (path : List String) (scope : Int)
    (promoted : PromotedNames) : s.fieldDefinitions .exact (fields.times k) path (k * scope) promoted =
      s.fieldDefinitions .exact fields path scope promoted := by
  rw [fieldDefinitions, FieldMap.toList_times, List.mapM_map, fieldDefinitions]
  refine mapM_congr fun entry _ => ?_
  simp only [Function.comp_apply, fieldDefinition, isRequired_times s hk, baseType_times s hk]

end Settings

def TypeDefinition.times (k : Nat) (t : TypeDefinition) : TypeDefinition :=
  { t with parentFrequency := t.parentFrequency.map (k * ·) }

namespace Settings

variable (s : Settings) {k : Nat}

theorem build_times (hk : 1 ≤ k) (fields : FieldMap) (rootName : String) (documents : Nat) :
    s.build .exact (fields.times k) rootName (k * documents : Nat) =
      (s.build .exact fields rootName documents).map fun d => ⟨d.root, d.nested.map (·.times k)⟩ := by
  have hnames : promotedNames ((promotions .exact s fields rootName).map (·.times k)) =
      promotedNames (promotions .exact s fields rootName) := by
    rw [promotedNames, List.map_map]
    rfl
  have hplan (promoted : PromotedNames) (plan : NestedPlan) :
      s.definePlan .exact promoted (plan.times k) = (s.definePlan .exact promoted plan).map (·.times k) := by
    unfold definePlan NestedPlan.times
    dsimp only
    rw [Nat.cast_mul, fieldDefinitions_times s hk]
    cases s.fieldDefinitions .exact plan.fields plan.path plan.frequency promoted <;> rfl
  rw [build_eq, build_eq, promotions_times s hk, hnames, List.mapM_map,
    map_mapM (g := s.definePlan .exact _ ∘ _) (hplan _), Nat.cast_mul, fieldDefinitions_times s hk]
  cases (promotions .exact s fields rootName).mapM
      (s.definePlan .exact (promotedNames (promotions .exact s fields rootName))) with
  | error e => rfl
  | ok nested =>
    cases s.fieldDefinitions .exact fields [] documents (promotedNames (promotions .exact s fields rootName)) <;> rfl

end Settings

namespace InferredSchema

/-- A schema that shows `k` times the counts: those of the objects of nested types, and that of the
documents. -/
def times (k : Nat) (schema : InferredSchema) : InferredSchema :=
  { rootType := schema.rootType
    nestedTypes := schema.nestedTypes.map (·.times k)
    stats := { schema.stats with documentsAnalyzed := k * schema.stats.documentsAnalyzed } }

/-- Documents that are all repeated have the schema of one time, with its counts multiplied; or they fail in
the same way. -/
theorem infer_repeated (s : Settings) (g : Graph) (documents : List Item) (typeName : String) (k : Nat)
    (hk : 1 ≤ k) : infer .exact s g (List.replicate k documents).flatten typeName =
      (infer .exact s g documents typeName).map (·.times k) := by
  have hempty : (List.replicate k documents).flatten.isEmpty = documents.isEmpty := by
    have hne : k ≠ 0 := by omega
    rw [Bool.eq_iff_iff, List.isEmpty_iff, List.isEmpty_iff, List.flatten_eq_nil_iff]
    simp [List.mem_replicate, hne]
  rw [infer, infer, hempty, Analysis.ofDocuments_repeated g documents hk]
  split
  · rfl
  · rw [ofAnalysis, ofAnalysis]
    change ((s.build .exact ((Analysis.ofDocuments g documents).fields.times k) typeName
      (k * (Analysis.ofDocuments g documents).documentCount : Nat)).map _) = _
    rw [Settings.build_times s hk]
    cases s.build .exact (Analysis.ofDocuments g documents).fields typeName
      (Analysis.ofDocuments g documents).documentCount with
    | error e => rfl
    | ok d => simp [Except.map, times, Analysis.times]

end InferredSchema

def Graph.stations : Graph where
  nodes := #[
    .mapping [(.text "latitude", .scalar (.number (.whole 47))), (.text "name", .scalar (.text "ridge"))],
    .mapping [(.text "rain", .scalar (.number (.whole 3))), (.text "wind", .scalar (.number (.whole 12)))],
    .mapping [(.text "rain", .scalar (.number (.whole 0)))],
    .sequence false [.node 1, .node 2],
    .mapping [(.text "site", .node 0), (.text "readings", .node 3)],
    .mapping [(.text "latitude", .scalar (.number (.whole 46))), (.text "name", .scalar .null)],
    .mapping [(.text "site", .node 5)]]

theorem InferredSchema.infer_repeated_stations :
    1 ≤ 3 ∧ ∃ schema, infer .exact .standard .stations [.node 4, .node 6] "Station" = .ok schema ∧
      schema.types.map (fun t => (t.name, t.parentFrequency, t.fields)) =
        [("Station", none, [⟨"site", .nested "StationSite", true⟩, ⟨"readings", .nestedList "StationReading", false⟩]),
          ("StationSite", some 2, [⟨"latitude", .scalar .int, true⟩, ⟨"name", .scalar .string, false⟩]),
          ("StationReading", some 2, [⟨"rain", .scalar .int, true⟩, ⟨"wind", .scalar .int, false⟩])] ∧
      infer .exact .standard .stations (List.replicate 3 [.node 4, .node 6]).flatten "Station" =
        .ok (schema.times 3) ∧
      (schema.times 3).nestedTypes.map (·.parentFrequency) = [some 6, some 6] := by
  have hview : ((infer .exact .standard .stations [.node 4, .node 6] "Station").toOption.map
      fun schema => schema.types.map fun t => (t.name, t.parentFrequency, t.fields)) =
        some [("Station", none, [⟨"site", .nested "StationSite", true⟩,
            ⟨"readings", .nestedList "StationReading", false⟩]),
          ("StationSite", some 2, [⟨"latitude", .scalar .int, true⟩, ⟨"name", .scalar .string, false⟩]),
          ("StationReading", some 2, [⟨"rain", .scalar .int, true⟩, ⟨"wind", .scalar .int, false⟩])] := by
    decide +kernel
  obtain ⟨schema, hinfer, hshown⟩ := exists_ok_of_toOption hview
  have hrepeated := infer_repeated .standard .stations [.node 4, .node 6] "Station" 3 (by decide)
  rw [hinfer] at hrepeated
  have hfrequencies : schema.nestedTypes.map (·.parentFrequency) = [some 2, some 2] := by
    have htypes := congrArg (List.map fun t => t.2.1) hshown
    rw [List.map_map] at htypes
    exact (List.cons.inj htypes).2
  refine ⟨by decide, schema, hinfer, hshown, hrepeated, ?_⟩
  change (schema.nestedTypes.map (TypeDefinition.times 3)).map (·.parentFrequency) = _
  rw [List.map_map]
  have hscaled := congrArg (List.map (Option.map (3 * ·))) hfrequencies
  rwa [List.map_map] at hscaled

end SchemaInference
