import SchemaInference.Proofs.Json.Canonical
import SchemaInference.Proofs.Settings.Lenient
import SchemaInference.Proofs.Settings.Loading
import SchemaInference.Schema.Inference
import SchemaInference.Settings.Export

set_option autoImplicit false

namespace SchemaInference

namespace Json

mutual

def option : Json → OptionValue
  | null => .null
  | bool b => .bool b
  | number n => .number n
  | text s => .text s
  | list items => .list (itemOptions items)
  | object members => .mapping (memberOptions members)

def itemOptions : List Json → List OptionValue
  | [] => []
  | item :: rest => item.option :: itemOptions rest

def memberOptions : List (String × Json) → Options
  | [] => []
  | (name, j) :: rest => (name, j.option) :: memberOptions rest

end

theorem itemOptions_eq_map (items : List Json) : itemOptions items = items.map option := by
  induction items with
  | nil => rfl
  | cons item rest ih => rw [itemOptions, ih, List.map_cons]

theorem canonical_texts {α : Type} (f : α → WideText) (xs : List α) :
    (list (xs.map fun x => text (f x))).canonical = (list (xs.map fun x => text (f x))).inUnits := by
  rw [canonical, inUnits, canonicalItems_eq_map, itemsInUnits_eq_map, List.map_map, List.map_map]
  rfl

theorem ofText?_eq_of_inUnits_eq {s t : Option String} (h : (ofText? s).inUnits = (ofText? t).inUnits) :
    ofText? s = ofText? t := by
  cases s with
  | none =>
    cases t with
    | none => rfl
    | some t => cases h
  | some s =>
    cases t with
    | none => cases h
    | some t => rw [WideText.ofString_inj_of_units (text.inj h)]

theorem canonical_ofText? (s : Option String) : (ofText? s).canonical = (ofText? s).inUnits := by
  cases s <;> rfl

end Json

theorem Fields.keeps_field {α β : Type} {earlier : Fields (β → α)} {name : String} {kind : FieldKind β} {standard b : β}
    {options : Options} {f : β → α} {v : OptionValue} (hearlier : earlier.Keeps options f)
    (hv : options.get? name = some v) (hb : kind.Keeps v b) :
    (Fields.field earlier name kind standard).Keeps options (f b) := by
  refine ⟨f, b, hearlier, rfl, ?_⟩
  rw [hv]
  exact hb

theorem FieldKind.keeps_choice {α : Type} {all : List α} {name : α → String} {a : α} (ha : a ∈ all)
    (htold : ∀ a ∈ all, ∀ b ∈ all, name b = name a → b = a) : (FieldKind.choice all name).Keeps (.text (name a)) a :=
  ⟨rfl, ha, htold a ha⟩

theorem ConflictPolicy.mem_all (p : ConflictPolicy) : p ∈ all := by
  cases p <;> decide

theorem ObjectFallback.mem_all (f : ObjectFallback) : f ∈ all := by
  cases f <;> decide

theorem NumberPolicy.mem_all (p : NumberPolicy) : p ∈ all := by
  cases p <;> decide

theorem NamingStyle.mem_all (s : NamingStyle) : s ∈ all := by
  cases s <;> decide

namespace Settings

def exported (s : Settings) : Options :=
  Json.memberOptions s.json.members

theorem map_fst_exported (s : Settings) : s.exported.map (·.1) = fields.names := rfl

theorem name_mem_of_exported {s : Settings} : ∀ o ∈ s.exported, o.1 ∈ fields.names :=
  fun _ ho => map_fst_exported s ▸ List.mem_map_of_mem ho

theorem normalized_exported (s : Settings) : s.exported.normalized = s.exported := by
  refine Options.renamed_eq_self ?_ fun o ho => ?_
  · rw [map_fst_exported]
    decide
  · have hnormal : ∀ name ∈ fields.names, (Options.aliases.lookup name).getD name = name := by decide
    exact hnormal o.1 (name_mem_of_exported o ho)

theorem keeps_stability {t : StabilityThresholds} (ht : t.IsFinite) :
    StabilityThresholds.fields.Keeps (Json.memberOptions t.json.members) t := by
  have hdouble {x : Double} (hx : x.isFinite = true) : (FieldKind.double none none).Keeps (.number (.real x)) x :=
    ⟨rfl, hx, by simp [Double.Between]⟩
  obtain ⟨hfield, hshallow, hdeep, hratio⟩ := ht
  cases t
  refine Fields.keeps_field (Fields.keeps_field (Fields.keeps_field (Fields.keeps_field (Fields.keeps_field
    (Fields.keeps_field rfl rfl ?_) rfl ?_) rfl ?_) rfl ?_) rfl ?_) rfl ?_
  · exact hdouble hfield
  · exact hdouble hshallow
  · exact hdouble hdeep
  · exact rfl
  · exact hdouble hratio
  · exact rfl

theorem keeps_patterns {ps : List IdPattern} (h : ∀ p ∈ ps, IdPattern.read p.source = .ok p) :
    (FieldKind.checked (.list .pattern) IdPattern.compileAll).Keeps
      (Json.list (ps.map fun p => .text p.source)).option ps := by
  refine ⟨ps.map fun p => .text p.source, ⟨_, rfl, ?_⟩, IdPattern.compileAll_sources h⟩
  rw [Json.itemOptions_eq_map, List.map_map, List.forall₂_map_left_iff, List.forall₂_map_right_iff]
  exact List.forall₂_same.mpr fun _ _ => rfl

/-- What is written down of settings is of the declared types and inside the bounds. -/
theorem keeps_exported {s : Settings} (hs : s.Sound) (htemplate : s.template = none) (hfinite : s.stability.IsFinite) :
    fields.Keeps s.exported s := by
  obtain ⟨hsize, hshare, hreadable, -, -⟩ := hs
  have hthreshold := Double.isFinite_of_between hshare
  cases s
  subst htemplate
  refine Fields.keeps_field (Fields.keeps_field (Fields.keeps_field (Fields.keeps_field (Fields.keeps_field
    (Fields.keeps_field (Fields.keeps_field (Fields.keeps_field (Fields.keeps_field (Fields.keeps_field rfl
      rfl ?_) rfl ?_) rfl ?_) rfl ?_) rfl ?_) rfl ?_) rfl ?_) rfl ?_) rfl ?_) rfl ?_
  · exact ⟨rfl, hsize⟩
  · exact ⟨rfl, hthreshold, hshare⟩
  · exact FieldKind.keeps_choice (ConflictPolicy.mem_all _) (by decide)
  · exact keeps_patterns hreadable
  · exact ⟨rfl, Nat.zero_le _⟩
  · exact FieldKind.keeps_choice (ObjectFallback.mem_all _) (by decide)
  · exact FieldKind.keeps_choice (NumberPolicy.mem_all _) (by decide)
  · exact FieldKind.keeps_choice (NamingStyle.mem_all _) (by decide)
  · exact .inl ⟨rfl, rfl⟩
  · exact ⟨_, rfl, fun _ ho => List.mem_map_of_mem (f := (·.1)) ho, keeps_stability hfinite⟩

theorem load_exported_of_sound {V : Validation} (hV : V.Lawful) {s : Settings} (hs : s.Sound)
    (htemplate : s.template = none) (hfinite : s.stability.IsFinite) : load V s.exported = .ok s := by
  have hbuild := hV.keeps fields checkNaming s.exported s name_mem_of_exported (keeps_exported hs htemplate hfinite)
    hs.named
  rw [load, normalized_exported, hbuild]
  rfl

theorem representable_stability {t : StabilityThresholds} (ht : t.Representable) : t.json.Representable := by
  obtain ⟨hfield, hshallow, hdeep, hratio⟩ := ht
  simp only [StabilityThresholds.json, Json.Representable, Json.RepresentableMembers, Number.Representable, hfield,
    hshallow, hdeep, hratio, and_self]

theorem stability_eq_of_canonical_eq {t t' : StabilityThresholds} (h : t.json.canonical = t'.json.canonical) : t = t' := by
  have hdistinct : StabilityThresholds.fields.names.Nodup := by decide
  have hmembers := Json.members_eq_of_canonical_eq h rfl hdistinct
  simp only [List.map_cons, List.map_nil, Json.canonical_number, List.cons.injEq, Prod.mk.injEq, Json.number.injEq,
    Number.real.injEq, Number.whole.injEq, true_and, and_true] at hmembers
  obtain ⟨hfield, hshallow, hdeep, hlimit, hratio, hdepth⟩ := hmembers
  cases t
  cases t'
  simp_all

theorem representable_json {s : Settings} (hs : s.Representable) : s.json.Representable := by
  have hsources : Json.RepresentableItems (s.idPatterns.map fun p => .text p.source) := by
    rw [Json.representableItems_iff]
    rintro j hj
    obtain ⟨p, -, rfl⟩ := List.mem_map.mp hj
    exact True.intro
  have htemplate (o : Option String) : (Json.ofText? o).Representable := by
    cases o <;> exact True.intro
  have hstability := representable_stability hs.2
  simp only [json, Json.Representable, Json.RepresentableMembers, Json.whole, Number.Representable, hs.1, hsources,
    htemplate, hstability, and_self]

theorem exportText_eq_ok_iff {s : Settings} {text : String} :
    s.exportText = .ok text ↔ s.json.isWritable = true ∧ s.json.write none = text := by
  unfold exportText Json.line
  split <;> simp_all

theorem inUnits_eq_of_exportText_eq {s s' : Settings} (hs : s.Representable) (hs' : s'.Representable) {text : String}
    (h : s.exportText = .ok text) (h' : s'.exportText = .ok text) : s.json.inUnits = s'.json.inUnits := by
  have hwrite : s.json.write none = s'.json.write none :=
    (exportText_eq_ok_iff.mp h).2.trans (exportText_eq_ok_iff.mp h').2.symm
  have hcanonical := Json.canonical_eq_of_write_eq (representable_json hs) (representable_json hs') hwrite
  have hdistinct : fields.names.Nodup := by decide
  have hmembers := Json.members_eq_of_canonical_eq hcanonical rfl hdistinct
  simp only [List.map_cons, List.map_nil, List.cons.injEq, Prod.mk.injEq, true_and, and_true, Json.whole,
    Json.canonical_number, Json.canonical_text, Json.canonical_texts, Json.canonical_ofText?] at hmembers
  obtain ⟨hsize, hthreshold, hconflicts, hpatterns, hdepth, hfallback, hnumbers, hnaming, htemplate, hstability⟩ :=
    hmembers
  rw [Json.inUnits, Json.inUnits] at hpatterns
  simp only [json, Json.whole, Json.inUnits, Json.membersInUnits, hsize, hthreshold, hconflicts, hpatterns, hdepth,
    hfallback, hnumbers, hnaming, htemplate, stability_eq_of_canonical_eq hstability]

theorem exportText_eq_of_inUnits_eq {s s' : Settings} (h : s.json.inUnits = s'.json.inUnits) :
    s.exportText = s'.exportText := by
  rw [exportText, exportText, ← Json.line_inUnits, h, Json.line_inUnits]

theorem fingerprint_eq_of_inUnits_eq {s s' : Settings} (h : s.json.inUnits = s'.json.inUnits) :
    s.fingerprint = s'.fingerprint := by
  rw [fingerprint, fingerprint, fingerprintBy, fingerprintBy, exportText_eq_of_inUnits_eq h]

/-- No pattern holds two halves of a pair side by side. -/
def IsJoined (s : Settings) : Prop :=
  ∀ p ∈ s.idPatterns, p.source.joined = p.source

theorem patterns_eq_of_units_eq {ps ps' : List IdPattern} (hps : ∀ p ∈ ps, p.source.joined = p.source)
    (hps' : ∀ p ∈ ps', p.source.joined = p.source)
    (h : (Json.list (ps.map fun p => .text p.source)).inUnits = (Json.list (ps'.map fun p => .text p.source)).inUnits) :
    ps.map (fun p => Json.text p.source) = ps'.map fun p => Json.text p.source := by
  have hunits : ps.map (·.source.units) = ps'.map (·.source.units) := by
    rw [Json.inUnits, Json.inUnits, Json.itemsInUnits_eq_map, Json.itemsInUnits_eq_map, List.map_map, List.map_map] at h
    have hitems := congrArg (List.map fun j => j.wideText?.getD []) (Json.list.inj h)
    rw [List.map_map, List.map_map] at hitems
    exact hitems
  have hjoined {ps : List IdPattern} (hps : ∀ p ∈ ps, p.source.joined = p.source) :
      ps.map (fun p => Json.text p.source) = (ps.map (·.source.units)).map fun s => .text s.joined := by
    rw [List.map_map]
    refine List.map_congr_left fun p hp => ?_
    exact congrArg Json.text ((WideText.joined_units p.source).trans (hps p hp)).symm
  rw [hjoined hps, hjoined hps', hunits]

/-- Where halves of pairs do not stand side by side, the data in units is the data. -/
theorem json_eq_of_inUnits_eq {s s' : Settings} (hs : s.IsJoined) (hs' : s'.IsJoined)
    (h : s.json.inUnits = s'.json.inUnits) : s.json = s'.json := by
  have hmembers := Json.object.inj h
  simp only [Json.membersInUnits, List.cons.injEq, Prod.mk.injEq, true_and, and_true] at hmembers
  obtain ⟨hsize, hthreshold, hconflicts, hpatterns, hdepth, hfallback, hnumbers, hnaming, htemplate, hstability⟩ :=
    hmembers
  have hname {s t : String} (h : (Json.text s).inUnits = (Json.text t).inUnits) : s = t :=
    WideText.ofString_inj_of_units (Json.text.inj h)
  change Json.whole s.sampleSize = Json.whole s'.sampleSize at hsize
  change Json.number (.real s.requiredThreshold) = Json.number (.real s'.requiredThreshold) at hthreshold
  change Json.whole s.maxDepth = Json.whole s'.maxDepth at hdepth
  change s.stability.json = s'.stability.json at hstability
  rw [json, json, hsize, hthreshold, hname hconflicts, patterns_eq_of_units_eq hs hs' hpatterns, hdepth, hname hfallback,
    hname hnumbers, hname hnaming, Json.ofText?_eq_of_inUnits_eq htemplate, hstability]

theorem eq_of_json_eq {V : Validation} (hV : V.Lawful) {s s' : Settings} (hs : s.Sound) (hs' : s'.Sound)
    (htemplate : s.template = none) (htemplate' : s'.template = none) (hfinite : s.stability.IsFinite)
    (hfinite' : s'.stability.IsFinite) (h : s.json = s'.json) : s = s' := by
  have hload := load_exported_of_sound hV hs htemplate hfinite
  rw [exported, h] at hload
  exact Except.ok.inj (hload.symm.trans (load_exported_of_sound hV hs' htemplate' hfinite'))

theorem exists_fingerprint_iff {s : Settings} : (∃ print, s.fingerprint = .ok print) ↔ s.json.isWritable = true := by
  unfold fingerprint fingerprintBy exportText Json.line
  split <;> simp_all [Except.map]

/-- Settings loaded without a template and with finite thresholds are loaded again, as they are, from what is written
down of them, by any lawful validation.  Where no two texts of settings share a digest, one fingerprint means one
data in units; so it decides what is inferred from any documents, unless two halves of a pair stand side by side in a
pattern. -/
theorem load_exported {V : Validation} (hV : V.Lawful) {options : Options} {s : Settings} (h : load V options = .ok s)
    (hoptions : options.Representable) (htemplate : s.template = none) (hfinite : s.stability.IsFinite) :
    (∃ s', load V s.exported = .ok s' ∧ s' = s ∧ s'.fingerprint = s.fingerprint) ∧
      ((∃ print, s.fingerprint = .ok print) ↔ s.json.isWritable = true) ∧
      ∀ (options' : Options) (s' : Settings), load V options' = .ok s' → options'.Representable → s'.template = none →
        s'.stability.IsFinite → ∀ text text', s.exportText = .ok text → s'.exportText = .ok text' →
        (shortDigest text = shortDigest text' → text = text') →
        (s.fingerprint = s'.fingerprint ↔ s.json.inUnits = s'.json.inUnits) ∧
        (s.fingerprint = s'.fingerprint → s.IsJoined → s'.IsJoined → s = s' ∧
          ∀ (r : Rounding) (g : Graph) (documents : List Item) (typeName : String),
            InferredSchema.infer r s g documents typeName = InferredSchema.infer r s' g documents typeName) := by
  have hsound := sound_of_load hV h hoptions
  refine ⟨⟨s, load_exported_of_sound hV hsound htemplate hfinite, rfl, rfl⟩, exists_fingerprint_iff, ?_⟩
  intro options' s' h' hoptions' htemplate' hfinite' text text' htext htext' hdigest
  have hsound' := sound_of_load hV h' hoptions'
  have hunits : s.fingerprint = s'.fingerprint ↔ s.json.inUnits = s'.json.inUnits := by
    constructor
    · intro hprint
      rw [fingerprint, fingerprint, fingerprintBy, fingerprintBy, htext, htext'] at hprint
      rw [← hdigest (Except.ok.inj hprint)] at htext'
      exact inUnits_eq_of_exportText_eq hsound.representable hsound'.representable htext htext'
    · exact fingerprint_eq_of_inUnits_eq
  refine ⟨hunits, fun hprint hjoined hjoined' => ?_⟩
  have hjson := json_eq_of_inUnits_eq hjoined hjoined' (hunits.mp hprint)
  obtain rfl := eq_of_json_eq hV hsound hsound' htemplate htemplate' hfinite hfinite' hjson
  exact ⟨rfl, fun _ _ _ _ => rfl⟩

def plainOptions : Options :=
  [("sample_size", .number (.whole 200)), ("id_patterns", .list [.text "sku"]),
    ("stability", .mapping [("shallow_depth_limit", .number (.whole 3))])]

def capitalOptions : Options :=
  [("stability", .mapping [("shallow_depth_limit", .number (.real (.finite 3)))]),
    ("idPatterns", .list [.pattern "sku"]), ("sampleSize", .text "+0200")]

def skuSettings : Settings :=
  { standard with
    sampleSize := 200
    idPatterns := (IdPattern.read "sku").toOption.toList
    stability := { StabilityThresholds.standard with shallowDepthLimit := 3 } }

theorem representable_plainOptions : plainOptions.Representable := by
  simp [plainOptions, Options.Representable, OptionValue.Representable, Number.Representable]

theorem representable_capitalOptions : capitalOptions.Representable := by
  have hthree : (Double.finite 3).Representable := by decide +kernel
  simp [capitalOptions, Options.Representable, OptionValue.Representable, Number.Representable, hthree]

theorem load_exported_sku : ∃ s s', load .lenient plainOptions = .ok s ∧ load .lenient capitalOptions = .ok s' ∧
    s.template = none ∧ s'.template = none ∧ plainOptions.Representable ∧ capitalOptions.Representable ∧
    s.stability.IsFinite ∧ s'.stability.IsFinite ∧ s.IsJoined ∧ s'.IsJoined ∧
    (∃ s'', load .lenient s.exported = .ok s'' ∧ s'' = s ∧ s''.fingerprint = s.fingerprint) ∧
    (∃ print, s.fingerprint = .ok print ∧ s'.fingerprint = .ok print) ∧
    ∀ (r : Rounding) (g : Graph) (documents : List Item) (typeName : String),
      InferredSchema.infer r s g documents typeName = InferredSchema.infer r s' g documents typeName := by
  have hplain : load .lenient plainOptions = .ok skuSettings := rfl
  have hcapital : load .lenient capitalOptions = .ok skuSettings := rfl
  have hfinite : skuSettings.stability.IsFinite :=
    ⟨by decide +kernel, by decide +kernel, by decide +kernel, by decide +kernel⟩
  have hjoined : skuSettings.IsJoined := List.forall_mem_singleton.mpr (WideText.joined_ofString "sku")
  have hwritable : skuSettings.json.isWritable = true := by decide +kernel
  obtain ⟨hagain, hprint, hsame⟩ := load_exported Validation.lawful_lenient hplain representable_plainOptions rfl hfinite
  obtain ⟨text, htext⟩ : ∃ text, skuSettings.exportText = .ok text := ⟨_, exportText_eq_ok_iff.mpr ⟨hwritable, rfl⟩⟩
  obtain ⟨-, htold⟩ := hsame capitalOptions skuSettings hcapital representable_capitalOptions rfl hfinite text text htext
    htext fun _ => rfl
  obtain ⟨print, hfingerprint⟩ := hprint.mpr hwritable
  exact ⟨skuSettings, skuSettings, hplain, hcapital, rfl, rfl, representable_plainOptions, representable_capitalOptions,
    hfinite, hfinite, hjoined, hjoined, hagain, ⟨print, hfingerprint, hfingerprint⟩, (htold rfl hjoined hjoined).2⟩

def pairOptions : Options :=
  [("id_patterns", .list [.text "😀"])]

/-- The two halves of the character, which a text may hold side by side. -/
def halves : WideText :=
  [.ofCode 0xd83d, .ofCode 0xde00]

def halvesOptions : Options :=
  [("id_patterns", .list [.text halves])]

theorem inUnits_json_of_units_eq (s : Settings) {ps ps' : List IdPattern}
    (h : ps.map (·.source.units) = ps'.map (·.source.units)) :
    Json.inUnits { s with idPatterns := ps }.json = Json.inUnits { s with idPatterns := ps' }.json := by
  have hlist (ps : List IdPattern) : (Json.list (ps.map fun p => .text p.source)).inUnits =
      .list ((ps.map (·.source.units)).map .text) := by
    rw [Json.inUnits, Json.itemsInUnits_eq_map, List.map_map, List.map_map]
    rfl
  have hpatterns := (hlist ps).trans (h ▸ (hlist ps').symm)
  simp only [Json.inUnits] at hpatterns
  simp only [json, Json.inUnits, Json.membersInUnits, hpatterns]

def withPattern (source : WideText) : Settings :=
  { standard with idPatterns := (IdPattern.read source).toOption.toList }

theorem isFinite_withPattern (source : WideText) : (withPattern source).stability.IsFinite := by
  dsimp only [withPattern, standard]
  exact StabilityThresholds.isFinite_standard

def typesWith (source : WideText) (document : Value) : Option (List String) :=
  (InferredSchema.infer .binary64 (withPattern source) (Graph.ofValues [document]).1 (Graph.ofValues [document]).2
    "Root").toOption.map fun schema => schema.rootType.fields.map (·.type)

/-- Two patterns of one fingerprint, of which only one matches the character. -/
theorem fingerprint_not_tells_halves : ∃ s s', load .lenient pairOptions = .ok s ∧ load .lenient halvesOptions = .ok s' ∧
    s.template = none ∧ s'.template = none ∧ s.stability.IsFinite ∧ s'.stability.IsFinite ∧
    (∃ print, s.fingerprint = .ok print ∧ s'.fingerprint = .ok print) ∧
    ∃ (g : Graph) (documents : List Item),
      InferredSchema.infer .binary64 s g documents "Root" ≠ InferredSchema.infer .binary64 s' g documents "Root" := by
  have hpair : load .lenient pairOptions = .ok (withPattern "😀") := rfl
  have hhalves : load .lenient halvesOptions = .ok (withPattern halves) := rfl
  have hunits : (withPattern "😀").json.inUnits = (withPattern halves).json.inUnits :=
    inUnits_json_of_units_eq standard (by decide +kernel)
  have hwritable : (withPattern "😀").json.isWritable = true := by decide +kernel
  obtain ⟨print, hprint⟩ := exists_fingerprint_iff.mpr hwritable
  have hsame := (fingerprint_eq_of_inUnits_eq hunits).symm.trans hprint
  have hid : typesWith "😀" (.record [("😀", .whole 1)]) = some ["ID!"] := by decide +kernel
  have hnumber : typesWith halves (.record [("😀", .whole 1)]) = some ["Int!"] := by decide +kernel
  refine ⟨_, _, hpair, hhalves, rfl, rfl, isFinite_withPattern _, isFinite_withPattern _, ⟨print, hprint, hsame⟩,
    (Graph.ofValues [.record [("😀", .whole 1)]]).1, (Graph.ofValues [.record [("😀", .whole 1)]]).2, fun h => ?_⟩
  rw [typesWith, h, ← typesWith, hnumber] at hid
  exact absurd hid (by decide)

end Settings

end SchemaInference
