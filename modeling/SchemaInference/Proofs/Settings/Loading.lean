import SchemaInference.Proofs.Failure.Outcomes
import SchemaInference.Proofs.Settings.Validation

set_option autoImplicit false

namespace SchemaInference

namespace IdPattern

theorem read_source {source : WideText} {p : IdPattern} (h : read source = .ok p) : p.source = source := by
  obtain ⟨_, -, rfl⟩ := map_eq_ok.mp h
  rfl

theorem mem_standard {p : IdPattern} (h : p ∈ standard) : read p.source = .ok p := by
  obtain ⟨source, -, hsource⟩ := List.mem_filterMap.mp h
  cases hread : read source with
  | error defect => rw [hread] at hsource; cases hsource
  | ok q =>
    rw [hread] at hsource
    cases hsource
    rw [read_source hread, hread]

theorem compileAll_eq_ok_iff {patterns : List GivenPattern} {ps : List IdPattern} :
    compileAll patterns = .ok ps ↔ List.Forall₂ (fun given p => read given.source = .ok p) patterns ps := by
  simp only [compileAll, mapM_eq_ok_iff, mapError_eq_ok_iff]

theorem read_of_compileAll {patterns : List GivenPattern} {ps : List IdPattern} (h : compileAll patterns = .ok ps) :
    ∀ p ∈ ps, read p.source = .ok p := by
  have hall := compileAll_eq_ok_iff.mp h
  clear h
  induction hall with
  | nil => exact List.forall_mem_nil _
  | cons hread _ ih =>
    rw [List.forall_mem_cons, read_source hread]
    exact ⟨hread, ih⟩

theorem compileAll_sources {ps : List IdPattern} (h : ∀ p ∈ ps, read p.source = .ok p) :
    compileAll (ps.map fun p => .text p.source) = .ok ps := by
  rw [compileAll_eq_ok_iff, List.forall₂_map_left_iff]
  exact List.forall₂_same.mpr h

end IdPattern

theorem Double.isFinite_of_between {least most : Nat} {x : Double} (h : x.Between (some least) (some most)) :
    x.isFinite = true := by
  have hmost := h.1 most rfl
  have hleast := h.2 least rfl
  cases x with
  | nan => cases hmost
  | infinite negative =>
    cases negative with
    | false => cases hmost
    | true => cases hleast
  | negativeZero => rfl
  | finite q => rfl

namespace StabilityThresholds

def Representable (t : StabilityThresholds) : Prop :=
  t.fieldStability.Representable ∧ t.shallowPolymorphic.Representable ∧ t.deepPolymorphic.Representable ∧
    t.dominantMinRatio.Representable

def IsFinite (t : StabilityThresholds) : Prop :=
  t.fieldStability.isFinite = true ∧ t.shallowPolymorphic.isFinite = true ∧ t.deepPolymorphic.isFinite = true ∧
    t.dominantMinRatio.isFinite = true

theorem representable_standard : standard.Representable := by
  dsimp only [Representable, standard]
  exact ⟨Double.representable_ofRat _, Double.representable_ofRat _, Double.representable_ofRat _,
    Double.representable_ofRat _⟩

theorem isFinite_standard : standard.IsFinite :=
  ⟨by decide +kernel, by decide +kernel, by decide +kernel, by decide +kernel⟩

theorem representable_of_allows {t : StabilityThresholds} (h : fields.Allows t) : t.Representable := by
  obtain ⟨_, _, ⟨_, _, ⟨_, _, ⟨_, _, ⟨_, _, ⟨_, _, rfl, rfl, hfield⟩, rfl, hshallow⟩, rfl, hdeep⟩, rfl, -⟩, rfl, hratio⟩,
    rfl, -⟩ := h
  have hallowed {x standard : Double} (hx : x = standard ∨ (FieldKind.double none none).Allows x)
      (hstandard : standard.Representable) : x.Representable := by
    rcases hx with rfl | hx
    · exact hstandard
    · exact hx.1
  obtain ⟨hfield', hshallow', hdeep', hratio'⟩ := representable_standard
  exact ⟨hallowed hfield hfield', hallowed hshallow hshallow', hallowed hdeep hdeep', hallowed hratio hratio'⟩

end StabilityThresholds

namespace Settings

def Representable (s : Settings) : Prop :=
  s.requiredThreshold.Representable ∧ s.stability.Representable

theorem representable_standard : standard.Representable := by
  refine ⟨?_, StabilityThresholds.representable_standard⟩
  dsimp only [standard]
  exact Double.representable_ofRat _

theorem between_standard : standard.requiredThreshold.Between (some 0) (some 1) := by
  have hmost : Double.le standard.requiredThreshold (.finite (1 : Nat)) = true := by decide +kernel
  have hleast : Double.le (.finite (0 : Nat)) standard.requiredThreshold = true := by decide +kernel
  constructor
  · rintro bound ⟨⟩
    exact hmost
  · rintro bound ⟨⟩
    exact hleast

/-- What every lawful validation promises of settings. -/
structure Sound (s : Settings) : Prop where
  sampleSize_pos : 0 < s.sampleSize
  share : s.requiredThreshold.Between (some 0) (some 1)
  readable : ∀ p ∈ s.idPatterns, IdPattern.read p.source = .ok p
  representable : s.Representable
  named : checkNaming s = .ok ()

theorem sound_of_allows {s : Settings} (h : fields.Allows s) (hnamed : checkNaming s = .ok ()) : s.Sound := by
  obtain ⟨_, _, ⟨_, _, ⟨_, _, ⟨_, _, ⟨_, _, ⟨_, _, ⟨_, _, ⟨_, _, ⟨_, _, ⟨_, _, rfl, rfl, hsize⟩, rfl, hthreshold⟩,
    rfl, -⟩, rfl, hpatterns⟩, rfl, -⟩, rfl, -⟩, rfl, -⟩, rfl, -⟩, rfl, -⟩, rfl, hstability⟩ := h
  -- Each setting is a default, which is decided, or is allowed by its declaration.
  refine ⟨?_, ?_, ?_, ⟨?_, ?_⟩, hnamed⟩
  · rcases hsize with rfl | hsize
    · exact (by decide : 0 < standard.sampleSize)
    · exact hsize
  · rcases hthreshold with rfl | hthreshold
    · exact between_standard
    · exact hthreshold.2
  · rcases hpatterns with rfl | ⟨given, -, hgiven⟩
    · exact fun p => IdPattern.mem_standard
    · exact IdPattern.read_of_compileAll hgiven
  · rcases hthreshold with rfl | hthreshold
    · exact representable_standard.1
    · exact hthreshold.1
  · rcases hstability with rfl | hstability
    · exact StabilityThresholds.representable_standard
    · exact StabilityThresholds.representable_of_allows hstability

theorem sound_of_load {V : Validation} (hV : V.Lawful) {options : Options} {s : Settings} (h : load V options = .ok s)
    (hoptions : options.Representable) : s.Sound := by
  have hbuild := mapError_eq_ok_iff.mp h
  obtain ⟨hallows, hnamed⟩ := hV.allows fields checkNaming options.normalized s hoptions.normalized hbuild
  exact sound_of_allows hallows hnamed

end Settings

end SchemaInference
