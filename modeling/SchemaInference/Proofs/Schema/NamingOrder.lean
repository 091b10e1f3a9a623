import SchemaInference.Proofs.Field.Nullability
import SchemaInference.Proofs.Naming.Numbering
import SchemaInference.Proofs.Schema.PostOrder
import SchemaInference.Proofs.Schema.Traversal
import SchemaInference.Schema.Definition
import Mathlib.Data.Set.Basic

/-!
# The order in which types are named

A type is named before the types below it and after those of earlier fields, so the plans can be made in two
passes: the first one names the places in pre-order, each by the name that the type above it has got; the
second one lists them in post-order.  What makes a name be taken is therefore only what comes before in
pre-order, which neither the types below nor those of later fields do.
-/

set_option autoImplicit false

namespace SchemaInference

variable {strategy : NamingStrategy}

def nameAt (known : PromotedNames) (path : List String) : String :=
  (known.lookup path).getD ""

namespace PromotedPlace

def request (place : PromotedPlace) (strategy : NamingStrategy) (parent : String) : String :=
  strategy.generate parent (place.path.getLastD "") place.depth place.isArray

def planWith (place : PromotedPlace) (known : PromotedNames) : NestedPlan where
  name := nameAt known place.path
  fields := place.fields
  parent := nameAt known place.path.dropLast
  depth := place.depth
  frequency := place.frequency
  path := place.path
  isArray := place.isArray

end PromotedPlace

def nameInTurn (strategy : NamingStrategy) :
    List PromotedPlace → PromotedNames → NameRegistry → PromotedNames × NameRegistry
  | [], known, names => (known, names)
  | place :: rest, known, names =>
    let (name, names) := names.register (place.request strategy (nameAt known place.path.dropLast))
    nameInTurn strategy rest (known ++ [(place.path, name)]) names

/-- The plans of the fields of a root type: all places are named in pre-order, then they are listed in
post-order. -/
def Settings.plansInTwoPasses (r : Rounding) (s : Settings) (strategy : NamingStrategy) (rootName : String)
    (fields : FieldMap) (names : NameRegistry) : List NestedPlan × NameRegistry :=
  let (known, after) := nameInTurn strategy (s.places r .preOrder 0 [] fields) [([], rootName)] names
  ((s.places r .postOrder 0 [] fields).map (·.planWith known), after)

theorem nameInTurn_append (first second : List PromotedPlace) (known : PromotedNames) (names : NameRegistry) :
    nameInTurn strategy (first ++ second) known names =
      nameInTurn strategy second (nameInTurn strategy first known names).1
        (nameInTurn strategy first known names).2 := by
  induction first generalizing known names with
  | nil => rfl
  | cons place first ih => exact ih _ _

theorem nameAt_append {known : PromotedNames} {path : List String} {name : String}
    (h : known.lookup path = some name) (more : PromotedNames) : nameAt (known ++ more) path = name := by
  rw [nameAt, List.lookup_append, h]
  rfl

theorem lookup_concat_of_fresh {known : PromotedNames} {path : List String}
    (h : ∀ entry ∈ known, ¬ path <+: entry.1) (name : String) :
    (known ++ [(path, name)]).lookup path = some name := by
  have hnone : known.lookup path = none := by
    rw [List.lookup_eq_none_iff]
    intro entry hentry
    rw [bne_iff_ne]
    rintro rfl
    exact h entry hentry List.prefix_rfl
  rw [List.lookup_append, hnone]
  simp

theorem eq_of_concat_isPrefix {path long : List String} {a b : String} (ha : path ++ [a] <+: long)
    (hb : path ++ [b] <+: long) : a = b := by
  obtain ⟨s, rfl⟩ := ha
  obtain ⟨t, ht⟩ := hb
  simp only [List.append_assoc, List.singleton_append, List.append_cancel_left_eq, List.cons.injEq] at ht
  exact ht.1.symm

variable {r : Rounding} {s : Settings} {parent : String} {depth : Nat} {path : List String} {fields : FieldMap}
  {names after : NameRegistry} {plans : List NestedPlan}

def Unnamed (known : PromotedNames) (path : List String) (keys : List String) : Prop :=
  ∀ entry ∈ known, ∀ key ∈ keys, ¬ path ++ [key] <+: entry.1

namespace Unnamed

variable {known : PromotedNames} {name : String} {keys : List String}

theorem tail (h : Unnamed known path (name :: keys)) : Unnamed known path keys :=
  fun entry hentry key hkey => h entry hentry key (List.mem_cons_of_mem _ hkey)

theorem below (h : Unnamed known path (name :: keys)) (typeName : String) (inner : List String) :
    Unnamed (known ++ [(path ++ [name], typeName)]) (path ++ [name]) inner := by
  intro entry hentry key _ hpath
  obtain hold | hnew := List.mem_append.mp hentry
  · exact h entry hold name List.mem_cons_self ((List.prefix_append _ _).trans hpath)
  · obtain rfl := List.mem_singleton.mp hnew
    have hlength := hpath.length_le
    simp at hlength

theorem append (h : Unnamed known path (name :: keys)) (hname : name ∉ keys) {news : PromotedNames}
    (hnews : ∀ entry ∈ news, path ++ [name] <+: entry.1) : Unnamed (known ++ news) path keys := by
  intro entry hentry key hkey hpath
  obtain hold | hnew := List.mem_append.mp hentry
  · exact h.tail entry hold key hkey hpath
  · exact hname (eq_of_concat_isPrefix hpath (hnews entry hnew) ▸ hkey)

end Unnamed

/-- The first pass over the places of some fields gives them the names that the plans have.  Nothing at these
fields has a name before, and nothing that is named later changes their names. -/
theorem Derives.nameInTurn (h : Derives r s strategy parent depth path fields names plans after)
    (hfields : fields.Distinct) {known : PromotedNames} (hparent : known.lookup path = some parent)
    (hfresh : Unnamed known path fields.names) :
    ∃ news, nameInTurn strategy (s.places r .preOrder depth path fields) known names = (known ++ news, after) ∧
      (∀ entry ∈ news, ∃ key ∈ fields.names, path ++ [key] <+: entry.1) ∧
      ∀ more, plans = (s.places r .postOrder depth path fields).map (·.planWith (known ++ (news ++ more))) := by
  induction h generalizing known with
  | exhausted => exact ⟨[], congrArg (·, _) (List.append_nil known).symm, List.forall_mem_nil _, fun _ => rfl⟩
  | capped parent path fields names hdepth =>
    rw [Settings.places_capped hdepth, Settings.places_capped hdepth]
    exact ⟨[], congrArg (·, _) (List.append_nil known).symm, List.forall_mem_nil _, fun _ => rfl⟩
  | skipped hdepth hpromotion _ ih =>
    obtain ⟨news, hnamed, hnews, hplans⟩ := ih hfields.2.2 hparent hfresh.tail
    rw [Settings.places_skipped hdepth hpromotion, Settings.places_skipped hdepth hpromotion]
    refine ⟨news, hnamed, fun entry hentry => ?_, hplans⟩
    obtain ⟨key, hkey, hpath⟩ := hnews entry hentry
    exact ⟨key, List.mem_cons_of_mem _ hkey, hpath⟩
  | @promoted parent name typeName depth path stats nested rest names registered between after p below later
      hdepth hpromotion hregister _ _ ihbelow ihlater =>
    have htype := lookup_concat_of_fresh (fun entry hentry => hfresh entry hentry name List.mem_cons_self) typeName
    obtain ⟨inner, hinner, hinside, hbelow⟩ := ihbelow hfields.2.1 htype (hfresh.below typeName _)
    simp only [List.append_assoc, List.singleton_append] at hinner hbelow
    have hunder : ∀ entry ∈ (path ++ [name], typeName) :: inner, path ++ [name] <+: entry.1 := by
      refine List.forall_mem_cons.mpr ⟨List.prefix_rfl, fun entry hentry => ?_⟩
      obtain ⟨key, -, hpath⟩ := hinside entry hentry
      exact (List.prefix_append _ _).trans hpath
    have hparent' : (known ++ (path ++ [name], typeName) :: inner).lookup path = some parent := by
      rw [List.lookup_append, hparent]
      rfl
    obtain ⟨others, hothers, houtside, hlater⟩ :=
      ihlater hfields.2.2 hparent' (hfresh.append hfields.1 hunder)
    simp only [List.append_assoc, List.cons_append] at hothers hlater
    refine ⟨(path ++ [name], typeName) :: (inner ++ others), ?_, ?_, fun more => ?_⟩
    · have hrequest : (PromotedPlace.mk (path ++ [name]) (depth + 1) p.scope p.isArray nested).request strategy
          (nameAt known (path ++ [name]).dropLast) = strategy.generate parent name (depth + 1) p.isArray := by
        simp [PromotedPlace.request, nameAt, hparent]
      rw [Settings.places_promoted hdepth hpromotion, Visit.arrange, List.cons_append,
        SchemaInference.nameInTurn, hrequest, hregister]
      dsimp only
      rw [nameInTurn_append, hinner, hothers]
    · rw [List.forall_mem_cons, List.forall_mem_append]
      refine ⟨⟨name, List.mem_cons_self, List.prefix_rfl⟩, fun entry hentry => ?_, fun entry hentry => ?_⟩
      · exact ⟨name, List.mem_cons_self, hunder entry (List.mem_cons_of_mem _ hentry)⟩
      · obtain ⟨key, hkey, hpath⟩ := houtside entry hentry
        exact ⟨key, List.mem_cons_of_mem _ hkey, hpath⟩
    · have hhere : nameAt (known ++ (path ++ [name], typeName) :: (inner ++ (others ++ more))) (path ++ [name]) =
          typeName := by
        have happend := nameAt_append htype (inner ++ (others ++ more))
        rwa [List.append_assoc, List.singleton_append] at happend
      have habove := nameAt_append hparent ((path ++ [name], typeName) :: (inner ++ (others ++ more)))
      rw [Settings.places_promoted hdepth hpromotion, Visit.arrange]
      simp only [List.cons_append, List.append_assoc, List.map_append, List.map_cons, List.nil_append]
      rw [← hbelow, ← hlater, PromotedPlace.planWith, hhere, List.dropLast_concat, habove]

theorem Settings.plans_eq_plansInTwoPasses (hfields : fields.Distinct) (rootName : String) (names : NameRegistry) :
    s.plans r strategy rootName 0 [] fields names = s.plansInTwoPasses r strategy rootName fields names := by
  have hroot : ([([], rootName)] : PromotedNames).lookup [] = some rootName := rfl
  have hfresh : Unnamed [([], rootName)] [] fields.names := by
    intro entry hentry key _ hpath
    obtain rfl := List.mem_singleton.mp hentry
    have hlength := hpath.length_le
    simp at hlength
  have hderives : Derives r s strategy rootName 0 [] fields names _ _ := plans_derives rootName 0 [] fields names
  obtain ⟨news, hnamed, -, hplans⟩ := hderives.nameInTurn hfields hroot hfresh
  rw [plansInTwoPasses, hnamed]
  refine Prod.ext ?_ rfl
  rw [hplans [], List.append_nil]

theorem not_sublist_swap {α : Type} {l : List α} (hl : l.Nodup) {a b : α} (h : [a, b].Sublist l) :
    ¬ [b, a].Sublist l := by
  induction l with
  | nil => cases h
  | cons x l ih =>
    obtain ⟨hx, hl⟩ := List.nodup_cons.mp hl
    intro hswap
    cases h with
    | cons _ h =>
      cases hswap with
      | cons _ hswap => exact ih hl h hswap
      | cons_cons => exact hx (h.subset (by simp))
    | cons_cons _ h =>
      cases hswap with
      | cons _ hswap => exact hx (hswap.subset (by simp))
      | cons_cons => exact hx (h.subset (by simp))

namespace FieldMap

/-- A path comes before those below it, and paths that part come in the order of the fields at which they
part. -/
def Precedes (m : FieldMap) : List String → List String → Prop
  | [], later => later ≠ []
  | _ :: _, [] => False
  | a :: earlier, b :: later => if a = b then (m.nested a).Precedes earlier later else [a, b].Sublist m.names

variable {m : FieldMap} {p q : List String}

theorem Precedes.asymm (hm : m.Distinct) (h : m.Precedes p q) : ¬ m.Precedes q p := by
  induction p generalizing m q with
  | nil =>
    cases q with
    | nil => exact absurd rfl h
    | cons b q => exact id
  | cons a p ih =>
    cases q with
    | nil => exact h.elim
    | cons b q =>
      unfold Precedes at h ⊢
      by_cases hab : a = b
      · subst hab
        rw [if_pos rfl] at h ⊢
        exact ih (hm.nested a) h
      · rw [if_neg hab] at h
        rw [if_neg (Ne.symm hab)]
        exact not_sublist_swap hm.names_nodup h

theorem not_precedes_of_prefix (h : q <+: p) : ¬ m.Precedes p q := by
  induction q generalizing m p with
  | nil => cases p <;> simp [Precedes]
  | cons b q ih =>
    obtain ⟨rest, rfl⟩ := h
    rw [List.cons_append, Precedes, if_pos rfl]
    exact ih (List.prefix_append q rest)

theorem not_precedes_of_later (hm : m.Distinct) {above : List String} {key later : String}
    (hkeys : [key, later].Sublist (m.descend above).names) (h : above ++ [later] <+: p) :
    ¬ m.Precedes p (above ++ [key]) := by
  obtain ⟨rest, rfl⟩ := h
  induction above generalizing m with
  | nil =>
    have hne : later ≠ key := by
      rintro rfl
      exact not_sublist_swap hm.names_nodup hkeys hkeys
    rw [List.nil_append, List.nil_append, List.singleton_append, Precedes, if_neg hne]
    exact not_sublist_swap hm.names_nodup hkeys
  | cons name above ih =>
    simp only [List.cons_append, Precedes, ↓reduceIte]
    exact ih (hm.nested name) hkeys

variable {name : String} {stats : FieldStats} {nested rest : FieldMap}

theorem precedes_field_below (h : nested.Precedes p q) :
    (field name stats nested rest).Precedes (name :: p) (name :: q) := by
  simpa [Precedes, FieldMap.nested] using h

theorem precedes_field_rest (hname : name ∉ rest.names) (hp : ∃ key ∈ rest.names, [key] <+: p)
    (h : rest.Precedes p q) : (field name stats nested rest).Precedes p q := by
  obtain ⟨key, hkey, p, rfl⟩ := hp
  have hne : name ≠ key := fun heq => hname (heq ▸ hkey)
  cases q with
  | nil => exact h.elim
  | cons b q =>
    rw [List.singleton_append, Precedes] at h ⊢
    split at h
    · rename_i hsame
      rw [if_pos hsame]
      simpa [FieldMap.nested, hne] using h
    · rename_i hother
      rw [if_neg hother]
      exact h.cons name

theorem precedes_field_later (hname : name ∉ rest.names) (hq : ∃ key ∈ rest.names, [key] <+: q) :
    (field name stats nested rest).Precedes (name :: p) q := by
  obtain ⟨key, hkey, q, rfl⟩ := hq
  have hne : name ≠ key := fun heq => hname (heq ▸ hkey)
  rw [List.singleton_append, Precedes, if_neg hne]
  exact (List.singleton_sublist.mpr hkey).cons_cons name

end FieldMap

def AnsweredInTurn (strategy : NamingStrategy) : List String → List NestedPlan → Prop
  | _, [] => True
  | taken, plan :: rest =>
    NameRegistry.Answers {t | t ∈ taken} (plan.place.request strategy plan.parent) plan.name ∧
      AnsweredInTurn strategy (taken ++ [plan.name]) rest

theorem answeredInTurn_append {taken : List String} {first second : List NestedPlan} :
    AnsweredInTurn strategy taken (first ++ second) ↔ AnsweredInTurn strategy taken first ∧
      AnsweredInTurn strategy (taken ++ first.map (·.name)) second := by
  induction first generalizing taken with
  | nil => simp [AnsweredInTurn]
  | cons plan first ih => simp [AnsweredInTurn, ih, and_assoc]

/-- If plans that come earlier are those that stand in an asymmetric relation to a plan, only their names and
those taken before make the name of the plan be taken. -/
theorem AnsweredInTurn.answers {taken : List String} {visited : List NestedPlan}
    (h : AnsweredInTurn strategy taken visited) {before : NestedPlan → NestedPlan → Prop}
    (hordered : visited.Pairwise before) (hasymm : ∀ p q, before p q → ¬ before q p) {plan : NestedPlan}
    (hplan : plan ∈ visited) :
    NameRegistry.Answers ({t | t ∈ taken} ∪ {t | ∃ other ∈ visited, before other plan ∧ other.name = t})
      (plan.place.request strategy plan.parent) plan.name := by
  induction visited generalizing taken with
  | nil => cases hplan
  | cons first rest ih =>
    obtain ⟨hfirst, hrest⟩ := List.pairwise_cons.mp hordered
    obtain rfl | hplan := List.mem_cons.mp hplan
    · convert h.1 using 1
      ext t
      have hnone : ∀ other ∈ plan :: rest, ¬ before other plan := by
        intro other hother hbefore
        obtain rfl | hother := List.mem_cons.mp hother
        · exact hasymm _ _ hbefore hbefore
        · exact hasymm _ _ (hfirst other hother) hbefore
      constructor
      · rintro (htaken | ⟨other, hother, hbefore, -⟩)
        · exact htaken
        · exact absurd hbefore (hnone other hother)
      · exact .inl
    · convert ih h.2 hrest hplan using 1
      ext t
      have hbefore := hfirst plan hplan
      simp only [Set.mem_union, Set.mem_ofPred_eq, List.mem_append, List.mem_singleton, List.exists_mem_cons_iff]
      constructor
      · rintro (htaken | ⟨-, rfl⟩ | hother)
        · exact .inl (.inl htaken)
        · exact .inl (.inr rfl)
        · exact .inr hother
      · rintro ((htaken | rfl) | hother)
        · exact .inl htaken
        · exact .inr (.inl ⟨hbefore, rfl⟩)
        · exact .inr (.inr hother)

structure Visited (strategy : NamingStrategy) (path : List String) (fields : FieldMap) (names : NameRegistry)
    (plans : List NestedPlan) (after : NameRegistry) (visited : List NestedPlan) : Prop where
  perm : visited.Perm plans
  ordered : visited.Pairwise fun p q => fields.Precedes (p.path.drop path.length) (q.path.drop path.length)
  answered : AnsweredInTurn strategy names.names visited
  names_eq : after.names = names.names ++ visited.map (·.name)
  gapless : after.Gapless

theorem drop_of_concat_isPrefix {long : List String} {key : String} (h : path ++ [key] <+: long) :
    long.drop path.length = key :: long.drop (path ++ [key]).length := by
  obtain ⟨rest, rfl⟩ := h
  simp

theorem Derives.exists_visited (h : Derives r s strategy parent depth path fields names plans after)
    (hfields : fields.Distinct) (hnames : names.Gapless) :
    ∃ visited, Visited strategy path fields names plans after visited := by
  induction h with
  | exhausted => exact ⟨[], .rfl, .nil, trivial, (List.append_nil _).symm, hnames⟩
  | capped => exact ⟨[], .rfl, .nil, trivial, (List.append_nil _).symm, hnames⟩
  | @skipped parent name depth path stats nested rest names after later _ _ hlater ih =>
    obtain ⟨visited, hv⟩ := ih hfields.2.2 hnames
    refine ⟨visited, { hv with ordered := hv.ordered.imp_of_mem fun {p q} hp _ hpq => ?_ }⟩
    obtain ⟨key, hkey, hpath⟩ := hlater.exists_mem_names (hv.perm.mem_iff.mp hp)
    refine FieldMap.precedes_field_rest hfields.1 ⟨key, hkey, ?_⟩ hpq
    rw [drop_of_concat_isPrefix hpath]
    exact List.prefix_append [key] _
  | @promoted parent name typeName depth path stats nested rest names registered between after p below later
      _ _ hregister hbelow hlater ihbelow ihlater =>
    have hname : (names.register (strategy.generate parent name (depth + 1) p.isArray)).1 = typeName :=
      congrArg Prod.fst hregister
    have hnext : (names.register (strategy.generate parent name (depth + 1) p.isArray)).2 = registered :=
      congrArg Prod.snd hregister
    have hregistered : registered.names = names.names ++ [typeName] := by
      rw [← hname, ← hnext, NameRegistry.names_register]
    obtain ⟨inner, hinner⟩ := ihbelow hfields.2.1 (hnext ▸ hnames.register _)
    obtain ⟨others, hothers⟩ := ihlater hfields.2.2 hinner.gapless
    have hinside : ∀ q ∈ inner, q.path.drop path.length = name :: q.path.drop (path ++ [name]).length ∧
        q.path.drop (path ++ [name]).length ≠ [] := by
      intro q hq
      obtain ⟨key, -, hpath⟩ := hbelow.exists_mem_names (hinner.perm.mem_iff.mp hq)
      refine ⟨drop_of_concat_isPrefix ((List.prefix_append _ _).trans hpath), ?_⟩
      rw [drop_of_concat_isPrefix hpath]
      exact List.cons_ne_nil _ _
    have houtside : ∀ q ∈ others, ∃ key ∈ rest.names, [key] <+: q.path.drop path.length := by
      intro q hq
      obtain ⟨key, hkey, hpath⟩ := hlater.exists_mem_names (hothers.perm.mem_iff.mp hq)
      refine ⟨key, hkey, ?_⟩
      rw [drop_of_concat_isPrefix hpath]
      exact List.prefix_append [key] _
    refine ⟨⟨typeName, nested, parent, depth + 1, p.scope, path ++ [name], p.isArray⟩ :: (inner ++ others),
      ?_, ?_, ?_, ?_, hothers.gapless⟩
    · exact ((hinner.perm.append hothers.perm).cons _).trans List.perm_middle.symm
    · rw [List.pairwise_cons, List.pairwise_append, List.forall_mem_append]
      refine ⟨⟨fun q hq => ?_, fun q hq => ?_⟩, ?_, ?_, fun q hq q' hq' => ?_⟩
      · rw [List.drop_left, (hinside q hq).1]
        exact FieldMap.precedes_field_below (hinside q hq).2
      · rw [List.drop_left]
        exact FieldMap.precedes_field_later hfields.1 (houtside q hq)
      · refine hinner.ordered.imp_of_mem fun {q q'} hq hq' hqq' => ?_
        rw [(hinside q hq).1, (hinside q' hq').1]
        exact FieldMap.precedes_field_below hqq'
      · refine hothers.ordered.imp_of_mem fun {q q'} hq _ hqq' => ?_
        exact FieldMap.precedes_field_rest hfields.1 (houtside q hq) hqq'
      · rw [(hinside q hq).1]
        exact FieldMap.precedes_field_later hfields.1 (houtside q' hq')
    · have hrequest : (NestedPlan.mk typeName nested parent (depth + 1) p.scope (path ++ [name]) p.isArray).place.request
          strategy parent = strategy.generate parent name (depth + 1) p.isArray := by
        simp [PromotedPlace.request, NestedPlan.place]
      refine ⟨?_, answeredInTurn_append.mpr ⟨?_, ?_⟩⟩
      · rw [hrequest, ← hname]
        exact hnames.register_answers _
      · rw [← hregistered]
        exact hinner.answered
      · rw [← hregistered, ← hinner.names_eq]
        exact hothers.answered
    · rw [hothers.names_eq, hinner.names_eq, hregistered]
      simp

/-- The plans of the fields of a root type, when some names have been handed out before, are those of the two
passes.  The parent of a plan is the root or the plan that stands one step up.  A plan gets the name that is left
by those handed out before and by the plans that come before it in pre-order, which none does that stands below
the plan itself or at or below a later field. -/
theorem Settings.plans_inPreOrder (r : Rounding) (s : Settings) (strategy : NamingStrategy) {fields : FieldMap}
    (hfields : fields.Distinct) (rootName : String) (earlier : List String) :
    let known := NameRegistry.registerAll earlier .empty
    let plans := (s.plans r strategy rootName 0 [] fields known.2).1
    s.plans r strategy rootName 0 [] fields known.2 = s.plansInTwoPasses r strategy rootName fields known.2 ∧
      ∀ plan ∈ plans,
        ((plan.path.dropLast = [] ∧ plan.parent = rootName) ∨
          ∃ up ∈ plans, up.path = plan.path.dropLast ∧ up.name = plan.parent) ∧
        ∀ above key, plan.path = above ++ [key] →
          NameRegistry.Answers
              ({t | t ∈ known.1} ∪
                {t | ∃ other ∈ plans, fields.Precedes other.path plan.path ∧ other.name = t})
              (strategy.generate plan.parent key plan.depth plan.isArray) plan.name ∧
            ∀ other : NestedPlan, (plan.path <+: other.path ∨
                ∃ later, [key, later].Sublist (fields.descend above).names ∧ above ++ [later] <+: other.path) →
              ¬ fields.Precedes other.path plan.path := by
  intro known plans
  have hderives : Derives r s strategy rootName 0 [] fields known.2 plans _ := plans_derives rootName 0 [] fields known.2
  have hknown : known.2.names = known.1 := by
    rw [NameRegistry.names_registerAll, NameRegistry.names_empty, List.nil_append]
  refine ⟨plans_eq_plansInTwoPasses hfields rootName known.2, fun plan hplan => ⟨hderives.parent_eq hplan, ?_⟩⟩
  intro above key hpath
  constructor
  · obtain ⟨visited, hv⟩ := hderives.exists_visited hfields (NameRegistry.gapless_empty.registerAll earlier)
    have hanswers := hv.answered.answers hv.ordered (fun _ _ => FieldMap.Precedes.asymm hfields)
      (hv.perm.mem_iff.mpr hplan)
    simp only [List.length_nil, List.drop_zero, hv.perm.mem_iff, hknown] at hanswers
    have hrequest : plan.place.request strategy plan.parent =
        strategy.generate plan.parent key plan.depth plan.isArray := by
      simp [PromotedPlace.request, NestedPlan.place, hpath]
    rwa [hrequest] at hanswers
  · rintro other (hbelow | ⟨later, hkeys, hlater⟩)
    · exact FieldMap.not_precedes_of_prefix hbelow
    · rw [hpath]
      exact FieldMap.not_precedes_of_later hfields hkeys hlater

def Graph.boxInBox : Graph where
  nodes := #[
    .mapping [(.text "lid", .scalar (.text "oak"))],
    .mapping [(.text "box", .node 0)],
    .mapping [(.text "box", .node 1)]]

/-- The outer box is listed last and keeps the name that both ask for. -/
theorem Settings.plans_inPreOrder_boxInBox :
    let fields := (Analysis.ofDocuments .boxInBox [.node 2]).fields
    let names := (NameRegistry.registerAll ["Crate"] .empty).2
    fields.Distinct ∧
      ((Settings.standard.plans .exact .flat "Crate" 0 [] fields names).1.map fun plan =>
        (plan.path, plan.name, plan.parent)) =
          [(["box", "box"], "Box_2", "Box"), (["box"], "Box", "Crate")] ∧
      Settings.standard.plans .exact .flat "Crate" 0 [] fields names =
        Settings.standard.plansInTwoPasses .exact .flat "Crate" fields names := by
  intro fields names
  have hfields : fields.Distinct := Analysis.fields_distinct .boxInBox [.node 2]
  have hplans : ((Settings.standard.plans .exact .flat "Crate" 0 [] fields names).1.map fun plan =>
      (plan.path, plan.name, plan.parent)) =
        [(["box", "box"], "Box_2", "Box"), (["box"], "Box", "Crate")] := by
    decide +kernel
  exact ⟨hfields, hplans, (plans_inPreOrder .exact .standard .flat hfields "Crate" ["Crate"]).1⟩

end SchemaInference
