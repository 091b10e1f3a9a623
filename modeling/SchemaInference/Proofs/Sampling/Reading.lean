import SchemaInference.Proofs.Sampling.Recording

set_option autoImplicit false

namespace SchemaInference

variable {σ φ α β : Type}

def SamplingLimits.reachedBy (limits : SamplingLimits) (charge : Double) : Bool :=
  limits.maxCharge.any fun most => most.lt (.real charge) || most.eq (.real charge)

def FeedPage.cost (p : FeedPage) : Double :=
  p.spent.toOption.getD (.finite 0)

def chargeAfter (charge : Double) (pages : List FeedPage) : Double :=
  pages.foldl (fun c p => c.add .binary64 p.cost) charge

def rowsOf (pages : List FeedPage) : List Value :=
  pages.flatMap (·.rows)

theorem chargeAfter_append (charge : Double) (pages more : List FeedPage) :
    chargeAfter charge (pages ++ more) = chargeAfter (chargeAfter charge pages) more :=
  List.foldl_append

theorem rowsOf_append (pages more : List FeedPage) : rowsOf (pages ++ more) = rowsOf pages ++ rowsOf more :=
  List.flatMap_append

theorem rowsOf_cons (page : FeedPage) (pages : List FeedPage) : rowsOf (page :: pages) = page.rows ++ rowsOf pages :=
  List.flatMap_cons

/-- From one state of an attempt to another these pages are delivered, and so many documents are added to
those reported.  Whatever is delivered is paid for if the attempt has not failed by then. -/
structure SamplingAttempt.Reads (limits : SamplingLimits) (a : SamplingAttempt (σ × List FeedPage))
    (pages : List FeedPage) (added : Nat) (succeeds : Bool) (b : SamplingAttempt (σ × List FeedPage)) : Prop where
  kept : b.store.2 = a.store.2 ++ pages
  paid : succeeds = true → b.charge = chargeAfter a.charge pages
  below : ∀ k < pages.length, limits.reachedBy (chargeAfter a.charge (pages.take k)) = false
  reached : (a.overBudget = true → limits.reachedBy a.charge = true) → b.overBudget = true →
    limits.reachedBy b.charge = true
  sampled : b.sampled = a.sampled + added
  reports : ∃ new, b.progress = a.progress ++ new ∧ (new = [] → added = 0) ∧
    (∀ p ∈ new, p.sampled ≤ b.sampled) ∧ ∀ p, new.getLast? = some p → p.sampled = b.sampled

namespace SamplingAttempt.Reads

variable {limits : SamplingLimits} {a b c : SamplingAttempt (σ × List FeedPage)} {pages more : List FeedPage}
  {added plus : Nat} {succeeds : Bool}

theorem trans (h : a.Reads limits pages added true b) (h' : b.Reads limits more plus succeeds c) :
    a.Reads limits (pages ++ more) (added + plus) succeeds c where
  kept := by rw [h'.kept, h.kept, List.append_assoc]
  paid hs := by rw [h'.paid hs, h.paid rfl, chargeAfter_append]
  below := by
    intro k hk
    rw [List.length_append] at hk
    rw [List.take_append, chargeAfter_append]
    -- The second step counts on from the charge that the first one leaves.
    by_cases hfirst : k < pages.length
    · rw [Nat.sub_eq_zero_of_le (Nat.le_of_lt hfirst)]
      exact h.below k hfirst
    · rw [List.take_of_length_le (Nat.le_of_not_lt hfirst), ← h.paid rfl]
      exact h'.below (k - pages.length) (by omega)
  reached hstart := h'.reached (h.reached hstart)
  sampled := by rw [h'.sampled, h.sampled, Nat.add_assoc]
  reports := by
    obtain ⟨first, hfirst, hnone, hall, hlast⟩ := h.reports
    obtain ⟨second, hsecond, hnone', hall', hlast'⟩ := h'.reports
    have hsampled := h'.sampled
    refine ⟨first ++ second, by rw [hsecond, hfirst, List.append_assoc], ?_, ?_, ?_⟩
    · intro hnil
      obtain ⟨rfl, rfl⟩ := List.append_eq_nil_iff.mp hnil
      rw [hnone rfl, hnone' rfl]
    · intro p hp
      obtain hp | hp := List.mem_append.mp hp
      · have hle := hall p hp
        omega
      · exact hall' p hp
    · intro p hp
      cases second with
      | nil =>
        rw [List.append_nil] at hp
        have hplus := hnone' rfl
        have heq := hlast p hp
        omega
      | cons report second =>
        exact hlast' p (by simpa [List.getLast?_append] using hp)

theorem quiet (hstore : b.store.2 = a.store.2) (hcharge : b.charge = a.charge)
    (hreached : b.overBudget = true → a.overBudget = true ∨ limits.reachedBy a.charge = true)
    (hsampled : b.sampled = a.sampled) (hprogress : b.progress = a.progress) :
    a.Reads limits [] 0 succeeds b where
  kept := by rw [hstore, List.append_nil]
  paid _ := hcharge
  below := by simp
  reached hstart hover := by
    rw [hcharge]
    exact (hreached hover).elim hstart id
  sampled := hsampled
  reports := ⟨[], by rw [hprogress, List.append_nil], by simp, by simp, by simp⟩

theorem one {page : FeedPage} (hbelow : limits.reachedBy a.charge = false) (hopen : b.overBudget = false)
    (hstore : b.store.2 = a.store.2 ++ [page])
    (hcharge : succeeds = true → b.charge = a.charge.add .binary64 page.cost)
    (hsampled : b.sampled = a.sampled) (hprogress : b.progress = a.progress) :
    a.Reads limits [page] 0 succeeds b where
  kept := hstore
  paid := hcharge
  below k hk := by
    obtain rfl : k = 0 := Nat.lt_one_iff.mp hk
    exact hbelow
  reached _ hover := by simp [hopen] at hover
  sampled := hsampled
  reports := ⟨[], by rw [hprogress, List.append_nil], by simp, by simp, by simp⟩

end SamplingAttempt.Reads

namespace Sampling

/-- From any state the step reads some pages and reports some documents, at most so many; if it succeeds,
they and what it yields are related.  Only a step that `asks` chance changes what chance has done, and not
if it fails. -/
def ReadsTo (limits : SamplingLimits) (most : Nat) (asks : Bool) (m : Sampling (σ × List FeedPage) α)
    (Yields : List FeedPage → Nat → α → Prop) : Prop :=
  ∀ a, ((asks = true → (m.run a).1.isOk = false) → (m.run a).2.shuffled = a.shuffled) ∧
    ∃ pages added, added ≤ most ∧ a.Reads limits pages added (m.run a).1.isOk (m.run a).2 ∧
      ∀ x, (m.run a).1 = .ok x → Yields pages added x

namespace ReadsTo

variable {limits : SamplingLimits} {most few : Nat} {asks : Bool} {m d : Sampling (σ × List FeedPage) α}
  {f : α → Sampling (σ × List FeedPage) β} {Yields : List FeedPage → Nat → α → Prop}
  {Then : List FeedPage → Nat → β → Prop}

theorem pure {x : α} (h : Yields [] 0 x) : ReadsTo (σ := σ) limits most asks (pure x) Yields := by
  intro a
  refine ⟨fun _ => rfl, [], 0, Nat.zero_le _, .quiet rfl rfl .inl rfl rfl, ?_⟩
  rintro _ ⟨⟩
  exact h

theorem bind (h : ReadsTo limits few false m Yields) (hfew : few ≤ most)
    (hnext : ∀ pages added x, added ≤ few → Yields pages added x →
      ReadsTo limits (most - added) asks (f x) fun more plus y => Then (pages ++ more) (added + plus) y) :
    ReadsTo limits most asks (m >>= f) Then := by
  intro a
  obtain ⟨hshuffled, pages, added, hadded, hreads, hyields⟩ := h a
  rw [Steps.run_bind]
  generalize m.run a = result at hshuffled hreads hyields
  obtain ⟨result, b⟩ := result
  cases result with
  | error e => exact ⟨fun _ => hshuffled (by simp), pages, added, Nat.le_trans hadded hfew, hreads, by simp⟩
  | ok x =>
    obtain ⟨hshuffled', more, plus, hplus, hreads', hthen⟩ := hnext pages added x hadded (hyields x rfl) b
    exact ⟨fun hasks => (hshuffled' hasks).trans (hshuffled (by simp)), pages ++ more, added + plus, by omega,
      hreads.trans hreads', hthen⟩

theorem mono {Weaker : List FeedPage → Nat → α → Prop} (h : ReadsTo limits few asks m Yields) (hfew : few ≤ most)
    (himp : ∀ pages added x, added ≤ few → Yields pages added x → Weaker pages added x) :
    ReadsTo limits most asks m Weaker := by
  intro a
  obtain ⟨hshuffled, pages, added, hadded, hreads, hyields⟩ := h a
  exact ⟨hshuffled, pages, added, Nat.le_trans hadded hfew, hreads, fun x hx => himp _ _ _ hadded (hyields x hx)⟩

theorem asking (h : ReadsTo limits most false m Yields) : ReadsTo limits most true m Yields :=
  fun a => ⟨fun _ => (h a).1 (by simp), (h a).2⟩

theorem quiet_bind {P : α → Prop} (h : ReadsTo limits 0 false m fun pages _ x => pages = [] ∧ P x)
    (hnext : ∀ x, P x → ReadsTo limits most asks (f x) Then) : ReadsTo limits most asks (m >>= f) Then := by
  refine h.bind (Nat.zero_le _) fun pages added x hadded hx => ?_
  obtain ⟨rfl, hx⟩ := hx
  obtain rfl := Nat.le_zero.mp hadded
  refine (hnext x hx).mono (Nat.le_refl _) fun more plus y _ hy => ?_
  rwa [List.nil_append, Nat.zero_add]

theorem get_bind {f : SamplingAttempt (σ × List FeedPage) → Sampling (σ × List FeedPage) β}
    (h : ∀ a, ReadsTo limits most asks (f a) Then) : ReadsTo limits most asks (get >>= f) Then :=
  fun a => h a a

theorem ite {c : Prop} [Decidable c] (h : c → ReadsTo limits most asks m Yields)
    (h' : ¬ c → ReadsTo limits most asks d Yields) : ReadsTo limits most asks (if c then m else d) Yields := by
  split
  · exact h ‹_›
  · exact h' ‹_›

end ReadsTo

variable (store : Store σ φ) (limits : SamplingLimits) {most : Nat} {asks : Bool}

theorem isOverBudget_run (a : SamplingAttempt σ) : (isOverBudget limits).run a =
    (.ok (a.overBudget || limits.reachedBy a.charge),
      { a with overBudget := a.overBudget || limits.reachedBy a.charge }) :=
  rfl

theorem isOverBudget_readsTo :
    ReadsTo (σ := σ) limits 0 asks (isOverBudget limits) fun pages _ _ => pages = [] ∧ True := by
  intro a
  refine ⟨fun _ => rfl, [], 0, Nat.le_refl _, .quiet rfl rfl ?_ rfl rfl, by simp⟩
  intro hover
  exact Bool.or_eq_true_iff.mp hover

theorem note_readsTo (text : String) :
    ReadsTo (σ := σ) limits 0 asks (note text) fun pages _ _ => pages = [] ∧ True :=
  fun _ => ⟨fun _ => rfl, [], 0, Nat.le_refl _, .quiet rfl rfl .inl rfl rfl, by simp⟩

theorem openFeed_readsTo (q : SampleQuery) :
    ReadsTo limits 0 asks (openFeed store.recorded q) fun pages _ _ => pages = [] ∧ True :=
  fun _ => ⟨fun _ => rfl, [], 0, Nat.le_refl _, .quiet rfl rfl .inl rfl rfl, by simp⟩

theorem report_readsTo {added : Nat} (h : added ≤ most) :
    ReadsTo (σ := σ) limits most asks (report limits added) fun pages plus _ => pages = [] ∧ plus = added := by
  intro a
  refine ⟨fun _ => rfl, [], added, h, ?_, by simp⟩
  exact
    { kept := (List.append_nil _).symm
      paid := fun _ => rfl
      below := by simp
      reached := id
      sampled := rfl
      reports := ⟨[⟨a.sampled + added, limits.target, a.charge⟩], rfl, by simp,
        List.forall_mem_singleton.mpr (Nat.le_refl _), by rintro p ⟨⟩; rfl⟩ }

theorem fetchPage_readsTo {feed : φ} {d : Sampling (σ × List FeedPage) α}
    {f : List Value × φ → Sampling (σ × List FeedPage) α} {Yields : List FeedPage → Nat → α → Prop}
    (hstop : ReadsTo limits most asks d Yields)
    (hnext : ∀ page feed,
      ReadsTo limits most asks (f (page.rows, feed)) fun more plus x => Yields (page :: more) plus x) :
    ReadsTo limits most asks
      (isOverBudget limits >>= fun isOver => if isOver then d else fetchPage store.recorded feed >>= f) Yields := by
  intro a
  rw [Steps.run_bind, isOverBudget_run]
  dsimp only
  cases hover : a.overBudget || limits.reachedBy a.charge with
  | true =>
    obtain ⟨hshuffled, pages, added, hadded, hreads, hyields⟩ := hstop { a with overBudget := true }
    have hquiet : a.Reads limits [] 0 true { a with overBudget := true } :=
      .quiet rfl rfl (fun _ => Bool.or_eq_true_iff.mp hover) rfl rfl
    refine ⟨hshuffled, pages, added, hadded, ?_, hyields⟩
    simpa using hquiet.trans hreads
  | false =>
    obtain ⟨-, hbelow⟩ := Bool.or_eq_false_iff.mp hover
    simp only [Bool.false_eq_true, ↓reduceIte]
    rw [Steps.run_bind, fetchPage_run]
    simp only [Store.recorded]
    obtain ⟨fetched, rest, s⟩ := store.fetch feed a.store.1
    cases fetched with
    | error e => exact ⟨fun _ => rfl, [], 0, Nat.zero_le _, .quiet rfl rfl (by simp) rfl rfl, by simp⟩
    | ok page =>
      cases hspent : page.spent with
      | error e =>
        simp only [hspent]
        have hfailed : (Except.error e : Except Raised α).isOk ≠ true := Bool.false_ne_true
        exact ⟨fun _ => trivial, [page], 0, Nat.zero_le _, .one hbelow rfl rfl (absurd · hfailed) rfl rfl, by simp⟩
      | ok spent =>
        have hcost : page.cost = spent := by simp [FeedPage.cost, hspent, Except.toOption]
        simp only [hspent]
        obtain ⟨hshuffled, more, added, hadded, hreads, hyields⟩ := hnext page rest
          { a with store := (s, a.store.2 ++ [page]), charge := a.charge.add .binary64 spent, overBudget := false }
        refine ⟨hshuffled, page :: more, added, hadded, ?_, hyields⟩
        have hone : a.Reads limits [page] 0 true
            { a with store := (s, a.store.2 ++ [page]), charge := a.charge.add .binary64 spent, overBudget := false } :=
          .one hbelow rfl rfl (fun _ => by rw [hcost]) rfl rfl
        simpa using hone.trans hreads

end Sampling

end SchemaInference
