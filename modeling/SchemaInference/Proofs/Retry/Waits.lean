import SchemaInference.Proofs.Retry.Bounds
import SchemaInference.Proofs.Retry.Reference

set_option autoImplicit false

namespace SchemaInference

variable {σ α : Type}

/-- A sum over the waits that a host was asked for; nothing else changes it. -/
structure RetryHost.Tallies (h : RetryHost σ) (waited : σ → Int) : Prop where
  consult : ∀ f n s, waited (h.consult f n s).2 = waited s
  announce : ∀ f n delay s, waited (h.announce f n delay s) = waited s
  chance : ∀ s, waited (h.chance s).2 = waited s
  wait : ∀ ms s, waited (h.wait ms s).2 = waited s + ms
  note : ∀ n s, waited (h.note n s) = waited s

namespace RetryPolicy

variable {r : Rounding} {p : RetryPolicy} {h : RetryHost σ} {waited : σ → Int} {cap : Rat}
  (htallies : h.Tallies waited) (hcap : 0 ≤ cap)
  (hdelay : ∀ f attempt s n, (p.nextDelay r h f attempt s).1 = .ok n → (n : Rat) ≤ cap)

include htallies

theorem waited_nextDelay (f : Failure) (attempt : Nat) (s : σ) :
    waited (p.nextDelay r h f attempt s).2 = waited s := by
  unfold nextDelay
  split
  · exact htallies.chance s
  · rfl

theorem waited_consultCaller (f : Failure) (attempt : Nat) (s : σ) :
    waited (p.consultCaller h f attempt s).2 = waited s := by
  unfold consultCaller
  split
  · exact htallies.consult f attempt s
  · rfl

include hcap hdelay

theorem waited_prepareRetry (op : OperationName) (f : Failure) (attempt : Nat) (s : σ) :
    (waited (p.prepareRetry r h op f attempt s).2 : Rat) ≤ waited s + cap := by
  have hnext := waited_nextDelay (r := r) (p := p) htallies f attempt s
  have hwithin := hdelay f attempt s
  unfold prepareRetry
  split
  next s' heq =>
    rw [heq] at hnext
    rw [hnext]
    exact le_add_of_nonneg_right hcap
  next delay s' heq =>
    rw [heq] at hnext hwithin
    have hends : waited (if p.tellsCaller then h.announce f attempt delay (h.note (retryNote op attempt f delay) s')
        else h.note (retryNote op attempt f delay) s') = waited s := by
      split
      · rw [htallies.announce, htallies.note, hnext]
      · rw [htallies.note, hnext]
    dsimp only
    rw [htallies.wait, hends, Int.cast_add]
    exact add_le_add_right (hwithin delay rfl) _

theorem waited_afterFailure (op : OperationName) (left attempt : Nat) (spent : Double) (f : Failure)
    (causes : List Fault) (s : σ) : (waited (p.afterFailure r h op left attempt spent f causes s).2 : Rat) ≤
      waited s + if left = 0 then 0 else cap := by
  have hasked := waited_consultCaller (p := p) htallies f attempt s
  have hstay : (waited s : Rat) ≤ waited s + if left = 0 then 0 else cap := by
    refine le_add_of_nonneg_right ?_
    split
    · exact le_rfl
    · exact hcap
  unfold afterFailure
  split
  · exact hstay
  · dsimp only
    split
    · rwa [hasked]
    · split
      · rw [htallies.note, hasked, add_zero]
      · rename_i hleft
        rw [if_neg hleft] at hstay
        split
        · rwa [hasked]
        · rwa [htallies.note, hasked]
        · rw [← hasked]
          exact waited_prepareRetry htallies hcap hdelay op f attempt _

/-- With so many retries left a run waits for at most as many greatest delays. -/
theorem waited_runFrom_le (op : OperationName) {call : σ → Except Raised α × σ}
    (hcall : ∀ s, waited (call s).2 = waited s) (left attempt : Nat) (spent : Double) (s : σ) :
    (waited (p.runFrom r h op call left attempt spent s).2 : Rat) ≤ waited s + left * cap := by
  have hcalled {s s' : σ} {result : Except Raised α} (heq : call s = (result, s')) : waited s = waited s' := by
    rw [← hcall s, heq]
  have hwaited {left attempt : Nat} {spent : Double} {f : Failure} {causes : List Fault} {s s' : σ}
      {result : Except Raised Unit}
      (hafter : p.afterFailure r h op left attempt spent f causes s = (result, s')) :
      (waited s' : Rat) ≤ waited s + if left = 0 then 0 else cap := by
    have hstep := waited_afterFailure htallies hcap hdelay op left attempt spent f causes s
    rwa [hafter] at hstep
  have hleft (left : Nat) : (0 : Rat) ≤ left * cap := mul_nonneg (Nat.cast_nonneg _) hcap
  fun_induction RetryPolicy.runFrom r p h op call left attempt spent s with
  | case1 left _ _ s => exact le_add_of_nonneg_right (hleft left)
  | case2 left _ _ s _ _ _ heq | case3 left _ _ s _ _ _ heq | case4 left _ _ s _ _ _ heq =>
    rw [hcalled heq]
    exact le_add_of_nonneg_right (hleft left)
  | case5 left _ _ s _ e after heq _ f causes spent _ stop ended hafter =>
    rw [hafter, hcalled heq]
    refine (hwaited hafter).trans (add_le_add_right ?_ _)
    split
    · exact hleft left
    · rename_i hne
      exact le_mul_of_one_le_left hcap (Nat.one_le_cast.mpr (Nat.one_le_iff_ne_zero.mpr hne))
  | case6 _ _ s _ e after heq _ f causes spent _ ended left hafter ih =>
    rw [hafter, hcalled heq]
    calc (waited (p.runFrom r h op call left _ spent ended).2 : Rat) ≤ waited ended + left * cap := ih
      _ ≤ waited after + cap + left * cap := add_le_add_left (hwaited hafter) _
      _ = waited after + (left + 1 : Nat) * cap := by push_cast; ring
  | case7 _ _ s _ e after heq _ f causes spent _ ended hafter =>
    rw [hafter, hcalled heq]
    simpa using hwaited hafter

end RetryPolicy

namespace RetryCourse

variable (c : RetryCourse α)

theorem host_tallies : c.host.Tallies fun acts => (waitsIn acts).sum where
  consult _ _ _ := by simp [host, waitsIn, RetryAct.wait?]
  announce _ _ _ _ := by simp [host, waitsIn, RetryAct.wait?]
  chance _ := rfl
  wait _ _ := by simp [host, waitsIn, RetryAct.wait?]
  note _ _ := rfl

theorem waitsIn_call (acts : List RetryAct) : waitsIn (c.call acts).2 = waitsIn acts := by
  simp [call, waitsIn, RetryAct.wait?]

theorem waits_sum_le (p : RetryPolicy) {j : Rat} (hj : (Number.real p.jitter).IsShare j)
    (hchance : ∀ i, ∃ x, (c.chance i).IsShare x) (op : OperationName) :
    ((waitsIn (p.runBy .exact c.host op c.call []).2).sum : Rat) ≤
      p.maxRetries * (p.maxDelayMs * (1 + j)) := by
  have hcap : (0 : Rat) ≤ p.maxDelayMs * (1 + j) :=
    mul_nonneg (Nat.cast_nonneg _) (add_nonneg zero_le_one hj.nonneg)
  have hdelay : ∀ f attempt acts n, (p.nextDelay .exact c.host f attempt acts).1 = .ok n →
      (n : Rat) ≤ p.maxDelayMs * (1 + j) := by
    intro f attempt acts n hn
    have hdrawn : ∃ chance x, Number.IsShare chance x ∧
        (p.nextDelay .exact c.host f attempt acts).1 =
          p.delay .exact attempt f.metadata.retryAfterMs chance := by
      unfold RetryPolicy.nextDelay
      split
      · obtain ⟨x, hx⟩ := hchance (callsIn acts - 1)
        exact ⟨_, x, hx, rfl⟩
      · exact ⟨.whole 0, 0, ⟨rfl, le_rfl, zero_le_one⟩, rfl⟩
    obtain ⟨chance, x, hx, heq⟩ := hdrawn
    obtain ⟨m, hm, -, hle⟩ := p.exists_delay_le hj attempt f.metadata.retryAfterMs hx
    cases hn.symm.trans (heq.trans hm)
    exact hle
  have hrun := RetryPolicy.waited_runFrom_le c.host_tallies hcap hdelay op
    (fun acts => congrArg List.sum (c.waitsIn_call acts)) p.maxRetries 0 (.finite 0) []
  have hnone : (waitsIn []).sum = 0 := rfl
  rw [hnone, Int.cast_zero, zero_add] at hrun
  exact hrun

end RetryCourse

/-- Without rounding, a delay that is asked for is waited for up to the greatest delay of the policy; any other
lies within the share of the policy around the planned delay, which never falls from one attempt to the next;
and the waits of a run add up to at most as many greatest delays, with that share, as the policy has retries. -/
theorem RetryPolicy.delay_bounded (p : RetryPolicy) (j : Rat) (hj : (Number.real p.jitter).IsShare j) :
    (∀ (attempt : Nat) (retryAfter : Option Number) (chance : Number) (x : Rat), chance.IsShare x →
      (∀ ms q, p.respectRetryAfter = true → retryAfter = some ms → ms.Denotes q → 0 < q →
        p.delay .exact attempt retryAfter chance = .ok ⌊min q p.maxDelayMs⌋ ∧
          ∀ i : Int, q = i → p.delay .exact attempt retryAfter chance = .ok (min i p.maxDelayMs)) ∧
      ((p.respectRetryAfter = true → ∀ ms, retryAfter = some ms → Number.lt (.whole 0) ms = false) →
        ∃ n : Int, p.delay .exact attempt retryAfter chance = .ok n ∧
          ⌊p.plannedDelay attempt * (1 - j)⌋ ≤ n ∧ n ≤ ⌊p.plannedDelay attempt * (1 + j)⌋ ∧
          0 ≤ n ∧ (n : Rat) ≤ p.maxDelayMs * (1 + j) ∧ (j = 0 → n = p.plannedDelay attempt))) ∧
    Monotone p.plannedDelay ∧
    ∀ (α : Type) (c : RetryCourse α) (op : OperationName),
      (∀ i, ∃ x, (c.chance i).IsShare x) →
      ((waitsIn (p.runBy .exact c.host op c.call []).2).sum : Rat) ≤
        p.maxRetries * p.maxDelayMs * (1 + j) := by
  refine ⟨fun attempt retryAfter chance x hx => ⟨?_, ?_⟩, p.plannedDelay_mono, ?_⟩
  · intro ms q hrespect hafter hms hq
    have hpos : Number.lt (.whole 0) ms = true := by
      rwa [(Number.denotes_whole 0).lt_iff hms, Int.cast_zero]
    have hdelay := p.delay_of_requested (p.requestedDelay?_eq_some_iff.mpr ⟨hrespect, hafter, hpos⟩) hms .exact
      attempt chance
    refine ⟨hdelay, ?_⟩
    rintro i rfl
    rw [hdelay, ← Int.cast_natCast, ← Int.cast_min, Int.floor_intCast]
  · intro hnot
    have hrequested : p.requestedDelay? retryAfter = none := by
      refine Option.eq_none_iff_forall_ne_some.mpr fun ms hms => ?_
      obtain ⟨hrespect, hafter, hpos⟩ := p.requestedDelay?_eq_some_iff.mp hms
      rw [hnot hrespect ms hafter] at hpos
      cases hpos
    obtain ⟨n, hn, hlow, hhigh, hzero⟩ := p.delay_of_planned hj hrequested attempt hx
    obtain ⟨m, hm, hnonneg, hle⟩ := p.exists_delay_le hj attempt retryAfter hx
    cases hn.symm.trans hm
    exact ⟨n, hn, hlow, hhigh, hnonneg, hle, hzero⟩
  · intro α c op hchance
    rw [mul_assoc]
    exact c.waits_sum_le p hj hchance op

def RetryPolicy.swaying : RetryPolicy :=
  { RetryCourse.insistentPolicy with jitter := .finite (1 / 2) }

theorem RetryPolicy.delay_bounded_slowStart :
    let waits := waitsIn (swaying.runBy .exact RetryCourse.slowStart.host ⟨"store", "read"⟩
      RetryCourse.slowStart.call []).2
    (Number.real swaying.jitter).IsShare (1 / 2) ∧ (Number.whole 1).IsShare 1 ∧ waits = [50, 50] ∧
      (waits.sum : Rat) ≤ 3 * 30000 * (1 + 1 / 2) ∧
      swaying.delay .exact 2 (some (.whole 70)) (.whole 1) = .ok 70 ∧
      ∃ n : Int, swaying.delay .exact 2 none (.whole 1) = .ok n ∧ 200 ≤ n ∧ n ≤ 600 := by
  intro waits
  have hj : (Number.real swaying.jitter).IsShare (1 / 2) := ⟨rfl, by norm_num, by norm_num⟩
  have hone : (Number.whole 1).IsShare 1 := ⟨rfl, by norm_num, by norm_num⟩
  have hwaits : waits = [50, 50] := by decide +kernel
  obtain ⟨hdelay, -, hrun⟩ := swaying.delay_bounded (1 / 2) hj
  have hsum := hrun Nat RetryCourse.slowStart ⟨"store", "read"⟩ fun _ => ⟨0, rfl, le_rfl, zero_le_one⟩
  have hasked := (hdelay 2 (some (.whole 70)) (.whole 1) 1 hone).1 (.whole 70) 70 rfl rfl rfl (by norm_num)
  obtain ⟨n, hn, hlow, hhigh, -⟩ := (hdelay 2 none (.whole 1) 1 hone).2 fun _ _ hnone => by cases hnone
  have hplanned : swaying.plannedDelay 2 = 400 := rfl
  rw [hplanned] at hlow hhigh
  refine ⟨hj, hone, hwaits, hsum, hasked.2 70 (by norm_num), n, hn, ?_, ?_⟩
  · exact (by norm_num : (200 : Int) ≤ ⌊((400 : Nat) : Rat) * (1 - 1 / 2)⌋).trans hlow
  · exact hhigh.trans (by norm_num)

end SchemaInference
