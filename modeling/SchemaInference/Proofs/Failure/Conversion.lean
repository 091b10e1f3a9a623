import SchemaInference.Proofs.Failure.Outcomes
import SchemaInference.Proofs.Moment.Calendar
import SchemaInference.Proofs.Number.Numeral
import SchemaInference.Proofs.Number.Range
import SchemaInference.Retry.Run
import Mathlib.Data.List.TakeWhile

set_option autoImplicit false

namespace SchemaInference

def Converts {α : Type} (x : Except ConversionError α) : Prop :=
  ∃ a, x = .ok a

section Converts

variable {α β : Type} {x : Except ConversionError α}

instance : Decidable (Converts x) :=
  match x with
  | .ok a => isTrue ⟨a, rfl⟩
  | .error _ => isFalse fun ⟨_, h⟩ => nomatch h

@[simp] theorem converts_ok (a : α) : Converts (.ok a : Except ConversionError α) :=
  ⟨a, rfl⟩

@[simp] theorem not_converts_error (e : ConversionError) : ¬Converts (.error e : Except ConversionError α) :=
  fun ⟨_, h⟩ => nomatch h

@[simp] theorem converts_map (f : α → β) : Converts (x.map f) ↔ Converts x := by
  cases x <;> simp [Except.map]

theorem converts_bind {f : α → Except ConversionError β} :
    Converts (x >>= f) ↔ ∃ a, x = .ok a ∧ Converts (f a) := by
  cases x <;> simp [bind, Except.bind]

theorem converts_mapM {γ : Type} {f : γ → Except ConversionError β} {items : List γ} :
    Converts (items.mapM f) ↔ ∀ item ∈ items, Converts (f item) := by
  induction items with
  | nil => simp [pure, Except.pure]
  | cons first rest ih =>
    simp only [List.mapM_cons, converts_bind, List.forall_mem_cons, ← ih]
    constructor
    · rintro ⟨a, ha, as, has, -⟩
      exact ⟨⟨a, ha⟩, as, has⟩
    · rintro ⟨⟨a, ha⟩, as, has⟩
      exact ⟨a, ha, as, has, converts_ok _⟩

end Converts

section Sources

variable {β γ : Type} {read : β → Except ConversionError (Option γ)}

def firstFound (read : β → Except ConversionError (Option γ)) : List β → Except ConversionError (Option γ)
  | [] => .ok none
  | source :: rest => do
    match ← read source with
    | some c => .ok (some c)
    | none => firstFound read rest

/-- Sources that are read, those before them saying nothing. -/
inductive Reached (read : β → Except ConversionError (Option γ)) : List β → β → Prop
  | first (source : β) (rest : List β) : Reached read (source :: rest) source
  | later {source found : β} {rest : List β} (hnone : read source = .ok none)
      (h : Reached read rest found) : Reached read (source :: rest) found

theorem reached_cons {source found : β} {rest : List β} :
    Reached read (source :: rest) found ↔ found = source ∨ read source = .ok none ∧ Reached read rest found := by
  constructor
  · rintro (_ | ⟨hnone, h⟩)
    · exact .inl rfl
    · exact .inr ⟨hnone, h⟩
  · rintro (rfl | ⟨hnone, h⟩)
    · exact .first _ _
    · exact .later hnone h

theorem converts_firstFound {sources : List β} :
    Converts (firstFound read sources) ↔ ∀ source, Reached read sources source → Converts (read source) := by
  induction sources with
  | nil => exact ⟨fun _ _ h => (nomatch h), fun _ => converts_ok none⟩
  | cons first rest ih =>
    simp only [firstFound, converts_bind, reached_cons]
    constructor
    · rintro ⟨found, hfirst, hrest⟩ source (rfl | ⟨hnone, hreached⟩)
      · exact ⟨found, hfirst⟩
      · obtain rfl : none = found := Except.ok.inj (hnone.symm.trans hfirst)
        exact ih.mp hrest source hreached
    · intro h
      obtain ⟨found, hfirst⟩ := h first (.inl rfl)
      refine ⟨found, hfirst, ?_⟩
      cases found with
      | some c => exact converts_ok _
      | none => exact ih.mpr fun source hreached => h source (.inr ⟨hfirst, hreached⟩)

end Sources

theorem converts_ofInt {i : Int} : Converts (Double.ofInt .binary64 i) ↔ Fits i :=
  exists_ofInt_iff i

namespace Value

def HasNumber : Value → Prop
  | whole i => Fits i
  | object _ _ _ amount _ => Converts amount
  | _ => True

theorem converts_finiteNumber? {v : Value} : Converts v.finiteNumber? ↔ v.HasNumber := by
  cases v with
  | scalar s =>
    rcases s with _ | _ | (i | x) | _ | _ <;>
      simp [finiteNumber?, HasNumber, Number.toDouble, converts_ofInt]
  | object typeName classes shown amount attributes => simp [finiteNumber?, HasNumber]
  | list items | tuple items | mapping entries => simp [finiteNumber?, HasNumber]

theorem converts_finiteNumberOf? {found : Option Value} :
    Converts (finiteNumberOf? found) ↔ ∀ v, found = some v → v.HasNumber := by
  cases found with
  | none => simp [finiteNumberOf?]
  | some v => simp [finiteNumberOf?, converts_finiteNumber?]

theorem isFinite_of_finiteNumber? {v : Value} {x : Double} (h : v.finiteNumber? = .ok (some x)) :
    x.isFinite = true := by
  unfold finiteNumber? at h
  split at h
  · rename_i n
    cases hn : n.toDouble .binary64 with
    | error e => simp [hn, Except.map] at h
    | ok y =>
      simp only [hn, Except.map, Except.ok.injEq, Option.ite_none_right_eq_some, Option.some.injEq] at h
      exact h.2 ▸ h.1
  · exact (Option.filter_eq_some_iff.mp (Except.ok.inj h)).2
  · rename_i amount _
    cases amount with
    | error e => cases h
    | ok y => exact (Option.filter_eq_some_iff.mp (Except.ok.inj h)).2
  · cases h

theorem converts_truncate {x : Double} : Converts x.truncate ↔ x.isFinite = true := by
  cases x <;> simp [Double.truncate, Double.isFinite, Double.toRat?]

theorem converts_truncate_of_finiteNumberOf? {found : Option Value} {x : Double}
    (h : finiteNumberOf? found = .ok (some x)) : Converts x.truncate := by
  cases found with
  | none => cases h
  | some v => exact converts_truncate.mpr (isFinite_of_finiteNumber? h)

def HasText : Value → Prop
  | object _ _ shown _ _ => Converts shown
  | v => v.isWritable = true

theorem converts_written {v : Value} : Converts v.written ↔ v.HasText := by
  have hwritable {v : Value} {text : String} : Converts (v.ifWritable text) ↔ v.isWritable = true := by
    unfold ifWritable
    split <;> simp_all
  cases v with
  | object typeName classes shown amount attributes => rfl
  | scalar s => exact hwritable
  | list items | tuple items | mapping entries => exact hwritable

def HasNames (v : Value) : Prop :=
  ∀ entries, v.headers? = some entries → ∀ entry ∈ entries, entry.1.HasText

theorem converts_header? {v : Value} {names : List String} : Converts (v.header? names) ↔ v.HasNames := by
  unfold header? HasNames
  cases v.headers? with
  | none => simp
  | some entries => simp [loweredHeaders, converts_mapM, converts_written]

end Value

theorem MailDate.isPlaced_of_read {s : String} {date : DateTime} (h : read s = .ok date) :
    date.isPlaced = true := by
  have hplace {clock : ClockTime} {offset : Int} (h : place clock offset = .ok date) : date.isPlaced = true := by
    simp only [place, bind_eq_ok_iff] at h
    obtain ⟨_, hoffset, _, -, h⟩ := h
    have hdate : DateTime.ofClock? clock (some offset) = some date := by
      cases hclock : DateTime.ofClock? clock (some offset) <;> simp_all
    have hlt : offset.natAbs < 86400 := by
      unfold checkOffset at hoffset
      grind
    unfold DateTime.ofClock? at hdate
    split at hdate
    · cases hdate
      simpa [DateTime.isPlaced] using hlt
    · cases hdate
  unfold read at h
  dsimp only at h
  split at h
  · exact hplace h
  · cases h

/-- A text is a date whose time from now can be had, or no date for either reader: what is written as headers write
dates counts with numbers that a calendar counts with; of any other text, a date found in it is of a zone less than a
day away, and an error of its reader is about values or sizes. -/
structure Almanac.Settles (a : Almanac) (s : String) : Prop where
  mail : ∀ message, MailDate.read s ≠ .error (.tooLarge message)
  placed : MailDate.read s = .error .refused → ∀ date, a.freeDate s = .ok date → date.isPlaced = true
  caught : MailDate.read s = .error .refused → ∀ e, a.freeDate s = .error e →
    e.isA .value = true ∨ e.isA .overflow = true

namespace RetryAfter

theorem converts_freeDate? {a : Almanac} {s : String} : Converts (freeDate? a s) ↔
    ∀ e, a.freeDate s = .error e → e.isA .value = true ∨ e.isA .overflow = true := by
  unfold freeDate?
  cases a.freeDate s with
  | ok date => simp
  | error e => by_cases hcaught : (e.isA .value || e.isA .overflow) = true <;> simp_all

theorem converts_millisecondsUntil {a : Almanac} (hpresent : a.present.InCalendar) {date : DateTime} :
    Converts (millisecondsUntil a date) ↔ date.isPlaced = true := by
  unfold millisecondsUntil
  by_cases hplaced : date.isPlaced = true
  · rw [if_pos hplaced]
    exact iff_of_true (Moment.exists_millisecondsUntil hpresent ⟨date, hplaced, rfl⟩) hplaced
  · simp [hplaced]

theorem converts_untilDate? {a : Almanac} (hpresent : a.present.InCalendar) {s : String} :
    Converts (untilDate? a s) ↔ a.Settles s := by
  rw [untilDate?, date?, converts_bind]
  rcases hread : MailDate.read s with (_ | message) | date
  · have hsettled : a.Settles s ↔ (∀ date, a.freeDate s = .ok date → date.isPlaced = true) ∧
        ∀ e, a.freeDate s = .error e → e.isA .value = true ∨ e.isA .overflow = true :=
      ⟨fun h => ⟨h.placed hread, h.caught hread⟩, fun h => ⟨by simp [hread], fun _ => h.1, fun _ => h.2⟩⟩
    rw [hsettled, ← converts_freeDate?]
    dsimp only
    unfold freeDate?
    cases a.freeDate s with
    | ok date => simp [converts_millisecondsUntil hpresent]
    | error e => by_cases hcaught : (e.isA .value || e.isA .overflow) = true <;> simp [hcaught]
  · have hsettled : ¬a.Settles s := fun h => h.mail message hread
    simp [hsettled]
  · have hsettled : a.Settles s := ⟨by simp [hread], by simp [hread], by simp [hread]⟩
    simp [hsettled, converts_millisecondsUntil hpresent, MailDate.isPlaced_of_read hread]

/-- A delay that a header asks for can be had: a number of seconds that is in the range of doubles, in milliseconds
too, or the time until a date. -/
structure HasDelay (a : Almanac) (v : Value) : Prop where
  number : v.HasNumber
  product : ∀ seconds, v.finiteNumber? = .ok (some seconds) →
    (Double.mul .binary64 seconds (.finite 1000)).isFinite = true
  date : v.finiteNumber? = .ok none → ∀ text, v = .text text → Text.trim text ≠ "" → a.Settles text

theorem converts_milliseconds? {a : Almanac} (hpresent : a.present.InCalendar) {v : Value} :
    Converts (milliseconds? a v) ↔ HasDelay a v := by
  unfold milliseconds?
  rw [converts_bind]
  constructor
  · rintro ⟨found, hfound, h⟩
    refine ⟨Value.converts_finiteNumber?.mp ⟨found, hfound⟩, fun seconds hseconds => ?_, ?_⟩
    · obtain rfl : some seconds = found := Except.ok.inj (hseconds.symm.trans hfound)
      obtain ⟨ms, hms, -⟩ := converts_bind.mp h
      exact Value.converts_truncate.mp ⟨ms, hms⟩
    · rintro hnone text rfl hblank
      obtain rfl : none = found := Except.ok.inj (hnone.symm.trans hfound)
      rw [← converts_untilDate? hpresent]
      simpa [hblank] using h
  · rintro ⟨hnumber, hproduct, hdate⟩
    obtain ⟨found, hfound⟩ := Value.converts_finiteNumber?.mpr hnumber
    refine ⟨found, hfound, ?_⟩
    cases found with
    | some seconds =>
      obtain ⟨ms, hms⟩ := Value.converts_truncate.mpr (hproduct seconds hfound)
      exact converts_bind.mpr ⟨ms, hms, converts_ok _⟩
    | none =>
      dsimp only
      split
      · rename_i text
        split
        · exact converts_ok none
        · rename_i hblank
          exact (converts_untilDate? hpresent).mpr (hdate hfound text rfl (by simpa using hblank))
      · exact converts_ok none

end RetryAfter

namespace Value

variable (v : Value)

structure HasNumberIn (names headers : List String) : Prop where
  part : ∀ p, v.firstPart? names = some p → p.HasNumber
  headerNames : finiteNumberOf? (v.firstPart? names) = .ok none → v.HasNames
  header : finiteNumberOf? (v.firstPart? names) = .ok none → ∀ p, v.header? headers = .ok (some p) → p.HasNumber

def delayNames : List String :=
  ["retry_after_ms", "retryAfterMs", "retryAfterInMilliseconds", "retry_after_in_milliseconds"]

def delayHeaders : List String :=
  ["x-ms-retry-after-ms", "retry-after-ms"]

def activityNames : List String :=
  ["activity_id", "activityId"]

def statusNames : List String :=
  ["code", "status_code", "statusCode", "status"]

def statusUnder? (name : String) : Except ConversionError (Option Int) :=
  match v.part? name with
  | none => .ok none
  | some p => FailureMetadata.statusOf? p

/-- A text that passes for a status code, by the digits it has, is one: they are decimal digits, and not
too many. -/
def StatusConverts (text : String) : Prop :=
  text ≠ "" → (∀ c ∈ text.toList, Text.isDigitLike c = true) →
    (∀ c ∈ text.toList, Text.isDecimalDigit c = true) ∧ text.length ≤ Numeral.mostDigits

/-- Everything that is read of an error has a conversion. -/
structure Readable (a : Almanac) : Prop where
  delay : v.HasNumberIn delayNames delayHeaders
  /-- No delay is given as a number, and so the header that may ask for one in words is read. -/
  header : FailureMetadata.numberIn? v delayNames delayHeaders = .ok none →
    ∀ p, v.header? ["retry-after"] = .ok (some p) → RetryAfter.HasDelay a p
  charge : v.HasNumberIn ["request_charge", "requestCharge"] ["x-ms-request-charge"]
  activityNames : (v.firstPart? activityNames).filter truthy = none → v.HasNames
  activity : ∀ p, FailureMetadata.activity? v = .ok (some p) → p.HasText
  substatus : v.HasNumberIn ["substatus", "sub_status", "subStatusCode"] ["x-ms-substatus"]
  status : ∀ name text, Reached v.statusUnder? statusNames name → v.part? name = some (.text text) →
    StatusConverts text
  message : Converts (Failure.messageOf v)

end Value

namespace FailureMetadata

open Value

variable {v : Value}

theorem converts_numberIn? {names headers : List String} :
    Converts (numberIn? v names headers) ↔ v.HasNumberIn names headers := by
  unfold numberIn?
  rw [converts_bind]
  constructor
  · rintro ⟨found, hfound, h⟩
    refine ⟨converts_finiteNumberOf?.mp ⟨found, hfound⟩, fun hnone => ?_, fun hnone p hp => ?_⟩
    all_goals
      obtain rfl : none = found := Except.ok.inj (hnone.symm.trans hfound)
      obtain ⟨header, hheader, hnumber⟩ := converts_bind.mp h
    · exact converts_header?.mp ⟨header, hheader⟩
    · obtain rfl : some p = header := Except.ok.inj (hp.symm.trans hheader)
      exact converts_finiteNumber?.mp hnumber
  · rintro ⟨hpart, hnames, hheader⟩
    obtain ⟨found, hfound⟩ := converts_finiteNumberOf?.mpr hpart
    refine ⟨found, hfound, ?_⟩
    cases found with
    | some x => exact converts_ok _
    | none =>
      obtain ⟨header, hfoundHeader⟩ := converts_header?.mpr (hnames hfound)
      refine converts_bind.mpr ⟨header, hfoundHeader, converts_finiteNumberOf?.mpr ?_⟩
      rintro p rfl
      exact hheader hfound p hfoundHeader

theorem converts_truncate_of_numberIn? {names headers : List String} {x : Double}
    (h : numberIn? v names headers = .ok (some x)) : Converts x.truncate := by
  unfold numberIn? at h
  obtain ⟨found, hfound, h⟩ := bind_eq_ok_iff.mp h
  cases found with
  | some y =>
    cases h
    exact converts_truncate_of_finiteNumberOf? hfound
  | none =>
    obtain ⟨header, -, h⟩ := bind_eq_ok_iff.mp h
    exact converts_truncate_of_finiteNumberOf? h

theorem hasNames_of_numberIn? {names headers : List String} (h : numberIn? v names headers = .ok none) :
    v.HasNames := by
  unfold numberIn? at h
  obtain ⟨found, -, h⟩ := bind_eq_ok_iff.mp h
  cases found with
  | some x => cases h
  | none =>
    obtain ⟨header, hheader, -⟩ := bind_eq_ok_iff.mp h
    exact converts_header?.mp ⟨header, hheader⟩

theorem firstStatus?_eq (v : Value) (names : List String) :
    firstStatus? v names = firstFound v.statusUnder? names := by
  induction names with
  | nil => rfl
  | cons name rest ih =>
    rw [firstStatus?, firstFound, ih, statusUnder?]
    cases v.part? name with
    | none => rfl
    | some p => dsimp only; rcases statusOf? p with e | _ | status <;> rfl

theorem converts_readStatus {text : String} (hne : text ≠ "")
    (h : ∀ c ∈ text.toList, Text.isDigitLike c = true) : Converts (readStatus text) ↔
      (∀ c ∈ text.toList, Text.isDecimalDigit c = true) ∧ text.length ≤ Numeral.mostDigits := by
  have hnumeral := Numeral.readInteger?_isSome hne h
  have hdecimals (hall : ∀ c ∈ text.toList, Text.isDecimalDigit c = true) :
      (text.toList.takeWhile Text.isDecimalDigit).length = text.length := by
    rw [List.takeWhile_eq_self_iff.mpr hall, String.length_toList]
  unfold readStatus
  constructor
  · intro hconverts
    cases hread : Numeral.readInteger? text with
    | none =>
      simp only [hread] at hconverts
      split at hconverts <;> exact absurd hconverts (not_converts_error _)
    | some i =>
      have hall : ∀ c ∈ text.toList, Text.isDecimalDigit c = true := by simpa [hread] using hnumeral.symm
      rw [hdecimals hall] at hconverts
      refine ⟨hall, Nat.le_of_not_lt fun hmany => ?_⟩
      simp [hmany] at hconverts
  · rintro ⟨hall, hlength⟩
    obtain ⟨i, hi⟩ := Option.isSome_iff_exists.mp (hnumeral.trans (List.all_eq_true.mpr hall))
    simp [hdecimals hall, Nat.not_lt.mpr hlength, hi]

theorem converts_statusUnder? {v : Value} {name : String} : Converts (v.statusUnder? name) ↔
    ∀ text, v.part? name = some (.text text) → StatusConverts text := by
  unfold statusUnder?
  cases v.part? name with
  | none => simp
  | some p =>
    simp only [Option.some.injEq]
    unfold statusOf?
    split
    case h_1 => simp
    case h_2 text =>
      have hdigits : (!text.isEmpty && text.toList.all Text.isDigitLike) = true ↔
          text ≠ "" ∧ ∀ c ∈ text.toList, Text.isDigitLike c = true := by
        simp
      by_cases htaken : (!text.isEmpty && text.toList.all Text.isDigitLike) = true
      · obtain ⟨hne, hall⟩ := hdigits.mp htaken
        rw [if_pos htaken, converts_map, converts_readStatus hne hall]
        constructor
        · rintro h _ ⟨rfl⟩ - -
          exact h
        · exact fun h => h text rfl hne hall
      · rw [if_neg htaken]
        refine ⟨?_, fun _ => converts_ok none⟩
        rintro - _ ⟨rfl⟩ hne hall
        exact absurd (hdigits.mpr ⟨hne, hall⟩) htaken
    case h_3 htext => exact ⟨fun _ text hp => absurd hp (htext text), fun _ => converts_ok none⟩

theorem converts_status? {v : Value} : Converts (status? v) ↔
    ∀ name text, Reached v.statusUnder? statusNames name → v.part? name = some (.text text) →
      StatusConverts text := by
  have hfirst : Converts (status? v) ↔ Converts (firstFound v.statusUnder? statusNames) := by
    unfold status?
    rw [converts_bind, firstStatus?_eq]
    constructor
    · rintro ⟨found, hfound, -⟩
      exact ⟨found, hfound⟩
    · rintro ⟨found, hfound⟩
      refine ⟨found, hfound, ?_⟩
      cases found with
      | some status => exact converts_ok _
      | none => dsimp only; split <;> exact converts_ok _
  simp only [hfirst, converts_firstFound, converts_statusUnder?]
  exact ⟨fun h name text hreached => h name hreached text, fun h name hreached text => h name text hreached⟩

theorem converts_retryAfter? {a : Almanac} (hpresent : a.present.InCalendar) : Converts (retryAfter? a v) ↔
    v.HasNumberIn delayNames delayHeaders ∧ (numberIn? v delayNames delayHeaders = .ok none →
      ∀ p, v.header? ["retry-after"] = .ok (some p) → RetryAfter.HasDelay a p) := by
  change Converts (numberIn? v delayNames delayHeaders >>= _) ↔ _
  rw [converts_bind, ← converts_numberIn?]
  constructor
  · rintro ⟨found, hfound, h⟩
    refine ⟨⟨found, hfound⟩, fun hnone p hp => ?_⟩
    obtain rfl : none = found := Except.ok.inj (hnone.symm.trans hfound)
    rw [← RetryAfter.converts_milliseconds? hpresent]
    simpa [hp, bind, Except.bind] using h
  · rintro ⟨hnumber, hdelay⟩
    obtain ⟨found, hfound⟩ := hnumber
    refine ⟨found, hfound, ?_⟩
    cases found with
    | some ms => exact (converts_map some).mpr (converts_truncate_of_numberIn? hfound)
    | none =>
      obtain ⟨header, hheader⟩ := converts_header?.mpr (hasNames_of_numberIn? hfound)
      refine converts_bind.mpr ⟨header, hheader, ?_⟩
      cases header with
      | none => exact converts_ok none
      | some p => exact (RetryAfter.converts_milliseconds? hpresent).mpr (hdelay hfound p hheader)

theorem converts_activity? : Converts (activity? v) ↔
    ((v.firstPart? activityNames).filter truthy = none → v.HasNames) := by
  unfold activity?
  dsimp only [activityNames]
  cases (v.firstPart? _).filter truthy <;> simp [converts_header?]

/-- An error has metadata and a message exactly if it is readable. -/
theorem converts_ofError_and_messageOf {a : Almanac} (hpresent : a.present.InCalendar) :
    Converts (ofError a v) ∧ Converts (Failure.messageOf v) ↔ v.Readable a := by
  have hdetail {substatus : Option Double}
      (h : numberIn? v ["substatus", "sub_status", "subStatusCode"] ["x-ms-substatus"] = .ok substatus) :
      Converts (substatus.mapM Double.truncate) := by
    cases substatus with
    | none => exact converts_ok none
    | some x =>
      obtain ⟨i, hi⟩ := converts_truncate_of_numberIn? h
      exact ⟨some i, by simp [hi]⟩
  have htext {activity : Option Value} : Converts (activity.mapM written) ↔ ∀ p, activity = some p → p.HasText := by
    cases activity with
    | none => simp [pure, Except.pure]
    | some p =>
      change Converts (p.written.map some) ↔ _
      simp [converts_written]
  have hall : Converts (ofError a v) ↔ Converts (retryAfter? a v) ∧
      Converts (numberIn? v ["request_charge", "requestCharge"] ["x-ms-request-charge"]) ∧
      (Converts (activity? v) ∧ ∀ p, activity? v = .ok (some p) → p.HasText) ∧
      Converts (numberIn? v ["substatus", "sub_status", "subStatusCode"] ["x-ms-substatus"]) ∧
      Converts (status? v) := by
    simp only [ofError, converts_bind, converts_ok, and_true]
    constructor
    · rintro ⟨_, hretryAfter, _, hcharge, activity, hactivity, _, hsubstatus, _, hstatus, _, hid, -⟩
      refine ⟨⟨_, hretryAfter⟩, ⟨_, hcharge⟩, ⟨⟨_, hactivity⟩, fun p hp => ?_⟩, ⟨_, hsubstatus⟩, ⟨_, hstatus⟩⟩
      exact htext.mp ⟨_, hid⟩ p (Except.ok.inj (hactivity.symm.trans hp))
    · rintro ⟨⟨_, hretryAfter⟩, ⟨_, hcharge⟩, ⟨⟨activity, hactivity⟩, hshown⟩, ⟨_, hsubstatus⟩, ⟨_, hstatus⟩⟩
      obtain ⟨_, hid⟩ := htext.mpr fun p hp => hshown p (hp ▸ hactivity)
      exact ⟨_, hretryAfter, _, hcharge, _, hactivity, _, hsubstatus, _, hstatus, _, hid, hdetail hsubstatus⟩
  rw [hall, converts_retryAfter? hpresent, converts_numberIn?, converts_numberIn?, converts_activity?,
    converts_status?]
  constructor
  · rintro ⟨⟨⟨hdelay, hheader⟩, hcharge, ⟨hnames, hactivity⟩, hsubstatus, hstatus⟩, hmessage⟩
    exact ⟨hdelay, hheader, hcharge, hnames, hactivity, hsubstatus, hstatus, hmessage⟩
  · rintro ⟨hdelay, hheader, hcharge, hnames, hactivity, hsubstatus, hstatus, hmessage⟩
    exact ⟨⟨⟨hdelay, hheader⟩, hcharge, ⟨hnames, hactivity⟩, hsubstatus, hstatus⟩, hmessage⟩

theorem requestCharge_of_ofError {a : Almanac} {m : FailureMetadata} (h : ofError a v = .ok m) :
    ∃ charge : Option Double, m.requestCharge = charge.map .real := by
  simp only [ofError, bind_eq_ok_iff, Except.ok.injEq] at h
  obtain ⟨_, -, charge, -, _, -, _, -, _, -, _, -, _, -, rfl⟩ := h
  exact ⟨charge, rfl⟩

end FailureMetadata

namespace Raised

theorem requestCharge_of_classify_foreign {a : Almanac} {component : String} {x : ForeignError}
    {causes chain : List Fault} {f : Failure}
    (h : Raised.classify a component ⟨.foreign x, causes⟩ = .ok (f, chain)) :
    ∃ charge : Option Double, f.metadata.requestCharge = charge.map .real := by
  unfold Raised.classify Fault.classify at h
  cases hf : Failure.ofError a component x.toValue with
  | error n => simp [hf, Except.map] at h
  | ok g =>
    obtain rfl : g = f := by simpa [hf, Except.map] using congrArg (Except.map Prod.fst) h
    obtain ⟨m, hm, _, -, hg⟩ := by simpa only [Failure.ofError, bind_eq_ok_iff, Except.ok.injEq] using hf
    rw [← hg]
    exact FailureMetadata.requestCharge_of_ofError hm

/-- An error of another program is classified exactly if it is readable. -/
theorem converts_classify_foreign {a : Almanac} (hpresent : a.present.InCalendar) {component : String}
    {x : ForeignError} {causes : List Fault} :
    Converts (Raised.classify a component ⟨.foreign x, causes⟩) ↔ x.toValue.Readable a := by
  unfold Raised.classify
  rw [converts_map, Fault.classify, ← FailureMetadata.converts_ofError_and_messageOf hpresent]
  simp only [Failure.ofError, converts_bind, converts_ok, and_true]
  exact exists_and_right

end Raised

end SchemaInference
