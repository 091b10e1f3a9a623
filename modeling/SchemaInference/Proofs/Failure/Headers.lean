import SchemaInference.Moment.FreeDate
import SchemaInference.Proofs.Failure.Parts
import SchemaInference.Proofs.Text.Casing
import Mathlib.Data.List.Forall2
import Mathlib.Data.List.Perm.Basic

set_option autoImplicit false

namespace SchemaInference

abbrev Headers := List (String × Value)

namespace Headers

def lookedUp : List String :=
  ["x-ms-retry-after-ms", "retry-after-ms", "retry-after", "x-ms-request-charge", "x-ms-activity-id", "x-ms-substatus"]

def entries (headers : Headers) : List (Value × Value) :=
  headers.map fun h => (.text h.1, h.2)

def lowered (headers : Headers) : Headers :=
  headers.map fun h => (Text.lower h.1, h.2)

/-- No name that is looked up is the name of two headers.  This asks less than that all names differ in lower case,
since it is not asked of names that are never looked up. -/
def Unambiguous (headers : Headers) : Prop :=
  ∀ name ∈ lookedUp, (headers.map fun h => Text.lower h.1).count name ≤ 1

/-- The same headers in another order, with the letters of their names in another case. -/
def Respelt (headers respelt : Headers) : Prop :=
  ∃ reordered : Headers, headers.Perm reordered ∧
    List.Forall₂ (fun h r => Text.SameButForCase h.1 r.1 ∧ h.2 = r.2) reordered respelt

variable {headers respelt : Headers} {name : String} {p : Value}

theorem unambiguous_of_nodup (h : (headers.map fun h => Text.lower h.1).Nodup) : headers.Unambiguous :=
  fun name _ => List.nodup_iff_count.mp h name

theorem mem_lowered : (name, p) ∈ headers.lowered ↔ ∃ spelt, (spelt, p) ∈ headers ∧ Text.lower spelt = name := by
  simp [lowered]

theorem map_fst_lowered : headers.lowered.map Prod.fst = headers.map fun h => Text.lower h.1 := by
  simp [lowered]

theorem Respelt.lowered_perm (h : Respelt headers respelt) : headers.lowered.Perm respelt.lowered := by
  obtain ⟨reordered, hperm, hcase⟩ := h
  have hlowered : List.Forall₂ (· = ·) reordered.lowered respelt.lowered := by
    rw [lowered, lowered, List.forall₂_map_left_iff, List.forall₂_map_right_iff]
    exact hcase.imp fun h r ⟨hname, hvalue⟩ => Prod.ext hname.lower_eq hvalue
  rw [List.forall₂_eq_eq_eq] at hlowered
  exact hlowered ▸ hperm.map _

theorem Respelt.unambiguous (h : Respelt headers respelt) (hheaders : headers.Unambiguous) : respelt.Unambiguous := by
  intro name hname
  have hcount := (h.lowered_perm.map Prod.fst).count_eq name
  rw [map_fst_lowered, map_fst_lowered] at hcount
  exact hcount ▸ hheaders name hname

theorem loweredHeaders_entries (headers : Headers) :
    Value.loweredHeaders headers.entries = .ok headers.lowered := by
  simp only [Value.loweredHeaders, entries, lowered, List.mapM_map]
  exact List.mapM_pure

theorem getLast?_eq_some_iff_mem {α : Type} {items : List α} (h : items.length ≤ 1) {x : α} :
    items.getLast? = some x ↔ x ∈ items := by
  match items, h with
  | [], _ => simp
  | [y], _ => simp [eq_comm]

theorem Unambiguous.headerIn?_eq_some_iff (h : headers.Unambiguous) (hname : name ∈ lookedUp) :
    Value.headerIn? headers.lowered name = some p ↔ (name, p) ∈ headers.lowered ∧ p.isNull = false := by
  have honce : (headers.lowered.filter (·.1 == name)).length ≤ 1 := by
    have hcount := h name hname
    rwa [← map_fst_lowered, List.count_eq_countP, List.countP_map, List.countP_eq_length_filter] at hcount
  -- One header at most is in question, and so it is the last one.
  have hfound : (∃ h, (headers.lowered.filter (·.1 == name)).getLast? = some h ∧ h.2 = p) ↔
      (name, p) ∈ headers.lowered := by
    simp only [getLast?_eq_some_iff_mem honce, List.mem_filter, beq_iff_eq]
    constructor
    · rintro ⟨_, ⟨hmem, rfl⟩, rfl⟩
      exact hmem
    · exact fun hmem => ⟨_, ⟨hmem, rfl⟩, rfl⟩
  rw [Value.headerIn?, Option.filter_eq_some_iff, Option.map_eq_some_iff, hfound, Bool.not_eq_true']

theorem Respelt.headerIn?_eq (h : Respelt headers respelt) (hheaders : headers.Unambiguous) (hname : name ∈ lookedUp) :
    Value.headerIn? respelt.lowered name = Value.headerIn? headers.lowered name := by
  ext p
  rw [(h.unambiguous hheaders).headerIn?_eq_some_iff hname, hheaders.headerIn?_eq_some_iff hname,
    h.lowered_perm.mem_iff]

end Headers

namespace Value

def headerNames : List String :=
  ["headers", "response_headers", "responseHeaders"]

def headersPart? (v : Value) : Option Value :=
  (v.firstPart? headerNames).or ((v.part? "response").bind fun response => response.part? "headers")

def entriesOf? (v : Value) : Option (List (Value × Value)) :=
  match v with
  | mapping entries => some entries
  | _ => none

theorem headers?_eq (v : Value) : v.headers? = v.headersPart?.bind entriesOf? := by
  unfold headers? headersPart?
  dsimp only [headerNames]
  rcases v.firstPart? _ with _ | headers
  · dsimp only [Option.none_or]
    rcases (v.part? "response").bind _ with _ | (_ | _ | _ | _ | _) <;> rfl
  · cases headers <;> rfl

end Value

inductive HeaderPlace
  | direct (name : String) (customary : name ∈ Value.headerNames)
  | onResponse

namespace HeaderPlace

def find? (place : HeaderPlace) (v : Value) : Option Value :=
  match place with
  | direct name _ => v.part? name
  | onResponse => (v.part? "response").bind fun response => response.part? "headers"

def put (place : HeaderPlace) (v headers : Value) : Value :=
  match place with
  | direct name _ => v.withPart name headers
  | onResponse =>
    match v.part? "response" with
    | some response => v.withPart "response" (response.withPart "headers" headers)
    | none => v

theorem put_eq (place : HeaderPlace) (v new : Value) : place.put v new = v ∨
    ∃ name ∈ "response" :: Value.headerNames, ∃ part, place.put v new = v.withPart name part := by
  cases place with
  | direct name customary => exact .inr ⟨name, List.mem_cons_of_mem _ customary, new, rfl⟩
  | onResponse =>
    unfold put
    dsimp only
    split
    · exact .inr ⟨"response", List.mem_cons_self, _, rfl⟩
    · exact .inl rfl

variable {v : Value} {place : HeaderPlace} {headers respelt : Headers}

theorem part?_response_put {response new : Value} (hresponse : v.part? "response" = some response) :
    (put .onResponse v new).part? "response" = some (response.withPart "headers" new) := by
  have hnull : (response.withPart "headers" new).isNull = false :=
    Value.isNull_withPart.trans (Value.isNull_of_part? hresponse)
  simp only [put, hresponse]
  exact Value.part?_withPart_self hresponse hnull

theorem find?_put {old new : Value} (hfound : place.find? v = some old) (hnew : new.isNull = false) :
    place.find? (place.put v new) = some new := by
  cases place with
  | direct name _ => exact Value.part?_withPart_self hfound hnew
  | onResponse =>
    obtain ⟨response, hresponse, hold⟩ := Option.bind_eq_some_iff.mp hfound
    rw [find?, part?_response_put hresponse, Option.bind_some, Value.part?_withPart_self hold hnew]

theorem headersPart?_put {old new : Value} (hfound : place.find? v = some old) (hnew : new.isNull = false) :
    (place.put v new).headersPart? = v.headersPart? ∨
      v.headersPart? = some old ∧ (place.put v new).headersPart? = some new := by
  cases place with
  | direct name customary =>
    have hresponse : (v.withPart name new).part? "response" = v.part? "response" :=
      Value.part?_withPart_of_ne (ne_of_mem_of_not_mem customary (by decide)).symm
    simp only [put, Value.headersPart?, hresponse]
    rcases Value.firstPart?_withPart Value.headerNames hfound hnew with hsame | ⟨hold, hother⟩
    · exact .inl (by rw [hsame])
    · exact .inr ⟨by rw [hold, Option.some_or], by rw [hother, Option.some_or]⟩
  | onResponse =>
    have hagain := find?_put hfound hnew
    obtain ⟨response, hresponse, -⟩ := Option.bind_eq_some_iff.mp hfound
    have hdirect : (put .onResponse v new).firstPart? Value.headerNames = v.firstPart? Value.headerNames := by
      simp only [put, hresponse]
      exact Value.firstPart?_withPart_of_notMem (by decide)
    simp only [Value.headersPart?, hdirect]
    cases v.firstPart? Value.headerNames with
    | some headers => exact .inl rfl
    | none => exact .inr ⟨hfound, hagain⟩

theorem header?_put {names : List String} (hnames : ∀ name ∈ names, name ∈ Headers.lookedUp)
    (hfound : place.find? v = some (.record headers)) (hheaders : headers.Unambiguous)
    (hrespelt : headers.Respelt respelt) :
    (place.put v (.record respelt)).header? names = v.header? names := by
  have hnull : (Value.record respelt).isNull = false := rfl
  unfold Value.header?
  rw [Value.headers?_eq, Value.headers?_eq]
  rcases headersPart?_put hfound hnull with hsame | ⟨hold, hnew⟩
  · rw [hsame]
  · have hsame : names.findSome? (Value.headerIn? respelt.lowered) =
        names.findSome? (Value.headerIn? headers.lowered) :=
      findSome?_congr fun name hname => hrespelt.headerIn?_eq hheaders (hnames name hname)
    rw [hold, hnew]
    change (Value.loweredHeaders respelt.entries).map _ = (Value.loweredHeaders headers.entries).map _
    simp only [Headers.loweredHeaders_entries, Except.map, hsame]

end HeaderPlace

/-- The second error says of its request what the first one says.  It may have other headers, if these are the same
under the names that are looked up. -/
structure Value.SaysAlike (v v' : Value) : Prop where
  part : ∀ name ∉ "response" :: headerNames, v'.part? name = v.part? name
  response : (v'.part? "response").bind (fun r => r.firstPart? ["status_code", "status"]) =
    (v.part? "response").bind fun r => r.firstPart? ["status_code", "status"]
  header : ∀ names, (∀ name ∈ names, name ∈ Headers.lookedUp) → v'.header? names = v.header? names

namespace FailureMetadata

open Value

variable {v v' : Value} {names : List String}

theorem firstPart?_of_saysAlike (h : SaysAlike v v') (hnames : ∀ name ∈ names, name ∉ "response" :: headerNames) :
    v'.firstPart? names = v.firstPart? names :=
  findSome?_congr fun name hname => h.part name (hnames name hname)

theorem firstStatus?_of_saysAlike (h : SaysAlike v v') (hnames : ∀ name ∈ names, name ∉ "response" :: headerNames) :
    firstStatus? v' names = firstStatus? v names := by
  induction names with
  | nil => rfl
  | cons first rest ih =>
    obtain ⟨hfirst, hrest⟩ := List.forall_mem_cons.mp hnames
    rw [firstStatus?, firstStatus?, h.part first hfirst, ih hrest]

theorem numberIn?_of_saysAlike (h : SaysAlike v v') (hnames : ∀ name ∈ names, name ∉ "response" :: headerNames)
    {headers : List String} (hheaders : ∀ name ∈ headers, name ∈ Headers.lookedUp) :
    numberIn? v' names headers = numberIn? v names headers := by
  rw [numberIn?, numberIn?, firstPart?_of_saysAlike h hnames, h.header headers hheaders]

theorem ofError_of_saysAlike (h : SaysAlike v v') (a : Almanac) : ofError a v' = ofError a v := by
  have hretryAfter : retryAfter? a v' = retryAfter? a v := by
    simp (disch := decide) only [retryAfter?, numberIn?_of_saysAlike h, h.header]
  have hstatus : status? v' = status? v := by
    simp (disch := decide) only [status?, firstStatus?_of_saysAlike h, h.response]
  have hactivity : activity? v' = activity? v := by
    simp (disch := decide) only [activity?, firstPart?_of_saysAlike h, h.header]
  simp (disch := decide) only [ofError, hretryAfter, numberIn?_of_saysAlike h, hstatus, hactivity]

end FailureMetadata

namespace HeaderPlace

variable {v : Value} {headers respelt : Headers}

theorem saysAlike_put (place : HeaderPlace) (hfound : place.find? v = some (.record headers))
    (hheaders : headers.Unambiguous) (hrespelt : headers.Respelt respelt) :
    v.SaysAlike (place.put v (.record respelt)) where
  part name hname := by
    rcases place.put_eq v (.record respelt) with hput | ⟨other, hother, part, hput⟩
    · rw [hput]
    · rw [hput, Value.part?_withPart_of_ne (ne_of_mem_of_not_mem hother hname).symm]
  response := by
    cases place with
    | direct other customary =>
      rw [put, Value.part?_withPart_of_ne (ne_of_mem_of_not_mem customary (by decide)).symm]
    | onResponse =>
      obtain ⟨response, hresponse, -⟩ := Option.bind_eq_some_iff.mp hfound
      rw [part?_response_put hresponse, hresponse, Option.bind_some, Option.bind_some]
      exact Value.firstPart?_withPart_of_notMem (by decide)
  header _ hnames := header?_put hnames hfound hheaders hrespelt

theorem messageOf_put (place : HeaderPlace) (v new : Value) :
    Failure.messageOf (place.put v new) = Failure.messageOf v := by
  rcases place.put_eq v new with hput | ⟨name, hname, part, hput⟩
  · rw [hput]
  · rw [hput]
    exact Failure.messageOf_withPart (ne_of_mem_of_not_mem hname (by decide)).symm

theorem ofMetadata_put (place : HeaderPlace) (v new : Value) (metadata : FailureMetadata)
    (component message : String) :
    Failure.ofMetadata metadata component message (place.put v new) =
      Failure.ofMetadata metadata component message v := by
  rcases place.put_eq v new with hput | ⟨name, hname, part, hput⟩
  · rw [hput]
  · rw [hput]
    exact Failure.ofMetadata_withPart (ne_of_mem_of_not_mem hname (by decide)).symm metadata component message

end HeaderPlace

namespace Failure

/-- Headers in another order, with their names in another case, give under each name that is looked up what the
headers gave before.  An error that has them in the place of its own, or of its response's, is read and classified as
before, or the same thing in it cannot be converted. -/
theorem ofError_respelt (a : Almanac) (component : String) (place : HeaderPlace) {v : Value}
    {headers respelt : Headers} (hfound : place.find? v = some (.record headers)) (hheaders : headers.Unambiguous)
    (hrespelt : headers.Respelt respelt) :
    let v' := place.put v (.record respelt)
    place.find? v' = some (.record respelt) ∧
      (∃ named, Value.loweredHeaders respelt.entries = .ok named ∧
        ∀ name ∈ Headers.lookedUp, ∀ p, Value.headerIn? named name = some p ↔
          (∃ spelt, (spelt, p) ∈ headers ∧ Text.lower spelt = name) ∧ p.isNull = false) ∧
      FailureMetadata.ofError a v' = FailureMetadata.ofError a v ∧
      ofError a component v' = ofError a component v := by
  intro v'
  have hmetadata : FailureMetadata.ofError a v' = FailureMetadata.ofError a v :=
    FailureMetadata.ofError_of_saysAlike (place.saysAlike_put hfound hheaders hrespelt) a
  refine ⟨HeaderPlace.find?_put hfound rfl,
    ⟨respelt.lowered, respelt.loweredHeaders_entries, fun name hname p => ?_⟩, hmetadata, ?_⟩
  · rw [hrespelt.headerIn?_eq hheaders hname, hheaders.headerIn?_eq_some_iff hname, Headers.mem_lowered]
  · simp only [ofError, hmetadata, v', place.messageOf_put, place.ofMetadata_put]

def throttled : Headers :=
  [("Retry-After", .text "2"), ("x-ms-request-charge", .text "2.5"), ("X-MS-Activity-Id", .text "act-1")]

def throttledAloud : Headers :=
  [("X-MS-ACTIVITY-ID", .text "act-1"), ("RETRY-AFTER", .text "2"), ("X-MS-REQUEST-CHARGE", .text "2.5")]

def throttledError : Value :=
  .object "StoreError" [] (.ok "busy") (.ok none)
    [("response", .record [("status", .whole 429), ("headers", .record throttled)])]

theorem ofError_respelt_throttled :
    HeaderPlace.onResponse.find? throttledError = some (.record throttled) ∧ throttled.Unambiguous ∧
      throttled.Respelt throttledAloud ∧
      ofError FreeDate.atYear2000 "store" (HeaderPlace.onResponse.put throttledError (.record throttledAloud)) =
        .ok ⟨"busy", .rateLimit, .medium, true, "store", [("source", .text "StoreError")],
          ⟨some 429, some "act-1", some (.whole 2000), some (.real (.finite (5 / 2))), none⟩⟩ := by
  have hfound : HeaderPlace.onResponse.find? throttledError = some (.record throttled) := rfl
  have hheaders : throttled.Unambiguous := Headers.unambiguous_of_nodup (by decide +kernel)
  have hrespelt : throttled.Respelt throttledAloud :=
    ⟨_, List.perm_append_singleton throttled[2] [throttled[0], throttled[1]],
      .cons ⟨by decide, rfl⟩ (.cons ⟨by decide, rfl⟩ (.cons ⟨by decide, rfl⟩ .nil))⟩
  have hmetadata : FailureMetadata.ofError FreeDate.atYear2000 throttledError =
      .ok ⟨some 429, some "act-1", some (.whole 2000), some (.real (.finite (5 / 2))), none⟩ := by decide +kernel
  refine ⟨hfound, hheaders, hrespelt, ?_⟩
  rw [(ofError_respelt FreeDate.atYear2000 "store" .onResponse hfound hheaders hrespelt).2.2.2, ofError, hmetadata]
  rfl

end Failure

end SchemaInference
