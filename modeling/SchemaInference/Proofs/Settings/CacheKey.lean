import SchemaInference.Proofs.Settings.Export

set_option autoImplicit false

namespace SchemaInference

theorem append_cons_inj {α : Type} {sep : α} {xs xs' ys ys' : List α} (hys : sep ∉ ys) (hys' : sep ∉ ys')
    (h : xs ++ sep :: ys = xs' ++ sep :: ys') : xs = xs' ∧ ys = ys' := by
  rcases List.append_eq_append_iff.mp h with ⟨as, hxs, htail⟩ | ⟨as, hxs, htail⟩
  · cases as with
    | nil => exact ⟨(hxs.trans (List.append_nil xs)).symm, (List.cons.inj htail).2⟩
    | cons a as =>
      rw [(List.cons.inj htail).2] at hys
      exact absurd (List.mem_append_right as List.mem_cons_self) hys
  · cases as with
    | nil => exact ⟨hxs.trans (List.append_nil xs'), (List.cons.inj htail).2.symm⟩
    | cons a as =>
      rw [(List.cons.inj htail).2] at hys'
      exact absurd (List.mem_append_right as List.mem_cons_self) hys'

theorem mem_toDigits {c : Char} {base n : Nat} (hbase : 1 < base) (h : c ∈ Nat.toDigits base n) :
    ∃ d < base, c = Nat.digitChar d := by
  induction n using Nat.strong_induction_on with
  | _ n ih =>
    rw [Nat.toDigits_eq_if hbase] at h
    split at h
    · rename_i hn
      exact ⟨n, hn, List.mem_singleton.mp h⟩
    · rename_i hn
      rcases List.mem_append.mp h with h | h
      · exact ih (n / base) (Nat.div_lt_self (by omega) hbase) h
      · exact ⟨n % base, Nat.mod_lt n (by omega), List.mem_singleton.mp h⟩

theorem colon_notMem_toDigits {base n : Nat} (hbase : 1 < base) (hmost : base ≤ 16) : ':' ∉ Nat.toDigits base n := by
  intro h
  obtain ⟨d, hd, hcolon⟩ := mem_toDigits hbase h
  have hno : ∀ d < 16, ':' ≠ Nat.digitChar d := by decide
  exact hno d (by omega) hcolon

namespace Settings

theorem colon_notMem_toString (n : Nat) : ':' ∉ (toString n).toList := by
  rw [Nat.toString_eq_repr, Nat.toList_repr]
  exact colon_notMem_toDigits (by norm_num) (by norm_num)

theorem colon_notMem_shortDigest (text : String) : ':' ∉ (shortDigest text).toList := by
  rw [shortDigest, String.toList_ofList]
  intro h
  obtain ⟨w, -, hw⟩ := List.mem_flatMap.mp (List.mem_of_mem_take h)
  rcases List.mem_append.mp hw with hzero | hdigit
  · exact absurd (List.eq_of_mem_replicate hzero) (by decide)
  · exact colon_notMem_toDigits (by norm_num) (by norm_num) hdigit

theorem cacheKey_eq_ok_iff {database container key : String} {s : Settings} :
    cacheKey database container s = .ok key ↔ ∃ text, s.exportText = .ok text ∧
      database ++ ":" ++ container ++ ":" ++ toString s.sampleSize ++ ":" ++ shortDigest text = key := by
  unfold cacheKey cacheKeyBy fingerprintBy
  cases s.exportText with
  | error e => simp [Except.map]
  | ok text => simp [Except.map]

theorem toList_key (database container digest : String) (size : Nat) :
    (database ++ ":" ++ container ++ ":" ++ toString size ++ ":" ++ digest).toList =
      (((database ++ ":" ++ container).toList ++ ':' :: (toString size).toList) ++ ':' :: digest.toList) := by
  simp only [String.toList_append, List.append_assoc]
  rfl

/-- The names are read off a key as one text, and so are the sample size and the digest. -/
theorem key_parts {database container database' container' text text' : String} {size size' : Nat}
    (h : database ++ ":" ++ container ++ ":" ++ toString size ++ ":" ++ shortDigest text =
      database' ++ ":" ++ container' ++ ":" ++ toString size' ++ ":" ++ shortDigest text') :
    database ++ ":" ++ container = database' ++ ":" ++ container' ∧ shortDigest text = shortDigest text' := by
  have hkeys := congrArg String.toList h
  rw [toList_key, toList_key] at hkeys
  -- From the end, since only the last two parts are known to be free of colons.
  obtain ⟨hfront, hdigest⟩ := append_cons_inj (colon_notMem_shortDigest _) (colon_notMem_shortDigest _) hkeys
  obtain ⟨hnames, -⟩ := append_cons_inj (colon_notMem_toString _) (colon_notMem_toString _) hfront
  exact ⟨String.toList_inj.mp hnames, String.toList_inj.mp hdigest⟩

theorem sampleSize_eq_of_inUnits_eq {s s' : Settings} (h : s.json.inUnits = s'.json.inUnits) :
    s.sampleSize = s'.sampleSize := by
  simp only [json, Json.whole, Json.inUnits, Json.membersInUnits, Json.object.injEq, List.cons.injEq, Prod.mk.injEq,
    Json.number.injEq, Number.whole.injEq, true_and] at h
  exact Int.ofNat.inj h.1

theorem colon_joined_inj {a b a' b' : String}
    (hfree : ':' ∉ a.toList ∧ ':' ∉ a'.toList ∨ ':' ∉ b.toList ∧ ':' ∉ b'.toList)
    (h : a ++ ":" ++ b = a' ++ ":" ++ b') : a = a' ∧ b = b' := by
  have hchars : a.toList ++ ':' :: b.toList = a'.toList ++ ':' :: b'.toList := by
    have hlists := congrArg String.toList h
    simp only [String.toList_append, List.append_assoc] at hlists
    exact hlists
  rcases hfree with ⟨ha, ha'⟩ | ⟨hb, hb'⟩
  · have hback := congrArg List.reverse hchars
    simp only [List.reverse_append, List.reverse_cons, List.append_assoc, List.singleton_append] at hback
    obtain ⟨hright, hleft⟩ := append_cons_inj (by simpa using ha) (by simpa using ha') hback
    exact ⟨String.toList_inj.mp (List.reverse_injective hleft), String.toList_inj.mp (List.reverse_injective hright)⟩
  · obtain ⟨hleft, hright⟩ := append_cons_inj hb hb' hchars
    exact ⟨String.toList_inj.mp hleft, String.toList_inj.mp hright⟩

/-- Where no two texts of settings share a digest, keys are one exactly if the settings are one as data in units and
the names are one when a colon is put between them; so a key tells both names if no database has a colon in its
name, or no container has.  The data in units is the data, unless halves of pairs stand side by side in a pattern. -/
theorem cacheKey_identifies {database container database' container' key key' : String} {s s' : Settings}
    (hs : s.Representable) (hs' : s'.Representable) (hkey : cacheKey database container s = .ok key)
    (hkey' : cacheKey database' container' s' = .ok key')
    (hdigest : ∀ text text', s.exportText = .ok text → s'.exportText = .ok text' →
      shortDigest text = shortDigest text' → text = text') :
    (key = key' ↔ database ++ ":" ++ container = database' ++ ":" ++ container' ∧ s.json.inUnits = s'.json.inUnits) ∧
    (':' ∉ database.toList ∧ ':' ∉ database'.toList ∨ ':' ∉ container.toList ∧ ':' ∉ container'.toList →
      (key = key' ↔ database = database' ∧ container = container' ∧ s.json.inUnits = s'.json.inUnits)) ∧
    (s.IsJoined → s'.IsJoined → (s.json.inUnits = s'.json.inUnits ↔ s.json = s'.json)) := by
  obtain ⟨text, htext, rfl⟩ := cacheKey_eq_ok_iff.mp hkey
  obtain ⟨text', htext', rfl⟩ := cacheKey_eq_ok_iff.mp hkey'
  have hkeys : database ++ ":" ++ container ++ ":" ++ toString s.sampleSize ++ ":" ++ shortDigest text =
      database' ++ ":" ++ container' ++ ":" ++ toString s'.sampleSize ++ ":" ++ shortDigest text' ↔
      database ++ ":" ++ container = database' ++ ":" ++ container' ∧ s.json.inUnits = s'.json.inUnits := by
    constructor
    · intro h
      obtain ⟨hnames, hsame⟩ := key_parts h
      rw [← hdigest text text' htext htext' hsame] at htext'
      exact ⟨hnames, inUnits_eq_of_exportText_eq hs hs' htext htext'⟩
    · rintro ⟨hnames, hunits⟩
      have htexts := exportText_eq_of_inUnits_eq hunits
      rw [htext, htext'] at htexts
      rw [hnames, sampleSize_eq_of_inUnits_eq hunits, Except.ok.inj htexts]
  refine ⟨hkeys, fun hfree => hkeys.trans ⟨?_, ?_⟩, fun hjoined hjoined' => ⟨?_, fun h => h ▸ rfl⟩⟩
  · rintro ⟨hnames, hunits⟩
    obtain ⟨hdatabase, hcontainer⟩ := colon_joined_inj hfree hnames
    exact ⟨hdatabase, hcontainer, hunits⟩
  · rintro ⟨rfl, rfl, hunits⟩
    exact ⟨rfl, hunits⟩
  · exact json_eq_of_inUnits_eq hjoined hjoined'

theorem exists_cacheKey_iff {database container : String} {s : Settings} :
    (∃ key, cacheKey database container s = .ok key) ↔ s.json.isWritable = true := by
  simp [cacheKey_eq_ok_iff, exportText_eq_ok_iff]

theorem isWritable_standard : standard.json.isWritable = true := by
  decide +kernel

theorem cacheKey_identifies_orders :
    standard.Representable ∧ ':' ∉ "shop".toList ∧ ∃ key key', cacheKey "shop" "orders" standard = .ok key ∧
      cacheKey "shop" "orders:2024" standard = .ok key' ∧ key ≠ key' := by
  have hfree : ':' ∉ "shop".toList := by decide
  obtain ⟨key, hkey⟩ := exists_cacheKey_iff.mpr isWritable_standard
  obtain ⟨key', hkey'⟩ := exists_cacheKey_iff.mpr isWritable_standard
  have htold := cacheKey_identifies representable_standard representable_standard hkey hkey'
    fun _ _ htext htext' _ => Except.ok.inj (htext.symm.trans htext')
  refine ⟨representable_standard, hfree, key, key', hkey, hkey', fun h => ?_⟩
  exact absurd ((htold.2.1 (.inl ⟨hfree, hfree⟩)).mp h).2.1 (by decide)

/-- A colon in a name moves the border between the names. -/
theorem cacheKey_not_identifies_colon :
    (∃ key, cacheKey "a:b" "c" standard = .ok key ∧ cacheKey "a" "b:c" standard = .ok key) ∧
      ("a:b", "c") ≠ ("a", "b:c") := by
  have hnames : "a:b" ++ ":" ++ "c" = "a" ++ ":" ++ "b:c" := by decide
  obtain ⟨key, hkey⟩ := exists_cacheKey_iff.mpr isWritable_standard
  refine ⟨⟨key, hkey, ?_⟩, by decide⟩
  rw [cacheKey, cacheKeyBy, hnames] at hkey
  exact hkey

end Settings

end SchemaInference
