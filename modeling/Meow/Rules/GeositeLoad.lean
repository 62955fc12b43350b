import Meow.Rules.GeositeDat
import Meow.Trie.Search

/-!
# Loading the geosite database

`GeositeDB::from_bytes` loads a file of either type, all of it or the categories of a set. This file
shows what a lookup finds in the two loads.

## Main definitions

* `GeositeDb.fromBytes` — `GeositeDB::from_bytes`.
* `neededKeys` — the categories of the database that a lookup asks.

## Main results

* `GeositeDb.lookup_eq_all` — a lookup asks these categories in lower case.
* `fromBytes_allowed` — what is the same when some of the categories are loaded.
* `geosite_load_allowed_and_written` — lookups after a load of some of the categories,
  and after a load of what was written.
-/

namespace Meow.Rules

open Trie List Except RuleEnv

/-- `GeositeError`, as far as `from_bytes` raises it. -/
inductive GeositeError where
  | wrongFormat
  | unexpectedType (typeTag : UInt8)
  | header (text : Str)
  | zstd (text : Str)
  | payload (e : GeositePayloadError)
  deriving DecidableEq

namespace GeositeDb

variable (env : RuleEnv) (readers : MrsReaders)

/-- The trie of a category of the type `mrs`. -/
def buildTrie (domains : List Str) : DomainTrie Unit :=
  (domains.foldl (fun trie d => (DomainTrie.insert env.lc trie d ()).2) .new).seal env.order

/-- The loop of `from_bytes` over the categories. -/
def ofCategories (payload : List (Str × List Str)) : GeositeDb where
  categories := payload.foldl (fun m c => m.insert c.1 (buildTrie env c.2)) ∅
  keywords := ∅
  regexCompiled := ∅

def fromBytes (data : List UInt8) (allowed : Option (List Str)) : Except GeositeError GeositeDb :=
  match parseHeader data with
  | .ok (typeTag, rest) =>
    if typeTag ≠ 0 then .error (.unexpectedType typeTag)
    else do
      let decompressed ← (readers.zstd rest).mapError .zstd
      let payload ← (parseGeositePayload decompressed allowed).mapError .payload
      return ofCategories env payload
  | .error e =>
    if e = mrsWrongFormat then
      (fromDatBytes env allowed data).mapError fun _ => .wrongFormat
    else .error (.header e)

end GeositeDb

/-! ### Lookups -/

/-- The categories of the database that a lookup asks. -/
def neededKeys (category : Str) : List Str :=
  let (base, attrs) := splitCategoryAttrs category
  if attrs = [] then [base] else attrs.map fun attr => base ++ '@' :: attr

open GeositeDb

namespace GeositeDb

variable (order : HashOrder) {db db' : GeositeDb}

/-- The categories of the database are in lower case. -/
def LowerKeys (db : GeositeDb) : Prop :=
  ∀ key, db.bucketExists key = true → toAsciiLowercase key = key

variable {key : Str}

lemma lookupResolved_of_not_exists (h : db.bucketExists key = false) (domain : Str) :
    db.lookupResolved order key domain = false := by
  simp only [bucketExists, Bool.or_eq_false_iff, Option.isSome_eq_false_iff,
    Option.isNone_iff_eq_none] at h
  simp only [lookupResolved, h.1.1, h.1.2, h.2, Option.any_none, Bool.or_self]

lemma mem_keys_iff :
    key ∈ db.categories.keys ++ db.keywords.keys ++ db.regexCompiled.keys ↔
      db.bucketExists key = true := by
  simp only [bucketExists, mem_append, AList.mem_keys, AList.lookup_isSome, Bool.or_eq_true]

/-- A category is asked for in lower case. -/
lemma lookupOne_eq (h : db.LowerKeys) (category domain : Str) :
    db.lookupOne order category domain =
      db.lookupResolved order (toAsciiLowercase category) domain := by
  unfold lookupOne categoryKey
  split_ifs with hupper
  · cases hfind : (db.categories.keys ++ db.keywords.keys ++ db.regexCompiled.keys).find?
        fun key => strEqIgnoreAsciiCase key category with
    | none =>
      refine (lookupResolved_of_not_exists order ?_ domain).symm
      rw [← Bool.not_eq_true]
      intro hexists
      refine absurd ?_ (find?_eq_none.mp hfind _ (mem_keys_iff.mpr hexists))
      simp [strEqIgnoreAsciiCase]
    | some key =>
      have hkey := h key (mem_keys_iff.mp (mem_of_find?_eq_some hfind))
      have hsame := find?_some hfind
      rw [strEqIgnoreAsciiCase, beq_iff_eq, hkey] at hsame
      rw [← hsame]
  · have hlower : toAsciiLowercase category = category := by
      refine (map_congr_left fun c hc => ?_).trans (map_id _)
      refine asciiLower_of_not_upper (Bool.eq_false_iff.mpr fun hc' => hupper ?_)
      exact any_eq_true.mpr ⟨c, hc, hc'⟩
    rw [hlower]

/-- **A lookup** asks the categories that it needs in lower case. -/
lemma lookup_eq_all (h : db.LowerKeys) (category domain : Str) :
    db.lookup order category domain = (neededKeys category).all fun key =>
      db.lookupResolved order (toAsciiLowercase key) domain := by
  unfold lookup neededKeys
  simp only [lookupOne_eq order h]
  rcases splitCategoryAttrs category with ⟨base, attrs⟩
  by_cases hattrs : attrs = []
  · simp [hattrs]
  · simp only [hattrs, if_false, ne_eq, not_false_eq_true, all_map]
    rfl

/-- A category that is the same gives the same answers. -/
lemma SameAt.lookupResolved (h : SameAt key db db') (domain : Str) :
    db'.lookupResolved order key domain = db.lookupResolved order key domain := by
  unfold GeositeDb.lookupResolved
  rw [h.categories, h.keywords, h.regexCompiled]

end GeositeDb

/-! ### The type `mrs` -/

section Mrs

variable (env : RuleEnv) (payload : List (Str × List Str))

/-- The last category of a name counts. -/
lemma lookup_ofCategories (key : Str) :
    (ofCategories env payload).categories.lookup key =
      (payload.reverse.find? fun c => c.1 = key).map fun c => buildTrie env c.2 := by
  induction payload using reverseRecOn with
  | nil => rfl
  | append_singleton payload c ih =>
    show ((payload ++ [c]).foldl _ ∅ : AList _).lookup key = _
    rw [foldl_append, foldl_cons, foldl_nil, lookup_insert_ite, reverse_append,
      reverse_singleton, singleton_append]
    by_cases hkey : key = c.1
    · simp [hkey]
    · have hne : ¬c.1 = key := fun heq => hkey heq.symm
      simp only [if_neg hkey, find?_cons, hne]
      exact ih

lemma bucketExists_ofCategories {payload key}
    (h : (ofCategories env payload).bucketExists key) : ∃ c ∈ payload, c.1 = key := by
  have hsome : ((ofCategories env payload).categories.lookup key).isSome := by
    simpa [bucketExists, ofCategories] using h
  rw [lookup_ofCategories, Option.isSome_map, find?_isSome] at hsome
  obtain ⟨c, hc, hkey⟩ := hsome
  exact ⟨c, mem_reverse.mp hc, of_decide_eq_true hkey⟩

/-- A category that is loaded is loaded alike with some of the others. -/
lemma sameAt_ofCategories {allowed key} (hkey : isAllowed allowed key) :
    GeositeDb.SameAt key (.ofCategories env payload)
      (.ofCategories env (payload.filter fun c => isAllowed allowed c.1)) := by
  refine ⟨?_, rfl, rfl⟩
  rw [lookup_ofCategories, lookup_ofCategories, ← filter_reverse, find?_filter]
  congr 2
  funext c
  by_cases hc : c.1 = key
  · simp [hc, hkey]
  · simp [hc]

end Mrs

/-! ### The type `dat` -/

section Dat

/-- The maps have something of this category. -/
def DatMaps.Has (m : DatMaps) (key : Str) : Prop :=
  (m.categories.lookup key).isSome = true ∨ (m.keywordPatterns.lookup key).isSome = true ∨
    (m.regexPatterns.lookup key).isSome = true

variable {env : RuleEnv} {entry : ParsedDomainEntry} {m : DatMaps} {key : Str}

lemma has_insertAt {key'} (h : (m.insertAt env entry key').Has key) : key = key' ∨ m.Has key := by
  by_cases hkey : key = key'
  · exact .inl hkey
  · refine .inr ?_
    simpa only [DatMaps.Has, DatMaps.insertAt, DatMaps.setBucket, AList.lookup_insert_ne hkey]
      using h

variable {country : Str}

lemma toAsciiLowercase_attr {attr} (hcountry : toAsciiLowercase country = country)
    (hattr : toAsciiLowercase attr = attr) :
    toAsciiLowercase (country ++ '@' :: attr) = country ++ '@' :: attr := by
  unfold toAsciiLowercase at *
  rw [map_append, map_cons, hcountry, hattr]
  rfl

variable {data : List UInt8}

/-- The attributes of a host are read in lower case. -/
lemma lower_of_parseAttributeKey (h : parseAttributeKey data = .ok (some key)) :
    toAsciiLowercase key = key := by
  obtain ⟨fs, -, hfold⟩ := parseFields_eq_ok_iff.mp h
  have hall : ∀ k, some key = some k → toAsciiLowercase k = k := by
    refine foldlM_induction (motive := fun key => ∀ k, key = some k → toAsciiLowercase k = k) ?_
      (fun k (hk : none = some k) => nomatch hk) hfold
    intro f _ key key' ih hstep k hk
    unfold attributeStep at hstep
    cases hvalue : f.1.value with
    | bytes bytes =>
      simp only [hvalue] at hstep
      split_ifs at hstep with hnumber
      · obtain ⟨s, -, hstep⟩ := bind_eq_ok_iff.mp hstep
        have hkey := ok.inj hstep
        split_ifs at hkey
        · exact ih k (hkey.trans hk)
        · rw [hk] at hkey
          rw [← Option.some.inj hkey]
          exact toAsciiLowercase_toAsciiLowercase _
      · exact ih k ((ok.inj hstep).trans hk)
    | _ =>
      simp only [hvalue] at hstep
      exact ih k ((ok.inj hstep).trans hk)
  exact hall key rfl

/-- The host is read with its attributes in lower case. -/
lemma lower_of_parseDomainEntry (h : parseDomainEntry data = .ok (some entry)) :
    ∀ attr ∈ entry.attrs, toAsciiLowercase attr = attr := by
  obtain ⟨s, hscan, h⟩ := bind_eq_ok_iff.mp h
  obtain ⟨fs, -, hfold⟩ := parseFields_eq_ok_iff.mp hscan
  have hattrs : ∀ attr ∈ s.attrs, toAsciiLowercase attr = attr := by
    refine foldlM_induction
      (motive := fun s : DomainScan => ∀ attr ∈ s.attrs, toAsciiLowercase attr = attr) ?_
      (fun attr hattr => absurd hattr not_mem_nil) hfold
    intro ⟨f, pos⟩ _ s s' ih
    fun_cases domainStep s f pos with
    | case3 =>
      intro hstep
      obtain ⟨value, -, hstep⟩ := bind_eq_ok_iff.mp hstep
      cases hstep
      exact ih
    | case4 =>
      intro hstep
      obtain ⟨key, hkey, hstep⟩ := bind_eq_ok_iff.mp hstep
      cases hstep
      intro attr hmem
      rcases mem_append.mp hmem with hmem | hmem
      · exact ih attr hmem
      · rw [Option.mem_toList.mp hmem] at hkey
        exact lower_of_parseAttributeKey hkey
    | _ =>
      rintro ⟨⟩
      exact ih
  cases hvalue : s.value with
  | none => simp [hvalue, pure, Except.pure] at h
  | some value =>
    simp only [hvalue, pure] at h
    split_ifs at h <;> cases h <;> exact hattrs

/-- The categories of the maps are in lower case. -/
def DatMaps.LowerKeys (m : DatMaps) : Prop := ∀ key, m.Has key → toAsciiLowercase key = key

lemma DatMaps.LowerKeys.insertAt (h : m.LowerKeys) (entry : ParsedDomainEntry)
    (hkey : toAsciiLowercase key = key) : (m.insertAt env entry key).LowerKeys := by
  intro key' hhas
  rcases has_insertAt hhas with rfl | hhas
  · exact hkey
  · exact h key' hhas

lemma DatMaps.LowerKeys.insertDomain {m' : DatMaps} (h : m.LowerKeys)
    (hcountry : toAsciiLowercase country = country) {bytes}
    (hm : m.insertDomain env country bytes = .ok m') : m'.LowerKeys := by
  obtain ⟨entry, hentry, hm⟩ := bind_eq_ok_iff.mp hm
  cases entry with
  | none =>
    cases hm
    exact h
  | some entry =>
    cases hm
    have hattrs := lower_of_parseDomainEntry hentry
    refine foldlRecOn entry.attrs _ (h.insertAt entry hcountry) fun m hm attr hattr => ?_
    exact hm.insertAt entry (toAsciiLowercase_attr hcountry (hattrs attr hattr))

/-- Names of categories are read in lower case. -/
lemma lower_of_mem_countryCodes {fs} (h : country ∈ countryCodes fs) :
    toAsciiLowercase country = country := by
  obtain ⟨bytes, -, hname⟩ := mem_filterMap.mp h
  obtain ⟨name, -, rfl⟩ := Option.map_eq_some_iff.mp hname
  exact toAsciiLowercase_toAsciiLowercase name

variable {allowed : Option (List Str)}

lemma DatMaps.LowerKeys.parseGeositeEntry {m' : DatMaps} (h : m.LowerKeys)
    (hm : parseGeositeEntry env allowed m data = .ok m') : m'.LowerKeys := by
  obtain ⟨s, hscan, hm⟩ := bind_eq_ok_iff.mp hm
  obtain ⟨es, -, hfold⟩ := parseFields_eq_ok_iff.mp hscan
  cases hcountry : s.country with
  | none =>
    simp only [hcountry] at hm
    cases hm
    exact h
  | some country =>
    simp only [hcountry] at hm
    have hlower := lower_of_mem_countryCodes (country_mem_of_scan hfold hcountry)
    split_ifs at hm
    · refine foldlM_induction (motive := DatMaps.LowerKeys) ?_ h hm
      exact fun bytes _ m m' hm hstep => hm.insertDomain hlower hstep
    · cases hm
      exact h

/-- **The categories of the database are in lower case.** -/
lemma lowerKeys_fromDatBytes {db : GeositeDb} (h : fromDatBytes env allowed data = .ok db) :
    db.LowerKeys := by
  obtain ⟨m, hm, h⟩ := bind_eq_ok_iff.mp h
  cases h
  obtain ⟨fs, -, hfold⟩ := parseFields_eq_ok_iff.mp hm
  have hlower : m.LowerKeys := by
    refine foldlM_induction (motive := DatMaps.LowerKeys) ?_ ?_ hfold
    · intro f _ m m' hm hstep
      unfold listStep at hstep
      cases hvalue : f.1.value with
      | bytes e =>
        simp only [hvalue] at hstep
        split_ifs at hstep
        · exact hm.parseGeositeEntry hstep
        · exact ok.inj hstep ▸ hm
      | _ =>
        simp only [hvalue] at hstep
        exact ok.inj hstep ▸ hm
    · rintro key (h | h | h) <;> cases h
  intro key hexists
  apply hlower
  simpa [bucketExists, fromParts, lookup_mapValues, DatMaps.Has, or_assoc]
    using hexists

end Dat

/-! ### Both types -/

section Load

variable {env : RuleEnv} {readers : MrsReaders}
  {data : List UInt8} {allowed : Option (List Str)} {db : GeositeDb}

/-- **A file that is loaded** is one of the two types. -/
lemma fromBytes_eq_ok_iff :
    fromBytes env readers data allowed = .ok db ↔
      (∃ rest decompressed payload, parseHeader data = .ok (0, rest) ∧
        readers.zstd rest = .ok decompressed ∧
        parseGeositePayload decompressed allowed = .ok payload ∧
        db = .ofCategories env payload) ∨
      parseHeader data = .error mrsWrongFormat ∧ fromDatBytes env allowed data = .ok db := by
  have hmap : ∀ {ε ε' α : Type} (f : ε → ε') (x : Except ε α) (a : α),
      x.mapError f = .ok a ↔ x = .ok a := by
    intro ε ε' α f x a
    cases x with
    | error e => exact ⟨nofun, nofun⟩
    | ok b => exact ⟨fun h => congrArg _ (ok.inj h), fun h => congrArg _ (ok.inj h)⟩
  unfold fromBytes
  cases hheader : parseHeader data with
  | error e =>
    simp only [error.injEq, reduceCtorEq, false_and, exists_false, false_or]
    split_ifs with he
    · rw [hmap]
      simp only [he, true_and]
    · exact ⟨nofun, fun h => absurd h.1 he⟩
  | ok p =>
    obtain ⟨typeTag, rest⟩ := p
    simp only [ok.injEq, Prod.mk.injEq, reduceCtorEq, false_and, or_false]
    by_cases htag : typeTag = 0
    · rw [if_neg (not_not.mpr htag), bind_eq_ok_iff]
      constructor
      · rintro ⟨decompressed, hzstd, h⟩
        obtain ⟨payload, hpayload, h⟩ := bind_eq_ok_iff.mp h
        exact ⟨rest, decompressed, payload, ⟨htag, rfl⟩, (hmap _ _ _).mp hzstd,
          (hmap _ _ _).mp hpayload, (ok.inj h).symm⟩
      · rintro ⟨rest', decompressed, payload, ⟨-, rfl⟩, hzstd, hpayload, rfl⟩
        refine ⟨decompressed, (hmap _ _ _).mpr hzstd, bind_eq_ok_iff.mpr ⟨payload, ?_, rfl⟩⟩
        exact (hmap _ _ _).mpr hpayload
    · rw [if_pos htag]
      constructor
      · intro h
        cases h
      · rintro ⟨rest', decompressed, payload, ⟨h, -⟩, -⟩
        exact absurd h htag

/-- The categories of a database that is loaded are in lower case. -/
lemma lowerKeys_fromBytes (h : fromBytes env readers data allowed = .ok db) : db.LowerKeys := by
  obtain ⟨rest, decompressed, payload, -, -, hpayload, rfl⟩ | ⟨-, hdat⟩ := fromBytes_eq_ok_iff.mp h
  · intro key hexists
    obtain ⟨c, hc, rfl⟩ := bucketExists_ofCategories env hexists
    obtain ⟨⟨catCount, r⟩, -, hread⟩ := bind_eq_ok_iff.mp hpayload
    exact lower_of_readCategories hread c hc
  · exact lowerKeys_fromDatBytes hdat

/-- Only a file without the magic is of the wrong format. -/
lemma magic_ne_of_wrongFormat
    (h : parseHeader data = .error mrsWrongFormat) : data.take 4 ≠ mrsMagic := by
  intro heq
  rw [parseHeader, if_neg (not_not.mpr heq)] at h
  -- the other errors have other texts
  split at h
  · split_ifs at h
    have htext := congrArg (take 6) (error.inj h)
    exact absurd htext (show str "mrs: u" ≠ str "mrs: w" by decide)
  · have htext := congrArg (take 6) (error.inj h)
    exact absurd htext (show str "mrs: t" ≠ str "mrs: w" by decide)

/-- All that the file has for this category is loaded. -/
def LoadedWhole (data : List UInt8) (allowed : Option (List Str)) (key : Str) : Prop :=
  if data.take 4 = mrsMagic then isAllowed allowed key = true
  else ∀ c, NamesCountry data c → FillsBucket c key → isAllowed allowed c = true

/-- **A file that can be loaded can be loaded in part**, and the categories that are loaded whole
are the same then. -/
lemma fromBytes_allowed (h : fromBytes env readers data none = .ok db)
    (hone : data.take 4 ≠ mrsMagic → OneCountryEach data) (allowed : Option (List Str)) :
    ∃ db', fromBytes env readers data allowed = .ok db' ∧
      ∀ key, LoadedWhole data allowed key → db.SameAt key db' := by
  have hmagic : ∀ rest, parseHeader data = .ok (0, rest) → data.take 4 = mrsMagic := by
    intro rest hheader
    by_contra hne
    rw [parseHeader, if_pos hne] at hheader
    cases hheader
  obtain ⟨rest, decompressed, payload, hheader, hzstd, hpayload, rfl⟩ | ⟨hheader, hdat⟩ :=
    fromBytes_eq_ok_iff.mp h
  · refine ⟨_, fromBytes_eq_ok_iff.mpr (.inl ⟨rest, decompressed, _, hheader, hzstd,
      parseGeositePayload_allowed allowed hpayload, rfl⟩), fun key hkey => ?_⟩
    rw [LoadedWhole, if_pos (hmagic rest hheader)] at hkey
    exact sameAt_ofCategories env payload hkey
  · have hne := magic_ne_of_wrongFormat hheader
    obtain ⟨db', hdb', hsame⟩ := fromDatBytes_allowed hdat (hone hne) allowed
    refine ⟨db', fromBytes_eq_ok_iff.mpr (.inr ⟨hheader, hdb'⟩), fun key hkey => ?_⟩
    rw [LoadedWhole, if_neg hne] at hkey
    exact hsame key hkey

/-! ### Reading back -/

/-- A lookup of the category asks for the category itself. -/
def AsksItself (name : Str) : Prop :=
  (neededKeys name).map toAsciiLowercase = [toAsciiLowercase name]

/-- A trie finds the name that was entered: one of its patterns matches it. -/
def Findable (lc : Lowercase) (domain : Str) : Prop :=
  ∃ p ∈ patternsOf lc (toAsciiLowercase domain), p.Matches (normalizeQuery domain)

lemma search_buildTrie {domains : List Str} {domain} (hmem : domain ∈ domains)
    (h : Findable env.lc domain) :
    ((buildTrie env (domains.map toAsciiLowercase)).search env.order domain).isSome =
      true := by
  have hbuild : buildTrie env (domains.map toAsciiLowercase) =
      (build env.lc (domains.map fun d => (toAsciiLowercase d, ()))).seal env.order := by
    rw [buildTrie, build, foldl_map, foldl_map]
  rw [← Option.ne_none_iff_isSome, hbuild, ne_eq, search_seal_build_eq_none_iff]
  intro hnone
  obtain ⟨p, hp, hmatch⟩ := h
  exact hnone p ⟨_, mem_map.mpr ⟨domain, hmem, rfl⟩, hp⟩ hmatch

variable (env) in
/-- A category is found under its name if no other has the name. -/
lemma lookup_ofCategories_of_nodup {payload : List (Str × List Str)}
    (hnodup : (payload.map Prod.fst).Nodup) {c} (hc : c ∈ payload) :
    (ofCategories env payload).categories.lookup c.1 =
      some (buildTrie env c.2) := by
  rw [lookup_ofCategories]
  have hsome : (payload.reverse.find? fun c' => c'.1 = c.1).isSome :=
    find?_isSome.mpr ⟨c, mem_reverse.mpr hc, decide_eq_true rfl⟩
  obtain ⟨c', hc'⟩ := Option.isSome_iff_exists.mp hsome
  have hmem := mem_reverse.mp (mem_of_find?_eq_some hc')
  have hfound := find?_some hc'
  have hname : c'.1 = c.1 := of_decide_eq_true hfound
  rw [hc', inj_on_of_nodup_map hnodup hmem hc hname]
  rfl

variable (env) in
/-- The set has the category, and all names that it could be an attribute of. -/
def Covers (set : List Str) (key : Str) : Prop :=
  key ∈ set ∧ ∀ country attr, key = country ++ '@' :: attr → country ∈ set

lemma Covers.loadedWhole {set key} (h : Covers set key) (data : List UInt8) :
    LoadedWhole data (some set) key := by
  unfold LoadedWhole
  split_ifs with hmagic
  · exact contains_iff_mem.mpr h.1
  · rintro c - (rfl | ⟨attr, hattr⟩)
    · exact contains_iff_mem.mpr h.1
    · exact contains_iff_mem.mpr (h.2 c attr hattr)

variable (env) in
/-- **Loading some of the categories, and loading what was written.** If a file of either type can
be loaded, and no entry of a file of the type `dat` has two names, then it can be loaded with any
set of categories, and lookups of categories that the set covers give the same. What is written
with different names (up to case) that fit their fields can be loaded, and every name that a trie
can find is found in its category.

**Proof sketch.** A lookup asks for categories in lower case, as they are in every database. An
entry of the file that is not in the set fills no category that the set covers; the entries in the
set are read in the same way in both loads. -/
theorem geosite_load_allowed_and_written (codec : ZstdCodec readers) :
    (∀ data db, GeositeDb.fromBytes env readers data none = .ok db →
      (data.take 4 ≠ mrsMagic → OneCountryEach data) → ∀ set, ∃ db',
        GeositeDb.fromBytes env readers data (some set) = .ok db' ∧ ∀ category,
          (∀ key ∈ neededKeys category, Covers set (toAsciiLowercase key)) → ∀ domain,
            db'.lookup env.order category domain = db.lookup env.order category domain) ∧
    ∀ categories : List (Str × List Str), categories.length < 4294967296 →
      (∀ c ∈ categories, CategoryFits c) →
      (categories.map fun c => toAsciiLowercase c.1).Nodup → ∃ db,
        GeositeDb.fromBytes env readers (writeGeositeMrs codec.encodeAll categories) none = .ok db ∧
          ∀ c ∈ categories, AsksItself c.1 → ∀ d ∈ c.2, Findable env.lc d →
            db.lookup env.order c.1 d = true := by
  constructor
  · intro data db hdb hone set
    obtain ⟨db', hdb', hsame⟩ := fromBytes_allowed hdb hone (some set)
    refine ⟨db', hdb', fun category hcovers domain => ?_⟩
    rw [lookup_eq_all _ (lowerKeys_fromBytes hdb'), lookup_eq_all _ (lowerKeys_fromBytes hdb),
      Bool.eq_iff_iff, all_eq_true, all_eq_true]
    refine forall₂_congr fun key hkey => ?_
    rw [(hsame _ ((hcovers key hkey).loadedWhole data)).lookupResolved]
  · intro categories hcount hfits hnodup
    have hload := (@fromBytes_eq_ok_iff env readers (writeGeositeMrs codec.encodeAll categories)
      none _).mpr (.inl ⟨_, _, _, rfl, codec.zstd_encodeAll _,
        parseGeositePayload_encode hcount hfits, rfl⟩)
    refine ⟨_, hload, fun c hc hasks d hd hfind => ?_⟩
    have hmem : lowerCategory c ∈ categories.map lowerCategory := mem_map.mpr ⟨c, hc, rfl⟩
    have hnames : ((categories.map lowerCategory).map Prod.fst).Nodup := by
      rw [map_map]
      exact hnodup
    have hlookup := lookup_ofCategories_of_nodup env hnames hmem
    have hone : (neededKeys c.1).all (fun key => lookupResolved env.order
        (.ofCategories env (categories.map lowerCategory)) (toAsciiLowercase key) d) =
        ((neededKeys c.1).map toAsciiLowercase).all fun key => lookupResolved env.order
          (.ofCategories env (categories.map lowerCategory)) key d := by
      rw [all_map]
      rfl
    rw [lookup_eq_all _ (lowerKeys_fromBytes hload), hone, hasks]
    simp only [all_cons, all_nil, lookupResolved]
    rw [show toAsciiLowercase c.1 = (lowerCategory c).1 from rfl, hlookup, Option.any_some,
      lowerCategory, search_buildTrie hd hfind]
    rfl

end Load

/-- A file with one name in one category, loaded with all categories and with this one. -/
theorem geosite_load_one_category :
    let file := writeGeositeMrs id [(str "CN", [str "A.com"])]
    ∃ db db', fromBytes .plain storedReaders file none = .ok db ∧
      db.lookup RuleEnv.plain.order (str "CN") (str "A.com") ∧
      fromBytes .plain storedReaders file (some [str "cn"]) = .ok db' ∧
      ∀ domain, db'.lookup RuleEnv.plain.order (str "CN") domain =
        db.lookup RuleEnv.plain.order (str "CN") domain := by
  intro file
  obtain ⟨hallowed, hwritten⟩ := geosite_load_allowed_and_written .plain storedCodec
  have hfits : ∀ c ∈ [(str "CN", [str "A.com"])], CategoryFits c := by
    intro c hc
    obtain rfl := mem_singleton.mp hc
    refine ⟨?_, by decide, fun d hd => ?_⟩
    · show (asBytes (str "CN")).length < 65536
      decide
    · obtain rfl := mem_singleton.mp hd
      show (asBytes (str "A.com")).length < 65536
      decide
  obtain ⟨db, hdb, hfind⟩ := hwritten [(str "CN", [str "A.com"])] (by decide) hfits (by decide)
  obtain ⟨db', hdb', hsame⟩ := hallowed file db hdb (fun h => absurd rfl h) [str "cn"]
  refine ⟨db, db', hdb, ?_, hdb', ?_⟩
  · have hfindable : Findable plain.lc (str "A.com") :=
      ⟨⟨.exact, str "a.com"⟩, by decide, by show normalizeQuery (str "A.com") = _; decide⟩
    exact hfind _ mem_cons_self (by unfold AsksItself; decide) _ mem_cons_self hfindable
  · have hkeys : ∀ key ∈ neededKeys (str "CN"), Covers [str "cn"] (toAsciiLowercase key) := by
      intro key hkey
      rw [show neededKeys (str "CN") = [str "CN"] by decide] at hkey
      obtain rfl := mem_singleton.mp hkey
      refine ⟨by decide, fun country attr h => ?_⟩
      have hat : '@' ∈ toAsciiLowercase (str "CN") := by
        rw [h]
        exact mem_append_right _ mem_cons_self
      exact absurd hat (by decide)
    exact hsame (str "CN") hkeys

/-- A file of the type `dat` with one category that has one host, in which the category is named
twice. -/
def twoNames : List UInt8 :=
  [10, 19, 10, 2, 117, 115, 18, 9, 8, 3, 18, 5, 97, 46, 99, 111, 109, 10, 2, 99, 110]

/-- What a lookup finds in the file. -/
def lookupIn (data : List UInt8) (allowed : Option (List Str)) (category domain : Str) :
    Option Bool :=
  (GeositeDb.fromBytes .plain storedReaders data allowed).toOption.map fun db =>
    db.lookup RuleEnv.plain.order category domain

/-- A set with a name in upper case loads nothing under it, the second of two categories of one name
is loaded only, and a category with two names is loaded without its hosts. -/
theorem geosite_load_not_same :
    (lookupIn (writeGeositeMrs id [(str "cn", [str "a.com"])]) none (str "CN") (str "a.com") =
        some true ∧
      lookupIn (writeGeositeMrs id [(str "cn", [str "a.com"])]) (some [str "CN"]) (str "CN")
        (str "a.com") = some false) ∧
    lookupIn (writeGeositeMrs id [(str "cn", [str "a.com"]), (str "CN", [str "b.com"])]) none
      (str "cn") (str "a.com") = some false ∧
    lookupIn twoNames none (str "cn") (str "a.com") = some true ∧
    lookupIn twoNames (some [str "cn"]) (str "cn") (str "a.com") = some false := by
  decide +kernel

end Meow.Rules
