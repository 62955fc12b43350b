import Meow.Rules.RuleSet

/-!
# Writing binary rule sets

`write_ruleset_mrs` writes a binary file of any of the three behaviours that
`build_rule_set_from_mrs` reads. It writes the entries in one way, each with its length in two bytes
in front. The loader reads the files of two behaviours in this way and expects the addresses of an
ip-cidr file in another.

## Main definitions

* `ZstdCodec` — what is known of the compression.
* `writeRulesetMrs` — `write_ruleset_mrs`.

## Main results

* `buildRuleSetFromMrs_writeRulesetMrs` — files of domains and of rules are read back.
* `readMrs_writeRulesetMrs_ipCidr` — files of addresses are not.
-/

namespace Meow.Rules

open List UInt8

/-- The type tag of a behaviour. -/
def RuleSetBehavior.typeTag : RuleSetBehavior → UInt8
  | domain => 0
  | ipCidr => 1
  | classical => 2

/-- The library `zstd`: `encode_all` compresses what is in memory, and decompressing gives it
back. -/
structure ZstdCodec (readers : MrsReaders) where
  encodeAll : List UInt8 → List UInt8
  zstd_encodeAll : ∀ bytes, readers.zstd (encodeAll bytes) = .ok bytes

/-- The entries as `write_ruleset_mrs` writes them, for all behaviours. -/
def stringListPayload (entries : List Str) : List UInt8 :=
  entries.flatMap fun e => u16be (asBytes e).length ++ asBytes e

def writeRulesetMrs (encodeAll : List UInt8 → List UInt8) (typeTag : UInt8) (entries : List Str) :
    List UInt8 :=
  mrsMagic ++ ([1, typeTag] ++ (u32be entries.length ++ encodeAll (stringListPayload entries)))

variable (env : RuleEnv) {readers : MrsReaders}

/-- The tags of the writer are those of the loader. -/
lemma behaviorFromTypeTag_typeTag (behavior : RuleSetBehavior) :
    behaviorFromTypeTag behavior.typeTag = .ok behavior := by
  cases behavior <;> rfl

variable {expected : Option RuleSetBehavior}

lemma checkBehavior_self {actual} (h : ∀ b ∈ expected, b = actual) :
    checkBehavior expected actual = .ok () := by
  cases expected with
  | none => rfl
  | some b => rw [checkBehavior, if_neg (not_not.mpr (h b rfl))]

variable (codec : ZstdCodec readers)

/-- The header is accepted whatever the behaviour, and the payload decides. -/
lemma readMrs_writeRulesetMrs (behavior : RuleSetBehavior) (entries : List Str)
    (hexpected : ∀ b ∈ expected, b = behavior) :
    readMrs readers (writeRulesetMrs codec.encodeAll behavior.typeTag entries) expected =
      (payloadEntries readers behavior (stringListPayload entries)).map (behavior, ·) := by
  have hheader : parseHeader (writeRulesetMrs codec.encodeAll behavior.typeTag entries) =
      .ok (behavior.typeTag, codec.encodeAll (stringListPayload entries)) := rfl
  rw [readMrs, hheader]
  simp only [bind, Except.bind, behaviorFromTypeTag_typeTag, checkBehavior_self hexpected,
    codec.zstd_encodeAll, Except.mapError]
  rcases payloadEntries readers behavior (stringListPayload entries) with e | es <;> rfl

/-- Entries of at most `65535` bytes are read back. -/
lemma parseStringListPayload_stringListPayload (readers : MrsReaders) (entries : List Str)
    (hfit : ∀ e ∈ entries, (asBytes e).length < 65536) (pos : ℕ) :
    parseStringListPayload readers pos (stringListPayload entries) = .ok entries := by
  induction entries generalizing pos with
  | nil =>
    show parseStringListPayload readers pos [] = .ok []
    rw [parseStringListPayload]
  | cons e entries ih =>
    have he := hfit e mem_cons_self
    have hlen := ofU16be_u16be he
    have hbytes : stringListPayload (e :: entries) =
        ofNat ((asBytes e).length / 256) :: ofNat (asBytes e).length ::
          (asBytes e ++ stringListPayload entries) := by
      rfl
    unfold ofU16be at hlen
    rw [hbytes, parseStringListPayload]
    simp only [hlen, take_left, drop_left, fromUtf8_asBytes]
    rw [if_neg (by rw [length_append]; omega), ih (fun e he => hfit e (mem_cons_of_mem _ he))]
    rfl

/-- **Domains and rules are read back.** For a behaviour other than ip-cidr and entries that fit
their length fields, the loader accepts the file that the writer writes and builds the rule set of
the entries, the same as without a file; so does it for an empty ip-cidr file. -/
theorem buildRuleSetFromMrs_writeRulesetMrs (codec : ZstdCodec readers) (ctx : ParserContext)
    (behavior : RuleSetBehavior) (entries : List Str) (expected : Option RuleSetBehavior)
    (hexpected : ∀ b ∈ expected, b = behavior) (hkind : behavior = .ipCidr → entries = [])
    (hfit : ∀ e ∈ entries, (asBytes e).length < 65536) :
    buildRuleSetFromMrsWithBehavior env readers
        (writeRulesetMrs codec.encodeAll behavior.typeTag entries) ctx expected =
      .ok (buildRuleSet env behavior entries ctx) := by
  rw [buildRuleSetFromMrsWithBehavior, readMrs_writeRulesetMrs codec behavior entries hexpected]
  have hentries : payloadEntries readers behavior (stringListPayload entries) = .ok entries := by
    cases behavior with
    | domain | classical => exact parseStringListPayload_stringListPayload readers entries hfit 0
    | ipCidr =>
      rw [hkind rfl]
      show parseIpcidrPayload [] = .ok []
      rw [parseIpcidrPayload]
  rw [hentries]
  rfl

/-- **Addresses are not read back**: the loader takes the length of the first entry for the family
of an address. -/
lemma readMrs_writeRulesetMrs_ipCidr (e : Str) (entries : List Str)
    (he : (asBytes e).length < 1024) :
    ∃ text, readMrs readers (writeRulesetMrs codec.encodeAll
      RuleSetBehavior.ipCidr.typeTag (e :: entries)) none = .error text := by
  rw [readMrs_writeRulesetMrs codec .ipCidr (e :: entries) (by intro b hb; cases hb)]
  have hhigh : (ofNat ((asBytes e).length / 256)).toNat = (asBytes e).length / 256 := by
    rw [toNat_ofNat']
    omega
  have hfamily : ¬(ofNat ((asBytes e).length / 256) = 4 ∨
      ofNat ((asBytes e).length / 256) = 16) := by
    rw [← UInt8.toNat_inj, ← UInt8.toNat_inj, hhigh]
    show ¬((asBytes e).length / 256 = 4 ∨ (asBytes e).length / 256 = 16)
    omega
  have hbytes : stringListPayload (e :: entries) =
      ofNat ((asBytes e).length / 256) :: (ofNat (asBytes e).length ::
        (asBytes e ++ stringListPayload entries)) := by
    rfl
  rw [payloadEntries, hbytes, parseIpcidrPayload, if_neg hfamily]
  exact ⟨_, rfl⟩

/-! ### Files that are stored -/

/-- Readers for files that are stored without compression. -/
def storedReaders : MrsReaders where
  zstd := .ok
  upstream _ := .error []
  utf8Error _ := []

/-- The compression that stores. -/
def storedCodec : ZstdCodec storedReaders := ⟨id, fun _ => rfl⟩

/-- A file with one domain. -/
theorem buildRuleSetFromMrs_writeRulesetMrs_stored :
    buildRuleSetFromMrsWithBehavior .plain storedReaders
        (writeRulesetMrs id RuleSetBehavior.domain.typeTag [str "example.com"]) {} none =
      .ok (buildRuleSet .plain .domain [str "example.com"] {}) :=
  buildRuleSetFromMrs_writeRulesetMrs .plain storedCodec {} .domain [str "example.com"] none
    nofun nofun (by decide)

/-- A text of one letter has one byte for each character. -/
lemma asBytes_replicate (n : ℕ) : asBytes (replicate n 'z') = replicate n 122 := by
  induction n with
  | zero => rfl
  | succ n ih =>
    rw [replicate_succ, replicate_succ, ← ih]
    rfl

/-- Reading takes two letters for a length of `31354` bytes. -/
lemma parseStringListPayload_replicate (readers : MrsReaders) (pos n : ℕ) :
    parseStringListPayload readers pos (replicate (n + 2) 122) =
      if n < 31354 then
        .error (str "mrs: truncated string entry at offset " ++ natToStr (pos + 2))
      else (parseStringListPayload readers (pos + 2 + 31354) (replicate (n - 31354) 122)).map
        (replicate 31354 'z' :: ·) := by
  have hlen : (122 : UInt8).toNat * 256 + (122 : UInt8).toNat = 31354 := rfl
  rw [replicate_succ, replicate_succ, parseStringListPayload]
  simp only [hlen, length_replicate, take_replicate, drop_replicate]
  split_ifs with hshort
  · rfl
  · rw [Nat.min_eq_left (Nat.le_of_not_lt hshort), ← asBytes_replicate, fromUtf8_asBytes]
    rcases parseStringListPayload readers (pos + 2 + 31354) _ with e | es <;> rfl

/-- Two zeros are an empty entry. -/
lemma parseStringListPayload_empty (readers : MrsReaders) (rest : List UInt8) :
    parseStringListPayload readers 0 (0 :: 0 :: rest) =
      (parseStringListPayload readers 2 rest).map ([] :: ·) := by
  have hlen : (0 : UInt8).toNat * 256 + (0 : UInt8).toNat = 0 := rfl
  have hnil : fromUtf8 [] = some [] := fromUtf8_asBytes []
  rw [parseStringListPayload]
  simp only [hlen, Nat.not_lt_zero, take_zero, drop_zero, hnil]
  rcases parseStringListPayload readers (0 + 2 + 0) rest with e | es <;> rfl

/-- The length of `65536` letters is written as zero, and the letters are read as lengths. -/
lemma payloadEntries_long {n} (hn : n = 65536) :
    ∃ text, payloadEntries storedReaders .domain (stringListPayload [replicate n 'z']) =
      .error text := by
  have hhigh : ofNat (n / 256) = 0 := by rw [hn]; decide
  have hlow : ofNat n = 0 := by rw [hn]; decide
  have hbytes : stringListPayload [replicate n 'z'] = 0 :: 0 :: replicate n 122 := by
    rw [stringListPayload, flatMap_singleton, asBytes_replicate, length_replicate, u16be,
      hhigh, hlow]
    rfl
  rw [payloadEntries, hbytes, parseStringListPayload_empty]
  have h₁ := parseStringListPayload_replicate storedReaders 2 (n - 2)
  have h₂ := parseStringListPayload_replicate storedReaders (2 + 2 + 31354) (n - 31358)
  have h₃ := parseStringListPayload_replicate storedReaders (2 + 2 + 31354 + 2 + 31354) (n - 62714)
  rw [if_neg (by omega), (by omega : n - 2 + 2 = n),
    (by omega : n - 2 - 31354 = n - 31358 + 2)] at h₁
  rw [if_neg (by omega), (by omega : n - 31358 - 31354 = n - 62714 + 2)] at h₂
  rw [if_pos (by omega)] at h₃
  rw [h₁, h₂, h₃]
  exact ⟨_, rfl⟩

/-- A file with one network, and a file with a domain that is too long for its length field. -/
theorem writeRulesetMrs_not_read :
    (∃ text, buildRuleSetFromMrsWithBehavior .plain storedReaders
        (writeRulesetMrs id RuleSetBehavior.ipCidr.typeTag [str "10.0.0.0/8"]) {} none =
      .error text) ∧
    ∃ entry text, (asBytes entry).length = 65536 ∧
      buildRuleSetFromMrsWithBehavior .plain storedReaders
        (writeRulesetMrs id RuleSetBehavior.domain.typeTag [entry]) {} none = .error text := by
  constructor
  · obtain ⟨text, h⟩ := readMrs_writeRulesetMrs_ipCidr storedCodec (str "10.0.0.0/8") [] (by decide)
    refine ⟨text, ?_⟩
    exact congrArg (· >>= _) h
  · obtain ⟨n, hn⟩ : ∃ n, n = 65536 := ⟨_, rfl⟩
    obtain ⟨text, htext⟩ := payloadEntries_long hn
    have hread := readMrs_writeRulesetMrs storedCodec .domain [replicate n 'z']
      (show ∀ b ∈ none, b = RuleSetBehavior.domain from nofun)
    rw [htext] at hread
    refine ⟨replicate n 'z', text, ?_, ?_⟩
    · rw [asBytes_replicate, length_replicate, hn]
    · exact congrArg (· >>= _) hread

end Meow.Rules
