import Meow.Trie.DomainTrie

/-!
# Searching the domain trie

The four walks of the trie find the same child, and so the same value. What they look at is a
list of candidates in the order of preference: the pattern that is the query itself, then, from
the longest one on, the patterns that a suffix of the query makes. The first candidate that was
inserted is the answer, with the value that was inserted for it first.

## Main definitions

* `Pattern`, `Pattern.Matches`, `Pattern.Beats` — the patterns, which
  names they match, and which one is more specific.
* `firstValue` — the value inserted first for a pattern.
* `candidates` — the paths that a search looks at.

## Main results

* `searchLoop_eq` — what the walk computes.
* `search_most_specific` — a search gives the first value of the most specific pattern.
* `searchMinNormalized_least` — the search of the rules gives the least value of a pattern.
-/

namespace Meow.Trie

open List Char DomainTrie PrefixTree

/-! ### The four ways to a child -/

section Child

variable {T : Type}

/-- The keys of a node's children: different, and in lower case. -/
def LowerKeys (keys : List Str) : Prop := keys.Nodup ∧ ∀ k ∈ keys, toAsciiLowercase k = k

/-- The keys of a sealed node's children: in the order of their bytes, and in lower case. -/
def SortedKeys (keys : List Str) : Prop :=
  keys.Pairwise (fun a b => compare (asBytes a) (asBytes b) = .lt) ∧
    ∀ k ∈ keys, toAsciiLowercase k = k

lemma eqIgnoreAsciiCase_iff (a b : List UInt8) :
    eqIgnoreAsciiCase a b ↔ a.map byteLower = b.map byteLower := by
  unfold eqIgnoreAsciiCase
  induction a generalizing b with
  | nil => cases b <;> simp
  | cons x a ih =>
    cases b with
    | nil => simp
    | cons y b =>
      have hih := ih b
      simp only [Bool.and_eq_true, beq_iff_eq, length_cons, Nat.add_right_cancel_iff,
        zip_cons_cons, all_cons, map_cons, cons.injEq] at hih ⊢
      tauto

/-- A key in lower case is the label up to case if it is the label in lower case. -/
lemma eqIgnoreAsciiCase_label {k} (hk : toAsciiLowercase k = k) (label : Str) :
    eqIgnoreAsciiCase (asBytes k) (asBytes label) ↔ k = toAsciiLowercase label := by
  rw [eqIgnoreAsciiCase_iff, ← asBytes_toAsciiLowercase, ← asBytes_toAsciiLowercase,
    asBytes_injective.eq_iff, hk]

lemma childBuildCaseInsensitive_eq (order : HashOrder) {node : BuildNode T}
    (h : node.AllNodes LowerKeys) (label : Str) :
    childBuildCaseInsensitive order node label =
      lookupKey (toAsciiLowercase label) node.children := by
  obtain ⟨hnodup, hlower⟩ := h.keys_children
  have hperm := order.perm node.children
  rw [← lookupKey_perm hperm ((hperm.map _).nodup_iff.mpr hnodup), childBuildCaseInsensitive]
  congr 1
  refine find?_congr fun e he => ?_
  have hkey : toAsciiLowercase e.1 = e.1 :=
    hlower e.1 (mem_map.mpr ⟨e, hperm.mem_iff.mp he, rfl⟩)
  rw [Bool.eq_iff_iff, eqIgnoreAsciiCase_label hkey, decide_eq_true_eq]

/-- The bytes are compared with those of the label in lower case. -/
lemma cmpAsciiLowerToMixed_eq (lower mixed : List UInt8) :
    cmpAsciiLowerToMixed lower mixed = compare lower (mixed.map byteLower) := by
  induction lower generalizing mixed with
  | nil => cases mixed <;> rfl
  | cons a lower ih =>
    cases mixed with
    | nil => rfl
    | cons b mixed =>
      have hcons : compare (a :: lower) ((b :: mixed).map byteLower) =
          (compare a (byteLower b)).then (compare lower (mixed.map byteLower)) :=
        List.compareLex_cons_cons
      rw [hcons, ← ih mixed]
      simp only [cmpAsciiLowerToMixed, zip_cons_cons, cmpPairs, length_cons]
      cases compare a (byteLower b) with
      | lt => rfl
      | gt => rfl
      | eq =>
        have hlen : compare (lower.length + 1) (mixed.length + 1) =
            compare lower.length mixed.length := by
          simp [Nat.compare_eq_ite_lt]
        rw [hlen]
        rfl

/-- Sorted keys are divided by every label. -/
lemma SortedKeys.divided {τ : Type} {l : List (Str × τ)} (h : SortedKeys (l.map Prod.fst))
    (bytes : List UInt8) : Divided (fun e => compare (asBytes e.1) bytes) l := by
  refine (pairwise_map.mp h.1).imp fun {a b} hab hle => ?_
  rw [Std.OrientedCmp.gt_iff_lt]
  refine Std.TransCmp.lt_of_isLE_of_lt ?_ hab
  have hswap : compare bytes (asBytes a.1) = (compare (asBytes a.1) bytes).swap :=
    Std.OrientedCmp.eq_swap
  rw [hswap]
  cases hcmp : compare (asBytes a.1) bytes with
  | lt => exact absurd hcmp hle
  | eq => rfl
  | gt => rfl

variable {node : SealedNode T} (h : node.AllNodes SortedKeys)
include h

/-- A binary search for a key finds the child under it. -/
lemma binarySearch_child (key : Str) :
    ((binarySearchBy (fun e => compare (asBytes e.1) (asBytes key)) node.children).bind
      fun idx => (node.children[idx]?).map Prod.snd) = lookupKey key node.children := by
  have hfind := binarySearchBy_eq_find (h.keys_children.divided (asBytes key))
  have hkey : (node.children.find? fun e => compare (asBytes e.1) (asBytes key) = .eq) =
      node.children.find? fun e => e.1 = key := by
    refine find?_congr fun e _ => ?_
    rw [decide_eq_decide, Std.LawfulEqCmp.compare_eq_iff_eq, asBytes_injective.eq_iff]
  rw [lookupKey, ← hkey, ← hfind, Option.map_bind]
  rfl

lemma childSealed_eq (label : Str) :
    childSealed node label = lookupKey label node.children := binarySearch_child h label

lemma childSealedCaseInsensitive_eq (label : Str) :
    childSealedCaseInsensitive node label =
      lookupKey (toAsciiLowercase label) node.children := by
  rw [← binarySearch_child h, childSealedCaseInsensitive, asBytes_toAsciiLowercase]
  simp only [cmpAsciiLowerToMixed_eq]

end Child

/-! ### Names and labels -/

section Labels

lemma asciiLower_eq_dot (c : Char) : asciiLower c = '.' ↔ c = '.' := by
  rw [← toNat_inj, ← toNat_inj, toNat_asciiLower]
  show _ = 46 ↔ _ = 46
  split_ifs <;> omega

/-- Changing characters other than the separator leaves where a text is split. -/
lemma splitOn_map {f sep} (hf : ∀ c, f c = sep ↔ c = sep) (s : Str) :
    (s.map f).splitOn sep = (s.splitOn sep).map (map f) := by
  induction s with
  | nil => rfl
  | cons c s ih =>
    rw [map_cons, splitOn_cons_eq_if_modifyHead, splitOn_cons_eq_if_modifyHead, ih]
    by_cases hc : c = sep
    · simp [hc, (hf sep).mpr rfl]
    · simp only [beq_iff_eq, hf, hc]
      cases s.splitOn sep <;> rfl

lemma rsplit_toAsciiLowercase (s : Str) :
    rsplit '.' (toAsciiLowercase s) = (rsplit '.' s).map toAsciiLowercase := by
  rw [rsplit, rsplit, toAsciiLowercase, splitOn_map asciiLower_eq_dot, map_reverse]
  rfl

lemma length_rsplit (s : Str) : (rsplit '.' s).length = labelCount s := by
  rw [rsplit, length_reverse, labelCount]
  induction s with
  | nil => rfl
  | cons c s ih =>
    rw [splitOn_cons_eq_if_modifyHead]
    by_cases hc : c = '.'
    · simp [hc, ih]
    · rw [if_neg (by simpa using hc), length_modifyHead, ih, count_cons_of_ne hc]

lemma rsplit_injective : Function.Injective (rsplit '.') := by
  intro s s' h
  have hsplit : s.splitOn '.' = s'.splitOn '.' := reverse_injective h
  simpa [intercalate_splitOn] using congrArg (intercalate ['.']) hsplit

lemma rsplit_ne_nil (s : Str) : rsplit '.' s ≠ [] := by
  simp [rsplit, splitOn_ne_nil]

/-- The labels of a name with more in front. -/
lemma rsplit_append_dot (front base : Str) :
    rsplit '.' (front ++ '.' :: base) = rsplit '.' base ++ rsplit '.' front := by
  rw [rsplit, splitOn_append_cons_self, reverse_append]
  rfl

/-- A text is cut at a separator wherever its parts are. -/
lemma exists_of_splitOn_eq_append {q : Str} {parts rest : List Str} (hparts : parts ≠ [])
    (hrest : rest ≠ []) (h : q.splitOn '.' = parts ++ rest) :
    ∃ front base, q = front ++ '.' :: base ∧ front.splitOn '.' = parts ∧
      base.splitOn '.' = rest := by
  induction parts generalizing q with
  | nil => exact absurd rfl hparts
  | cons part parts ih =>
    obtain ⟨hpart, ⟨hnil, -⟩ | ⟨back, rfl, hback⟩⟩ := cases_of_splitOn h
    · exact absurd (append_eq_nil_iff.mp hnil).2 hrest
    · by_cases hnil : parts = []
      · subst hnil
        exact ⟨part, back, rfl, splitOn_eq_singleton hpart, hback⟩
      · obtain ⟨front, base, rfl, hfront, hbase⟩ := ih hnil hback
        refine ⟨part ++ '.' :: front, base, by simp, ?_, hbase⟩
        rw [splitOn_append_cons_self, splitOn_eq_singleton hpart, hfront]
        rfl

/-- A beginning of the labels, the last one first, is a name of its own, and the rest is the name
in front. -/
lemma exists_of_rsplit_eq_append {q labels rest} (hlabels : labels ≠ []) (hrest : rest ≠ [])
    (h : rsplit '.' q = labels ++ rest) :
    ∃ front base, q = front ++ '.' :: base ∧ rsplit '.' base = labels ∧
      rsplit '.' front = rest := by
  have hsplit : q.splitOn '.' = rest.reverse ++ labels.reverse := by
    rw [← reverse_append, ← h, rsplit, reverse_reverse]
  obtain ⟨front, base, hq, hfront, hbase⟩ :=
    exists_of_splitOn_eq_append (by simpa using hrest) (by simpa using hlabels) hsplit
  exact ⟨front, base, hq, by rw [rsplit, hbase, reverse_reverse],
    by rw [rsplit, hfront, reverse_reverse]⟩

end Labels

/-! ### The walk -/

open NodeValues

/-- The value of one kind. -/
def NodeValues.get {T : Type} (v : NodeValues T) : MatchKind → Option T
  | .exact => v.exactValue
  | .star => v.starValue
  | .dot => v.dotValue

/-- What a search looks at below the path `path`, in the order of preference: the whole query,
then its suffixes from the longest one on, with one label in front before any labels in front. -/
def candidates (path : List Str) : List Str → List (MatchKind × List Str)
  | [] => []
  | [label] => [(.exact, path ++ [label])]
  | [label, label'] =>
    [(.exact, path ++ [label, label']), (.star, path ++ [label]), (.dot, path ++ [label])]
  | label :: label' :: label'' :: labels =>
    candidates (path ++ [label]) (label' :: label'' :: labels) ++ [(.dot, path ++ [label])]

section Walk

variable {T : Type}

lemma foldMin_min? [LinearOrder T] (values : List T) (c : Option T) :
    foldMin values.min? c = (c.toList ++ values).min? := by
  cases c with
  | none => rfl
  | some c =>
    rw [Option.toList_some, singleton_append, min?_cons]
    cases values.min? with
    | none => rfl
    | some b =>
      rw [foldMin, Option.elim_some, min_comm, min_def]
      split_ifs <;> rfl

lemma min?_congr [LinearOrder T] {l l' : List T} (h : ∀ v, v ∈ l ↔ v ∈ l') : l.min? = l'.min? := by
  ext v
  simp only [min?_eq_some_iff, h]

variable (root : PrefixTree Str (NodeValues T))

/-- The value of a candidate. -/
def candidateValue (c : MatchKind × List Str) : Option T := (root.valueAt c.2).get c.1

variable {path : List Str} {c : MatchKind × List Str} {label : Str} {labels : List Str}

lemma mem_candidates_cons (hlabels : labels ≠ []) : c ∈ candidates path (label :: labels) ↔
      c ∈ candidates (path ++ [label]) labels ∨
        (labels.length = 1 ∧ c = (.star, path ++ [label])) ∨ c = (.dot, path ++ [label]) := by
  rcases labels with _ | ⟨label', _ | ⟨label'', labels⟩⟩
  · exact absurd rfl hlabels
  · simp [candidates]
  · simp [candidates]

lemma prefix_of_mem_candidates (h : c ∈ candidates path (label :: labels)) :
    path ++ [label] <+: c.2 := by
  induction labels generalizing path label with
  | nil =>
    rw [candidates, mem_singleton] at h
    rw [h]
  | cons label' labels ih =>
    obtain hmem | ⟨-, rfl⟩ | rfl := (mem_candidates_cons (cons_ne_nil _ _)).mp h
    · exact (prefix_append _ _).trans (ih hmem)
    · exact prefix_rfl
    · exact prefix_rfl

variable {root}

/-- The node that is reached by a path has the values below that path. -/
def Reached (root node : PrefixTree Str (NodeValues T)) (path : List Str) : Prop :=
  ∀ rest, node.valueAt rest = root.valueAt (path ++ rest)

lemma Reached.child {node child : PrefixTree Str (NodeValues T)} (h : Reached root node path)
    (hchild : lookupKey label node.children = some child) :
    Reached root child (path ++ [label]) := by
  intro rest
  have hvalue := h (label :: rest)
  rw [valueAt, hchild] at hvalue
  rw [append_assoc, singleton_append, ← hvalue]

variable {node : PrefixTree Str (NodeValues T)}

/-- Below a child that is missing no candidate has a value. -/
lemma Reached.missing (h : Reached root node path) (hchild : lookupKey label node.children = none)
    (hc : c ∈ candidates path (label :: labels)) : candidateValue root c = none := by
  obtain ⟨rest, hrest⟩ := prefix_of_mem_candidates hc
  have hvalue := h (label :: rest)
  rw [valueAt, hchild] at hvalue
  rw [candidateValue, ← hrest, append_assoc, singleton_append, ← hvalue]
  cases c.1 <;> rfl

lemma Reached.value (h : Reached root node path) : node.value = root.valueAt path := by
  simpa [valueAt] using h []

variable {Q : List Str → Prop} {fold : Str → Str}
  {child : PrefixTree Str (NodeValues T) → Str → Option (PrefixTree Str (NodeValues T))}
  (hnodup : ∀ keys, Q keys → keys.Nodup)
  (hchild : ∀ node : PrefixTree Str (NodeValues T), node.AllNodes Q → ∀ label,
    child node label = lookupKey (fold label) node.children)

include hnodup hchild

/-- **The walk.** It gives the value of the first candidate that has one.

**Proof sketch.** Induction on the labels ahead, for the node reached so far. The last label gives
the exact candidate; the one before it the star and the dot candidate; each label before these a
dot candidate, which is less preferred than all that come after. -/
lemma searchLoop_eq (labels : List Str)
    (hreached : Reached root node path) (hall : node.AllNodes Q) (best : Option T) (d : ℕ) :
    searchLoop child (d + labels.length) node best d labels =
      ((candidates path (labels.map fold)).findSome? (candidateValue root)).or best := by
  induction labels generalizing node path best d with
  | nil => rfl
  | cons label labels ih =>
    rw [searchLoop, hchild node hall, map_cons]
    cases hlookup : lookupKey (fold label) node.children with
    | none =>
      have hnone : (candidates path (fold label :: labels.map fold)).findSome?
          (candidateValue root) = none := by
        rw [findSome?_eq_none_iff]
        exact fun c hc => hreached.missing hlookup hc
      rw [hnone, Option.none_or]
    | some node' =>
      have hreached' := hreached.child hlookup
      have hall' := hall.child
        ((lookupKey_eq_some_iff (hnodup _ hall.keys_children)).mp hlookup)
      have hvalue := hreached'.value
      have hrest : ∀ best, searchLoop child (d + (label :: labels).length) node' best (d + 1)
          labels = ((candidates (path ++ [fold label]) (labels.map fold)).findSome?
            (candidateValue root)).or best := by
        intro best
        have hn : d + (label :: labels).length = d + 1 + labels.length := by
          rw [length_cons]
          omega
        rw [hn]
        exact ih hreached' hall' best (d + 1)
      simp only [hrest, hvalue]
      rcases labels with _ | ⟨label', _ | ⟨label'', labels⟩⟩
      · cases hexact : (root.valueAt (path ++ [fold label])).exactValue <;>
          simp [candidates, candidateValue, NodeValues.get, hexact]
      · have hcons : ∀ (c : MatchKind × List Str) (l : List (MatchKind × List Str)),
            (c :: l).findSome? (candidateValue root) =
              (candidateValue root c).or (l.findSome? (candidateValue root)) := by
          intro c l
          rw [findSome?_cons]
          cases candidateValue root c <;> rfl
        simp [candidates, candidateValue, NodeValues.get, Option.or_assoc, hcons]
      · simp [candidates, candidateValue, NodeValues.get, Option.or_assoc, findSome?_append]

lemma searchLoop_root (h : root.AllNodes Q) (query : Str) :
    searchLoop child (labelCount query) root none 0 (rsplit '.' query) =
      (candidates [] ((rsplit '.' query).map fold)).findSome? (candidateValue root) := by
  have hreached : Reached root root [] := fun rest => rfl
  have hloop := searchLoop_eq hnodup hchild (rsplit '.' query) hreached h none 0
  rw [length_rsplit, Nat.zero_add, Option.or_none] at hloop
  exact hloop

variable [LinearOrder T]

/-- **The walk for the least value.** It gives the least of the values seen and those of the
candidates ahead, by induction on the labels: each adds the candidates that end at it. -/
lemma searchMinLoop_eq (labels : List Str) (hreached : Reached root node path)
    (hall : node.AllNodes Q) (seen : List T) (d : ℕ) :
    searchMinLoop child (d + labels.length) node seen.min? d labels =
      ((candidates path (labels.map fold)).filterMap (candidateValue root) ++ seen).min? := by
  induction labels generalizing node path seen d with
  | nil => rfl
  | cons label labels ih =>
    rw [searchMinLoop, hchild node hall, map_cons]
    cases hlookup : lookupKey (fold label) node.children with
    | none =>
      rw [filterMap_eq_nil_iff.mpr fun c hc => hreached.missing hlookup hc, nil_append]
    | some node' =>
      have hreached' := hreached.child hlookup
      have hall' := hall.child
        ((lookupKey_eq_some_iff (hnodup _ hall.keys_children)).mp hlookup)
      have hn : d + (label :: labels).length = d + 1 + labels.length := by
        rw [length_cons]
        omega
      have hremaining : d + 1 + labels.length - d - 1 = labels.length := by omega
      simp only [hn, hremaining, hreached'.value]
      by_cases hlabels : labels = []
      · subst hlabels
        rw [if_pos length_nil, foldMin_min?]
        exact (ih hreached' hall' _ (d + 1)).trans (min?_congr fun v => by
          simp [candidates, candidateValue, NodeValues.get, or_comm])
      · have hstar : (if labels.length = 1 then
              foldMin seen.min? (root.valueAt (path ++ [fold label])).starValue else seen.min?) =
            foldMin seen.min? (if labels.length = 1 then
              candidateValue root (.star, path ++ [fold label]) else none) := by
          split_ifs <;> rfl
        rw [if_neg (by simpa using hlabels), hstar, foldMin_min?, foldMin_min?]
        refine (ih hreached' hall' _ (d + 1)).trans (min?_congr fun v => ?_)
        simp only [mem_append, mem_filterMap, mem_candidates_cons (mt map_eq_nil_iff.mp hlabels),
          length_map]
        split_ifs with hone <;> simp [hone, candidateValue, NodeValues.get] <;> grind

lemma searchMinLoop_root (h : root.AllNodes Q) (query : Str) :
    searchMinLoop child (labelCount query) root none 0 (rsplit '.' query) =
      ((candidates [] ((rsplit '.' query).map fold)).filterMap (candidateValue root)).min? := by
  have hreached : Reached root root [] := fun rest => rfl
  have hloop := searchMinLoop_eq hnodup hchild (rsplit '.' query) hreached h [] 0
  rwa [length_rsplit, Nat.zero_add, append_nil] at hloop

end Walk

/-! ### Patterns -/

/-- A pattern: a name, a name with one label in front, or a name with any labels in front. -/
structure Pattern where
  kind : MatchKind
  base : Str
  deriving DecidableEq

/-- The names that a pattern matches. -/
def Pattern.Matches (p : Pattern) (name : Str) : Prop :=
  match p.kind with
  | .exact => name = p.base
  | .star => ∃ label, '.' ∉ label ∧ name = label ++ '.' :: p.base
  | .dot => ∃ front, name = front ++ '.' :: p.base

open Pattern

/-- The number of labels of a pattern's name. -/
def Pattern.depth (p : Pattern) : ℕ := labelCount p.base

/-- **More specific.** An exact pattern comes before all others; otherwise the one with more
labels, and with as many labels the one that stands for one label in front. -/
def Pattern.Beats (p p' : Pattern) : Prop :=
  p.kind = .exact ∨
    p'.kind ≠ .exact ∧ (p'.depth < p.depth ∨ p'.depth = p.depth ∧ p.kind = .star)

/-- The patterns that the text of an insertion stands for. -/
def patternsOf (lc : Lowercase) (domain : Str) : List Pattern :=
  match lc.toLowercase (trim domain) with
  | [] => []
  | '+' :: '.' :: rest => if rest = [] then [] else [⟨.star, rest⟩, ⟨.dot, rest⟩]
  | '*' :: '.' :: rest => if rest = [] then [] else [⟨.star, rest⟩]
  | '.' :: rest => if rest = [] then [] else [⟨.dot, rest⟩]
  | domain => [⟨.exact, domain⟩]

/-- The value that was inserted first for a pattern. -/
def firstValue {T : Type} (lc : Lowercase) (inserts : List (Str × T)) (p : Pattern) : Option T :=
  (inserts.find? fun i => p ∈ patternsOf lc i.1).map Prod.snd

/-- The path of a pattern. -/
def Pattern.path (p : Pattern) : MatchKind × List Str := (p.kind, rsplit '.' p.base)

/-! ### Candidates and patterns -/

section Candidates

variable {c : MatchKind × List Str}

/-- The candidates: the whole query, all but its first label, and every shorter end of it. -/
lemma mem_candidates {path labels} : c ∈ candidates path labels ↔
      (c.1 = .exact ∧ labels ≠ [] ∧ c.2 = path ++ labels) ∨
      (c.1 = .star ∧ ∃ init last, labels = init ++ [last] ∧ init ≠ [] ∧ c.2 = path ++ init) ∨
      (c.1 = .dot ∧ ∃ init rest, labels = init ++ rest ∧ init ≠ [] ∧ rest ≠ [] ∧
        c.2 = path ++ init) := by
  obtain ⟨kind, p⟩ := c
  induction labels generalizing path with
  | nil => simp [candidates]
  | cons label labels ih =>
    by_cases hlabels : labels = []
    · subst hlabels
      simp only [candidates, mem_singleton, cons_eq_append_iff, nil_eq_append_iff]
      grind
    · rw [mem_candidates_cons hlabels, ih]
      simp only [cons_eq_append_iff, Prod.mk.injEq, append_assoc]
      constructor
      · rintro ((⟨hk, -, hp⟩ | ⟨hk, init, last, hl, hi, hp⟩ | ⟨hk, init, rest, hl, hi, hr, hp⟩) |
          ⟨hone, hk, hp⟩ | ⟨hk, hp⟩)
        · exact .inl ⟨hk, by simp, hp⟩
        · exact .inr (.inl ⟨hk, label :: init, last, .inr ⟨init, rfl, hl⟩, by simp, hp⟩)
        · exact .inr (.inr ⟨hk, label :: init, rest, .inr ⟨init, rfl, hl⟩, by simp, hr, hp⟩)
        · obtain ⟨last, rfl⟩ := length_eq_one_iff.mp hone
          exact .inr (.inl ⟨hk, [label], last, .inr ⟨[], rfl, rfl⟩, by simp, hp⟩)
        · exact .inr (.inr ⟨hk, [label], labels, .inr ⟨[], rfl, rfl⟩, by simp, hlabels, hp⟩)
      · -- what is in front of the last part is the first label alone, or has more labels
        rintro (⟨hk, -, hp⟩ | ⟨hk, init, last, hl, hi, hp⟩ | ⟨hk, init, rest, hl, hi, hr, hp⟩)
        · exact .inl (.inl ⟨hk, hlabels, hp⟩)
        all_goals
          cases init <;> grind

/-- A candidate that comes before another is more specific. -/
def Before (c c' : MatchKind × List Str) : Prop :=
  c.1 = .exact ∨
    c'.1 ≠ .exact ∧ (c'.2.length < c.2.length ∨ c'.2.length = c.2.length ∧ c.1 = .star)

lemma pairwise_candidates (path labels : List Str) : (candidates path labels).Pairwise Before := by
  induction path, labels using candidates.induct with
  | case1 path => exact List.Pairwise.nil
  | case2 path label => exact pairwise_singleton _ _
  | case3 path label label' =>
    simp [candidates, Before]
  | case4 path label label' label'' labels ih =>
    rw [candidates, pairwise_append]
    refine ⟨ih, pairwise_singleton _ _, fun c hc c' hc' => ?_⟩
    rw [mem_singleton.mp hc']
    have hlen := (prefix_of_mem_candidates hc).length_le
    simp only [length_append, length_singleton] at hlen
    exact .inr ⟨by simp, .inl (by simp; omega)⟩

/-- **Which patterns are looked at.** The paths of the patterns that match the query. -/
lemma path_mem_candidates (p : Pattern) (name : Str) :
    p.path ∈ candidates [] (rsplit '.' name) ↔ p.Matches name := by
  obtain ⟨kind, base⟩ := p
  rw [mem_candidates]
  simp only [path, nil_append]
  cases kind with
  | exact =>
    simp only [true_and, rsplit_injective.eq_iff, reduceCtorEq, false_and, or_false]
    exact ⟨fun h => h.2.symm, fun h => ⟨rsplit_ne_nil name, h.symm⟩⟩
  | star =>
    simp only [reduceCtorEq, false_and, true_and, false_or, or_false]
    constructor
    · rintro ⟨init, last, hname, hinit, hbase⟩
      obtain ⟨front, base', hname', hbase', hfront⟩ :=
        exists_of_rsplit_eq_append hinit (by simp) hname
      rw [rsplit_injective (hbase.trans hbase'.symm)]
      refine ⟨front, ?_, hname'⟩
      have hone := length_rsplit front
      rw [hfront, labelCount, length_singleton] at hone
      exact count_eq_zero.mp (by omega)
    · rintro ⟨label, hlabel, rfl⟩
      refine ⟨rsplit '.' base, label, ?_, rsplit_ne_nil base, rfl⟩
      rw [rsplit_append_dot, rsplit, rsplit, splitOn_eq_singleton hlabel]
      rfl
  | dot =>
    simp only [reduceCtorEq, false_and, true_and, false_or]
    constructor
    · rintro ⟨init, rest, hname, hinit, hrest, hbase⟩
      obtain ⟨front, base', hname', hbase', -⟩ := exists_of_rsplit_eq_append hinit hrest hname
      rw [rsplit_injective (hbase.trans hbase'.symm)]
      exact ⟨front, hname'⟩
    · rintro ⟨front, rfl⟩
      exact ⟨rsplit '.' base, rsplit '.' front, rsplit_append_dot front base, rsplit_ne_nil base,
        rsplit_ne_nil front, rfl⟩

/-- Each candidate is the path of a pattern. -/
lemma exists_path_eq {name} (hc : c ∈ candidates [] (rsplit '.' name)) :
    ∃ p : Pattern, p.path = c := by
  obtain ⟨kind, labels⟩ := c
  rcases mem_candidates.mp hc with ⟨-, -, hlabels⟩ | ⟨-, init, last, hname, hinit, hlabels⟩ |
    ⟨-, init, rest, hname, hinit, hrest, hlabels⟩
  · exact ⟨⟨kind, name⟩, by rw [path, ← nil_append (rsplit '.' name), ← hlabels]⟩
  · obtain ⟨-, base, -, hbase, -⟩ := exists_of_rsplit_eq_append hinit (by simp) hname
    exact ⟨⟨kind, base⟩, by rw [path, hbase, ← nil_append init, ← hlabels]⟩
  · obtain ⟨-, base, -, hbase, -⟩ := exists_of_rsplit_eq_append hinit hrest hname
    exact ⟨⟨kind, base⟩, by rw [path, hbase, ← nil_append init, ← hlabels]⟩

lemma path_injective : Function.Injective Pattern.path := by
  rintro ⟨kind, base⟩ ⟨kind', base'⟩ h
  obtain ⟨hkind, hbase⟩ := Prod.mk.inj h
  exact Pattern.mk.injEq .. ▸ ⟨hkind, rsplit_injective hbase⟩

lemma before_path (p p' : Pattern) : Before p.path p'.path ↔ p.Beats p' := by
  simp only [Before, Pattern.Beats, path, depth, length_rsplit]

end Candidates

/-! ### Insertions -/

section Insert

variable {T : Type} (lc : Lowercase) (inserts : List (Str × T))

lemma firstValue_append (i : Str × T) (p : Pattern) :
    firstValue lc (inserts ++ [i]) p =
      (firstValue lc inserts p).or (if p ∈ patternsOf lc i.1 then some i.2 else none) := by
  rw [firstValue, firstValue, find?_append]
  cases inserts.find? (fun i => decide (p ∈ patternsOf lc i.1)) with
  | some i' => rfl
  | none =>
    by_cases hp : p ∈ patternsOf lc i.1 <;> simp [hp]

/-- The name of a pattern is an end of the text, in lower case and not empty. -/
lemma base_of_mem_patternsOf {domain} {p : Pattern} (hp : p ∈ patternsOf lc domain) :
    p.base ≠ [] ∧ toAsciiLowercase p.base = p.base := by
  have hlower := lc.lower (trim domain)
  unfold patternsOf at hp
  generalize lc.toLowercase (trim domain) = text at hp hlower
  split at hp
  all_goals
    simp only [toAsciiLowercase, map_cons] at hlower ⊢
    try split_ifs at hp
    all_goals grind

/-- An insertion enters each of its patterns. -/
lemma insert_eq (t : DomainTrie T) (domain : Str) (data : T) : (t.insert lc domain data).2 =
      ⟨((patternsOf lc domain).foldl (fun t p => t.insertIntoTree p.base data p.kind) t).state,
        t.len + (patternsOf lc domain).length⟩ := by
  have hlen : ∀ (t : DomainTrie T) base kind, (t.insertIntoTree base data kind).len = t.len := by
    intro t base kind
    unfold insertIntoTree
    split <;> rfl
  unfold DomainTrie.insert patternsOf
  generalize lc.toLowercase (trim domain) = text
  split
  · rfl
  iterate 3 split_ifs with hrest <;> simp [hlen, hrest]
  · simp [hlen]

/-- The trie that is built has, at the path of each pattern, the value inserted for it first. -/
structure Holds (inserts : List (Str × T)) (t : DomainTrie T) (root : BuildNode T) : Prop where
  state : t.state = .building root
  lower : root.AllNodes LowerKeys
  value : ∀ p : Pattern, candidateValue root p.path = firstValue lc inserts p
  len : t.len = 0 → ∀ i ∈ inserts, patternsOf lc i.1 = []

variable {lc}

/-- The value of one kind after another one was entered. -/
lemma get_getOrInsert (v : NodeValues T) (kind kind' : MatchKind) (data : T) :
    (v.getOrInsert kind data).get kind' =
      (v.get kind').or (if kind' = kind then some data else none) := by
  cases kind <;> cases kind' <;> simp [NodeValues.getOrInsert, NodeValues.get]

/-- Entering a pattern gives it the value, unless it has one. -/
lemma candidateValue_modifyAt (root : BuildNode T) (p p' : Pattern) (data : T) :
    candidateValue (root.modifyAt (getOrInsert p.kind data) (rsplit '.' p.base))
        p'.path =
      (candidateValue root p'.path).or (if p' = p then some data else none) := by
  rw [candidateValue, valueAt_modifyAt]
  by_cases hbase : p'.base = p.base
  · have hpath : p'.path.2 = rsplit '.' p.base := congrArg (rsplit '.') hbase
    have hiff : p' = p ↔ p'.path.1 = p.kind :=
      ⟨fun h => congrArg kind h, fun h => path_injective (Prod.ext h hpath)⟩
    rw [if_pos hpath, get_getOrInsert, candidateValue, hpath]
    simp only [hiff]
  · have hpath : p'.path.2 ≠ rsplit '.' p.base := fun h => hbase (rsplit_injective h)
    have hne : p' ≠ p := fun h => hbase (congrArg base h)
    rw [if_neg hpath, if_neg hne, Option.or_none, candidateValue]

/-- The labels of a lower-case name can be added to the keys. -/
lemma lowerKeys_append {base label} (hbase : toAsciiLowercase base = base)
    (hlabel : label ∈ rsplit '.' base) (keys : List Str) (hkeys : LowerKeys keys)
    (hnew : label ∉ keys) : LowerKeys (keys ++ [label]) := by
  refine ⟨by simpa using hkeys.1.concat hnew, fun k hk => ?_⟩
  rcases mem_append.mp hk with hold | hk
  · exact hkeys.2 k hold
  · rw [mem_singleton.mp hk]
    have hmap : (rsplit '.' base).map toAsciiLowercase = (rsplit '.' base).map id := by
      rw [← rsplit_toAsciiLowercase, hbase, map_id]
    exact map_inj_left.mp hmap label hlabel

/-- The patterns of one insertion are entered one after the other. -/
lemma insertPatterns_spec {t : DomainTrie T} {root : BuildNode T} (ht : t.state = .building root)
    (hroot : root.AllNodes LowerKeys) (data : T) (patterns : List Pattern)
    (hpatterns : ∀ p ∈ patterns, toAsciiLowercase p.base = p.base) :
    ∃ root', (patterns.foldl (fun t p => t.insertIntoTree p.base data p.kind) t).state =
        .building root' ∧ root'.AllNodes LowerKeys ∧
      ∀ p : Pattern, candidateValue root' p.path =
        (candidateValue root p.path).or (if p ∈ patterns then some data else none) := by
  induction patterns generalizing t root with
  | nil => exact ⟨root, ht, hroot, fun p => by simp⟩
  | cons q patterns ih =>
    have hstate : (t.insertIntoTree q.base data q.kind).state =
        .building (root.modifyAt (getOrInsert q.kind data) (rsplit '.' q.base)) := by
      simp only [insertIntoTree, ht]
    have hall : (root.modifyAt (getOrInsert q.kind data)
        (rsplit '.' q.base)).AllNodes LowerKeys :=
      hroot.modifyAt _ ⟨nodup_nil, by simp⟩ fun label hlabel =>
        lowerKeys_append (hpatterns q mem_cons_self) hlabel
    obtain ⟨root', hstate', hall', hvalue⟩ :=
      ih hstate hall fun p hp => hpatterns p (mem_cons_of_mem _ hp)
    refine ⟨root', hstate', hall', fun p => ?_⟩
    rw [hvalue, candidateValue_modifyAt, Option.or_assoc]
    congr 1
    by_cases hq : p = q <;> by_cases hp : p ∈ patterns <;> simp [hq, hp]

lemma Holds.new : Holds lc ([] : List (Str × T)) .new .leaf where
  state := rfl
  lower := .leaf ⟨nodup_nil, by simp⟩
  value p := by
    rw [candidateValue, valueAt_leaf]
    cases p with
    | mk kind base => cases kind <;> rfl
  len _ i hi := by simp at hi

/-- **An insertion.** -/
lemma Holds.insert {inserts} {t : DomainTrie T} {root} (h : Holds lc inserts t root) (domain : Str)
    (data : T) :
    ∃ root', Holds lc (inserts ++ [(domain, data)]) (t.insert lc domain data).2 root' := by
  obtain ⟨root', hstate, hlower, hvalue⟩ := insertPatterns_spec h.state h.lower data
    (patternsOf lc domain) fun p hp => (base_of_mem_patternsOf lc hp).2
  rw [insert_eq]
  refine ⟨root', hstate, hlower, fun p => ?_, fun hlen i hi => ?_⟩
  · rw [hvalue, h.value, firstValue_append]
  · simp only [Nat.add_eq_zero_iff, length_eq_zero_iff] at hlen
    rcases mem_append.mp hi with hold | hi
    · exact h.len hlen.1 i hold
    · rw [mem_singleton.mp hi]
      exact hlen.2

/-- A trie after a series of insertions. -/
def build (lc : Lowercase) (inserts : List (Str × T)) : DomainTrie T :=
  inserts.foldl (fun t i => (t.insert lc i.1 i.2).2) .new

/-- **A series of insertions.** -/
lemma holds_build : ∃ root, Holds lc inserts (build lc inserts) root := by
  induction inserts using reverseRecOn with
  | nil => exact ⟨.leaf, .new⟩
  | append_singleton inserts i ih =>
    obtain ⟨root, hroot⟩ := ih
    rw [build, foldl_append]
    exact hroot.insert i.1 i.2

end Insert

/-! ### Sealing -/

section Seal

variable {T : Type} (order : HashOrder)

lemma sortChildren_perm {τ : Type} (l : List (Str × τ)) : (sortChildren l).Perm l :=
  mergeSort_perm _ _

/-- Different keys are strictly ordered after the sort. -/
lemma sortedKeys_sortChildren {τ : Type} {l : List (Str × τ)}
    (h : LowerKeys (l.map Prod.fst)) : SortedKeys ((sortChildren l).map Prod.fst) := by
  have hperm := (sortChildren_perm l).map Prod.fst
  refine ⟨?_, fun k hk => h.2 k (hperm.mem_iff.mp hk)⟩
  have hsorted : (sortChildren l).Pairwise fun a b =>
      (compare (asBytes a.1) (asBytes b.1)).isLE :=
    pairwise_mergeSort (fun a b c => Std.TransCmp.isLE_trans)
      (fun a b => by
        have hswap : compare (asBytes b.1) (asBytes a.1) =
            (compare (asBytes a.1) (asBytes b.1)).swap := Std.OrientedCmp.eq_swap
        rw [hswap]
        cases compare (asBytes a.1) (asBytes b.1) <;> rfl) l
  have hnodup : (sortChildren l).Pairwise fun a b => a.1 ≠ b.1 :=
    pairwise_map.mp (hperm.nodup_iff.mpr h.1)
  refine pairwise_map.mpr ((hsorted.and hnodup).imp fun {a b} hab => ?_)
  cases hcmp : compare (asBytes a.1) (asBytes b.1) with
  | lt => rfl
  | eq =>
    exact absurd (asBytes_injective (Std.LawfulEqCmp.compare_eq_iff_eq.mp hcmp)) hab.2
  | gt => simp [hcmp] at hab

variable {root : BuildNode T} (h : root.AllNodes LowerKeys)
include h

lemma allNodes_intoSealed : (intoSealed order root).AllNodes SortedKeys := by
  refine h.rearrange _ (fun l hl => sortedKeys_sortChildren ?_) fun l =>
    (sortChildren_perm _).trans (order.perm l)
  have hperm := (order.perm l).map Prod.fst
  exact ⟨hperm.nodup_iff.mpr hl.1, fun k hk => hl.2 k (hperm.mem_iff.mp hk)⟩

/-- Sealing keeps the value of each candidate. -/
lemma candidateValue_intoSealed : candidateValue (intoSealed order root) = candidateValue root := by
  funext c
  rw [candidateValue, intoSealed, valueAt_rearrange _ (fun keys hkeys => hkeys.1)
    (fun l => (sortChildren_perm _).trans (order.perm l)) _ h, candidateValue]

end Seal

/-! ### Searches -/

section Search

variable {T : Type} (order : HashOrder) (keys : List Str)

lemma LowerKeys.nodup (h : LowerKeys keys) : keys.Nodup := h.1

lemma SortedKeys.nodup (h : SortedKeys keys) : keys.Nodup :=
  h.1.imp fun {a b} hlt hab => by
    have hself : compare (asBytes b) (asBytes b) = .eq := Std.ReflCmp.compare_self
    rw [hab, hself] at hlt
    cases hlt

lemma asciiLower_of_not_upper {c} (h : isAsciiUppercase c = false) : asciiLower c = c := by
  have hcode : ¬(65 ≤ c.toNat ∧ c.toNat ≤ 90) := by
    intro hupper
    have hA : 'A' ≤ c := le_def.mpr (UInt32.le_iff_toNat_le.mpr hupper.1)
    have hZ : c ≤ 'Z' := le_def.mpr (UInt32.le_iff_toNat_le.mpr hupper.2)
    simp [isAsciiUppercase, hA, hZ] at h
  apply toNat_inj.mp
  rw [toNat_asciiLower, if_neg hcode]

/-- What every search looks for: the query in lower case, without white space around it and dots
after it. -/
def normalizeQuery (query : Str) : Str := toAsciiLowercase (trimEndMatches '.' (trim query))

/-- The first candidate for a name that has a value. -/
def firstCandidate (V : MatchKind × List Str → Option T) (name : Str) : Option T :=
  (candidates [] (rsplit '.' name)).findSome? V

/-- A trie in either state, with the value of each candidate. -/
inductive Stands (V : MatchKind × List Str → Option T) : TrieState T → Prop
  | building {root : BuildNode T} (h : root.AllNodes LowerKeys) (hV : candidateValue root = V) :
      Stands V (.building root)
  | sealed {root : SealedNode T} (h : root.AllNodes SortedKeys) (hV : candidateValue root = V) :
      Stands V (.sealed root)

variable {V : MatchKind × List Str → Option T} {t : DomainTrie T} (ht : Stands V t.state)
  (hempty : firstCandidate V [] = none)

include ht hempty

/-- The searches with regard to case. -/
lemma searchInner_eq (query : Str) : t.searchInner query = firstCandidate V query := by
  unfold searchInner
  split_ifs with hquery
  · rw [hquery, hempty]
  · have hid : (rsplit '.' query).map id = rsplit '.' query := map_id _
    generalize t.state = state at ht
    cases ht with
    | building h hV =>
      rw [firstCandidate, ← hV, ← hid]
      exact searchLoop_root LowerKeys.nodup (fun node _ label => rfl) h query
    | sealed h hV =>
      rw [firstCandidate, ← hV, ← hid]
      exact searchLoop_root SortedKeys.nodup (fun node hnode label => childSealed_eq hnode label)
        h query

/-- The searches without regard to case look for the query in lower case. -/
lemma searchAsciiCaseInsensitiveInner_eq (query : Str) :
    t.searchAsciiCaseInsensitiveInner order query = firstCandidate V (toAsciiLowercase query) := by
  unfold searchAsciiCaseInsensitiveInner
  split_ifs with hquery
  · rw [hquery]
    exact hempty.symm
  · generalize t.state = state at ht
    cases ht with
    | building h hV =>
      rw [firstCandidate, ← hV, rsplit_toAsciiLowercase]
      exact searchLoop_root LowerKeys.nodup
        (fun node hnode label => childBuildCaseInsensitive_eq order hnode label) h query
    | sealed h hV =>
      rw [firstCandidate, ← hV, rsplit_toAsciiLowercase]
      exact searchLoop_root SortedKeys.nodup
        (fun node hnode label => childSealedCaseInsensitive_eq hnode label) h query

/-- **All searches** give the first candidate for the query in its normal form. -/
lemma search_eq_firstCandidate (hlen : t.len = 0 → ∀ name, firstCandidate V name = none)
    (query : Str) : t.search order query = firstCandidate V (normalizeQuery query) := by
  simp only [search]
  split_ifs with hzero hupper
  · rw [hlen hzero]
  · exact searchAsciiCaseInsensitiveInner_eq order ht hempty _
  · -- a query without upper-case letters is in lower case already
    have hlower : toAsciiLowercase (trimEndMatches '.' (trim query)) =
        trimEndMatches '.' (trim query) := by
      refine (map_congr_left fun c hc => ?_).trans (map_id _)
      have hmem : c ∈ trim query := (List.rdropWhile_prefix _ _).subset hc
      have hnot : isAsciiUppercase c = false := by
        simpa using fun h => hupper (any_eq_true.mpr ⟨c, hmem, h⟩)
      exact asciiLower_of_not_upper hnot
    rw [searchInner_eq ht hempty, normalizeQuery, hlower]

end Search

/-! ### The normal form of a query -/

section Query

lemma isWhitespace_asciiLower (c : Char) : isWhitespace (asciiLower c) = isWhitespace c := by
  rw [Bool.eq_iff_iff]
  simp only [isWhitespace, toNat_asciiLower, Bool.or_eq_true, Bool.and_eq_true,
    decide_eq_true_eq, beq_iff_eq]
  split_ifs <;> omega

lemma rdropWhile_map {p f} (hp : ∀ c, p (f c) = p c) (s : Str) :
    (s.map f).rdropWhile p = (s.rdropWhile p).map f := by
  have hcomp : p ∘ f = p := funext hp
  rw [rdropWhile, rdropWhile, ← map_reverse, dropWhile_map, hcomp, map_reverse]

lemma trim_toAsciiLowercase (s : Str) : trim (toAsciiLowercase s) = toAsciiLowercase (trim s) := by
  have hcomp : isWhitespace ∘ asciiLower = isWhitespace := funext isWhitespace_asciiLower
  rw [trim, trim, toAsciiLowercase, dropWhile_map, hcomp,
    rdropWhile_map isWhitespace_asciiLower, toAsciiLowercase]

lemma trimEndMatches_toAsciiLowercase (s : Str) :
    trimEndMatches '.' (toAsciiLowercase s) = toAsciiLowercase (trimEndMatches '.' s) := by
  refine rdropWhile_map (fun c => ?_) s
  simp only [asciiLower_eq_dot]

/-- The normal form does not depend on case. -/
lemma normalizeQuery_of_lower_eq {q q'} (h : toAsciiLowercase q' = toAsciiLowercase q) :
    normalizeQuery q' = normalizeQuery q := by
  simp only [normalizeQuery, ← trimEndMatches_toAsciiLowercase, ← trim_toAsciiLowercase, h]

lemma trimEndMatches_append_replicate (s : Str) (n : ℕ) :
    trimEndMatches '.' (s ++ replicate n '.') = trimEndMatches '.' s := by
  induction n with
  | zero => simp
  | succ n ih =>
    rw [replicate_succ', ← append_assoc, trimEndMatches, rdropWhile_concat_pos _ _ _ (by simp)]
    exact ih

/-- The normal form does not depend on white space around the name, and on dots after it. -/
lemma normalizeQuery_surrounded (q : Str) {front back} (n : ℕ)
    (hfront : ∀ c ∈ front, isWhitespace c) (hback : ∀ c ∈ back, isWhitespace c) :
    normalizeQuery (front ++ (trim q ++ replicate n '.') ++ back) = normalizeQuery q := by
  have hdot : isWhitespace '.' = false := by decide
  obtain ⟨hhead, hlast⟩ := not_isWhitespace_ends_trim q
  have htrim : trim (trim q ++ replicate n '.') = trim q ++ replicate n '.' := by
    apply trim_eq_self
    · intro c hc
      cases htrimmed : trim q with
      | nil =>
        rw [htrimmed] at hc
        rw [eq_of_mem_replicate (mem_of_mem_head? hc), hdot]
      | cons d rest =>
        rw [htrimmed, cons_append] at hc
        exact hhead c (by rw [htrimmed]; exact hc)
    · intro c hc
      cases n with
      | zero => exact hlast c (by simpa using hc)
      | succ n =>
        rw [replicate_succ', ← append_assoc, getLast?_concat] at hc
        rw [← Option.some.inj hc, hdot]
  rw [normalizeQuery, trim_surrounded hfront hback, htrim, trimEndMatches_append_replicate,
    normalizeQuery]

end Query

/-! ### The most specific pattern -/

section MostSpecific

variable {T : Type} (lc : Lowercase) (order : HashOrder)

/-- The pattern was inserted. -/
def Inserted (inserts : List (Str × T)) (p : Pattern) : Prop := ∃ i ∈ inserts, p ∈ patternsOf lc i.1

/-- The pattern is the most specific one of those that were inserted and match the name. -/
structure MostSpecific (inserts : List (Str × T)) (name : Str) (p : Pattern) : Prop where
  inserted : Inserted lc inserts p
  «matches» : p.Matches name
  beats : ∀ p', Inserted lc inserts p' → p'.Matches name → p' ≠ p → p.Beats p'

variable {lc} {inserts : List (Str × T)}

lemma firstValue_isSome_iff {p} : (firstValue lc inserts p).isSome ↔ Inserted lc inserts p := by
  simp [firstValue, Inserted, find?_isSome]

/-- No two patterns are the most specific one. -/
lemma MostSpecific.unique {name p p'} (h : MostSpecific lc inserts name p)
    (h' : MostSpecific lc inserts name p') : p = p' := by
  by_contra hne
  have hb := h.beats p' h'.inserted h'.matches (Ne.symm hne)
  have hb' := h'.beats p h.inserted h.matches hne
  have hm := h.matches
  have hm' := h'.matches
  obtain ⟨kind, base⟩ := p
  obtain ⟨kind', base'⟩ := p'
  rcases hb with hexact | ⟨hnot', hdepth⟩
  · -- an exact pattern is beaten by an exact one only, and there is one at most
    have hexact' : kind' = .exact := hb'.resolve_right fun hnot => hnot.1 hexact
    subst hexact hexact'
    simp only [Pattern.Matches] at hm hm'
    exact hne (by rw [← hm, ← hm'])
  · -- two patterns with as many labels that both stand for one label in front
    obtain ⟨-, hdepth'⟩ := hb'.resolve_left hnot'
    have hsame : labelCount base = labelCount base' ∧ kind = .star ∧ kind' = .star := by
      rcases hdepth with hlt | ⟨heq, hstar⟩ <;> rcases hdepth' with hlt' | ⟨heq', hstar'⟩
      · omega
      · omega
      · omega
      · exact ⟨heq', hstar, hstar'⟩
    obtain ⟨hcount, rfl, rfl⟩ := hsame
    obtain ⟨label, -, hname⟩ := hm
    obtain ⟨label', -, hname'⟩ := hm'
    have hlabels := congrArg (rsplit '.') (hname.symm.trans hname')
    rw [rsplit_append_dot, rsplit_append_dot] at hlabels
    have hbase : rsplit '.' base = rsplit '.' base' :=
      (append_inj hlabels (by rw [length_rsplit, length_rsplit, hcount])).1
    exact hne (by rw [rsplit_injective hbase])

/-- In a list in which each element comes before those after it, the first one with a value comes
before all others with a value. -/
lemma findSome?_eq_some_of_pairwise {α β : Type} {R : α → α → Prop} {f : α → Option β} {l : List α}
    (hl : l.Pairwise R) {v : β} (h : l.findSome? f = some v) :
    ∃ a ∈ l, f a = some v ∧ ∀ b ∈ l, (f b).isSome → b ≠ a → R a b := by
  induction l with
  | nil => simp at h
  | cons a l ih =>
    rw [pairwise_cons] at hl
    rw [findSome?_cons] at h
    cases ha : f a with
    | some w => exact ⟨a, mem_cons_self, by grind⟩
    | none =>
      rw [ha] at h
      obtain ⟨a', ha', hv, hbefore⟩ := ih hl.2 h
      exact ⟨a', mem_cons_of_mem _ ha', hv, by grind⟩

variable {V : MatchKind × List Str → Option T}
  (hV : ∀ p : Pattern, V p.path = firstValue lc inserts p)

include hV

/-- No candidate has a value if no inserted pattern matches. -/
lemma firstCandidate_eq_none_iff (name : Str) :
    firstCandidate V name = none ↔ ∀ p, Inserted lc inserts p → ¬p.Matches name := by
  rw [firstCandidate, findSome?_eq_none_iff]
  constructor
  · intro h p hp hmatch
    rw [← firstValue_isSome_iff, ← hV, h _ ((path_mem_candidates p name).mpr hmatch)] at hp
    cases hp
  · intro h c hc
    obtain ⟨p, rfl⟩ := exists_path_eq hc
    rw [hV, ← Option.not_isSome_iff_eq_none, firstValue_isSome_iff]
    exact fun hp => h p hp ((path_mem_candidates p name).mp hc)

/-- **The first candidate is the most specific pattern.** -/
lemma firstCandidate_eq_some_iff (name : Str) (v : T) :
    firstCandidate V name = some v ↔
      ∃ p, MostSpecific lc inserts name p ∧ firstValue lc inserts p = some v := by
  have hsome : ∀ v, firstCandidate V name = some v →
      ∃ p, MostSpecific lc inserts name p ∧ firstValue lc inserts p = some v := by
    intro v h
    obtain ⟨c, hc, hv, hbefore⟩ := findSome?_eq_some_of_pairwise (pairwise_candidates _ _) h
    obtain ⟨p, rfl⟩ := exists_path_eq hc
    rw [hV] at hv
    refine ⟨p, ⟨?_, (path_mem_candidates p name).mp hc, fun p' hp' hmatch hne => ?_⟩, hv⟩
    · exact firstValue_isSome_iff.mp (by rw [hv]; rfl)
    · exact (before_path p p').mp (hbefore _ ((path_mem_candidates p' name).mpr hmatch)
        (by rw [hV]; exact firstValue_isSome_iff.mpr hp') fun h => hne (path_injective h))
  refine ⟨hsome v, ?_⟩
  rintro ⟨p, hp, hv⟩
  cases hfirst : firstCandidate V name with
  | none => exact absurd hp.matches ((firstCandidate_eq_none_iff hV name).mp hfirst p hp.inserted)
  | some w =>
    obtain ⟨p', hp', hw⟩ := hsome w hfirst
    rw [hp.unique hp', hw] at hv
    exact hv

omit hV

variable {root : BuildNode T} (hroot : Holds lc inserts (build lc inserts) root)
include hroot

/-- What the candidates of a trie after a series of insertions have. -/
lemma firstCandidate_nil : firstCandidate (candidateValue root) [] = none := by
  rw [firstCandidate_eq_none_iff hroot.value]
  rintro ⟨kind, base⟩ ⟨i, -, hp⟩ hmatch
  cases kind with
  | exact => exact (base_of_mem_patternsOf lc hp).1 hmatch.symm
  | star =>
    obtain ⟨label, -, h⟩ := hmatch
    simp at h
  | dot =>
    obtain ⟨front, h⟩ := hmatch
    simp at h

lemma firstCandidate_of_len (hlen : (build lc inserts).len = 0) (name : Str) :
    firstCandidate (candidateValue root) name = none := by
  rw [firstCandidate_eq_none_iff hroot.value]
  rintro p ⟨i, hi, hp⟩
  rw [hroot.len hlen i hi] at hp
  simp at hp

variable (query : Str)

/-- A search looks at the candidates of the query's normal form. -/
lemma search_build : (build lc inserts).search order query =
      firstCandidate (candidateValue root) (normalizeQuery query) := by
  refine search_eq_firstCandidate order ?_ (firstCandidate_nil hroot)
    (firstCandidate_of_len hroot) query
  rw [show (build lc inserts).state = .building root from hroot.state]
  exact .building hroot.lower rfl

/-- So does a search after the trie is sealed. -/
lemma search_seal_build (order' : HashOrder) (query : Str) :
    ((build lc inserts).seal order').search order query =
      firstCandidate (candidateValue root) (normalizeQuery query) := by
  have hseal : (build lc inserts).seal order' =
      ⟨.sealed (intoSealed order' root), (build lc inserts).len⟩ := by
    rw [DomainTrie.seal, hroot.state]
  have hstands : Stands (candidateValue root) ((build lc inserts).seal order').state := by
    rw [hseal]
    exact .sealed (allNodes_intoSealed order' hroot.lower)
      (candidateValue_intoSealed order' hroot.lower)
  refine search_eq_firstCandidate order hstands (firstCandidate_nil hroot) ?_ query
  rw [hseal]
  exact firstCandidate_of_len hroot

omit hroot

variable (inserts)

/-- What a search finds. -/
lemma search_build_eq_some_iff (v : T) :
    (build lc inserts).search order query = some v ↔
      ∃ p, MostSpecific lc inserts (normalizeQuery query) p ∧
        firstValue lc inserts p = some v := by
  obtain ⟨root, hroot⟩ := @holds_build _ lc inserts
  rw [search_build order hroot, firstCandidate_eq_some_iff hroot.value]

/-- When it finds nothing. -/
lemma search_build_eq_none_iff :
    (build lc inserts).search order query = none ↔
      ∀ p, Inserted lc inserts p → ¬p.Matches (normalizeQuery query) := by
  obtain ⟨root, hroot⟩ := @holds_build _ lc inserts
  rw [search_build order hroot, firstCandidate_eq_none_iff hroot.value]

/-- The same after the trie is sealed. -/
lemma search_seal_build_eq_none_iff (order' : HashOrder) (inserts : List (Str × T)) (query : Str) :
    ((build lc inserts).seal order').search order query = none ↔
      ∀ p, Inserted lc inserts p → ¬p.Matches (normalizeQuery query) := by
  obtain ⟨root, hroot⟩ := @holds_build _ lc inserts
  rw [search_seal_build order hroot, firstCandidate_eq_none_iff hroot.value]

/-- **A search gives the value inserted first for the most specific pattern that matches**, and
nothing if none matches; it gives the same before and after the trie is sealed, and for every
spelling of the query that differs in case, in white space around it and in dots after it.

**Proof sketch.** The walk looks at the candidates in the order of preference, and these are the
patterns that match. What it finds depends on the query's normal form and on the values at the
paths, which sealing keeps. -/
theorem search_most_specific (lc : Lowercase) (order order' : HashOrder) (inserts : List (Str × T))
    (query : Str) :
    let t := build lc inserts
    let name := normalizeQuery query
    (∀ v, t.search order query = some v ↔
      ∃ p, MostSpecific lc inserts name p ∧ firstValue lc inserts p = some v) ∧
    (t.search order query = none ↔ ∀ p, Inserted lc inserts p → ¬p.Matches name) ∧
    (t.seal order').search order query = t.search order query ∧
    (∀ query', toAsciiLowercase query' = toAsciiLowercase query →
      t.search order query' = t.search order query) ∧
    ∀ (front back : Str) (n : ℕ), (∀ c ∈ front, isWhitespace c) →
      (∀ c ∈ back, isWhitespace c) →
        t.search order (front ++ (trim query ++ replicate n '.') ++ back) =
          t.search order query := by
  intro t name
  obtain ⟨root, hroot⟩ : ∃ root, Holds lc inserts t root := holds_build inserts
  set V := candidateValue root
  have hsearch : ∀ q, t.search order q = firstCandidate V (normalizeQuery q) :=
    search_build order hroot
  have hsealed : ∀ q, (t.seal order').search order q = firstCandidate V (normalizeQuery q) :=
    search_seal_build order hroot order'
  refine ⟨fun v => ?_, ?_, ?_, fun query' h => ?_, fun front back n hfront hback => ?_⟩
  · rw [hsearch, firstCandidate_eq_some_iff hroot.value]
  · rw [hsearch, firstCandidate_eq_none_iff hroot.value]
  · rw [hsealed, hsearch]
  · rw [hsearch, hsearch, normalizeQuery_of_lower_eq h]
  · rw [hsearch, hsearch, normalizeQuery_surrounded query n hfront hback]

/-- The query is in another spelling; a pattern with one label in front comes before one with any,
and the value inserted first stays. -/
theorem search_first_star :
    let inserts := [(str ".com", 0), (str "+.Example.com", 1), (str "*.example.com", 2)]
    let name := normalizeQuery (str " WWW.example.COM. ")
    ∃ p, MostSpecific .asciiOnly inserts name p ∧ firstValue .asciiOnly inserts p = some 1 :=
  ((search_most_specific .asciiOnly .inserted .inserted
    [(str ".com", 0), (str "+.Example.com", 1), (str "*.example.com", 2)]
    (str " WWW.example.COM. ")).1 1).mp (by decide +kernel)

/-- **The search of the rules**, which are numbered. Whatever was inserted, in a trie that is sealed
or not, it gives the least of the values of the patterns that match the query without the dots
behind it, each with the value inserted for it first, and nothing iff none matches.

**Proof sketch.** The candidates of the walk are the patterns that match. -/
theorem searchMinNormalized_least [LinearOrder T] (inserts : List (Str × T)) (query : Str) :
    let name := trimEndMatches '.' query
    ∀ t ∈ [build lc inserts, (build lc inserts).seal order],
      (t.searchMinNormalized query = none ↔ ∀ p, Inserted lc inserts p → ¬p.Matches name) ∧
      ∀ v, t.searchMinNormalized query = some v ↔
        (∃ p : Pattern, p.Matches name ∧ firstValue lc inserts p = some v) ∧
          ∀ p : Pattern, p.Matches name → ∀ w ∈ firstValue lc inserts p, v ≤ w := by
  intro name t ht
  obtain ⟨root, hroot⟩ := @holds_build _ lc inserts
  have hmem : ∀ v, v ∈ (candidates [] (rsplit '.' name)).filterMap (candidateValue root) ↔
      ∃ p : Pattern, p.Matches name ∧ firstValue lc inserts p = some v := by
    intro v
    rw [mem_filterMap]
    constructor
    · rintro ⟨c, hc, hv⟩
      obtain ⟨p, rfl⟩ := exists_path_eq hc
      exact ⟨p, (path_mem_candidates p name).mp hc, by rw [← hv, hroot.value]⟩
    · rintro ⟨p, hmatch, hv⟩
      exact ⟨p.path, (path_mem_candidates p name).mpr hmatch, by rw [hroot.value, hv]⟩
  have hnil : ∀ {name}, firstCandidate (candidateValue root) name = none →
      (candidates [] (rsplit '.' name)).filterMap (candidateValue root) = [] := fun h =>
    filterMap_eq_nil_iff.mpr (findSome?_eq_none_iff.mp h)
  obtain ⟨hstands, hlen⟩ : Stands (candidateValue root) t.state ∧
      t.len = (build lc inserts).len := by
    obtain rfl | rfl := by simpa using ht
    · rw [hroot.state]
      exact ⟨.building hroot.lower rfl, rfl⟩
    · rw [DomainTrie.seal, hroot.state]
      exact ⟨.sealed (allNodes_intoSealed order hroot.lower)
        (candidateValue_intoSealed order hroot.lower), rfl⟩
  have hsearch : t.searchMinNormalized query =
      ((candidates [] (rsplit '.' name)).filterMap (candidateValue root)).min? := by
    have hid : (rsplit '.' name).map id = rsplit '.' name := map_id _
    simp only [searchMinNormalized]
    split_ifs with hzero hname
    · rw [hnil (firstCandidate_of_len hroot (hlen ▸ hzero) name), min?_nil]
    · rw [show name = [] from hname, hnil (firstCandidate_nil hroot), min?_nil]
    · generalize t.state = state at hstands
      cases hstands with
      | building h hV =>
        rw [← hV, ← hid]
        exact searchMinLoop_root LowerKeys.nodup (fun _ _ _ => rfl) h name
      | sealed h hV =>
        rw [← hV, ← hid]
        exact searchMinLoop_root SortedKeys.nodup (fun _ hnode => childSealed_eq hnode) h name
  rw [hsearch]
  constructor
  · rw [← firstCandidate_eq_none_iff hroot.value, firstCandidate, findSome?_eq_none_iff,
      min?_eq_none_iff, filterMap_eq_nil_iff]
  · intro v
    rw [min?_eq_some_iff, hmem]
    refine and_congr_right fun _ => ⟨fun h p hp w hw => h w ((hmem w).mpr ⟨p, hp, hw⟩), ?_⟩
    intro h w hw
    obtain ⟨p, hp, hv⟩ := (hmem w).mp hw
    exact h p hp w hv

end MostSpecific

end Meow.Trie
