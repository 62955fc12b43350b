import Meow.Lib.PrefixTree
import Meow.Lib.Search
import Meow.Lib.Text

/-!
# The domain trie

The trie of `trie.rs` maps domain patterns to values. A pattern is a name (`example.com`), a name
with one label in front (`*.example.com`), a name with any labels in front (`.example.com`), or
the last two together (`+.example.com`). The labels of a name lead from the root, the last label
first, to a node with one value for each kind of pattern.

While it is built, a node keeps its children in a hash map; `seal` turns these into sorted slices.
A search is the same walk down the tree in four versions: by a map or by a binary search, and with
regard to case or without.

## Main definitions

* `DomainTrie` — the trie, with `insert`, `seal`, `search`, `searchNormalized` and
  `searchMinNormalized`.
* `searchLoop`, `searchMinLoop` — the walks.
-/

namespace Meow.Trie

/-- The values of a node. -/
structure NodeValues (T : Type) where
  exactValue : Option T
  starValue : Option T
  dotValue : Option T
  deriving DecidableEq

instance {T : Type} : Inhabited (NodeValues T) := ⟨⟨none, none, none⟩⟩

/-- `BuildNode`: the entries of the map of children, which has no order. -/
abbrev BuildNode (T : Type) := PrefixTree Str (NodeValues T)

/-- `SealedNode`: the children in the order of their keys. -/
abbrev SealedNode (T : Type) := PrefixTree Str (NodeValues T)

/-- The order in which a `HashMap` goes through its entries. Nothing is known about it. -/
structure HashOrder where
  iter : {τ : Type} → List (Str × τ) → List (Str × τ)
  perm : ∀ {τ : Type} (l : List (Str × τ)), (iter l).Perm l

/-- A map that goes through its entries as they were inserted. -/
def HashOrder.inserted : HashOrder := ⟨id, fun _ => List.Perm.refl _⟩

/-- `children.sort_by(|(a, _), (b, _)| a.as_bytes().cmp(b.as_bytes()))`. -/
def sortChildren {τ : Type} (l : List (Str × τ)) : List (Str × τ) :=
  l.mergeSort fun a b => (compare (asBytes a.1) (asBytes b.1)).isLE

def intoSealed {T : Type} (order : HashOrder) (self : BuildNode T) : SealedNode T :=
  self.rearrange fun l => sortChildren (order.iter l)

inductive TrieState (T : Type) where
  | building (root : BuildNode T)
  | sealed (root : SealedNode T)

inductive MatchKind where
  | exact
  | star
  | dot
  deriving DecidableEq

/-- `get_or_insert` for the value of one kind: the first value stays. -/
def NodeValues.getOrInsert {T : Type} (kind : MatchKind) (value : T) (v : NodeValues T) :
    NodeValues T :=
  match kind with
  | .exact => { v with exactValue := v.exactValue.or (some value) }
  | .star => { v with starValue := v.starValue.or (some value) }
  | .dot => { v with dotValue := v.dotValue.or (some value) }

structure DomainTrie (T : Type) where
  state : TrieState T
  len : ℕ

namespace DomainTrie

variable {T : Type}

def new : DomainTrie T := ⟨.building .leaf, 0⟩

/-- `insert_into_tree`: a sealed trie does not change. -/
def insertIntoTree (self : DomainTrie T) (baseDomain : Str) (value : T) (kind : MatchKind) :
    DomainTrie T :=
  match self.state with
  | .building root =>
    { self with
      state := .building (root.modifyAt (NodeValues.getOrInsert kind value)
        (rsplit '.' baseDomain)) }
  | .sealed _ => self

/-- `DomainTrie::insert`, with what it returns. -/
def insert (lc : Lowercase) (self : DomainTrie T) (domain : Str) (data : T) :
    Bool × DomainTrie T :=
  let domain := lc.toLowercase (trim domain)
  match domain with
  | [] => (false, self)
  | '+' :: '.' :: rest =>
    if rest = [] then (false, self)
    else
      let self := self.insertIntoTree rest data .star
      let self := self.insertIntoTree rest data .dot
      (true, { self with len := self.len + 2 })
  | '*' :: '.' :: rest =>
    if rest = [] then (false, self)
    else
      let self := self.insertIntoTree rest data .star
      (true, { self with len := self.len + 1 })
  | '.' :: rest =>
    if rest = [] then (false, self)
    else
      let self := self.insertIntoTree rest data .dot
      (true, { self with len := self.len + 1 })
  | domain =>
    let self := self.insertIntoTree domain data .exact
    (true, { self with len := self.len + 1 })

def «seal» (order : HashOrder) (self : DomainTrie T) : DomainTrie T :=
  match self.state with
  | .building root => { self with state := .sealed (intoSealed order root) }
  | .sealed _ => self

end DomainTrie

/-! ### Children -/

section Child

variable {T : Type}

/-- `node.children.get(label)`. -/
def childBuild (node : BuildNode T) (label : Str) : Option (BuildNode T) :=
  lookupKey label node.children

/-- `[u8]::eq_ignore_ascii_case`. -/
def eqIgnoreAsciiCase (a b : List UInt8) : Bool :=
  a.length == b.length && (a.zip b).all fun p => byteLower p.1 == byteLower p.2

/-- The first child in the map's order whose key is the label up to case. -/
def childBuildCaseInsensitive (order : HashOrder) (node : BuildNode T) (label : Str) :
    Option (BuildNode T) :=
  ((order.iter node.children).find? fun e => eqIgnoreAsciiCase (asBytes e.1) (asBytes label)).map
    Prod.snd

/-- The child that a binary search finds. -/
def childSealed (node : SealedNode T) (label : Str) : Option (SealedNode T) :=
  (binarySearchBy (fun e => compare (asBytes e.1) (asBytes label)) node.children).bind
    fun idx => (node.children[idx]?).map Prod.snd

/-- The loop of `cmp_ascii_lower_to_mixed` over the pairs of bytes: the first difference. -/
def cmpPairs : List (UInt8 × UInt8) → Ordering
  | [] => .eq
  | (a, b) :: rest =>
    match compare a (byteLower b) with
    | .eq => cmpPairs rest
    | nonEq => nonEq

def cmpAsciiLowerToMixed (lower mixed : List UInt8) : Ordering :=
  match cmpPairs (lower.zip mixed) with
  | .eq => compare lower.length mixed.length
  | nonEq => nonEq

/-- The child that a binary search without regard to case finds. -/
def childSealedCaseInsensitive (node : SealedNode T) (label : Str) : Option (SealedNode T) :=
  (binarySearchBy (fun e => cmpAsciiLowerToMixed (asBytes e.1) (asBytes label))
    node.children).bind fun idx => (node.children[idx]?).map Prod.snd

end Child

/-! ### Searches -/

section Search

variable {T : Type}

/-- The loop of the four searches, for a way to go to a child: `n` is the number of labels of the
query, `d` the number of labels that are behind, and `best` the value found so far. -/
def searchLoop (child : PrefixTree Str (NodeValues T) → Str →
    Option (PrefixTree Str (NodeValues T))) (n : ℕ) :
    PrefixTree Str (NodeValues T) → Option T → ℕ → List Str → Option T
  | _, best, _, [] => best
  | node, best, d, label :: labels =>
    match child node label with
    | none => best
    | some node =>
      let remaining := n - d - 1
      if remaining = 0 then
        match node.value.exactValue with
        | some v => some v
        | none => searchLoop child n node best (d + 1) labels
      else if remaining = 1 then
        searchLoop child n node (node.value.starValue.or (node.value.dotValue.or best)) (d + 1)
          labels
      else searchLoop child n node (node.value.dotValue.or best) (d + 1) labels

def foldMin [LE T] [DecidableLE T] (best candidate : Option T) : Option T :=
  match candidate with
  | none => best
  | some candidate =>
    match best with
    | some current => if current ≤ candidate then some current else some candidate
    | none => some candidate

/-- The loop of the searches for the least value. -/
def searchMinLoop [LE T] [DecidableLE T] (child : PrefixTree Str (NodeValues T) → Str →
    Option (PrefixTree Str (NodeValues T))) (n : ℕ) :
    PrefixTree Str (NodeValues T) → Option T → ℕ → List Str → Option T
  | _, best, _, [] => best
  | node, best, d, label :: labels =>
    match child node label with
    | none => best
    | some node =>
      let remaining := n - d - 1
      if remaining = 0 then
        searchMinLoop child n node (foldMin best node.value.exactValue) (d + 1) labels
      else
        let best := if remaining = 1 then foldMin best node.value.starValue else best
        searchMinLoop child n node (foldMin best node.value.dotValue) (d + 1) labels

/-- `query.bytes().filter(|&b| b == b'.').count() + 1`. -/
def labelCount (query : Str) : ℕ := query.count '.' + 1

def searchBuild (root : BuildNode T) (query : Str) : Option T :=
  searchLoop childBuild (labelCount query) root none 0 (rsplit '.' query)

def searchBuildCaseInsensitive (order : HashOrder) (root : BuildNode T) (query : Str) : Option T :=
  searchLoop (childBuildCaseInsensitive order) (labelCount query) root none 0 (rsplit '.' query)

def searchSealed (root : SealedNode T) (query : Str) : Option T :=
  searchLoop childSealed (labelCount query) root none 0 (rsplit '.' query)

def searchSealedCaseInsensitive (root : SealedNode T) (query : Str) : Option T :=
  searchLoop childSealedCaseInsensitive (labelCount query) root none 0 (rsplit '.' query)

def searchMinBuild [LE T] [DecidableLE T] (root : BuildNode T) (query : Str) : Option T :=
  searchMinLoop childBuild (labelCount query) root none 0 (rsplit '.' query)

def searchMinSealed [LE T] [DecidableLE T] (root : SealedNode T) (query : Str) : Option T :=
  searchMinLoop childSealed (labelCount query) root none 0 (rsplit '.' query)

namespace DomainTrie

def searchInner (self : DomainTrie T) (query : Str) : Option T :=
  if query = [] then none
  else
    match self.state with
    | .building root => searchBuild root query
    | .sealed root => searchSealed root query

def searchAsciiCaseInsensitiveInner (order : HashOrder) (self : DomainTrie T) (query : Str) :
    Option T :=
  if query = [] then none
  else
    match self.state with
    | .building root => searchBuildCaseInsensitive order root query
    | .sealed root => searchSealedCaseInsensitive root query

/-- `char::is_ascii_uppercase`. -/
def isAsciiUppercase (c : Char) : Bool := 'A' ≤ c && c ≤ 'Z'

def search (order : HashOrder) (self : DomainTrie T) (domain : Str) : Option T :=
  if self.len = 0 then none
  else
    let trimmed := trim domain
    if trimmed.any isAsciiUppercase then
      self.searchAsciiCaseInsensitiveInner order (trimEndMatches '.' trimmed)
    else self.searchInner (trimEndMatches '.' trimmed)

def searchNormalized (self : DomainTrie T) (domainLower : Str) : Option T :=
  if self.len = 0 then none else self.searchInner (trimEndMatches '.' domainLower)

def searchMinNormalized [LE T] [DecidableLE T] (self : DomainTrie T) (domainLower : Str) :
    Option T :=
  if self.len = 0 then none
  else
    let query := trimEndMatches '.' domainLower
    if query = [] then none
    else
      match self.state with
      | .building root => searchMinBuild root query
      | .sealed root => searchMinSealed root query

def isEmpty (self : DomainTrie T) : Bool := self.len == 0

end DomainTrie

end Search

end Meow.Trie
