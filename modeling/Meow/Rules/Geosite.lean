import Mathlib.Data.List.AList
import Meow.Trie.DomainTrie

/-!
# The geosite database

`GeositeDB` keeps, for each category of names, a trie of names, the keywords and the regular
expressions. A category may be asked for with attributes behind `@`, each of which is a category of
its own.

## Main definitions

* `GeositeDb` — the database.
* `GeositeDb.lookup` — is a name in a category?
* `GeositeDb.resolveKeys`, `GeositeDb.lookupResolved` — the same in two steps.
-/

namespace Meow.Rules

open Trie

/-- `GeositeDB`, as far as lookups read it. A regular expression is known by the texts that it
matches. -/
structure GeositeDb where
  categories : AList fun _ : Str => DomainTrie Unit
  keywords : AList fun _ : Str => List Str
  regexCompiled : AList fun _ : Str => List (Str → Bool)

def splitCategoryAttrs (category : Str) : Str × List Str :=
  match (trim category).splitOn '@' with
  | [] => ([], [])
  | base :: parts =>
    (trim base, ((parts.map trim).filter fun attr => attr ≠ []).map toAsciiLowercase)

namespace GeositeDb

variable (order : HashOrder) (self : GeositeDb)

/-- `category_key`: the key of the database that is the category up to case. -/
def categoryKey (category : Str) : Option Str :=
  if category.any DomainTrie.isAsciiUppercase then
    (self.categories.keys ++ self.keywords.keys ++ self.regexCompiled.keys).find?
      fun key => strEqIgnoreAsciiCase key category
  else some category

def lookupResolved (key domain : Str) : Bool :=
  (self.categories.lookup key).any (fun trie => (trie.search order domain).isSome) ||
    (self.keywords.lookup key).any (fun kws => kws.any fun kw => containsStr domain kw) ||
    (self.regexCompiled.lookup key).any fun compiled => compiled.any fun re => re domain

def lookupOne (category domain : Str) : Bool :=
  match self.categoryKey category with
  | none => false
  | some cat => self.lookupResolved order cat domain

def lookup (category domain : Str) : Bool :=
  let (base, attrs) := splitCategoryAttrs category
  if attrs ≠ [] then attrs.all fun attr => self.lookupOne order (base ++ '@' :: attr) domain
  else self.lookupOne order base domain

def bucketExists (key : Str) : Bool :=
  (self.categories.lookup key).isSome || (self.keywords.lookup key).isSome ||
    (self.regexCompiled.lookup key).isSome

def resolveKeys (category : Str) : Option (List Str) :=
  let (base, attrs) := splitCategoryAttrs category
  if base = [] then none
  else
    let needed := if attrs = [] then [base] else attrs.map fun attr => base ++ '@' :: attr
    needed.mapM fun key => do
      let canon ← self.categoryKey key
      if self.bucketExists canon then some canon else none

end GeositeDb

end Meow.Rules
