import Meow.Lib.Text
import Meow.Net.IpAddr

/-!
# Internet addresses in text

`IpAddr::from_str` of the standard library reads the dotted notation of IPv4 and the notation of
IPv6 with groups of hexadecimal digits, in which one row of zero groups may be left out and the last
two groups may be an IPv4 address. Each reader takes what it reads off the front of the text.

## Main definitions

* `parseIpAddr` — `str::parse::<IpAddr>`.
* `displayIpAddr` — `IpAddr::to_string`.
-/

namespace Meow

/-- `char::to_digit`. -/
def toDigit (radix : ℕ) (c : Char) : Option ℕ :=
  let n := c.toNat
  let digit :=
    if 48 ≤ n ∧ n ≤ 57 then n - 48
    else if 97 ≤ n ∧ n ≤ 122 then n - 97 + 10
    else if 65 ≤ n ∧ n ≤ 90 then n - 65 + 10
    else radix
  if digit < radix then some digit else none

/-- `read_number` of a number that is less than `bound`. -/
def readNumber (radix maxDigits : ℕ) (allowZeroPrefix : Bool) (bound : ℕ) (s : Str) :
    Option (ℕ × Str) :=
  let digits := s.takeWhile fun c => (toDigit radix c).isSome
  let result := digits.foldl (fun acc c => acc * radix + (toDigit radix c).getD 0) 0
  if digits.length = 0 ∨ maxDigits < digits.length then none
  else if !allowZeroPrefix && s.head? == some '0' && decide (1 < digits.length) then none
  else if result < bound then some (result, s.drop digits.length) else none

/-- `read_given_char`. -/
def readGivenChar (c : Char) : Str → Option Str
  | [] => none
  | x :: rest => if x = c then some rest else none

/-- `read_separator`: the separator stands before all but the first. -/
def readSeparator {α : Type} (sep : Char) (index : ℕ) (inner : Str → Option (α × Str)) (s : Str) :
    Option (α × Str) :=
  if 0 < index then (readGivenChar sep s).bind inner else inner s

/-- `read_ipv4_addr`. -/
def readIpv4Addr (s : Str) : Option (ℕ × Str) := do
  let octet := readNumber 10 3 false 256
  let (a, s) ← readSeparator '.' 0 octet s
  let (b, s) ← readSeparator '.' 1 octet s
  let (c, s) ← readSeparator '.' 2 octet s
  let (d, s) ← readSeparator '.' 3 octet s
  return (((a * 256 + b) * 256 + c) * 256 + d, s)

/-- `read_groups`: the groups, whether they end with an IPv4 address, and the rest. There is room
for `room` more. -/
def readGroups : ℕ → List ℕ → Str → List ℕ × Bool × Str
  | 0, groups, s => (groups, false, s)
  | room + 1, groups, s =>
    match (if 0 < room then readSeparator ':' groups.length readIpv4Addr s else none) with
    | some (n, s) => (groups ++ [n / 65536, n % 65536], true, s)
    | none =>
      match readSeparator ':' groups.length (readNumber 16 4 true 65536) s with
      | some (group, s) => readGroups room (groups ++ [group]) s
      | none => (groups, false, s)

/-- The address of eight groups. -/
def ofGroups (groups : List ℕ) : ℕ := groups.foldl (fun acc group => acc * 65536 + group) 0

/-- `read_ipv6_addr`. -/
def readIpv6Addr (s : Str) : Option (ℕ × Str) := do
  let (head, headIpv4, s) := readGroups 8 [] s
  if head.length = 8 then return (ofGroups head, s)
  -- no IPv4 address before the groups that are left out
  if headIpv4 then failure
  let s ← readGivenChar ':' s
  let s ← readGivenChar ':' s
  let (tail, _, s) := readGroups (8 - (head.length + 1)) [] s
  return (ofGroups (head ++ List.replicate (8 - head.length - tail.length) 0 ++ tail), s)

/-- `str::parse::<IpAddr>`: the whole text is an address. -/
def parseIpAddr (s : Str) : Option IpAddr :=
  match readIpv4Addr s with
  | some (n, rest) => if rest = [] then some (.v4 (BitVec.ofNat 32 n)) else none
  | none =>
    match readIpv6Addr s with
    | some (n, rest) => if rest = [] then some (.v6 (BitVec.ofNat 128 n)) else none
    | none => none

example : parseIpAddr (str "10.0.0.1") = some (.v4 0x0A000001#32) := by decide +kernel

example : parseIpAddr (str "fe80::1:10.0.0.1") =
    some (.v6 0xfe8000000000000000000001_0A000001) := by
  decide +kernel

example : parseIpAddr (str "10.0.0.01") = none := by decide +kernel

/-! ### Writing -/

/-- `Ipv4Addr::fmt`. -/
def displayIpv4 (n : ℕ) : Str :=
  joinStr (str ".") ([n / 16777216 % 256, n / 65536 % 256, n / 256 % 256, n % 256].map natToStr)

/-- The eight groups of an address. -/
def segments (n : ℕ) : List ℕ := (List.range 8).map fun i => n / 65536 ^ (7 - i) % 65536

/-- The loop that looks for the longest row of zero groups, the first of the longest: its start and
its length. -/
def longestZeros : List ℕ → ℕ → ℕ × ℕ → ℕ × ℕ → ℕ × ℕ
  | [], _, longest, _ => longest
  | segment :: rest, i, longest, (start, len) =>
    if segment = 0 then
      let current := (if len = 0 then i else start, len + 1)
      longestZeros rest (i + 1) (if current.2 > longest.2 then current else longest) current
    else longestZeros rest (i + 1) longest (0, 0)

/-- `fmt_subslice`. -/
def displaySegments (chunk : List ℕ) : Str :=
  joinStr (str ":") (chunk.map fun segment => Nat.toDigits 16 segment)

/-- `Ipv6Addr::fmt`. -/
def displayIpv6 (n : ℕ) : Str :=
  if n / 2 ^ 32 = 0xffff then str "::ffff:" ++ displayIpv4 n
  else
    let (start, len) := longestZeros (segments n) 0 (0, 0) (0, 0)
    if len > 1 then
      displaySegments ((segments n).take start) ++ str "::" ++
        displaySegments ((segments n).drop (start + len))
    else displaySegments (segments n)

/-- `IpAddr::to_string`. -/
def displayIpAddr : IpAddr → Str
  | .v4 n => displayIpv4 n.toNat
  | .v6 n => displayIpv6 n.toNat

example : displayIpAddr (.v6 0xfe8000000000000000000001_0A000001) = str "fe80::1:a00:1" := by
  decide +kernel

end Meow
