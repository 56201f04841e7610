import MailPortal.Lib.IpAddress
import MailPortal.Platform.JavaScript

/-!
# Canonical Addresses

Requests for a recovery are counted for each address, under the text that
`canonicalCredentialRecoveryIp` makes of what was given. The text is split at double colons and
colons, after four octets at its end have been rewritten as two groups.
-/

namespace MailPortal.Recovery

open Separated

/-! ### Characters -/

/-- `[0-9]` -/
def isDecimal (c : Char) : Bool := '0' ≤ c && c ≤ '9'

/-- `[0-9a-f]` -/
def isLowerHex (c : Char) : Bool := isDecimal c || ('a' ≤ c && c ≤ 'f')

/-- `[0-9A-Fa-f:.]` -/
def isAddressChar (c : Char) : Bool :=
  isLowerHex c || ('A' ≤ c && c ≤ 'F') || c = ':' || c = '.'

/-! ### Four octets -/

/-- `/^(0|[1-9][0-9]{0,2})$/` -/
def isOctetText : List Char → Bool
  | [] => false
  | c :: cs => (c = '0' && cs.isEmpty) ||
      ('1' ≤ c && c ≤ '9' && cs.length ≤ 2 && cs.all isDecimal)

/-- `Number(part)`, of decimal digits. -/
def decimal (part : List Char) : ℕ := Nat.ofDigitChars 10 part 0

def canonicalIpv4 (input : List Char) : Option (List Char) :=
  let parts := input.splitOn '.'
  if parts.length ≠ 4 ∨ parts.any fun part => !isOctetText part || decimal part > 255 then none
  else some (['.'].intercalate parts)

/-- `[0-9]+(?:\.[0-9]+){3}`, the whole text. -/
def isDottedNumbers (cs : List Char) : Bool :=
  let parts := cs.splitOn '.'
  parts.length = 4 && parts.all fun part => !part.isEmpty && part.all isDecimal

/-- `ipv6.match(/(?:^|:)([0-9]+(?:\.[0-9]+){3})$/)?.[1]`: the group has no colon and ends the text,
so that it is what is behind the last colon. -/
def embeddedIpv4 (ipv6 : List Char) : Option (List Char) :=
  (ipv6.splitOn ':').getLast?.filter isDottedNumbers

/-- `value.toString(16)` -/
def toHex (n : ℕ) : List Char := Nat.toDigits 16 n

/-- The text with four octets at its end rewritten; none when they are not canonical. -/
def rewriteEmbedded (ipv6 : List Char) : Option (List Char) :=
  match embeddedIpv4 ipv6 with
  | none => some ipv6
  | some embedded =>
    (canonicalIpv4 embedded).map fun canonical =>
      let octets := (canonical.splitOn '.').map decimal
      ipv6.take (ipv6.length - embedded.length) ++
        (toHex (octets.getD 0 0 <<< 8 ||| octets.getD 1 0) ++
          ':' :: toHex (octets.getD 2 0 <<< 8 ||| octets.getD 3 0))

/-! ### Eight groups -/

/-- `/^[0-9a-f]{1,4}$/` -/
def isHextet (part : List Char) : Bool :=
  1 ≤ part.length && part.length ≤ 4 && part.all isLowerHex

/-- `raw ? raw.split(":") : []` -/
def splitRaw (raw : List Char) : List (List Char) := if raw = [] then [] else raw.splitOn ':'

/-- The eight groups of a text. -/
def hextetsOf (ipv6 : List Char) : Option (List (List Char)) :=
  if countDouble ':' ipv6 > 1 then none
  else
    -- The text includes `::` just if it is found once.
    let compressed : Bool := countDouble ':' ipv6 ≠ 0
    let pieces := splitDouble ':' ipv6
    let left := splitRaw (pieces.getD 0 [])
    let right := splitRaw (pieces.getD 1 [])
    if (left ++ right).any (fun part => !isHextet part) ∨
        (if compressed then left.length + right.length ≥ 8 else left.length ≠ 8) then none
    else if compressed then
      some (left ++ (List.replicate (8 - left.length - right.length) ['0'] ++ right))
    else some left

/-- `Number.parseInt(part, 16)`, of hexadecimal digits. -/
def parseHex (part : List Char) : ℕ := (IpAddress.hexFrom 0 part).getD 0

/-- A run of zeros: where it starts, if there is one, and how long it is. -/
structure ZeroRun where
  bestStart : Option ℕ
  bestLength : ℕ

/-- The `for` loop that looks for the longest run of zeros, by the number of its passes. -/
def longestRun (normalized : List (List Char)) : ℕ → ℕ → ZeroRun → ZeroRun
  | 0, _, best => best
  | passes + 1, start, best =>
    if start < normalized.length then
      if normalized[start]? ≠ some ['0'] then longestRun normalized passes (start + 1) best
      else
        let «end» := start + ((normalized.drop start).takeWhile (· = ['0'])).length
        let best :=
          if «end» - start > best.bestLength then ⟨some start, «end» - start⟩ else best
        longestRun normalized passes «end» best
    else best

/-- The groups with the longest run of zeros left out. -/
def compress (normalized : List (List Char)) : List Char :=
  let best := longestRun normalized normalized.length 0 ⟨none, 1⟩
  match best.bestStart with
  | none => [':'].intercalate normalized
  | some bestStart =>
    [':'].intercalate (normalized.take bestStart) ++ ':' :: ':' ::
      [':'].intercalate (normalized.drop (bestStart + best.bestLength))

/-- What is made of the text of eight groups; its characters are of ASCII. -/
def canonicalIpv6 (candidate : List Char) : Option (List Char) :=
  (rewriteEmbedded (candidate.map Char.toLower)).bind fun ipv6 =>
    (hextetsOf ipv6).map fun hextets => compress (hextets.map fun part => toHex (parseHex part))

def canonicalCredentialRecoveryIp (value : String) : String :=
  let candidate := trim value
  if candidate = "" ∨ codeUnits candidate > 45 ∨ !candidate.toList.all isAddressChar then "unknown"
  else
    let canonical :=
      if ':' ∉ candidate.toList then canonicalIpv4 candidate.toList
      else canonicalIpv6 candidate.toList
    (canonical.map String.ofList).getD "unknown"

end MailPortal.Recovery
