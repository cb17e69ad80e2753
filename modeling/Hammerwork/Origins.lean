/-
The dashboard's checks of where a request comes from.

A browser says which origin's page sends a request. Requests that change
something pass if their origin is listed, or if it is the host the request
was sent to. Origins are compared as texts: `normalizeOrigin` brings a listed
origin and that of a request to one form, and for the comparison with the
host the default port of the scheme is left out.

Texts are lists of characters.
-/
import Mathlib.Data.List.Defs
import Hammerwork.PayloadTemplate
import Mathlib.Algebra.Ring.Nat

namespace Hammerwork

namespace Origins

open PayloadTemplate (trim)

abbrev Text := List Char

-- == texts

/-- In lower case, ASCII letters only. -/
def toAsciiLowercase (text : Text) : Text := text.map Char.toLower

/-- The text before and after the last `c`. -/
def rsplitOnce (c : Char) (text : Text) : Option (Text × Text) :=
  if c ∈ text then
    some ((text.rdropWhile (· ≠ c)).dropLast, text.rtakeWhile (· ≠ c))
  else
    none

/-- The number of a text of digits. -/
def number (digits : Text) : Nat := digits.foldl (fun n c => 10 * n + (c.toNat - 48)) 0

/-- The number of a text of digits, if it has 16 bits. -/
def parseU16 (digits : Text) : Option Nat :=
  if number digits < 2 ^ 16 then some (number digits) else none

-- == origins

def http : Text := ['h', 't', 't', 'p']

def https : Text := ['h', 't', 't', 'p', 's']

/-- What stands between the scheme and the authority. -/
def separator : Text := [':', '/', '/']

/-- The characters an authority does not have. -/
def notInAuthority : Text := ['/', '?', '#', '@', ' ']

/-- The host of an authority; none if its port is no number of 16 bits. -/
def hostOf (authority : Text) : Option Text :=
  match rsplitOnce ':' authority with
  | some (host, port) =>
      -- an IPv6 literal without a port also has a colon
      if port.getLast? = some ']' then
        some authority
      else if port.isEmpty || !port.all Char.isDigit then
        none
      else
        (parseU16 port).map fun _ => host
  | none => some authority

/-- The canonical form of a web origin. -/
def normalizeOrigin (origin : Text) : Option Text :=
  let origin := toAsciiLowercase (trim origin)
  let origin := (origin.dropSuffix? ['/']).getD origin
  match origin.dropInfix? separator with
  | none => none
  | some (scheme, authority) =>
      if !(scheme = http || scheme = https) || authority.isEmpty then
        none
      else if authority.any (· ∈ notInAuthority) then
        none
      else
        match hostOf authority with
        | none => none
        | some host => if host.isEmpty then none else some (scheme ++ separator ++ authority)

/-- The origins that may send requests that change something. -/
structure AllowedOrigins where
  origins : List Text

/-- The normalized origins, or the first one that is not valid. -/
def AllowedOrigins.new (origins : List Text) : Except Text AllowedOrigins :=
  (origins.mapM fun origin =>
    match normalizeOrigin origin with
    | some normalized => Except.ok normalized
    | none => .error origin).map AllowedOrigins.mk

/-- An origin, as a browser sends it, is listed. -/
def AllowedOrigins.contains (allowed : AllowedOrigins) (origin : Text) : Bool :=
  match normalizeOrigin origin with
  | some normalized => allowed.origins.contains normalized
  | none => false

-- == requests

/-- The default port of a scheme, after its colon. -/
def defaultPortText (scheme : Text) : Text :=
  if scheme = https then ['4', '4', '3'] else ['8', '0']

/-- An authority in lower case, without the default port of the scheme. -/
def withoutDefaultPort (scheme authority : Text) : Text :=
  let authority := toAsciiLowercase authority
  (authority.dropSuffix? (':' :: defaultPortText scheme)).getD authority

/-- The values of `Sec-Fetch-Site` that pass. -/
def trustedSites : List Text :=
  [['s', 'a', 'm', 'e', '-', 'o', 'r', 'i', 'g', 'i', 'n'], ['n', 'o', 'n', 'e']]

/-- A request with these headers may proceed. -/
def requestAllowed (origin fetchSite host : Option Text) (allowed : AllowedOrigins) : Bool :=
  if origin.any allowed.contains then
    true
  else
    match fetchSite with
    | some site => toAsciiLowercase (trim site) ∈ trustedSites
    | none =>
        match origin with
        | none => true
        | some origin =>
            match normalizeOrigin origin with
            | none => false
            | some normalized =>
                match normalized.dropInfix? separator with
                | none => false
                | some (scheme, authority) =>
                    host.any fun host =>
                      withoutDefaultPort scheme host = withoutDefaultPort scheme authority

end Origins

end Hammerwork
