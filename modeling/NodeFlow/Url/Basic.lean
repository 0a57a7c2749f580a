import NodeFlow.Decimal.Numeral
import NodeFlow.Text.Blank
import NodeFlow.Text.Digit
import NodeFlow.Url.Host

/-!
# Addresses

An address has a scheme, a host with perhaps a name and a port, a path, a query and a fragment.
It is kept in a normal form: scheme and host in lower case, no port that the scheme implies, no
dot segments in the path of a full address, and only safe characters anywhere.

Main results:

- Type `Url`; definitions `Url.read?` and `Url.render`.
- Definitions `Url.base?` and `Url.join?`: the address of a path under a base.
- Definition `Url.target`: the path that a request with the address is for.
- Theorem `Url.join?_of_isAbsolute`: a full address does not depend on the base.
-/

namespace NodeFlow

/-- An address in its normal form. -/
structure Url where
  scheme : String := ""
  user : String := ""
  host : String := ""
  port : Option Int := none
  path : String := ""
  query : Option String := none
  fragment : Option String := none
  deriving DecidableEq, Inhabited

namespace Url

/-! ## Parts of an address as text -/

/-- The most characters that an address or a part of it may have. -/
def maxLength : Nat := 65536

/-- Whether a character of ASCII is a control character. -/
def isControl (c : Char) : Bool := c.toNat < 32 || c.toNat == 127

/-- The visible characters of ASCII without the given ones. -/
def visibleBut (others : String) (c : Char) : Bool :=
  33 ≤ c.toNat && c.toNat < 127 && !others.toList.contains c

/-- The characters that stay as they are in a name before the host. -/
def isUserSafe : Char → Bool := visibleBut "\"#<>?`\x7b\x7d/;=@[\\]^|"

/-- The characters that stay as they are in a path. -/
def isPathSafe : Char → Bool := visibleBut "\"#<>?`\x7b\x7d"

/-- The characters that stay as they are in a query. -/
def isQuerySafe : Char → Bool := visibleBut "\"#<>"

/-- The characters that stay as they are in a fragment. -/
def isFragmentSafe : Char → Bool := visibleBut "\"<>`"

/-- Whether a character may stand in a scheme. -/
def isSchemeChar (c : Char) : Bool := c.isAlphanum || c == '+' || c == '.' || c == '-'

/-- Split a scheme off.  An empty scheme is allowed before a colon. -/
def splitScheme (cs : List Char) : List Char × List Char :=
  match cs.takeWhile isSchemeChar, cs.dropWhile isSchemeChar with
  | [], ':' :: rest => ([], rest)
  | c :: scheme, ':' :: rest => if c.isAlpha then (c :: scheme, rest) else ([], cs)
  | _, _ => ([], cs)

/-- Split off what stands between two slashes and the path. -/
def splitAuthority : List Char → List Char × List Char
  | '/' :: '/' :: rest =>
    let isInside (c : Char) : Bool := !(c == '/' || c == '?' || c == '#')
    (rest.takeWhile isInside, rest.dropWhile isInside)
  | cs => ([], cs)

/-- Split at the first of a character; without it there is no second part. -/
def splitAt (mark : Char) (cs : List Char) : List Char × Option (List Char) :=
  match cs.dropWhile (· != mark) with
  | [] => (cs, none)
  | _ :: rest => (cs.takeWhile (· != mark), some rest)

/-- Split name, host and port.  The last at sign ends the name; brackets may hold colons. -/
def splitHost (cs : List Char) : List Char × List Char × List Char :=
  let (user, place) := match cs.reverse.dropWhile (· != '@') with
    | [] => ([], cs)
    | _ :: user => (user.reverse, (cs.reverse.takeWhile (· != '@')).reverse)
  let tail := (place.reverse.dropWhile (· != ']')).reverse
  let (host, rest) :=
    if place.head? == some '[' && !tail.isEmpty then (tail, place.drop tail.length)
    else (place.takeWhile fun c => c != ':' && c != '@',
      place.dropWhile fun c => c != ':' && c != '@')
  (user, host, match rest with
    | ':' :: port => port
    | port => port)

/-- The ports that schemes imply. -/
def impliedPorts : List (String × Int) :=
  [("ftp", 21), ("http", 80), ("https", 443), ("ws", 80), ("wss", 443)]

/-- Read a port; none is kept that the scheme implies. -/
def readPort? (scheme port : String) : Option (Option Int) :=
  if port = "" then some none
  else
    match Decimal.readInt Text.digitValue? port with
    | .whole n => some (if impliedPorts.lookup scheme = some n then none else some n)
    | _ => none

/-- Drop the dot segments of a path; two dots drop the segment before, but not the root. -/
def dropDots : List String → List String → List String
  | kept, [] => kept.reverse
  | kept, "." :: rest => dropDots kept rest
  | kept, ".." :: rest => dropDots (if kept = [""] then kept else kept.drop 1) rest
  | kept, part :: rest => dropDots (part :: kept) rest

/-- A path without dot segments. -/
def plainPath (path : String) : String := "/".intercalate (dropDots [] (path.splitToList (· == '/')))

/-- Whether a path may stand in an address of the given kind. -/
def pathFits (isFull hasHost : Bool) (path : String) : Bool :=
  if hasHost then path = "" || path.startsWith "/"
  else isFull || !(path.startsWith "//" || path.startsWith ":")

/-! ## Reading and writing -/

/-- Put an address together from its parts as text. -/
def ofParts? (scheme authority path : String) (query fragment : Option String) : Option Url := do
  let (user, host, port) := splitHost authority.toList
  let user := Text.percentEncode isUserSafe (String.ofList user)
  let host ← Host.read? (String.ofList host)
  let port ← readPort? scheme (String.ofList port)
  let hasHost := user ≠ "" || host ≠ "" || port.isSome
  let isFull := scheme ≠ "" || hasHost
  if !pathFits isFull hasHost path then none
  else
    let path := if isFull then plainPath path else path
    pure { scheme := scheme.toLower, user, host, port
           path := Text.percentEncode isPathSafe path
           query := query.map (Text.percentEncode isQuerySafe)
           fragment := fragment.map (Text.percentEncode isFragmentSafe) }

/-- Read an address, which may lack any of its parts. -/
def read? (s : String) : Option Url :=
  let cs := s.toList
  if maxLength < cs.length || cs.any isControl then none
  else
    let (scheme, cs) := splitScheme cs
    let (authority, cs) := splitAuthority cs
    let (cs, fragment) := splitAt '#' cs
    let (path, query) := splitAt '?' cs
    ofParts? (String.ofList scheme) (String.ofList authority) (String.ofList path)
      (query.map String.ofList) (fragment.map String.ofList)

/-- Name, host and port. -/
def authority (u : Url) : String :=
  (if u.user = "" then "" else u.user ++ "@") ++
    (if u.host.toList.contains ':' then "[" ++ u.host ++ "]" else u.host) ++
    (match u.port with
      | some n => ":" ++ toString n
      | none => "")

/-- The text of an address. -/
def render (u : Url) : String :=
  (if u.scheme = "" then "" else u.scheme ++ ":") ++
    (if u.authority = "" then "" else "//" ++ u.authority) ++ u.path ++
    ((u.query.map ("?" ++ ·)).getD "") ++ (u.fragment.map ("#" ++ ·)).getD ""

/-! ## Joining -/

/-- Whether an address says both how and where to go. -/
def isAbsolute (u : Url) : Bool := u.scheme ≠ "" && u.host ≠ ""

/-- Path and query. -/
def pathAndQuery (u : Url) : String :=
  (if u.path = "" then "/" else u.path) ++ (u.query.map ("?" ++ ·)).getD ""

/-- The address with another path and query. -/
def withPathAndQuery? (u : Url) (s : String) : Option Url :=
  let (path, query) := splitAt '?' s.toList
  if maxLength < path.length || (query.any (maxLength < ·.length)) then none
  else
    ofParts? u.scheme u.authority (String.ofList path) (query.map String.ofList) u.fragment

/-- The base that a text stands for: slashes at its end do not count, and its path ends in one. -/
def base? (s : String) : Option Url := do
  let u ← read? (Text.stripEnd '/' s)
  if u.pathAndQuery.endsWith "/" then pure u else u.withPathAndQuery? (u.pathAndQuery ++ "/")

/-- An address under a base, unless it is a full one. -/
def join? (base : Url) (s : String) : Option Url := do
  let u ← read? s
  if u.isAbsolute then pure u
  else
    base.withPathAndQuery?
      (base.pathAndQuery ++ String.ofList (u.pathAndQuery.toList.dropWhile (· == '/')))

/-- The path that a request with the address is for. -/
def target (u : Url) : String := Text.percentDecode (if u.path = "" then "/" else u.path)

/-- Whether a text names its kind: a colon stands behind something and before any slash. -/
def namesKind (s : String) : Bool :=
  let cs := s.toList
  let isInside (c : Char) : Bool := !(c == '/' || c == ':')
  !(cs.takeWhile isInside).isEmpty && (cs.dropWhile isInside).head? == some ':'

/-- A full address does not depend on the base. -/
theorem join?_of_isAbsolute {s : String} {u : Url} (h : read? s = some u)
    (ha : u.isAbsolute = true) (base : Url) : base.join? s = some u := by
  simp [join?, h, ha]

end Url

end NodeFlow
