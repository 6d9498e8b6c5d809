import Snapshots.Url.Host

/-! # URLs

A URL is read by the rules that browsers follow: special schemes have a host, a path of segments
from which the dots are resolved, and lenient slashes. User names and passwords are left out.
-/

namespace Snapshots

open Text

/-- A path: segments behind slashes, or one text. -/
inductive Url.Path where
  | segments (names : List (List Char))
  | plain (text : List Char)
  deriving DecidableEq, Repr

structure Url where
  scheme : List Char
  /-- The host, if there is a place for one, even an empty one. -/
  host : Option Url.Host
  port : Option Nat
  path : Url.Path
  query : Option (List Char)
  fragment : Option (List Char)
  deriving DecidableEq, Repr

namespace Url

/-- The default port of a special scheme, if it has any. -/
def specialPorts : List (String × Option Nat) :=
  [("http", some 80), ("https", some 443), ("ws", some 80), ("wss", some 443), ("ftp", some 21),
    ("file", none)]

def isSpecial (scheme : List Char) : Bool :=
  specialPorts.any (·.1.toList = scheme)

def defaultPort? (scheme : List Char) : Option Nat :=
  (specialPorts.find? (·.1.toList = scheme)).bind (·.2)

/-! ### Paths -/

def isDot (seg : List Char) : Bool :=
  [".", "%2e"].contains (String.ofList (seg.map Char.toLower))

def isDotDot (seg : List Char) : Bool :=
  ["..", ".%2e", "%2e.", "%2e%2e"].contains (String.ofList (seg.map Char.toLower))

/-- The segments behind some that are already taken, the last first, with the dots resolved. A dot
segment at the end leaves an empty segment. -/
def resolveFrom : List (List Char) → List (List Char) → List (List Char)
  | taken, [] => taken.reverse
  | taken, [seg] =>
    if isDotDot seg then (taken.drop 1).reverse ++ [[]]
    else if isDot seg then taken.reverse ++ [[]]
    else taken.reverse ++ [seg]
  | taken, seg :: segs =>
    if isDotDot seg then resolveFrom (taken.drop 1) segs
    else if isDot seg then resolveFrom taken segs
    else resolveFrom (seg :: taken) segs

def resolve (segs : List (List Char)) : List (List Char) :=
  resolveFrom [] segs

/-- Whether a character stands between segments. A special scheme takes a backslash for a slash. -/
def isSlash (special : Bool) (c : Char) : Bool :=
  c = '/' || (special && c = '\\')

/-- The segments that a path writes behind its first slash. -/
def segmentsOf (special : Bool) (cs : List Char) : List (List Char) :=
  resolve ((splitWhere (isSlash special) cs).map (encode escapesInPath))

/-! ### Reading -/

def cutAt (c : Char) (cs : List Char) : List Char × Option (List Char) :=
  let front := cs.takeWhile (· ≠ c)
  (front, (cs.drop front.length).tail?)

def afterLast (c : Char) (cs : List Char) : List Char :=
  (cs.reverse.takeWhile (· ≠ c)).reverse

/-- The characters up to the colon in front of a port. Colons in brackets do not count. -/
def hostPart : Bool → List Char → List Char
  | _, [] => []
  | inside, c :: cs =>
    if c = ':' ∧ ¬ inside then []
    else c :: hostPart (if c = '[' then true else if c = ']' then false else inside) cs

/-- The port behind a colon, which may be left out. The default port of a scheme is no port. -/
def portOf? (scheme : List Char) : List Char → Option (Option Nat)
  | [] | [':'] => some none
  | ':' :: ds =>
    if ds.all Char.isDigit ∧ natOfDigits ds < 65536 then
      let n := natOfDigits ds
      some (if defaultPort? scheme = some n then none else some n)
    else none
  | _ => none

def authority? (scheme : List Char) (cs : List Char) : Option (Host × Option Nat) := do
  let place := afterLast '@' cs
  let special := isSpecial scheme
  let host := hostPart false place
  let port ← portOf? scheme (place.drop host.length)
  if host = [] then
    if special ∨ place ≠ [] ∨ cs ≠ [] then none else some (.plain [], none)
  else some (← Host.ofText? special host, port)

/-- The host of a file. It may be missing, and the own host is not written. -/
def fileHost? (cs : List Char) : Option Host :=
  if cs = [] then some (.plain [])
  else (Host.ofText? true cs).map fun h =>
    if h = .domain "localhost".toList then .plain [] else h

def isMargin (c : Char) : Bool :=
  c ≤ ' '

/-- A text without what does not count: blanks at its ends, and tabs and line ends anywhere. -/
def tidy (cs : List Char) : List Char :=
  ((cs.dropWhile isMargin).reverse.dropWhile isMargin).reverse.filter fun c =>
    c ≠ '\t' ∧ c ≠ '\n' ∧ c ≠ '\r'

def scheme? (cs : List Char) : Option (List Char × List Char) :=
  let name := cs.takeWhile fun c => c.isAlphanum || c = '+' || c = '-' || c = '.'
  match name.head?, cs.drop name.length with
  | some c, ':' :: rest => if c.isAlpha then some (name.map Char.toLower, rest) else none
  | _, _ => none

/-- The host, the port and the path that the text behind a scheme writes. -/
def location? (scheme : List Char) (cs : List Char) :
    Option (Option Host × Option Nat × Url.Path) := do
  let special := isSpecial scheme
  let slash := isSlash special
  let behind (host : Host) (port : Option Nat) (cs : List Char) :
      Option (Option Host × Option Nat × Url.Path) :=
    let names := if cs = [] ∧ ¬ special then [] else segmentsOf special (cs.drop 1)
    some (some host, port, .segments names)
  let leading := (cs.takeWhile slash).length
  if scheme = "file".toList then
    let rest := if 2 ≤ leading then cs.drop 2 else cs
    let host := if 2 ≤ leading then rest.takeWhile (fun c => !slash c) else []
    let path := rest.drop host.length
    behind (← fileHost? host) none (if slash (path.headD ' ') then path else '/' :: path)
  else if special ∨ 2 ≤ leading then
    let rest := cs.drop (if special then leading else 2)
    let place := rest.takeWhile fun c => !slash c
    let (host, port) ← authority? scheme place
    behind host port (rest.drop place.length)
  else if leading = 1 then some (none, none, .segments (segmentsOf false (cs.drop 1)))
  else some (none, none, .plain (encode isControl cs))

def ofText? (s : String) : Option Url := do
  let (scheme, rest) ← scheme? (tidy s.toList)
  let (rest, fragment) := cutAt '#' rest
  let (rest, query) := cutAt '?' rest
  let (host, port, path) ← location? scheme rest
  return {
    scheme, host, port, path
    query := query.map (encode (escapesInQuery (isSpecial scheme)))
    fragment := fragment.map (encode escapesInFragment) }

def hasHost (u : Url) : Bool :=
  u.host.any (· ≠ .plain [])

/-! ### Writing -/

def Path.text : Url.Path → List Char
  | segments names => names.flatMap ('/' :: ·)
  | plain text => text

def marked (mark : Char) : Option (List Char) → List Char
  | some cs => mark :: cs
  | none => []

/-- The text of a URL. A path that starts with two slashes must not be taken for a host. -/
def text (u : Url) : String :=
  let place := match u.host, u.path with
    | some host, _ => ['/', '/'] ++ host.text ++ marked ':' (u.port.map digits)
    | none, .segments ([] :: _ :: _) => ['/', '.']
    | none, _ => []
  String.ofList (u.scheme ++ [':'] ++ place ++ u.path.text ++ marked '?' u.query ++
    marked '#' u.fragment)

end Url

end Snapshots
