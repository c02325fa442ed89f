import Playground.Text.Digit
import Playground.Url.Host

/-!
# Addresses

The reading of a web address the way a browser reads it.  Blanks and controls at the
ends, tabs and line ends do not count.  In a scheme of the web a backslash means a
slash, any number of slashes may stand before the host, and the host must not be
empty.  Dots in a path are resolved, and everything that has no place in an address
gets a percent sign.

    https://user:pw@example.org:8080/a/b?query#fragment
    scheme  user     host       port path query fragment
-/

namespace Playground

open Text

/-- The path of an address. -/
inductive Url.Path where
  /-- Segments, each behind a slash. -/
  | segments (ss : List (List Char))
  /-- A text of any form, in an address that names no host. -/
  | verbatim (s : List Char)
deriving DecidableEq, Repr

/-- A web address. -/
structure Url where
  /-- The scheme, in lower case. -/
  scheme : List Char
  /-- The name of the user. -/
  username : List Char
  /-- The password of the user. -/
  password : List Char
  /-- The host. -/
  host : Option Url.Host
  /-- The port, if it is not the usual one of the scheme. -/
  port : Option Nat
  /-- The path. -/
  path : Url.Path
  /-- The text behind the question mark. -/
  query : Option (List Char)
  /-- The text behind the number sign. -/
  fragment : Option (List Char)
deriving DecidableEq, Repr

namespace Url

/-! ## Schemes -/

/-- The schemes of the web, with their usual ports. -/
def webSchemes : List (List Char × Option Nat) :=
  [("http".toList, some 80), ("https".toList, some 443), ("ws".toList, some 80),
    ("wss".toList, some 443), ("ftp".toList, some 21), ("file".toList, none)]

/-- The scheme is one of the web. -/
def isWeb (scheme : List Char) : Bool := webSchemes.any (·.1 = scheme)

/-- The usual port of a scheme. -/
def usualPort? (scheme : List Char) : Option Nat :=
  (webSchemes.find? (·.1 = scheme)).bind Prod.snd

/-- A character of a scheme. -/
def isSchemeChar (c : Char) : Bool := c.isAlphanum || c = '+' || c = '-' || c = '.'

/-- The scheme at the start of an address, in lower case, and what follows it. -/
def splitScheme? (s : List Char) : Option (List Char × List Char) :=
  match s.dropWhile isSchemeChar with
  | ':' :: r =>
    let scheme := s.takeWhile isSchemeChar
    if (scheme.head?.map Char.isAlpha).getD false then some (scheme.map Char.toLower, r) else none
  | _ => none

/-! ## What stands for itself -/

/-- The octet stands for itself in a fragment. -/
def keptInFragment (b : UInt8) : Bool :=
  isPrintable b && !(" \"<>`".toList.any fun c => c.toNat = b.toNat)

/-- The octet stands for itself in a query. -/
def keptInQuery (web : Bool) (b : UInt8) : Bool :=
  isPrintable b && !(" \"#<>".toList.any fun c => c.toNat = b.toNat) && !(web && b = 0x27)

/-- The octet stands for itself in a path. -/
def keptInPath (b : UInt8) : Bool :=
  keptInFragment b && !("#?\x7b\x7d".toList.any fun c => c.toNat = b.toNat)

/-- The octet stands for itself in the name or the password of a user. -/
def keptInUser (b : UInt8) : Bool :=
  keptInPath b && !("/:;=@[\\]^|".toList.any fun c => c.toNat = b.toNat)

/-! ## Parts -/

/-- The text before the first separator, and what follows it if there is one. -/
def cut (sep : Char) (s : List Char) : List Char × Option (List Char) :=
  match splitFirst? sep s with
  | some (a, b) => (a, some b)
  | none => (s, none)

/-- The text before and behind the last separator. -/
def splitLast? (sep : Char) (s : List Char) : Option (List Char × List Char) :=
  (splitFirst? sep s.reverse).map fun p => (p.2.reverse, p.1.reverse)

/-- The host and what follows it, where a colon inside brackets does not end the
host. -/
def splitPort (inside : Bool) : List Char → List Char × Option (List Char)
  | [] => ([], none)
  | c :: s =>
    if c = ':' ∧ !inside then ([], some s)
    else
      let p := splitPort ((inside || c = '[') && c ≠ ']') s
      (c :: p.1, p.2)

/-- The port of some digits, where the usual one and none are the same. -/
def port? (scheme ds : List Char) : Option (Option Nat) :=
  if !ds.all Char.isDigit then none
  else if ds = [] then some none
  else
    let n := digitsValue ds
    if 65535 < n then none else some (if usualPort? scheme = some n then none else some n)

/-- A slash, or what means one. -/
def isSlash (web : Bool) (c : Char) : Bool := c = '/' || (web && c = '\\')

/-- A segment that means the directory itself. -/
def isDot (s : List Char) : Bool := s = ['.'] || s.map Char.toLower = "%2e".toList

/-- A segment that means the directory around it. -/
def isDotDot (s : List Char) : Bool :=
  let s := s.map Char.toLower
  ["..".toList, ".%2e".toList, "%2e.".toList, "%2e%2e".toList].contains s

/-- The segments with dots resolved, behind those in `done`, which has the last one
first.  Dots at the end leave an empty segment. -/
def resolve (done : List (List Char)) : List (List Char) → List (List Char)
  | [] => done.reverse
  | s :: ss =>
    let (kept, dots) :=
      if isDotDot s then (done.drop 1, true) else if isDot s then (done, true) else (done, false)
    if !dots then resolve (Percent.encode keptInPath s :: kept) ss
    else if ss = [] then ([] :: kept).reverse
    else resolve kept ss

/-- The segments of a path that starts with a slash. -/
def segments (web : Bool) (s : List Char) : List (List Char) :=
  resolve [] (splitOn '/' ((s.drop 1).map fun c => if isSlash web c then '/' else c))

/-! ## Reading -/

/-- The address of its parts behind the scheme, for a scheme and what comes before a
query. -/
def withAuthority? (toAscii : ToAscii) (scheme authority path : List Char)
    (query fragment : Option (List Char)) : Option Url := do
  let web := isWeb scheme
  let (user, place) := match splitLast? '@' authority with
    | some (user, place) => (user, place)
    | none => ([], authority)
  let (username, password) := cut ':' user
  let (hostText, portText) := splitPort false place
  if hostText = [] ∧ (web ∨ portText.isSome ∨ authority ≠ place) then none
  let host ← Host.read? toAscii web hostText
  let port ← port? scheme (portText.getD [])
  return {
    scheme
    username := Percent.encode keptInUser username
    password := Percent.encode keptInUser (password.getD [])
    host := some host
    port
    path := .segments (if web ∨ path ≠ [] then segments web path else [])
    query := query.map (Percent.encode (keptInQuery web))
    fragment := fragment.map (Percent.encode keptInFragment) }

/-- The address without a host. -/
def withoutAuthority (scheme : List Char) (path : Path) (query fragment : Option (List Char)) :
    Url where
  scheme
  username := []
  password := []
  host := none
  port := none
  path
  query := query.map (Percent.encode (keptInQuery (isWeb scheme)))
  fragment := fragment.map (Percent.encode keptInFragment)

/-- A character that does not count at the ends of an address. -/
def isEdge (c : Char) : Bool := c.toNat ≤ 0x20

/-- The characters of an address that count. -/
def counted (s : List Char) : List Char :=
  (((s.dropWhile isEdge).reverse.dropWhile isEdge).reverse).filter fun c =>
    !(c = '\t' || c = '\n' || c = '\r')

/-- The address of a file, by what stands between the scheme and a query. -/
def fileUrl? (toAscii : ToAscii) (rest : List Char) (query fragment : Option (List Char)) :
    Option Url :=
  let onDisk (path : List Char) : Url :=
    withoutAuthority "file".toList (.segments (segments true path)) query fragment
  let behind := rest.dropWhile (isSlash true)
  match rest.length - behind.length with
  | 0 => some (onDisk ('/' :: rest))
  | 2 =>
    let host := behind.takeWhile fun c => !isSlash true c
    let path := behind.dropWhile fun c => !isSlash true c
    if host = "localhost".toList then some (onDisk path)
    else withAuthority? toAscii "file".toList host path query fragment
  | 1 => some (onDisk rest)
  | _ => some (onDisk (rest.drop 2))

/-- The address that a text means.  It has to name its scheme. -/
def read? (toAscii : ToAscii) (text : List Char) : Option Url := do
  let (scheme, rest) ← splitScheme? (counted text)
  let (rest, fragment) := cut '#' rest
  let (rest, query) := cut '?' rest
  if scheme = "file".toList then fileUrl? toAscii rest query fragment
  else if isWeb scheme then
    let rest := rest.dropWhile (isSlash true)
    withAuthority? toAscii scheme (rest.takeWhile fun c => !isSlash true c)
      (rest.dropWhile fun c => !isSlash true c) query fragment
  else
    match rest with
    | '/' :: '/' :: rest =>
      if rest.takeWhile (· ≠ '/') = [] then
        some { withoutAuthority scheme (.segments (segments false rest)) query fragment with
          host := some (.verbatim []) }
      else
        withAuthority? toAscii scheme (rest.takeWhile (· ≠ '/')) (rest.dropWhile (· ≠ '/'))
          query fragment
    | '/' :: _ => some (withoutAuthority scheme (.segments (segments false rest)) query fragment)
    | _ => some (withoutAuthority scheme (.verbatim (Percent.encode isPrintable rest)) query fragment)

/-! ## Writing -/

/-- The text of a path. -/
def Path.text : Path → List Char
  | .segments ss => ss.flatMap ('/' :: ·)
  | .verbatim s => s

/-- The address names a host. -/
def hasHost (u : Url) : Bool :=
  match u.host with
  | some (.verbatim s) => s ≠ []
  | some _ => true
  | none => false

/-- The user of an address, ended by a sign. -/
def userText (u : Url) : List Char :=
  if u.username = [] ∧ u.password = [] then []
  else u.username ++ (if u.password = [] then [] else ':' :: u.password) ++ ['@']

/-- The host and the port. -/
def place (u : Url) : List Char :=
  (u.host.map Host.text).getD [] ++ (u.port.map fun n => ':' :: Nat.toDigits 10 n).getD []

/-- The text of an address. -/
def text (u : Url) : List Char :=
  let authority := if u.host.isSome then '/' :: '/' :: u.userText ++ u.place
    else if u.scheme = "file".toList then ['/', '/'] else []
  u.scheme ++ ':' :: authority ++ u.path.text ++ (u.query.map ('?' :: ·)).getD []
    ++ (u.fragment.map ('#' :: ·)).getD []

/-- The address without its user. -/
def withoutUser (u : Url) : Url := { u with username := [], password := [] }

/-- What a request asks the host for: the path and the query. -/
def target (u : Url) : List Char :=
  let path := u.path.text
  (if path = [] then ['/'] else path) ++ (u.query.map ('?' :: ·)).getD []

example : (read? simpleAscii "http:/g/./a/..//x y?q r#f".toList).map text
    = some "http://g//x%20y?q%20r#f".toList := by decide +kernel
example : (read? simpleAscii "HTTP://Host:80".toList).map text
    = some "http://host/".toList := by decide +kernel
example : (read? simpleAscii "localhost:80/a".toList).map text
    = some "localhost:80/a".toList := by decide +kernel
example : read? simpleAscii "/api".toList = none := by decide +kernel

end Url

end Playground
