/-!
# URIs

A URI is known by its normalised text, and two URIs are the same when their texts are.  Its parts
are read off the text: the scheme up to the first colon, a host after two slashes, and the path up
to a query or a fragment.

## Main definitions

* `Uri`: a normalised URI.
* `Uri.scheme`, `Uri.host?`, `Uri.path`: its parts.
* `UriError`: why a text is no URI, with `UriError.message`.
-/

namespace CursorContext

/-- A URI, known by its normalised text. -/
structure Uri where
  /-- The normalised text. -/
  text : String
  deriving DecidableEq, Repr, Inhabited

/-- Why a text is no URI. -/
inductive UriError
  /-- No scheme stands in front. -/
  | noScheme
  /-- A host is asked for and none is there. -/
  | emptyHost
  /-- The port is no decimal number up to 65535. -/
  | badPort
  deriving DecidableEq, Repr

/-- The wording of a reason. -/
def UriError.message : UriError → String
  | .noScheme => "relative URL without a base"
  | .emptyHost => "empty host"
  | .badPort => "invalid port number"

namespace Uri

/-- Neither a query nor a fragment begins here. -/
def inHierarchy (c : Char) : Bool := c != '?' && c != '#'

/-- The host, its user information and its port end here. -/
def inAuthority (c : Char) : Bool := inHierarchy c && c != '/'

/-- What follows the first colon. -/
def afterScheme (u : Uri) : List Char := (u.text.toList.dropWhile (· != ':')).drop 1

/-- The scheme, without its colon. -/
def scheme (u : Uri) : String := String.ofList (u.text.toList.takeWhile (· != ':'))

/-- The host with its user information and its port, if two slashes introduce one. -/
def host? (u : Uri) : Option String :=
  match u.afterScheme with
  | '/' :: '/' :: rest => some (String.ofList (rest.takeWhile inAuthority))
  | _ => none

/-- The path, without the dot segment that keeps a path beginning with two slashes apart from a
host. -/
def path (u : Uri) : String :=
  let rest :=
    match u.afterScheme with
    | '/' :: '/' :: rest => rest.dropWhile inAuthority
    | '/' :: '.' :: '/' :: '/' :: rest => '/' :: '/' :: rest
    | rest => rest
  String.ofList (rest.takeWhile inHierarchy)

end Uri

end CursorContext
