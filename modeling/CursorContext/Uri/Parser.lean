import CursorContext.Uri.Authority

/-!
# Reading URIs

A text is read as a URI without a base and normalised on the way: blanks around it and breaks inside
it are dropped, the scheme is put into lower case, dot segments are resolved, and characters that
may not stand in a part are percent-encoded.  How the rest is read depends on the scheme.

* *Web* schemes have a host, which may follow any number of slashes.
* The *file* scheme may do without a host; `localhost` counts as none, and so does any host in front
  of a path that begins with a drive.
* In any other scheme two slashes introduce a host, one slash begins a path with segments, and
  without a slash the path is opaque.

## Main definitions

* `Parts`, `Parts.text`: the parts of a URI and its normalised text.
* `Uri.parse`: a text read as a URI.
-/

namespace CursorContext

/-- The parts of a URI, each in its normalised form. -/
structure Parts where
  /-- The scheme, in lower case. -/
  scheme : List Char
  /-- The host with its user information and its port. -/
  authority : Option (List Char)
  /-- The path. -/
  path : List Char
  /-- The query, without its question mark. -/
  query : Option (List Char)
  /-- The fragment, without its number sign. -/
  fragment : Option (List Char)
  deriving DecidableEq, Repr

/-- The normalised text.  A path that begins with two slashes is kept apart from a host by a dot
segment. -/
def Parts.text (p : Parts) : List Char :=
  p.scheme ++ [':']
    ++ (match p.authority with
        | some a => '/' :: '/' :: a
        | none => if ['/', '/'].isPrefixOf p.path then ['/', '.'] else [])
    ++ p.path
    ++ (match p.query with | some q => '?' :: q | none => [])
    ++ (match p.fragment with | some f => '#' :: f | none => [])

namespace Uri

/-- The authority of a URI, unless it has none, and its path. -/
abbrev Hierarchy := Option (List Char) × List Char

/-- What follows a slash, with breaks in front of it or without. -/
def afterSlash? (k : SchemeKind) (cs : List Char) : Option (List Char) :=
  match cs.dropWhile isBreak with
  | [] => none
  | c :: rest => if k.isSlash c then some rest else none

/-- A text up to its first slash, and from there on. -/
def splitAtSlash (k : SchemeKind) (cs : List Char) : List Char × List Char :=
  (cs.takeWhile (!k.isSlash ·), cs.dropWhile (!k.isSlash ·))

/-- Host and path of a web scheme. -/
def readWeb (k : SchemeKind) (cs : List Char) : Except UriError Hierarchy := do
  let (authority, path) := splitAtSlash k (cs.dropWhile k.isSlash)
  let (authority, _) ← Authority.read k false authority
  .ok (some authority, (Trail.afterHost k path).text k)

/-- Host and path of a file, behind the two slashes in front of its host.  Where a drive stands in
the place of the host it begins the path.  Behind no host the path has a slash in front of its first
segment, and then that segment is no drive. -/
def readFileHost (cs : List Char) : Hierarchy :=
  let (host, path) := splitAtSlash .file cs
  if Segment.isDrive (unbroken host) then (some [], (Trail.ofText .file cs).text .file)
  else
    match Authority.fileHost (unbroken host) with
    | [] => (some [], (Trail.ofText .file path).text .file)
    | host =>
      let trail := Trail.afterHost .file path
      (some (if trail.onDrive then [] else host), trail.text .file)

/-- Host and path of a file. -/
def readFile (cs : List Char) : Hierarchy :=
  match afterSlash? .file cs with
  | none => (some [], (Trail.ofText .file cs).text .file)
  | some path =>
    match afterSlash? .file path with
    | none => (some [], (Trail.ofText .file path).text .file)
    | some rest => readFileHost rest

/-- Host and path of a scheme that nothing is known of; `ends` says that nothing follows. -/
def readOther (ends : Bool) (cs : List Char) : Except UriError Hierarchy :=
  match cs with
  | '/' :: '/' :: rest => do
    let (authority, path) := splitAtSlash .other rest
    let (authority, front) ← Authority.read .other (ends && path.isEmpty) authority
    match front ++ path with
    | [] => .ok (some authority, [])
    | path => .ok (some authority, (Trail.afterHost .other path).text .other)
  | '/' :: path => .ok (none, (Trail.ofText .other path).text .other)
  | _ => .ok (none, Percent.encode Percent.inOpaquePath cs)

/-- Host and path behind the colon of a scheme; `ends` says that nothing follows. -/
def readHierarchy (k : SchemeKind) (ends : Bool) (cs : List Char) : Except UriError Hierarchy :=
  match k with
  | .web _ => readWeb k (unbroken cs)
  | .file => .ok (readFile cs)
  | .other => readOther ends (unbroken cs)

/-- The normalised parts of a text. -/
def readParts (cs : List Char) : Except UriError Parts := do
  let (scheme, rest) ← splitScheme (trim cs)
  let k := SchemeKind.ofScheme (String.ofList scheme)
  let (front, fragment) := Authority.splitAtMark '#' rest
  let (hierarchy, query) := Authority.splitAtMark '?' front
  let (authority, path) ← readHierarchy k (query.isNone && fragment.isNone) hierarchy
  .ok {
    scheme, authority, path
    query := query.map fun q => Percent.encode (Percent.inQuery k.isSpecial) (unbroken q)
    fragment := fragment.map fun f => Percent.encode Percent.inFragment (unbroken f) }

/-- The URI of a text, or why it is none. -/
def parse (s : String) : Except UriError Uri :=
  (readParts s.toList).map fun p => ⟨String.ofList p.text⟩

end Uri

end CursorContext
