import CursorContext.Uri.Basic

/-!
# Schemes

How a URI is read depends on its scheme.  *Web* schemes have a host and a port that is usual for
them, the *file* scheme may do without a host, and nothing is known of any other scheme.

Line breaks and tabs mean nothing inside a URI, and blanks mean nothing around it.

## Main definitions

* `SchemeKind`, `SchemeKind.ofScheme`: how the rest of a URI is read.
* `Uri.trim`, `Uri.unbroken`: a text without the blanks around it, and without breaks.
* `Uri.splitScheme`: the scheme and what follows its colon.
-/

namespace CursorContext

/-- How the rest of a URI is read. -/
inductive SchemeKind
  /-- Documents of the file system. -/
  | file
  /-- A scheme with a host and a usual port. -/
  | web (port : Nat)
  /-- Any other scheme. -/
  | other
  deriving DecidableEq, Repr

namespace SchemeKind

/-- The kind of a scheme in lower case. -/
def ofScheme (scheme : String) : SchemeKind :=
  if scheme = "file" then .file
  else if scheme = "http" ∨ scheme = "ws" then .web 80
  else if scheme = "https" ∨ scheme = "wss" then .web 443
  else if scheme = "ftp" then .web 21
  else .other

/-- Web and file schemes take a backslash for a slash. -/
def isSpecial : SchemeKind → Bool
  | .other => false
  | _ => true

/-- The characters that separate segments. -/
def isSlash (k : SchemeKind) (c : Char) : Bool := c == '/' || (k.isSpecial && c == '\\')

end SchemeKind

namespace Uri

/-- A character that a scheme may go on with. -/
def isSchemeChar (c : Char) : Bool := c.isAlphanum || c == '+' || c == '.' || c == '-'

/-- A control character or a blank. -/
def isBlank (c : Char) : Bool := c.toNat ≤ 0x20

/-- A line break or a tab. -/
def isBreak (c : Char) : Bool := c == '\t' || c == '\n' || c == '\r'

/-- The text without blanks around it. -/
def trim (cs : List Char) : List Char :=
  ((cs.dropWhile isBlank).reverse.dropWhile isBlank).reverse

/-- The text without breaks. -/
def unbroken (cs : List Char) : List Char := cs.filter (!isBreak ·)

/-- The scheme in lower case and what follows its colon. -/
def splitScheme (cs : List Char) : Except UriError (List Char × List Char) :=
  let inScheme (c : Char) : Bool := isSchemeChar c || isBreak c
  match cs.dropWhile inScheme with
  | ':' :: rest =>
    match unbroken (cs.takeWhile inScheme) with
    | [] => .error .noScheme
    | c :: name =>
      if c.isAlpha then .ok ((c :: name).map Char.toLower, rest) else .error .noScheme
  | _ => .error .noScheme

end Uri

end CursorContext
