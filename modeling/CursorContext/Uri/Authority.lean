import CursorContext.Text.Utf8
import CursorContext.Uri.Path

/-!
# Hosts

In front of the path of a URI stands its authority: a host, with user information in front of it
and a port behind it.  An empty password loses its colon, and an empty user without a password loses
everything; a port that is empty or usual for the scheme is dropped.

The host of a web or file scheme is written in lower case with its percent-encoding undone; that of
any other scheme stays as it is.  In the latter a backslash ends the port, and what begins there
belongs to the path.

## Main definitions

* `Authority.read`: an authority in its normalised form.
* `Authority.fileHost`: the host of a file.
-/

namespace CursorContext

namespace Authority

/-- The text in front of the first `mark` and the text behind it, if there is one. -/
def splitAtMark (mark : Char) (cs : List Char) : List Char × Option (List Char) :=
  (cs.takeWhile (· != mark),
    match cs.dropWhile (· != mark) with
    | [] => none
    | _ :: rest => some rest)

/-- The text in front of the last `mark` and the text behind it; without a mark there is nothing in
front. -/
def splitAtLast (mark : Char) (cs : List Char) : Option (List Char) × List Char :=
  match cs.reverse.dropWhile (· != mark) with
  | [] => (none, cs)
  | _ :: front => (some front.reverse, (cs.reverse.takeWhile (· != mark)).reverse)

/-- The host itself and what follows its colon; a colon between square brackets is part of the
host. -/
def splitHost : Bool → List Char → List Char × Option (List Char)
  | _, [] => ([], none)
  | inside, c :: cs =>
    if c == ':' && !inside then ([], some cs)
    else
      let (host, port) := splitHost ((inside || c == '[') && c != ']') cs
      (c :: host, port)

/-- The user information as it is printed, with its at sign. -/
def userText (cs : List Char) : List Char :=
  let enc := Percent.encode Percent.inUserInfo
  let (user, password) := splitAtMark ':' cs
  match password with
  | some (c :: rest) => enc user ++ ':' :: enc (c :: rest) ++ ['@']
  | _ => if user.isEmpty then [] else enc user ++ ['@']

/-- A host in lower case with its percent-encoding undone. -/
def knownHost (host : List Char) : List Char :=
  (Text.Utf8.decode (Percent.decode host)).map Char.toLower

/-- The host as it is printed. -/
def hostText (k : SchemeKind) (host : List Char) : List Char :=
  if k.isSpecial then knownHost host else Percent.encode Percent.inOpaquePath host

/-- The host of a file: `localhost` is none. -/
def fileHost (host : List Char) : List Char :=
  let host := knownHost host
  if host = "localhost".toList then [] else host

/-- A decimal number up to 65535. -/
def readPort (cs : List Char) : Except UriError Nat :=
  let n := cs.foldl (fun n c => 10 * n + (c.toNat - 48)) 0
  if cs.all Char.isDigit && n ≤ 65535 then .ok n else .error .badPort

/-- The port as it is printed. -/
def portText (k : SchemeKind) (cs : List Char) : Except UriError (List Char) := do
  let n ← readPort cs
  if cs.isEmpty || k == .web n then .ok [] else .ok (':' :: (toString n).toList)

/-- An authority in its normalised form, and what is left of it for the path; `ends` says that the
URI ends with it.

A host may be empty only outside the web schemes, and then without user information and without a
port.  An at sign that nothing stands in front of may end the URI, but nothing inside it. -/
def read (k : SchemeKind) (ends : Bool) (cs : List Char) :
    Except UriError (List Char × List Char) := do
  let (user, rest) := splitAtLast '@' cs
  let (host, behind) := splitHost false rest
  let front := userText (user.getD [])
  if host.isEmpty
      && (k.isSpecial || behind.isSome || !front.isEmpty || (user == some [] && !ends)) then
    .error .emptyHost
  else
    let behind := behind.getD []
    let port ← portText k (behind.takeWhile (· != '\\'))
    .ok (front ++ hostText k host ++ port, behind.dropWhile (· != '\\'))

end Authority

end CursorContext
