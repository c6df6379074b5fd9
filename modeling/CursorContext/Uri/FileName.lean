import CursorContext.Text.Utf8
import CursorContext.Uri.Basic
import CursorContext.Uri.Percent

/-!
# The file a URI names

A `file` URI without a host names a file: its path with every `%XX` decoded and read leniently as
UTF-8.  A bare drive is a folder and gets a final slash.  Any other URI is named by its path as it
is written.

## Main definitions

* `Uri.fileName`: the name shown for a document.

## Main results

* `Uri.fileName_of_encoded`: a local file is shown by its path, whatever of it was encoded.
-/

namespace CursorContext.Uri

/-- The byte of an ASCII letter. -/
def isLetter (b : UInt8) : Bool :=
  (65 ≤ b.toNat && b.toNat ≤ 90) || (97 ≤ b.toNat && b.toNat ≤ 122)

/-- The bytes end in a drive: a letter and then a colon or a bar, with something in front. -/
def endsInDrive (bytes : List UInt8) : Bool :=
  match bytes.reverse with
  | mark :: letter :: _ :: _ => (mark == 0x3A || mark == 0x7C) && isLetter letter
  | _ => false

/-- The bytes of the path in the file system. -/
def fileBytes (path : List Char) : List UInt8 :=
  let bytes := Percent.decode path
  if endsInDrive bytes then bytes ++ [0x2F] else bytes

/-- The name shown for a document: a path of the file system for a local file, else the path as
it is written. -/
def fileName (u : Uri) : String :=
  if u.scheme = "file" ∧ u.host? = some "" then
    String.ofList (Text.Utf8.decode (fileBytes u.path.toList))
  else u.path

/-- **A local file is shown by its path, whatever of it was encoded**, unless it is a bare drive. -/
theorem fileName_of_encoded {u : Uri} {set : Percent.CharSet} {cs : List Char}
    (hscheme : u.scheme = "file") (hhost : u.host? = some "")
    (hpath : u.path.toList = Percent.encode set cs) (hplain : '%' ∉ cs)
    (hdrive : endsInDrive (cs.flatMap String.utf8EncodeChar) = false) :
    u.fileName = String.ofList cs := by
  have hbytes : fileBytes u.path.toList = cs.flatMap String.utf8EncodeChar := by
    rw [fileBytes, hpath, Percent.decode_encode set hplain, hdrive]
    rfl
  rw [fileName, if_pos ⟨hscheme, hhost⟩, hbytes, Text.Utf8.decode_encoded]

end CursorContext.Uri
