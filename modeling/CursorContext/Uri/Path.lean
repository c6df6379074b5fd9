import CursorContext.Uri.Percent
import CursorContext.Uri.Scheme

/-!
# Paths

A path is read segment by segment.  A segment of one dot stays where it is, and one of two dots goes
one segment up, in either case with dots that may be percent-encoded.

A *drive* is a letter with a colon or a bar behind it.  No scheme goes up from a segment that begins
with one, alone or in front of a backslash.  In the file scheme a drive in the first segment is
written with a colon, and it takes the place of the host.  There, too, a drive with a colon may be
parted by a break from the text behind it, which then counts as a segment that is taken as it is.

## Main definitions

* `Segment.ofText`, `Segment.isDot`, `Segment.isDotDot`: segments, and those made of dots.
* `Segment.isDrive`, `Segment.beginsWithDrive`, `Segment.partedDrive?`: drives.
* `Trail`, `Trail.segment`: the segments read so far, and one more.
* `Trail.read`, `Trail.text`: the segments of a path and the path itself.
* `Trail.StartsAt`: the first of the segments is a drive.

## Main results

* `Trail.startsAt_read_drive`: whatever segments follow a drive, the path starts at that drive.
-/

namespace CursorContext

namespace Segment

/-- The segments between slashes: one more than there are slashes. -/
def ofText (isSlash : Char → Bool) : List Char → List (List Char)
  | [] => [[]]
  | c :: cs =>
    if isSlash c then [] :: ofText isSlash cs
    else
      match ofText isSlash cs with
      | [] => [[c]]
      | s :: rest => (c :: s) :: rest

/-- The segment says: stay here. -/
def isDot (s : List Char) : Bool := [".", "%2e", "%2E"].contains (String.ofList s)

/-- The segment says: one up. -/
def isDotDot (s : List Char) : Bool :=
  ["..", ".%2e", ".%2E", "%2e.", "%2E.", "%2e%2e", "%2e%2E", "%2E%2e", "%2E%2E"].contains
    (String.ofList s)

/-! ### Drives -/

/-- A letter with a colon or a bar behind it. -/
def isDrive : List Char → Bool
  | [c, mark] => c.isAlpha && (mark == ':' || mark == '|')
  | _ => false

/-- The segment is a drive, or begins with one in front of a backslash. -/
def beginsWithDrive (s : List Char) : Bool :=
  isDrive (s.take 2) && (s.drop 2).head?.all (· == '\\')

/-- A drive with a colon and the text that a break parts from it. -/
def partedDrive? (s : List Char) : Option (List Char × List Char) :=
  match s.dropWhile Uri.isBreak with
  | [] => none
  | c :: s =>
    match s.dropWhile Uri.isBreak with
    | ':' :: b :: rest =>
      if c.isAlpha && Uri.isBreak b && !(Uri.unbroken rest).isEmpty then
        some ([c, ':'], Uri.unbroken rest)
      else none
    | _ => none

theorem beginsWithDrive_of_isDrive {s : List Char} (h : isDrive s = true) :
    beginsWithDrive s = true := by
  match s, h with
  | [_, _], h => simpa [beginsWithDrive] using h

end Segment

/-! ### Reading a path -/

/-- The segments of a path read so far. -/
structure Trail where
  /-- The segments, the newest first. -/
  kept : List (List Char) := []
  /-- The first of them is a drive that takes the place of the host. -/
  onDrive : Bool := false
  deriving DecidableEq, Repr

namespace Trail

/-- A segment more. -/
def push (t : Trail) (s : List Char) : Trail := { t with kept := s :: t.kept }

/-- A segment fewer, unless there is none or it begins with a drive. -/
def up (t : Trail) : Trail :=
  match t.kept with
  | [] => t
  | s :: rest => if Segment.beginsWithDrive s then t else { t with kept := rest }

/-- The segment that dots at the end of a path leave behind is empty. -/
def close (t : Trail) (last : Bool) : Trail := if last then t.push [] else t

/-- A drive in the first segment, written with a colon. -/
def drive (s : List Char) : Trail := ⟨[s.take 1 ++ [':']], true⟩

/-- One segment more, as it is written in the text. -/
def segment (k : SchemeKind) (last : Bool) (t : Trail) (raw : List Char) : Trail :=
  let isRoot : Bool := k == .file && t.kept.isEmpty
  match if isRoot then Segment.partedDrive? raw else none with
  | some (drive, rest) => (t.push drive).push (Percent.encode Percent.inPath rest)
  | none =>
    let s := Percent.encode Percent.inPath (Uri.unbroken raw)
    if Segment.isDotDot s then t.up.close last
    else if Segment.isDot s then t.close last
    else if isRoot && Segment.isDrive s then drive s
    else t.push s

/-- Segments in order; the last one ends the path. -/
def read (k : SchemeKind) (t : Trail) : List (List Char) → Trail
  | [] => t
  | [s] => t.segment k true s
  | s :: rest => (t.segment k false s).read k rest

/-- The path of segments.  The path of a file does not begin with empty segments, unless there is
nothing else. -/
def text (k : SchemeKind) (t : Trail) : List Char :=
  let all := t.kept.reverse
  let shown := if k = .file then all.dropWhile List.isEmpty else all
  match shown with
  | [] => ['/']
  | shown => shown.flatMap ('/' :: ·)

/-! ### A drive stays -/

/-- The first segment of the trail is the drive `d`. -/
structure StartsAt (d : List Char) (t : Trail) : Prop where
  first : t.kept.getLast? = some d
  isDrive : Segment.beginsWithDrive d = true

theorem startsAt_drive {s : List Char} (h : Segment.isDrive s = true) :
    (drive s).StartsAt (s.take 1 ++ [':']) := by
  refine ⟨rfl, Segment.beginsWithDrive_of_isDrive ?_⟩
  match s, h with
  | [c, _], h =>
    simp only [Segment.isDrive, Bool.and_eq_true] at h
    simp [Segment.isDrive, h.1]

namespace StartsAt

variable {d : List Char} {t : Trail}

protected theorem push (h : t.StartsAt d) (s : List Char) : (t.push s).StartsAt d :=
  ⟨by simp [Trail.push, List.getLast?_cons, h.first], h.isDrive⟩

/-- Two dots take back a segment behind the drive, and leave the drive itself. -/
protected theorem up (h : t.StartsAt d) : t.up.StartsAt d := by
  obtain ⟨kept, onDrive⟩ := t
  match kept, h with
  | [s], h =>
    obtain rfl : s = d := by simpa using h.first
    simpa [Trail.up, h.isDrive] using h
  | s :: s' :: rest, h =>
    by_cases hs : Segment.beginsWithDrive s = true
    · simpa [Trail.up, hs] using h
    · exact ⟨by simpa [Trail.up, hs] using h.first, h.isDrive⟩

protected theorem close (h : t.StartsAt d) (last : Bool) : (t.close last).StartsAt d := by
  cases last with
  | false => exact h
  | true => exact h.push []

protected theorem segment (h : t.StartsAt d) (k : SchemeKind) (last : Bool) (raw : List Char) :
    (t.segment k last raw).StartsAt d := by
  have behind : t.kept.isEmpty = false := by
    cases hk : t.kept with
    | nil => exact absurd h.first (by simp [hk])
    | cons => rfl
  simp only [Trail.segment, behind, Bool.and_false, Bool.false_eq_true, if_false, Bool.false_and]
  split
  · exact h.up.close last
  split
  · exact h.close last
  · exact h.push _

/-- No segment behind the drive goes up from it, nor does one take its place. -/
protected theorem read (h : t.StartsAt d) (k : SchemeKind) (segments : List (List Char)) :
    (t.read k segments).StartsAt d := by
  induction segments generalizing t with
  | nil => exact h
  | cons s rest ih =>
    cases rest with
    | nil => exact h.segment k true s
    | cons s' rest => exact ih (h.segment k false s)

end StartsAt

/-- **A drive stays**: whatever segments follow it, the path starts at the drive, written with a
colon. -/
theorem startsAt_read_drive {s : List Char} (h : Segment.isDrive s = true) (k : SchemeKind)
    (segments : List (List Char)) : ((drive s).read k segments).StartsAt (s.take 1 ++ [':']) :=
  (startsAt_drive h).read k segments

/-- The segments of a text that begins behind a slash. -/
def ofText (k : SchemeKind) (cs : List Char) : Trail := read k {} (Segment.ofText k.isSlash cs)

/-- The segments of a text behind a host: what comes first is a slash. -/
def afterHost (k : SchemeKind) : List Char → Trail
  | [] => ofText k []
  | c :: cs => ofText k (if k.isSlash c then cs else c :: cs)

end Trail

end CursorContext
