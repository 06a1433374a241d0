/-!
# Version

The name and the version of the program.
-/

namespace Diagnosis

/-- A version number, with a label for versions before a release. -/
structure Version where
  major : Int
  minor : Int
  patch : Int
  preRelease : String := ""
  deriving DecidableEq, Repr, Inhabited

namespace Version

/-- The written form of a version. -/
def text (v : Version) : String :=
  let base := toString v.major ++ "." ++ toString v.minor ++ "." ++ toString v.patch
  if v.preRelease.isEmpty then base else base ++ "-" ++ v.preRelease

/-- The version of this program. -/
def current : Version := { major := 0, minor := 1, patch := 0 }

/-- The name of this program. -/
def programName : String := "MBD-Core"

/-- What this program does, in one line. -/
def programDescription : String :=
  "Consistency-based diagnosis: conflict sets by refutation"

end Version

end Diagnosis
