import OpenAvc.Data.Semver
import OpenAvc.Updater.Marker

/-! The update checker: which of two versions is newer, and which release is offered. -/

namespace OpenAvc.Updater

/-- A decimal digit for `\d` and for `int`, outside ASCII as far as `decimal` knows. -/
def digitOf (decimal : Nat → Option (Fin 10)) (c : Nat) : Option Nat :=
  if isDigit c then some (c - 48) else if 128 ≤ c then (decimal c).map Fin.val else none

/-- `int(t)` of decimal digits, of which there may be too many. -/
def intOf (decimal : Nat → Option (Fin 10)) (t : Text) : Except Raise Nat :=
  if t.length ≤ Json.Scan.intLimit then .ok (t.foldl (fun n c => 10 * n + (digitOf decimal c).getD 0) 0)
  else .error .value

/-- `\d+` -/
def digits (decimal : Nat → Option (Fin 10)) (t : Text) : Option (Text × Text) :=
  match t.span fun c => (digitOf decimal c).isSome with
  | ([], _) => none
  | found => some found

def dot : Text → Option Text
  | 46 :: t => some t
  | _ => none

/-- `_SEMVER_RE` on a text without white space at its ends, and its groups. -/
def semverMatch (decimal : Nat → Option (Fin 10)) (t : Text) : Option (Text × Text × Text × Text) := do
  let (major, t) ← digits decimal t
  let (minor, t) ← digits decimal (← dot t)
  let (patch, t) ← digits decimal (← dot t)
  match t with
  | [] => some (major, minor, patch, [])
  | 45 :: prerelease => if prerelease = [] ∨ 10 ∈ prerelease then none else some (major, minor, patch, prerelease)
  | _ => none

/-- `version_str.lstrip("v")` -/
def stripV (version : Text) : Text :=
  version.dropWhile (· = 118)

def clean (version : Text) : Text :=
  (stripV version).strip

/-- `is_valid_semver` -/
def isValidSemver (decimal : Nat → Option (Fin 10)) (version : Text) : Bool :=
  (semverMatch decimal (clean version)).isSome

/-- A version as `parse_semver` returns it. -/
abbrev Parsed := Nat × Nat × Nat × Text

/-- `parse_semver` -/
def parseSemver (decimal : Nat → Option (Fin 10)) (version : Text) : Except Raise Parsed :=
  match semverMatch decimal (clean version) with
  | none => .ok (0, 0, 0, [])
  | some (major, minor, patch, prerelease) => do
    return (← intOf decimal major, ← intOf decimal minor, ← intOf decimal patch, prerelease)

/-- `_is_numeric_identifier` -/
def isNumericIdentifier (ident : Text) : Bool :=
  ident ≠ [] && ident.all isDigit

/-- `_compare_prerelease` -/
def comparePrerelease (decimal : Nat → Option (Fin 10)) : List Text → List Text → Except Raise Int
  | a :: as, b :: bs =>
    match isNumericIdentifier a, isNumericIdentifier b with
    | true, true => do
      let ai ← intOf decimal a
      let bi ← intOf decimal b
      if ai ≠ bi then return if bi < ai then 1 else -1
      comparePrerelease decimal as bs
    -- numeric identifiers have lower precedence than alphanumeric ones
    | true, false => .ok (-1)
    | false, true => .ok 1
    | false, false => if a ≠ b then .ok (if b < a then 1 else -1) else comparePrerelease decimal as bs
  | as, bs => .ok (if as.length ≠ bs.length then if bs.length < as.length then 1 else -1 else 0)

/-- `is_newer` -/
def isNewer (decimal : Nat → Option (Fin 10)) (candidate current : Text) : Except Raise Bool := do
  let (cMaj, cMin, cPat, cPre) ← parseSemver decimal candidate
  let (rMaj, rMin, rPat, rPre) ← parseSemver decimal current
  if cMaj ≠ rMaj then return rMaj < cMaj
  if cMin ≠ rMin then return rMin < cMin
  if cPat ≠ rPat then return rPat < cPat
  match cPre, rPre with
  | _ :: _, [] => return false
  | [], _ :: _ => return true
  | [], [] => return false
  | _ :: _, _ :: _ => return 0 < (← comparePrerelease decimal (cPre.splitOn 46) (rPre.splitOn 46))

/-! ### The checker -/

/-- A file of a release. -/
structure Asset where
  name : Text
  url : Text
  size : Nat
  deriving DecidableEq

/-- A release as GitHub lists it; a field that is not there has its default. -/
structure Release where
  tag : Text
  draft : Bool := false
  prerelease : Bool := false
  body : Text := []
  publishedAt : Text := []
  assets : List Asset := []
  deriving DecidableEq

structure ReleaseInfo where
  version : Text
  tag : Text
  prerelease : Bool
  changelog : Text
  publishedAt : Text
  assets : List Asset
  deriving DecidableEq

def Release.info (r : Release) : ReleaseInfo where
  version := stripV r.tag
  tag := r.tag
  prerelease := r.prerelease
  changelog := r.body
  publishedAt := r.publishedAt
  assets := r.assets

structure UpdateChecker where
  currentVersion : Text
  lastCheckResult : Option ReleaseInfo := none
  lastCheckError : Text := []

/-- How GitHub answers: not, with something that is no list, or with releases. -/
inductive Response
  | failed (error : Text)
  | notList
  | releases (l : List Release)

namespace UpdateChecker

variable (decimal : Nat → Option (Fin 10)) (s : UpdateChecker) (channel : Text)

/-- One round of the loop: the release that is best so far. -/
def consider (best : Option Release) (release : Release) : Except Raise (Option Release) := do
  if release.draft then return best
  if channel = text "stable" ∧ release.prerelease then return best
  if release.tag = [] then return best
  if !isValidSemver decimal release.tag then return best
  if !(← isNewer decimal release.tag s.currentVersion) then return best
  match best with
  | none => return some release
  | some b => if ← isNewer decimal release.tag b.tag then return some release else return best

/-- `UpdateChecker.check`: what it returns, and the checker after it. -/
def check : Response → Except Raise (Option ReleaseInfo × UpdateChecker)
  | .failed error => .ok (none, { s with lastCheckError := error })
  | .notList => .ok (none, { s with lastCheckError := text "Invalid response from GitHub API" })
  | .releases [] =>
    .ok (none, { s with lastCheckError := text "GitHub returned no releases, so the check could not be completed" })
  | .releases l => do
    match ← l.foldlM (consider decimal s channel) none with
    | none => return (none, { s with lastCheckError := [], lastCheckResult := none })
    | some best => return (some best.info, { s with lastCheckError := [], lastCheckResult := some best.info })

end UpdateChecker

end OpenAvc.Updater
