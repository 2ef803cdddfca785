import Mathlib.Data.List.DropRight
import OpenAvc.Files.Written
import OpenAvc.Library.Saving

/-! What the members of a backup archive are restored as. -/

namespace OpenAvc.Restore

open Storage

/-- A member of an archive. Its content is `none` where reading it raises. -/
structure Member where
  name : String
  content : Option Bytes

/-- `zf.read(name)`, which reads the last member of that name. -/
def readMember (archive : List Member) (name : String) : Option Bytes :=
  (archive.reverse.find? fun m => m.name = name).bind Member.content

/-- What is left of a name after a prefix it starts with. -/
def after? (start name : String) : Option (List Char) :=
  if start.toList.isPrefixOf name.toList then some (name.toList.drop start.toList.length) else none

/-- The parts of a path between slashes that are not empty. -/
def parts (path : List Char) : List (List Char) := (path.splitOn '/').filter (· ≠ [])

def stripSlashes (path : List Char) : List Char := (path.dropWhile (· = '/')).rdropWhile (· = '/')

/-- `.replace("\\", "/")` -/
def slashed (path : List Char) : List Char := path.map fun c => if c = '\\' then '/' else c

/-- `Path(name).suffix.lower()` -/
def suffixOf (name : List Char) : List Char :=
  let stem := name.rdropWhile (· ≠ '.')
  if 1 < stem.length ∧ stem.length < name.length then (name.drop (stem.length - 1)).map Char.toLower else []

/-- A file that is written, or a member that cannot be read. -/
abbrev Attempt := Option (Path × Bytes)

/-! `scripts/`, flat. -/

/-- `Path(name).name` -/
def pathName (name : String) : List Char :=
  ((parts name.toList).filter (· ≠ ['.'])).getLast?.getD []

/-- The names `plain_file_in` takes. -/
def plainFile (name : List Char) : Bool :=
  name ≠ [] ∧ name ≠ ['.'] ∧ name ≠ ['.', '.'] ∧ name.all fun c => c ∉ ['/', '\\', ':', '\x00']

/-- The members `_restore_subdir` writes, in order. -/
def subdirWrites (start : String) (archive : List Member) : List Attempt :=
  archive.filterMap fun m =>
    if (after? start m.name).isSome ∧ m.name ≠ start ∧ plainFile (pathName m.name) then
      some ((readMember archive m.name).map fun bytes => ([String.ofList (pathName m.name)], bytes))
    else none

/-! `assets/` -/

def assetExtensions : List String :=
  [".png", ".jpg", ".jpeg", ".gif", ".webp", ".svg", ".ico", ".mp3", ".wav", ".ogg", ".m4a"]

/-- `_rejected` -/
def rejected (relpath : List Char) : Bool := (parts relpath).any fun p => p.head? = some '.'

/-- `is_asset_type` -/
def isAssetType (relpath : List Char) : Bool :=
  String.ofList (suffixOf ((parts relpath).getLast?.getD [])) ∈ assetExtensions

/-- The path `asset_tree.extract_from_zip` takes of a member. -/
def assetPath? (name : String) : Option (List Char) :=
  (after? "assets/" name).bind fun rest =>
    let relpath := stripSlashes (slashed rest)
    if name.toList.getLast? = some '/' ∨ relpath = [] ∨ rejected relpath ∨ !isAssetType relpath then none
    else some relpath

/-- The members it writes. `svgProblem` says of an SVG's bytes that the upload refuses them. -/
def assetWrites (svgProblem : Bytes → Bool) (archive : List Member) : List Attempt :=
  archive.filterMap fun m => (assetPath? m.name).bind fun relpath =>
    match readMember archive m.name with
    | none => some none
    | some bytes =>
      if ".svg".toList.isSuffixOf (relpath.map Char.toLower) ∧ svgProblem bytes then none
      else some (some ((parts relpath).map String.ofList, bytes))

/-! `ui/` -/

def uiExtensions : List String :=
  [".html", ".htm", ".css", ".js", ".mjs", ".json", ".txt", ".md", ".csv", ".svg", ".png", ".jpg", ".jpeg", ".gif",
    ".webp", ".ico", ".woff", ".woff2", ".ttf", ".otf", ".mp3", ".wav", ".ogg", ".mp4", ".webm", ".vtt"]

def maxFileSize : Nat := 5 * 1024 * 1024

def maxTotalSize : Nat := 25 * 1024 * 1024

def maxFiles : Nat := 500

def maxPathDepth : Nat := 8

/-- `_COMPONENT_RE.match` and the length of a component. `$` also matches before a newline at the end. -/
def component (part : List Char) : Bool :=
  let body := if part.getLast? = some '\n' then part.dropLast else part
  let letter (c : Char) : Bool := c.isAlphanum ∨ c = '_'
  decide (part.length ≤ 100) && match body with
    | c :: rest => letter c && rest.all fun c => letter c ∨ c ∈ ['.', '-', ' ']
    | [] => false

/-- `normalize_relpath`; `none` for a `CustomUIPathError`. -/
def normalizeRelpath (raw : List Char) : Option Path :=
  let space (c : Char) : Bool := isSpace c.toNat
  let cleaned := stripSlashes (slashed ((raw.dropWhile space).rdropWhile space))
  let ps := (parts cleaned).filter (· ≠ ['.'])
  if ps = [] ∨ maxPathDepth < ps.length ∨ !ps.all component ∨
      String.ofList (suffixOf (ps.getLast?.getD [])) ∉ uiExtensions then none
  else some (ps.map String.ofList)

def uiPath? (name : String) : Option Path :=
  if name.toList.getLast? = some '/' then none else (after? "ui/" name).bind normalizeRelpath

/-- The members `custom_ui.extract_from_zip` writes: `unpacked` bytes and `written`
files came before. -/
def uiWritesFrom : Nat → Nat → List Member → List Attempt
  | _, _, [] => []
  | unpacked, written, m :: rest =>
    match uiPath? m.name with
    | none => uiWritesFrom unpacked written rest
    | some path => match m.content with
      | none => [none]
      | some content =>
        let bytes := content.take (maxFileSize + 1)
        if maxFileSize < bytes.length then uiWritesFrom unpacked written rest
        else if maxTotalSize < unpacked + bytes.length ∨ maxFiles ≤ written then []
        else some (path, bytes) :: uiWritesFrom (unpacked + bytes.length) (written + 1) rest

/-! `themes/` -/

/-- The members `theme_tree.extract_from_zip` writes. -/
def themeWrites (archive : List Member) : List Attempt :=
  archive.filterMap fun m => (after? "themes/" m.name).bind fun rest =>
    if Library.isThemeFile (String.ofList rest) then
      some ((readMember archive m.name).map fun bytes => ([String.ofList rest], bytes))
    else none

/-- The trees of a project that a backup holds. -/
inductive Tree
  | scripts
  | assets
  | ui
  | themes
  deriving DecidableEq

/-- What is written of an archive for one tree. -/
def Tree.writes (svgProblem : Bytes → Bool) (archive : List Member) : Tree → List Attempt
  | scripts => subdirWrites "scripts/" archive
  | assets => assetWrites svgProblem archive
  | ui => uiWritesFrom 0 0 archive
  | themes => themeWrites archive

/-- The file a tree holds at a path: the last that is written there. -/
def heldAt (attempts : List Attempt) (p : Path) : Option Bytes :=
  attempts.reverse.findSome? fun a => a.bind fun u => if u.1 = p then some u.2 else none

end OpenAvc.Restore
