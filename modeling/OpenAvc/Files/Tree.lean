import Mathlib.Data.List.Infix
import Mathlib.Data.List.Sort
import OpenAvc.Data.Json
import OpenAvc.Data.Lookup
import OpenAvc.Data.Utf8

/-! The files and folders below one folder, and the operations that change
them one at a time. -/

namespace Storage

/-- The parts of a path below a folder. -/
abbrev Path := List String

inductive Entry
  | folder
  | file (bytes : Bytes)
  deriving DecidableEq, Repr

/-- What is below a folder, each thing at its path. -/
abbrev FileTree := List (Path × Entry)

namespace FileTree

/-- The bytes of the file at `p`. -/
def file? (t : FileTree) (p : Path) : Option Bytes :=
  match t.lookup p with
  | some (.file b) => some b
  | _ => none

/-- The files in the order they are listed. -/
def files (t : FileTree) : List (Path × Bytes) :=
  t.filterMap fun u => match u.2 with
    | .folder => none
    | .file b => some (u.1, b)

/-- What is below a folder of a file system: one thing at each path, and a
folder at every path above it. -/
structure Sound (t : FileTree) : Prop where
  distinct : (t.map Prod.fst).Nodup
  named : ∀ u ∈ t, u.1 ≠ []
  parents : ∀ u ∈ t, ∀ q, q ≠ [] → q <+: u.1 → q ≠ u.1 → t.lookup q = some .folder

theorem sound_iff {t : FileTree} : t.Sound ↔ (t.map Prod.fst).Nodup ∧ ∀ u ∈ t, u.1 ≠ [] ∧
    ∀ q ∈ u.1.inits, q = [] ∨ q = u.1 ∨ t.lookup q = some .folder := by
  constructor
  · intro sound
    refine ⟨sound.distinct, fun u member => ⟨sound.named u member, fun q above => ?_⟩⟩
    by_cases named : q = []
    · exact Or.inl named
    · by_cases same : q = u.1
      · exact Or.inr (Or.inl same)
      · exact Or.inr (Or.inr (sound.parents u member q named ((List.mem_inits q u.1).mp above) same))
  · rintro ⟨distinct, all⟩
    refine ⟨distinct, fun u member => (all u member).1, fun u member q named above apart => ?_⟩
    exact (((all u member).2 q ((List.mem_inits q u.1).mpr above)).resolve_left named).resolve_left apart

instance (t : FileTree) : Decidable t.Sound := decidable_of_iff _ sound_iff.symm

theorem file?_eq_some {t : FileTree} {p : Path} {b : Bytes} : t.file? p = some b ↔ t.lookup p = some (.file b) := by
  unfold file?
  cases t.lookup p with
  | none => simp
  | some e => cases e <;> simp

theorem file?_of_lookup_eq {t t' : FileTree} {p : Path} (same : t.lookup p = t'.lookup p) : t.file? p = t'.file? p := by
  unfold file?
  rw [same]

theorem file?_of_lookup_none {t : FileTree} {p : Path} (absent : t.lookup p = none) : t.file? p = none := by
  unfold file?
  rw [absent]

theorem file?_of_folder {t : FileTree} {p : Path} (here : t.lookup p = some .folder) : t.file? p = none := by
  unfold file?
  rw [here]

theorem Sound.mem_iff {t : FileTree} (sound : t.Sound) {p : Path} {e : Entry} : (p, e) ∈ t ↔ t.lookup p = some e :=
  ⟨fun member => List.lookup_of_mem sound.distinct member, List.mem_of_lookup_eq_some⟩

theorem Sound.mem_files {t : FileTree} (sound : t.Sound) {p : Path} {b : Bytes} :
    (p, b) ∈ t.files ↔ t.file? p = some b := by
  rw [file?_eq_some, ← sound.mem_iff]
  unfold files
  rw [List.mem_filterMap]
  constructor
  · rintro ⟨⟨q, e⟩, member, found⟩
    cases e with
    | folder => cases found
    | file b' => cases found; exact member
  · exact fun member => ⟨_, member, rfl⟩

/-- No file is above a file. -/
theorem Sound.not_above {t : FileTree} (sound : t.Sound) {p q : Path} {b c : Bytes} (inside : t.file? p = some b)
    (outside : t.file? q = some c) (here : q ≠ []) (above : q <+: p) : q = p := by
  by_contra apart
  have folder := sound.parents _ (sound.mem_iff.mpr (file?_eq_some.mp inside)) q here above apart
  rw [file?_of_folder folder] at outside
  cases outside

end FileTree

/-- One operation on the files below a folder. -/
inductive Step
  | mkdir (p : Path)
  | create (p : Path)
  | append (p : Path) (byte : UInt8)
  | rename (p q : Path)
  deriving DecidableEq, Repr

namespace Step

/-- What a step makes of a folder, which may not be there; `none` for an
`OSError`. -/
def apply : Step → Option FileTree → Option FileTree
  | mkdir [], t => some (t.getD [])
  | mkdir p, some t =>
    match t.lookup p with
    | none => some (Dict.set t p .folder)
    | some .folder => some t
    | some (.file _) => none
  | create p, some t => if t.lookup p = some .folder then none else some (Dict.set t p (.file []))
  | append p byte, some t =>
    match t.lookup p with
    | some (.file b) => some (Dict.set t p (.file (b ++ [byte])))
    | _ => none
  | rename p q, some t =>
    match t.file? p with
    | some b => if t.lookup q = some .folder then none else some (Dict.set (t.filter (·.1 ≠ p)) q (.file b))
    | none => none
  | _, none => none

end Step

/-- What ends a call before its time. -/
inductive Stop
  | os
  | killed
  deriving DecidableEq, Repr

/-- Steps taken one after the other; `fate` says after how many of them an
operation fails or the process is killed. -/
def perform : List Step → Option (Nat × Stop) → Option FileTree → Option FileTree × Option Stop
  | [], _, t => (t, none)
  | _ :: _, some (0, stop), t => (t, some stop)
  | step :: steps, fate, t =>
    match step.apply t with
    | some t' => perform steps (fate.map fun f => (f.1 - 1, f.2)) (some t')
    | none => (t, some .os)

/-- The folders on the way to `p`, the root first. -/
def above (p : Path) : List Path := p.dropLast.inits

/-- `target.parent.mkdir(parents=True, exist_ok=True)` -/
def parentSteps (p : Path) : List Step := (above p).map .mkdir

/-- The parent folders are made, and a file is written, a byte at a time. -/
def writeSteps (p : Path) (bytes : Bytes) : List Step := parentSteps p ++ .create p :: bytes.map (.append p)

/-- The files `A` are written, each as its own fate allows. -/
def unpack (fate : Path → Option (Nat × Stop)) : List (Path × Bytes) → Option FileTree → Option FileTree × Option Stop
  | [], t => (t, none)
  | (p, bytes) :: A, t =>
    match perform (writeSteps p bytes) (fate p) t with
    | (t', none) => unpack fate A t'
    | stopped => stopped

end Storage
