import OpenAvc.Updater.Precedence
import Mathlib.Data.List.MinMax
import Mathlib.Data.List.Sort
import Mathlib.Data.Prod.Lex

/-! The rollback on Windows, where a cached installer is run again. -/

namespace OpenAvc.Updater.Windows

/-- The name of a file that `OpenAVC-Setup-*.exe` finds in `update-cache`. -/
structure FileName where
  name : Text
  short : name.length ≤ 255
  deriving DecidableEq

/-- The installers of `update-cache` in the order of `glob`; `normcase` is how the
file system and `Path` read a name. -/
structure Cache (normcase : Text → Text) where
  installers : List FileName
  distinct : (installers.map fun i => normcase i.name).Nodup

/-- `installer.stem.removeprefix("OpenAVC-Setup-")` -/
def stemVersion (i : FileName) : Text :=
  let stem := i.name.take (i.name.length - 4)
  if (text "OpenAVC-Setup-").isPrefixOf stem then stem.drop 14 else stem

variable (decimal : Nat → Option (Fin 10)) {normcase : Text → Text}

/-- `_installer_version`, which has no more digits than a file name has characters. -/
def installerVersion (i : FileName) : Parsed :=
  (parseSemver decimal (stemVersion i)).toOption.getD (0, 0, 0, [])

/-- How Python compares the tuples of `parse_semver`. -/
def key (version : Parsed) : Nat ×ₗ Nat ×ₗ Nat ×ₗ Text :=
  toLex (version.1, toLex (version.2.1, toLex (version.2.2.1, version.2.2.2)))

/-- `can_rollback`; `none` is a cache that is not there. -/
def canRollback (running : Text) : Option (Cache normcase) → Except Raise Bool
  | none => .ok false
  | some cache => do
    let currentVer ← parseSemver decimal running
    return cache.installers.any fun inst => installerVersion decimal inst ≠ currentVer

/-- `rollback_target_version` -/
def rollbackTargetVersion (running : Text) : Option (Cache normcase) → Except Raise Text
  | none => .ok []
  | some cache => do
    let current ← parseSemver decimal running
    let candidates := cache.installers.filter fun inst => installerVersion decimal inst ≠ current
    match candidates.argmax fun inst => key (installerVersion decimal inst) with
    | none => return []
    | some best => return stemVersion best

/-- The installer that `_rollback_windows` schedules, `none` where it gives up. -/
def rollbackWindows (fromVersion toVersion : Text) : Option (Cache normcase) → Except Raise (Option FileName)
  | none => .ok none
  | some cache => do
    let installers := cache.installers.insertionSort fun a b => normcase a.name ≤ normcase b.name
    if installers = [] then return none
    let targetVer ← parseSemver decimal fromVersion
    let toVer ← parseSemver decimal toVersion
    match installers.find? fun inst => installerVersion decimal inst = targetVer with
    | some inst => return some inst
    | none => return (installers.filter fun i => installerVersion decimal i ≠ toVer).getLast?

/-- The installer that `UpdateManager.rollback` schedules, `none` where it refuses. -/
def rollback (running : Text) (cache : Option (Cache normcase)) : Except Raise (Option FileName) := do
  if !(← canRollback decimal running cache) then return none
  let targetVersion ← rollbackTargetVersion decimal running cache
  rollbackWindows decimal (if targetVersion = [] then text "unknown" else targetVersion) running cache


variable {decimal}

theorem digits_length {t d rest : Text} (found : digits decimal t = some (d, rest)) : d.length + rest.length = t.length := by
  unfold digits at found
  cases spanned : t.span fun c => (digitOf decimal c).isSome with
  | mk first second =>
    have whole : first ++ second = t := by
      rw [List.span_eq_takeWhile_dropWhile] at spanned
      cases spanned
      exact List.takeWhile_append_dropWhile
    rw [spanned] at found
    cases first with
    | nil => cases found
    | cons c first =>
      cases found
      rw [← whole, List.length_append]

theorem dot_length {t rest : Text} (found : dot t = some rest) : rest.length + 1 = t.length := by
  unfold dot at found
  split at found
  · cases found
    exact List.length_cons.symm
  · cases found

theorem semverMatch_length {t major minor patch prerelease : Text}
    (found : semverMatch decimal t = some (major, minor, patch, prerelease)) :
    major.length ≤ t.length ∧ minor.length ≤ t.length ∧ patch.length ≤ t.length := by
  simp only [semverMatch, Option.bind_eq_bind, Option.bind_eq_some_iff] at found
  obtain ⟨⟨major', t₁⟩, first, t₂, dotted, ⟨minor', t₃⟩, second, t₄, dotted', ⟨patch', t₅⟩, third, ended⟩ := found
  have one := digits_length first
  have two : t₂.length + 1 = t₁.length := dot_length dotted
  have three := digits_length second
  have four : t₄.length + 1 = t₃.length := dot_length dotted'
  have five := digits_length third
  have groups : major' = major ∧ minor' = minor ∧ patch' = patch := by
    split at ended
    · cases ended
      exact ⟨rfl, rfl, rfl⟩
    · split at ended
      · cases ended
      · cases ended
        exact ⟨rfl, rfl, rfl⟩
    · cases ended
  obtain ⟨rfl, rfl, rfl⟩ := groups
  omega

theorem clean_length (version : Text) : (clean version).length ≤ version.length := by
  unfold clean Text.strip
  rw [List.length_reverse]
  have right := (List.dropWhile_suffix (l := ((stripV version).dropWhile isSpace).reverse) isSpace).length_le
  have left := (List.dropWhile_suffix (l := stripV version) isSpace).length_le
  have front : (stripV version).length ≤ version.length := (List.dropWhile_suffix _).length_le
  rw [List.length_reverse] at right
  omega

/-- A version in a file name has few enough digits for `int`. -/
theorem parseSemver_stem (i : FileName) : parseSemver decimal (stemVersion i) = .ok (installerVersion decimal i) := by
  have short : (clean (stemVersion i)).length ≤ 255 := by
    have stem : (stemVersion i).length ≤ i.name.length := by
      have taken : (i.name.take (i.name.length - 4)).length ≤ i.name.length := List.length_take_le' _ _
      rw [stemVersion]
      split
      · exact (List.drop_suffix _ _).length_le.trans taken
      · exact taken
    exact (clean_length _).trans (stem.trans i.short)
  have read : ∃ version, parseSemver decimal (stemVersion i) = .ok version := by
    unfold parseSemver
    cases found : semverMatch decimal (clean (stemVersion i)) with
    | none => exact ⟨_, rfl⟩
    | some groups =>
      obtain ⟨major, minor, patch, prerelease⟩ := groups
      obtain ⟨majorShort, minorShort, patchShort⟩ := semverMatch_length found
      have limit : 255 ≤ Json.Scan.intLimit := by decide
      simp only [intOf_eq (majorShort.trans (short.trans limit)), intOf_eq (minorShort.trans (short.trans limit)),
        intOf_eq (patchShort.trans (short.trans limit))]
      exact ⟨_, rfl⟩
  obtain ⟨version, read⟩ := read
  rw [installerVersion, read]
  rfl

theorem isNewer_congr {a b b' : Text} (same : parseSemver decimal b = parseSemver decimal b') :
    isNewer decimal a b = isNewer decimal a b' ∧ isNewer decimal b a = isNewer decimal b' a := by
  unfold isNewer
  rw [same]
  exact ⟨rfl, rfl⟩

theorem key_injective {version version' : Parsed} (same : key version = key version') : version = version' := by
  obtain ⟨major, minor, patch, prerelease⟩ := version
  obtain ⟨major', minor', patch', prerelease'⟩ := version'
  simpa [key] using same

theorem version_eq_of_not_lt {version version' : Parsed} (below : ¬key version < key version')
    (above : ¬key version' < key version) : version = version' := by
  rcases lt_trichotomy (key version) (key version') with less | same | more
  · exact absurd less below
  · exact key_injective same
  · exact absurd more above

section Sorting

variable {α : Type} {name : α → Text} {l : List α}

theorem sorted_byName : (l.insertionSort fun a b => name a ≤ name b).Pairwise fun a b => name a ≤ name b := by
  have total : Std.Total fun a b : α => name a ≤ name b := ⟨fun a b => le_total (name a) (name b)⟩
  have trans : IsTrans α fun a b => name a ≤ name b := ⟨fun _ _ _ first second => le_trans first second⟩
  exact List.pairwise_insertionSort _ l

/-- The last of what is left of a sorted list has the greatest name. -/
theorem getLast?_sorted {p : α → Bool} {i : α}
    (last : i ∈ ((l.insertionSort fun a b => name a ≤ name b).filter p).getLast?) :
    (i ∈ l ∧ p i) ∧ ∀ n ∈ l, p n → name n ≤ name i := by
  have ordered := (@sorted_byName α name l).filter p
  obtain ⟨front, whole⟩ := List.getLast?_eq_some_iff.mp last
  have member (n : α) : n ∈ l ∧ p n ↔ n ∈ front ++ [i] := by
    rw [← whole, List.mem_filter, List.mem_insertionSort]
  rw [whole] at ordered
  constructor
  · exact (member i).mpr (List.mem_append_right _ List.mem_cons_self)
  · intro n there holds
    rcases List.mem_append.mp ((member n).mp ⟨there, holds⟩) with before | same
    · exact (List.pairwise_append.mp ordered).2.2 n before i List.mem_cons_self
    · rw [List.mem_singleton.mp same]

end Sorting

theorem Cache.eq_of_normcase (cache : Cache normcase) {i n : FileName} (there : i ∈ cache.installers)
    (there' : n ∈ cache.installers) (same : normcase i.name = normcase n.name) : i = n :=
  List.inj_on_of_nodup_map cache.distinct there there' same

/-! ### What it is to go back -/

/-- The installer's version is older than the one that is left. -/
def Older (decimal : Nat → Option (Fin 10)) (left : Text) (i : FileName) : Prop :=
  isNewer decimal left (stemVersion i) = .ok true

/-- Of the cached installers that are older, none is newer than this one. -/
structure NewestOlder (decimal : Nat → Option (Fin 10)) (cache : Cache normcase) (left : Text) (i : FileName) : Prop where
  older : Older decimal left i
  newest : ∀ m ∈ cache.installers, Older decimal left m → isNewer decimal (stemVersion m) (stemVersion i) ≠ .ok true

/-- A text names the version of this installer. -/
def Names (decimal : Nat → Option (Fin 10)) (version : Text) (i : FileName) : Prop :=
  parseSemver decimal version = .ok (installerVersion decimal i)

instance (decimal : Nat → Option (Fin 10)) (version : Text) (i : FileName) : Decidable (Names decimal version i) :=
  inferInstanceAs (Decidable (_ = _))

theorem names_stem (i : FileName) : Names decimal (stemVersion i) i :=
  parseSemver_stem i

theorem NewestOlder.of_version {cache : Cache normcase} {left : Text} {i m : FileName}
    (same : installerVersion decimal i = installerVersion decimal m) (newest : NewestOlder decimal cache left i) :
    NewestOlder decimal cache left m := by
  have parsed : parseSemver decimal (stemVersion i) = parseSemver decimal (stemVersion m) := by
    rw [parseSemver_stem, parseSemver_stem, same]
  constructor
  · rw [Older, ← (isNewer_congr parsed).1]
    exact newest.older
  · intro n there older
    rw [← (isNewer_congr parsed).1]
    exact newest.newest n there older

/-! ### The two paths -/

/-- A rollback of the running version goes back, to the version that is shown. -/
def ManualGoesBack (decimal : Nat → Option (Fin 10)) (running : Text) (cache : Cache normcase) : Prop :=
  canRollback decimal running (some cache) = .ok true ∨ (∃ i, rollback decimal running (some cache) = .ok (some i)) →
    ∃ i ∈ cache.installers, rollback decimal running (some cache) = .ok (some i) ∧ NewestOlder decimal cache running i ∧
      ∃ shown, rollbackTargetVersion decimal running (some cache) = .ok shown ∧ Names decimal shown i

/-- A rollback of a version that failed goes back, to the recorded one if it is cached. -/
def AutomaticGoesBack (decimal : Nat → Option (Fin 10)) (recorded failing : Text) (cache : Cache normcase) : Prop :=
  ∀ i, rollbackWindows decimal recorded failing (some cache) = .ok (some i) →
    i ∈ cache.installers ∧ Older decimal failing i ∧
      if ∃ n ∈ cache.installers, Names decimal recorded n then Names decimal recorded i
      else NewestOlder decimal cache failing i

/-- What the greatest of the other versions, by their tuples, must be. -/
def TupleAgrees (decimal : Nat → Option (Fin 10)) (running : Text) (cache : Cache normcase) : Prop :=
  ∀ current, parseSemver decimal running = .ok current → ∀ m ∈ cache.installers, installerVersion decimal m ≠ current →
    (∀ n ∈ cache.installers, installerVersion decimal n ≠ current →
      ¬key (installerVersion decimal m) < key (installerVersion decimal n)) →
    NewestOlder decimal cache running m

/-- What the recorded version must be if it is cached, and else the last of the other
installers by file name. -/
def FileNameAgrees (decimal : Nat → Option (Fin 10)) (recorded failing : Text) (cache : Cache normcase) : Prop :=
  ∀ targetVer toVer, parseSemver decimal recorded = .ok targetVer → parseSemver decimal failing = .ok toVer →
    if ∃ n ∈ cache.installers, installerVersion decimal n = targetVer then isNewer decimal failing recorded = .ok true
    else ∀ m ∈ cache.installers, installerVersion decimal m ≠ toVer →
      (∀ n ∈ cache.installers, installerVersion decimal n ≠ toVer → normcase n.name ≤ normcase m.name) →
      NewestOlder decimal cache failing m

theorem mem_sorted {cache : Cache normcase} {i : FileName} :
    i ∈ cache.installers.insertionSort (fun a b => normcase a.name ≤ normcase b.name) ↔ i ∈ cache.installers :=
  List.mem_insertionSort _

theorem last_byName {cache : Cache normcase} {toVer : Parsed} {i : FileName}
    (last : i ∈ ((cache.installers.insertionSort fun a b => normcase a.name ≤ normcase b.name).filter
      fun i => installerVersion decimal i ≠ toVer).getLast?) :
    (i ∈ cache.installers ∧ installerVersion decimal i ≠ toVer) ∧
      ∀ n ∈ cache.installers, installerVersion decimal n ≠ toVer → normcase n.name ≤ normcase i.name := by
  obtain ⟨⟨member, differs⟩, above⟩ := @getLast?_sorted _ (fun i : FileName => normcase i.name) _ _ _ last
  exact ⟨⟨member, of_decide_eq_true differs⟩, fun n there other => above n there (decide_eq_true other)⟩

/-- The installer of a version that is cached. -/
theorem rollbackWindows_cached {recorded left : Text} {cache : Cache normcase} {targetVer toVer : Parsed}
    (target : parseSemver decimal recorded = .ok targetVer) (leaving : parseSemver decimal left = .ok toVer)
    (cached : ∃ n ∈ cache.installers, installerVersion decimal n = targetVer) :
    ∃ i ∈ cache.installers, rollbackWindows decimal recorded left (some cache) = .ok (some i) ∧
      installerVersion decimal i = targetVer := by
  obtain ⟨n, there, version⟩ := cached
  have sorted := mem_sorted.mpr there
  have nonempty := List.ne_nil_of_mem sorted
  unfold rollbackWindows
  simp only [nonempty, if_false, target, leaving, bind, Except.bind]
  cases found : (cache.installers.insertionSort fun a b => normcase a.name ≤ normcase b.name).find?
      fun i => decide (installerVersion decimal i = targetVer) with
  | none => exact absurd (decide_eq_true version) (List.find?_eq_none.mp found n sorted)
  | some i =>
    have holds := List.find?_some found
    exact ⟨i, mem_sorted.mp (List.mem_of_find?_eq_some found), rfl, of_decide_eq_true holds⟩

/-- The installer that is taken when the version is not cached. -/
theorem rollbackWindows_other {recorded left : Text} {cache : Cache normcase} {targetVer toVer : Parsed}
    (target : parseSemver decimal recorded = .ok targetVer) (leaving : parseSemver decimal left = .ok toVer)
    (missing : ¬∃ n ∈ cache.installers, installerVersion decimal n = targetVer) :
    rollbackWindows decimal recorded left (some cache) =
      .ok ((cache.installers.insertionSort fun a b => normcase a.name ≤ normcase b.name).filter
        fun i => installerVersion decimal i ≠ toVer).getLast? := by
  have none' : (cache.installers.insertionSort fun a b => normcase a.name ≤ normcase b.name).find?
      (fun i => decide (installerVersion decimal i = targetVer)) = none := by
    refine List.find?_eq_none.mpr fun n sorted => ?_
    intro version
    exact missing ⟨n, mem_sorted.mp sorted, of_decide_eq_true version⟩
  unfold rollbackWindows
  by_cases empty : cache.installers.insertionSort (fun a b => normcase a.name ≤ normcase b.name) = []
  · simp only [empty, if_true]
    rfl
  · simp only [empty, if_false, target, leaving, bind, Except.bind, none']
    rfl

theorem canRollback_eq {running : Text} {cache : Cache normcase} {current : Parsed}
    (parsed : parseSemver decimal running = .ok current) :
    canRollback decimal running (some cache) = .ok (cache.installers.any fun i => installerVersion decimal i ≠ current) := by
  simp only [canRollback, parsed]
  rfl

theorem mem_others {cache : Cache normcase} {current : Parsed} {i : FileName} :
    i ∈ (cache.installers.filter fun i => installerVersion decimal i ≠ current) ↔
      i ∈ cache.installers ∧ installerVersion decimal i ≠ current := by
  rw [List.mem_filter, decide_eq_true_iff]

/-- What is shown is the version that is restored: the greatest of the other ones. -/
theorem rollback_eq {running : Text} {cache : Cache normcase} {current : Parsed} {best : FileName}
    (parsed : parseSemver decimal running = .ok current)
    (greatest : best ∈ (cache.installers.filter fun i => installerVersion decimal i ≠ current).argmax
      fun i => key (installerVersion decimal i)) :
    canRollback decimal running (some cache) = .ok true ∧
      rollbackTargetVersion decimal running (some cache) = .ok (stemVersion best) ∧
      ∃ i ∈ cache.installers, rollback decimal running (some cache) = .ok (some i) ∧
        installerVersion decimal i = installerVersion decimal best := by
  have candidate := List.mem_filter.mp (List.argmax_mem greatest)
  have available : canRollback decimal running (some cache) = .ok true := by
    rw [canRollback_eq parsed]
    exact congrArg _ (List.any_eq_true.mpr ⟨best, candidate.1, candidate.2⟩)
  have shown : rollbackTargetVersion decimal running (some cache) = .ok (stemVersion best) := by
    simp only [rollbackTargetVersion, parsed, bind, Except.bind]
    rw [Option.mem_def.mp greatest]
    rfl
  have read : parseSemver decimal (if stemVersion best = [] then text "unknown" else stemVersion best) =
      .ok (installerVersion decimal best) := by
    by_cases empty : stemVersion best = []
    · rw [if_pos empty, ← parseSemver_stem, empty]
      rfl
    · rw [if_neg empty, parseSemver_stem]
  obtain ⟨i, there, taken, version⟩ := rollbackWindows_cached read parsed ⟨best, candidate.1, rfl⟩
  refine ⟨available, shown, i, there, ?_, version⟩
  simp only [rollback, available, shown, bind, Except.bind]
  exact taken

/-- Without another version there is nothing to go back to. -/
theorem rollback_none {running : Text} {cache : Cache normcase} {current : Parsed}
    (parsed : parseSemver decimal running = .ok current)
    (only : ∀ i ∈ cache.installers, installerVersion decimal i = current) :
    canRollback decimal running (some cache) = .ok false ∧ rollback decimal running (some cache) = .ok none := by
  have refused : canRollback decimal running (some cache) = .ok false := by
    rw [canRollback_eq parsed]
    exact congrArg _ (List.any_eq_false.mpr fun i there => by simp [only i there])
  refine ⟨refused, ?_⟩
  simp only [rollback, refused, bind, Except.bind]
  rfl

theorem rollback_error {running : Text} {cache : Cache normcase} {e : Raise}
    (failed : parseSemver decimal running = .error e) :
    canRollback decimal running (some cache) = .error e ∧ rollback decimal running (some cache) = .error e := by
  have raised : canRollback decimal running (some cache) = .error e := by
    simp only [canRollback, failed]
    rfl
  refine ⟨raised, ?_⟩
  simp only [rollback, raised]
  rfl

theorem manualGoesBack_iff (running : Text) (cache : Cache normcase) :
    ManualGoesBack decimal running cache ↔ TupleAgrees decimal running cache := by
  unfold ManualGoesBack TupleAgrees
  cases parsed : parseSemver decimal running with
  | error e =>
    obtain ⟨raised, raised'⟩ := @rollback_error decimal normcase _ cache _ parsed
    rw [raised, raised']
    simp
  | ok current =>
    cases greatest : (cache.installers.filter fun i => installerVersion decimal i ≠ current).argmax
        fun i => key (installerVersion decimal i) with
    | none =>
      have only (i : FileName) (there : i ∈ cache.installers) : installerVersion decimal i = current := by
        by_contra other
        have empty := List.argmax_eq_none.mp greatest
        have member := mem_others.mpr ⟨there, other⟩
        rw [empty] at member
        cases member
      obtain ⟨refused, nothing⟩ := rollback_none parsed only
      rw [refused, nothing]
      refine iff_of_true (by simp) fun current' same m there other => ?_
      cases same
      exact absurd (only m there) other
    | some best =>
      obtain ⟨available, shown, i, there, taken, version⟩ := rollback_eq parsed (Option.mem_def.mpr greatest)
      have candidate := mem_others.mp (List.argmax_mem (Option.mem_def.mpr greatest))
      have above (n : FileName) (there : n ∈ cache.installers) (other : installerVersion decimal n ≠ current) :
          ¬key (installerVersion decimal best) < key (installerVersion decimal n) := by
        have atMost := List.not_lt_of_mem_argmax (mem_others.mpr ⟨there, other⟩) (Option.mem_def.mpr greatest)
        exact atMost
      rw [available, taken, shown]
      constructor
      · intro goes current' same m member other greatest'
        cases same
        obtain ⟨i', _, taken', newest, _⟩ := goes (Or.inl rfl)
        cases taken'
        have same := version_eq_of_not_lt (greatest' best candidate.1 candidate.2) (above m member other)
        exact newest.of_version (version.trans same.symm)
      · intro agrees _
        have newest := agrees current rfl best candidate.1 candidate.2 above
        refine ⟨i, there, rfl, newest.of_version version.symm, _, rfl, ?_⟩
        rw [Names, parseSemver_stem, version]

theorem rollbackWindows_error {recorded failing : Text} {cache : Cache normcase}
    (failed : ∀ targetVer toVer,
      ¬(parseSemver decimal recorded = .ok targetVer ∧ parseSemver decimal failing = .ok toVer))
    (i : FileName) : rollbackWindows decimal recorded failing (some cache) ≠ .ok (some i) := by
  unfold rollbackWindows
  by_cases empty : cache.installers.insertionSort (fun a b => normcase a.name ≤ normcase b.name) = []
  · simp only [empty, if_true]
    nofun
  · cases target : parseSemver decimal recorded with
    | error e =>
      simp only [empty, if_false, bind, Except.bind]
      nofun
    | ok targetVer =>
      cases leaving : parseSemver decimal failing with
      | error e =>
        simp only [empty, if_false, bind, Except.bind]
        nofun
      | ok toVer => exact absurd ⟨target, leaving⟩ (failed targetVer toVer)

theorem fileNameAgrees_iff {recorded failing : Text} {cache : Cache normcase} {targetVer toVer : Parsed}
    (target : parseSemver decimal recorded = .ok targetVer) (leaving : parseSemver decimal failing = .ok toVer) :
    FileNameAgrees decimal recorded failing cache ↔
      if ∃ n ∈ cache.installers, installerVersion decimal n = targetVer then isNewer decimal failing recorded = .ok true
      else ∀ m ∈ cache.installers, installerVersion decimal m ≠ toVer →
        (∀ n ∈ cache.installers, installerVersion decimal n ≠ toVer → normcase n.name ≤ normcase m.name) →
        NewestOlder decimal cache failing m := by
  constructor
  · exact fun agrees => agrees targetVer toVer target leaving
  · intro agrees targetVer' toVer' target' leaving'
    rw [target] at target'
    rw [leaving] at leaving'
    cases target'
    cases leaving'
    exact agrees

theorem automaticGoesBack_iff (recorded failing : Text) (cache : Cache normcase) :
    AutomaticGoesBack decimal recorded failing cache ↔ FileNameAgrees decimal recorded failing cache := by
  by_cases parsed : ∃ targetVer toVer,
      parseSemver decimal recorded = .ok targetVer ∧ parseSemver decimal failing = .ok toVer
  · obtain ⟨targetVer, toVer, target, leaving⟩ := parsed
    have named (i : FileName) : Names decimal recorded i ↔ installerVersion decimal i = targetVer := by
      rw [Names, target, Except.ok.injEq, eq_comm]
    rw [fileNameAgrees_iff target leaving]
    unfold AutomaticGoesBack
    simp only [named]
    by_cases cached : ∃ n ∈ cache.installers, installerVersion decimal n = targetVer
    · obtain ⟨i, there, taken, version⟩ := rollbackWindows_cached target leaving cached
      have older : Older decimal failing i ↔ isNewer decimal failing recorded = .ok true := by
        have same := (parseSemver_stem i).trans (version ▸ target.symm)
        rw [Older, (isNewer_congr same).1]
      simp only [if_pos cached, taken, Except.ok.injEq, Option.some.injEq, forall_eq', older]
      exact ⟨fun goes => goes.2.1, fun older => ⟨there, older, version⟩⟩
    · rw [rollbackWindows_other target leaving cached]
      simp only [if_neg cached, Except.ok.injEq]
      constructor
      · intro goes m there other greatest
        cases last : ((cache.installers.insertionSort fun a b => normcase a.name ≤ normcase b.name).filter
            fun i => installerVersion decimal i ≠ toVer).getLast? with
        | none =>
          have empty := List.getLast?_eq_none_iff.mp last
          exact absurd (decide_eq_true other) (List.filter_eq_nil_iff.mp empty m (mem_sorted.mpr there))
        | some i =>
          obtain ⟨⟨member, differs⟩, above⟩ := last_byName (Option.mem_def.mpr last)
          have names := le_antisymm (greatest i member differs) (above m there other)
          rw [← cache.eq_of_normcase member there names]
          exact (goes i last).2.2
      · intro agrees i last
        obtain ⟨⟨member, differs⟩, above⟩ := last_byName (Option.mem_def.mpr last)
        have newest := agrees i member differs above
        exact ⟨member, newest.older, newest⟩
  · refine iff_of_true (fun i taken => ?_) fun targetVer toVer target leaving => ?_
    · exact absurd taken (rollbackWindows_error (fun targetVer toVer both => parsed ⟨targetVer, toVer, both⟩) i)
    · exact absurd ⟨targetVer, toVer, target, leaving⟩ parsed

/-- When a rollback goes back. -/
theorem rollback_goes_back (decimal : Nat → Option (Fin 10)) (normcase : Text → Text) (cache : Cache normcase) :
    (∀ running, ManualGoesBack decimal running cache ↔ TupleAgrees decimal running cache) ∧
      ∀ recorded failing, AutomaticGoesBack decimal recorded failing cache ↔ FileNameAgrees decimal recorded failing cache :=
  ⟨fun running => manualGoesBack_iff running cache, fun recorded failing => automaticGoesBack_iff recorded failing cache⟩

/-- A version that was installed and one that came after it. -/
def withNewer : Cache id where
  installers := [⟨text "OpenAVC-Setup-1.0.0.exe", by decide⟩, ⟨text "OpenAVC-Setup-2.0.0.exe", by decide⟩]
  distinct := by decide

/-- By file name, 0.9.0 is the last of these. -/
def withOlder : Cache id where
  installers := [⟨text "OpenAVC-Setup-0.10.0.exe", by decide⟩, ⟨text "OpenAVC-Setup-0.9.0.exe", by decide⟩]
  distinct := by decide

/-- While 1.0.0 runs, 2.0.0 is shown and scheduled. After 0.11.0 failed, 0.9.0 is scheduled
though 0.10.0 is cached. -/
theorem rollback_goes_forward :
    ¬ManualGoesBack (fun _ => none) (text "1.0.0") withNewer ∧
      ¬AutomaticGoesBack (fun _ => none) (text "0.10.1") (text "0.11.0") withOlder := by
  constructor
  · intro goes
    obtain ⟨i, _, taken, newest, _⟩ := goes (Or.inl (by decide +kernel))
    have forward : rollback (fun _ => none) (text "1.0.0") (some withNewer) =
        .ok (some ⟨text "OpenAVC-Setup-2.0.0.exe", by decide⟩) := by decide +kernel
    rw [forward] at taken
    cases taken
    have older := newest.older
    unfold Older at older
    exact absurd older (by decide +kernel)
  · intro goes
    obtain ⟨_, _, newest⟩ := goes ⟨text "OpenAVC-Setup-0.9.0.exe", by decide⟩ (by decide +kernel)
    rw [if_neg (by decide +kernel)] at newest
    have other : Older (fun _ => none) (text "0.11.0") ⟨text "OpenAVC-Setup-0.10.0.exe", by decide⟩ := by
      unfold Older
      decide +kernel
    exact newest.newest _ List.mem_cons_self other (by decide +kernel)

end OpenAvc.Updater.Windows
