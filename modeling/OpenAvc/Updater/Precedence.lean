import OpenAvc.Updater.Checker

/-! The order of `is_newer`, and the release that the checker offers. -/

namespace OpenAvc.Updater

variable {decimal : Nat → Option (Fin 10)}

/-- An identifier of a prerelease as a rule of precedence reads it. -/
def identifier (t : Text) : Semver.Identifier :=
  if isNumericIdentifier t then Sum.inlₗ (digitsValue t) else Sum.inrₗ t

def identifiers (prerelease : Text) : List Semver.Identifier :=
  if prerelease = [] then [] else (prerelease.splitOn 46).map identifier

/-- The number that decimal digits stand for. -/
def decimalValue (decimal : Nat → Option (Fin 10)) (t : Text) : Nat :=
  t.foldl (fun n c => 10 * n + (digitOf decimal c).getD 0) 0

/-- What `is_newer` sorts a version by: a text that is no version counts as 0.0.0. -/
def sortedAs (decimal : Nat → Option (Fin 10)) (version : Text) : Semver.Version :=
  match semverMatch decimal (clean version) with
  | none => ⟨0, 0, 0, []⟩
  | some (major, minor, patch, prerelease) =>
    ⟨decimalValue decimal major, decimalValue decimal minor, decimalValue decimal patch, identifiers prerelease⟩

/-- The version that a text names by Semantic Versioning, where build metadata, from a `+`
on, does not count. -/
def semver (decimal : Nat → Option (Fin 10)) (version : Text) : Semver.Version :=
  match semverMatch decimal (clean version) with
  | none => ⟨0, 0, 0, []⟩
  | some (major, minor, patch, prerelease) =>
    ⟨decimalValue decimal major, decimalValue decimal minor, decimalValue decimal patch,
      identifiers (prerelease.takeWhile (· ≠ 43))⟩

/-- `int` reads all numbers of a version. -/
def Readable (decimal : Nat → Option (Fin 10)) (version : Text) : Prop :=
  ∀ major minor patch prerelease, semverMatch decimal (clean version) = some (major, minor, patch, prerelease) →
    (major.length ≤ Json.Scan.intLimit ∧ minor.length ≤ Json.Scan.intLimit ∧ patch.length ≤ Json.Scan.intLimit) ∧
    ∀ ident ∈ prerelease.splitOn 46, isNumericIdentifier ident = true → ident.length ≤ Json.Scan.intLimit

theorem decimalValue_digits {t : Text} (numeric : t.all isDigit = true) : decimalValue decimal t = digitsValue t := by
  have digit (c : Nat) (member : c ∈ t) : (digitOf decimal c).getD 0 = c - 48 := by
    rw [digitOf, if_pos (List.all_eq_true.mp numeric c member)]
    rfl
  unfold decimalValue digitsValue
  exact List.foldl_ext _ _ _ fun n c member => by rw [digit c member]

theorem intOf_eq {t : Text} (short : t.length ≤ Json.Scan.intLimit) : intOf decimal t = .ok (decimalValue decimal t) :=
  if_pos short

theorem intOf_numeric {t : Text} (numeric : isNumericIdentifier t = true) (short : t.length ≤ Json.Scan.intLimit) :
    intOf decimal t = .ok (digitsValue t) := by
  have digits := (Bool.and_eq_true_iff.mp numeric).2
  rw [intOf_eq short, decimalValue_digits digits]

/-- How two lists stand, as `_compare_prerelease` tells it. -/
def sign (as bs : List Semver.Identifier) : Int :=
  if bs < as then 1 else if as < bs then -1 else 0

theorem not_gt_of_lt {as bs : List Semver.Identifier} (below : as < bs) : ¬bs < as :=
  fun above => lt_irrefl as (lt_trans below above)

theorem sign_of_lt {as bs : List Semver.Identifier} (below : as < bs) : sign as bs = -1 := by
  rw [sign, if_neg (not_gt_of_lt below), if_pos below]

theorem sign_of_gt {as bs : List Semver.Identifier} (above : bs < as) : sign as bs = 1 :=
  if_pos above

theorem sign_pos_iff {as bs : List Semver.Identifier} : 0 < sign as bs ↔ bs < as := by
  unfold sign
  split
  · simp [*]
  · split <;> simp [*]

theorem sign_cons_self (a : Semver.Identifier) (as bs : List Semver.Identifier) : sign (a :: as) (a :: bs) = sign as bs := by
  unfold sign
  simp only [List.cons_lt_cons_iff, lt_irrefl, false_or, true_and]

theorem cons_lt_cons_of_lt {a b : Semver.Identifier} (below : a < b) (as bs : List Semver.Identifier) : a :: as < b :: bs :=
  List.cons_lt_cons_iff.mpr (Or.inl below)

theorem identifier_lt_of_numeric {a b : Text} (numeric : isNumericIdentifier a = true) (other : isNumericIdentifier b = false) :
    identifier a < identifier b := by
  rw [identifier, if_pos numeric, identifier, if_neg (by rw [other]; exact Bool.false_ne_true)]
  exact Sum.Lex.inl_lt_inr _ _

/-- The loop is the comparison of the lists by their first difference. -/
theorem comparePrerelease_eq (as bs : List Text)
    (short : ∀ ident, ident ∈ as ∨ ident ∈ bs → isNumericIdentifier ident = true → ident.length ≤ Json.Scan.intLimit) :
    comparePrerelease decimal as bs = .ok (sign (as.map identifier) (bs.map identifier)) := by
  induction as generalizing bs with
  | nil =>
    cases bs with
    | nil => rfl
    | cons b bs =>
      rw [List.map_nil, List.map_cons, sign_of_lt (List.nil_lt_cons _ _)]
      simp [comparePrerelease]
  | cons a as ih =>
    cases bs with
    | nil =>
      rw [List.map_nil, List.map_cons, sign_of_gt (List.nil_lt_cons _ _)]
      simp [comparePrerelease]
    | cons b bs =>
      have rest := ih bs fun ident member => short ident (member.imp (List.mem_cons_of_mem _) (List.mem_cons_of_mem _))
      rw [List.map_cons, List.map_cons, comparePrerelease]
      cases first : isNumericIdentifier a with
      | true =>
        cases second : isNumericIdentifier b with
        | true =>
          have valueA : intOf decimal a = .ok (digitsValue a) := intOf_numeric first (short a (Or.inl List.mem_cons_self) first)
          have valueB : intOf decimal b = .ok (digitsValue b) := intOf_numeric second (short b (Or.inr List.mem_cons_self) second)
          have readA : identifier a = Sum.inlₗ (digitsValue a) := if_pos first
          have readB : identifier b = Sum.inlₗ (digitsValue b) := if_pos second
          rw [valueA, valueB, readA, readB]
          rcases lt_trichotomy (digitsValue a) (digitsValue b) with below | same | above
          · rw [sign_of_lt (cons_lt_cons_of_lt (Sum.Lex.inl_lt_inl_iff.mpr below) _ _)]
            simp [bind, Except.bind, below.ne, below.not_gt]
            rfl
          · rw [same, sign_cons_self, ← rest]
            simp [bind, Except.bind]
          · rw [sign_of_gt (cons_lt_cons_of_lt (Sum.Lex.inl_lt_inl_iff.mpr above) _ _)]
            simp [bind, Except.bind, above.ne', above]
            rfl
        | false => rw [sign_of_lt (cons_lt_cons_of_lt (identifier_lt_of_numeric first second) _ _)]
      | false =>
        cases second : isNumericIdentifier b with
        | true => rw [sign_of_gt (cons_lt_cons_of_lt (identifier_lt_of_numeric second first) _ _)]
        | false =>
          have readA : identifier a = Sum.inrₗ a := if_neg (by rw [first]; exact Bool.false_ne_true)
          have readB : identifier b = Sum.inrₗ b := if_neg (by rw [second]; exact Bool.false_ne_true)
          rw [readA, readB]
          rcases lt_trichotomy a b with below | rfl | above
          · rw [sign_of_lt (cons_lt_cons_of_lt (Sum.Lex.inr_lt_inr_iff.mpr below) _ _)]
            simp [below.ne, below.not_gt]
          · rw [sign_cons_self, ← rest]
            simp
          · rw [sign_of_gt (cons_lt_cons_of_lt (Sum.Lex.inr_lt_inr_iff.mpr above) _ _)]
            simp [above.ne', above]

/-- The text after the numbers of a version. -/
def prereleaseOf (decimal : Nat → Option (Fin 10)) (version : Text) : Text :=
  ((semverMatch decimal (clean version)).map fun groups => groups.2.2.2).getD []

theorem sortedAs_prerelease (version : Text) : (sortedAs decimal version).prerelease = identifiers (prereleaseOf decimal version) := by
  unfold sortedAs prereleaseOf
  cases semverMatch decimal (clean version) with
  | none => rfl
  | some groups => rfl

theorem parseSemver_eq {version : Text} (readable : Readable decimal version) :
    parseSemver decimal version = .ok ((sortedAs decimal version).major, (sortedAs decimal version).minor,
      (sortedAs decimal version).patch, prereleaseOf decimal version) := by
  unfold parseSemver sortedAs prereleaseOf
  cases found : semverMatch decimal (clean version) with
  | none => rfl
  | some groups =>
    obtain ⟨major, minor, patch, prerelease⟩ := groups
    obtain ⟨⟨majorShort, minorShort, patchShort⟩, _⟩ := readable major minor patch prerelease found
    simp only [intOf_eq majorShort, intOf_eq minorShort, intOf_eq patchShort]
    rfl

theorem short_of_readable {version ident : Text} (readable : Readable decimal version)
    (member : ident ∈ (prereleaseOf decimal version).splitOn 46) (numeric : isNumericIdentifier ident = true) :
    ident.length ≤ Json.Scan.intLimit := by
  unfold prereleaseOf at member
  cases found : semverMatch decimal (clean version) with
  | none =>
    rw [found] at member
    have empty : ident = [] := by simpa [List.splitOn] using member
    rw [empty]
    exact Nat.zero_le _
  | some groups =>
    obtain ⟨major, minor, patch, prerelease⟩ := groups
    rw [found] at member
    exact (readable major minor patch prerelease found).2 ident member numeric

theorem identifiers_eq_nil {prerelease : Text} : identifiers prerelease = [] ↔ prerelease = [] := by
  unfold identifiers
  constructor
  · intro empty
    by_contra some
    rw [if_neg some] at empty
    exact List.splitOn_ne_nil 46 prerelease (List.map_eq_nil_iff.mp empty)
  · exact fun empty => if_pos empty

/-- `is_newer` is the order of what versions are sorted by. -/
theorem isNewer_eq {candidate current : Text} (readable : Readable decimal candidate) (readable' : Readable decimal current) :
    isNewer decimal candidate current = .ok (decide (sortedAs decimal current < sortedAs decimal candidate)) := by
  have compared := @comparePrerelease_eq decimal ((prereleaseOf decimal candidate).splitOn 46)
    ((prereleaseOf decimal current).splitOn 46) fun ident member numeric =>
      member.elim (short_of_readable readable · numeric) (short_of_readable readable' · numeric)
  unfold isNewer
  rw [parseSemver_eq readable, parseSemver_eq readable']
  simp only [Semver.Version.lt_iff, Semver.Version.stage_lt_iff, sortedAs_prerelease, identifiers_eq_nil, ne_eq]
  generalize sortedAs decimal candidate = c
  generalize sortedAs decimal current = r
  -- the numbers decide, one after the other
  by_cases major : c.major = r.major
  · by_cases minor : c.minor = r.minor
    · by_cases patch : c.patch = r.patch
      · cases pre : prereleaseOf decimal candidate with
        | nil =>
          cases pre' : prereleaseOf decimal current with
          | nil => simp [bind, Except.bind, major, minor, patch, pure, Except.pure]
          | cons d rest' => simp [bind, Except.bind, major, minor, patch, pure, Except.pure]
        | cons d rest =>
          cases pre' : prereleaseOf decimal current with
          | nil => simp [bind, Except.bind, major, minor, patch, pure, Except.pure]
          | cons d' rest' =>
            rw [pre, pre'] at compared
            have read : identifiers (d :: rest) = ((d :: rest).splitOn 46).map identifier := if_neg nofun
            have read' : identifiers (d' :: rest') = ((d' :: rest').splitOn 46).map identifier := if_neg nofun
            rw [read, read']
            simp [bind, Except.bind, major, minor, patch, pure, Except.pure, compared, sign_pos_iff]
      · simp [bind, Except.bind, major, minor, patch, pure, Except.pure, Ne.symm patch]
    · simp [bind, Except.bind, major, minor, pure, Except.pure, Ne.symm minor]
  · simp [bind, Except.bind, major, pure, Except.pure, Ne.symm major]

/-- What `is_newer` sorts a version by is the version it names, if it has no build metadata. -/
theorem semver_eq_sortedAs {version : Text} (plain : 43 ∉ prereleaseOf decimal version) :
    semver decimal version = sortedAs decimal version := by
  unfold prereleaseOf at plain
  unfold semver sortedAs
  cases found : semverMatch decimal (clean version) with
  | none => rfl
  | some groups =>
    obtain ⟨major, minor, patch, prerelease⟩ := groups
    rw [found] at plain
    have whole : prerelease.takeWhile (· ≠ 43) = prerelease :=
      List.takeWhile_eq_self_iff.mpr fun c member => decide_eq_true fun same => plain (same ▸ member)
    simp only [whole]

theorem isNewer_strictWeakOrder (decimal : Nat → Option (Fin 10)) :
    IsStrictWeakOrder {version : Text // Readable decimal version} fun a b => isNewer decimal a.1 b.1 = .ok true := by
  have same : (fun a b : {version : Text // Readable decimal version} => isNewer decimal a.1 b.1 = .ok true) =
      fun a b => sortedAs decimal b.1 < sortedAs decimal a.1 := by
    funext a b
    rw [isNewer_eq a.2 b.2]
    simp
  rw [same]
  exact {
    irrefl := fun a => lt_irrefl _
    trans := fun a b c ab bc => lt_trans bc ab
    incomp_trans := fun a b c ab bc => by
      have first : sortedAs decimal a.1 = sortedAs decimal b.1 := le_antisymm (not_lt.mp ab.1) (not_lt.mp ab.2)
      have second : sortedAs decimal b.1 = sortedAs decimal c.1 := le_antisymm (not_lt.mp bc.1) (not_lt.mp bc.2)
      simp only [first, second]
      exact ⟨lt_irrefl _, lt_irrefl _⟩ }

namespace UpdateChecker

variable {s : UpdateChecker} {channel : Text}

/-- A release that is looked at: no draft, and on the channel. -/
def Release.OnChannel (channel : Text) (r : Release) : Prop :=
  r.draft = false ∧ ¬(channel = text "stable" ∧ r.prerelease = true)

/-- A release that may be offered. -/
def Offered (decimal : Nat → Option (Fin 10)) (s : UpdateChecker) (channel : Text) (r : Release) : Prop :=
  Release.OnChannel channel r ∧ r.tag ≠ [] ∧ isValidSemver decimal r.tag = true ∧
    isNewer decimal r.tag s.currentVersion = .ok true

/-- One round keeps the best release, or takes the one it looks at for it. -/
theorem consider_cases {best : Option Release} {r : Release} (running : Readable decimal s.currentVersion)
    (readable : Release.OnChannel channel r → Readable decimal r.tag) (bestReadable : ∀ b ∈ best, Readable decimal b.tag) :
    (¬Offered decimal s channel r ∧ consider decimal s channel best r = .ok best) ∨
      (Offered decimal s channel r ∧
        ((∃ b, best = some b ∧ ¬sortedAs decimal b.tag < sortedAs decimal r.tag ∧ consider decimal s channel best r = .ok (some b)) ∨
        ((∀ b ∈ best, sortedAs decimal b.tag < sortedAs decimal r.tag) ∧ consider decimal s channel best r = .ok (some r)))) := by
  unfold Offered Release.OnChannel consider
  unfold Release.OnChannel at readable
  by_cases draft : r.draft = true
  · exact Or.inl ⟨by simp [draft], by simp [draft]; rfl⟩
  by_cases off : channel = text "stable" ∧ r.prerelease = true
  · exact Or.inl ⟨by simp [off], by simp [draft, off]; rfl⟩
  have readable := readable ⟨Bool.eq_false_of_not_eq_true draft, off⟩
  rw [isNewer_eq readable running]
  by_cases empty : r.tag = []
  · exact Or.inl ⟨by simp [empty], by simp [draft, off, empty]; rfl⟩
  by_cases valid : isValidSemver decimal r.tag = true
  · by_cases newer : sortedAs decimal s.currentVersion < sortedAs decimal r.tag
    · refine Or.inr ⟨by simp [draft, off, empty, valid, newer], ?_⟩
      cases best with
      | none => exact Or.inr ⟨nofun, by simp [draft, off, empty, valid, newer, bind, Except.bind, pure, Except.pure]⟩
      | some b =>
        have compared := isNewer_eq readable (bestReadable b rfl)
        by_cases better : sortedAs decimal b.tag < sortedAs decimal r.tag
        · refine Or.inr ⟨fun b' same => ?_, ?_⟩
          · cases same
            exact better
          · simp [draft, off, empty, valid, newer, compared, better, bind, Except.bind, pure, Except.pure]
        · refine Or.inl ⟨b, rfl, better, ?_⟩
          simp [draft, off, empty, valid, newer, compared, better, bind, Except.bind, pure, Except.pure]
    · exact Or.inl ⟨by simp [newer], by simp [draft, off, empty, valid, newer, bind, Except.bind, pure, Except.pure]⟩
  · exact Or.inl ⟨by simp [valid], by simp [draft, off, empty, valid]; rfl⟩

/-- The walk over the releases finds one that no other is newer than. -/
theorem walk {l : List Release} {best : Option Release} (running : Readable decimal s.currentVersion)
    (readable : ∀ r ∈ l, Release.OnChannel channel r → Readable decimal r.tag) (bestReadable : ∀ b ∈ best, Readable decimal b.tag) :
    ∃ best', l.foldlM (consider decimal s channel) best = .ok best' ∧
      (best' = none → best = none ∧ ∀ r ∈ l, ¬Offered decimal s channel r) ∧
      ∀ b ∈ best', (best = some b ∨ b ∈ l ∧ Offered decimal s channel b) ∧
        (∀ b₀ ∈ best, ¬sortedAs decimal b.tag < sortedAs decimal b₀.tag) ∧
        ∀ r ∈ l, Offered decimal s channel r → ¬sortedAs decimal b.tag < sortedAs decimal r.tag := by
  induction l generalizing best with
  | nil =>
    refine ⟨best, rfl, fun none => ⟨none, nofun⟩, fun b same => ⟨Or.inl same, fun b₀ same₀ => ?_, nofun⟩⟩
    rw [Option.mem_def.mp same] at same₀
    cases same₀
    exact lt_irrefl _
  | cons r l ih =>
    have here := readable r List.mem_cons_self
    have later := fun r' member => readable r' (List.mem_cons_of_mem r member)
    rw [List.foldlM_cons]
    rcases @consider_cases decimal s channel best r running here bestReadable with
      ⟨passed, round⟩ | ⟨offered, ⟨b, rfl, above, round⟩ | ⟨below, round⟩⟩
    · obtain ⟨best', found, none, some⟩ := ih later bestReadable
      refine ⟨best', by rw [round]; exact found, fun same => ?_, fun b member => ?_⟩
      · exact ⟨(none same).1, List.forall_mem_cons.mpr ⟨passed, (none same).2⟩⟩
      · obtain ⟨origin, first, others⟩ := some b member
        refine ⟨origin.imp_right fun there => ⟨List.mem_cons_of_mem _ there.1, there.2⟩, first, ?_⟩
        exact List.forall_mem_cons.mpr ⟨fun offered => absurd offered passed, others⟩
    · obtain ⟨best', found, none, some'⟩ := ih later bestReadable
      refine ⟨best', by rw [round]; exact found, fun same => ?_, fun b' member => ?_⟩
      · exact absurd (none same).1 nofun
      · obtain ⟨origin, first, others⟩ := some' b' member
        refine ⟨origin.imp_right fun there => ⟨List.mem_cons_of_mem _ there.1, there.2⟩, first, ?_⟩
        refine List.forall_mem_cons.mpr ⟨fun _ newer => ?_, others⟩
        have between := lt_of_lt_of_le newer (not_lt.mp above)
        exact first b rfl between
    · have taken : ∀ b ∈ some r, Readable decimal b.tag := by
        intro b same
        cases same
        exact here offered.1
      obtain ⟨best', found, none, some'⟩ := ih later taken
      refine ⟨best', by rw [round]; exact found, fun same => ?_, fun b' member => ?_⟩
      · exact absurd (none same).1 nofun
      · obtain ⟨origin, first, others⟩ := some' b' member
        have atLeast := not_lt.mp (first r rfl)
        refine ⟨Or.inr ?_, fun b₀ same => ?_, List.forall_mem_cons.mpr ⟨fun _ => first r rfl, others⟩⟩
        · rcases origin with same | there
          · cases same
            exact ⟨List.mem_cons_self, offered⟩
          · exact ⟨List.mem_cons_of_mem _ there.1, there.2⟩
        · exact not_lt.mpr ((below b₀ same).le.trans atLeast)

/-- The checker offers a release that no other is newer than, and none only if there is none. -/
theorem check_releases (l : List Release) (running : Readable decimal s.currentVersion)
    (readable : ∀ r ∈ l, Release.OnChannel channel r → Readable decimal r.tag) :
    ∃ result after, check decimal s channel (.releases l) = .ok (result, after) ∧
      (result = none ↔ ∀ r ∈ l, ¬Offered decimal s channel r) ∧
      ∀ info ∈ result, ∃ r ∈ l, Offered decimal s channel r ∧ info = r.info ∧
        ∀ r' ∈ l, Offered decimal s channel r' → isNewer decimal r'.tag r.tag = .ok false := by
  cases l with
  | nil => exact ⟨none, _, rfl, by simp, nofun⟩
  | cons first rest =>
    obtain ⟨best, found, none, some'⟩ := @walk decimal s channel (first :: rest) none running readable nofun
    cases best with
    | none => exact ⟨.none, _, by simp only [check, found]; rfl, iff_of_true rfl (none rfl).2, nofun⟩
    | some b =>
      obtain ⟨origin, _, others⟩ := some' b rfl
      have there := origin.resolve_left nofun
      refine ⟨some b.info, _, by simp only [check, found]; rfl, iff_of_false nofun fun all => all b there.1 there.2, fun info same => ?_⟩
      cases same
      refine ⟨b, there.1, there.2, rfl, fun r member offered => ?_⟩
      rw [isNewer_eq (readable r member offered.1) (readable b there.1 there.2.1)]
      simpa using others r member offered

end UpdateChecker

/-- The order of versions, and the release that is offered. -/
theorem newest_release (decimal : Nat → Option (Fin 10)) :
    (∀ a b, Readable decimal a → Readable decimal b → ∃ newer, isNewer decimal a b = .ok newer) ∧
    IsStrictWeakOrder {version : Text // Readable decimal version} (fun a b => isNewer decimal a.1 b.1 = .ok true) ∧
    (∀ a b, Readable decimal a → Readable decimal b → 43 ∉ prereleaseOf decimal a → 43 ∉ prereleaseOf decimal b →
      (isNewer decimal a b = .ok true ↔ semver decimal b < semver decimal a)) ∧
    ∀ (s : UpdateChecker) (channel : Text) (l : List Release), Readable decimal s.currentVersion →
      (∀ r ∈ l, UpdateChecker.Release.OnChannel channel r → Readable decimal r.tag) →
      ∃ result after, s.check decimal channel (.releases l) = .ok (result, after) ∧
        (result = none ↔ ∀ r ∈ l, ¬s.Offered decimal channel r) ∧
        ∀ info ∈ result, ∃ r ∈ l, s.Offered decimal channel r ∧ info = r.info ∧
          ∀ r' ∈ l, s.Offered decimal channel r' → isNewer decimal r'.tag r.tag = .ok false := by
  refine ⟨fun a b readable readable' => ⟨_, isNewer_eq readable readable'⟩, isNewer_strictWeakOrder decimal,
    fun a b readable readable' plain plain' => ?_, fun s channel l running readable => ?_⟩
  · rw [isNewer_eq readable readable', semver_eq_sortedAs plain, semver_eq_sortedAs plain']
    simp
  · exact UpdateChecker.check_releases l running readable

theorem readable_of_match {version major minor patch prerelease : Text}
    (found : semverMatch decimal (clean version) = some (major, minor, patch, prerelease))
    (short : (major.length ≤ Json.Scan.intLimit ∧ minor.length ≤ Json.Scan.intLimit ∧ patch.length ≤ Json.Scan.intLimit) ∧
      ∀ ident ∈ prerelease.splitOn 46, isNumericIdentifier ident = true → ident.length ≤ Json.Scan.intLimit) :
    Readable decimal version := by
  intro major' minor' patch' prerelease' found'
  rw [found] at found'
  cases found'
  exact short

theorem newest_release_rc :
    isNewer (fun _ => none) (text "v1.2.0") (text "1.2.0-rc.10") = .ok true ∧
    ∃ result after, UpdateChecker.check (fun _ => none) { currentVersion := text "1.2.0-rc.10" } (text "stable")
        (.releases [{ tag := text "v1.2.0" }]) = .ok (result, after) ∧
      (result = none ↔ ∀ r ∈ [({ tag := text "v1.2.0" } : Release)], ¬UpdateChecker.Offered (fun _ => none)
        { currentVersion := text "1.2.0-rc.10" } (text "stable") r) := by
  have stable : Readable (fun _ => none) (text "v1.2.0") :=
    @readable_of_match _ _ (text "1") (text "2") (text "0") [] (by decide) (by decide)
  have candidate : Readable (fun _ => none) (text "1.2.0-rc.10") :=
    @readable_of_match _ _ (text "1") (text "2") (text "0") (text "rc.10") (by decide) (by decide)
  obtain ⟨_, _, agree, offered⟩ := newest_release fun _ => none
  constructor
  · exact (agree _ _ stable candidate (by decide) (by decide)).mpr (by decide)
  · obtain ⟨result, after, checked, none, _⟩ := offered { currentVersion := text "1.2.0-rc.10" } (text "stable")
      [{ tag := text "v1.2.0" }] candidate (fun r member _ => by rw [List.mem_singleton.mp member]; exact stable)
    exact ⟨result, after, checked, none⟩

/-- Build metadata makes a number an alphanumeric identifier, and a number with more digits
than `int` reads is a valid version that cannot be compared. -/
theorem accepted_not_ordered :
    (isValidSemver (fun _ => none) (text "1.0.0-rc.1+5") = true ∧ isValidSemver (fun _ => none) (text "1.0.0-rc.2") = true ∧
      isNewer (fun _ => none) (text "1.0.0-rc.1+5") (text "1.0.0-rc.2") = .ok true ∧
      ¬semver (fun _ => none) (text "1.0.0-rc.2") < semver (fun _ => none) (text "1.0.0-rc.1+5")) ∧
    isValidSemver (fun _ => none) (List.replicate 4301 57 ++ text ".0.0") = true ∧
      isNewer (fun _ => none) (List.replicate 4301 57 ++ text ".0.0") (text "1.0.0") = .error .value := by
  refine ⟨⟨by decide, by decide, by decide, by decide⟩, by decide +kernel, by decide +kernel⟩

end OpenAvc.Updater
