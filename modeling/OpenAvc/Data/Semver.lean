import Mathlib.Data.List.Lex
import Mathlib.Data.Prod.Lex
import Mathlib.Data.Sum.Order
import Mathlib.Order.WithBot

/-! The precedence of versions by Semantic Versioning 2.0. -/

namespace Semver

/-- A part of a prerelease: a number, or another text. Numbers come before texts. -/
abbrev Identifier := ℕ ⊕ₗ List ℕ

/-- A version. A release has no prerelease identifiers. -/
structure Version where
  major : ℕ
  minor : ℕ
  patch : ℕ
  prerelease : List Identifier

namespace Version

/-- A release comes after all of its prereleases. -/
def stage (v : Version) : WithTop (List Identifier) :=
  if v.prerelease = [] then ⊤ else v.prerelease

/-- Rule 11: the numbers one after the other, and then the prerelease. -/
def rank (v : Version) : ℕ ×ₗ ℕ ×ₗ ℕ ×ₗ WithTop (List Identifier) :=
  toLex (v.major, toLex (v.minor, toLex (v.patch, v.stage)))

theorem stage_injective {v w : Version} (same : v.stage = w.stage) : v.prerelease = w.prerelease := by
  unfold stage at same
  by_cases release : v.prerelease = []
  · by_cases release' : w.prerelease = []
    · rw [release, release']
    · rw [if_pos release, if_neg release'] at same
      exact absurd same WithTop.top_ne_coe
  · by_cases release' : w.prerelease = []
    · rw [if_neg release, if_pos release'] at same
      exact absurd same WithTop.coe_ne_top
    · rw [if_neg release, if_neg release'] at same
      exact WithTop.coe_injective same

theorem rank_injective : Function.Injective rank := by
  intro v w same
  have parts := Prod.mk.inj (toLex.injective same)
  have parts' := Prod.mk.inj (toLex.injective parts.2)
  have parts'' := Prod.mk.inj (toLex.injective parts'.2)
  obtain ⟨major, minor, patch, prerelease⟩ := v
  have last := stage_injective parts''.2
  simp only at parts parts' parts'' last
  rw [parts.1, parts'.1, parts''.1, last]

instance : LinearOrder Version := LinearOrder.lift' rank rank_injective

theorem lt_iff {v w : Version} : v < w ↔ v.major < w.major ∨ v.major = w.major ∧ (v.minor < w.minor ∨
    v.minor = w.minor ∧ (v.patch < w.patch ∨ v.patch = w.patch ∧ v.stage < w.stage)) := by
  have ranked : v < w ↔ v.rank < w.rank := Iff.rfl
  rw [ranked, rank, rank, Prod.Lex.toLex_lt_toLex, Prod.Lex.toLex_lt_toLex, Prod.Lex.toLex_lt_toLex]

theorem stage_lt_iff {v w : Version} : v.stage < w.stage ↔
    v.prerelease ≠ [] ∧ (w.prerelease = [] ∨ v.prerelease < w.prerelease) := by
  unfold stage
  by_cases release : v.prerelease = []
  · rw [if_pos release]
    simp [release]
  · by_cases release' : w.prerelease = []
    · rw [if_neg release, if_pos release']
      simp [release, release', WithTop.coe_lt_top]
    · rw [if_neg release, if_neg release', WithTop.coe_lt_coe]
      simp [release, release']

end Version

end Semver
