import Mathlib.Data.List.Infix
import OpenAvc.Data.Json

/-! The glob patterns of `fnmatch`. -/

namespace Fnmatch

/-- What stands between the brackets of a set: single characters and ranges. -/
def setHas : Text → Nat → Bool
  | lo :: 45 :: hi :: rest, c => (lo ≤ c ∧ c ≤ hi) || setHas rest c
  | single :: rest, c => single = c || setHas rest c
  | [], _ => false

/-- A part of a pattern. The content of a set is kept as it is written. -/
inductive Piece
  | star
  | any
  | set (content : Text)
  | char (c : Nat)

/-- Does the set whose content begins with `content` end in the pattern? A `]` at
the beginning of it stands for itself. -/
def closes : Text → Text → Bool
  | _, [] => false
  | content, c :: pattern =>
    if c = 93 ∧ content ≠ [] ∧ content ≠ [33] then true else closes (content ++ [c]) pattern

/-- `fnmatch.translate`. A bracket that no set begins with stands for itself. -/
def translate : Option Text → Text → List Piece
  | none, [] => []
  | none, c :: pattern =>
    if c = 42 then .star :: translate none pattern
    else if c = 63 then .any :: translate none pattern
    else if c = 91 ∧ closes [] pattern then translate (some []) pattern
    else .char c :: translate none pattern
  | some _, [] => []
  | some content, c :: pattern =>
    if c = 93 ∧ content ≠ [] ∧ content ≠ [33] then .set content :: translate none pattern
    else translate (some (content ++ [c])) pattern

def Piece.admits : Piece → Nat → Bool
  | .star, _ => true
  | .any, _ => true
  | .set (33 :: content), c => !setHas content c
  | .set content, c => setHas content c
  | .char c', c => c' = c

def matchPieces : List Piece → Text → Bool
  | [], t => t.isEmpty
  | .star :: pieces, t => t.tails.any (matchPieces pieces)
  | _ :: _, [] => false
  | piece :: pieces, c :: t => piece.admits c && matchPieces pieces t

/-- `fnmatch.fnmatch`, where `normcase` is what the platform does to a file name. -/
def fnmatch (normcase : Text → Text) (name pattern : Text) : Bool :=
  matchPieces (translate none (normcase pattern)) (normcase name)

/-- A text without `*`, `?` and `[` stands for itself. -/
theorem translate_literal {literal : Text} (plain : ∀ c ∈ literal, c ≠ 42 ∧ c ≠ 63 ∧ c ≠ 91) (pattern : Text) :
    translate none (literal ++ pattern) = literal.map .char ++ translate none pattern := by
  induction literal with
  | nil => rfl
  | cons c literal ih =>
    obtain ⟨star, any, bracket⟩ := plain c List.mem_cons_self
    have rest := ih fun c member => plain c (List.mem_cons_of_mem _ member)
    have here : translate none (c :: (literal ++ pattern)) = .char c :: translate none (literal ++ pattern) := by
      rw [translate, if_neg star, if_neg any, if_neg fun both => bracket both.1]
    rw [List.cons_append, here, rest]
    rfl

theorem matchPieces_literal {pieces : List Piece} {literal name : Text} :
    matchPieces (literal.map .char ++ pieces) name = true ↔ ∃ rest, name = literal ++ rest ∧ matchPieces pieces rest = true := by
  induction literal generalizing name with
  | nil =>
    constructor
    · intro found
      exact ⟨name, rfl, found⟩
    · rintro ⟨rest, rfl, found⟩
      exact found
  | cons c literal ih =>
    cases name with
    | nil => simp [matchPieces]
    | cons d name =>
      simp only [List.map_cons, List.cons_append, matchPieces, Piece.admits, Bool.and_eq_true, decide_eq_true_eq, ih,
        List.cons.injEq]
      constructor
      · rintro ⟨rfl, rest, rfl, found⟩
        exact ⟨rest, ⟨rfl, rfl⟩, found⟩
      · rintro ⟨rest, ⟨rfl, rfl⟩, found⟩
        exact ⟨rfl, rest, rfl, found⟩

@[simp] theorem matchPieces_star (name : Text) : matchPieces [.star] name = true := by
  rw [matchPieces]
  exact List.any_eq_true.mpr ⟨[], (List.mem_tails ..).mpr (List.nil_suffix ..), rfl⟩

example : fnmatch id (text "device.amp[1].on") (text "device.*[[]?].[!a-n]n") = true := by decide

end Fnmatch
