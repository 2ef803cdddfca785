import OpenAvc.Data.Json
import Mathlib.Data.List.TakeWhile

/-! The password of a URL inside a text, and the text with such passwords masked. -/

namespace OpenAvc.Redaction

/-- `REDACTED` -/
def redacted : Text := text "***"

/-- `[a-z]`, where case does not count -/
def letter (c : Nat) : Bool :=
  isLetter c || c = 0x130 || c = 0x131 || c = 0x17f || c = 0x212a

/-- `[a-z0-9+.\-]` -/
def schemeChar (c : Nat) : Bool :=
  letter c || isDigit c || c = 43 || c = 46 || c = 45

/-- `[^\s/@]` -/
def passwordChar (c : Nat) : Bool :=
  !isSpace c && c ≠ 47 && c ≠ 64

/-- `[^\s/@:]` -/
def userChar (c : Nat) : Bool :=
  passwordChar c && c ≠ 58

/-- A password, and what follows it. -/
def passwordAt (t : Text) : Option (Text × Text) :=
  if t.takeWhile passwordChar ≠ [] ∧ (t.dropWhile passwordChar).head? = some 64 then
    some (t.takeWhile passwordChar, t.dropWhile passwordChar)
  else none

/-- The colon after the user, and the password after it. -/
def credentialsAt : Text → Option (Text × Text)
  | 58 :: t => passwordAt t
  | _ => none

/-- `://` and the user, the password, and what follows. -/
def authorityAt : Text → Option (Text × Text × Text)
  | 58 :: 47 :: 47 :: t =>
    (credentialsAt (t.dropWhile userChar)).map fun u => (58 :: 47 :: 47 :: t.takeWhile userChar ++ [58], u)
  | _ => none

/-- `_URL_PASSWORD` at the start of a text: the head, the password and what follows. `word`
is `\w`, and `prev` the character before the text. -/
def urlAt (word : Nat → Bool) (prev : Option Nat) : Text → Option (Text × Text × Text)
  | c :: t =>
    if letter c && !prev.any word then
      (authorityAt (t.dropWhile schemeChar)).map fun u => (c :: t.takeWhile schemeChar ++ u.1, u.2)
    else none
  | [] => none

/-- A text is cut into the matches of `_URL_PASSWORD` and other characters. -/
inductive Piece
  | char (c : Nat)
  | url (head password : Text)
  deriving DecidableEq

def Piece.text : Piece → Text
  | .char c => [c]
  | .url head password => head ++ password

def Piece.masked : Piece → Piece
  | .char c => .char c
  | .url head _ => .url head redacted

def Piece.password? : Piece → Option Text
  | .char _ => none
  | .url _ password => some password

variable (word : Nat → Bool)

/-- The search goes on after each match. A text has at least as many characters as pieces. -/
def scan : Nat → Option Nat → Text → List Piece
  | 0, _, t => t.map .char
  | _ + 1, _, [] => []
  | n + 1, prev, c :: t =>
    match urlAt word prev (c :: t) with
    | some (head, password, rest) => .url head password :: scan n password.getLast? rest
    | none => .char c :: scan n (some c) t

def pieces (t : Text) : List Piece :=
  scan word (t.length + 1) none t

/-- `mask_url_password` -/
def maskUrlPassword (t : Text) : Text :=
  (pieces word t).flatMap fun p => p.masked.text

/-- The passwords that `_URL_PASSWORD.finditer` finds. -/
def passwords (t : Text) : List Text :=
  (pieces word t).filterMap Piece.password?

variable {word}

/-! ### What a match is made of -/

theorem passwordChar_of_scheme {c : Nat} (scheme : schemeChar c = true) : passwordChar c = true ∧ c ≠ 58 := by
  simp only [schemeChar, letter, isLetter, isDigit, Bool.or_eq_true, decide_eq_true_eq] at scheme
  simp only [passwordChar, isSpace, Bool.and_eq_true, Bool.not_eq_true', decide_eq_false_iff_not, decide_eq_true_eq]
  omega

theorem userChar_of_scheme {c : Nat} (scheme : schemeChar c = true) : userChar c = true := by
  obtain ⟨password, colon⟩ := passwordChar_of_scheme scheme
  rw [userChar, password]
  exact decide_eq_true colon

theorem schemeChar_of_letter {c : Nat} (first : letter c = true) : schemeChar c = true := by
  rw [schemeChar, first]
  rfl

theorem takeWhile_append_stop {p : Nat → Bool} {s t : Text} {c : Nat} (all : ∀ d ∈ s, p d = true) (stop : p c = false) :
    (s ++ c :: t).takeWhile p = s ∧ (s ++ c :: t).dropWhile p = c :: t := by
  have passes := @List.takeWhile_append_of_pos _ p s (c :: t) all
  have passes' := @List.dropWhile_append_of_pos _ p s (c :: t) all
  rw [passes, passes', List.takeWhile_cons_of_neg (by rw [stop]; exact Bool.false_ne_true),
    List.dropWhile_cons_of_neg (by rw [stop]; exact Bool.false_ne_true), List.append_nil]
  exact ⟨rfl, rfl⟩

/-- What a match has before its password: a scheme, `://`, a user and a colon. -/
def headOf (first : Nat) (scheme user : Text) : Text :=
  first :: scheme ++ (58 :: 47 :: 47 :: user ++ [58])

/-- The parts of a match are as the expression has them. -/
structure Parts (first : Nat) (scheme user password rest : Text) : Prop where
  first_letter : letter first = true
  scheme_chars : ∀ c ∈ scheme, schemeChar c = true
  user_chars : ∀ c ∈ user, userChar c = true
  password_chars : ∀ c ∈ password, passwordChar c = true
  password_nonempty : password ≠ []
  rest_at : rest.head? = some 64

theorem passwordAt_eq {password rest : Text} (chars : ∀ c ∈ password, passwordChar c = true) (nonempty : password ≠ [])
    (at_ : rest.head? = some 64) : passwordAt (password ++ rest) = some (password, rest) := by
  obtain ⟨rest', rfl⟩ := List.head?_eq_some_iff.mp at_
  obtain ⟨taken, dropped⟩ := @takeWhile_append_stop passwordChar password rest' 64 chars (by decide)
  rw [passwordAt, taken, dropped]
  exact if_pos ⟨nonempty, rfl⟩

/-- The parts make a match. -/
theorem Parts.urlAt_eq {first : Nat} {scheme user password rest : Text} (parts : Parts first scheme user password rest)
    {prev : Option Nat} (boundary : prev.any word = false) :
    urlAt word prev (headOf first scheme user ++ (password ++ rest)) = some (headOf first scheme user, password, rest) := by
  have shape : headOf first scheme user ++ (password ++ rest) =
      first :: (scheme ++ 58 :: 47 :: 47 :: (user ++ 58 :: (password ++ rest))) := by
    simp [headOf]
  obtain ⟨taken, dropped⟩ := @takeWhile_append_stop schemeChar scheme (47 :: 47 :: (user ++ 58 :: (password ++ rest))) 58
    parts.scheme_chars (by decide)
  obtain ⟨taken', dropped'⟩ := @takeWhile_append_stop userChar user (password ++ rest) 58 parts.user_chars (by decide)
  rw [shape, urlAt, parts.first_letter, boundary, taken, dropped, authorityAt, taken', dropped', credentialsAt,
    passwordAt_eq parts.password_chars parts.password_nonempty parts.rest_at]
  rfl

theorem passwordAt_some {t password rest : Text} (found : passwordAt t = some (password, rest)) :
    t = password ++ rest ∧ (∀ c ∈ password, passwordChar c = true) ∧ password ≠ [] ∧ rest.head? = some 64 := by
  unfold passwordAt at found
  split at found
  · rename_i both
    cases found
    exact ⟨List.takeWhile_append_dropWhile.symm, fun c => List.mem_takeWhile_imp, both.1, both.2⟩
  · cases found

theorem credentialsAt_some {t password rest : Text} (found : credentialsAt t = some (password, rest)) :
    ∃ t', t = 58 :: t' ∧ passwordAt t' = some (password, rest) := by
  unfold credentialsAt at found
  split at found
  · exact ⟨_, rfl, found⟩
  · cases found

theorem authorityAt_some {t head password rest : Text} (found : authorityAt t = some (head, password, rest)) :
    ∃ t', t = 58 :: 47 :: 47 :: t' ∧ head = 58 :: 47 :: 47 :: t'.takeWhile userChar ++ [58] ∧
      credentialsAt (t'.dropWhile userChar) = some (password, rest) := by
  unfold authorityAt at found
  split at found
  · obtain ⟨u, credentials, same⟩ := Option.map_eq_some_iff.mp found
    cases same
    exact ⟨_, rfl, rfl, credentials⟩
  · cases found

theorem urlAt_some {prev : Option Nat} {t head password rest : Text} (found : urlAt word prev t = some (head, password, rest)) :
    prev.any word = false ∧ ∃ first scheme user, head = headOf first scheme user ∧
      t = headOf first scheme user ++ (password ++ rest) ∧ Parts first scheme user password rest := by
  cases t with
  | nil => cases found
  | cons c t =>
    rw [urlAt] at found
    by_cases start : (letter c && !prev.any word) = true
    · rw [if_pos start] at found
      obtain ⟨first, boundary⟩ := Bool.and_eq_true_iff.mp start
      obtain ⟨⟨tail, u⟩, atAuthority, same⟩ := Option.map_eq_some_iff.mp found
      cases same
      obtain ⟨t', shape, rfl, credentials⟩ := authorityAt_some atAuthority
      obtain ⟨t'', shape', atPassword⟩ := credentialsAt_some credentials
      obtain ⟨whole, chars, nonempty, at_⟩ := passwordAt_some atPassword
      refine ⟨by simpa using boundary, c, t.takeWhile schemeChar, t'.takeWhile userChar, rfl, ?_, first,
        fun c => List.mem_takeWhile_imp, fun c => List.mem_takeWhile_imp, chars, nonempty, at_⟩
      have scheme := (@List.takeWhile_append_dropWhile _ schemeChar t).symm
      have user := (@List.takeWhile_append_dropWhile _ userChar t').symm
      calc c :: t = c :: (t.takeWhile schemeChar ++ 58 :: 47 :: 47 :: t') := by rw [← shape, ← scheme]
        _ = c :: (t.takeWhile schemeChar ++ 58 :: 47 :: 47 :: (t'.takeWhile userChar ++ 58 :: t'')) := by rw [← shape', ← user]
        _ = headOf c (t.takeWhile schemeChar) (t'.takeWhile userChar) ++ (password ++ rest) := by
          rw [whole]
          simp [headOf]
    · rw [if_neg start] at found
      cases found

/-! ### Masking leaves the matches where they are -/

/-- How a text and its masked form go together, after the character `prev`. -/
inductive Masked (word : Nat → Bool) : Option Nat → Text → Text → Prop
  | nil (prev) : Masked word prev [] []
  | char {prev c t t'} : urlAt word prev (c :: t) = none → Masked word (some c) t t' → Masked word prev (c :: t) (c :: t')
  | url {prev first scheme user password rest rest'} : prev.any word = false → Parts first scheme user password rest →
    Masked word password.getLast? rest rest' →
    Masked word prev (headOf first scheme user ++ (password ++ rest)) (headOf first scheme user ++ (redacted ++ rest'))

theorem scan_masked (n : Nat) (prev : Option Nat) (t : Text) (enough : t.length < n) :
    Masked word prev t ((scan word n prev t).flatMap fun p => p.masked.text) := by
  induction n generalizing prev t with
  | zero => omega
  | succ n ih =>
    cases t with
    | nil => exact .nil prev
    | cons c t =>
      cases found : urlAt word prev (c :: t) with
      | none =>
        simp only [scan, found, List.flatMap_cons]
        exact .char found (ih (some c) t (by simpa using enough))
      | some u =>
        obtain ⟨head, password, rest⟩ := u
        obtain ⟨boundary, first, scheme, user, rfl, shape, parts⟩ := urlAt_some found
        have shorter : rest.length < n := by
          have lengths := congrArg List.length shape
          simp only [headOf, List.length_cons, List.length_append] at lengths
          simp only [List.length_cons] at enough
          omega
        have later := ih password.getLast? rest shorter
        simp only [scan, found, List.flatMap_cons]
        rw [shape]
        simp only [Piece.masked, Piece.text, List.append_assoc]
        exact .url boundary parts later

theorem Masked.head?_eq {prev : Option Nat} {t t' : Text} (masked : Masked word prev t t') : t'.head? = t.head? := by
  cases masked with
  | nil => rfl
  | char => rfl
  | url => rfl

theorem Masked.tail {prev : Option Nat} {c : Nat} {t t' : Text} (masked : Masked word prev (c :: t) (c :: t'))
    (plain : letter c = false) : Masked word (some c) t t' := by
  generalize whole : c :: t = s at masked
  generalize whole' : c :: t' = s' at masked
  cases masked with
  | nil => cases whole
  | char _ later =>
    cases whole
    cases whole'
    exact later
  | @url _ first scheme user password rest rest' _ parts _ =>
    have same : c = first := (List.cons.inj whole).1
    rw [same, parts.first_letter] at plain
    cases plain

/-- Both texts go on alike for as long as a password could. -/
theorem Masked.passwordChars {prev : Option Nat} {t t' : Text} (masked : Masked word prev t t') :
    t'.takeWhile passwordChar = t.takeWhile passwordChar ∧
      (t'.dropWhile passwordChar).head? = (t.dropWhile passwordChar).head? := by
  induction masked with
  | nil => exact ⟨rfl, rfl⟩
  | @char prev c t t' _ later ih =>
    by_cases inside : passwordChar c = true
    · simp only [List.takeWhile_cons_of_pos inside, List.dropWhile_cons_of_pos inside, ih, true_and]
    · simp only [List.takeWhile_cons_of_neg inside, List.dropWhile_cons_of_neg inside, List.head?_cons, true_and]
  | @url prev first scheme user password rest rest' _ parts _ _ =>
    -- the slash after the scheme ends it
    have inside : ∀ c ∈ first :: (scheme ++ [58]), passwordChar c = true := by
      intro c member
      rcases List.mem_cons.mp member with rfl | member
      · exact (passwordChar_of_scheme (schemeChar_of_letter parts.first_letter)).1
      · rcases List.mem_append.mp member with member | colon
        · exact (passwordChar_of_scheme (parts.scheme_chars c member)).1
        · rw [List.mem_singleton.mp colon]
          decide
    have split (tail : Text) : headOf first scheme user ++ tail =
        first :: (scheme ++ [58]) ++ 47 :: (47 :: (user ++ 58 :: tail)) := by
      simp [headOf]
    rw [split, split]
    obtain ⟨taken, dropped⟩ := @takeWhile_append_stop passwordChar _ (47 :: (user ++ 58 :: (password ++ rest))) 47 inside (by decide)
    obtain ⟨taken', dropped'⟩ := @takeWhile_append_stop passwordChar _ (47 :: (user ++ 58 :: (redacted ++ rest'))) 47 inside (by decide)
    rw [taken, taken', dropped, dropped']
    exact ⟨rfl, rfl⟩

theorem Masked.passwordAt {prev : Option Nat} {t t' : Text} (masked : Masked word prev t t') :
    (passwordAt t').isSome = (passwordAt t).isSome := by
  obtain ⟨taken, next⟩ := masked.passwordChars
  unfold Redaction.passwordAt
  rw [taken, next]
  split <;> rfl

/-- Both texts go on alike for as long as a user could. -/
theorem Masked.userChars {prev : Option Nat} {t t' : Text} (masked : Masked word prev t t') :
    (credentialsAt (t'.dropWhile userChar)).isSome = (credentialsAt (t.dropWhile userChar)).isSome := by
  induction masked with
  | nil => rfl
  | @char prev c t t' _ later ih =>
    by_cases inside : userChar c = true
    · rw [List.dropWhile_cons_of_pos inside, List.dropWhile_cons_of_pos inside, ih]
    · rw [List.dropWhile_cons_of_neg inside, List.dropWhile_cons_of_neg inside]
      by_cases colon : c = 58
      · rw [colon]
        exact later.passwordAt
      · unfold credentialsAt
        split
        · rename_i shape
          exact absurd (List.cons.inj shape).1 colon
        · split
          · rename_i shape
            exact absurd (List.cons.inj shape).1 colon
          · rfl
  | @url prev first scheme user password rest rest' _ parts _ _ =>
    have inside : ∀ c ∈ first :: scheme, userChar c = true := by
      intro c member
      rcases List.mem_cons.mp member with rfl | member
      · exact userChar_of_scheme (schemeChar_of_letter parts.first_letter)
      · exact userChar_of_scheme (parts.scheme_chars c member)
    -- no password begins with the slash after the scheme
    have none' (tail : Text) : credentialsAt ((headOf first scheme user ++ tail).dropWhile userChar) = none := by
      have split : headOf first scheme user ++ tail = first :: scheme ++ 58 :: (47 :: 47 :: (user ++ 58 :: tail)) := by
        simp [headOf]
      obtain ⟨_, dropped⟩ := @takeWhile_append_stop userChar _ (47 :: 47 :: (user ++ 58 :: tail)) 58 inside (by decide)
      rw [split, dropped, credentialsAt, Redaction.passwordAt, List.takeWhile_cons_of_neg (by decide)]
      simp
    rw [none', none']

theorem authorityAt_of_ne {c : Nat} {t : Text} (other : c ≠ 58) : authorityAt (c :: t) = none := by
  unfold authorityAt
  split
  · rename_i shape
    exact absurd (List.cons.inj shape).1 other
  · rfl

theorem Masked.slash {prev : Option Nat} {t t' : Text} (masked : Masked word prev t t') :
    (∃ s s', t = 47 :: s ∧ t' = 47 :: s' ∧ Masked word (some 47) s s') ∨ (t.head? ≠ some 47 ∧ t'.head? ≠ some 47) := by
  by_cases here : t.head? = some 47
  · obtain ⟨s, rfl⟩ := List.head?_eq_some_iff.mp here
    obtain ⟨s', rfl⟩ := List.head?_eq_some_iff.mp (masked.head?_eq.trans here)
    exact Or.inl ⟨s, s', rfl, rfl, masked.tail (by decide)⟩
  · exact Or.inr ⟨here, masked.head?_eq ▸ here⟩

theorem authorityAt_none {t : Text} (other : t.head? ≠ some 47) : authorityAt (58 :: t) = none := by
  unfold authorityAt
  split
  · rename_i shape
    rw [(List.cons.inj shape).2] at other
    exact absurd rfl other
  · rfl

theorem authorityAt_none' {t : Text} (other : t.head? ≠ some 47) : authorityAt (58 :: 47 :: t) = none := by
  unfold authorityAt
  split
  · rename_i shape
    rw [(List.cons.inj (List.cons.inj shape).2).2] at other
    exact absurd rfl other
  · rfl

theorem Masked.authorityAt {prev : Option Nat} {t t' : Text} (masked : Masked word prev t t') :
    (authorityAt (58 :: t')).isSome = (authorityAt (58 :: t)).isSome := by
  rcases masked.slash with ⟨s, s', rfl, rfl, later⟩ | ⟨other, other'⟩
  · rcases later.slash with ⟨r, r', rfl, rfl, inner⟩ | ⟨other, other'⟩
    · simp only [Redaction.authorityAt, Option.isSome_map]
      exact inner.userChars
    · rw [authorityAt_none' other, authorityAt_none' other']
  · rw [authorityAt_none other, authorityAt_none other']

/-- Both texts go on alike for as long as a scheme could. -/
theorem Masked.schemeChars {prev : Option Nat} {t t' : Text} (masked : Masked word prev t t') :
    (Redaction.authorityAt (t'.dropWhile schemeChar)).isSome = (Redaction.authorityAt (t.dropWhile schemeChar)).isSome := by
  induction masked with
  | nil => rfl
  | @char prev c t t' _ later ih =>
    by_cases inside : schemeChar c = true
    · rw [List.dropWhile_cons_of_pos inside, List.dropWhile_cons_of_pos inside, ih]
    · rw [List.dropWhile_cons_of_neg inside, List.dropWhile_cons_of_neg inside]
      by_cases colon : c = 58
      · rw [colon]
        exact later.authorityAt
      · rw [authorityAt_of_ne colon, authorityAt_of_ne colon]
  | @url prev first scheme user password rest rest' _ parts later _ =>
    have inside : ∀ c ∈ first :: scheme, schemeChar c = true :=
      List.forall_mem_cons.mpr ⟨schemeChar_of_letter parts.first_letter, parts.scheme_chars⟩
    have at_ (password rest : Text) (chars : ∀ c ∈ password, passwordChar c = true) (nonempty : password ≠ [])
        (next : rest.head? = some 64) :
        (Redaction.authorityAt ((headOf first scheme user ++ (password ++ rest)).dropWhile schemeChar)).isSome = true := by
      have split : headOf first scheme user ++ (password ++ rest) =
          first :: scheme ++ 58 :: (47 :: 47 :: (user ++ 58 :: (password ++ rest))) := by
        simp [headOf]
      obtain ⟨_, dropped⟩ := @takeWhile_append_stop schemeChar _ (47 :: 47 :: (user ++ 58 :: (password ++ rest))) 58 inside (by decide)
      obtain ⟨_, dropped'⟩ := @takeWhile_append_stop userChar user (password ++ rest) 58 parts.user_chars (by decide)
      rw [split, dropped, Redaction.authorityAt, dropped', credentialsAt, passwordAt_eq chars nonempty next]
      rfl
    rw [at_ password rest parts.password_chars parts.password_nonempty parts.rest_at,
      at_ redacted rest' (by decide) (by decide) (later.head?_eq.trans parts.rest_at)]

theorem urlAt_isSome (prev : Option Nat) (c : Nat) (t : Text) :
    (urlAt word prev (c :: t)).isSome = (letter c && !prev.any word && (authorityAt (t.dropWhile schemeChar)).isSome) := by
  rw [urlAt]
  split
  · rename_i start
    rw [start, Option.isSome_map, Bool.true_and]
  · rename_i start
    rw [Bool.eq_false_of_not_eq_true start]
    rfl

/-- The character before a text does not matter unless the text begins with a letter. -/
theorem scan_prev {prev prev' : Option Nat} {t : Text} (plain : t.head? = some 64) (n : Nat) :
    scan word n prev t = scan word n prev' t := by
  obtain ⟨t', rfl⟩ := List.head?_eq_some_iff.mp plain
  cases n with
  | zero => rfl
  | succ n =>
    have none' (prev : Option Nat) : urlAt word prev (64 :: t') = none := by
      rw [urlAt, if_neg (by simp [letter, isLetter])]
    simp only [scan, none']

theorem Masked.scan_eq {prev : Option Nat} {t t' : Text} (masked : Masked word prev t t') (n n' : Nat) (enough : t.length < n)
    (enough' : t'.length < n') : scan word n' prev t' = (scan word n prev t).map Piece.masked := by
  induction masked generalizing n n' with
  | nil prev =>
    obtain ⟨n, rfl⟩ : ∃ k, n = k + 1 := ⟨n - 1, by omega⟩
    obtain ⟨n', rfl⟩ : ∃ k, n' = k + 1 := ⟨n' - 1, by omega⟩
    rfl
  | @char prev c t t' found later ih =>
    obtain ⟨n, rfl⟩ : ∃ k, n = k + 1 := ⟨n - 1, by omega⟩
    obtain ⟨n', rfl⟩ : ∃ k, n' = k + 1 := ⟨n' - 1, by omega⟩
    have found' : urlAt word prev (c :: t') = none := by
      have same := @urlAt_isSome word prev c t'
      rw [later.schemeChars, ← urlAt_isSome, found] at same
      exact Option.isSome_eq_false_iff.mp same |> Option.isNone_iff_eq_none.mp
    simp only [scan, found, found', List.map_cons]
    rw [ih n n' (by simpa using enough) (by simpa using enough')]
    rfl
  | @url prev first scheme user password rest rest' boundary parts later ih =>
    obtain ⟨n, rfl⟩ : ∃ k, n = k + 1 := ⟨n - 1, by omega⟩
    obtain ⟨n', rfl⟩ : ∃ k, n' = k + 1 := ⟨n' - 1, by omega⟩
    have next := later.head?_eq.trans parts.rest_at
    have parts' : Parts first scheme user redacted rest' :=
      { parts with password_chars := by decide, password_nonempty := by decide, rest_at := next }
    have found := parts.urlAt_eq boundary
    have found' := parts'.urlAt_eq boundary
    obtain ⟨s, shape⟩ : ∃ s, headOf first scheme user ++ (password ++ rest) = first :: s := ⟨_, rfl⟩
    obtain ⟨s', shape'⟩ : ∃ s, headOf first scheme user ++ (redacted ++ rest') = first :: s := ⟨_, rfl⟩
    have shorter : rest.length < n := by
      simp only [headOf, List.length_append, List.length_cons] at enough
      omega
    have shorter' : rest'.length < n' := by
      simp only [headOf, List.length_append, List.length_cons] at enough'
      omega
    rw [shape] at found ⊢
    rw [shape'] at found' ⊢
    simp only [scan, found, found', List.map_cons, ← ih n n' shorter shorter']
    rw [@scan_prev word redacted.getLast? password.getLast? rest' next]
    rfl

/-- The masked text has the same matches, each with the mask for its password. -/
theorem pieces_mask (t : Text) : pieces word (maskUrlPassword word t) = (pieces word t).map Piece.masked :=
  (scan_masked _ _ t (Nat.lt_succ_self _)).scan_eq _ _ (Nat.lt_succ_self _) (Nat.lt_succ_self _)

theorem passwords_mask (t : Text) : passwords word (maskUrlPassword word t) = (passwords word t).map fun _ => redacted := by
  rw [passwords, pieces_mask, passwords]
  generalize pieces word t = l
  induction l with
  | nil => rfl
  | cons p l ih =>
    cases p with
    | char c => exact ih
    | url head password => exact congrArg (redacted :: ·) ih

theorem scan_text (n : Nat) (prev : Option Nat) (t : Text) : (scan word n prev t).flatMap Piece.text = t := by
  induction n generalizing prev t with
  | zero => simp [scan, Piece.text, List.flatMap_map]
  | succ n ih =>
    cases t with
    | nil => rfl
    | cons c t =>
      cases found : urlAt word prev (c :: t) with
      | none =>
        simp only [scan, found, List.flatMap_cons, ih]
        rfl
      | some u =>
        obtain ⟨head, password, rest⟩ := u
        obtain ⟨_, first, scheme, user, rfl, shape, _⟩ := urlAt_some found
        simp only [scan, found, List.flatMap_cons, ih, Piece.text]
        rw [shape, List.append_assoc]

theorem infix_of_password {t password : Text} (member : password ∈ passwords word t) : password <:+: t := by
  obtain ⟨piece, there, same⟩ := List.mem_filterMap.mp member
  obtain ⟨front, back, split⟩ := List.append_of_mem there
  have whole := @scan_text word (t.length + 1) none t
  change (pieces word t).flatMap Piece.text = t at whole
  cases piece with
  | char c => cases same
  | url head password' =>
    cases same
    rw [split, List.flatMap_append, List.flatMap_cons, Piece.text] at whole
    refine ⟨front.flatMap Piece.text ++ head, back.flatMap Piece.text, ?_⟩
    rw [← whole]
    simp

/-- A text without such a password is not changed. -/
theorem mask_eq_self {t : Text} (plain : passwords word t = []) : maskUrlPassword word t = t := by
  have whole (n : Nat) (prev : Option Nat) (t : Text) (none' : (scan word n prev t).filterMap Piece.password? = []) :
      (scan word n prev t).flatMap (fun p => p.masked.text) = t := by
    induction n generalizing prev t with
    | zero => simp [scan, Piece.masked, Piece.text, List.flatMap_map]
    | succ n ih =>
      cases t with
      | nil => rfl
      | cons c t =>
        cases found : urlAt word prev (c :: t) with
        | some u => simp [scan, found, Piece.password?] at none'
        | none =>
          simp only [scan, found, List.filterMap_cons, Piece.password?] at none'
          simp only [scan, found, List.flatMap_cons, ih _ _ none']
          rfl
  exact whole _ _ t plain

end OpenAvc.Redaction
