import Mathlib.Data.List.TakeDrop
import Mathlib.Data.List.TakeWhile
import OpenAvc.Data.Json

/-! What `json.loads` has read, `json.dumps` can write. -/

namespace Json

open Scan

mutual

/-- `json.dumps` takes `v`: no `int` has too many digits, and there is room for
its containers inside one another. -/
def writable (room : Nat) : Json → Bool
  | .int n => n.natAbs < 10 ^ intLimit
  | .arr items => 0 < room && writableItems (room - 1) items
  | .obj fields => 0 < room && writableFields (room - 1) fields
  | _ => true

def writableItems (room : Nat) : List Json → Bool
  | [] => true
  | v :: items => writable room v && writableItems room items

def writableFields (room : Nat) : List (Text × Json) → Bool
  | [] => true
  | (_, v) :: fields => writable room v && writableFields room fields

end

theorem writableItems_iff {room : Nat} {items : List Json} :
    writableItems room items = true ↔ ∀ v ∈ items, writable room v = true := by
  induction items with
  | nil => simp [writableItems]
  | cons v items ih => simp [writableItems, ih]

theorem writableFields_iff {room : Nat} {fields : List (Text × Json)} :
    writableFields room fields = true ↔ ∀ u ∈ fields, writable room u.2 = true := by
  induction fields with
  | nil => simp [writableFields]
  | cons u fields ih =>
    obtain ⟨k, v⟩ := u
    simp [writableFields, ih]

namespace Scan

variable {budget : Nat} {frames : List Frame} {s s' : Scan} {v : Json}

theorem digitsValue_lt {ds : Text} (digits : ∀ d ∈ ds, isDigit d = true) : digitsValue ds < 10 ^ ds.length := by
  have walk : ∀ n, ds.foldl (fun n d => 10 * n + (d - 48)) n < (n + 1) * 10 ^ ds.length := by
    induction ds with
    | nil => intro n; simp
    | cons d ds ih =>
      intro n
      have digit := digits d List.mem_cons_self
      simp only [isDigit, decide_eq_true_eq] at digit
      have rest := ih (fun e later => digits e (List.mem_cons_of_mem _ later)) (10 * n + (d - 48))
      have step : (10 * n + (d - 48) + 1) * 10 ^ ds.length ≤ (10 * n + 10) * 10 ^ ds.length :=
        Nat.mul_le_mul_right _ (by omega)
      have whole : (n + 1) * 10 ^ (d :: ds).length = (10 * n + 10) * 10 ^ ds.length := by
        rw [List.length_cons, Nat.pow_succ', ← Nat.mul_assoc]
        congr 1
        omega
      rw [List.foldl_cons, whole]
      omega
  have here := walk 0
  rwa [Nat.zero_add, Nat.one_mul] at here

theorem number_short {t : Text} (reads : number t = some v) :
    (∃ d, v = .float d) ∨ ∃ n : Int, v = .int n ∧ n.natAbs < 10 ^ intLimit := by
  unfold number at reads
  simp only [List.span_eq_takeWhile_dropWhile] at reads
  generalize taken : List.takeWhile isDigit (if t.head? = some 45 then t.tail else t) = whole at reads
  have digits : ∀ d ∈ whole, isDigit d = true := fun d member => List.mem_takeWhile_imp (taken ▸ member)
  have short : ¬whole.length > intLimit → ∀ sign : Int, sign.natAbs = 1 →
      (sign * digitsValue whole).natAbs < 10 ^ intLimit := by
    intro fits sign unit
    rw [Int.natAbs_mul, unit, Nat.one_mul]
    exact lt_of_lt_of_le (digitsValue_lt digits) (Nat.pow_le_pow_right (by decide) (Nat.not_lt.mp fits))
  have unit : (if t.head? = some 45 then (-1 : Int) else 1).natAbs = 1 := by split <;> rfl
  generalize (if t.head? = some 45 then (-1 : Int) else 1) = sign at reads unit
  repeat' split at reads
  all_goals try simp only [reduceCtorEq] at reads
  all_goals obtain rfl := Option.some.inj reads
  all_goals first | exact Or.inl ⟨_, rfl⟩ | exact Or.inr ⟨_, rfl, short (by assumption) sign unit⟩

theorem number_writable {t : Text} {room : Nat} (reads : number t = some v) : writable room v = true := by
  rcases number_short reads with ⟨d, rfl⟩ | ⟨n, rfl, short⟩
  · rfl
  · simpa only [writable, decide_eq_true_eq] using short

theorem named_writable {t : Text} {room : Nat} (reads : named t = some v) : writable room v = true := by
  unfold named at reads
  repeat' split at reads
  all_goals first | exact number_writable reads | (cases reads; rfl)

/-- What a container that is being read holds can be written within `room`. -/
def Frame.fits (room : Nat) : Frame → Prop
  | .arr items => ∀ v ∈ items, writable room v = true
  | .obj fields _ => ∀ u ∈ fields, writable room u.2 = true

/-- The containers around what is read next. -/
def Fits (budget : Nat) : List Frame → Prop
  | [] => True
  | frame :: frames => frames.length < budget ∧ Frame.fits (budget - (frames.length + 1)) frame ∧ Fits budget frames

/-- All that has been read can be written. -/
def AllFits (budget : Nat) (s : Scan) : Prop :=
  Fits budget s.frames ∧ ∀ v, s.mode = .done v → writable budget v = true

theorem give_fits (fits : Fits budget frames) (v_fits : writable (budget - frames.length) v = true) :
    AllFits budget (give v frames) := by
  match frames, fits with
  | [], _ =>
    refine ⟨trivial, ?_⟩
    rintro w same
    cases same
    exact v_fits
  | .arr items :: frames, ⟨room, inside, outside⟩ =>
    refine ⟨⟨room, ?_, outside⟩, nofun⟩
    intro w member
    rcases List.mem_cons.mp member with rfl | old
    · exact v_fits
    · exact inside w old
  | .obj fields k :: frames, ⟨room, inside, outside⟩ =>
    refine ⟨⟨room, ?_, outside⟩, nofun⟩
    intro u member
    rcases Dict.mem_set member with rfl | old
    · exact v_fits
    · exact inside u old

theorem close_fits {c : Nat} (fits : Fits budget s.frames) (closes : close s c = .ok s') : AllFits budget s' := by
  obtain ⟨frames, mode⟩ := s
  match frames, fits with
  | [], _ => cases closes
  | .arr items :: frames, ⟨room, inside, outside⟩ =>
    simp only [close] at closes
    split at closes
    · cases closes
      refine give_fits outside ?_
      rw [writable, Nat.sub_sub, writableItems_iff.mpr fun v member => inside v (List.mem_reverse.mp member)]
      simpa using Nat.sub_pos_of_lt room
    · cases closes
  | .obj fields k :: frames, ⟨room, inside, outside⟩ =>
    simp only [close] at closes
    split at closes
    · cases closes
      refine give_fits outside ?_
      rw [writable, Nat.sub_sub, writableFields_iff.mpr inside]
      simpa using Nat.sub_pos_of_lt room
    · cases closes

theorem start_fits {c : Nat} (fits : Fits budget s.frames) (starts : start budget s c = .ok s') :
    AllFits budget s' := by
  unfold start at starts
  split at starts
  · cases starts; exact ⟨fits, nofun⟩
  split at starts
  · split at starts
    · cases starts
    · rename_i room
      cases starts
      exact ⟨⟨Nat.not_le.mp room, fun _ member => absurd member List.not_mem_nil, fits⟩, nofun⟩
  split at starts
  · split at starts
    · cases starts
    · rename_i room
      cases starts
      exact ⟨⟨Nat.not_le.mp room, fun _ member => absurd member List.not_mem_nil, fits⟩, nofun⟩
  split at starts
  · cases starts; exact ⟨fits, nofun⟩
  · cases starts

theorem plain_fits {c : Nat} (fits : AllFits budget s) (steps : plain budget s c = .ok s') : AllFits budget s' := by
  obtain ⟨frames, mode⟩ := s
  have inside := fits.1
  cases mode with
  | value =>
    simp only [plain] at steps
    split at steps
    · cases steps; exact fits
    · exact start_fits inside steps
  | item =>
    simp only [plain] at steps
    repeat' split at steps
    · cases steps; exact fits
    · exact close_fits inside steps
    · exact start_fits inside steps
  | member =>
    simp only [plain] at steps
    repeat' split at steps
    · cases steps; exact fits
    · exact close_fits inside steps
    · cases steps; exact ⟨inside, nofun⟩
    · cases steps
  | key =>
    simp only [plain] at steps
    repeat' split at steps
    · cases steps; exact fits
    · cases steps; exact ⟨inside, nofun⟩
    · cases steps
  | colon k =>
    simp only [plain] at steps
    repeat' split at steps
    · cases steps; exact fits
    · rename_i frame
      cases steps
      exact ⟨inside, nofun⟩
    · cases steps
    · cases steps
  | after =>
    simp only [plain] at steps
    repeat' split at steps
    · cases steps; exact fits
    · cases steps; exact ⟨inside, nofun⟩
    · cases steps; exact ⟨inside, nofun⟩
    · cases steps
    · exact close_fits inside steps
  | done v =>
    simp only [plain] at steps
    split at steps
    · cases steps; exact fits
    · cases steps
  | lexeme read => cases steps
  | string isKey read =>
    simp only [plain] at steps
    repeat' split at steps
    · cases steps; exact ⟨inside, nofun⟩
    · cases steps; exact give_fits inside rfl
    · cases steps; exact ⟨inside, nofun⟩
    · cases steps
    · cases steps; exact ⟨inside, nofun⟩
  | escape isKey read =>
    simp only [plain] at steps
    repeat' split at steps
    · cases steps; exact ⟨inside, nofun⟩
    · cases steps; exact ⟨inside, nofun⟩
    · cases steps
  | hex isKey read left code =>
    simp only [plain] at steps
    repeat' split at steps
    · cases steps; exact ⟨inside, nofun⟩
    · cases steps; exact ⟨inside, nofun⟩
    · cases steps

theorem step_fits {c : Nat} (fits : AllFits budget s) (steps : step budget s c = .ok s') : AllFits budget s' := by
  unfold step at steps
  split at steps
  · split at steps
    · cases steps; exact ⟨fits.1, nofun⟩
    · split at steps
      · rename_i v names
        exact plain_fits (give_fits fits.1 (named_writable names)) steps
      · cases steps
  · exact plain_fits fits steps

theorem scan_fits {t : Text} (fits : AllFits budget s) (scans : t.foldlM (step budget) s = .ok s') :
    AllFits budget s' := by
  induction t generalizing s with
  | nil => cases scans; exact fits
  | cons c t ih =>
    rw [List.foldlM_cons] at scans
    cases first : step budget s c with
    | error e => rw [first] at scans; cases scans
    | ok middle =>
      rw [first] at scans
      exact ih (step_fits fits first) scans

end Scan

/-- What `json.loads` returns, `json.dumps` can write with the same room. -/
theorem loads_writable {budget : Nat} {t : Text} {v : Json} (reads : loads budget t = .ok v) :
    writable budget v = true := by
  unfold loads at reads
  split at reads
  · cases reads
  · cases scans : t.foldlM (Scan.step budget) {} with
    | error e => rw [scans] at reads; cases reads
    | ok s =>
      rw [scans] at reads
      have start : Scan.AllFits budget {} := ⟨trivial, nofun⟩
      have fits := Scan.scan_fits start scans
      obtain ⟨frames, mode⟩ := s
      change Scan.finish ⟨frames, mode⟩ = .ok v at reads
      unfold Scan.finish at reads
      split at reads
      · rename_i w _ here
        cases reads
        exact fits.2 v here
      · rename_i read _ _
        cases names : Scan.named read.reverse with
        | none => rw [names] at reads; cases reads
        | some w =>
          rw [names] at reads
          cases reads
          exact Scan.named_writable names
      · cases reads

end Json
