import OpenAvc.Data.Hex
import OpenAvc.Data.Rounding

/-! Infrared codes as Pronto hex, with the carrier frequency on the grid of the reference oscillator. -/

namespace OpenAvc.Ir

open Double (roundEven)

/-- `PRONTO_CLOCK_US` -/
def prontoClockUs : ℚ := 241246 / 1000000

/-- `IRCode` -/
structure IRCode where
  frequency : Nat
  bursts : List Nat
  repeatOffset : Nat := 0
  deriving DecidableEq

/-- `pronto_word_to_frequency`: `none` where it raises. -/
def prontoWordToFrequency (word : Nat) : Option Nat :=
  if word = 0 then none else some (roundEven (1000000 / (word * prontoClockUs))).toNat

/-- `frequency_to_pronto_word` -/
def frequencyToProntoWord (frequency : Nat) : Option Nat :=
  if frequency = 0 then none else some (roundEven (1000000 / (frequency * prontoClockUs))).toNat

variable (decimal : Nat → Option (Fin 10))

/-- The numbers that a text's tokens are. -/
def prontoWords (t : Text) : Option (List Int) :=
  (Hex.split t).mapM (Hex.pyInt decimal)

/-- `parse_pronto` -/
def parsePronto (t : Text) : Option IRCode := do
  let words ← prontoWords decimal t
  if words.any fun w => w < 0 ∨ w > 0xFFFF then none
  else match words with
    | first :: frequency :: once :: repeated :: bursts =>
      if first ≠ 0 then none
      else if (bursts.length : Int) ≠ 2 * (once + repeated) then none
      else do
        let frequency ← prontoWordToFrequency frequency.toNat
        return ⟨frequency, bursts.map Int.toNat, 2 * once.toNat⟩
    | _ => none

/-- `build_pronto` -/
def buildPronto (code : IRCode) : Option Text :=
  if code.bursts.length % 2 ≠ 0 then none
  else if code.repeatOffset % 2 ≠ 0 ∨ code.repeatOffset > code.bursts.length then none
  else do
    let word ← frequencyToProntoWord code.frequency
    return List.intercalate [32]
      ((0 :: word :: code.repeatOffset / 2 :: (code.bursts.length - code.repeatOffset) / 2 :: code.bursts).map Hex.word)

/-- `normalize_pronto` -/
def normalizePronto (t : Text) : Option Text := do
  buildPronto (← parsePronto decimal t)

variable {decimal}

/-- The sixteen-bit words of a text in the learned format. -/
structure Learned (decimal : Nat → Option (Fin 10)) (t : Text) (word once repeated : Nat) (bursts : List Nat) : Prop where
  words : prontoWords decimal t = some ((0 :: word :: once :: repeated :: bursts).map Int.ofNat)
  small : ∀ n ∈ word :: once :: repeated :: bursts, n ≤ 0xFFFF
  counted : bursts.length = 2 * (once + repeated)

theorem Learned.parse {t : Text} {word once repeated frequency : Nat} {bursts : List Nat}
    (learned : Learned decimal t word once repeated bursts) (frequent : prontoWordToFrequency word = some frequency) :
    parsePronto decimal t = some ⟨frequency, bursts, 2 * once⟩ := by
  have inside : ¬((0 :: word :: once :: repeated :: bursts).map Int.ofNat).any (fun w => w < 0 ∨ w > 0xFFFF) := by
    intro some'
    obtain ⟨w, member, out⟩ := List.any_eq_true.mp some'
    obtain ⟨n, within, rfl⟩ := List.mem_map.mp member
    have out : (n : Int) < 0 ∨ (n : Int) > 0xFFFF := of_decide_eq_true out
    rcases List.mem_cons.mp within with rfl | within
    · omega
    · have bound := learned.small n within
      omega
  have counted : ¬(((bursts.map Int.ofNat).length : Int) ≠ 2 * ((once : Int) + repeated)) := by
    rw [List.length_map, learned.counted]
    push_cast
    omega
  have same : (bursts.map Int.ofNat).map Int.toNat = bursts := by
    rw [List.map_map]
    conv_rhs => rw [← List.map_id bursts]
    exact List.map_congr_left fun n _ => Int.toNat_natCast n
  unfold parsePronto
  rw [learned.words]
  simp only [Option.bind_eq_bind, Option.bind_some]
  rw [if_neg inside]
  show (if Int.ofNat 0 ≠ 0 then none else if _ then none else (prontoWordToFrequency word).bind _) = _
  have zero : ¬Int.ofNat 0 ≠ 0 := not_not.mpr rfl
  have counted' : ¬((bursts.map Int.ofNat).length : Int) ≠ 2 * (Int.ofNat once + Int.ofNat repeated) := counted
  rw [if_neg zero, if_neg counted', frequent, Option.bind_some, same]
  rfl

/-- A text that is taken is in the learned format. -/
theorem parsePronto_eq_some {t : Text} {code : IRCode} (parsed : parsePronto decimal t = some code) :
    ∃ word once repeated, Learned decimal t word once repeated code.bursts ∧
      prontoWordToFrequency word = some code.frequency ∧ code.repeatOffset = 2 * once := by
  unfold parsePronto at parsed
  obtain ⟨words, read, parsed⟩ := Option.bind_eq_some_iff.mp parsed
  split at parsed
  · cases parsed
  · rename_i inside
    have range : ∀ w ∈ words, 0 ≤ w ∧ w ≤ 0xFFFF := by
      intro w member
      have out := mt (fun out => List.any_eq_true.mpr ⟨w, member, decide_eq_true out⟩) inside
      omega
    split at parsed
    · rename_i first frequency once repeated bursts
      split at parsed
      · cases parsed
      · rename_i zero
        split at parsed
        · cases parsed
        · rename_i counted
          obtain ⟨f, frequent, same⟩ := Option.bind_eq_some_iff.mp parsed
          obtain rfl := Option.some.inj same
          have natural : ∀ w ∈ first :: frequency :: once :: repeated :: bursts, ((w.toNat : Nat) : Int) = w := fun w member =>
            Int.toNat_of_nonneg (range w member).1
          refine ⟨frequency.toNat, once.toNat, repeated.toNat, ⟨?_, ?_, ?_⟩, frequent, rfl⟩
          · have zero' : first = 0 := by omega
            have back : ((first.toNat :: frequency.toNat :: once.toNat :: repeated.toNat :: bursts.map Int.toNat).map Int.ofNat) =
                first :: frequency :: once :: repeated :: bursts := by
              have whole : (first :: frequency :: once :: repeated :: bursts).map (Int.ofNat ∘ Int.toNat) =
                  first :: frequency :: once :: repeated :: bursts := by
                conv_rhs => rw [← List.map_id (first :: frequency :: once :: repeated :: bursts)]
                exact List.map_congr_left natural
              rw [← whole]
              simp only [List.map_cons, List.map_map, Function.comp_apply, Int.ofNat_eq_natCast]
            rw [read, ← back, zero']
            rfl
          · intro n member
            have member' : n ∈ (frequency :: once :: repeated :: bursts).map Int.toNat := member
            obtain ⟨w, inside', rfl⟩ := List.mem_map.mp member'
            have bounds := range w (List.mem_cons_of_mem first inside')
            omega
          · have a := (range once (by simp)).1
            have b := (range repeated (by simp)).1
            rw [List.length_map]
            omega
    · cases parsed

end OpenAvc.Ir
