import OpenAvc.Ir.Pronto

/-! Normalising a code twice does what normalising it once does, unless its frequency word is so large that the
frequency it stands for belongs to a word of more than sixteen bits. -/

namespace OpenAvc.Ir

open Double (roundEven)

/-- Words and frequencies are got from each other in the same way. -/
def reciprocal (n : Nat) : Nat :=
  (roundEven (1000000 / (n * prontoClockUs))).toNat

theorem prontoWordToFrequency_eq (n : Nat) : prontoWordToFrequency n = if n = 0 then none else some (reciprocal n) := rfl

theorem frequencyToProntoWord_eq (n : Nat) : frequencyToProntoWord n = if n = 0 then none else some (reciprocal n) := rfl

/-- What the reciprocal of a number is between, without fractions. -/
theorem reciprocal_bounds {n : Nat} (positive : 0 < n) :
    2 * 1000000000000 ≤ 241246 * (n * (2 * reciprocal n + 1)) ∧ 241246 * (n * (2 * reciprocal n)) ≤ 2 * 1000000000000 + 241246 * n := by
  have some' : (0 : ℚ) < n := by exact_mod_cast positive
  obtain ⟨low, high⟩ := Double.roundEven_near (1000000 / (n * prontoClockUs))
  have zero : (0 : ℤ) ≤ roundEven (1000000 / (n * prontoClockUs)) := by
    refine Double.le_roundEven ?_
    unfold prontoClockUs
    positivity
  have cast : ((reciprocal n : ℕ) : ℚ) = roundEven (1000000 / (n * prontoClockUs)) := by
    have back := Int.toNat_of_nonneg zero
    unfold reciprocal
    exact_mod_cast congrArg (Int.cast : ℤ → ℚ) back
  have whole : (1000000 : ℚ) / (n * prontoClockUs) * (241246 * n) = 1000000000000 := by
    unfold prontoClockUs
    field_simp
    norm_num
  rw [← cast] at low high
  have width : (0 : ℚ) < 241246 * n := by positivity
  have above := mul_le_mul_of_nonneg_right high width.le
  have below := mul_le_mul_of_nonneg_right low width.le
  rw [whole] at above below
  constructor
  · have wide : (2 * 1000000000000 : ℚ) ≤ 241246 * (n * (2 * reciprocal n + 1)) := by linarith
    exact_mod_cast wide
  · have wide : (241246 * (n * (2 * reciprocal n)) : ℚ) ≤ 2 * 1000000000000 + 241246 * n := by linarith
    exact_mod_cast wide

theorem reciprocal_eq {n m : Nat} (low : 2 * 1000000000000 < 241246 * (n * (2 * m + 1)))
    (high : 241246 * (n * (2 * m)) < 2 * 1000000000000 + 241246 * n) : reciprocal n = m := by
  have positive : 0 < n := by
    rcases Nat.eq_zero_or_pos n with rfl | positive
    · rw [Nat.zero_mul] at low
      omega
    · exact positive
  obtain ⟨below, above⟩ := reciprocal_bounds positive
  rcases Nat.lt_trichotomy (reciprocal n) m with less | same | more
  · have step : n * (2 * reciprocal n + 1) + n ≤ n * (2 * m) := by
      calc n * (2 * reciprocal n + 1) + n = n * (2 * (reciprocal n + 1)) := by ring
        _ ≤ n * (2 * m) := Nat.mul_le_mul_left n (by omega)
    omega
  · exact same
  · have step : n * (2 * m + 1) + n ≤ n * (2 * reciprocal n) := by
      calc n * (2 * m + 1) + n = n * (2 * (m + 1)) := by ring
        _ ≤ n * (2 * reciprocal n) := Nat.mul_le_mul_left n (by omega)
    omega

/-- A smaller number comes back from its reciprocal. -/
theorem reciprocal_back {n : Nat} (positive : 0 < n) (less : n < reciprocal n) : reciprocal (reciprocal n) = n := by
  obtain ⟨below, above⟩ := reciprocal_bounds positive
  have low : n * (2 * reciprocal n + 1) < reciprocal n * (2 * n + 1) := by
    calc n * (2 * reciprocal n + 1) = 2 * (n * reciprocal n) + n := by ring
      _ < 2 * (n * reciprocal n) + reciprocal n := by omega
      _ = reciprocal n * (2 * n + 1) := by ring
  have same : n * (2 * reciprocal n) = reciprocal n * (2 * n) := by ring
  exact reciprocal_eq (by omega) (by omega)

/-- After two steps there is nothing more to round. -/
theorem reciprocal_settles {w : Nat} (positive : 0 < w) (some' : 0 < reciprocal w) :
    reciprocal (reciprocal (reciprocal (reciprocal w))) = reciprocal (reciprocal w) := by
  rcases Nat.lt_or_ge w (reciprocal w) with less | atMost
  · rw [reciprocal_back positive less, reciprocal_back positive less]
  rcases Nat.lt_or_ge (reciprocal w) (reciprocal (reciprocal w)) with less | atMost'
  · rw [reciprocal_back some' less]
  -- both at the middle: only the number whose square the clock is, can be its own reciprocal
  have same : reciprocal w = w := by
    by_contra other
    have next : reciprocal w + 1 ≤ w := by omega
    have above := (reciprocal_bounds positive).2
    have below := (reciprocal_bounds some').1
    generalize reciprocal w = f at *
    have twice : f * (2 * reciprocal f + 1) ≤ f * (2 * f + 1) := Nat.mul_le_mul_left f (by omega)
    have square : f * (2 * f + 1) = 2 * (f * f) + f := by ring
    obtain ⟨k, rfl⟩ := Nat.exists_eq_add_of_le next
    have product : (f + 1 + k) * (2 * f) = 2 * (f * f) + 2 * f + k * (2 * f) := by ring
    have more : k ≤ k * (2 * f) := Nat.le_mul_of_pos_right k (by omega)
    rcases Nat.lt_or_ge f 2036 with small | large
    · have squares : f * f ≤ 2035 * 2035 := Nat.mul_le_mul (by omega) (by omega)
      omega
    · have squares : 2036 * 2036 ≤ f * f := Nat.mul_le_mul large large
      omega
  rw [same, same, same, same]

/-- A word of sixteen bits stands for some frequency. -/
theorem reciprocal_pos {n : Nat} (positive : 0 < n) (small : n ≤ 0xFFFF) : 0 < reciprocal n := by
  by_contra none'
  have below := (reciprocal_bounds positive).1
  rw [Nat.eq_zero_of_not_pos none'] at below
  omega

/-- A word up to 65277 stands for a frequency whose word has sixteen bits. -/
theorem reciprocal_small {w : Nat} (positive : 0 < w) (small : w ≤ 65277) :
    0 < reciprocal w ∧ 0 < reciprocal (reciprocal w) ∧ reciprocal (reciprocal w) ≤ 0xFFFF := by
  have below := (reciprocal_bounds positive).1
  have frequency : 64 ≤ reciprocal w := by
    by_contra less
    have bound : w * (2 * reciprocal w + 1) ≤ 65277 * 127 := Nat.mul_le_mul small (by omega)
    omega
  have above := (reciprocal_bounds (show 0 < reciprocal w by omega)).2
  have below' := (reciprocal_bounds (show 0 < reciprocal w by omega)).1
  have most : reciprocal w ≤ 4145147 := by
    have bound := (reciprocal_bounds positive).2
    have one : 2 * reciprocal w ≤ w * (2 * reciprocal w) := Nat.le_mul_of_pos_left _ positive
    have split : w * (2 * reciprocal w) = w * (2 * reciprocal w - 1) + w := by
      obtain ⟨k, whole⟩ : ∃ k, 2 * reciprocal w = k + 1 := ⟨2 * reciprocal w - 1, by omega⟩
      rw [whole, Nat.add_sub_cancel, Nat.mul_succ]
    have one' : 2 * reciprocal w - 1 ≤ w * (2 * reciprocal w - 1) := Nat.le_mul_of_pos_left _ positive
    omega
  refine ⟨by omega, ?_, ?_⟩
  · by_contra none'
    rw [Nat.eq_zero_of_not_pos none'] at below'
    omega
  · by_contra large
    have product : reciprocal w * (2 * 65536) ≤ reciprocal w * (2 * reciprocal (reciprocal w)) :=
      Nat.mul_le_mul_left _ (by omega)
    have least : 64 * (2 * 65536 - 1) ≤ reciprocal w * (2 * 65536 - 1) := Nat.mul_le_mul_right _ frequency
    omega

/-- A larger one stands for 63 Hz, whose word is 65796. -/
theorem reciprocal_large {w : Nat} (large : 65277 < w) (small : w ≤ 0xFFFF) :
    0 < reciprocal w ∧ 0xFFFF < reciprocal (reciprocal w) := by
  obtain ⟨below, above⟩ := reciprocal_bounds (show 0 < w by omega)
  have atLeast := reciprocal_pos (show 0 < w by omega) small
  have atMost : reciprocal w ≤ 63 := by
    by_contra more
    have product : w * (2 * 64) ≤ w * (2 * reciprocal w) := Nat.mul_le_mul_left w (by omega)
    omega
  have below' := (reciprocal_bounds atLeast).1
  refine ⟨atLeast, ?_⟩
  by_contra less
  have product : reciprocal w * (2 * reciprocal (reciprocal w) + 1) ≤ 63 * (2 * 65535 + 1) := Nat.mul_le_mul atMost (by omega)
  omega

variable {decimal : Nat → Option (Fin 10)} {t : Text}

/-- What is built of a code that was read, word by word. -/
theorem Learned.build {word once repeated : Nat} {bursts : List Nat} (learned : Learned decimal t word once repeated bursts)
    {frequency : Nat} (some' : 0 < frequency) :
    buildPronto ⟨frequency, bursts, 2 * once⟩ =
      some (List.intercalate [32] ((0 :: reciprocal frequency :: once :: repeated :: bursts).map Hex.word)) := by
  have counted := learned.counted
  unfold buildPronto
  rw [if_neg (by dsimp only; omega), if_neg (by dsimp only; omega)]
  dsimp only
  rw [frequencyToProntoWord_eq, if_neg (by omega), Nat.mul_div_cancel_left once (by decide),
    show (bursts.length - 2 * once) / 2 = repeated by omega]
  rfl

/-- What is built of sixteen-bit words is in the learned format again. -/
theorem learned_join {word once repeated : Nat} {bursts : List Nat} (small : ∀ n ∈ word :: once :: repeated :: bursts, n ≤ 0xFFFF)
    (counted : bursts.length = 2 * (once + repeated)) :
    Learned decimal (List.intercalate [32] ((0 :: word :: once :: repeated :: bursts).map Hex.word)) word once repeated bursts :=
  ⟨Hex.split_words decimal _, small, counted⟩

/-- What normalising gives is taken again, with the same bursts and the same offset, and normalising it changes
nothing. -/
def Settled (decimal : Nat → Option (Fin 10)) (t : Text) (code : IRCode) : Prop :=
  ∃ built, buildPronto code = some built ∧
    (∃ again, parsePronto decimal built = some again ∧ again.bursts = code.bursts ∧ again.repeatOffset = code.repeatOffset) ∧
    normalizePronto decimal t = some built ∧ normalizePronto decimal built = some built

/-- The frequency word of a text. -/
def frequencyWord (decimal : Nat → Option (Fin 10)) (t : Text) : Option Int :=
  (prontoWords decimal t).bind fun words => words[1]?

/-- A text that is taken settles at once, if and only if its frequency word is at most 65277. -/
theorem settled_iff {code : IRCode} (parsed : parsePronto decimal t = some code) :
    Settled decimal t code ↔ ∃ word, frequencyWord decimal t = some word ∧ word ≤ 65277 := by
  obtain ⟨word, once, repeated, learned, frequent, offset⟩ := parsePronto_eq_some parsed
  have reads : frequencyWord decimal t = some (word : Int) := by
    rw [frequencyWord, learned.words]
    rfl
  rw [prontoWordToFrequency_eq] at frequent
  split at frequent
  · cases frequent
  rename_i nonzero
  have positive : 0 < word := Nat.pos_of_ne_zero nonzero
  obtain ⟨frequency, bursts, repeatOffset⟩ := code
  obtain rfl : reciprocal word = frequency := Option.some.inj frequent
  obtain rfl : repeatOffset = 2 * once := offset
  dsimp only at learned
  have within := learned.small word List.mem_cons_self
  constructor
  · rintro ⟨built, builds, ⟨again, parses, _, _⟩, _, _⟩
    refine ⟨word, reads, ?_⟩
    by_contra large
    obtain ⟨some', wide⟩ := reciprocal_large (show 65277 < word by omega) within
    rw [learned.build some'] at builds
    obtain rfl := Option.some.inj builds
    obtain ⟨word', once', repeated', learned', _, _⟩ := parsePronto_eq_some parses
    have words := learned'.words
    rw [prontoWords, Hex.split_words] at words
    have same := (List.cons.inj (List.cons.inj (Option.some.inj words)).2).1
    have bound := learned'.small word' List.mem_cons_self
    have same' : reciprocal (reciprocal word) = word' := Int.ofNat.inj same
    omega
  · rintro ⟨word', reads', small⟩
    obtain rfl := Option.some.inj (reads.symm.trans reads')
    obtain ⟨some', some'', narrow⟩ := reciprocal_small positive (by omega)
    have built := learned.build some'
    have words : ∀ n ∈ reciprocal (reciprocal word) :: once :: repeated :: bursts, n ≤ 0xFFFF := by
      intro n member
      rcases List.mem_cons.mp member with rfl | member
      · exact narrow
      · exact learned.small n (List.mem_cons_of_mem _ member)
    have learned' := @learned_join decimal _ _ _ _ words learned.counted
    have frequent' : prontoWordToFrequency (reciprocal (reciprocal word)) = some (reciprocal (reciprocal (reciprocal word))) := by
      rw [prontoWordToFrequency_eq, if_neg (by omega)]
    have parses := learned'.parse frequent'
    refine ⟨_, built, ⟨_, parses, rfl, rfl⟩, ?_, ?_⟩
    · rw [normalizePronto, parsed]
      exact built
    · have third := reciprocal_pos some'' narrow
      rw [normalizePronto, parses]
      show buildPronto _ = _
      rw [learned'.build third, reciprocal_settles positive some']

/-- A code at 38 kHz with one pair sent once and one repeated. -/
theorem settled_iff_38kHz :
    Settled (fun _ => none) (text "0000 006d 0001 0001 0158 00AB 0015 0596") ⟨38029, [344, 171, 21, 1430], 2⟩ ↔
      ∃ word, frequencyWord (fun _ => none) (text "0000 006d 0001 0001 0158 00AB 0015 0596") = some word ∧ word ≤ 65277 :=
  settled_iff (by decide +kernel)

/-- The largest word: what is built of it is refused. -/
theorem largest_word_refused :
    parsePronto (fun _ => none) (text "0000 FFFF 0000 0001 0010 0020") = some ⟨63, [16, 32], 0⟩ ∧
      buildPronto ⟨63, [16, 32], 0⟩ = some (text "0000 10104 0000 0001 0010 0020") ∧
      parsePronto (fun _ => none) (text "0000 10104 0000 0001 0010 0020") = none := by
  decide +kernel

end OpenAvc.Ir
