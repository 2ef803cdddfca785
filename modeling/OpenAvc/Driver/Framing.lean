import OpenAvc.Data.Framer

/-! Messages that a delimiter ends, cut out of a stream of bytes. -/

namespace Framing

variable {α : Type*} [DecidableEq α]

/-- What stands before the first delimiter, and what after it. -/
def cut (delimiter : List α) : List α → Option (List α × List α)
  | [] => none
  | a :: l =>
    if delimiter <+: a :: l then some ([], (a :: l).drop delimiter.length)
    else (cut delimiter l).map fun parts => (a :: parts.1, parts.2)

/-- The messages of a buffer without their delimiters, empty ones left out, and what is
left over. Every round takes off a delimiter at least. -/
def frames (delimiter : List α) : Nat → List α → List (List α) × List α
  | 0, buffer => ([], buffer)
  | fuel + 1, buffer =>
    match cut delimiter buffer with
    | none => ([], buffer)
    | some (msg, rest) =>
      let (messages, left) := frames delimiter fuel rest
      (if msg = [] then messages else msg :: messages, left)

/-- `DelimiterFrameParser` -/
structure FrameParser (α : Type*) where
  delimiter : List α
  maxBuffer : Nat
  buffer : List α := []

/-- `feed`: the messages that are complete, and the parser afterwards. -/
def FrameParser.feed (p : FrameParser α) (data : List α) : List (List α) × FrameParser α :=
  let (messages, left) := frames p.delimiter (p.buffer ++ data).length (p.buffer ++ data)
  (messages, { p with buffer := if left.length > p.maxBuffer then [] else left })

/-- Fed with one chunk after another. -/
def FrameParser.feedAll (p : FrameParser α) : List (List α) → List (List α) × FrameParser α
  | [] => ([], p)
  | chunk :: chunks =>
    let (messages, p) := p.feed chunk
    let (more, p) := p.feedAll chunks
    (messages ++ more, p)

variable {delimiter : List α}

theorem cut_length {l msg rest : List α} (found : cut delimiter l = some (msg, rest)) :
    msg.length + delimiter.length + rest.length = l.length := by
  induction l generalizing msg rest with
  | nil => cases found
  | cons a l ih =>
    unfold cut at found
    split at found
    · rename_i first
      obtain ⟨rfl, rfl⟩ := Prod.mk.inj (Option.some.inj found)
      have le := first.length_le
      rw [List.length_drop, List.length_nil]
      omega
    · obtain ⟨⟨msg', rest'⟩, later, same⟩ := Option.map_eq_some_iff.mp found
      obtain ⟨rfl, rfl⟩ := Prod.mk.inj same
      have sum := ih later
      rw [List.length_cons, List.length_cons]
      dsimp only
      omega

/-- More bytes do not change where the first delimiter stands. -/
theorem cut_append {l msg rest : List α} (found : cut delimiter l = some (msg, rest)) (more : List α) :
    cut delimiter (l ++ more) = some (msg, rest ++ more) := by
  induction l generalizing msg rest with
  | nil => cases found
  | cons a l ih =>
    have fits := cut_length found
    unfold cut at found
    split at found
    · rename_i first
      obtain ⟨rfl, rfl⟩ := Prod.mk.inj (Option.some.inj found)
      have le := first.length_le
      have still : delimiter <+: a :: (l ++ more) := first.trans (List.prefix_append (a :: l) more)
      rw [List.cons_append, cut, if_pos still, ← List.cons_append, List.drop_append_of_le_length le]
    · rename_i later
      obtain ⟨⟨msg', rest'⟩, within, same⟩ := Option.map_eq_some_iff.mp found
      obtain ⟨rfl, rfl⟩ := Prod.mk.inj same
      have notFirst : ¬delimiter <+: a :: (l ++ more) := by
        intro first
        have short : delimiter.length ≤ (a :: l).length := by omega
        exact later (List.prefix_of_prefix_length_le first (List.prefix_append (a :: l) more) short)
      rw [List.cons_append, cut, if_neg notFirst, ih within]
      rfl

/-- The message, its delimiter, and what is after it. -/
theorem cut_parts {l msg rest : List α} (found : cut delimiter l = some (msg, rest)) : l = msg ++ delimiter ++ rest := by
  induction l generalizing msg rest with
  | nil => cases found
  | cons a l ih =>
    unfold cut at found
    split at found
    · rename_i first
      obtain ⟨rfl, rfl⟩ := Prod.mk.inj (Option.some.inj found)
      obtain ⟨after, parts⟩ := first
      rw [← parts, List.drop_left, List.nil_append]
    · obtain ⟨⟨msg', rest'⟩, later, same⟩ := Option.map_eq_some_iff.mp found
      obtain ⟨rfl, rfl⟩ := Prod.mk.inj same
      have parts := ih later
      dsimp only
      rw [List.cons_append, List.cons_append, ← parts]

/-- No delimiter, wherever one begins to read. -/
theorem cut_eq_none {l part : List α} (none' : cut delimiter l = none) (nonempty : delimiter ≠ []) (inside : part <:+: l) :
    cut delimiter part = none := by
  have absent (l : List α) (none' : cut delimiter l = none) : ¬delimiter <:+: l := by
    induction l with
    | nil =>
      intro within
      exact nonempty (List.infix_nil.mp within)
    | cons a l ih =>
      unfold cut at none'
      split at none'
      · cases none'
      · rename_i notFirst
        intro within
        rcases List.infix_cons_iff.mp within with first | later
        · exact notFirst first
        · exact ih (Option.map_eq_none_iff.mp none') later
  cases found : cut delimiter part with
  | none => rfl
  | some parts =>
    obtain ⟨msg, rest⟩ := parts
    have whole := cut_parts found
    exact absurd (List.IsInfix.trans ⟨msg, rest, whole.symm⟩ inside) (absent l none')

/-- A message with its delimiter is enough to find it. -/
theorem cut_prompt {l msg rest : List α} (found : cut delimiter l = some (msg, rest)) (nonempty : delimiter ≠ []) :
    cut delimiter (msg ++ delimiter) = some (msg, []) := by
  have parts := cut_parts found
  cases first : cut delimiter (msg ++ delimiter) with
  | none =>
    have within : delimiter <:+: msg ++ delimiter := (List.suffix_append msg delimiter).isInfix
    have nothing := cut_eq_none first nonempty within
    have whole : cut delimiter delimiter = some ([], []) := by
      cases delimiter with
      | nil => exact absurd rfl nonempty
      | cons a delimiter =>
        rw [cut, if_pos List.prefix_rfl]
        simp
    cases nothing.symm.trans whole
  | some pair =>
    obtain ⟨msg', rest'⟩ := pair
    have same := cut_append first rest
    rw [← parts, found] at same
    obtain ⟨rfl, same⟩ := Prod.mk.inj (Option.some.inj same)
    have size := cut_length first
    rw [List.length_append] at size
    have empty : rest' = [] := List.length_eq_zero_iff.mp (by omega)
    rw [empty]

variable (nonempty : delimiter ≠ [])
include nonempty

/-- Frames that a delimiter ends, with what becomes of the bytes before it. -/
@[reducible] def framer {μ : Type*} (message : List α → Option μ) : Framer α μ where
  cut l :=
    match cut delimiter l with
    | none => .more
    | some (msg, rest) => .frame (message msg) rest
  shorter := by
    intro l _ rest found
    have some := List.length_pos_iff.mpr nonempty
    split at found
    · cases found
    · rename_i msg rest' first
      obtain ⟨_, rfl⟩ := Framer.Cut.frame.inj found
      have size := cut_length first
      omega
  stable := by
    intro l _ rest more found
    split at found
    · cases found
    · rename_i msg rest' first
      obtain ⟨rfl, rfl⟩ := Framer.Cut.frame.inj found
      rw [cut_append first more]
  lost_stable := by
    intro l more found
    split at found <;> cases found
  prompt := by
    intro l _ rest found
    split at found
    · cases found
    · rename_i msg rest' first
      obtain ⟨rfl, rfl⟩ := Framer.Cut.frame.inj found
      exact ⟨msg ++ delimiter, cut_parts first, by rw [cut_prompt first nonempty]⟩

theorem framer_cut_none {μ : Type*} (message : List α → Option μ) {l : List α} (found : cut delimiter l = none) :
    (framer nonempty message).cut l = .more := by
  show (match cut delimiter l with | none => _ | some (msg, rest) => _) = _
  rw [found]

theorem framer_cut_some {μ : Type*} (message : List α → Option μ) {l msg rest : List α}
    (found : cut delimiter l = some (msg, rest)) : (framer nonempty message).cut l = .frame (message msg) rest := by
  show (match cut delimiter l with | none => _ | some (msg, rest) => _) = _
  rw [found]

/-- What no delimiter ends has none anywhere. -/
theorem framer_quiet {μ : Type*} (message : List α → Option μ) (limit : Nat) : (framer nonempty message).Quiet limit := by
  intro l waiting
  cases found : cut delimiter l with
  | none => exact Or.inr fun part inside => framer_cut_none nonempty message (cut_eq_none found nonempty inside)
  | some parts => cases (framer_cut_some nonempty message found).symm.trans waiting

/-- As many rounds as there are bytes are enough. -/
theorem frames_fuel {fuel : Nat} {l : List α} (enough : l.length ≤ fuel) (more : Nat) :
    frames delimiter (fuel + more) l = frames delimiter fuel l := by
  have some := List.length_pos_iff.mpr nonempty
  induction fuel generalizing l with
  | zero =>
    have empty : l = [] := List.length_eq_zero_iff.mp (by omega)
    subst empty
    cases more <;> rfl
  | succ fuel ih =>
    rw [show fuel + 1 + more = fuel + more + 1 from by omega, frames, frames]
    cases found : cut delimiter l with
    | none => rfl
    | some parts =>
      obtain ⟨msg, rest⟩ := parts
      have length := cut_length found
      dsimp only
      rw [ih (by omega)]

theorem frames_enough {fuel : Nat} {l : List α} (enough : l.length ≤ fuel) :
    frames delimiter fuel l = frames delimiter l.length l := by
  obtain ⟨more, rfl⟩ := Nat.exists_eq_add_of_le enough
  exact frames_fuel nonempty le_rfl more

/-- A stream may be framed in two parts: what the first leaves over goes before the second. -/
theorem frames_append (l more : List α) :
    frames delimiter (l ++ more).length (l ++ more) =
      ((frames delimiter l.length l).1 ++
          (frames delimiter ((frames delimiter l.length l).2 ++ more).length ((frames delimiter l.length l).2 ++ more)).1,
        (frames delimiter ((frames delimiter l.length l).2 ++ more).length ((frames delimiter l.length l).2 ++ more)).2) := by
  have some := List.length_pos_iff.mpr nonempty
  induction length : l.length using Nat.strongRecOn generalizing l with
  | _ n ih =>
    cases found : cut delimiter l with
    | none =>
      have whole : frames delimiter n l = ([], l) := by
        cases n with
        | zero => rfl
        | succ n => rw [frames, found]
      rw [whole, List.nil_append]
    | some parts =>
      obtain ⟨msg, rest⟩ := parts
      have sum := cut_length found
      obtain ⟨k, rfl⟩ : ∃ k, n = k + 1 := ⟨n - 1, by omega⟩
      have longer : (l ++ more).length = (k + more.length) + 1 := by
        rw [List.length_append]
        omega
      have tail := ih rest.length (by omega) rest rfl
      have first : frames delimiter k rest = frames delimiter rest.length rest := frames_enough nonempty (by omega)
      have second : frames delimiter (k + more.length) (rest ++ more) =
          frames delimiter (rest ++ more).length (rest ++ more) := by
        refine frames_enough nonempty ?_
        rw [List.length_append]
        omega
      rw [longer, frames, cut_append found, frames, found]
      dsimp only
      rw [second, tail, first]
      split
      · rfl
      · rw [List.cons_append]

omit nonempty

/-- The messages that delimiters have ended. -/
def framed (delimiter stream : List α) : List (List α) :=
  (frames delimiter stream.length stream).1

/-- What no delimiter has ended yet. -/
def leftover (delimiter stream : List α) : List α :=
  (frames delimiter stream.length stream).2

theorem frames_suffix (fuel : Nat) (l : List α) : (frames delimiter fuel l).2 <:+ l := by
  induction fuel generalizing l with
  | zero => exact List.suffix_rfl
  | succ fuel ih =>
    have step : ∀ l msg rest : List α, cut delimiter l = some (msg, rest) → rest <:+ l := by
      intro l
      induction l with
      | nil =>
        intro msg rest found
        cases found
      | cons a l within =>
        intro msg rest found
        unfold cut at found
        split at found
        · obtain ⟨rfl, rfl⟩ := Prod.mk.inj (Option.some.inj found)
          exact List.drop_suffix _ _
        · obtain ⟨⟨msg', rest'⟩, later, same⟩ := Option.map_eq_some_iff.mp found
          obtain ⟨rfl, rfl⟩ := Prod.mk.inj same
          exact (within _ _ later).trans (List.suffix_cons _ _)
    rw [frames]
    cases found : cut delimiter l with
    | none => exact List.suffix_rfl
    | some parts => exact (ih parts.2).trans (step l parts.1 parts.2 found)

theorem leftover_suffix (stream : List α) : leftover delimiter stream <:+ stream :=
  frames_suffix _ _

/-- No unfinished message of the stream is ever longer than the limit. -/
def Bounded (delimiter : List α) (limit : Nat) (stream : List α) : Prop :=
  ∀ part, part <+: stream → (leftover delimiter part).length ≤ limit

theorem Bounded.shorter {limit : Nat} {stream more : List α} (bounded : Bounded delimiter limit more)
    (first : stream <+: more) : Bounded delimiter limit stream :=
  fun part inside => bounded part (inside.trans first)

include nonempty

theorem framed_append (l more : List α) :
    framed delimiter (l ++ more) = framed delimiter l ++ framed delimiter (leftover delimiter l ++ more) := by
  rw [framed, frames_append nonempty]
  rfl

theorem leftover_append (l more : List α) :
    leftover delimiter (l ++ more) = leftover delimiter (leftover delimiter l ++ more) := by
  rw [leftover, frames_append nonempty]
  rfl

omit nonempty

/-- A parser that holds what a stream leaves over, fed with what comes next. -/
theorem FrameParser.feed_eq {p : FrameParser α} (nonempty : p.delimiter ≠ []) {seen data : List α}
    (holds : p.buffer = leftover p.delimiter seen) (bounded : (leftover p.delimiter (seen ++ data)).length ≤ p.maxBuffer) :
    p.feed data = (framed p.delimiter (leftover p.delimiter seen ++ data),
      { p with buffer := leftover p.delimiter (seen ++ data) }) := by
  rw [leftover_append nonempty] at bounded ⊢
  rw [leftover] at bounded
  rw [feed, holds]
  dsimp only
  rw [if_neg (by omega)]
  rfl

theorem FrameParser.feedAll_eq {p : FrameParser α} (nonempty : p.delimiter ≠ []) {seen : List α} (chunks : List (List α))
    (holds : p.buffer = leftover p.delimiter seen) (bounded : Bounded p.delimiter p.maxBuffer (seen ++ chunks.flatten)) :
    framed p.delimiter (seen ++ chunks.flatten) = framed p.delimiter seen ++ (p.feedAll chunks).1 := by
  induction chunks generalizing p seen with
  | nil => rw [List.flatten_nil, List.append_nil, feedAll, List.append_nil]
  | cons chunk chunks ih =>
    rw [List.flatten_cons, ← List.append_assoc] at bounded ⊢
    have fed := FrameParser.feed_eq nonempty holds (bounded (seen ++ chunk) (List.prefix_append _ _))
    have rest := @ih { p with buffer := leftover p.delimiter (seen ++ chunk) } nonempty (seen ++ chunk) rfl bounded
    rw [feedAll, fed]
    dsimp only at rest ⊢
    rw [rest, framed_append nonempty seen chunk, List.append_assoc]

end Framing
