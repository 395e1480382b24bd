import Mathlib.Data.List.TakeWhile
import Mathlib.Data.Nat.Digits.Defs

/-!
# Words and numerals in a text

The words of a text are its maximal runs of characters that are no separators:
the pieces between separators, without the empty ones.  A numeral is read digit
by digit; a machine word that accumulates the digits ends with the value modulo
its size.
-/

namespace SimpleOS.Library.Words

/-! ## Words -/

section Words

variable {α : Type} (separates : α → Bool)

/-- The maximal runs of characters that do not separate. -/
def words (text : List α) : List (List α) :=
  (text.splitOnP separates).filter fun piece => !piece.isEmpty

/-- The first run: what follows the leading separators, up to the next one. -/
def firstRun (text : List α) : List α :=
  (text.dropWhile separates).takeWhile fun char => !separates char

/-- The text behind the first run. -/
def afterRun (text : List α) : List α :=
  (text.dropWhile separates).dropWhile fun char => !separates char

@[simp] theorem words_nil : words separates [] = [] := rfl

/-- A leading separator belongs to no word. -/
theorem words_separator {char : α} (separator : separates char = true) (rest : List α) :
    words separates (char :: rest) = words separates rest := by
  rw [words, List.splitOnP_cons_eq_if_modifyHead, if_pos separator]
  rfl

theorem words_dropWhile (text : List α) :
    words separates (text.dropWhile separates) = words separates text := by
  induction text with
  | nil => rfl
  | cons char rest ih =>
      rw [List.dropWhile_cons]
      split
      · next separator => rw [ih, words_separator separates separator]
      · rfl

/-- A run that ends with the text or at a separator is the first word. -/
theorem words_run {run rest : List α} (nonempty : run ≠ [])
    (inside : ∀ char ∈ run, separates char = false)
    (ends : ∀ char, rest.head? = some char → separates char = true) :
    words separates (run ++ rest) = run :: words separates rest := by
  have kept (later : List (List α)) :
      (run :: later).filter (fun piece => !piece.isEmpty) =
        run :: later.filter fun piece => !piece.isEmpty :=
    List.filter_cons_of_pos (by simp [nonempty])
  cases rest with
  | nil =>
      rw [List.append_nil, words, List.splitOnP_eq_singleton inside]
      exact kept []
  | cons char rest =>
      have separator := ends char rfl
      rw [words_separator separates separator, words,
        List.splitOnP_append_cons_of_forall_mem inside char separator]
      exact kept _

theorem afterRun_ends (text : List α) (char : α)
    (head : (afterRun separates text).head? = some char) : separates char = true := by
  have stopped := List.head?_dropWhile_not (fun char => !separates char)
    (text.dropWhile separates)
  rw [afterRun] at head
  rw [head] at stopped
  simpa using stopped

/-- The words are the first run and the words behind it, unless there is no run. -/
theorem words_eq (text : List α) :
    words separates text =
      if firstRun separates text = [] then []
      else firstRun separates text :: words separates (afterRun separates text) := by
  have whole : firstRun separates text ++ afterRun separates text = text.dropWhile separates :=
    List.takeWhile_append_dropWhile
  split
  · next empty =>
    have nothing : text.dropWhile separates = [] := by
      have stopped := List.head?_dropWhile_not separates text
      cases dropped : text.dropWhile separates with
      | nil => rfl
      | cons char rest =>
          rw [dropped] at stopped
          rw [firstRun, dropped, List.takeWhile_cons] at empty
          simp_all
    rw [← words_dropWhile, nothing, words_nil]
  · next nonempty =>
    rw [← words_dropWhile, ← whole]
    refine words_run separates nonempty (fun char member => ?_) (afterRun_ends separates text)
    simpa using List.mem_takeWhile_imp member

/-- Joined, the words are the text without its separators. -/
theorem words_flatten (text : List α) :
    (words separates text).flatten = text.filter fun char => !separates char := by
  rw [words, List.flatten_filter_not_isEmpty]
  induction text with
  | nil => rfl
  | cons char rest ih =>
      rw [List.splitOnP_cons_eq_if_modifyHead]
      split
      · next separator =>
        rw [List.filter_cons_of_neg (by simp [separator]), List.flatten_cons, List.nil_append, ih]
      · next inside =>
        rw [List.filter_cons_of_pos (by simp [inside]), ← ih]
        cases pieces : rest.splitOnP separates with
        | nil => exact absurd pieces (List.splitOnP_ne_nil separates rest)
        | cons piece later => rfl

/-- The characters of a word are characters of the text. -/
theorem mem_of_mem_words {text word : List α} (member : word ∈ words separates text) {char : α}
    (inside : char ∈ word) : char ∈ text := by
  have joined : char ∈ (words separates text).flatten :=
    List.mem_flatten.mpr ⟨word, member, inside⟩
  rw [words_flatten] at joined
  exact (List.mem_filter.mp joined).1

end Words

/-! ## Numerals -/

section Numerals

/-- The value of a numeral, most significant digit first. -/
def value (base : Nat) (digits : List Nat) : Nat := Nat.ofDigits base digits.reverse

@[simp] theorem value_nil (base : Nat) : value base [] = 0 := rfl

theorem value_concat (base : Nat) (digits : List Nat) (digit : Nat) :
    value base (digits ++ [digit]) = value base digits * base + digit := by
  rw [value, List.reverse_append, List.reverse_singleton, List.singleton_append,
    Nat.ofDigits_cons, value]
  ring

/-- A machine word that accumulates digits holds the value modulo its size. -/
theorem accumulate_toNat {width : Nat} (base : Nat) (before digits : List Nat)
    (start : BitVec width) (begun : start = BitVec.ofNat width (value base before)) :
    digits.foldl (fun total digit => total * BitVec.ofNat width base + BitVec.ofNat width digit)
      start = BitVec.ofNat width (value base (before ++ digits)) := by
  induction digits generalizing before start with
  | nil => rw [List.append_nil]; exact begun
  | cons digit rest ih =>
      have next : before ++ digit :: rest = (before ++ [digit]) ++ rest := by simp
      rw [List.foldl_cons, next]
      refine ih (before ++ [digit]) _ ?_
      rw [begun, value_concat, BitVec.ofNat_add, BitVec.ofNat_mul]

end Numerals

end SimpleOS.Library.Words
