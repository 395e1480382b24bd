import Mathlib.Data.List.TakeWhile
import Mathlib.Logic.Function.Basic

/-!
# Texts in arrays

A text ends at a mark: what an array holds as text is what it reads up to the
first mark.  Writing a text character by character from an index on, with or
without the mark behind it, and what is read back afterwards.
-/

namespace SimpleOS.Library.ArrayText

variable {α : Type}

/-- The array with a text written into it from an index on. -/
def place (array : Nat → α) (index : Nat) (text : List α) (spot : Nat) : α :=
  if index ≤ spot then (text[spot - index]?).getD (array spot) else array spot

section Place

variable (array : Nat → α) (index : Nat) (text : List α)

@[simp] theorem place_nil : place array index [] = array := by
  funext spot
  simp [place]

/-- Writing the first character and then the others writes the text. -/
theorem place_cons (char : α) (rest : List α) :
    place (Function.update array index char) (index + 1) rest =
      place array index (char :: rest) := by
  funext spot
  rcases Nat.lt_trichotomy spot index with below | same | above
  · rw [place, place, if_neg (by omega), if_neg (by omega), Function.update_of_ne (by omega)]
  · subst same
    rw [place, place, if_neg (by omega), if_pos (Nat.le_refl _), Function.update_self, Nat.sub_self]
    rfl
  · rw [place, place, if_pos (by omega), if_pos (by omega), Function.update_of_ne (by omega),
      show spot - index = spot - (index + 1) + 1 by omega, List.getElem?_cons_succ]

variable {array index text}

theorem place_behind {spot : Nat} (behind : index + text.length ≤ spot) :
    place array index text spot = array spot := by
  rw [place, if_pos (by omega), List.getElem?_eq_none (by omega)]
  rfl

theorem place_inside {offset : Nat} {char : α} (inside : text[offset]? = some char) :
    place array index text (index + offset) = char := by
  rw [place, if_pos (Nat.le_add_right _ _), Nat.add_sub_cancel_left, inside]
  rfl

end Place

section Marked

variable [DecidableEq α] (mark : α)

/-- A text up to its mark. -/
def upTo (text : List α) : List α := text.takeWhile (· ≠ mark)

/-- The text in the first places of an array. -/
def textIn (array : Nat → α) (size : Nat) : List α := upTo mark ((List.range size).map array)

/-- There is a mark in the first places of an array. -/
def Marked (array : Nat → α) (size : Nat) : Prop := ∃ spot < size, array spot = mark

variable {mark} {array : Nat → α} {size : Nat} {text : List α}

@[simp] theorem upTo_nil : upTo mark ([] : List α) = [] := rfl

@[simp] theorem upTo_mark (rest : List α) : upTo mark (mark :: rest) = [] := by
  simp [upTo]

theorem upTo_cons {char : α} (other : char ≠ mark) (rest : List α) :
    upTo mark (char :: rest) = char :: upTo mark rest :=
  List.takeWhile_cons_of_pos (decide_eq_true other)

theorem not_mem_upTo (text : List α) : mark ∉ upTo mark text := by
  intro member
  have other := List.mem_takeWhile_imp member
  simp at other

theorem upTo_length_le (text : List α) : (upTo mark text).length ≤ text.length :=
  List.IsPrefix.length_le (List.takeWhile_prefix _)

theorem upTo_eq_self (unmarked : mark ∉ text) : upTo mark text = text := by
  rw [upTo, List.takeWhile_eq_self_iff]
  intro char member
  have other : char ≠ mark := fun same => unmarked (same ▸ member)
  exact decide_eq_true other

/-- Texts are read up to their first mark. -/
theorem upTo_append_mark (unmarked : mark ∉ text) (rest : List α) :
    upTo mark (text ++ mark :: rest) = text := by
  rw [upTo, List.takeWhile_append_of_pos]
  · simp
  · intro char member
    exact decide_eq_true fun same => unmarked (same ▸ member)

/-- An array holds a text when it has its characters and a mark behind them. -/
theorem textIn_eq (unmarked : mark ∉ text) (room : text.length < size)
    (chars : ∀ spot, spot < text.length → some (array spot) = text[spot]?)
    (ends : array text.length = mark) : textIn mark array size = text := by
  have front : (List.range text.length).map array = text := by
    refine List.ext_getElem? fun spot => ?_
    by_cases inside : spot < text.length
    · rw [List.getElem?_map, List.getElem?_range inside, ← chars spot inside]
      rfl
    · rw [List.getElem?_eq_none (by simpa using inside),
        List.getElem?_eq_none (Nat.le_of_not_lt inside)]
  have split : size = text.length + (1 + (size - text.length - 1)) := by omega
  rw [textIn, split, List.range_add, List.map_append, front, List.range_add, List.map_append,
    List.map_append]
  have stop : ((List.range 1).map (text.length + ·)).map array = [mark] := by
    simp [ends]
  rw [stop]
  exact upTo_append_mark unmarked _

theorem textIn_place (unmarked : mark ∉ text) (room : text.length < size)
    (ends : array text.length = mark) : textIn mark (place array 0 text) size = text := by
  refine textIn_eq unmarked room (fun spot inside => ?_) ?_
  · cases char : text[spot]? with
    | none => exact absurd inside (Nat.not_lt.mpr (List.getElem?_eq_none_iff.mp char))
    | some here =>
        have written : place array 0 text (0 + spot) = here := place_inside char
        rw [Nat.zero_add] at written
        rw [written]
  · rw [place_behind (by omega), ends]

/-- Reading on only adds characters. -/
theorem mem_textIn_of_le {char : α} {shorter : Nat} (less : shorter ≤ size)
    (member : char ∈ textIn mark array shorter) : char ∈ textIn mark array size := by
  obtain ⟨more, rfl⟩ := Nat.exists_eq_add_of_le less
  rw [textIn, upTo, List.range_add, List.map_append, List.takeWhile_append]
  split
  · exact List.mem_append_left _ ((List.takeWhile_prefix _).mem member)
  · exact member

/-- Behind a mark nothing is read. -/
theorem upTo_append_of_mem (marked : mark ∈ text) (rest : List α) :
    upTo mark (text ++ rest) = upTo mark text := by
  induction text with
  | nil => cases marked
  | cons char later ih =>
      by_cases here : char = mark
      · simp [upTo, here]
      · have more : mark ∈ later :=
          (List.mem_cons.mp marked).resolve_left fun same => here same.symm
        have tail := ih more
        simp only [upTo] at tail ⊢
        rw [List.cons_append, List.takeWhile_cons_of_pos (by simpa using here),
          List.takeWhile_cons_of_pos (by simpa using here), tail]

omit [DecidableEq α] in
theorem mem_map_range_iff : mark ∈ (List.range size).map array ↔ Marked mark array size := by
  simp [Marked]

/-- The last place of a marked array holds a mark or stands behind one. -/
theorem textIn_succ (marked : Marked mark array (size + 1)) :
    textIn mark array (size + 1) = textIn mark array size := by
  rw [textIn, textIn, List.range_succ, List.map_append]
  by_cases earlier : mark ∈ (List.range size).map array
  · exact upTo_append_of_mem earlier _
  · obtain ⟨spot, bound, here⟩ := marked
    have last : spot = size := by
      have outside : ¬ spot < size := fun inside =>
        earlier (mem_map_range_iff.mpr ⟨spot, inside, here⟩)
      omega
    subst last
    rw [List.map_singleton, here, upTo_append_mark earlier []]
    exact (upTo_eq_self earlier).symm

end Marked

end SimpleOS.Library.ArrayText
