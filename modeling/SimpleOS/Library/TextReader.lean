import Mathlib.Data.List.Basic

/-!
# Reading texts

A reader takes a value off the front of a text.  It reads a value from a text
when it finds the value there and stops behind the text, whatever follows; such
readers can be put one after the other, and repeated to the end of a text.
-/

namespace SimpleOS.Library.TextReader

variable {α β γ : Type}

/-- A value and what is left of the text, or nothing. -/
abbrev Reader (α β : Type) := List α → Option (β × List α)

/-- The reader finds the value in the text and stops behind it. -/
def Reads (reader : Reader α β) (text : List α) (value : β) : Prop :=
  ∀ rest, reader (text ++ rest) = some (value, rest)

/-! ## Readers -/

/-- A value that takes no text. -/
def found (value : β) : Reader α β := fun text => some (value, text)

/-- One reader and then another one. -/
def andThen (first : Reader α β) (next : β → Reader α γ) : Reader α γ := fun text =>
  (first text).bind fun (value, rest) => next value rest

/-- A column of a fixed width. -/
def column (width : Nat) : Reader α (List α) := fun text =>
  if width ≤ text.length then some (text.take width, text.drop width) else none

section Fields

variable [DecidableEq α]

/-- A text up to a mark, and the mark. -/
def upToMark (mark : α) : Reader α (List α) := fun text =>
  if mark ∈ text then
    some (text.takeWhile (· ≠ mark), (text.dropWhile (· ≠ mark)).tail)
  else none

/-- The text begins with the text of an entry. -/
def begins (text : List α) (entry : List α × β) : Bool := entry.1.isPrefixOf text

/-- The value of the first entry that the text begins with. -/
def choice (entries : List (List α × β)) : Reader α β := fun text =>
  (entries.find? (begins text)).map fun entry => (entry.2, text.drop entry.1.length)

/-- A fixed text. -/
def expect (fixed : List α) : Reader α Unit := choice [(fixed, ())]

end Fields

/-- All values up to the end of the text, as many as the first argument at most. -/
def readUpTo (reader : Reader α β) : Nat → List α → Option (List β)
  | _, [] => some []
  | 0, _ :: _ => none
  | count + 1, char :: text =>
      (reader (char :: text)).bind fun (value, rest) =>
        (readUpTo reader count rest).map (value :: ·)

/-- All values of a text, when each of them takes a character at least. -/
def readAll (reader : Reader α β) (text : List α) : Option (List β) :=
  readUpTo reader text.length text

/-! ## What they read -/

theorem found_reads (value : β) : Reads (found value : Reader α β) [] value := fun _ => rfl

theorem Reads.andThen {first : Reader α β} {next : β → Reader α γ} {front back : List α}
    {value : β} {result : γ} (reads : Reads first front value)
    (then_reads : Reads (next value) back result) :
    Reads (andThen first next) (front ++ back) result := by
  intro rest
  rw [TextReader.andThen, List.append_assoc, reads (back ++ rest)]
  exact then_reads rest

theorem column_reads (text : List α) : Reads (column text.length) text text := by
  intro rest
  have room : text.length ≤ (text ++ rest).length := by
    rw [List.length_append]
    exact Nat.le_add_right _ _
  rw [column, if_pos room, List.take_left, List.drop_left]

section Fields

variable [DecidableEq α]

theorem upToMark_reads {mark : α} {text : List α} (unmarked : mark ∉ text) :
    Reads (upToMark mark) (text ++ [mark]) text := by
  intro rest
  have before : ∀ char ∈ text, decide (char ≠ mark) = true := fun char member =>
    decide_eq_true fun same => unmarked (same ▸ member)
  have marked : mark ∈ text ++ ([mark] ++ rest) :=
    List.mem_append_right _ (List.mem_append_left _ List.mem_cons_self)
  rw [upToMark, List.append_assoc, if_pos marked,
    List.takeWhile_append_of_pos before, List.dropWhile_append_of_pos before]
  simp

/-- No entry begins like another one: the choice reads each of them. -/
theorem choice_reads {entries : List (List α × β)}
    (apart : entries.Pairwise fun first second =>
      ¬ first.1 <+: second.1 ∧ ¬ second.1 <+: first.1)
    {entry : List α × β} (member : entry ∈ entries) :
    Reads (choice entries) entry.1 entry.2 := by
  intro rest
  have own : begins (entry.1 ++ rest) entry = true :=
    List.isPrefixOf_iff_prefix.mpr (List.prefix_append _ _)
  have chosen : entries.find? (begins (entry.1 ++ rest)) = some entry := by
    induction entries with
    | nil => cases member
    | cons first others ih =>
        obtain ⟨fromFirst, later⟩ := List.pairwise_cons.mp apart
        rcases List.mem_cons.mp member with rfl | inside
        · exact List.find?_cons_of_pos own
        · have different : ¬ begins (entry.1 ++ rest) first = true := by
            intro first_begins
            have front := List.isPrefixOf_iff_prefix.mp first_begins
            rcases List.prefix_or_prefix_of_prefix front (List.prefix_append _ _) with one | other
            · exact (fromFirst entry inside).1 one
            · exact (fromFirst entry inside).2 other
          rw [List.find?_cons_of_neg different]
          exact ih later inside
  rw [choice, chosen, Option.map_some, List.drop_left]

theorem expect_reads (fixed : List α) : Reads (expect fixed) fixed () :=
  choice_reads (List.pairwise_singleton _ _) (List.mem_singleton.mpr rfl)

end Fields

section Rows

variable {ι : Type} {reader : Reader α β} {print : ι → List α} {value : ι → β}

theorem readUpTo_reads {items : List ι}
    (reads : ∀ item ∈ items, Reads reader (print item) (value item))
    (nonempty : ∀ item ∈ items, print item ≠ []) {count : Nat} (enough : items.length ≤ count) :
    readUpTo reader count (items.flatMap print) = some (items.map value) := by
  induction items generalizing count with
  | nil => cases count <;> rfl
  | cons item others ih =>
      cases count with
      | zero => cases enough
      | succ count =>
          have first := reads item List.mem_cons_self (others.flatMap print)
          have later := ih (fun other member => reads other (List.mem_cons_of_mem item member))
            (fun other member => nonempty other (List.mem_cons_of_mem item member))
            (Nat.le_of_succ_le_succ enough)
          have some : print item ++ others.flatMap print ≠ [] :=
            List.append_ne_nil_of_left_ne_nil (nonempty item List.mem_cons_self) _
          rw [List.flatMap_cons, List.map_cons]
          cases text : print item ++ others.flatMap print with
          | nil => exact absurd text some
          | cons char rest =>
              rw [readUpTo, ← text, first, Option.bind_some]
              change (readUpTo reader count (others.flatMap print)).map (value item :: ·) = _
              rw [later, Option.map_some]

theorem length_le_flatMap {items : List ι} (nonempty : ∀ item ∈ items, print item ≠ []) :
    items.length ≤ (items.flatMap print).length := by
  induction items with
  | nil => exact Nat.zero_le _
  | cons item others ih =>
      have first := List.length_pos_iff.mpr (nonempty item List.mem_cons_self)
      have later := ih fun other member => nonempty other (List.mem_cons_of_mem item member)
      rw [List.flatMap_cons, List.length_append, List.length_cons]
      omega

/-- What is printed of some items, one after the other, is read back. -/
theorem readAll_reads {items : List ι}
    (reads : ∀ item ∈ items, Reads reader (print item) (value item))
    (nonempty : ∀ item ∈ items, print item ≠ []) :
    readAll reader (items.flatMap print) = some (items.map value) :=
  readUpTo_reads reads nonempty (length_le_flatMap nonempty)

end Rows

end SimpleOS.Library.TextReader
