import Mathlib.Data.List.Infix
import Mathlib.Tactic.Common

/-! Occurrences of a word in a list, found from the left and apart from each other.

A list is cut into tokens: a mark for each occurrence, and what stands between them. So a list is
its tokens with the word for each mark, and a replacement puts something else there.
-/

set_option autoImplicit false

namespace Foundation

section Filling

variable {α : Type}

/-- The tokens as a list, with something for each mark. -/
def filled (mark : List α) (found : List (Option α)) : List α := found.flatMap fun token => token.elim mark fun kept => [kept]

@[simp] theorem filled_nil (mark : List α) : filled mark [] = [] := rfl

@[simp] theorem filled_none (mark : List α) (found : List (Option α)) : filled mark (none :: found) = mark ++ filled mark found := rfl

@[simp] theorem filled_some (mark : List α) (kept : α) (found : List (Option α)) :
    filled mark (some kept :: found) = kept :: filled mark found := rfl

theorem length_filled (mark : List α) (found : List (Option α)) :
    (filled mark found).length = found.countP Option.isSome + found.countP Option.isNone * mark.length := by
  induction found with
  | nil => simp
  | cons token found ih =>
    cases token with
    | none =>
      rw [filled_none, List.length_append, ih]
      simp [Nat.succ_mul]
      omega
    | some kept =>
      rw [filled_some, List.length_cons, ih]
      simp
      omega

/-- Fillings of one length are told apart by one mark. -/
theorem filled_inj {mark other : List α} {found : List (Option α)} (sized : mark.length = other.length)
    (same : filled mark found = filled other found) (some_ : 0 < found.countP Option.isNone) : mark = other := by
  induction found with
  | nil => simp at some_
  | cons token found ih =>
    cases token with
    | none => exact (List.append_inj same sized).1
    | some kept => exact ih (List.cons.inj same).2 (by simpa using some_)

theorem mem_filled {mark : List α} {found : List (Option α)} {element : α} (member : element ∈ filled mark found) :
    element ∈ mark ∨ some element ∈ found := by
  obtain ⟨token, listed, inside⟩ := List.mem_flatMap.mp member
  cases token with
  | none => exact .inl inside
  | some kept =>
    rw [List.mem_singleton.mp inside]
    exact .inr listed

theorem filled_of_mem {mark : List α} {found : List (Option α)} {element : α} (member : some element ∈ found) :
    element ∈ filled mark found :=
  List.mem_flatMap.mpr ⟨some element, member, List.mem_singleton_self element⟩

theorem filled_map {β : Type} (read : α → β) (mark : List α) (found : List (Option α)) :
    filled (mark.map read) (found.map (Option.map read)) = (filled mark found).map read := by
  induction found with
  | nil => rfl
  | cons token found ih =>
    cases token with
    | none => rw [List.map_cons, Option.map_none, filled_none, filled_none, List.map_append, ih]
    | some kept => rw [List.map_cons, Option.map_some, filled_some, filled_some, List.map_cons, ih]

end Filling

/-! ## Spelling each element with others -/

section Spelling

variable {α β : Type}

/-- The tokens of the spelling, element by element. -/
@[grind =]
def spelledTokens (spell : α → List β) (found : List (Option α)) : List (Option β) :=
  found.flatMap fun token => token.elim [none] fun kept => (spell kept).map some

theorem count_spelledTokens (spell : α → List β) (found : List (Option α)) :
    (spelledTokens spell found).countP Option.isNone = found.countP Option.isNone := by
  induction found with
  | nil => rfl
  | cons token found ih =>
    rw [spelledTokens, List.flatMap_cons, List.countP_append, ← spelledTokens, ih]
    cases token with
    | none => simp [Nat.add_comm]
    | some kept => simp

/-- What is put for the marks is spelled, too. -/
theorem filled_spelledTokens (spell : α → List β) (mark : List α) (found : List (Option α)) :
    filled (mark.flatMap spell) (spelledTokens spell found) = (filled mark found).flatMap spell := by
  induction found with
  | nil => rfl
  | cons token found ih =>
    rw [spelledTokens, List.flatMap_cons, ← spelledTokens]
    cases token with
    | none =>
      rw [filled_none, List.flatMap_append, ← ih]
      rfl
    | some kept =>
      have plain : ∀ letters : List β, ∀ later, filled (mark.flatMap spell) (letters.map some ++ later) =
          letters ++ filled (mark.flatMap spell) later := by
        intro letters later
        induction letters with
        | nil => rfl
        | cons letter letters further => rw [List.map_cons, List.cons_append, filled_some, further, List.cons_append]
      rw [filled_some, List.flatMap_cons, ← ih]
      exact plain _ _

end Spelling

section Tokens

variable {α β : Type} [DecidableEq α] [DecidableEq β]

/-- The first elements may belong to an occurrence that has been found. -/
@[grind =]
def tokensFrom (word : List α) : Nat → List α → List (Option α)
  | _, [] => []
  | skip + 1, _ :: rest => tokensFrom word skip rest
  | 0, first :: rest =>
    if word <+: first :: rest then none :: tokensFrom word (word.length - 1) rest else some first :: tokensFrom word 0 rest

def tokens (word text : List α) : List (Option α) := tokensFrom word 0 text

def occurrences (word text : List α) : Nat := (tokens word text).countP Option.isNone

def replaceAll (word replacement text : List α) : List α := filled replacement (tokens word text)

variable {word text rest : List α} {first : α}

@[simp] theorem tokens_nil (word : List α) : tokens word [] = [] := rfl

theorem tokensFrom_eq (word : List α) (skip : Nat) (text : List α) : tokensFrom word skip text = tokens word (text.drop skip) := by
  induction text generalizing skip with
  | nil =>
    rw [List.drop_nil]
    cases skip <;> rfl
  | cons first rest ih =>
    cases skip with
    | zero => rfl
    | succ skip => rw [tokensFrom, ih, List.drop_succ_cons]

theorem tokens_append (some_ : word ≠ []) (rest : List α) : tokens word (word ++ rest) = none :: tokens word rest := by
  obtain ⟨first, tail, rfl⟩ := List.exists_cons_of_ne_nil some_
  rw [tokens, List.cons_append, tokensFrom, if_pos (by simp), tokensFrom_eq, List.length_cons, Nat.add_sub_cancel, List.drop_left]

theorem tokens_cons (absent : ¬word <+: first :: rest) : tokens word (first :: rest) = some first :: tokens word rest := by
  rw [tokens, tokensFrom, if_neg absent, tokens]

/-- A text begins with an occurrence or with something that is kept. -/
theorem tokens_induction {motive : List α → Prop} (some_ : word ≠ []) (nil : motive [])
    (found : ∀ rest, motive rest → motive (word ++ rest))
    (kept : ∀ first rest, ¬word <+: first :: rest → motive rest → motive (first :: rest)) (text : List α) : motive text := by
  induction length : text.length using Nat.strong_induction_on generalizing text with
  | _ length ih =>
    cases text with
    | nil => exact nil
    | cons first rest =>
      by_cases present : word <+: first :: rest
      · obtain ⟨behind, whole⟩ := present
        rw [← whole]
        have filled : 0 < word.length := List.length_pos_iff.mpr some_
        refine found behind (ih behind.length ?_ behind rfl)
        rw [← length, ← whole, List.length_append]
        omega
      · exact kept first rest present (ih rest.length (by rw [← length, List.length_cons]; omega) rest rfl)

theorem filled_tokens (some_ : word ≠ []) (text : List α) : filled word (tokens word text) = text := by
  induction text using tokens_induction some_ with
  | nil => rfl
  | found rest ih => rw [tokens_append some_, filled_none, ih]
  | kept first rest absent ih => rw [tokens_cons absent, filled_some, ih]

theorem replaceAll_self (some_ : word ≠ []) (text : List α) : replaceAll word word text = text := filled_tokens some_ text

/-- Each occurrence gives its length for that of the replacement. -/
theorem length_replaceAll (some_ : word ≠ []) (replacement text : List α) :
    (replaceAll word replacement text).length + occurrences word text * word.length =
      text.length + occurrences word text * replacement.length := by
  have whole := congrArg List.length (filled_tokens some_ text)
  rw [length_filled] at whole
  rw [replaceAll, length_filled, occurrences]
  omega

/-- A text stays the same only where the word stays the same. -/
theorem eq_of_replaceAll (some_ : word ≠ []) {replacement : List α} (found : occurrences word text ≠ 0)
    (same : replaceAll word replacement text = text) : replacement = word := by
  have lengths := length_replaceAll some_ replacement text
  rw [same, Nat.add_left_cancel_iff] at lengths
  have positive : 0 < occurrences word text := by omega
  refine filled_inj (Nat.eq_of_mul_eq_mul_left positive lengths).symm ?_ positive
  rw [filled_tokens some_]
  exact same

/-! ## Texts of other elements -/

/-- Elements are read as others, and the word is found at the same places. -/
theorem tokens_map {other : List β} {read : α → β} (some_ : word ≠ []) (sized : other.length = word.length)
    (agree : ∀ suffix, suffix <:+ text → (other <+: suffix.map read ↔ word <+: suffix)) :
    tokens other (text.map read) = (tokens word text).map (Option.map read) := by
  have otherSome : other ≠ [] := by
    rw [← List.length_pos_iff, sized]
    exact List.length_pos_iff.mpr some_
  induction text using tokens_induction some_ with
  | nil => rfl
  | found rest ih =>
    obtain ⟨behind, whole⟩ := (agree (word ++ rest) List.suffix_rfl).mpr (List.prefix_append _ _)
    rw [List.map_append] at whole
    obtain ⟨rfl, rfl⟩ := List.append_inj whole (by rw [List.length_map, sized])
    rw [tokens_append some_, List.map_append, tokens_append otherSome, List.map_cons, ih]
    · rfl
    · exact fun suffix within => agree suffix (within.trans (List.suffix_append _ _))
  | kept first rest absent ih =>
    have clear : ¬other <+: read first :: rest.map read := fun present =>
      absent ((agree (first :: rest) List.suffix_rfl).mp (by simpa using present))
    rw [tokens_cons absent, List.map_cons, tokens_cons clear, List.map_cons, ih]
    · rfl
    · exact fun suffix within => agree suffix (within.trans (List.suffix_cons _ _))

/-- Each element is spelled with others, and the spelled word occurs at the start of the spelling exactly where the
word occurs, never inside one. -/
structure SpelledAlike (spell : α → List β) (word : List α) (text : List α) : Prop where
  starts : ∀ suffix, suffix <:+ text → (word.flatMap spell <+: suffix.flatMap spell ↔ word <+: suffix)
  inside : ∀ first rest, first :: rest <:+ text → ∀ behind, behind <:+ spell first → behind ≠ [] → behind ≠ spell first →
    ¬word.flatMap spell <+: behind ++ rest.flatMap spell

theorem tokens_flatMap {spell : α → List β} (some_ : word ≠ []) (spelled : word.flatMap spell ≠ [])
    (alike : SpelledAlike spell word text) :
    tokens (word.flatMap spell) (text.flatMap spell) = spelledTokens spell (tokens word text) := by
  induction text using tokens_induction some_ with
  | nil => rfl
  | found rest ih =>
    rw [tokens_append some_, List.flatMap_append, tokens_append spelled, ih]
    · rfl
    · exact ⟨fun suffix within => alike.starts suffix (within.trans (List.suffix_append _ _)),
        fun first rest' within => alike.inside first rest' (within.trans (List.suffix_append _ _))⟩
  | kept first rest absent ih =>
    have later : SpelledAlike spell word rest := ⟨fun suffix within => alike.starts suffix (within.trans (List.suffix_cons _ _)),
      fun first' rest' within => alike.inside first' rest' (within.trans (List.suffix_cons _ _))⟩
    -- Nothing begins in the spelling of an element that is kept.
    have through : ∀ behind, behind <:+ spell first → tokens (word.flatMap spell) (behind ++ rest.flatMap spell) =
        behind.map some ++ tokens (word.flatMap spell) (rest.flatMap spell) := by
      intro behind within
      induction behind with
      | nil => rfl
      | cons letter behind further =>
        rw [List.cons_append, tokens_cons, further ((List.suffix_cons _ _).trans within)]
        · rfl
        · rw [← List.cons_append]
          by_cases whole : letter :: behind = spell first
          · rw [whole, ← List.flatMap_cons, alike.starts _ List.suffix_rfl]
            exact absent
          · exact alike.inside first rest List.suffix_rfl _ within (List.cons_ne_nil _ _) whole
    rw [tokens_cons absent, List.flatMap_cons, through _ List.suffix_rfl, ih later]
    rfl

end Tokens

end Foundation
