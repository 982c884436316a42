import AiryFS.Foundation.UnitExpression
import AiryFS.Storage.Values

/-! Glob patterns, and the regular expressions that the search makes of them.

The expression is about code units and the pattern about characters. They agree on the paths whose characters
are one unit each, as far as `.` matches every one of them.
-/

set_option autoImplicit false

namespace AiryFS

open Foundation

/-! ## The translation -/

/-- `/[\\^$+?.()|{}\[\]]/`. -/
def escapedUnits : List Nat := Utf16.encode "\\^$+?.()|\x7b\x7d[]".toList

/-- The source between `^` and `$`. -/
def globSource : List Nat → List Nat
  | [] => []
  | character :: rest =>
    if character = '*'.toNat then
      match rest with
      | [] => Utf16.encode "[^/]*".toList
      | next :: later =>
        if next = '*'.toNat then Utf16.encode ".*".toList ++ globSource later
        else Utf16.encode "[^/]*".toList ++ globSource (next :: later)
    else if character = '?'.toNat then Utf16.encode "[^/]".toList ++ globSource rest
    else (if character ∈ escapedUnits then ['\\'.toNat, character] else [character]) ++ globSource rest

/-- The terms of the expression, if its source is one of those that are read here. -/
def globRegex (pattern : Text) : Option (List (UnitExpression.Term Nat)) :=
  UnitExpression.compile ('^'.toNat :: globSource (Utf16.encode pattern) ++ ['$'.toNat])

/-- `globRegex(pattern).test(path)`. -/
def globTest (pattern path : Text) : Bool :=
  (globRegex pattern).any fun terms => UnitExpression.accepts terms (Utf16.encode path)

/-! ## The language of a pattern -/

inductive GlobToken where
  | anything
  | segment
  | one
  | literal (character : Char)
  deriving DecidableEq, Repr

def globTokens : Text → List GlobToken
  | '*' :: '*' :: rest => .anything :: globTokens rest
  | '*' :: rest => .segment :: globTokens rest
  | '?' :: rest => .one :: globTokens rest
  | character :: rest => .literal character :: globTokens rest
  | [] => []

def GlobToken.language : GlobToken → Language Char
  | .anything => ⊤
  | .segment => {text | '/' ∉ text}
  | .one => {text | ∃ character, character ≠ '/' ∧ text = [character]}
  | .literal character => {[character]}

def globLanguage (pattern : Text) : Language Char := ((globTokens pattern).map GlobToken.language).prod

/-! ## What the source is read as -/

namespace GlobToken

def notTerminator (unit : Nat) : Bool := !UnitExpression.lineTerminators.contains unit

def source : GlobToken → List Nat
  | .anything => Utf16.encode ".*".toList
  | .segment => Utf16.encode "[^/]*".toList
  | .one => Utf16.encode "[^/]".toList
  | .literal character => (Utf16.units character).flatMap fun unit => if unit ∈ escapedUnits then ['\\'.toNat, unit] else [unit]

def pieces : GlobToken → List UnitExpression.Piece
  | .anything => [.set notTerminator, .star]
  | .segment => [.set (· != '/'.toNat), .star]
  | .one => [.set (· != '/'.toNat)]
  | .literal character => (Utf16.units character).map fun unit => .set (· == unit)

def terms : GlobToken → List (UnitExpression.Term Nat)
  | .anything => [.star notTerminator]
  | .segment => [.star (· != '/'.toNat)]
  | .one => [.once (· != '/'.toNat)]
  | .literal character => (Utf16.units character).map fun unit => .once (· == unit)

/-- No character but the mark itself has it as a unit. -/
theorem unit_ne {mark character : Char} (different : character ≠ mark) :
    ∀ unit ∈ Utf16.units character, unit ≠ mark.toNat := by
  intro unit member
  by_cases one : Utf16.Basic character
  · rw [Utf16.units_basic one, List.mem_singleton] at member
    rintro rfl
    exact different (by rw [← character.ofNat_toNat, ← member, Char.ofNat_toNat])
  · exact fun same => Utf16.surrogate_of_wide one unit member mark same.symm

theorem basic_star : Utf16.Basic '*' := by decide

theorem basic_mark : Utf16.Basic '?' := by decide

/-- Units that are no wildcards are taken one by one. -/
theorem globSource_units {units : List Nat} (plain : ∀ unit ∈ units, unit ≠ '*'.toNat ∧ unit ≠ '?'.toNat) (rest : List Nat) :
    globSource (units ++ rest) =
      (units.flatMap fun unit => if unit ∈ escapedUnits then ['\\'.toNat, unit] else [unit]) ++ globSource rest := by
  induction units with
  | nil => rfl
  | cons unit units ih =>
    obtain ⟨star, mark⟩ := plain unit List.mem_cons_self
    rw [List.cons_append, globSource.eq_def]
    dsimp only
    rw [if_neg star, if_neg mark, ih fun unit member => plain unit (List.mem_cons_of_mem _ member), List.flatMap_cons,
      List.append_assoc]

theorem globSource_eq (pattern : Text) : globSource (Utf16.encode pattern) = (globTokens pattern).flatMap source := by
  fun_induction globTokens pattern with
  | case1 rest ih =>
    rw [List.flatMap_cons, ← ih]
    rfl
  | case2 rest other ih =>
    rw [List.flatMap_cons, ← ih]
    cases rest with
    | nil => rfl
    | cons next later =>
      have different : next ≠ '*' := fun same => other later (by rw [same])
      have head : Utf16.encode (next :: later) = Utf16.units next ++ Utf16.encode later := List.flatMap_cons
      have star : Utf16.encode ('*' :: next :: later) = '*'.toNat :: (Utf16.units next ++ Utf16.encode later) := by
        rw [Utf16.encode, List.flatMap_cons, ← Utf16.encode, head, Utf16.units_basic basic_star]
        rfl
      have some_ : Utf16.units next ≠ [] := by
        unfold Utf16.units
        split <;> exact List.cons_ne_nil _ _
      obtain ⟨first, units, shape⟩ := List.exists_cons_of_ne_nil some_
      have apart := unit_ne different first (by rw [shape]; exact List.mem_cons_self)
      rw [star, head, shape, List.cons_append, globSource.eq_def]
      dsimp only
      rw [if_pos rfl, if_neg apart]
      rfl
  | case3 rest ih =>
    have mark : Utf16.encode ('?' :: rest) = '?'.toNat :: Utf16.encode rest := by
      rw [Utf16.encode, List.flatMap_cons, ← Utf16.encode, Utf16.units_basic basic_mark]
      rfl
    rw [List.flatMap_cons, ← ih, mark, globSource.eq_def]
    rfl
  | case4 character rest first star mark ih =>
    rw [List.flatMap_cons, ← ih, Utf16.encode, List.flatMap_cons, ← Utf16.encode]
    exact globSource_units (fun unit member => ⟨unit_ne star unit member, unit_ne mark unit member⟩) _
  | case5 => rfl

theorem pieces_unit {unit : Nat} (plain : unit ≠ '*'.toNat) (rest : List Nat) :
    UnitExpression.pieces ((if unit ∈ escapedUnits then ['\\'.toNat, unit] else [unit]) ++ rest) =
      (UnitExpression.pieces rest).map (.set (· == unit) :: ·) := by
  -- The star is the one character of the syntax that is not escaped.
  have known : unit ∈ UnitExpression.syntaxUnits ↔ unit ∈ escapedUnits := by
    have star : unit ≠ 42 := plain
    have first : UnitExpression.syntaxUnits = [94, 36, 92, 46, 42, 43, 63, 40, 41, 91, 93, 123, 125, 124] := by decide
    have second : escapedUnits = [92, 94, 36, 43, 63, 46, 40, 41, 124, 123, 125, 91, 93] := by decide
    rw [first, second]
    simp only [List.mem_cons, List.not_mem_nil, or_false]
    omega
  split
  · rename_i escaped
    rw [List.cons_append, List.singleton_append, UnitExpression.pieces.eq_def]
    dsimp only
    rw [if_pos rfl, if_pos (known.mpr escaped)]
  · rename_i free
    have clear : ∀ c : Nat, c ∈ escapedUnits → unit ≠ c := fun c member same => free (same ▸ member)
    rw [List.singleton_append, UnitExpression.pieces.eq_def]
    dsimp only
    rw [if_neg (clear _ (by decide)), if_neg (clear _ (by decide)), if_neg (clear _ (by decide)), if_neg plain,
      if_neg (clear _ (by decide)), if_neg (clear _ (by decide)), if_neg fun member => free (known.mp member)]

theorem literal_of_tokens {pattern : Text} {character : Char} (member : .literal character ∈ globTokens pattern) : character ≠ '*' := by
  fun_induction globTokens pattern with
  | case1 rest ih => exact ih (by simpa using member)
  | case2 rest other ih => exact ih (by simpa using member)
  | case3 rest ih => exact ih (by simpa using member)
  | case4 first rest double star mark ih =>
    rcases List.mem_cons.mp member with same | member
    · rw [GlobToken.literal.inj same]
      exact star
    · exact ih member
  | case5 => cases member

theorem pieces_source (token : GlobToken) (plain : ∀ character, token = .literal character → character ≠ '*') (rest : List Nat) :
    UnitExpression.pieces (token.source ++ rest) = (UnitExpression.pieces rest).map (token.pieces ++ ·) := by
  cases token with
  | anything =>
    change UnitExpression.pieces (46 :: 42 :: rest) = _
    rw [UnitExpression.pieces.eq_def]
    dsimp only
    rw [if_neg (by decide), if_neg (by decide), if_pos (by decide), UnitExpression.pieces.eq_def]
    dsimp only
    rw [if_neg (by decide), if_neg (by decide), if_neg (by decide), if_pos (by decide), Option.map_map]
    rfl
  | segment =>
    change UnitExpression.pieces (91 :: 94 :: 47 :: 93 :: 42 :: rest) = _
    rw [UnitExpression.pieces.eq_def]
    dsimp only
    rw [if_neg (by decide), if_pos (by decide), if_pos (by decide), UnitExpression.pieces.eq_def]
    dsimp only
    rw [if_neg (by decide), if_neg (by decide), if_neg (by decide), if_pos (by decide), Option.map_map]
    rfl
  | one =>
    change UnitExpression.pieces (91 :: 94 :: 47 :: 93 :: rest) = _
    rw [UnitExpression.pieces.eq_def]
    dsimp only
    rw [if_neg (by decide), if_pos (by decide), if_pos (by decide)]
    rfl
  | literal character =>
    have clear := unit_ne (plain character rfl)
    rw [source, pieces]
    generalize Utf16.units character = units at clear
    induction units with
    | nil => simp
    | cons unit units ih =>
      rw [List.flatMap_cons, List.append_assoc, pieces_unit (clear unit List.mem_cons_self),
        ih fun unit member => clear unit (List.mem_cons_of_mem _ member), Option.map_map]
      rfl

theorem terms_once {set : Nat → Bool} {rest : List UnitExpression.Piece} (other : ∀ later, rest ≠ .star :: later) :
    UnitExpression.terms (.set set :: rest) = (UnitExpression.terms rest).map (.once set :: ·) := by
  cases rest with
  | nil => rfl
  | cons piece rest =>
    cases piece with
    | star => exact absurd rfl (other rest)
    | start => rfl
    | set next => rfl
    | finish => rfl

theorem terms_pieces (tokens : List GlobToken) :
    UnitExpression.terms (tokens.flatMap pieces ++ [.finish]) = some (tokens.flatMap terms) := by
  have starts : ∀ (tokens : List GlobToken) later, tokens.flatMap pieces ++ [.finish] ≠ .star :: later := by
    intro tokens
    induction tokens with
    | nil => simp
    | cons token tokens ih =>
      intro later same
      cases token with
      | literal character =>
        have some_ : Utf16.units character ≠ [] := by
          unfold Utf16.units
          split <;> exact List.cons_ne_nil _ _
        obtain ⟨unit, units, shape⟩ := List.exists_cons_of_ne_nil some_
        rw [List.flatMap_cons, pieces, shape] at same
        cases same
      | _ => cases same
  induction tokens with
  | nil => rfl
  | cons token tokens ih =>
    rw [List.flatMap_cons, List.flatMap_cons, List.append_assoc]
    cases token with
    | anything =>
      change (UnitExpression.terms (tokens.flatMap pieces ++ [.finish])).map _ = _
      rw [ih]
      rfl
    | segment =>
      change (UnitExpression.terms (tokens.flatMap pieces ++ [.finish])).map _ = _
      rw [ih]
      rfl
    | one =>
      change UnitExpression.terms (.set _ :: (tokens.flatMap pieces ++ [.finish])) = _
      rw [terms_once (starts tokens), ih]
      rfl
    | literal character =>
      rw [pieces, terms]
      generalize Utf16.units character = units
      induction units with
      | nil => exact ih
      | cons unit units further =>
        rw [List.map_cons, List.cons_append, terms_once, further]
        · rfl
        · intro later
          cases units with
          | nil => exact starts tokens later
          | cons unit units => exact fun same => by cases same

end GlobToken

/-- The source is one that is read, and stands for the terms of the tokens. -/
theorem globRegex_eq (pattern : Text) : globRegex pattern = some ((globTokens pattern).flatMap GlobToken.terms) := by
  have read : ∀ tokens : List GlobToken, (∀ character, .literal character ∈ tokens → character ≠ '*') →
      UnitExpression.pieces (tokens.flatMap GlobToken.source ++ ['$'.toNat]) = some (tokens.flatMap GlobToken.pieces ++ [.finish]) := by
    intro tokens plain
    induction tokens with
    | nil =>
      rw [List.flatMap_nil, List.flatMap_nil, List.nil_append, List.nil_append, UnitExpression.pieces.eq_def]
      rfl
    | cons token tokens ih =>
      rw [List.flatMap_cons, List.append_assoc,
        GlobToken.pieces_source token (fun character same => plain character (by rw [same]; exact List.mem_cons_self)),
        ih fun character member => plain character (List.mem_cons_of_mem _ member), List.flatMap_cons, List.append_assoc]
      rfl
  have whole : UnitExpression.pieces ('^'.toNat :: (globTokens pattern).flatMap GlobToken.source ++ ['$'.toNat]) =
      some (.start :: (globTokens pattern).flatMap GlobToken.pieces ++ [.finish]) := by
    rw [List.cons_append, UnitExpression.pieces.eq_def]
    dsimp only
    rw [if_neg (by decide), if_neg (by decide), if_neg (by decide), if_neg (by decide), if_pos rfl,
      read _ fun character member => GlobToken.literal_of_tokens member]
    rfl
  rw [globRegex, GlobToken.globSource_eq, UnitExpression.compile, whole, Option.bind_some]
  exact GlobToken.terms_pieces _

theorem globTest_iff (pattern path : Text) : globTest pattern path = true ↔
    Utf16.encode path ∈ UnitExpression.language ((globTokens pattern).flatMap GlobToken.terms) := by
  rw [globTest, globRegex_eq, Option.any_some, UnitExpression.accepts_iff]

/-! ## Where the two agree -/

/-- A character of one unit that does not end a line. -/
def PlainCharacter (character : Char) : Prop :=
  Utf16.Basic character ∧ character.toNat ∉ UnitExpression.lineTerminators

namespace GlobToken

variable {text : Text}

theorem mem_terms (token : GlobToken) (plain : ∀ character ∈ text, PlainCharacter character) :
    text.map Char.toNat ∈ UnitExpression.language token.terms ↔ text ∈ token.language := by
  have slash : ∀ character : Char, (character.toNat != '/'.toNat) = true ↔ character ≠ '/' := by
    intro character
    rw [bne_iff_ne, ne_eq, ne_eq, not_iff_not]
    exact ⟨fun same => by rw [← character.ofNat_toNat, same, Char.ofNat_toNat], fun same => by rw [same]⟩
  cases token with
  | anything =>
    rw [terms, UnitExpression.language_singleton]
    refine ⟨fun _ => trivial, fun _ unit member => ?_⟩
    obtain ⟨character, inside, rfl⟩ := List.mem_map.mp member
    simpa [notTerminator] using (plain character inside).2
  | segment =>
    rw [terms, UnitExpression.language_singleton]
    constructor
    · intro within member
      exact (slash '/').mp (within _ (List.mem_map_of_mem member)) rfl
    · intro absent unit member
      obtain ⟨character, inside, rfl⟩ := List.mem_map.mp member
      exact (slash character).mpr fun same => absent (same ▸ inside)
  | one =>
    rw [terms, UnitExpression.language_singleton]
    constructor
    · rintro ⟨unit, other, whole⟩
      obtain ⟨character, rfl, rfl⟩ := List.map_eq_singleton_iff.mp whole
      exact ⟨character, (slash character).mp other, rfl⟩
    · rintro ⟨character, other, rfl⟩
      exact ⟨character.toNat, (slash character).mpr other, rfl⟩
  | literal character =>
    rw [terms, UnitExpression.mem_language_literal]
    by_cases basic : Utf16.Basic character
    · rw [Utf16.units_basic basic, List.map_eq_singleton_iff]
      constructor
      · rintro ⟨other, rfl, same⟩
        rw [← other.ofNat_toNat, same, Char.ofNat_toNat]
        rfl
      · intro same
        exact ⟨character, same, rfl⟩
    · constructor
      · intro same
        obtain ⟨unit, member⟩ : ∃ unit, unit ∈ Utf16.units character := by
          have two := Utf16.length_units basic
          exact List.exists_mem_of_length_pos (by omega)
        have listed := member
        rw [← same] at listed
        obtain ⟨other, _, spelled⟩ := List.mem_map.mp listed
        exact absurd spelled (Utf16.surrogate_of_wide basic unit member other)
      · intro same
        obtain rfl : text = [character] := same
        exact absurd (plain character (List.mem_singleton_self _)).1 basic

theorem mem_language (tokens : List GlobToken) (plain : ∀ character ∈ text, PlainCharacter character) :
    text.map Char.toNat ∈ UnitExpression.language (tokens.flatMap terms) ↔ text ∈ (tokens.map language).prod := by
  induction tokens generalizing text with
  | nil =>
    refine Iff.trans (Language.mem_one _) (Iff.trans ?_ (Language.mem_one text).symm)
    exact List.map_eq_nil_iff
  | cons token tokens ih =>
    rw [List.flatMap_cons, UnitExpression.language_append, List.map_cons, List.prod_cons, Language.mem_mul, Language.mem_mul]
    constructor
    · rintro ⟨front, here, behind, later, whole⟩
      obtain ⟨first, second, rfl, rfl, rfl⟩ := List.map_eq_append_iff.mp whole.symm
      have before := fun character member => plain character (List.mem_append_left _ member)
      have after := fun character member => plain character (List.mem_append_right _ member)
      exact ⟨first, (token.mem_terms before).mp here, second, (ih after).mp later, rfl⟩
    · rintro ⟨first, here, second, later, rfl⟩
      have before := fun character member => plain character (List.mem_append_left _ member)
      have after := fun character member => plain character (List.mem_append_right _ member)
      exact ⟨first.map Char.toNat, (token.mem_terms before).mpr here, second.map Char.toNat, (ih after).mpr later,
        List.map_append.symm⟩

end GlobToken

theorem globTest_plain {path : Text} (plain : ∀ character ∈ path, PlainCharacter character) (pattern : Text) :
    globTest pattern path = true ↔ path ∈ globLanguage pattern := by
  rw [globTest_iff, Utf16.encode_basic fun character member => (plain character member).1]
  exact GlobToken.mem_language (globTokens pattern) plain

/-- The two stars do not go over the end of a line. -/
theorem globTest_anything {path : Text} (matched : globTest "**".toList path = true) :
    ∀ unit ∈ Utf16.encode path, unit ∉ UnitExpression.lineTerminators := by
  have tokens : globTokens "**".toList = [.anything] := rfl
  rw [globTest_iff, tokens, List.flatMap_singleton, GlobToken.terms, UnitExpression.language_singleton] at matched
  intro unit member
  simpa [GlobToken.notTerminator] using matched unit member

theorem mem_anythingLanguage (path : Text) : path ∈ globLanguage "**".toList := by
  have tokens : globTokens "**".toList = [.anything] := rfl
  rw [globLanguage, tokens, List.map_singleton, List.prod_singleton]
  trivial

/-- A pattern with a mark for each character that is no slash. -/
def markPattern (path : Text) : Text := path.map fun character => if character = '/' then '/' else '?'

theorem globTokens_mark (path : Text) :
    globTokens (markPattern path) = path.map fun character => if character = '/' then .literal '/' else .one := by
  induction path with
  | nil => rfl
  | cons character path ih =>
    rw [markPattern, List.map_cons, ← markPattern, List.map_cons, ← ih]
    by_cases slash : character = '/'
    · rw [if_pos slash, if_pos slash]
      rfl
    · rw [if_neg slash, if_neg slash]
      rfl

theorem mem_markLanguage (path : Text) : path ∈ globLanguage (markPattern path) := by
  rw [globLanguage, globTokens_mark, List.map_map]
  induction path with
  | nil => exact Language.nil_mem_one
  | cons character path ih =>
    rw [List.map_cons, List.prod_cons, Language.mem_mul]
    refine ⟨[character], ?_, path, ih, rfl⟩
    by_cases slash : character = '/'
    · rw [Function.comp_apply, if_pos slash, slash]
      exact rfl
    · rw [Function.comp_apply, if_neg slash]
      exact ⟨character, slash, rfl⟩

/-- Each mark takes one unit. -/
theorem globTest_mark {path : Text} (matched : globTest (markPattern path) path = true) :
    (Utf16.encode path).length = path.length := by
  rw [globTest_iff, globTokens_mark] at matched
  have counted : ∀ (list : Text) (units : List Nat), units ∈ UnitExpression.language
      ((list.map fun character => if character = '/' then GlobToken.literal '/' else .one).flatMap GlobToken.terms) →
        units.length = list.length := by
    intro list
    induction list with
    | nil =>
      intro units within
      rw [(Language.mem_one units).mp within]
      rfl
    | cons character list ih =>
      intro units within
      rw [List.map_cons, List.flatMap_cons, UnitExpression.language_append, Language.mem_mul] at within
      obtain ⟨front, here, behind, later, rfl⟩ := within
      have single : front.length = 1 := by
        by_cases slash : character = '/'
        · rw [if_pos slash, GlobToken.terms, UnitExpression.mem_language_literal] at here
          rw [here]
          rfl
        · rw [if_neg slash, GlobToken.terms, UnitExpression.language_singleton] at here
          obtain ⟨unit, _, rfl⟩ := here
          rfl
      rw [List.length_append, single, ih behind later, List.length_cons, Nat.add_comm]
  exact counted path _ matched

/-- The expressions are exact on the paths of plain characters, and on no other. -/
theorem globRegex_exact_iff (path : Text) :
    (∀ pattern, globTest pattern path = true ↔ path ∈ globLanguage pattern) ↔ ∀ character ∈ path, PlainCharacter character := by
  refine ⟨fun exact_ character member => ?_, fun plain pattern => globTest_plain plain pattern⟩
  have basic : ∀ character ∈ path, Utf16.Basic character := by
    by_contra wide
    simp only [not_forall, exists_prop] at wide
    have same := globTest_mark ((exact_ (markPattern path)).mpr (mem_markLanguage path))
    have longer := Utf16.length_encode_wide wide
    omega
  refine ⟨basic character member, ?_⟩
  have clear := globTest_anything ((exact_ _).mpr (mem_anythingLanguage path))
  rw [Utf16.encode_basic basic] at clear
  exact clear _ (List.mem_map_of_mem member)

/-- The two stars are to take a name with a line feed, and the expression does not. -/
theorem globRegex_misses_line : ¬∀ pattern path : Text, globTest pattern path = true ↔ path ∈ globLanguage pattern := by
  intro claim
  have clear := globTest_anything ((claim "**".toList "a\nb".toList).mpr (mem_anythingLanguage _))
  exact clear 10 (by decide) (by decide)

end AiryFS
