import AiryFS.Foundation.Binary64
import AiryFS.Storage.Values
import Mathlib.Logic.Function.Iterate

/-! The hop count of a forwarded request, a JavaScript number.

The count goes up by one with every forward and is compared before the next one. Rounding
lets a count just below zero catch up within eight forwards, and no count further below.
-/

set_option autoImplicit false

namespace AiryFS

open Foundation

namespace Mounts

/-- Maximum forwarding hops for a single direct-path operation. -/
def MAX_MOUNT_HOPS : ℕ := 8

/-- A double: one of the special values, or a rational. Zero has one sign here. -/
inductive JsNumber where
  | nan
  | infinity (negative : Bool)
  | finite (value : ℚ)
  deriving DecidableEq

/-- What is no smaller is rounded to infinity. -/
@[irreducible] def overflow : ℚ := 2 ^ 1024

theorem overflow_large : 16 < overflow := by
  have powers : (2 : ℚ) ^ 4 < 2 ^ 1024 := pow_lt_pow_right₀ (by norm_num) (by norm_num)
  have four : (2 : ℚ) ^ 4 = 16 := by norm_num
  unfold overflow
  rw [← four]
  exact powers

namespace JsNumber

/-- The double next to a rational. -/
def ofRational (x : ℚ) : JsNumber :=
  let rounded := roundTo 53 (-1074) x
  if overflow ≤ rounded then .infinity false
  else if rounded ≤ -overflow then .infinity true
  else .finite rounded

/-- `number + 1` -/
def next : JsNumber → JsNumber
  | .nan => .nan
  | .infinity negative => .infinity negative
  | .finite value => ofRational (value + 1)

/-- `number >= bound` -/
def AtLeast (bound : ℚ) : JsNumber → Prop
  | .nan => False
  | .infinity negative => negative = false
  | .finite value => bound ≤ value

instance (bound : ℚ) : ∀ number, Decidable (AtLeast bound number)
  | .nan => isFalse id
  | .infinity negative => inferInstanceAs (Decidable (negative = false))
  | .finite value => inferInstanceAs (Decidable (bound ≤ value))

/-- No number above the bound. -/
def AtMost (bound : ℚ) : JsNumber → Prop
  | .nan => True
  | .infinity negative => negative = true
  | .finite value => value ≤ bound

theorem AtMost.not_atLeast {number : JsNumber} {low high : ℚ} (below : AtMost low number) (less : low < high) :
    ¬AtLeast high number := by
  cases number with
  | nan => exact id
  | infinity negative =>
    have same : negative = true := below
    simp [AtLeast, same]
  | finite value =>
    have upper : value ≤ low := below
    have strictly : value < high := upper.trans_lt less
    simpa [AtLeast] using strictly

theorem AtLeast.ofRational {x bound : ℚ} (above : bound ≤ roundTo 53 (-1074) x) (fits : -overflow < bound) :
    AtLeast bound (ofRational x) := by
  unfold JsNumber.ofRational
  dsimp only
  split_ifs with top bottom
  · exact rfl
  · exact absurd bottom (by linarith)
  · exact above

theorem AtMost.ofRational {x bound : ℚ} (below : roundTo 53 (-1074) x ≤ bound) (fits : bound < overflow) :
    AtMost bound (ofRational x) := by
  unfold JsNumber.ofRational
  dsimp only
  split_ifs with top bottom
  · exact absurd top (by linarith)
  · exact rfl
  · exact below

theorem AtLeast.next {number : JsNumber} {low high : ℚ} (above : AtLeast low number)
    (rounded : high ≤ roundTo 53 (-1074) (low + 1)) (fits : -overflow < high) : AtLeast high number.next := by
  cases number with
  | nan => exact above.elim
  | infinity negative => exact above
  | finite value =>
    have lower : low ≤ value := above
    exact AtLeast.ofRational (rounded.trans (roundTo_mono (by norm_num) (by linarith))) fits

theorem AtMost.next {number : JsNumber} {low high : ℚ} (below : AtMost low number)
    (rounded : roundTo 53 (-1074) (low + 1) ≤ high) (fits : high < overflow) : AtMost high number.next := by
  cases number with
  | nan => trivial
  | infinity negative => exact below
  | finite value =>
    have upper : value ≤ low := below
    exact AtMost.ofRational ((roundTo_mono (by norm_num) (by linarith)).trans rounded) fits

end JsNumber

/-! ## One step within a power of two -/

theorem roundTo_ge {x bound : ℚ} {e n : ℤ} (low : (2 : ℚ) ^ e ≤ x) (high : x < 2 ^ (e + 1)) (normal : -1022 ≤ e)
    (rounded : n ≤ halfEven (x / 2 ^ (e - 52))) (reaches : bound ≤ n * 2 ^ (e - 52)) : bound ≤ roundTo 53 (-1074) x := by
  have exponent : e + 1 - ((53 : ℕ) : ℤ) = e - 52 := by
    push_cast
    ring
  rw [roundTo_eq low high (by omega), exponent]
  exact reaches.trans (mul_le_mul_of_nonneg_right (by exact_mod_cast rounded) (quantum_positive _).le)

theorem roundTo_le {x bound : ℚ} {e n : ℤ} (low : (2 : ℚ) ^ e ≤ x) (high : x < 2 ^ (e + 1)) (normal : -1022 ≤ e)
    (rounded : halfEven (x / 2 ^ (e - 52)) ≤ n) (reaches : n * 2 ^ (e - 52) ≤ bound) : roundTo 53 (-1074) x ≤ bound := by
  have exponent : e + 1 - ((53 : ℕ) : ℤ) = e - 52 := by
    push_cast
    ring
  rw [roundTo_eq low high (by omega), exponent]
  exact le_trans (mul_le_mul_of_nonneg_right (by exact_mod_cast rounded) (quantum_positive _).le) reaches

/-! ## Eight steps -/

/-- Numbers that eight steps take to eight. -/
def Tame : JsNumber → Prop
  | .nan => False
  | .infinity negative => negative = false
  | .finite value => -(11 / 2 ^ 54) < value

/-- The first step decides: its midpoint lies just below one. -/
theorem roundTo_first {value : ℚ} :
    (-(11 / 2 ^ 54) < value → 1 - 5 / 2 ^ 53 ≤ roundTo 53 (-1074) (value + 1)) ∧
      (value ≤ -(11 / 2 ^ 54) → roundTo 53 (-1074) (value + 1) ≤ 1 - 6 / 2 ^ 53) := by
  constructor
  · intro above
    by_cases small : value < 0
    · refine @roundTo_ge _ _ (-1) (2 ^ 53 - 5) ?_ (by norm_num; linarith) (by norm_num) ?_ (by norm_num)
      · norm_num at above ⊢
        linarith
      · apply le_halfEven
        norm_num at above ⊢
        linarith
    · have base : (1 : ℚ) ≤ roundTo 53 (-1074) 1 := by
        refine @roundTo_ge _ _ 0 (2 ^ 52) (by norm_num) (by norm_num) (by norm_num) ?_ (by norm_num)
        apply le_halfEven
        norm_num
      have later := @roundTo_mono 53 (-1074) (by norm_num) 1 (value + 1) (by linarith)
      norm_num at base ⊢
      linarith
  · intro below
    have bound : roundTo 53 (-1074) (-(11 / 2 ^ 54) + 1) ≤ 1 - 6 / 2 ^ 53 := by
      refine @roundTo_le _ _ (-1) (2 ^ 53 - 6) (by norm_num) (by norm_num) (by norm_num) ?_ (by norm_num)
      apply halfEven_le_of_even (by norm_num)
      norm_num
    exact (roundTo_mono (by norm_num) (by linarith)).trans bound

/-! The bounds after each step, every one the rounded sum of the one before. -/

def lowerBounds : List ℚ := [1 - 5 / 2 ^ 53, 2 - 4 / 2 ^ 53, 3 - 4 / 2 ^ 53, 4 - 4 / 2 ^ 53, 5, 6, 7, 8]

def upperBounds : List ℚ :=
  [1 - 6 / 2 ^ 53, 2 - 6 / 2 ^ 53, 3 - 8 / 2 ^ 53, 4 - 8 / 2 ^ 53, 5 - 8 / 2 ^ 53, 6 - 8 / 2 ^ 53, 7 - 8 / 2 ^ 53, 8 - 8 / 2 ^ 53]

/-- A number above the first bound is above the second one a step later. -/
def Climbs (low high : ℚ) : Prop := high ≤ roundTo 53 (-1074) (low + 1) ∧ -overflow < high

def Lags (low high : ℚ) : Prop := roundTo 53 (-1074) (low + 1) ≤ high ∧ high < overflow

theorem lowerBounds_chain : lowerBounds.IsChain Climbs := by
  have large := overflow_large
  simp only [lowerBounds, List.isChain_cons_cons]
  refine ⟨⟨?_, by linarith⟩, ⟨?_, by linarith⟩, ⟨?_, by linarith⟩, ⟨?_, by linarith⟩, ⟨?_, by linarith⟩, ⟨?_, by linarith⟩, ⟨?_, by linarith⟩, .singleton _⟩
  · refine @roundTo_ge _ _ 0 (2 ^ 53 - 2) (by norm_num) (by norm_num) (by norm_num) (le_halfEven_of_even (by norm_num) ?_) (by norm_num)
    norm_num
  · refine @roundTo_ge _ _ 1 (3 * 2 ^ 51 - 1) (by norm_num) (by norm_num) (by norm_num) (le_halfEven ?_) (by norm_num)
    norm_num
  · refine @roundTo_ge _ _ 1 (2 ^ 53 - 1) (by norm_num) (by norm_num) (by norm_num) (le_halfEven ?_) (by norm_num)
    norm_num
  · refine @roundTo_ge _ _ 2 (5 * 2 ^ 50) (by norm_num) (by norm_num) (by norm_num) (le_halfEven_of_even (by norm_num) ?_) (by norm_num)
    norm_num
  · refine @roundTo_ge _ _ 2 (6 * 2 ^ 50) (by norm_num) (by norm_num) (by norm_num) (le_halfEven ?_) (by norm_num)
    norm_num
  · refine @roundTo_ge _ _ 2 (7 * 2 ^ 50) (by norm_num) (by norm_num) (by norm_num) (le_halfEven ?_) (by norm_num)
    norm_num
  · refine @roundTo_ge _ _ 3 (2 ^ 52) (by norm_num) (by norm_num) (by norm_num) (le_halfEven ?_) (by norm_num)
    norm_num

theorem upperBounds_chain : upperBounds.IsChain Lags := by
  have large := overflow_large
  simp only [upperBounds, List.isChain_cons_cons]
  refine ⟨⟨?_, by linarith⟩, ⟨?_, by linarith⟩, ⟨?_, by linarith⟩, ⟨?_, by linarith⟩, ⟨?_, by linarith⟩, ⟨?_, by linarith⟩, ⟨?_, by linarith⟩, .singleton _⟩
  · refine @roundTo_le _ _ 0 (2 ^ 53 - 3) (by norm_num) (by norm_num) (by norm_num) (halfEven_le ?_) (by norm_num)
    norm_num
  · refine @roundTo_le _ _ 1 (3 * 2 ^ 51 - 2) (by norm_num) (by norm_num) (by norm_num) (halfEven_le_of_even (by norm_num) ?_) (by norm_num)
    norm_num
  · refine @roundTo_le _ _ 1 (2 ^ 53 - 2) (by norm_num) (by norm_num) (by norm_num) (halfEven_le ?_) (by norm_num)
    norm_num
  · refine @roundTo_le _ _ 2 (5 * 2 ^ 50 - 1) (by norm_num) (by norm_num) (by norm_num) (halfEven_le ?_) (by norm_num)
    norm_num
  · refine @roundTo_le _ _ 2 (6 * 2 ^ 50 - 1) (by norm_num) (by norm_num) (by norm_num) (halfEven_le ?_) (by norm_num)
    norm_num
  · refine @roundTo_le _ _ 2 (7 * 2 ^ 50 - 1) (by norm_num) (by norm_num) (by norm_num) (halfEven_le ?_) (by norm_num)
    norm_num
  · refine @roundTo_le _ _ 2 (2 ^ 53 - 1) (by norm_num) (by norm_num) (by norm_num) (halfEven_le ?_) (by norm_num)
    norm_num

/-- The bounds hold one after the other. -/
theorem iterate_chain {bound : ℚ → JsNumber → Prop} {relation : ℚ → ℚ → Prop}
    (step : ∀ low high number, relation low high → bound low number → bound high number.next) {bounds : List ℚ}
    (chain : bounds.IsChain relation) {number : JsNumber} (start : ∀ first, bounds.head? = some first → bound first number)
    (k : ℕ) (value : ℚ) (listed : bounds[k]? = some value) : bound value (JsNumber.next^[k] number) := by
  induction k generalizing bounds number with
  | zero => exact start value (by rw [List.head?_eq_getElem?, listed])
  | succ k ih =>
    cases bounds with
    | nil => cases listed
    | cons first rest =>
      cases rest with
      | nil => cases listed
      | cons second rest =>
        obtain ⟨related, later⟩ := List.isChain_cons_cons.mp chain
        refine ih later ?_ listed
        intro head same
        obtain rfl := Option.some.inj same
        exact step first second number related (start first rfl)

theorem Tame.eight {number : JsNumber} (tame : Tame number) : (JsNumber.next^[8] number).AtLeast 8 := by
  have first : number.next.AtLeast (1 - 5 / 2 ^ 53) := by
    cases number with
    | nan => exact tame.elim
    | infinity negative => exact tame
    | finite value => exact JsNumber.AtLeast.ofRational (roundTo_first.1 tame) (by linarith [overflow_large])
  rw [Function.iterate_succ_apply]
  refine iterate_chain (fun low high number climbs above => above.next climbs.1 climbs.2) lowerBounds_chain ?_ 7 8 rfl
  intro head same
  obtain rfl := Option.some.inj same
  exact first

theorem not_tame {number : JsNumber} (wild : ¬Tame number) (k : ℕ) (early : k ≤ 8) :
    ¬(JsNumber.next^[k] number).AtLeast 8 := by
  have bounded : number.AtMost 0 ∧ number.next.AtMost (1 - 6 / 2 ^ 53) := by
    cases number with
    | nan => exact ⟨trivial, trivial⟩
    | infinity negative =>
      have negative_ : negative = true := by simpa [Tame] using wild
      exact ⟨negative_, negative_⟩
    | finite value =>
      have below : value ≤ -(11 / 2 ^ 54) := not_lt.mp wild
      refine ⟨?_, JsNumber.AtMost.ofRational (roundTo_first.2 below) (by linarith [overflow_large])⟩
      change value ≤ 0
      linarith
  cases k with
  | zero => exact bounded.1.not_atLeast (by norm_num)
  | succ k =>
    have inside : k < upperBounds.length := by
      simp only [upperBounds, List.length_cons, List.length_nil]
      omega
    have small : ∀ bound ∈ upperBounds, bound < 8 := by
      simp only [upperBounds, List.mem_cons, List.not_mem_nil, or_false, forall_eq_or_imp, forall_eq]
      norm_num
    have listed : upperBounds[k]? = some upperBounds[k] := List.getElem?_eq_getElem inside
    rw [Function.iterate_succ_apply]
    refine JsNumber.AtMost.not_atLeast (iterate_chain (fun low high number lags below => below.next lags.1 lags.2)
      upperBounds_chain ?_ k _ listed) (small _ (List.getElem_mem inside))
    intro head same
    obtain rfl := Option.some.inj same
    exact bounded.2

end Mounts

end AiryFS
