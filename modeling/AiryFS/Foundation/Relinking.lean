import Mathlib.Data.List.Infix
import Mathlib.Tactic.Common

/-! A graph of labelled edges, one of which is taken up and hung elsewhere.

What a path leads to is read off the edges. Hanging a node elsewhere moves the paths below it, and only
those, exactly when the node does not lead back to either end of the move and no second path leads there.
-/

set_option autoImplicit false

namespace Foundation

namespace Relinking

variable {Node Label : Type}

/-- Where the labels lead. -/
@[grind =]
def follow (child : Node → Label → Option Node) : Node → List Label → Option Node
  | here, [] => some here
  | here, label :: rest => (child here label).bind fun next => follow child next rest

variable {child child' : Node → Label → Option Node} {start node : Node} {label : Label} {place rest : List Label}

@[simp] theorem follow_nil : follow child start [] = some start := rfl

theorem follow_cons : follow child start (label :: rest) = (child start label).bind fun next => follow child next rest := rfl

theorem follow_append (first second : List Label) :
    follow child start (first ++ second) = (follow child start first).bind fun next => follow child next second := by
  induction first generalizing start with
  | nil => rfl
  | cons label first ih =>
    rw [List.cons_append, follow_cons, follow_cons]
    cases child start label with
    | none => rfl
    | some next => exact ih

theorem follow_concat : follow child start (place ++ [label]) = (follow child start place).bind fun here => child here label := by
  rw [follow_append]
  congr 1
  funext here
  rw [follow_cons]
  cases child here label <;> rfl

theorem follow_isSome_of_prefix {front : List Label} (shorter : front <+: place) (reached : follow child start place = some node) :
    ∃ here, follow child start front = some here := by
  obtain ⟨rest, rfl⟩ := shorter
  rw [follow_append, Option.bind_eq_some_iff] at reached
  obtain ⟨here, found, _⟩ := reached
  exact ⟨here, found⟩

/-- A path that meets only edges that are the same leads where it led. -/
theorem follow_congr (same : ∀ front label here, front ++ [label] <+: place → follow child start front = some here →
      child' here label = child here label) : follow child' start place = follow child start place := by
  induction place generalizing start with
  | nil => rfl
  | cons first rest ih =>
    rw [follow_cons, follow_cons, same [] first start ⟨rest, rfl⟩ rfl]
    cases found : child start first with
    | none => rfl
    | some next =>
      refine ih fun front label here within reached => same (first :: front) label here ?_ ?_
      · exact List.cons_prefix_cons.mpr ⟨rfl, within⟩
      · rw [follow_cons, found]
        exact reached

variable {root parent newParent other : Node} {name newName : Label} {parts newParts : List Label}

/-- A move of the node at the end of one path to the end of another, where nothing is. -/
structure Move (child : Node → Label → Option Node) (root : Node) (parts : List Label) (name : Label) (newParts : List Label)
    (newName : Label) (parent newParent node : Node) : Prop where
  source : follow child root parts = some parent
  target : follow child root newParts = some newParent
  held : child parent name = some node
  free : child newParent newName = none

/-- What was below the one path is below the other, and all the other paths lead where they led. -/
structure Carried (child child' : Node → Label → Option Node) (root : Node) (place newPlace : List Label) : Prop where
  arrived : ∀ rest, follow child' root (newPlace ++ rest) = follow child root (place ++ rest)
  others : ∀ other, ¬place <+: other → ¬newPlace <+: other → follow child' root other = follow child root other

/-- The node does not lead to either end, and one path leads to each. -/
structure Alone (child : Node → Label → Option Node) (root : Node) (parts newParts : List Label) (parent newParent node : Node) :
    Prop where
  above : ∀ rest, follow child node rest ≠ some parent
  below : ∀ rest, follow child node rest ≠ some newParent
  source : ∀ place, follow child root place = some parent → place = parts
  target : ∀ place, follow child root place = some newParent → place = newParts

section

variable (move : Move child root parts name newParts newName parent newParent node)

include move

theorem Move.apart : ¬(parent = newParent ∧ name = newName) := by
  rintro ⟨rfl, rfl⟩
  exact absurd (move.held.symm.trans move.free) (by simp)

theorem Move.reached : follow child root (parts ++ [name]) = some node := by
  rw [follow_concat, move.source]
  exact move.held

theorem Move.absent : follow child root (newParts ++ [newName]) = none := by
  rw [follow_concat, move.target]
  exact move.free

/-- Nothing was below the new place. -/
theorem Move.absent_below {other : List Label} (within : newParts ++ [newName] <+: other) : follow child root other = none := by
  rw [Option.eq_none_iff_forall_ne_some]
  intro here reached
  obtain ⟨_, found⟩ := follow_isSome_of_prefix within reached
  exact absurd (move.absent.symm.trans found) (by simp)

end

/-! ## Hanging the node elsewhere -/

variable [DecidableEq Node] [DecidableEq Label]

/-- The edge is gone, and the node hangs at another. -/
def relink (child : Node → Label → Option Node) (parent : Node) (name : Label) (newParent : Node) (newName : Label) (node : Node)
    (other : Node) (label : Label) : Option Node :=
  if other = newParent ∧ label = newName then some node
  else if other = parent ∧ label = name then none
  else child other label

theorem relink_new : relink child parent name newParent newName node newParent newName = some node := if_pos ⟨rfl, rfl⟩

theorem relink_old (apart : ¬(parent = newParent ∧ name = newName)) :
    relink child parent name newParent newName node parent name = none := by
  rw [relink, if_neg apart, if_pos ⟨rfl, rfl⟩]

theorem relink_other (fresh : ¬(other = newParent ∧ label = newName)) (kept : ¬(other = parent ∧ label = name)) :
    relink child parent name newParent newName node other label = child other label := by
  rw [relink, if_neg fresh, if_neg kept]

/-- A node that hung at one place and is moved to a free one, and back, has not moved. -/
theorem relink_back (held : child parent name = some node) (free : child newParent newName = none) :
    relink (relink child parent name newParent newName node) newParent newName parent name node = child := by
  funext other label
  unfold relink
  split
  · rename_i here
    rw [here.1, here.2, held]
  · split
    · rename_i there
      rw [there.1, there.2, free]
    · rfl

section

variable (move : Move child root parts name newParts newName parent newParent node)

include move

/-- The way to the new parent does not pass the node. -/
theorem Move.target_kept (below : ∀ rest, follow child node rest ≠ some newParent)
    (only : ∀ place, follow child root place = some newParent → place = newParts) :
    follow (relink child parent name newParent newName node) root newParts = some newParent := by
  refine (follow_congr fun front label here within reached => relink_other ?_ ?_).trans move.target
  · rintro ⟨rfl, rfl⟩
    rw [only front reached] at within
    exact absurd within.length_le (by simp)
  · rintro ⟨rfl, rfl⟩
    obtain ⟨rest, spelled⟩ := within
    apply below rest
    have along := move.target
    rw [← spelled, follow_append, follow_concat, reached, Option.bind_some, move.held] at along
    exact along

theorem Move.carried_of_alone (alone : Alone child root parts newParts parent newParent node) :
    Carried child (relink child parent name newParent newName node) root (parts ++ [name]) (newParts ++ [newName]) where
  arrived := by
    intro rest
    have here : follow (relink child parent name newParent newName node) root (newParts ++ [newName]) = some node := by
      rw [follow_concat, move.target_kept alone.below alone.target]
      exact relink_new
    rw [follow_append, here, follow_append, move.reached, Option.bind_some, Option.bind_some]
    refine follow_congr fun front label here _ reached => relink_other ?_ ?_
    · rintro ⟨rfl, _⟩
      exact alone.below front reached
    · rintro ⟨rfl, _⟩
      exact alone.above front reached
  others := by
    intro other outside elsewhere
    refine follow_congr fun front label here within reached => relink_other ?_ ?_
    · rintro ⟨rfl, rfl⟩
      rw [alone.target front reached] at within
      exact elsewhere within
    · rintro ⟨rfl, rfl⟩
      rw [alone.source front reached] at within
      exact outside within

theorem Move.below_of_carried
    (carried : Carried child (relink child parent name newParent newName node) root (parts ++ [name]) (newParts ++ [newName]))
    (rest : List Label) : follow child node rest ≠ some newParent := by
  intro reached
  have old : follow child root (parts ++ [name] ++ rest) = some newParent := by
    rw [follow_append, move.reached]
    exact reached
  have now := carried.arrived (rest ++ [newName])
  rw [← List.append_assoc, ← List.append_assoc, follow_concat, follow_concat, carried.arrived rest, old, Option.bind_some,
    Option.bind_some, relink_new, move.free] at now
  cases now

theorem Move.above_of_carried
    (carried : Carried child (relink child parent name newParent newName node) root (parts ++ [name]) (newParts ++ [newName]))
    (rest : List Label) : follow child node rest ≠ some parent := by
  intro reached
  have old : follow child root (parts ++ [name] ++ rest) = some parent := by
    rw [follow_append, move.reached]
    exact reached
  have now := carried.arrived (rest ++ [name])
  rw [← List.append_assoc, ← List.append_assoc, follow_concat, follow_concat, carried.arrived rest, old, Option.bind_some,
    Option.bind_some, relink_old move.apart, move.held] at now
  cases now

/-- A second path to the place where the node hangs, or hung, would not lead where it led. -/
theorem Move.alone_of_carried
    (carried : Carried child (relink child parent name newParent newName node) root (parts ++ [name]) (newParts ++ [newName])) :
    Alone child root parts newParts parent newParent node where
  above := move.above_of_carried carried
  below := move.below_of_carried carried
  source := by
    intro place reached
    by_contra different
    have held : follow child root (place ++ [name]) = some node := by
      rw [follow_concat, reached]
      exact move.held
    have outside : ¬parts ++ [name] <+: place := by
      rintro ⟨rest, rfl⟩
      rw [follow_append, move.reached] at reached
      exact move.above_of_carried carried rest reached
    have elsewhere : ∀ {other here}, follow child root other = some here → ¬newParts ++ [newName] <+: other :=
      fun found within => absurd ((move.absent_below within).symm.trans found) (by simp)
    have longer : ¬parts ++ [name] <+: place ++ [name] := by
      intro within
      rcases List.prefix_concat_iff.mp within with same | within
      · exact different (List.append_inj_left' same rfl).symm
      · exact outside within
    have now := carried.others (place ++ [name]) longer (elsewhere held)
    rw [held, follow_concat, carried.others place outside (elsewhere reached), reached, Option.bind_some,
      relink_old move.apart] at now
    cases now
  target := by
    intro place reached
    by_contra different
    have free : follow child root (place ++ [newName]) = none := by
      rw [follow_concat, reached]
      exact move.free
    have elsewhere : ¬newParts ++ [newName] <+: place :=
      fun within => absurd ((move.absent_below within).symm.trans reached) (by simp)
    have outside : ¬parts ++ [name] <+: place := by
      rintro ⟨rest, rfl⟩
      rw [follow_append, move.reached] at reached
      exact move.below_of_carried carried rest reached
    have beside : ¬newParts ++ [newName] <+: place ++ [newName] := by
      intro within
      rcases List.prefix_concat_iff.mp within with same | within
      · exact different (List.append_inj_left' same rfl).symm
      · exact elsewhere within
    have longer : ¬parts ++ [name] <+: place ++ [newName] := by
      intro within
      rcases List.prefix_concat_iff.mp within with same | within
      · rw [← same, move.reached] at free
        cases free
      · exact outside within
    have now := carried.others (place ++ [newName]) longer beside
    rw [free, follow_concat, carried.others place outside elsewhere, reached, Option.bind_some, relink_new] at now
    cases now

end

/-! ## Graphs without returns -/

/-- No path from the root comes back to where it has been. -/
def Returnless (child : Node → Label → Option Node) (root : Node) : Prop :=
  ∀ front rest here, follow child root front = some here → follow child here rest = some here → rest = []

/-- One path leads to the node. -/
structure Solely (child : Node → Label → Option Node) (root : Node) (place : List Label) (node : Node) : Prop where
  here : follow child root place = some node
  only : ∀ other, follow child root other = some node → other = place

section

variable (move : Move child root parts name newParts newName parent newParent node)

include move

omit [DecidableEq Node] [DecidableEq Label] in
theorem Move.above (returnless : Returnless child root) (rest : List Label) : follow child node rest ≠ some parent := by
  intro back
  have around : follow child node (rest ++ [name]) = some node := by
    rw [follow_concat, back]
    exact move.held
  exact absurd (returnless _ _ _ move.reached around) (by simp)

omit [DecidableEq Node] [DecidableEq Label] in
/-- What hangs beside the way to the new parent does not lead to it. -/
theorem Move.below (sole : Solely child root newParts newParent) (beside : ¬parts ++ [name] <+: newParts) (rest : List Label) :
    follow child node rest ≠ some newParent := by
  intro reached
  apply beside
  have along : follow child root (parts ++ [name] ++ rest) = some newParent := by
    rw [follow_append, move.reached]
    exact reached
  exact ⟨rest, sole.only _ along⟩

/-- A path after the move is one of before, or goes through the new edge once. -/
theorem Move.follow_relink (below : ∀ rest, follow child node rest ≠ some newParent) {start reached : Node} {place : List Label}
    (found : follow (relink child parent name newParent newName node) start place = some reached) :
    follow child start place = some reached ∨ ∃ front rest, place = front ++ newName :: rest ∧
      follow child start front = some newParent ∧ follow child node rest = some reached := by
  induction place using List.reverseRecOn generalizing reached with
  | nil => exact .inl found
  | append_singleton place label ih =>
    rw [follow_concat, Option.bind_eq_some_iff] at found
    obtain ⟨here, earlier, last⟩ := found
    unfold relink at last
    split at last
    · rename_i fresh
      obtain ⟨rfl, rfl⟩ := fresh
      obtain rfl := Option.some.inj last
      rcases ih earlier with before | ⟨front, rest, -, -, there⟩
      · exact .inr ⟨place, [], rfl, before, rfl⟩
      · exact absurd there (below rest)
    · split at last
      · cases last
      · rcases ih earlier with before | ⟨front, rest, rfl, there, along⟩
        · exact .inl (by rw [follow_concat, before]; exact last)
        · exact .inr ⟨front, rest ++ [label], by simp, there, by rw [follow_concat, along]; exact last⟩

theorem Move.returnless (returnless : Returnless child root) (below : ∀ rest, follow child node rest ≠ some newParent) :
    Returnless (relink child parent name newParent newName node) root := by
  intro front rest here reached around
  have known : ∃ place, follow child root place = some here := by
    rcases move.follow_relink below reached with before | ⟨_, beyond, _, _, along⟩
    · exact ⟨front, before⟩
    · exact ⟨parts ++ [name] ++ beyond, by rw [follow_append, move.reached]; exact along⟩
  obtain ⟨place, before⟩ := known
  rcases move.follow_relink below around with same | ⟨first, second, _, there, back⟩
  · exact returnless place rest here before same
  · -- The node would lead to where it now hangs.
    exfalso
    apply below (second ++ first)
    rw [follow_append, back]
    exact there

theorem Move.solely (sole : Solely child root newParts newParent) (below : ∀ rest, follow child node rest ≠ some newParent) :
    Solely (relink child parent name newParent newName node) root newParts newParent where
  here := move.target_kept below sole.only
  only := by
    intro other reached
    rcases move.follow_relink below reached with before | ⟨_, rest, _, _, back⟩
    · exact sole.only other before
    · exact absurd back (below rest)

/-- The move back. -/
theorem Move.reverse (returnless : Returnless child root) (sole : Solely child root newParts newParent)
    (below : ∀ rest, follow child node rest ≠ some newParent) :
    Move (relink child parent name newParent newName node) root newParts newName parts name newParent parent node where
  source := move.target_kept below sole.only
  target := by
    refine (follow_congr fun front label here within reached => relink_other ?_ ?_).trans move.source
    · rintro ⟨rfl, rfl⟩
      obtain ⟨_, found⟩ := follow_isSome_of_prefix within move.source
      rw [follow_concat, reached, Option.bind_some, move.free] at found
      cases found
    · rintro ⟨rfl, rfl⟩
      obtain ⟨rest, spelled⟩ := within
      have along := move.source
      rw [← spelled, follow_append, follow_concat, reached, Option.bind_some, move.held] at along
      exact move.above returnless rest along
  held := relink_new
  free := relink_old move.apart

end

/-! ## A node that is hung below itself -/

section

variable (move : Move child root parts name (parts ++ [name]) newName parent node node)

include move

/-- No path leads to it, so no new path has come up. -/
theorem Move.lost (sole : Solely child root (parts ++ [name]) node) {place : List Label} {reached : Node}
    (found : follow (relink child parent name node newName node) root place = some reached) :
    follow child root place = some reached ∧ reached ≠ node := by
  induction place using List.reverseRecOn generalizing reached with
  | nil =>
    refine ⟨found, ?_⟩
    rintro rfl
    exact absurd (sole.only [] found) (by simp)
  | append_singleton place label ih =>
    rw [follow_concat, Option.bind_eq_some_iff] at found
    obtain ⟨here, earlier, last⟩ := found
    obtain ⟨before, apart⟩ := ih earlier
    unfold relink at last
    rw [if_neg fun fresh => apart fresh.1] at last
    split at last
    · cases last
    · rename_i kept
      have now : follow child root (place ++ [label]) = some reached := by
        rw [follow_concat, before]
        exact last
      refine ⟨now, ?_⟩
      rintro rfl
      obtain ⟨rfl, same⟩ := List.append_inj' (sole.only _ now) rfl
      exact kept ⟨Option.some.inj (before.symm.trans move.source), List.singleton_inj.mp same⟩

theorem Move.lost_returnless (returnless : Returnless child root) (sole : Solely child root (parts ++ [name]) node) :
    Returnless (relink child parent name node newName node) root := by
  intro front rest here reached around
  have whole : follow (relink child parent name node newName node) root (front ++ rest) = some here := by
    rw [follow_append, reached]
    exact around
  have before := (move.lost sole reached).1
  have along := (move.lost sole whole).1
  rw [follow_append, before] at along
  exact returnless front rest here before along

theorem Move.lost_absent (sole : Solely child root (parts ++ [name]) node) :
    follow (relink child parent name node newName node) root (parts ++ [name]) = none := by
  rw [Option.eq_none_iff_forall_ne_some]
  intro reached found
  obtain ⟨before, apart⟩ := move.lost sole found
  exact apart (Option.some.inj (before.symm.trans sole.here))

end

end Relinking

end Foundation
