import AiryFS.Assets.Assets
import AiryFS.Files.StreamSafety

/-! What a call of `putAsset` does to the entries of a volume, and what another call can rely on.

A call owns the names of its temporary files. Apart from these it adds the directories above the assets and the
asset itself, and it leaves alone every inode that none of its own names leads to.
-/

set_option autoImplicit false

namespace AiryFS

open Foundation

/-- The names on the way to the assets. -/
def assetParts : List Text := [".airyfs".toList, "assets".toList, "sha256".toList]

theorem fields_assetRoot : fields '/' ASSET_ROOT = assetParts := by decide

theorem fields_below {label : Text} (filled : label ≠ []) (plain : '/' ∉ label) :
    fields '/' (ASSET_ROOT ++ '/' :: label) = assetParts ++ [label] := by
  have separable : Separable '/' [label] := fun piece member => by
    rw [List.mem_singleton.mp member]
    exact ⟨filled, plain⟩
  have own : fields '/' label = [label] := by simpa using fields_intercalate separable
  rw [fields_append_sep, own, fields_assetRoot]

namespace Volume

/-- What the name leads to in the directory of the assets. -/
def inAssets (volume : Volume) (label : Text) : Option Int :=
  (AgentFS.walk volume ROOT_INO assetParts).bind fun directory => volume.child directory label

def Absent (volume : Volume) (label : Text) : Prop := ∀ parent, volume.child parent label = none

/-- The only entry of the name is in the directory of the assets, and no other name leads to its inode. -/
structure Sits (volume : Volume) (label : Text) (ino : Int) : Prop where
  here : volume.inAssets label = some ino
  only : ∀ parent other, volume.child parent label = some other → other = ino
  sole : volume.Sole label ino
  known : ROOT_INO < ino ∧ ino ≤ volume.inodeSequence

/-- Entries come under the names of a call or under names that it may add, and they lead to what is new or its own. -/
structure Effect (own added : Text → Prop) (before after : Volume) : Prop where
  tree : after.DirectoryTree
  sequence : before.inodeSequence ≤ after.inodeSequence
  kept : ∀ parent label ino, ¬own label → before.child parent label = some ino → after.child parent label = some ino
  led : ∀ parent label ino, after.child parent label = some ino → before.child parent label = some ino ∨
    (own label ∨ added label) ∧ (before.inodeSequence < ino ∨ ∃ other label', own label' ∧ before.child other label' = some ino)
  nodes : ∀ ino ≤ before.inodeSequence, (∀ other label, before.child other label = some ino → ¬own label) → SameNode ino before after
  directory : ∀ ino, before.Directory ino → after.Directory ino

variable {before after volume : Volume} {own added : Text → Prop} {ino parent newParent directory : Int}
  {label name newName : Text} {path : List Text} {chunkSize : Nat}

theorem resolvePath_below {label : Text} (filled : label ≠ []) (plain : '/' ∉ label) :
    AgentFS.resolvePath volume (ASSET_ROOT ++ '/' :: label) = volume.inAssets label := by
  rw [AgentFS.resolvePath_eq, fields_below filled plain, walk_concat, inAssets]

/-! ## Effects -/

theorem Effect.refl (tree : volume.DirectoryTree) : Effect own added volume volume :=
  ⟨tree, Int.le_refl _, fun _ _ _ _ led => led, fun _ _ _ => .inl, fun ino _ _ => .refl ino volume, fun _ => id⟩

theorem effect_adds (tree : before.DirectoryTree) (adds : Adds ino parent name before after) (below : before.Directory parent)
    (row : ∃ row, after.inode? ino = some row) (valid : name ≠ [] ∧ '/' ∉ name) (mine : own name ∨ added name) :
    Effect own added before after where
  tree := tree.adds adds below row valid
  sequence := by
    have fresh := adds.fresh
    have sequence := adds.sequence
    omega
  kept other label number _ led := by
    rw [adds.child, if_neg]
    · exact led
    · rintro ⟨rfl, rfl⟩
      rw [child, adds.absent] at led
      cases led
  led other label number led := by
    rw [adds.child] at led
    split at led
    · rename_i here
      have fresh := adds.fresh
      rw [here.2, ← Option.some.inj led]
      exact .inr ⟨mine, .inl (by omega)⟩
    · exact .inl led
  nodes number within _ := (adds.untouched number within).same
  directory number := by
    rintro ⟨row, stored, kind⟩
    have within := tree.numbered.inodes number (by simp [stored])
    exact ((adds.untouched number within).same.directory).mpr ⟨row, stored, kind⟩

theorem effect_touches (touches : Touches ino before after) (tree : after.DirectoryTree) {other : Int} {label : Text}
    (led : before.child other label = some ino) (mine : own label) (kind : ¬before.Directory ino) : Effect own added before after where
  tree := tree
  sequence := Int.le_of_eq touches.sequence.symm
  kept parent label number _ led := by
    rw [child_congr touches.dentry]
    exact led
  led parent label number led := by
    rw [child_congr touches.dentry] at led
    exact .inl led
  nodes number _ others := by
    refine (touches.untouched ?_).same
    rintro rfl
    exact others other label led mine
  directory number within := by
    refine ((touches.untouched ?_).same.directory).mpr within
    rintro rfl
    exact kind within

theorem effect_moves (tree : before.DirectoryTree) (moves : Moves parent name newParent newName ino before after)
    (found : before.child parent name = some ino) (free : before.child newParent newName = none)
    (below : before.Directory newParent) (valid : newName ≠ [] ∧ '/' ∉ newName) (kind : ¬before.Directory ino)
    (mine : own name) (target : own newName ∨ added newName) : Effect own added before after where
  tree := tree.moves moves found free below valid kind
  sequence := Int.le_of_eq moves.sequence.symm
  kept other label number others led := by
    rw [moves.children, if_neg, if_neg]
    · exact led
    · rintro ⟨rfl, rfl⟩
      exact others mine
    · rintro ⟨rfl, rfl⟩
      rw [free] at led
      cases led
  led other label number led := by
    rw [moves.children] at led
    split at led
    · rename_i here
      rw [here.2, ← Option.some.inj led]
      exact .inr ⟨target, .inr ⟨parent, name, mine, found⟩⟩
    · split at led
      · cases led
      · exact .inl led
  nodes number _ _ := moves.nodes number (by rw [free]; nofun)
  directory number := (moves.nodes number (by rw [free]; nofun)).directory.mpr

theorem effect_removes (tree : volume.DirectoryTree) (found : volume.child parent name = some ino)
    (only : ∀ other label, volume.child other label = some ino → other = parent ∧ label = name) (kind : ¬volume.Directory ino)
    (mine : own name) : Effect own added volume (AgentFS.removeDentryAndMaybeInode volume parent name ino) where
  tree := tree.removes only kind
  sequence := Int.le_of_eq (removed_entry volume parent name ino).2.1.symm
  kept other label number others led := by
    rw [child_removed, if_neg]
    · exact led
    · rintro ⟨rfl, rfl⟩
      exact others mine
  led other label number led := by
    rw [child_removed] at led
    split at led
    · cases led
    · exact .inl led
  nodes number _ others := by
    refine (removed_entry volume parent name ino).2.2.2 number ?_
    rintro rfl
    exact others parent name found mine
  directory number within := by
    refine ((removed_entry volume parent name ino).2.2.2 number ?_).directory.mpr within
    rintro rfl
    exact kind within

/-! ## What others rely on -/

/-- Induction on the path, whose names are all kept. -/
theorem Effect.walks (effect : Effect own added before after) (others : ∀ label ∈ path, ¬own label) {start : Int}
    (reached : AgentFS.walk before start path = some ino) : AgentFS.walk after start path = some ino := by
  induction path using List.reverseRecOn generalizing ino with
  | nil => exact reached
  | append_singleton front label ih =>
    rw [walk_concat, Option.bind_eq_some_iff] at reached ⊢
    obtain ⟨above, walked, led⟩ := reached
    exact ⟨above, ih (fun name member => others name (List.mem_append_left _ member)) walked,
      effect.kept above label ino (others label (by simp)) led⟩

theorem Effect.inAssets (effect : Effect own added before after) (apart : ∀ label ∈ assetParts, ¬own label) (other : ¬own label)
    (here : before.inAssets label = some ino) : after.inAssets label = some ino := by
  obtain ⟨directory, reached, led⟩ := Option.bind_eq_some_iff.mp here
  exact Option.bind_eq_some_iff.mpr ⟨directory, effect.walks apart reached, effect.kept directory label ino other led⟩

theorem Effect.absent (effect : Effect own added before after) (other : ¬own label) (unadded : ¬added label)
    (absent : before.Absent label) : after.Absent label := by
  intro parent
  cases led : after.child parent label with
  | none => rfl
  | some number =>
    rcases effect.led parent label number led with earlier | ⟨named, -⟩
    · cases (absent parent).symm.trans earlier
    · exact (named.elim other unadded).elim

/-- A name of the directory of the assets stays free where it is not added. -/
theorem Effect.free (effect : Effect own added before after) (apart : ∀ label ∈ assetParts, ¬own label) (other : ¬own label)
    (unadded : ¬added label) (reached : AgentFS.walk before ROOT_INO assetParts = some directory)
    (free : before.inAssets label = none) : after.inAssets label = none := by
  rw [Volume.inAssets, reached, Option.bind_some] at free
  rw [Volume.inAssets, effect.walks apart reached, Option.bind_some]
  cases led : after.child directory label with
  | none => rfl
  | some number =>
    rcases effect.led directory label number led with earlier | ⟨named, -⟩
    · cases free.symm.trans earlier
    · exact (named.elim other unadded).elim

/-- A file of another call stays where it is, as it is. -/
theorem Effect.sits (effect : Effect own added before after) (apart : ∀ label ∈ assetParts, ¬own label) (other : ¬own label)
    (unadded : ¬added label) (sits : before.Sits label ino) : after.Sits label ino ∧ SameNode ino before after := by
  have mine : ∀ parent number, after.child parent label = some number → before.child parent label = some number := by
    intro parent number led
    exact (effect.led parent label number led).resolve_right fun named => named.1.elim other unadded
  have old : ∀ parent name, after.child parent name = some ino → before.child parent name = some ino := by
    intro parent name led
    rcases effect.led parent name ino led with earlier | ⟨-, fresh | ⟨parent', name', owned, led'⟩⟩
    · exact earlier
    · have within := sits.known.2
      omega
    · rw [(sits.sole parent' name' led').1] at owned
      exact (other owned).elim
  refine ⟨⟨effect.inAssets apart other sits.here, fun parent number led => sits.only parent number (mine parent number led), ?_,
    sits.known.1, Int.le_trans sits.known.2 effect.sequence⟩, ?_⟩
  · intro parent name led
    obtain ⟨same, alone⟩ := sits.sole parent name (old parent name led)
    exact ⟨same, fun parent' name' led' => alone parent' name' (old parent' name' led')⟩
  · refine effect.nodes ino sits.known.2 fun parent name led owned => ?_
    rw [(sits.sole parent name led).1] at owned
    exact other owned

/-! ## What a call knows of its own files -/

theorem Effect.mono {own' added' : Text → Prop} (effect : Effect own added before after) (names : ∀ label, own label → own' label)
    (adds : ∀ label, added label → added' label) : Effect own' added' before after where
  tree := effect.tree
  sequence := effect.sequence
  kept parent label number others := effect.kept parent label number fun mine => others (names label mine)
  led parent label number led := by
    refine (effect.led parent label number led).imp_right fun ⟨named, leads⟩ => ⟨named.imp (names label) (adds label), ?_⟩
    exact leads.imp_right fun ⟨other, label', mine, found⟩ => ⟨other, label', names label' mine, found⟩
  nodes number within others := effect.nodes number within fun other label found mine => others other label found (names label mine)
  directory := effect.directory

theorem Sits.entry (sits : volume.Sits label ino) : ∃ directory, AgentFS.walk volume ROOT_INO assetParts = some directory ∧
    volume.child directory label = some ino ∧ ∀ other name, volume.child other name = some ino → other = directory ∧ name = label := by
  obtain ⟨directory, reached, led⟩ := Option.bind_eq_some_iff.mp sits.here
  refine ⟨directory, reached, led, fun other name found => ?_⟩
  obtain ⟨same, alone⟩ := sits.sole other name found
  exact ⟨(alone directory label led).symm, same⟩

theorem sits_adds (tree : before.DirectoryTree) (adds : Adds ino directory label before after)
    (reached : AgentFS.walk before ROOT_INO assetParts = some directory) (absent : before.Absent label) : after.Sits label ino := by
  have fresh := adds.fresh
  have sequence := adds.sequence
  have unled : ∀ parent name, before.child parent name ≠ some ino := by
    intro parent name led
    obtain ⟨entry, member, _, _, same⟩ := mem_of_child led
    have within := (tree.numbered.entries entry member).1
    omega
  have only : ∀ parent name number, after.child parent name = some number → name = label ∨ number = ino →
      parent = directory ∧ name = label ∧ number = ino := by
    intro parent name number led named
    rw [adds.child] at led
    split at led
    · rename_i here
      exact ⟨here.1, here.2, (Option.some.inj led).symm⟩
    · rcases named with rfl | rfl
      · cases (absent parent).symm.trans led
      · exact (unled parent name led).elim
  refine ⟨?_, fun parent number led => (only parent label number led (.inl rfl)).2.2, ?_, ?_⟩
  · refine Option.bind_eq_some_iff.mpr ⟨directory, ?_, by rw [adds.child, if_pos ⟨rfl, rfl⟩]⟩
    exact walk_of_more (fun _ _ _ => adds.dentry?_of_some) reached
  · intro parent name led
    obtain ⟨here, same, -⟩ := only parent name ino led (.inr rfl)
    exact ⟨same, fun parent' name' led' => (only parent' name' ino led' (.inr rfl)).1.trans here.symm⟩
  · have rooted := tree.rooted
    omega

theorem absent_moves (sits : before.Sits label ino) (moves : Moves directory label directory newName ino before after)
    (reached : AgentFS.walk before ROOT_INO assetParts = some directory) (different : label ≠ newName) : after.Absent label := by
  obtain ⟨directory', reached', led, only⟩ := sits.entry
  obtain rfl : directory = directory' := Option.some.inj (reached.symm.trans reached')
  intro parent
  rw [moves.children, if_neg fun here => different here.2]
  split
  · rfl
  · rename_i elsewhere
    cases found : before.child parent label with
    | none => rfl
    | some number =>
      have same := sits.only parent number found
      exact (elsewhere (only parent label (by rw [found, same]))).elim

theorem sits_moves (sits : before.Sits label ino) (moves : Moves directory label directory newName ino before after)
    (reached : AgentFS.walk before ROOT_INO assetParts = some directory) (absent : before.Absent newName)
    (apart : label ∉ assetParts) (apart' : newName ∉ assetParts) : after.Sits newName ino := by
  obtain ⟨directory', reached', led, only⟩ := sits.entry
  obtain rfl : directory = directory' := Option.some.inj (reached.symm.trans reached')
  have away : ∀ parent name number, after.child parent name = some number → name = newName ∨ number = ino →
      parent = directory ∧ name = newName ∧ number = ino := by
    intro parent name number found named
    rw [moves.children] at found
    split at found
    · rename_i here
      exact ⟨here.1, here.2, (Option.some.inj found).symm⟩
    · split at found
      · cases found
      · rename_i elsewhere
        rcases named with rfl | rfl
        · cases (absent parent).symm.trans found
        · exact (elsewhere (only parent name found)).elim
  refine ⟨?_, fun parent number found => (away parent newName number found (.inl rfl)).2.2, ?_, ?_⟩
  · refine Option.bind_eq_some_iff.mpr ⟨directory, ?_, by rw [moves.children, if_pos ⟨rfl, rfl⟩]⟩
    -- No entry on the way has moved.
    have others : ∀ front, front <+: assetParts → AgentFS.walk after ROOT_INO front = AgentFS.walk before ROOT_INO front := by
      intro front shorter
      induction front using List.reverseRecOn with
      | nil => rfl
      | append_singleton front name ih =>
        have member : name ∈ assetParts := shorter.subset (by simp)
        rw [walk_concat, walk_concat, ih ((List.prefix_append front [name]).trans shorter)]
        congr
        funext parent
        rw [moves.children, if_neg, if_neg]
        · rintro ⟨-, rfl⟩
          exact apart member
        · rintro ⟨-, rfl⟩
          exact apart' member
    rw [others _ (List.prefix_refl _)]
    exact reached
  · intro parent name found
    obtain ⟨here, same, -⟩ := away parent name ino found (.inr rfl)
    exact ⟨same, fun parent' name' found' => (away parent' name' ino found' (.inr rfl)).1.trans here.symm⟩
  · rw [moves.sequence]
    exact sits.known

/-- A file of the directory of the assets gets a name of it that is free. -/
theorem rename_sits {path newPath : Text} (tree : before.DirectoryTree) (sits : before.Sits label ino)
    (spelled : fields '/' path = assetParts ++ [label]) (spelled' : fields '/' newPath = assetParts ++ [newName])
    (free : before.inAssets newName = none) (different : label ≠ newName) (renamed : AgentFS.rename before path newPath = .ok after) :
    ∃ directory, AgentFS.walk before ROOT_INO assetParts = some directory ∧ before.child directory label = some ino ∧
      before.child directory newName = none ∧ before.Directory directory ∧ Moves directory label directory newName ino before after := by
  obtain ⟨directory, reached, led, only⟩ := sits.entry
  have source : AgentFS.resolveParent before path = some (directory, label) :=
    AgentFS.resolveParent_eq_some.mpr ⟨assetParts, spelled, reached⟩
  have target : AgentFS.resolveParent before newPath = some (directory, newName) :=
    AgentFS.resolveParent_eq_some.mpr ⟨assetParts, spelled', reached⟩
  obtain ⟨number, found, -, moves⟩ := AgentFS.rename_moves renamed source target fun same => different same.2
  obtain rfl : ino = number := Option.some.inj (led.symm.trans found)
  rw [inAssets, reached, Option.bind_some] at free
  exact ⟨directory, reached, led, free, tree.holder led, moves⟩

theorem absent_removes (sits : volume.Sits label ino) (found : volume.child parent name = some ino) :
    (AgentFS.removeDentryAndMaybeInode volume parent name ino).Absent label := by
  obtain ⟨directory, reached, led, only⟩ := sits.entry
  obtain ⟨rfl, rfl⟩ := only parent name found
  intro other
  rw [child_removed]
  split
  · rfl
  · rename_i elsewhere
    cases left : volume.child other name with
    | none => rfl
    | some number =>
      have same := sits.only other number left
      exact (elsewhere (only other name (by rw [left, same]))).elim

end Volume

end AiryFS
