import AiryFS.Transfer.TreeImport
import AiryFS.Transfer.Extracting
import AiryFS.Direct.Children
import AiryFS.Namespace.Tree

/-! The old part of a volume and the new one, while a tree is swapped in.

The new part is closed under entries, so whatever is removed inside it leaves the old part
as it was. What the old directories list is a function that each step changes at one name.
-/

set_option autoImplicit false

namespace AiryFS

open Foundation Attempt Relation

namespace Volume

/-- A volume as the filesystem relists it. -/
structure Proper (volume : Volume) : Prop where
  tree : volume.Tree
  numbered : volume.Numbered
  names : ∀ entry ∈ volume.dentry.rows, entry.name ≠ [] ∧ '/' ∉ entry.name

/-- What a swap needs of it. A file may have entries below it: a rename does not look at what its new parent is. -/
structure Sound (volume : Volume) : Prop where
  directory : ∃ row, volume.inode? ROOT_INO = some row ∧ isDirectory row.mode = true
  top : ∀ parent name, volume.child parent name ≠ some ROOT_INO
  acyclic : Acyclic volume.Climbs
  numbered : volume.Numbered
  names : ∀ entry ∈ volume.dentry.rows, entry.name ≠ [] ∧ '/' ∉ entry.name

/-- Apart from the new part, the directories list this, and the old inodes are what they were. -/
structure Relists (prior : Volume) (new : Int → Prop) (view : Int → Text → Option Int) (volume : Volume) : Prop where
  numbered : volume.Numbered
  rooted : ROOT_INO ≤ volume.inodeSequence
  closed : volume.Closed new
  children : ∀ ino label, ¬new ino → volume.child ino label = view ino label
  nodes : ∀ ino ≤ prior.inodeSequence, SameNode ino prior volume

/-- A part of the volume is as it was staged. -/
structure Carries (region : Int → Prop) (staged volume : Volume) : Prop where
  children : ∀ ino label, region ino → volume.child ino label = staged.child ino label
  nodes : ∀ ino, region ino → SameNode ino staged volume

/-- The subtree at the path is what it was: the same entries, leading to the same contents. -/
def Unchanged (prior volume : Volume) (path : Text) : Prop :=
  ∀ rest, AgentFS.walk volume ROOT_INO (fields '/' path ++ rest) = AgentFS.walk prior ROOT_INO (fields '/' path ++ rest) ∧
    ∀ ino, AgentFS.walk prior ROOT_INO (fields '/' path ++ rest) = some ino → SameNode ino prior volume

/-- The listing with one name changed. -/
def relist (view : Int → Text → Option Int) (parent : Int) (name : Text) (ino : Option Int) : Int → Text → Option Int :=
  fun other label => if other = parent ∧ label = name then ino else view other label

/-- What moves away and back leaves the listing as it was. -/
theorem relist_returned {view : Int → Text → Option Int} {parent newParent ino : Int} {name newName : Text}
    (held : view parent name = some ino) (free : view newParent newName = none) :
    relist (relist (relist (relist view parent name none) newParent newName (some ino)) newParent newName none) parent name (some ino) =
      view := by
  funext other label
  unfold relist
  split
  · rename_i here
    rw [here.1, here.2, held]
  · split
    · rename_i there
      rw [there.1, there.2, free]
    · rfl

variable {prior staged volume volume' : Volume} {new inside region : Int → Prop} {view : Int → Text → Option Int}
  {parent base ino : Int} {name : Text} {place : List Text} {chunkSize : Nat} {tree : PathTree}

theorem Proper.sound (proper : prior.Proper) : prior.Sound := by
  have root := proper.tree.tidy.root
  rw [Ledger.directory, ledger_account_node, Option.any_map, Option.any_eq_true] at root
  refine ⟨root, ?_, proper.tree.acyclic, proper.numbered, proper.names⟩
  intro parent name found
  have top : prior.links ROOT_INO = 0 := proper.tree.tidy.top
  obtain ⟨entry, member, _, _, same⟩ := mem_of_child found
  rw [links, Table.count_eq_zero_iff] at top
  exact of_decide_eq_false (top entry member) same

theorem Sound.rooted (sound : prior.Sound) : ROOT_INO ≤ prior.inodeSequence := by
  obtain ⟨row, found, _⟩ := sound.directory
  exact sound.numbered.inodes ROOT_INO (by rw [found]; simp)

theorem Sound.child_le (sound : prior.Sound) (found : prior.child parent name = some ino) :
    parent ≤ prior.inodeSequence ∧ ino ≤ prior.inodeSequence := by
  obtain ⟨entry, member, rfl, _, rfl⟩ := mem_of_child found
  exact ⟨(sound.numbered.entries entry member).2, (sound.numbered.entries entry member).1⟩

/-- No entry leads to the root. -/
theorem Sound.child_ne_root (sound : prior.Sound) (found : prior.child parent name = some ino) : ino ≠ ROOT_INO := by
  rintro rfl
  exact sound.top parent name found

theorem climbs_of_child (found : prior.child parent name = some ino) : prior.Climbs ino parent := by
  obtain ⟨entry, member, rfl, _, rfl⟩ := mem_of_child found
  exact climbs_iff.mpr ⟨entry, member, rfl, rfl⟩

/-- Where a walk ends, one climbs back to where it began. -/
theorem climbs_of_walk (walked : AgentFS.walk prior parent place = some ino) : ReflTransGen prior.Climbs ino parent := by
  induction place generalizing parent with
  | nil =>
    rw [AgentFS.walk, Option.some.injEq] at walked
    rw [walked]
  | cons name rest ih =>
    rw [walk_cons, Option.bind_eq_some_iff] at walked
    obtain ⟨next, found, walked⟩ := walked
    exact (ih walked).tail (climbs_of_child found)

/-! ## Walks over the old part -/

/-- The way to a directory leads through nothing but what is above it. -/
theorem walk_to (sound : prior.Sound) (same : ∀ other label, other ≠ parent → other ≤ prior.inodeSequence →
      ReflTransGen prior.Climbs parent other → volume.child other label = prior.child other label) {start : Int}
    (known : start ≤ prior.inodeSequence) (walked : AgentFS.walk prior start place = some parent) :
    AgentFS.walk volume start place = some parent := by
  induction place generalizing start with
  | nil => exact walked
  | cons name rest ih =>
    have above := climbs_of_walk walked
    rw [walk_cons, Option.bind_eq_some_iff] at walked
    obtain ⟨next, found, walked⟩ := walked
    have apart : start ≠ parent := by
      rintro rfl
      exact sound.acyclic start (TransGen.tail' (climbs_of_walk walked) (climbs_of_child found))
    rw [walk_cons, same start name apart known above, found, Option.bind_some]
    exact ih (sound.child_le found).2 walked

theorem Relists.walk_eq (relists : Relists prior new prior.child volume) (sound : prior.Sound)
    (later : ∀ ino, new ino → prior.inodeSequence < ino) {start : Int} (known : start ≤ prior.inodeSequence) (rest : List Text) :
    AgentFS.walk volume start rest = AgentFS.walk prior start rest := by
  induction rest generalizing start with
  | nil => rfl
  | cons name rest ih =>
    have old : ¬new start := fun made => absurd known (Int.not_le.mpr (later start made))
    rw [walk_cons, walk_cons, relists.children start name old]
    cases found : prior.child start name with
    | none => rfl
    | some next => exact ih (sound.child_le found).2

/-- A listing that is the old one means that nothing has changed. -/
theorem Relists.unchanged (relists : Relists prior new prior.child volume) (sound : prior.Sound)
    (later : ∀ ino, new ino → prior.inodeSequence < ino) (path : Text) : Unchanged prior volume path := by
  intro rest
  refine ⟨relists.walk_eq sound later sound.rooted _, ?_⟩
  intro ino reached
  exact relists.nodes ino (sound.numbered.walk_le sound.rooted reached)

/-! ## Steps -/

theorem Moves.elsewhere {newName : Text} {other : Int} (moves : Moves parent name parent newName ino volume volume')
    (apart : other ≠ parent) (label : Text) : volume'.child other label = volume.child other label := by
  rw [moves.children, if_neg (fun here => apart here.1), if_neg (fun here => apart here.1)]

theorem Adds.child (adds : Adds ino parent name volume volume') (other : Int) (label : Text) :
    volume'.child other label = if other = parent ∧ label = name then some ino else volume.child other label := by
  unfold Volume.child
  rw [adds.dentry?]
  split <;> rfl

theorem Relists.moves {newParent : Int} {newName : Text} (relists : Relists prior new view volume)
    (moves : Moves parent name newParent newName ino volume volume') (old : ¬new parent) (also : ¬new newParent)
    (free : view newParent newName = none) :
    Relists prior new (relist (relist view parent name none) newParent newName (some ino)) volume' := by
  have absent : volume.child newParent newName = none := by rw [relists.children _ _ also, free]
  refine ⟨moves.numbered relists.rooted relists.numbered, by rw [moves.sequence]; exact relists.rooted, ?_, ?_, ?_⟩
  · intro other label number within found
    rw [moves.children, if_neg (by rintro ⟨rfl, _⟩; exact also within), if_neg (by rintro ⟨rfl, _⟩; exact old within)] at found
    exact relists.closed other label number within found
  · intro other label outside
    rw [moves.children, relists.children other label outside]
    rfl
  · exact fun other known => (relists.nodes other known).trans (moves.nodes other (by rw [absent]; simp))

/-- What is removed inside the new part is gone from the listing, whatever else goes with it. -/
theorem Relists.removes (relists : Relists prior new view volume) (removes : Removes inside parent name volume volume')
    (later : ∀ ino, new ino → prior.inodeSequence < ino) (within : ∀ ino, inside ino → new ino) :
    Relists prior new (relist view parent name none) volume' := by
  refine ⟨removes.numbered relists.numbered, by rw [removes.sequence]; exact relists.rooted, ?_, ?_, ?_⟩
  · exact fun other label number made found => relists.closed other label number made (removes.fewer other label number found)
  · intro other label old
    rw [removes.children other label fun also => old (within other also), relists.children other label old]
    rfl
  · intro other known
    exact (relists.nodes other known).trans (removes.nodes other fun also => absurd known (Int.not_le.mpr (later other (within other also))))

/-- What comes out of the new part stays a part of it. -/
theorem Relists.emerges {newParent : Int} {newName : Text} (relists : Relists prior new view volume)
    (moves : Moves parent name newParent newName ino volume volume') (within : new parent) (also : ¬new newParent)
    (free : view newParent newName = none) : Relists prior new (relist view newParent newName (some ino)) volume' := by
  have absent : volume.child newParent newName = none := by rw [relists.children _ _ also, free]
  refine ⟨moves.numbered relists.rooted relists.numbered, by rw [moves.sequence]; exact relists.rooted, ?_, ?_, ?_⟩
  · intro other label number made found
    rw [moves.children, if_neg (by rintro ⟨rfl, _⟩; exact also made)] at found
    split at found
    · cases found
    · exact relists.closed other label number made found
  · intro other label outside
    have elsewhere : ¬(other = parent ∧ label = name) := by
      rintro ⟨rfl, _⟩
      exact outside within
    rw [moves.children, if_neg elsewhere, relists.children other label outside]
    rfl
  · exact fun other known => (relists.nodes other known).trans (moves.nodes other (by rw [absent]; simp))

theorem Relists.adds (relists : Relists prior new view volume) (adds : Adds ino parent name volume volume')
    (known : parent ≤ volume.inodeSequence) (old : ¬new parent) (ordered : prior.inodeSequence ≤ volume.inodeSequence) :
    Relists prior new (relist view parent name (some ino)) volume' := by
  have fresh := adds.fresh
  refine ⟨adds.numbered relists.numbered known, by rw [adds.sequence, fresh]; have rooted := relists.rooted; omega, ?_, ?_, ?_⟩
  · intro other label number made found
    rw [adds.child, if_neg (by rintro ⟨rfl, _⟩; exact old made)] at found
    exact relists.closed other label number made found
  · intro other label outside
    rw [adds.child, relists.children other label outside]
    rfl
  · intro other within
    have different : other ≠ ino := by omega
    have same : SameNode other volume volume' :=
      ⟨by rw [adds.inodes other different], adds.chunks other different, adds.symlinks other different⟩
    exact (relists.nodes other within).trans same

theorem Relists.congr {view' : Int → Text → Option Int} (relists : Relists prior new view volume)
    (same : ∀ ino label, ¬new ino → view ino label = view' ino label) : Relists prior new view' volume :=
  ⟨relists.numbered, relists.rooted, relists.closed, fun ino label old => (relists.children ino label old).trans (same ino label old),
    relists.nodes⟩

/-- Nothing is beyond the sequence, so the new part may end there. -/
theorem Relists.narrow (relists : Relists prior (prior.inodeSequence < ·) view volume)
    (nothing : ∀ ino label, volume.inodeSequence < ino → view ino label = none) :
    Relists prior (fun ino => prior.inodeSequence < ino ∧ ino ≤ volume.inodeSequence) view volume := by
  have numbered := relists.numbered
  refine ⟨numbered, relists.rooted, ?_, ?_, relists.nodes⟩
  · rintro other label number ⟨within, _⟩ found
    obtain ⟨entry, listed, _, _, rfl⟩ := mem_of_child found
    exact ⟨relists.closed other label _ within found, (numbered.entries entry listed).1⟩
  · intro other label outside
    by_cases old : prior.inodeSequence < other
    · have beyond : volume.inodeSequence < other := by omega
      rw [nothing other label beyond, Option.eq_none_iff_forall_ne_some]
      intro number found
      obtain ⟨entry, listed, rfl, _⟩ := mem_of_child found
      have bound := (numbered.entries entry listed).2
      omega
    · exact relists.children other label old

/-- What lists nothing may count as new. -/
theorem Relists.widen (relists : Relists prior new view volume) (later : ∀ ino, new ino → prior.inodeSequence < ino)
    (nothing : ∀ ino label, prior.inodeSequence < ino → ¬new ino → view ino label = none) :
    Relists prior (prior.inodeSequence < ·) view volume := by
  refine ⟨relists.numbered, relists.rooted, ?_, ?_, relists.nodes⟩
  · intro other label number within found
    by_cases made : new other
    · exact later number (relists.closed other label number made found)
    · rw [relists.children other label made, nothing other label within made] at found
      cases found
  · exact fun other label old => relists.children other label fun made => old (later other made)

/-! ## The staged part -/

/-- What a volume lists while a new directory of it is being filled. -/
theorem entry_of_growing {made : Volume} (adds : Adds ino parent name prior made)
    (growing : Growing made chunkSize place ino volume tree) {entry : DentryRow} (listed : entry ∈ volume.dentry.rows) :
    entry ∈ prior.dentry.rows ∨ entry = ⟨name, parent, ino⟩ ∨ ino < entry.ino ∧ ino ≤ entry.parentIno := by
  obtain ⟨added, rows, new⟩ := growing.extended.entries
  rw [rows, adds.entries, List.append_assoc, List.mem_append, List.cons_append, List.nil_append, List.mem_cons] at listed
  rcases listed with old | own | later
  · exact .inl old
  · exact .inr (.inl own)
  · obtain ⟨above, below⟩ := new entry later
    rw [adds.sequence] at above below
    exact .inr (.inr ⟨above, by omega⟩)

theorem Growing.directory {made : Volume} (growing : Growing made chunkSize place ino volume tree)
    (stored : made.Stored chunkSize ino .directory) : volume.Stored chunkSize ino .directory := by
  obtain ⟨row, found, kind⟩ := stored
  exact ⟨row, by rw [growing.extended.inodes ino growing.known, found], kind⟩

/-- Below the new directory everything is newer still. -/
theorem child_of_growing {made : Volume} (numbered : prior.Numbered) (known : parent ≤ prior.inodeSequence)
    (adds : Adds ino parent name prior made) (growing : Growing made chunkSize place ino volume tree) {other number : Int}
    {label : Text} (within : prior.inodeSequence < other) (found : volume.child other label = some number) : ino < number := by
  have fresh := adds.fresh
  obtain ⟨entry, listed, rfl, _, rfl⟩ := mem_of_child found
  rcases entry_of_growing adds growing listed with old | rfl | later
  · have bound := (numbered.entries entry old).2
    omega
  · dsimp only at within
    omega
  · exact later.1

/-- An extraction has filled a new directory, and the rest is as it was. -/
theorem Relists.filled {made : Volume} (sound : prior.Sound) (known : parent ≤ prior.inodeSequence)
    (adds : Adds ino parent name prior made) (growing : Growing made chunkSize place ino volume tree) :
    Relists prior (prior.inodeSequence < ·) (relist prior.child parent name (some ino)) volume := by
  have fresh := adds.fresh
  have ordered := growing.extended.sequence
  have rooted := sound.rooted
  rw [adds.sequence] at ordered
  refine ⟨growing.numbered, by omega, ?_, ?_, ?_⟩
  · intro other label number within found
    have above := child_of_growing sound.numbered known adds growing within found
    omega
  · intro other label old
    rw [Int.not_lt] at old
    have before := adds.child other label
    apply Option.ext
    intro number
    change _ ↔ (if other = parent ∧ label = name then some ino else prior.child other label) = some number
    rw [← before]
    constructor
    · intro found
      obtain ⟨entry, listed, rfl, rfl, rfl⟩ := mem_of_child found
      rcases entry_of_growing adds growing listed with earlier | rfl | later
      · exact child_of_mem (by rw [adds.entries]; exact List.mem_append_left _ earlier)
      · rw [before, if_pos ⟨rfl, rfl⟩]
      · omega
    · intro found
      obtain ⟨entry, listed, rfl, rfl, rfl⟩ := mem_of_child found
      obtain ⟨added, rows, _⟩ := growing.extended.entries
      exact child_of_mem (by rw [rows]; exact List.mem_append_left _ listed)
  · intro other within
    have different : other ≠ ino := by omega
    have extended := growing.extended
    have bound : other ≤ made.inodeSequence := by
      rw [adds.sequence]
      omega
    exact ⟨by rw [extended.inodes other bound, adds.inodes other different],
      (extended.chunks other bound).trans (adds.chunks other different),
      (extended.symlinks other bound).trans (adds.symlinks other different)⟩

theorem Carries.refl (region : Int → Prop) (volume : Volume) : Carries region volume volume :=
  ⟨fun _ _ _ => rfl, fun ino _ => .refl ino volume⟩

theorem Carries.mono {part : Int → Prop} (carries : Carries region staged volume) (within : ∀ ino, part ino → region ino) :
    Carries part staged volume :=
  ⟨fun ino label inside => carries.children ino label (within ino inside), fun ino inside => carries.nodes ino (within ino inside)⟩

theorem Carries.walk_eq (carries : Carries region staged volume) (closed : staged.Closed region) {start : Int}
    (within : region start) (rest : List Text) : AgentFS.walk volume start rest = AgentFS.walk staged start rest := by
  induction rest generalizing start with
  | nil => rfl
  | cons name rest ih =>
    rw [walk_cons, walk_cons, carries.children start name within]
    cases found : staged.child start name with
    | none => rfl
    | some next => exact ih (closed start name next within found)

theorem region_of_walk (closed : staged.Closed region) {start : Int} (within : region start) {rest : List Text}
    (walked : AgentFS.walk staged start rest = some ino) : region ino := by
  induction rest generalizing start with
  | nil =>
    rw [AgentFS.walk, Option.some.injEq] at walked
    rw [← walked]
    exact within
  | cons name rest ih =>
    rw [walk_cons, Option.bind_eq_some_iff] at walked
    obtain ⟨next, found, walked⟩ := walked
    exact ih (closed start name next within found) walked

theorem Carries.lists (carries : Carries region staged volume) (closed : staged.Closed region) (within : region base)
    (lists : staged.Lists chunkSize base tree) : volume.Lists chunkSize base tree := by
  intro path
  have listed := lists path
  rw [carries.walk_eq closed within]
  cases known : tree path with
  | none =>
    rw [known] at listed
    exact listed
  | some node =>
    rw [known] at listed
    obtain ⟨number, walked, stored⟩ := listed
    exact ⟨number, walked, (carries.nodes number (region_of_walk closed within walked)).stored stored⟩

theorem Carries.moves {newParent : Int} {newName : Text} (carries : Carries region staged volume)
    (moves : Moves parent name newParent newName ino volume volume') (old : ¬region parent) (also : ¬region newParent)
    (apart : ∀ other, volume.child newParent newName = some other → ¬region other) : Carries region staged volume' := by
  refine ⟨?_, ?_⟩
  · intro other label within
    rw [moves.children, if_neg (by rintro ⟨rfl, _⟩; exact also within), if_neg (by rintro ⟨rfl, _⟩; exact old within)]
    exact carries.children other label within
  · intro other within
    exact (carries.nodes other within).trans (moves.nodes other fun taken => apart other taken within)

theorem Carries.removes (carries : Carries region staged volume) (removes : Removes inside parent name volume volume')
    (outside : ∀ ino, region ino → ¬inside ino) (apart : ¬region parent) : Carries region staged volume' := by
  refine ⟨?_, fun other within => (carries.nodes other within).trans (removes.nodes other (outside other within))⟩
  intro other label within
  rw [removes.children other label (outside other within), if_neg (by rintro ⟨rfl, _⟩; exact apart within)]
  exact carries.children other label within

end Volume

end AiryFS
