import AiryFS.Direct.Creating

/-! A directory that is being filled.

Everything below it is new, so filling it disturbs nothing that was there before, and the
tree below it is what was put there.
-/

set_option autoImplicit false

namespace AiryFS

open Foundation

/-! ## Trees of paths -/

namespace PathTree

def empty : PathTree := fun path => if path = [] then some .directory else none

/-- The directories on the way that are missing. -/
def withDirectories : PathTree → List Text → List Text → PathTree
  | tree, _, [] => tree
  | tree, above, name :: rest =>
    let here := above ++ [name]
    let tree := if (tree here).isSome then tree else Function.update tree here (some .directory)
    withDirectories tree here rest

/-- A file brings the directories above it with it; anything else needs them. -/
def plant (tree : PathTree) (path : List Text) (node : TreeNode) : PathTree :=
  match node with
  | .file _ => Function.update (withDirectories tree [] path.dropLast) path (some node)
  | _ => Function.update tree path (some node)

variable {tree : PathTree} {above rest path : List Text}

theorem withDirectories_of_length (longer : above.length + rest.length < path.length) :
    withDirectories tree above rest path = tree path := by
  induction rest generalizing tree above with
  | nil => rfl
  | cons name rest ih =>
    unfold withDirectories
    dsimp only
    rw [ih (by simp at longer ⊢; omega)]
    split
    · rfl
    · rw [Function.update_of_ne]
      intro same
      rw [same] at longer
      simp at longer

theorem withDirectories_of_le (shorter : path.length ≤ above.length) : withDirectories tree above rest path = tree path := by
  induction rest generalizing tree above with
  | nil => rfl
  | cons name rest ih =>
    unfold withDirectories
    dsimp only
    rw [ih (by rw [List.length_append]; omega)]
    split
    · rfl
    · rw [Function.update_of_ne]
      intro same
      rw [same] at shorter
      simp at shorter

theorem withDirectories_of_present (present : ∀ front back, rest = front ++ back → front ≠ [] → (tree (above ++ front)).isSome) :
    withDirectories tree above rest = tree := by
  induction rest generalizing above with
  | nil => rfl
  | cons name rest ih =>
    have first := present [name] rest rfl (by simp)
    unfold withDirectories
    dsimp only
    rw [if_pos first]
    apply ih
    intro front back same filled
    have later := present (name :: front) back (by rw [same, List.cons_append]) (by simp)
    rw [List.append_assoc]
    exact later

end PathTree

/-! ## Growing volumes -/

namespace Volume

/-- What is new lies below the directory, and what was there is as it was. -/
structure Extends (base : Int) (before after : Volume) : Prop where
  sequence : before.inodeSequence ≤ after.inodeSequence
  config : after.config = before.config
  entries : ∃ added, after.dentry.rows = before.dentry.rows ++ added ∧ ∀ entry ∈ added,
    before.inodeSequence < entry.ino ∧ (entry.parentIno = base ∨ before.inodeSequence < entry.parentIno)
  inodes : ∀ ino ≤ before.inodeSequence, after.inode? ino = before.inode? ino
  chunks : ∀ ino ≤ before.inodeSequence, after.chunk? ino = before.chunk? ino
  symlinks : ∀ ino ≤ before.inodeSequence, after.symlink.find? ino = before.symlink.find? ino

/-- The tree below a directory at a path, all of it newer than the start. -/
structure Growing (start : Volume) (chunkSize : Nat) (place : List Text) (base : Int) (volume : Volume) (tree : PathTree) :
    Prop where
  extended : Extends base start volume
  numbered : volume.Numbered
  reached : AgentFS.walk volume ROOT_INO place = some base
  known : base ≤ start.inodeSequence
  fresh : ∀ path ino, path ≠ [] → AgentFS.walk volume base path = some ino → start.inodeSequence < ino
  apart : volume.Apart base
  lists : volume.Lists chunkSize base tree
  named : ∀ path, tree path ≠ none → Separable '/' path

variable {start before after volume volume' : Volume} {chunkSize : Nat} {base ino parentIno : Int} {name path : Text}
  {place segments : List Text} {tree : PathTree} {node : TreeNode}

theorem Extends.refl (base : Int) (volume : Volume) : Extends base volume volume where
  sequence := le_refl _
  config := rfl
  entries := ⟨[], (List.append_nil _).symm, fun _ member => by cases member⟩
  inodes _ _ := rfl
  chunks _ _ := rfl
  symlinks _ _ := rfl

theorem Extends.adds (extended : Extends base start before) (adds : Adds ino parentIno name before after)
    (below : parentIno = base ∨ start.inodeSequence < parentIno) : Extends base start after := by
  have fresh := adds.fresh
  have sequence := adds.sequence
  have ordered := extended.sequence
  refine ⟨by omega, adds.config.trans extended.config, ?_, ?_, ?_, ?_⟩
  · obtain ⟨added, rows, new⟩ := extended.entries
    refine ⟨added ++ [⟨name, parentIno, ino⟩], by rw [adds.entries, rows, List.append_assoc], ?_⟩
    intro entry member
    rcases List.mem_append.mp member with earlier | last
    · exact new entry earlier
    · rw [List.mem_singleton.mp last]
      exact ⟨by simp only; omega, below⟩
  · exact fun other within => (adds.inodes other (by omega)).trans (extended.inodes other within)
  · exact fun other within => (adds.chunks other (by omega)).trans (extended.chunks other within)
  · exact fun other within => (adds.symlinks other (by omega)).trans (extended.symlinks other within)

theorem Extends.touches (extended : Extends base start before) (touches : Touches ino before after)
    (new : start.inodeSequence < ino) : Extends base start after := by
  refine ⟨by rw [touches.sequence]; exact extended.sequence, touches.config.trans extended.config, ?_, ?_, ?_, ?_⟩
  · rw [touches.dentry]
    exact extended.entries
  · exact fun other within => (touches.inodes other (by omega)).trans (extended.inodes other within)
  · exact fun other within => (touches.chunks other (by omega)).trans (extended.chunks other within)
  · exact fun other within => (touches.symlinks other (by omega)).trans (extended.symlinks other within)

theorem Extends.unlimited (extended : Extends base start volume) (unlimited : start.Unlimited) : volume.Unlimited := by
  unfold Unlimited
  rw [extended.config]
  exact unlimited

theorem Adds.dentry?_of_some (adds : Adds ino parentIno name before after) {other : Int} {label : Text} {entry : DentryRow}
    (found : before.dentry? other label = some entry) : after.dentry? other label = some entry := by
  rw [adds.dentry?, if_neg, found]
  rintro ⟨rfl, rfl⟩
  rw [adds.absent] at found
  cases found

/-- More entries, more paths. -/
theorem walk_of_more (more : ∀ parent label entry, before.dentry? parent label = some entry →
      after.dentry? parent label = some entry) {current reached : Int} {path : List Text}
    (walked : AgentFS.walk before current path = some reached) : AgentFS.walk after current path = some reached := by
  induction path generalizing current with
  | nil => exact walked
  | cons label rest ih =>
    unfold AgentFS.walk at walked ⊢
    cases found : before.dentry? current label with
    | none =>
      rw [found] at walked
      cases walked
    | some entry =>
      rw [found] at walked
      rw [more _ _ _ found]
      exact ih walked

theorem Extends.dentry?_of_some (extended : Extends base before after) {other : Int} {label : Text} {entry : DentryRow}
    (found : before.dentry? other label = some entry) : after.dentry? other label = some entry := by
  obtain ⟨added, rows, _⟩ := extended.entries
  have member := before.dentry.find?_mem found
  have key := before.dentry.find?_key found
  rw [Volume.dentry?, ← key]
  apply after.dentry.find?_of_mem
  rw [rows]
  exact List.mem_append_left added member

/-- Every component of the path is there, and none is known to be a file. -/
def Passes (volume : Volume) (place : List Text) : Prop :=
  ∀ front back, place = front ++ back → front ≠ [] →
    ∃ ino, AgentFS.walk volume ROOT_INO front = some ino ∧ AgentFS.knownFile (AgentFS.getInodeMode volume ino) = false

theorem Extends.passes (extended : Extends base start volume) (numbered : start.Numbered)
    (rooted : ROOT_INO ≤ start.inodeSequence) (passes : start.Passes place) : volume.Passes place := by
  intro front back same filled
  obtain ⟨ino, walked, checked⟩ := passes front back same filled
  refine ⟨ino, walk_of_more (fun _ _ _ => extended.dentry?_of_some) walked, ?_⟩
  rw [AgentFS.getInodeMode, extended.inodes ino (numbered.walk_le rooted walked)]
  exact checked

namespace Growing

variable (growing : Growing start chunkSize place base volume tree)

include growing

theorem known_now : base ≤ volume.inodeSequence := growing.known.trans growing.extended.sequence

theorem below {current : Int} (here : AgentFS.walk volume base segments = some current) :
    current = base ∨ start.inodeSequence < current := by
  cases segments with
  | nil => exact .inl (Option.some.inj here).symm
  | cons first rest => exact .inr (growing.fresh _ _ (by simp) here)

theorem named_update {place : List Text} (separable : Separable '/' place) (path : List Text)
    (known : Function.update tree place (some node) path ≠ none) : Separable '/' path := by
  by_cases same : path = place
  · rw [same]
    exact separable
  · rw [Function.update_of_ne same] at known
    exact growing.named path known

theorem adds (adds : Adds ino parentIno name volume volume') (separable : Separable '/' (segments ++ [name]))
    (parent : AgentFS.walk volume base segments = some parentIno) (stored : volume'.Stored chunkSize ino node) :
    Growing start chunkSize place base volume' (Function.update tree (segments ++ [name]) (some node)) := by
  have known := growing.known_now
  have within := growing.numbered.walk_le known parent
  refine ⟨growing.extended.adds adds (growing.below parent), adds.numbered growing.numbered within,
    walk_of_more (fun _ _ _ => adds.dentry?_of_some) growing.reached, growing.known, ?_, adds.apart growing.numbered growing.apart parent known,
    adds.lists growing.numbered growing.apart parent known growing.lists stored, growing.named_update separable⟩
  intro other number filled walked
  rw [adds.walks growing.numbered growing.apart parent within] at walked
  split at walked
  · have fresh := adds.fresh
    have ordered := growing.extended.sequence
    rw [← Option.some.inj walked]
    omega
  · exact growing.fresh other number filled walked

theorem touches (touches : Touches ino volume volume') (filled : segments ≠ [])
    (here : AgentFS.walk volume base segments = some ino) (stored : volume'.Stored chunkSize ino node) :
    Growing start chunkSize place base volume' (Function.update tree segments (some node)) := by
  have walks := touches.walks
  refine ⟨growing.extended.touches touches (growing.fresh _ _ filled here),
    touches.numbered growing.numbered (growing.numbered.walk_le growing.known_now here), ?_, growing.known, ?_, ?_,
    touches.lists growing.apart here growing.lists stored, growing.named_update (growing.named segments ?_)⟩
  · rw [walks]
    exact growing.reached
  · rw [walks]
    exact growing.fresh
  · unfold Apart
    rw [walks]
    exact growing.apart
  · intro absent
    have listed := growing.lists segments
    rw [absent, here] at listed
    cases listed

/-- What is listed is found, and nothing else is. -/
theorem walk_isSome (segments : List Text) : (AgentFS.walk volume base segments).isSome = (tree segments).isSome := by
  have listed := growing.lists segments
  cases known : tree segments with
  | none =>
    rw [known] at listed
    rw [listed]
    rfl
  | some node =>
    rw [known] at listed
    obtain ⟨number, walked, _⟩ := listed
    rw [walked]
    rfl

theorem listed (known : tree segments = some node) :
    ∃ ino, AgentFS.walk volume base segments = some ino ∧ volume.Stored chunkSize ino node := by
  have listed := growing.lists segments
  rw [known] at listed
  exact listed

theorem resolves (spelled : fields '/' path = place ++ segments) :
    AgentFS.resolvePath volume path = AgentFS.walk volume base segments := by
  rw [AgentFS.resolvePath_eq, spelled, AgentFS.walk_append, growing.reached, Option.bind_some]

/-- The parent of a path below the directory. -/
theorem resolvesParent {current : Int} (spelled : fields '/' path = place ++ (segments ++ [name])) :
    AgentFS.resolveParent volume path = some (current, name) ↔ AgentFS.walk volume base segments = some current := by
  rw [AgentFS.resolveParent_eq_some, spelled, ← List.append_assoc]
  have whole : AgentFS.walk volume ROOT_INO (place ++ segments) = AgentFS.walk volume base segments := by
    rw [AgentFS.walk_append, growing.reached, Option.bind_some]
  constructor
  · rintro ⟨parts, same, walked⟩
    obtain ⟨rfl, _⟩ := List.append_inj' same rfl
    rw [← whole]
    exact walked
  · intro walked
    exact ⟨place ++ segments, rfl, by rw [whole]; exact walked⟩

end Growing

theorem Growing.initial (numbered : start.Numbered) (reached : AgentFS.walk start ROOT_INO place = some base)
    (known : base ≤ start.inodeSequence) (directory : start.Stored chunkSize base .directory)
    (empty : start.hasChildren base = false) : Growing start chunkSize place base start PathTree.empty := by
  have nothing : ∀ label, start.dentry? base label = none := by
    intro label
    refine start.dentry.find?_eq_none_iff.mpr ?_
    intro entry member same
    unfold hasChildren at empty
    rw [List.any_eq_false] at empty
    exact empty entry member (decide_eq_true (congrArg Prod.fst same))
  have ended : ∀ label rest, AgentFS.walk start base (label :: rest) = none := by
    intro label rest
    unfold AgentFS.walk
    rw [nothing]
  refine ⟨.refl base start, numbered, reached, known, ?_, ?_, ?_, ?_⟩
  · intro path ino filled walked
    cases path with
    | nil => exact absurd rfl filled
    | cons label rest =>
      rw [ended] at walked
      cases walked
  · intro first second ino left right
    cases first with
    | nil =>
      cases second with
      | nil => rfl
      | cons label rest =>
        rw [ended] at right
        cases right
    | cons label rest =>
      rw [ended] at left
      cases left
  · intro path
    cases path with
    | nil => exact ⟨base, rfl, directory⟩
    | cons label rest => exact ended label rest
  · intro path present
    cases path with
    | nil => exact fun _ member => by cases member
    | cons label rest => exact absurd rfl present

end Volume

/-! ## Filling the directory -/

namespace AgentFS

open Volume

variable {start volume volume' : Volume} {chunkSize : Nat} {base ino : Int} {name path : Text} {place segments : List Text}
  {tree : PathTree}

/-- The names of a path below another have no slash. -/
theorem separable_below (spelled : fields '/' path = place ++ segments) : Separable '/' segments := by
  intro piece member
  refine fields_separable path piece ?_
  rw [spelled]
  exact List.mem_append_right place member

theorem mkdir_grows (growing : Growing start chunkSize place base volume tree)
    (spelled : fields '/' path = place ++ segments) (filled : segments ≠ []) (made : mkdir volume path = .ok volume') :
    Growing start chunkSize place base volume' (Function.update tree segments (some .directory)) := by
  obtain ⟨above, label, rfl⟩ := (List.eq_nil_or_concat segments).resolve_left filled
  rw [List.concat_eq_append] at spelled ⊢
  obtain ⟨parentIno, name, ino, parent, adds, stored⟩ := @mkdir_adds volume volume' chunkSize path made
  obtain ⟨parts, same, _⟩ := resolveParent_eq_some.mp parent
  rw [spelled, ← List.append_assoc] at same
  obtain ⟨_, named⟩ := List.append_inj' same rfl
  obtain rfl := List.singleton_inj.mp named
  exact growing.adds adds (separable_below spelled) ((growing.resolvesParent spelled).mp parent) stored

theorem symlink_grows {target : Text} (growing : Growing start chunkSize place base volume tree)
    (spelled : fields '/' path = place ++ segments) (filled : segments ≠ [])
    (linked : symlink volume target path = .ok volume') :
    Growing start chunkSize place base volume' (Function.update tree segments (some (.symlink target))) := by
  obtain ⟨above, label, rfl⟩ := (List.eq_nil_or_concat segments).resolve_left filled
  rw [List.concat_eq_append] at spelled ⊢
  obtain ⟨parentIno, name, ino, parent, adds, stored⟩ := @symlink_adds volume volume' chunkSize path target linked
  obtain ⟨parts, same, _⟩ := resolveParent_eq_some.mp parent
  rw [spelled, ← List.append_assoc] at same
  obtain ⟨_, named⟩ := List.append_inj' same rfl
  obtain rfl := List.singleton_inj.mp named
  exact growing.adds adds (separable_below spelled) ((growing.resolvesParent spelled).mp parent) stored

/-- What is there is passed through. -/
theorem descend_walked {current : Int} {front rest : List Text} (walked : walk volume current front = some ino)
    (descended : descend path volume current (front ++ rest) = .ok volume') : descend path volume ino rest = .ok volume' := by
  induction front generalizing current with
  | nil =>
    rw [walk, Option.some.injEq] at walked
    rw [← walked]
    exact descended
  | cons label front ih =>
    unfold walk at walked
    rw [List.cons_append, descend] at descended
    cases found : volume.dentry? current label with
    | none =>
      rw [found] at walked
      cases walked
    | some entry =>
      rw [found] at walked descended
      obtain ⟨_, _, descended⟩ := bind_eq_ok.mp descended
      exact ih walked descended

theorem descend_grows {current : Int} {rest : List Text} (growing : Growing start chunkSize place base volume tree)
    (separable : Separable '/' (segments ++ rest)) (here : walk volume base segments = some current) (descended : descend path volume current rest = .ok volume') :
    Growing start chunkSize place base volume' (tree.withDirectories segments rest) := by
  induction rest generalizing volume tree segments current with
  | nil =>
    rw [← pure_eq_ok.mp descended]
    exact growing
  | cons label rest ih =>
    have below : walk volume base (segments ++ [label]) = (volume.dentry? current label).map (·.ino) := by
      rw [walk_append, here, Option.bind_some, walk_single]
    have listed := growing.walk_isSome (segments ++ [label])
    rw [below, Option.isSome_map] at listed
    have longer : Separable '/' ((segments ++ [label]) ++ rest) := by
      rw [List.append_assoc]
      exact separable
    unfold descend at descended
    unfold PathTree.withDirectories
    dsimp only
    cases found : volume.dentry? current label with
    | none =>
      rw [found] at descended below listed
      obtain ⟨⟨dirIno, made⟩, inserted, descended⟩ := bind_eq_ok.mp descended
      obtain ⟨entered, created, descended⟩ := bind_eq_ok.mp descended
      obtain ⟨adds, row, _, _⟩ := created_adds inserted created
      have stored : entered.Stored chunkSize dirIno .directory := ⟨_, row, isDirectory_default⟩
      have grown := growing.adds adds (fun piece member => longer piece (List.mem_append_left rest member)) here stored
      rw [if_neg (by rw [← listed]; simp)]
      refine ih grown longer ?_ descended
      rw [adds.walks growing.numbered growing.apart here (growing.numbered.walk_le growing.known_now here), if_pos rfl]
    | some entry =>
      rw [found] at descended below listed
      obtain ⟨_, _, descended⟩ := bind_eq_ok.mp descended
      rw [if_pos (by rw [← listed]; rfl)]
      exact ih growing longer below descended

/-- A file that is no path yet, or whose path is only a directory's so far. -/
theorem writeFile_grows (growing : Growing start chunkSize place base volume tree)
    (spelled : fields '/' path = place ++ segments) (filled : segments ≠ [])
    (free : ∀ node, tree segments = some node → node = .directory)
    (written : writeFile volume chunkSize path [] = .ok volume') :
    Growing start chunkSize place base volume' (tree.plant segments (.file [])) := by
  obtain ⟨above, label, rfl⟩ := (List.eq_nil_or_concat segments).resolve_left filled
  rw [List.concat_eq_append] at spelled free ⊢
  obtain ⟨ensured, descended, written⟩ := bind_eq_ok.mp written
  have parts : (splitPath path).dropLast = place ++ above := by
    rw [splitPath_eq, spelled, ← List.append_assoc, List.dropLast_concat]
  unfold ensureParentDirs at descended
  rw [parts] at descended
  have names := separable_below spelled
  have grown := @descend_grows _ _ _ _ _ path _ [] _ _ _ growing
    (fun piece member => names piece (List.mem_append_left [label] member)) rfl (descend_walked growing.reached descended)
  have same : tree.withDirectories [] above (above ++ [label]) = tree (above ++ [label]) :=
    PathTree.withDirectories_of_length (by simp)
  unfold PathTree.plant
  dsimp only
  rw [List.dropLast_concat]
  have resolves := grown.resolves spelled
  split at written
  · rename_i current resolved
    obtain ⟨_, passed, _⟩ := bind_eq_ok.mp written
    rw [refuse_eq_ok] at passed
    rw [resolves] at resolved
    -- Only a directory could be here, and that is refused.
    have listed := grown.walk_isSome (above ++ [label])
    rw [resolved, same] at listed
    obtain ⟨node, known⟩ := Option.isSome_iff_exists.mp listed.symm
    obtain rfl := free node known
    obtain ⟨number, walked, row, stored, kind⟩ := grown.listed (by rw [same]; exact known)
    rw [resolved, Option.some.injEq] at walked
    rw [← walked] at stored
    simp [knownDirectory, getInodeMode, stored, kind] at passed
  · obtain ⟨⟨parentIno, name⟩, parent, written⟩ := bind_eq_ok.mp written
    obtain ⟨⟨fileIno, made⟩, inserted, written⟩ := bind_eq_ok.mp written
    obtain ⟨entered, created, updated⟩ := bind_eq_ok.mp written
    rw [required_eq_ok] at parent
    obtain ⟨pieces, shape, _⟩ := resolveParent_eq_some.mp parent
    rw [spelled, ← List.append_assoc] at shape
    obtain ⟨_, named⟩ := List.append_inj' shape rfl
    obtain rfl := List.singleton_inj.mp named
    obtain ⟨adds, row, _, _⟩ := created_adds inserted created
    obtain ⟨touches, stored⟩ := emptied updated
    exact grown.adds (adds.touches touches) names ((grown.resolvesParent spelled).mp parent) (stored ⟨_, row, isRegular_default⟩)

theorem pwrite_grows {content data : Bytes} (growing : Growing start chunkSize place base volume tree) (positive : 0 < chunkSize)
    (filled : segments ≠ []) (here : walk volume base segments = some ino) (known : tree segments = some (.file content))
    (written : AgentFSFile.pwrite ⟨ino, chunkSize⟩ volume content.length data = .ok volume') :
    Growing start chunkSize place base volume' (Function.update tree segments (some (.file (content ++ data)))) := by
  obtain ⟨number, walked, stored⟩ := growing.listed known
  rw [here, Option.some.injEq] at walked
  rw [← walked] at stored
  exact growing.touches (AgentFSFile.pwrite_touches written).1 filled here
    (AgentFSFile.pwrite_appends positive written stored)

/-! ## When filling succeeds -/

/-- What is listed as a directory passes every check for one. -/
theorem knownFile_listed (growing : Growing start chunkSize place base volume tree)
    (directory : tree segments = some .directory) :
    ∃ ino, walk volume base segments = some ino ∧ knownFile (getInodeMode volume ino) = false := by
  obtain ⟨ino, walked, row, stored, kind⟩ := growing.listed directory
  refine ⟨ino, walked, ?_⟩
  rw [getInodeMode, stored, Option.map_some, knownFile, Option.any_some, kind]
  rfl

theorem mkdir_succeeds (growing : Growing start chunkSize place base volume tree) (unlimited : start.Unlimited)
    (spelled : fields '/' path = place ++ (segments ++ [name])) (directory : tree segments = some .directory)
    (absent : tree (segments ++ [name]) = none) : ∃ volume', mkdir volume path = .ok volume' := by
  obtain ⟨parentIno, walked, checked⟩ := knownFile_listed growing directory
  have missing := growing.walk_isSome (segments ++ [name])
  rw [absent, walk_append, walked, Option.bind_some, walk_single, Option.isSome_map, Option.isSome_none,
    Option.isSome_eq_false_iff, Option.isNone_iff_eq_none] at missing
  exact mkdir_ok (growing.extended.unlimited unlimited) growing.numbered ((growing.resolvesParent spelled).mpr walked) missing
    checked

theorem symlink_succeeds {target : Text} (growing : Growing start chunkSize place base volume tree)
    (unlimited : start.Unlimited) (spelled : fields '/' path = place ++ (segments ++ [name]))
    (directory : tree segments = some .directory) (absent : tree (segments ++ [name]) = none) :
    ∃ volume', symlink volume target path = .ok volume' := by
  obtain ⟨parentIno, walked, _⟩ := knownFile_listed growing directory
  have missing := growing.walk_isSome (segments ++ [name])
  rw [absent, walk_append, walked, Option.bind_some, walk_single, Option.isSome_map, Option.isSome_none,
    Option.isSome_eq_false_iff, Option.isNone_iff_eq_none] at missing
  exact symlink_ok (growing.extended.unlimited unlimited) growing.numbered ((growing.resolvesParent spelled).mpr walked) missing

/-- Where every component is a directory, nothing is made on the way. -/
theorem descend_directories {current : Int} {parts : List Text} (directories : ∀ front back, parts = front ++ back → front ≠ [] →
      ∃ ino, walk volume current front = some ino ∧ knownFile (getInodeMode volume ino) = false) :
    descend path volume current parts = .ok volume := by
  induction parts generalizing current with
  | nil => rfl
  | cons label rest ih =>
    obtain ⟨ino, walked, checked⟩ := directories [label] rest rfl (by simp)
    rw [walk_single, Option.map_eq_some_iff] at walked
    obtain ⟨entry, found, rfl⟩ := walked
    unfold descend
    rw [found]
    dsimp only
    rw [refuse_of_not (by rw [checked]; simp)]
    apply ih
    intro front back same filled
    have later := directories (label :: front) back (by rw [same, List.cons_append]) (by simp)
    unfold walk at later
    rw [found] at later
    exact later

theorem writeFile_succeeds (growing : Growing start chunkSize place base volume tree) (unlimited : start.Unlimited)
    (spelled : fields '/' path = place ++ (segments ++ [name])) (passes : volume.Passes place)
    (directories : ∀ front back, segments = front ++ back → tree front = some .directory)
    (absent : tree (segments ++ [name]) = none) : ∃ volume', writeFile volume chunkSize path [] = .ok volume' := by
  obtain ⟨parentIno, walked, _⟩ := knownFile_listed growing (directories segments [] (List.append_nil _).symm)
  have missing := growing.walk_isSome (segments ++ [name])
  rw [absent] at missing
  have unresolved : resolvePath volume path = none := by
    rw [growing.resolves spelled]
    exact Option.isNone_iff_eq_none.mp (Option.isSome_eq_false_iff.mp missing)
  rw [walk_append, walked, Option.bind_some, walk_single, Option.isSome_map, Option.isSome_none,
    Option.isSome_eq_false_iff, Option.isNone_iff_eq_none] at missing
  have ensured : ensureParentDirs volume path = .ok volume := by
    unfold ensureParentDirs
    rw [splitPath_eq, spelled, ← List.append_assoc, List.dropLast_concat]
    apply descend_directories
    intro front back same filled
    rcases List.append_eq_append_iff.mp same with ⟨inner, rfl, tail⟩ | ⟨inner, spelled, _⟩
    · obtain ⟨ino, reached, checked⟩ := knownFile_listed growing (directories inner back tail)
      exact ⟨ino, by rw [walk_append, growing.reached, Option.bind_some, reached], checked⟩
    · exact passes front inner spelled filled
  have room := growing.extended.unlimited unlimited
  obtain ⟨made, created, inserted, placed⟩ := @created_ok volume parentIno name room growing.numbered missing DEFAULT_FILE_MODE
  have unlimited' : created.Unlimited := by
    unfold Unlimited
    rw [(created_adds inserted placed).1.config]
    exact room
  obtain ⟨volume', updated⟩ := @resizeInode_unlimited (created.deleteChunks (volume.inodeSequence + 1) fun _ => true)
    unlimited' (volume.inodeSequence + 1) fun row => { row with size := 0, mtime := created.now }
  refine ⟨volume', ?_⟩
  have parent := (growing.resolvesParent spelled).mpr walked
  unfold writeFile
  rw [ensured]
  simp only [bind, Except.bind, unresolved, parent, required, inserted, placed]
  rw [updateFileContent_nil]
  exact updated

end AgentFS

end AiryFS
