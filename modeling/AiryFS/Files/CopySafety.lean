import AiryFS.Direct.Copies
import AiryFS.Files.CopyRecursive

/-! What `cp -r` leaves behind.

A directory that is already there is copied into, whatever it is. Where the destination holds
directories for directories and no surprises, the tree stays one and the source is not touched,
and a copy that returns has everything.
-/

set_option autoImplicit false

namespace AiryFS

open Foundation Attempt

/-! ## The outcome -/

namespace Volume

/-- One inode is a copy of what another was: of the same type, with the same bytes or the same target. -/
def Replica (before after : Volume) (ino copy : Int) : Prop :=
  ∃ row row', before.inode? ino = some row ∧ after.inode? copy = some row' ∧ fileType row'.mode = fileType row.mode ∧
    (CopyKind.ofRow row = .file → row'.size = row.size ∧ after.chunk? copy = before.chunk? ino) ∧
    (CopyKind.ofRow row = .symlink → ∃ target, before.symlink.find? ino = some ⟨ino, target⟩ ∧
      after.symlink.find? copy = some ⟨copy, target⟩)

/-- Every entry of the source has its copy at the destination. -/
def Copied (before after : Volume) (src dest : Text) : Prop :=
  ∀ base place ino, AgentFS.resolvePath before src = some base → AgentFS.walk before base place = some ino →
    ∃ copy, AgentFS.walk after ROOT_INO (fields '/' dest ++ place) = some copy ∧ Replica before after ino copy

/-- The tree is still one, the source is what it was, and every path leads to a file of the type it led to. -/
structure Spared (before after : Volume) (src : Text) : Prop where
  housed : after.Housed
  source : ∀ base, AgentFS.resolvePath before src = some base → AgentFS.resolvePath after src = some base ∧
    ∀ place, AgentFS.walk after base place = AgentFS.walk before base place ∧
      ∀ ino, AgentFS.walk before base place = some ino → Untouched ino before after
  kinds : ∀ path ino row, AgentFS.walk before ROOT_INO path = some ino → before.inode? ino = some row →
    ∃ ino' row', AgentFS.walk after ROOT_INO path = some ino' ∧ after.inode? ino' = some row' ∧
      fileType row'.mode = fileType row.mode

/-- The copy is complete when it returns, and has spoiled nothing when it throws. -/
structure CopySafe (volume : Volume) (limit : Nat) (fromPath toPath : Text) : Prop where
  copied : ∀ after, copyRecursive limit fromPath toPath volume = .ok () after →
    Copied volume after (Auth.normalizePath fromPath) (Auth.normalizePath toPath)
  spared : ∀ failure after, copyRecursive limit fromPath toPath volume = .error failure after →
    Spared volume after (Auth.normalizePath fromPath)

end Volume

/-! ## What the destination must hold -/

namespace CopyOp

/-- What is at the destination is fit to be copied onto, and nothing new comes up in the source. -/
structure Free (volume : Volume) (src : Text) (all done : List CopyOp) (op : CopyOp) : Prop where
  outside : AgentFS.resolvePath volume op.dest = none → ¬fields '/' src <+: fields '/' op.dest
  directory : op.kind = .dir → ∀ ino, AgentFS.resolvePath volume op.dest = some ino → volume.Directory ino
  type : op.kind = .file → ∀ source row ino row', AgentFS.resolvePath volume op.src = some source →
    volume.inode? source = some row → AgentFS.resolvePath volume op.dest = some ino → volume.inode? ino = some row' →
    volume.Directory ino ∨ fileType row'.mode = fileType row.mode
  apart : op.kind = .file → ∀ other ∈ all, ∀ ino, AgentFS.resolvePath volume op.dest = some ino →
    volume.Directory ino ∨ AgentFS.resolvePath volume other.src ≠ some ino
  once : op.kind = .file → ∀ other ∈ done, other.kind = .file → ∀ ino, AgentFS.resolvePath volume op.dest = some ino →
    volume.Directory ino ∨ AgentFS.resolvePath volume other.dest ≠ some ino

/-- The copy stops here: no file replaces a directory, and no link replaces anything. -/
def Blocked (volume : Volume) (op : CopyOp) : Prop :=
  ∃ ino, AgentFS.resolvePath volume op.dest = some ino ∧ (op.kind = .symlink ∨ op.kind = .file ∧ volume.Directory ino)

/-- Every operation that is reached is free. -/
def Clear (volume : Volume) (src : Text) (all : List CopyOp) : List CopyOp → List CopyOp → Prop
  | _, [] => True
  | done, op :: rest => op.Free volume src all done ∧ (¬op.Blocked volume → Clear volume src all (done ++ [op]) rest)

end CopyOp

/-- What `copyRecursive` finds when it starts to copy. A single file is not copied onto its own inode. -/
structure CopyClear (volume : Volume) (limit : Nat) (fromPath toPath : Text) : Prop where
  tree : ∀ ops base, copyPlan volume limit fromPath toPath = .ok ops →
    AgentFS.resolvePath volume (Auth.normalizePath fromPath) = some base → volume.Directory base →
    CopyOp.Clear volume (Auth.normalizePath fromPath) ops [] ops
  single : ∀ ops base, copyPlan volume limit fromPath toPath = .ok ops →
    AgentFS.resolvePath volume (Auth.normalizePath fromPath) = some base → ¬volume.Directory base →
    ∀ op ∈ ops, op.kind = .file → op.dest ≠ op.src → AgentFS.resolvePath volume op.dest ≠ some base

/-! ## The state between two operations -/

namespace Volume

/-- Some entries are copied. New paths lead to new inodes, they are destinations and lie outside the
source; an old inode is as it was unless a file was copied onto it. -/
structure Copying (before : Volume) (base : Int) (source dest : List Text) (done : List Sight) (volume : Volume) : Prop where
  tree : volume.DirectoryTree
  sequence : before.inodeSequence ≤ volume.inodeSequence
  more : ∀ path ino, AgentFS.walk before ROOT_INO path = some ino → AgentFS.walk volume ROOT_INO path = some ino
  new : ∀ path ino, AgentFS.walk volume ROOT_INO path = some ino → AgentFS.walk before ROOT_INO path = some ino ∨
    AgentFS.walk before ROOT_INO path = none ∧ before.inodeSequence < ino ∧ ¬source <+: path ∧
      ∃ sight ∈ done, path = dest ++ sight.2
  kept : ∀ ino ≤ before.inodeSequence,
    (∀ sight ∈ done, sight.1 = .file → AgentFS.walk before ROOT_INO (dest ++ sight.2) ≠ some ino) → Untouched ino before volume
  kinds : ∀ ino row, before.inode? ino = some row → ∃ row', volume.inode? ino = some row' ∧ fileType row'.mode = fileType row.mode
  met : ∀ sight ∈ done, ∀ ino, AgentFS.walk before ROOT_INO (dest ++ sight.2) = some ino →
    sight.1 = .file ∨ sight.1 = .dir ∧ before.Directory ino
  apart : ∀ sight ∈ done, sight.1 = .file → ∀ place ino, AgentFS.walk before base place = some ino →
    AgentFS.walk before ROOT_INO (dest ++ sight.2) ≠ some ino
  copied : ∀ sight ∈ done, ∀ ino, AgentFS.walk before base sight.2 = some ino →
    ∃ copy, AgentFS.walk volume ROOT_INO (dest ++ sight.2) = some copy ∧ Replica before volume ino copy

variable {before volume volume' : Volume} {base ino copy : Int} {source dest path : List Text} {done : List Sight} {sight : Sight}
  {src : Text}

theorem Replica.keeps (replica : Replica before volume ino copy) (kept : Untouched copy volume volume') :
    Replica before volume' ino copy := by
  obtain ⟨row, row', stored, stored', kind, bytes, target⟩ := replica
  refine ⟨row, row', stored, by rw [kept.inode]; exact stored', kind, ?_, ?_⟩
  · rw [kept.chunks]
    exact bytes
  · rw [kept.symlink]
    exact target

theorem isDirectory_congr {mode mode' : Int} (same : fileType mode = fileType mode') : isDirectory mode = isDirectory mode' := by
  unfold isDirectory
  rw [same]

theorem Replica.directory (replica : Replica before volume ino copy) (directory : before.Directory ino) : volume.Directory copy := by
  obtain ⟨row, row', stored, stored', kind, _⟩ := replica
  obtain ⟨own, found, mode⟩ := directory
  rw [stored, Option.some.injEq] at found
  exact ⟨row', stored', by rw [isDirectory_congr kind, found, mode]⟩

theorem Copying.start (tree : volume.DirectoryTree) (base : Int) (source dest : List Text) : Copying volume base source dest [] volume where
  tree := tree
  sequence := le_refl _
  more _ _ := id
  new _ _ := .inl
  kept ino _ _ := .refl ino volume
  kinds _ row stored := ⟨row, stored, rfl⟩
  met _ member := absurd member List.not_mem_nil
  apart _ member := absurd member List.not_mem_nil
  copied _ member := absurd member List.not_mem_nil

namespace Copying

variable (copying : Copying before base source dest done volume)

include copying

theorem directory (directory : before.Directory ino) : volume.Directory ino := by
  obtain ⟨row, stored, kind⟩ := directory
  obtain ⟨row', stored', same⟩ := copying.kinds ino row stored
  exact ⟨row', stored', by rw [isDirectory_congr same, kind]⟩

/-- A destination that nothing was copied to yet is what it was. -/
theorem unchanged (waits : sight.2 ∉ done.map Prod.snd) :
    AgentFS.walk volume ROOT_INO (dest ++ sight.2) = AgentFS.walk before ROOT_INO (dest ++ sight.2) := by
  cases reached : AgentFS.walk volume ROOT_INO (dest ++ sight.2) with
  | some ino =>
    rcases copying.new _ ino reached with old | ⟨_, _, _, other, member, same⟩
    · exact old.symm
    · exact absurd (by rw [List.append_cancel_left same]; exact List.mem_map_of_mem member) waits
  | none =>
    cases old : AgentFS.walk before ROOT_INO (dest ++ sight.2) with
    | none => rfl
    | some ino =>
      rw [copying.more _ ino old] at reached
      cases reached

/-- The source has the paths that it had, and what they lead to. -/
theorem source_walk (found : AgentFS.walk before ROOT_INO source = some base) (place : List Text) :
    AgentFS.walk volume base place = AgentFS.walk before base place := by
  have here : AgentFS.walk volume ROOT_INO (source ++ place) = AgentFS.walk volume base place := by
    rw [AgentFS.walk_append, copying.more _ base found, Option.bind_some]
  have there : AgentFS.walk before ROOT_INO (source ++ place) = AgentFS.walk before base place := by
    rw [AgentFS.walk_append, found, Option.bind_some]
  rw [← here, ← there]
  cases reached : AgentFS.walk volume ROOT_INO (source ++ place) with
  | some ino =>
    rcases copying.new _ ino reached with old | ⟨_, _, outside, _⟩
    · exact old.symm
    · exact absurd (List.prefix_append source place) outside
  | none =>
    cases old : AgentFS.walk before ROOT_INO (source ++ place) with
    | none => rfl
    | some ino =>
      rw [copying.more _ ino old] at reached
      cases reached

theorem source_kept (tree : before.DirectoryTree) (found : AgentFS.walk before ROOT_INO source = some base) {place : List Text}
    (reached : AgentFS.walk before base place = some ino) : Untouched ino before volume := by
  have whole : AgentFS.walk before ROOT_INO (source ++ place) = some ino := by
    rw [AgentFS.walk_append, found, Option.bind_some, reached]
  refine copying.kept ino (tree.walk_le whole) fun sight member kind => ?_
  exact copying.apart sight member kind place ino reached

theorem spared (tree : before.DirectoryTree) (found : AgentFS.resolvePath before src = some base)
    (spelled : source = fields '/' src) : Spared before volume src := by
  rw [AgentFS.resolvePath_eq, ← spelled] at found
  refine ⟨copying.tree.housed, ?_, ?_⟩
  · intro other resolved
    rw [AgentFS.resolvePath_eq, ← spelled, found, Option.some.injEq] at resolved
    rw [← resolved]
    refine ⟨by rw [AgentFS.resolvePath_eq, ← spelled, copying.more _ base found], fun place => ⟨copying.source_walk found place, ?_⟩⟩
    exact fun ino reached => copying.source_kept tree found reached
  · intro path ino row reached stored
    obtain ⟨row', stored', kind⟩ := copying.kinds ino row stored
    exact ⟨ino, row', copying.more path ino reached, stored', kind⟩

/-- An operation that finds nothing at its destination puts a new inode there. -/
theorem adds {parent : Int} {name : Text} {parts : List Text} (adds : Adds ino parent name volume volume')
    (split : dest ++ sight.2 = parts ++ [name]) (reached : AgentFS.walk volume ROOT_INO parts = some parent)
    (below : volume.Directory parent) (separable : Separable '/' (dest ++ sight.2))
    (outside : AgentFS.walk before ROOT_INO (dest ++ sight.2) = none → ¬source <+: dest ++ sight.2)
    (replica : ∀ origin, AgentFS.walk before base sight.2 = some origin → Replica before volume' origin ino)
    (row : ∃ row, volume'.inode? ino = some row) : Copying before base source dest (done ++ [sight]) volume' := by
  have walks := copying.tree.walks adds below reached
  have fresh := adds.fresh
  have ordered := copying.sequence
  have missing : AgentFS.walk before ROOT_INO (dest ++ sight.2) = none := by
    cases old : AgentFS.walk before ROOT_INO (dest ++ sight.2) with
    | none => rfl
    | some other =>
      have now := copying.more _ other old
      rw [split, walk_concat, reached, Option.bind_some, child, adds.absent] at now
      cases now
  have own : ∀ other ≤ volume.inodeSequence, Untouched other volume volume' := by
    intro other within
    exact ⟨adds.inodes other (by omega), adds.chunks other (by omega), adds.symlinks other (by omega)⟩
  refine ⟨copying.tree.adds adds below row (separable name (by rw [split]; simp)), by rw [adds.sequence]; omega, ?_, ?_, ?_, ?_,
    ?_, ?_, ?_⟩
  · exact fun path other old => walk_of_more (fun _ _ _ => adds.dentry?_of_some) (copying.more path other old)
  · intro path other found
    rw [walks] at found
    split at found
    · rename_i here
      rw [← split] at here
      rw [← Option.some.inj found, here]
      exact .inr ⟨missing, by omega, outside missing, sight, by simp, rfl⟩
    · rcases copying.new path other found with old | ⟨absent, later, apart, listed, member, same⟩
      · exact .inl old
      · exact .inr ⟨absent, later, apart, listed, List.mem_append_left _ member, same⟩
  · intro other within untouched
    refine (copying.kept other within fun listed member => ?_).trans (own other (by omega))
    exact untouched listed (List.mem_append_left _ member)
  · intro other old stored
    have within := copying.tree.numbered.inodes other
    obtain ⟨now, stored', kind⟩ := copying.kinds other old stored
    exact ⟨now, by rw [(own other (within (by simp [stored']))).inode]; exact stored', kind⟩
  · intro listed member other found
    rcases List.mem_append.mp member with earlier | last
    · exact copying.met listed earlier other found
    · rw [List.mem_singleton.mp last, missing] at found
      cases found
  · intro listed member kind place other origin found
    rcases List.mem_append.mp member with earlier | last
    · exact copying.apart listed earlier kind place other origin found
    · rw [List.mem_singleton.mp last, missing] at found
      cases found
  · intro listed member origin found
    rcases List.mem_append.mp member with earlier | last
    · obtain ⟨copy, walked, same⟩ := copying.copied listed earlier origin found
      exact ⟨copy, walk_of_more (fun _ _ _ => adds.dentry?_of_some) walked, same.keeps (own copy (copying.tree.walk_le walked))⟩
    · rw [List.mem_singleton.mp last] at found ⊢
      exact ⟨ino, by rw [walks, if_pos split], replica origin found⟩

/-- A directory that is there stays. -/
theorem exists_ (listed : sight.1 = .dir) (here : AgentFS.walk before ROOT_INO (dest ++ sight.2) = some ino)
    (directory : before.Directory ino)
    (origins : ∀ origin, AgentFS.walk before base sight.2 = some origin → ∃ row, before.inode? origin = some row ∧ isDirectory row.mode = true) :
    Copying before base source dest (done ++ [sight]) volume := by
  refine ⟨copying.tree, copying.sequence, copying.more, ?_, ?_, copying.kinds, ?_, ?_, ?_⟩
  · intro path other found
    rcases copying.new path other found with old | ⟨absent, later, apart, listed, member, same⟩
    · exact .inl old
    · exact .inr ⟨absent, later, apart, listed, List.mem_append_left _ member, same⟩
  · exact fun other within untouched => copying.kept other within fun listed member => untouched listed (List.mem_append_left _ member)
  · intro other member number found
    rcases List.mem_append.mp member with earlier | last
    · exact copying.met other earlier number found
    · rw [List.mem_singleton.mp last] at found ⊢
      rw [here, Option.some.injEq] at found
      exact .inr ⟨listed, by rw [← found]; exact directory⟩
  · intro other member kind
    rcases List.mem_append.mp member with earlier | last
    · exact copying.apart other earlier kind
    · rw [List.mem_singleton.mp last, listed] at kind
      cases kind
  · intro other member origin found
    rcases List.mem_append.mp member with earlier | last
    · exact copying.copied other earlier origin found
    · rw [List.mem_singleton.mp last] at found ⊢
      obtain ⟨row, stored, kind⟩ := origins origin found
      obtain ⟨row', stored', kind'⟩ := copying.directory directory
      refine ⟨ino, copying.more _ ino here, row, row', stored, stored', ?_, ?_, ?_⟩
      · unfold isDirectory at kind kind'
        rw [beq_iff_eq.mp kind, beq_iff_eq.mp kind']
      · intro file
        rw [ofRow_dir.mpr kind] at file
        cases file
      · intro link
        rw [ofRow_dir.mpr kind] at link
        cases link

/-- A file is copied onto one of its type, which no other copy has got. -/
theorem touches {row row' : InodeRow} (touches : Touches ino volume volume') (listed : sight.1 = .file)
    (here : AgentFS.walk before ROOT_INO (dest ++ sight.2) = some ino) (plain : ¬before.Directory ino)
    (stored : before.inode? ino = some row) (stored' : volume'.inode? ino = some row') (kind : fileType row'.mode = fileType row.mode)
    (outside : ∀ place, AgentFS.walk before base place ≠ some ino)
    (once : ∀ other ∈ done, other.1 = .file → AgentFS.walk before ROOT_INO (dest ++ other.2) ≠ some ino)
    (known : ino ≤ before.inodeSequence)
    (replica : ∀ origin, AgentFS.walk before base sight.2 = some origin → Replica before volume' origin ino) :
    Copying before base source dest (done ++ [sight]) volume' := by
  have walks := touches.walks
  have own : ∀ other, other ≠ ino → Untouched other volume volume' :=
    fun other different => ⟨touches.inodes other different, touches.chunks other different, touches.symlinks other different⟩
  obtain ⟨now, current, type⟩ := copying.kinds ino row stored
  refine ⟨copying.tree.touches touches current stored' (isDirectory_congr (kind.trans type.symm)), by rw [touches.sequence]; exact copying.sequence,
    ?_, ?_, ?_, ?_, ?_, ?_, ?_⟩
  · rw [walks]
    exact copying.more
  · intro path other found
    rw [walks] at found
    rcases copying.new path other found with old | ⟨absent, later, apart, listed, member, same⟩
    · exact .inl old
    · exact .inr ⟨absent, later, apart, listed, List.mem_append_left _ member, same⟩
  · intro other within untouched
    have different : other ≠ ino := fun same => untouched sight (by simp) listed (by rw [here, same])
    refine (copying.kept other within fun listed member => ?_).trans (own other different)
    exact untouched listed (List.mem_append_left _ member)
  · intro other old found
    by_cases same : other = ino
    · rw [same, stored, Option.some.injEq] at found
      rw [same, ← found]
      exact ⟨row', stored', kind⟩
    · rw [touches.inodes other same]
      exact copying.kinds other old found
  · intro other member number found
    rcases List.mem_append.mp member with earlier | last
    · exact copying.met other earlier number found
    · rw [List.mem_singleton.mp last]
      exact .inl listed
  · intro other member file place number origin
    rcases List.mem_append.mp member with earlier | last
    · exact copying.apart other earlier file place number origin
    · rw [List.mem_singleton.mp last, here]
      intro same
      exact outside place (by rw [origin, Option.some.inj same])
  · intro other member origin found
    rw [walks]
    rcases List.mem_append.mp member with earlier | last
    · obtain ⟨copy, walked, same⟩ := copying.copied other earlier origin found
      refine ⟨copy, walked, same.keeps (own copy ?_)⟩
      rintro rfl
      -- What an earlier operation has copied to is new, or it was met there.
      rcases copying.new _ copy walked with old | ⟨_, later, _⟩
      · rcases copying.met other earlier copy old with file | ⟨_, directory⟩
        · exact once other earlier file old
        · exact plain directory
      · omega
    · rw [List.mem_singleton.mp last] at found ⊢
      exact ⟨ino, copying.more _ ino here, replica origin found⟩

end Copying

/-! ## One operation -/

section Apply

variable {plan rest : List Sight} {destText : Text} {origin parent : Int} {row : InodeRow} {name : Text}

/-- What is above an entry of the source is copied to a directory by then. -/
theorem Copying.house (copying : Copying before base source dest done volume) (sighted : Sighted before base plan [])
    (split : plan = done ++ sight :: rest) (inner : sight.2 ≠ []) {parts : List Text} (spelled : dest ++ sight.2 = parts ++ [name])
    (reached : AgentFS.walk volume ROOT_INO parts = some parent) : volume.Directory parent := by
  obtain ⟨above, label, place, member⟩ := (sighted.ordered done sight rest split).resolve_left inner
  have listed : (.dir, above) ∈ plan := by
    rw [split]
    exact List.mem_append_left _ member
  obtain ⟨number, row, walked, stored, kind⟩ := sighted.known _ listed
  obtain ⟨copy, there, replica⟩ := copying.copied _ member number walked
  rw [place, ← List.append_assoc] at spelled
  obtain ⟨same, _⟩ := List.append_inj' spelled rfl
  rw [← same, there, Option.some.injEq] at reached
  rw [← reached]
  exact replica.directory ⟨row, stored, ofRow_dir.mp kind.symm⟩

variable (tree : before.DirectoryTree) (found : AgentFS.walk before ROOT_INO (fields '/' src) = some base)
  (sighted : Sighted before base plan []) (split : plan = done ++ sight :: rest)
  (free : (sight.op src destText).Free before src (plan.map (Sight.op src destText)) (done.map (Sight.op src destText)))
  (copying : Copying before base (fields '/' src) (fields '/' destText) done volume)
  (walked : AgentFS.walk before base sight.2 = some origin) (stored : before.inode? origin = some row) (kind : sight.1 = .ofRow row)

include tree walked in
theorem fields_dest : fields '/' (sight.op src destText).dest = fields '/' destText ++ sight.2 :=
  fields_spelled (tree.separable walked) destText

include tree walked in
theorem separable_dest : Separable '/' (fields '/' destText ++ sight.2) := by
  rw [← fields_spelled (tree.separable walked) destText]
  exact fields_separable _

include tree walked in
theorem resolves_dest (volume : Volume) : AgentFS.resolvePath volume (sight.op src destText).dest =
    AgentFS.walk volume ROOT_INO (fields '/' destText ++ sight.2) := by
  rw [AgentFS.resolvePath_eq, fields_dest tree walked]

include found tree in
theorem resolves_src {place : List Text} {number : Int} (reached : AgentFS.walk before base place = some number) :
    AgentFS.resolvePath before (src ++ spelled place) = some number := by
  rw [AgentFS.resolvePath_eq, fields_spelled (tree.separable reached), AgentFS.walk_append, found, Option.bind_some, reached]

include split sighted in
theorem waits : sight.2 ∉ done.map Prod.snd := by
  have once := sighted.nodup
  rw [split, List.map_append, List.map_cons, List.nodup_append] at once
  exact fun member => once.2.2 _ member _ List.mem_cons_self rfl

include sighted stored walked kind in
/-- Only the source itself has no entry above it, and it is a directory. -/
theorem inner (leaf : sight.1 ≠ .dir) : sight.2 ≠ [] := by
  intro top
  obtain ⟨number, own, reached, stored', dir⟩ := sighted.known _ sighted.start
  rw [top] at walked
  rw [walked, Option.some.injEq] at reached
  rw [← reached, stored, Option.some.injEq] at stored'
  exact leaf (by rw [kind, stored', ← dir])

include free tree walked in
theorem outside (missing : AgentFS.walk before ROOT_INO (fields '/' destText ++ sight.2) = none) :
    ¬fields '/' src <+: fields '/' destText ++ sight.2 := by
  have spelled : fields '/' (sight.op src destText).dest = fields '/' destText ++ sight.2 := fields_dest tree walked
  rw [← spelled]
  exact free.outside (by rw [resolves_dest tree walked, missing])

include tree sighted split free copying walked stored kind in
theorem apply_dir (directory : sight.1 = .dir) : Post (sight.op src destText).apply volume
    (fun _ after => Copying before base (fields '/' src) (fields '/' destText) (done ++ [sight]) after) fun _ after => after = volume := by
  have mode : isDirectory row.mode = true := ofRow_dir.mp (by rw [← kind, directory])
  have same : ∀ number, AgentFS.walk before base sight.2 = some number → number = origin := by
    intro number reached
    rw [walked] at reached
    exact (Option.some.inj reached).symm
  unfold CopyOp.apply
  rw [show (sight.op src destText).kind = .dir from directory]
  dsimp only
  rw [post_catch, post_commit]
  constructor
  · intro volume' made
    obtain ⟨parent, name, ino, above, adds, row', stored', kind'⟩ := @AgentFS.mkdir_adds volume volume' 0 _ made
    obtain ⟨_, checked⟩ := AgentFS.mkdir_parent made above
    obtain ⟨parts, spelled, reached⟩ := AgentFS.resolveParent_eq_some.mp above
    rw [fields_dest tree walked] at spelled
    obtain ⟨parentRow, parentStored⟩ := copying.tree.stored reached
    have below : volume.Directory parent := by
      refine ⟨parentRow, parentStored, ?_⟩
      simpa [AgentFS.knownFile, AgentFS.getInodeMode, parentStored] using checked
    refine copying.adds adds spelled reached below ?_ (outside tree free walked) ?_ ⟨row', stored'⟩
    · exact separable_dest tree walked
    · intro number reached'
      rw [same number reached']
      refine ⟨row, row', stored, stored', ?_, ?_, ?_⟩
      · unfold isDirectory at mode kind'
        rw [beq_iff_eq.mp mode, beq_iff_eq.mp kind']
      · intro file
        rw [← kind, directory] at file
        cases file
      · intro link
        rw [← kind, directory] at link
        cases link
  · intro failure failed
    split
    · obtain ⟨ino, resolved⟩ := AgentFS.mkdir_exists failed
      rw [resolves_dest tree walked, copying.unchanged (waits sighted split)] at resolved
      have there := free.directory directory ino (by rw [resolves_dest tree walked, resolved])
      refine copying.exists_ directory resolved there fun number reached => ?_
      rw [same number reached]
      exact ⟨row, stored, mode⟩
    · exact rfl

include tree found sighted split free copying walked stored kind in
theorem apply_symlink (link : sight.1 = .symlink) : Post (sight.op src destText).apply volume
    (fun _ after => Copying before base (fields '/' src) (fields '/' destText) (done ++ [sight]) after) fun _ after => after = volume := by
  unfold CopyOp.apply
  rw [show (sight.op src destText).kind = .symlink from link]
  dsimp only
  rw [post_bind, post_get, post_bind, post_lift]
  refine ⟨fun target read => post_commit.mpr ⟨fun volume' linked => ?_, fun _ _ => rfl⟩, fun _ _ => rfl⟩
  obtain ⟨parent, name, ino, above, adds, ⟨row', stored', kind'⟩, aimed⟩ :=
    @AgentFS.symlink_adds volume volume' 0 _ target linked
  obtain ⟨parts, spelled, reached⟩ := AgentFS.resolveParent_eq_some.mp above
  rw [fields_dest tree walked] at spelled
  have below := copying.house sighted split (inner sighted walked stored kind (by rw [link]; simp)) spelled reached
  refine copying.adds adds spelled reached below ?_ (outside tree free walked) ?_ ⟨row', stored'⟩
  · exact separable_dest tree walked
  · intro number reached'
    rw [walked, Option.some.injEq] at reached'
    rw [← reached']
    -- The link is still there to be read.
    obtain ⟨⟨_, here⟩, resolved, read⟩ := bind_eq_ok.mp read
    obtain ⟨_, typed, read⟩ := bind_eq_ok.mp read
    obtain ⟨linkRow, joined, read⟩ := bind_eq_ok.mp read
    rw [required_eq_ok] at joined
    obtain ⟨_, own⟩ := AgentFS.resolvePathOrThrow_ok resolved
    have source : AgentFS.resolvePath volume (sight.op src destText).src = some origin := by
      rw [Sight.op, AgentFS.resolvePath_eq, fields_spelled (tree.separable walked), AgentFS.walk_append, copying.more _ base found,
        Option.bind_some, copying.source_walk found, walked]
    rw [source, Option.some.injEq] at own
    rw [← own, (copying.source_kept tree found walked).symlink] at joined
    rw [refuse_eq_ok, ← own, AgentFS.getInodeMode, (copying.source_kept tree found walked).inode, stored] at typed
    have numbered : linkRow.ino = origin := before.symlink.find?_key joined
    refine ⟨row, row', stored, stored', ?_, ?_, ?_⟩
    · have mode : isSymlink row.mode = true := by simpa using typed
      unfold isSymlink at mode kind'
      rw [beq_iff_eq.mp mode, beq_iff_eq.mp kind']
    · intro file
      rw [← kind, link] at file
      cases file
    · intro _
      refine ⟨target, ?_, aimed⟩
      rw [joined, ← pure_eq_ok.mp read, ← numbered]

include tree found sighted split free copying walked stored kind in
theorem apply_file (file : sight.1 = .file) : Post (sight.op src destText).apply volume
    (fun _ after => Copying before base (fields '/' src) (fields '/' destText) (done ++ [sight]) after) fun _ after => after = volume := by
  unfold CopyOp.apply
  rw [show (sight.op src destText).kind = .file from file]
  refine post_commit.mpr ⟨fun volume' copied => ?_, fun _ _ => rfl⟩
  have untouched := copying.source_kept tree found walked
  have resolved : AgentFS.resolvePath volume (sight.op src destText).src = some origin := by
    rw [Sight.op, AgentFS.resolvePath_eq, fields_spelled (tree.separable walked), AgentFS.walk_append, copying.more _ base found,
      Option.bind_some, copying.source_walk found, walked]
  obtain ⟨number, own, there, stored', plain, effect⟩ := AgentFS.copyFile_effect copying.tree.numbered copied
  rw [resolved, Option.some.injEq] at there
  rw [← there, untouched.inode, stored, Option.some.injEq] at stored'
  rw [← there, ← stored'] at effect
  have replica : ∀ {ino : Int}, AgentFS.Copies volume volume' origin row ino →
      ∀ number, AgentFS.walk before base sight.2 = some number → Replica before volume' number ino := by
    intro ino copies number reached
    rw [walked, Option.some.injEq] at reached
    rw [← reached]
    obtain ⟨⟨row', found', mode, size⟩, chunks⟩ := copies
    refine ⟨row, row', stored, found', by rw [mode], fun _ => ⟨size, chunks.trans untouched.chunks⟩, ?_⟩
    intro link
    rw [← kind, file] at link
    cases link
  rcases effect with ⟨ino, here, unlike, touches, copies⟩ | ⟨_, ino, parent, name, above, adds, copies⟩
  · rw [resolves_dest tree walked, copying.unchanged (waits sighted split)] at here
    have here' : AgentFS.resolvePath before (sight.op src destText).dest = some ino := by rw [resolves_dest tree walked, here]
    obtain ⟨old, oldStored⟩ := tree.stored here
    obtain ⟨now, nowStored, nowKind⟩ := copying.kinds ino old oldStored
    have notDirectory : ¬before.Directory ino := by
      intro directory
      obtain ⟨row', stored', kind'⟩ := copying.directory directory
      exact unlike (by simp [AgentFS.knownDirectory, AgentFS.getInodeMode, stored', kind'])
    have outside : ∀ place, AgentFS.walk before base place ≠ some ino := by
      intro place reached
      obtain ⟨other, otherStored⟩ := tree.stored here
      have listed := sighted.complete tree reached otherStored
      refine (free.apart file _ (List.mem_map_of_mem listed) ino here').resolve_left notDirectory ?_
      exact resolves_src tree found reached
    have copies := copies (fun same => outside _ (by rw [walked, same])) ⟨now, nowStored⟩
    obtain ⟨row', found', mode, _⟩ := copies.row
    have type := (free.type file origin row ino old (resolves_src tree found walked) stored here' oldStored).resolve_left notDirectory
    refine copying.touches touches file here notDirectory oldStored found' (by rw [mode, type]) outside ?_
      (tree.walk_le here) (replica copies)
    intro other member otherFile reached
    have listed : other ∈ plan := by
      rw [split]
      exact List.mem_append_left _ member
    obtain ⟨_, _, otherWalked, _⟩ := sighted.known other listed
    refine (free.once file _ (List.mem_map_of_mem member) otherFile ino here').resolve_left notDirectory ?_
    rw [resolves_dest tree otherWalked, reached]
  · obtain ⟨parts, spelled, reached⟩ := AgentFS.resolveParent_eq_some.mp above
    rw [fields_dest tree walked] at spelled
    have below := copying.house sighted split (inner sighted walked stored kind (by rw [file]; simp)) spelled reached
    obtain ⟨row', found', _⟩ := copies.row
    refine copying.adds adds spelled reached below ?_ (outside tree free walked) (replica copies) ⟨row', found'⟩
    exact separable_dest tree walked

include tree copying walked in
theorem apply_blocked (blocked : (sight.op src destText).Blocked before) : Post (sight.op src destText).apply volume
    (fun _ _ => False) fun _ after => after = volume := by
  obtain ⟨ino, resolved, how⟩ := blocked
  have here : AgentFS.resolvePath volume (sight.op src destText).dest = some ino := by
    rw [resolves_dest tree walked] at resolved ⊢
    exact copying.more _ ino resolved
  unfold CopyOp.apply
  rcases how with link | ⟨file, directory⟩
  · rw [link]
    dsimp only
    rw [post_bind, post_get, post_bind, post_lift]
    refine ⟨fun target _ => post_commit.mpr ⟨fun volume' linked => ?_, fun _ _ => rfl⟩, fun _ _ => rfl⟩
    obtain ⟨_, free, _⟩ := bind_eq_ok.mp linked
    rw [refuse_eq_ok, AgentFS.resolvePath_normalizePath, here] at free
    exact free rfl
  · rw [file]
    refine post_commit.mpr ⟨fun volume' copied => ?_, fun _ _ => rfl⟩
    obtain ⟨_, _, _, _, _, effect⟩ := AgentFS.copyFile_effect copying.tree.numbered copied
    rw [here] at effect
    rcases effect with ⟨other, same, unlike, _⟩ | ⟨missing, _⟩
    · obtain ⟨row, stored, kind⟩ := copying.directory directory
      rw [← Option.some.inj same] at unlike
      exact unlike (by simp [AgentFS.knownDirectory, AgentFS.getInodeMode, stored, kind])
    · cases missing

end Apply

/-- The whole list. Induction on what is still to be copied. -/
theorem copies_all {plan rest : List Sight} {destText : Text} (tree : before.DirectoryTree)
    (found : AgentFS.walk before ROOT_INO (fields '/' src) = some base) (sighted : Sighted before base plan [])
    (split : plan = done ++ rest)
    (clear : CopyOp.Clear before src (plan.map (Sight.op src destText)) (done.map (Sight.op src destText)) (rest.map (Sight.op src destText)))
    (copying : Copying before base (fields '/' src) (fields '/' destText) done volume) :
    Post ((rest.map (Sight.op src destText)).forM CopyOp.apply) volume
      (fun _ after => Copying before base (fields '/' src) (fields '/' destText) plan after)
      fun _ after => ∃ done, Copying before base (fields '/' src) (fields '/' destText) done after := by
  induction rest generalizing done volume with
  | nil =>
    rw [List.append_nil] at split
    rw [split]
    exact copying
  | cons sight rest ih =>
    obtain ⟨free, go_on⟩ := clear
    have listed : sight ∈ plan := by
      rw [split]
      exact List.mem_append_right _ List.mem_cons_self
    obtain ⟨origin, row, walked, stored, kind⟩ := sighted.known sight listed
    rw [List.map_cons, post_forM_cons]
    by_cases blocked : (sight.op src destText).Blocked before
    · refine (apply_blocked tree copying walked blocked).mono (fun _ _ => False.elim) fun _ after same => ?_
      rw [same]
      exact ⟨done, copying⟩
    · have step : Post (sight.op src destText).apply volume
          (fun _ after => Copying before base (fields '/' src) (fields '/' destText) (done ++ [sight]) after)
          fun _ after => after = volume := by
        cases which : sight.1 with
        | dir => exact apply_dir tree sighted split free copying walked stored kind which
        | file => exact apply_file tree found sighted split free copying walked stored kind which
        | symlink => exact apply_symlink tree found sighted split free copying walked stored kind which
      refine step.mono (fun _ after copying' => ?_) fun _ after same => ?_
      · refine ih (by rw [split]; simp) ?_ copying'
        rw [List.map_append, List.map_cons, List.map_nil]
        exact go_on blocked
      · rw [same]
        exact ⟨done, copying⟩

theorem Adds.resolves {parent : Int} {name path : Text} (adds : Adds ino parent name volume volume')
    (above : AgentFS.resolveParent volume path = some (parent, name)) : AgentFS.resolvePath volume' path = some ino := by
  obtain ⟨parts, spelled, reached⟩ := AgentFS.resolveParent_eq_some.mp above
  rw [AgentFS.resolvePath_eq, spelled, walk_concat, walk_of_more (fun _ _ _ => adds.dentry?_of_some) reached, Option.bind_some,
    adds.child, if_pos ⟨rfl, rfl⟩]

/-- A single entry that is no directory is copied in one step. -/
theorem copies_one {op : CopyOp} {origin : Int} {row : InodeRow} (tree : before.DirectoryTree)
    (resolved : AgentFS.resolvePath before op.src = some origin) (stored : before.inode? origin = some row)
    (plain : isDirectory row.mode = false) (kind : op.kind = .ofRow row)
    (other : op.kind = .file → op.dest ≠ op.src → AgentFS.resolvePath before op.dest ≠ some origin) :
    Post op.apply before (fun _ after => ∃ copy, AgentFS.resolvePath after op.dest = some copy ∧ Replica before after origin copy)
      fun _ after => after = before := by
  unfold CopyOp.apply
  cases which : op.kind with
  | dir =>
    rw [which] at kind
    rw [ofRow_dir.mp kind.symm] at plain
    cases plain
  | symlink =>
    dsimp only
    rw [post_bind, post_get, post_bind, post_lift]
    refine ⟨fun target read => post_commit.mpr ⟨fun volume' linked => ?_, fun _ _ => rfl⟩, fun _ _ => rfl⟩
    obtain ⟨parent, name, ino, above, adds, ⟨row', stored', kind'⟩, aimed⟩ := @AgentFS.symlink_adds before volume' 0 _ target linked
    obtain ⟨⟨_, here⟩, reached, read⟩ := bind_eq_ok.mp read
    obtain ⟨_, typed, read⟩ := bind_eq_ok.mp read
    obtain ⟨linkRow, joined, read⟩ := bind_eq_ok.mp read
    obtain ⟨_, own⟩ := AgentFS.resolvePathOrThrow_ok reached
    rw [resolved, Option.some.injEq] at own
    rw [required_eq_ok, ← own] at joined
    rw [refuse_eq_ok, ← own, AgentFS.getInodeMode, stored] at typed
    have numbered : linkRow.ino = origin := before.symlink.find?_key joined
    refine ⟨ino, adds.resolves above, row, row', stored, stored', ?_, ?_, ?_⟩
    · have mode : isSymlink row.mode = true := by simpa using typed
      unfold isSymlink at mode kind'
      rw [beq_iff_eq.mp mode, beq_iff_eq.mp kind']
    · intro file
      rw [← kind, which] at file
      cases file
    · intro _
      refine ⟨target, ?_, aimed⟩
      rw [joined, ← pure_eq_ok.mp read, ← numbered]
  | file =>
    refine post_commit.mpr ⟨fun volume' copied => ?_, fun _ _ => rfl⟩
    have different : op.dest ≠ op.src := by
      intro same
      obtain ⟨_, passed, _⟩ := bind_eq_ok.mp copied
      rw [refuse_eq_ok, same] at passed
      exact passed rfl
    obtain ⟨number, own, there, stored', _, effect⟩ := AgentFS.copyFile_effect tree.numbered copied
    rw [resolved, Option.some.injEq] at there
    rw [← there, stored, Option.some.injEq] at stored'
    rw [← there, ← stored'] at effect
    have replica : ∀ {ino : Int}, AgentFS.Copies before volume' origin row ino → Replica before volume' origin ino := by
      rintro ino ⟨⟨row', found', mode, size⟩, chunks⟩
      refine ⟨row, row', stored, found', by rw [mode], fun _ => ⟨size, chunks⟩, ?_⟩
      intro link
      rw [← kind, which] at link
      cases link
    rcases effect with ⟨ino, here, _, touches, copies⟩ | ⟨_, ino, parent, name, above, adds, copies⟩
    · refine ⟨ino, ?_, replica (copies ?_ ?_)⟩
      · rw [AgentFS.resolvePath_eq, touches.walks, ← AgentFS.resolvePath_eq, here]
      · rintro rfl
        exact other which different here
      · rw [AgentFS.resolvePath_eq] at here
        exact tree.stored here
    · exact ⟨ino, adds.resolves above, replica copies⟩

theorem Spared.refl (tree : volume.DirectoryTree) (src : Text) : Spared volume volume src where
  housed := tree.housed
  source _ found := ⟨found, fun _ => ⟨rfl, fun ino _ => .refl ino volume⟩⟩
  kinds _ ino row reached stored := ⟨ino, row, reached, stored, rfl⟩

end Volume

/-- `/src` is a directory with one file, and `/file` is a file. -/
def copySample : Volume :=
  { Volume.fresh 0 with
    inode := ⟨[InodeRow.root 0, { InodeRow.create DEFAULT_DIR_MODE 0 0 0 with ino := 2, nlink := 1 },
      { InodeRow.create DEFAULT_FILE_MODE 0 0 0 with ino := 3, nlink := 1, size := 2 },
      { InodeRow.create DEFAULT_FILE_MODE 0 0 0 with ino := 4, nlink := 1 }], by decide⟩
    dentry := ⟨[⟨"src".toList, 1, 2⟩, ⟨"x".toList, 2, 3⟩, ⟨"file".toList, 1, 4⟩], by decide⟩
    data := ⟨[⟨3, 0, [104, 105]⟩], by decide⟩
    inodeSequence := 4 }

theorem copySample_tree : copySample.DirectoryTree :=
  .of_entries (by decide) (by decide) (by decide) (by decide) (by decide) (by decide) (by decide)

end AiryFS
