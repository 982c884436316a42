import AiryFS.Transfer.Encoding

/-! Archives read back as the trees they were written from. -/

set_option autoImplicit false

namespace AiryFS

open Foundation Attempt

namespace Archive

/-- An empty directory that can be filled. -/
structure Target (volume : Volume) (chunkSize : Nat) (targetDir : Text) (base : Int) : Prop where
  numbered : volume.Numbered
  rooted : ROOT_INO ≤ volume.inodeSequence
  located : AgentFS.resolvePath volume targetDir = some base
  passes : volume.Passes (fields '/' targetDir)
  directory : volume.Stored chunkSize base .directory
  empty : volume.hasChildren base = false

variable {volume : Volume} {chunkSize : Nat} {base : Int} {tree : PathTree} {root targetDir : Text}

theorem Target.growing (target : Target volume chunkSize targetDir base) :
    Volume.Growing volume chunkSize (fields '/' targetDir) base volume PathTree.empty := by
  have reached := target.located
  rw [AgentFS.resolvePath_eq] at reached
  exact .initial target.numbered reached (target.numbered.walk_le target.rooted reached) target.directory target.empty

/-- The path holds the tree, and nothing else. -/
def Holds (volume : Volume) (chunkSize : Nat) (path : Text) (tree : PathTree) : Prop :=
  ∃ base, AgentFS.resolvePath volume path = some base ∧ volume.Lists chunkSize base tree

/-- However the bytes of some entries are cut, extracting them into an empty directory either fails for want of room
or gives the tree that they plant, and without quotas it gives the tree. -/
theorem extractTree_contents {disk : Disk} {width : Nat} {ino : Int} {chunks : List Bytes} {entries : List (Text × TreeNode)}
    (filled : 0 < width) (target : Target disk.volume width targetDir ino)
    (held : contents chunks.flatten = .ok (([], .directory) :: entries)) (accepts : PathTree.empty.Accepts entries) :
    (∀ summary disk', extractTree width targetDir ⟨chunks, none⟩ disk = .ok summary disk' →
      Holds disk'.volume width targetDir (PathTree.empty.plantAll entries)) ∧
    (disk.fault = none → disk.volume.Unlimited →
      ∃ summary disk', extractTree width targetDir ⟨chunks, none⟩ disk = .ok summary disk') := by
  constructor
  · intro summary disk' extracted
    obtain ⟨_, others, read, grown⟩ :=
      (@extractTree_post width ino disk filled targetDir ⟨chunks, none⟩ target.growing).of_ok extracted
    rw [held, Except.ok.injEq] at read
    refine ⟨ino, ?_, ?_⟩
    · rw [AgentFS.resolvePath_eq]
      exact grown.reached
    · have lists := grown.lists
      rw [← read] at lists
      have root : PathTree.empty.plant [] .directory = PathTree.empty := by
        unfold PathTree.plant
        dsimp only
        exact Function.update_eq_self _ _
      rw [PathTree.plantAll, List.foldl_cons, fields_nil, root] at lists
      exact lists
  · intro calm unlimited
    have returns := @extractTree_returns width ino disk filled targetDir ⟨chunks, none⟩ entries calm target.growing target.rooted
      unlimited target.passes rfl held accepts
    unfold Post at returns
    cases ran : extractTree width targetDir ⟨chunks, none⟩ disk with
    | ok summary disk' => exact ⟨summary, disk', rfl⟩
    | error failure disk' =>
      rw [ran] at returns
      exact absurd returns id

/-- However the archive of a tree is cut, extracting it into an empty directory either fails for want of room or
gives the tree, and without quotas it gives the tree. -/
theorem extractTree_encodeTree (positive : 0 < chunkSize) (source : Source volume chunkSize base tree)
    (located : AgentFS.resolvePath volume root = some base) :
    ∃ frames, encodeTree volume chunkSize root = .ok frames ∧
      ∀ (disk : Disk) (width : Nat) (targetDir : Text) (ino : Int) (chunks : List Bytes), 0 < width →
        Target disk.volume width targetDir ino → chunks.flatten = frames.flatten →
          (∀ summary disk', extractTree width targetDir ⟨chunks, none⟩ disk = .ok summary disk' →
            Holds disk'.volume width targetDir tree) ∧
          (disk.fault = none → disk.volume.Unlimited →
            ∃ summary disk', extractTree width targetDir ⟨chunks, none⟩ disk = .ok summary disk') := by
  obtain ⟨frames, entries, encoded, held, accepts, planted⟩ := encodeTree_spells positive source located
  refine ⟨frames, encoded, ?_⟩
  intro disk width targetDir ino chunks filled target same
  rw [← same] at held
  rw [← planted]
  exact extractTree_contents filled target held accepts

/-! ## A tree whose archive cannot be written -/

/-- A root directory with one symbolic link. -/
def pointing (target : Text) : Volume := { Volume.fresh 0 with
  inode := ⟨[InodeRow.root 0, { InodeRow.create (S_IFLNK ||| 0o777 : Nat) 0 0 0 with ino := 2, nlink := 1 }], by decide⟩
  dentry := ⟨[⟨['l'], ROOT_INO, 2⟩], List.nodup_singleton _⟩
  symlink := ⟨[⟨2, target⟩], List.nodup_singleton _⟩
  inodeSequence := 2 }

def pointed (target : Text) : PathTree := fun path =>
  if path = [] then some .directory else if path = [['l']] then some (.symlink target) else none

variable (target : Text)

theorem pointing_dentry (parent : Int) (name : Text) : Volume.dentry? (pointing target) parent name =
    if parent = ROOT_INO ∧ name = ['l'] then some ⟨['l'], ROOT_INO, 2⟩ else none := by
  unfold Volume.dentry? pointing Table.find? DentryRow.key
  rw [List.find?_singleton]
  by_cases here : parent = ROOT_INO ∧ name = ['l']
  · simp [here.1, here.2]
  · rw [if_neg here, if_neg]
    intro same
    rw [decide_eq_true_eq, Prod.mk.injEq] at same
    exact here ⟨same.1.symm, same.2.symm⟩

theorem lists_pointing (chunkSize : Nat) : (pointing target).Lists chunkSize ROOT_INO (pointed target) := by
  intro path
  cases path with
  | nil => exact ⟨ROOT_INO, rfl, InodeRow.root 0, rfl, by decide⟩
  | cons name rest =>
    by_cases here : name = ['l']
    · rw [here]
      cases rest with
      | nil => exact ⟨2, rfl, ⟨_, rfl, by decide⟩, rfl⟩
      | cons label rest =>
        change AgentFS.walk (pointing target) ROOT_INO (['l'] :: label :: rest) = none
        unfold AgentFS.walk
        rw [pointing_dentry, if_pos ⟨rfl, rfl⟩]
        dsimp only
        unfold AgentFS.walk
        rw [pointing_dentry, if_neg (by rintro ⟨same, _⟩; cases same)]
    · have unlisted : pointed target (name :: rest) = none := by simp [pointed, here]
      rw [unlisted]
      change AgentFS.walk (pointing target) ROOT_INO (name :: rest) = none
      unfold AgentFS.walk
      rw [pointing_dentry, if_neg fun both => here both.2]

theorem closed_pointed : (pointed target).Closed := by
  intro path name present
  cases path with
  | nil => rfl
  | cons first rest => simp [pointed] at present

theorem acyclic_pointing : Acyclic (pointing target).Climbs := by
  apply Volume.acyclic_of_newer
  intro entry member
  rw [List.mem_singleton.mp member]
  decide

theorem names_pointed (path : List Text) (present : pointed target path ≠ none) : ∀ name ∈ path, ValidName name := by
  unfold pointed at present
  split at present
  · rename_i top
    rw [top]
    intro name member
    cases member
  · split at present
    · rename_i here
      rw [here]
      intro name member
      rw [List.mem_singleton.mp member]
      exact ⟨by decide, by decide, by decide⟩
    · exact absurd rfl present

/-- Every tree of valid names would have an archive. -/
def Archivable : Prop :=
  ∀ (volume : Volume) (chunkSize : Nat) (base : Int) (tree : PathTree) (root : Text), 0 < chunkSize →
    volume.Lists chunkSize base tree → tree [] = some .directory → tree.Closed → Acyclic volume.Climbs →
    (∀ path, tree path ≠ none → ∀ name ∈ path, ValidName name) → AgentFS.resolvePath volume root = some base →
    ∃ frames, encodeTree volume chunkSize root = .ok frames

theorem length_le_encode (text : Text) : text.length ≤ (Utf8.encode text).length := by
  induction text with
  | nil => exact Nat.zero_le _
  | cons first rest ih =>
    have one : 0 < (String.utf8EncodeChar first).length := by
      rw [String.length_utf8EncodeChar]
      exact Char.utf8Size_pos first
    rw [Utf8.encode, List.flatMap_cons, List.length_append, ← Utf8.encode, List.length_cons]
    omega

theorem length_le_quote (text : Text) : text.length ≤ (Json.quote text).length := by
  have grows : text.length ≤ (text.flatMap Json.escape).length := by
    induction text with
    | nil => exact Nat.zero_le _
    | cons first rest ih =>
      have one : 0 < (Json.escape first).length := by
        unfold Json.escape
        split_ifs <;> simp
      rw [List.flatMap_cons, List.length_append, List.length_cons]
      omega
  unfold Json.quote
  rw [List.length_append, List.length_cons]
  omega

/-- A header is longer than the target it carries. -/
theorem length_lt_headerBytes (rel : Text) : target.length < (headerBytes (headerOf rel (.symlink target))).length := by
  refine lt_of_lt_of_le ?_ (length_le_encode _)
  have quoted := length_le_quote target
  simp [Json.stringify, headerOf, EntryHeader.members, Json.stringifyMember, Json.Scalar.stringify]
  omega

theorem readdirPlus_pointing : AgentFS.readdirPlus (pointing target) ['/'] =
    .ok [(['l'], { InodeRow.create (S_IFLNK ||| 0o777 : Nat) 0 0 0 with ino := 2, nlink := 1 })] := by rfl

theorem readlink_pointing : AgentFS.readlink (pointing target) ['/', 'l'] = .ok target := by rfl

/-- An archive with the link has a header for it. -/
theorem length_le_of_encoded {frames : List Bytes} (encoded : encodeTree (pointing target) 4096 ['/'] = .ok frames) :
    (headerBytes (headerOf ['l'] (.symlink target))).length ≤ MAX_HEADER_BYTES := by
  obtain ⟨_, _, encoded⟩ := bind_eq_ok.mp encoded
  obtain ⟨_, _, encoded⟩ := bind_eq_ok.mp encoded
  obtain ⟨_, _, encoded⟩ := bind_eq_ok.mp encoded
  obtain ⟨below, walked, _⟩ := bind_eq_ok.mp encoded
  unfold walk at walked
  rw [readdirPlus_pointing] at walked
  obtain ⟨listed, entries, walked⟩ := bind_eq_ok.mp walked
  rw [← Except.ok.inj entries] at walked
  obtain ⟨all, mapped, _⟩ := bind_eq_ok.mp walked
  rw [List.insertionSort_cons, List.insertionSort_nil, List.orderedInsert_nil, List.mapM_cons] at mapped
  obtain ⟨own, framed, _⟩ := bind_eq_ok.mp mapped
  unfold entryFrames at framed
  dsimp only at framed
  rw [if_neg (by decide), if_pos (by decide), if_pos rfl] at framed
  obtain ⟨found, linked, framed⟩ := bind_eq_ok.mp framed
  have joined : joinAbsolute ['/'] ['l'] = ['/', 'l'] := rfl
  rw [joined, readlink_pointing] at linked
  rw [← Except.ok.inj linked] at framed
  obtain ⟨header, headed, _⟩ := bind_eq_ok.mp framed
  obtain ⟨_, limit, _⟩ := bind_eq_ok.mp headed
  rw [refuse_eq_ok] at limit
  exact Nat.le_of_not_lt limit

theorem not_archivable : ¬Archivable := by
  intro archivable
  obtain ⟨frames, encoded⟩ := archivable (pointing (List.replicate MAX_HEADER_BYTES 'a')) 4096 ROOT_INO
    (pointed (List.replicate MAX_HEADER_BYTES 'a')) ['/'] (by decide) (lists_pointing _ _) rfl (closed_pointed _)
    (acyclic_pointing _) (names_pointed _) rfl
  have long := length_lt_headerBytes (List.replicate MAX_HEADER_BYTES 'a') ['l']
  have short := length_le_of_encoded _ encoded
  rw [List.length_replicate] at long
  omega

/-! ## A round trip -/

theorem source_pointing : Source (pointing ['x']) 4096 ROOT_INO (pointed ['x']) where
  lists := lists_pointing _ _
  rooted := rfl
  closed := closed_pointed _
  acyclic := acyclic_pointing _
  names := names_pointed _
  fits path node known := by
    unfold pointed at known
    split at known
    · rename_i top
      rw [top, ← Option.some.inj known]
      exact ⟨by decide, by decide⟩
    · split at known
      · rename_i here
        rw [here, ← Option.some.inj known]
        exact ⟨by decide, by decide⟩
      · cases known

theorem target_fresh : Target (Volume.fresh 0) 4096 ['/'] ROOT_INO where
  numbered := by
    refine ⟨?_, ?_, ?_, ?_⟩
    · intro entry member
      cases member
    · intro ino stored
      by_contra other
      apply stored
      unfold Volume.inode? Volume.fresh Table.find?
      rw [List.find?_singleton, if_neg]
      intro same
      rw [decide_eq_true_eq] at same
      rw [← same] at other
      exact other (by decide)
    · exact fun ino stored => absurd rfl stored
    · exact fun ino stored => absurd rfl stored
  rooted := by decide
  located := rfl
  passes front back same filled := by
    obtain ⟨rfl, _⟩ := List.append_eq_nil_iff.mp same.symm
    exact absurd rfl filled
  directory := ⟨InodeRow.root 0, rfl, by decide⟩
  empty := rfl

theorem extractTree_encodeTree_pointing : ∃ frames summary disk', encodeTree (pointing ['x']) 4096 ['/'] = .ok frames ∧
    extractTree 4096 ['/'] ⟨frames, none⟩ ⟨Volume.fresh 0, none, false⟩ = .ok summary disk' ∧
      Holds disk'.volume 4096 ['/'] (pointed ['x']) := by
  have located : AgentFS.resolvePath (pointing ['x']) ['/'] = some ROOT_INO := rfl
  obtain ⟨frames, encoded, extracts⟩ := extractTree_encodeTree (by decide) source_pointing located
  obtain ⟨holds, returns⟩ := extracts ⟨Volume.fresh 0, none, false⟩ 4096 ['/'] ROOT_INO frames (by decide) target_fresh rfl
  obtain ⟨summary, disk', ran⟩ := returns rfl ⟨rfl, rfl⟩
  exact ⟨frames, summary, disk', encoded, ran, holds summary disk' ran⟩

end Archive

end AiryFS
