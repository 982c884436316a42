import AiryFS.Namespace.TreeSteps
import AiryFS.Foundation.Runs

/-! The tree invariant over sequences of remote compound calls.

A directory that a rename replaces while a live lease holds it keeps its row without an
entry; the calls that retain one are recorded, and every other directory keeps its single
entry and its way up to the root or to a retained directory.
-/

set_option autoImplicit false

namespace AiryFS

open Foundation Relation

inductive RemoteCall where
  | createNode (bindings : List JsValue)
  | link (bindings : List JsValue)
  | rename (bindings : List JsValue)

namespace RemoteCall

def execute (volume : Volume) : RemoteCall → Except Failure (Int × Volume)
  | createNode bindings => Remote.executeRemoteCreateNode volume bindings
  | link bindings => Remote.executeRemoteLink volume bindings
  | rename bindings => Remote.executeRemoteRename volume bindings

/-- A call that throws leaves the volume as it was. -/
def step (volume : Volume) (call : RemoteCall) : Volume := settle volume ((call.execute volume).map Prod.snd)

/-- `mknod` with a directory's mode. -/
def MakesDirectoryNode : RemoteCall → Prop
  | createNode bindings => ∃ call ∈ (Remote.CreateNode.parse bindings).toOption, call.MakesDirectoryNode
  | _ => False

instance : DecidablePred MakesDirectoryNode
  | createNode bindings => inferInstanceAs (Decidable
    (∃ call ∈ (Remote.CreateNode.parse bindings).toOption, call.MakesDirectoryNode))
  | link _ => isFalse not_false
  | rename _ => isFalse not_false

/-- The directory that the call leaves without an entry because a live lease holds it. -/
def retains (volume : Volume) (call : RemoteCall) : List Int :=
  match call with
  | rename bindings =>
    match Remote.Rename.parse bindings with
    | .error _ => []
    | .ok parsed =>
      match Remote.joined volume parsed.newParentIno parsed.newName with
      | none => []
      | some destination =>
        if isDirectory destination.mode ∧ volume.leased destination.ino parsed.nowSecs ∧
            (call.step volume).links destination.ino = 0 then [destination.ino] else []
  | _ => []

/-- Every directory that a sequence of calls retains. -/
def retained (volume : Volume) : List RemoteCall → List Int
  | [] => []
  | call :: rest => call.retains volume ++ retained (call.step volume) rest

end RemoteCall

/-- The tree invariant, with the retained directories excepted. -/
structure Volume.TreeInvariant (retained : List Int) (volume : Volume) : Prop where
  unique : (volume.dentry.rows.map DentryRow.key).Nodup
  root : ∃ row, volume.inode? ROOT_INO = some row ∧ isDirectory row.mode = true ∧ volume.links ROOT_INO = 0
  parents : ∀ entry ∈ volume.dentry.rows, ∃ row, volume.inode? entry.parentIno = some row ∧ isDirectory row.mode = true
  single : ∀ row ∈ volume.inode.rows, isDirectory row.mode = true → row.ino ≠ ROOT_INO →
    volume.links row.ino = 1 ∨ (row.ino ∈ retained ∧ volume.links row.ino = 0)
  reachable : ∀ row ∈ volume.inode.rows, isDirectory row.mode = true →
    ∃ top, (top = ROOT_INO ∨ top ∈ retained) ∧ ReflTransGen volume.Climbs row.ino top
  acyclic : Acyclic volume.Climbs
  counted : ∀ row ∈ volume.inode.rows, isDirectory row.mode = false → row.nlink = volume.links row.ino
  numbered : (∀ row ∈ volume.inode.rows, 0 < row.ino ∧ row.ino ≤ volume.inodeSequence) ∧
    ∀ entry ∈ volume.dentry.rows, 0 < entry.ino ∧ entry.ino ≤ volume.inodeSequence

/-- What one call leaves behind. -/
structure RemoteCall.Safe (call : RemoteCall) (before after : Volume) : Prop where
  /-- A directory's count beyond its child directories does not move. -/
  surplus : ∀ row row', before.inode? row.ino = some row → after.inode? row.ino = some row' →
    isDirectory row.mode = true → isDirectory row'.mode = true → row.ino ∉ call.retains before →
    row'.nlink - after.childDirectories row.ino = row.nlink - before.childDirectories row.ino
  /-- A failure status changes nothing. -/
  failure : ∀ status result, call.execute before = .ok (status, result) → status ≤ 0 →
    result.inode = before.inode ∧ result.dentry = before.dentry ∧ result.data = before.data ∧
      result.symlink = before.symlink
  /-- Nor does a call that throws. -/
  thrown : ∀ failure, call.execute before = .error failure → after = before

namespace Volume

variable {volume : Volume} {retained : List Int}

theorem TreeInvariant.tree (invariant : volume.TreeInvariant retained) : volume.Tree := by
  have stored : ∀ ino node, (volume.ledger.account ino).node = some node →
      ∃ row ∈ volume.inode.rows, row.ino = ino ∧ node = row.node := by
    intro ino node known
    rw [ledger_account_node, Option.map_eq_some_iff] at known
    obtain ⟨row, found, same⟩ := known
    exact ⟨row, volume.inode.find?_mem found, volume.inode.find?_key found, same.symm⟩
  have typed : ∀ ino, volume.ledger.directory ino = true → ∃ row ∈ volume.inode.rows, row.ino = ino ∧
      isDirectory row.mode = true := by
    intro ino directory
    rw [Ledger.directory, Option.any_eq_true] at directory
    obtain ⟨node, known, directory⟩ := directory
    obtain ⟨row, member, same, kind⟩ := stored ino node known
    rw [kind] at directory
    exact ⟨row, member, same, directory⟩
  obtain ⟨root, rootStored, rootDirectory, top⟩ := invariant.root
  refine ⟨⟨?_, top, ?_, ?_, ?_⟩, ?_, invariant.acyclic⟩
  · rw [directory_iff rootStored]
    exact rootDirectory
  · intro ino directory
    obtain ⟨row, member, same, kind⟩ := typed ino directory
    rw [ledger_account_links, ← same]
    by_cases apart : row.ino = ROOT_INO
    · rw [apart, top]
      exact Nat.zero_le 1
    · rcases invariant.single row member kind apart with one | ⟨_, none⟩ <;> omega
  · intro ino node known file
    obtain ⟨row, member, same, kind⟩ := stored ino node known
    rw [kind] at file ⊢
    rw [ledger_account_links, ← same]
    exact invariant.counted row member file
  · intro ino used
    rcases used with known | linked
    · obtain ⟨node, known⟩ := Option.ne_none_iff_exists'.mp known
      obtain ⟨row, member, same, _⟩ := stored ino node known
      rw [← same]
      exact invariant.numbered.1 row member
    · obtain ⟨entry, member, same⟩ := volume.links_pos_iff.mp linked
      rw [← same]
      exact invariant.numbered.2 entry member
  · intro entry member
    obtain ⟨row, found, directory⟩ := invariant.parents entry member
    rw [directory_iff found]
    exact directory

theorem TreeInvariant.detached (invariant : volume.TreeInvariant retained) {ino : Int} (detached : volume.Detached ino) :
    ino ∈ retained := by
  obtain ⟨directory, apart, loose⟩ := detached
  rw [Ledger.directory, Option.any_eq_true] at directory
  obtain ⟨node, known, kind⟩ := directory
  rw [ledger_account_node, Option.map_eq_some_iff] at known
  obtain ⟨row, found, same⟩ := known
  have numbered : row.ino = ino := volume.inode.find?_key found
  rw [← same] at kind
  rcases invariant.single row (volume.inode.find?_mem found) kind (by rw [numbered]; exact apart) with one | ⟨kept, _⟩
  · rw [numbered] at one
    omega
  · rw [← numbered]
    exact kept

/-- The invariant is the tree with its detached directories accounted for. -/
theorem TreeInvariant.of_tree (tree : volume.Tree) (detached : ∀ ino, volume.Detached ino → ino ∈ retained) :
    volume.TreeInvariant retained := by
  have found : ∀ row ∈ volume.inode.rows, volume.inode? row.ino = some row := fun row member =>
    volume.inode.find?_of_mem member
  have typed : ∀ ino, volume.ledger.directory ino = true →
      ∃ row, volume.inode? ino = some row ∧ isDirectory row.mode = true := by
    intro ino directory
    rw [Ledger.directory, ledger_account_node, Option.any_map, Option.any_eq_true] at directory
    exact directory
  refine ⟨volume.dentry.unique, ?_, ?_, ?_, ?_, tree.acyclic, ?_, ?_, ?_⟩
  · obtain ⟨row, stored, directory⟩ := typed ROOT_INO tree.tidy.root
    exact ⟨row, stored, directory, tree.tidy.top⟩
  · intro entry member
    exact typed _ (tree.parents entry member)
  · intro row member directory apart
    have kind : volume.ledger.directory row.ino = true := by rw [directory_iff (found row member)]; exact directory
    have most := tree.tidy.single row.ino kind
    rw [ledger_account_links] at most
    by_cases loose : volume.links row.ino = 0
    · exact .inr ⟨detached row.ino ⟨kind, apart, loose⟩, loose⟩
    · exact .inl (by omega)
  · intro row member directory
    have kind : volume.ledger.directory row.ino = true := by rw [directory_iff (found row member)]; exact directory
    obtain ⟨top, topmost, path⟩ := tree.climbs_to_top kind
    refine ⟨top, ?_, path⟩
    rcases topmost with root | loose
    · exact .inl root
    · exact .inr (detached top loose)
  · intro row member file
    have known : (volume.ledger.account row.ino).node = some row.node := by
      rw [ledger_account_node, found row member, Option.map_some]
    exact tree.tidy.counted row.ino row.node known file
  · intro row member
    exact tree.tidy.numbered row.ino (.inl (by rw [ledger_account_node, found row member]; simp))
  · intro entry member
    exact tree.tidy.numbered entry.ino (.inr (volume.links_pos_iff.mpr ⟨entry, member, rfl⟩))

theorem TreeInvariant.fresh (clock : Int) : (Volume.fresh clock).TreeInvariant [] := by
  have only : ∀ row ∈ (Volume.fresh clock).inode.rows, row = InodeRow.root (clock / 1000) :=
    fun row member => List.mem_singleton.mp member
  have directory : isDirectory (InodeRow.root (clock / 1000)).mode = true := by
    change isDirectory 16877 = true
    decide
  refine ⟨List.nodup_nil, ⟨_, rfl, directory, rfl⟩, fun _ member => absurd member List.not_mem_nil, ?_, ?_, ?_, ?_, ?_,
    fun _ member => absurd member List.not_mem_nil⟩
  · intro row member _ apart
    exact absurd (by rw [only row member]; rfl) apart
  · intro row member _
    refine ⟨ROOT_INO, .inl rfl, ?_⟩
    rw [only row member]
    exact .refl
  · intro ino cycle
    obtain ⟨parent, climb, _⟩ := TransGen.head'_iff.mp cycle
    exact absurd climb List.not_mem_nil
  · intro row member file
    rw [only row member, directory] at file
    cases file
  · intro row member
    rw [only row member]
    exact ⟨Int.one_pos, le_refl _⟩

/-- Leases are no part of the tree. -/
theorem TreeInvariant.leases (invariant : volume.TreeInvariant retained) (openInode : OpenInodeTable) :
    ({ volume with openInode } : Volume).TreeInvariant retained :=
  ⟨invariant.unique, invariant.root, invariant.parents, invariant.single, invariant.reachable, invariant.acyclic,
    invariant.counted, invariant.numbered⟩

end Volume

namespace RemoteCall

variable {volume : Volume}

theorem step_of_ok {call : RemoteCall} {status : Int} {result : Volume}
    (done : call.execute volume = .ok (status, result)) : call.step volume = result := by
  rw [step, done]
  rfl

theorem step_of_error {call : RemoteCall} {failure : Failure} (thrown : call.execute volume = .error failure) :
    call.step volume = volume := by
  rw [step, thrown]
  rfl

/-- A directory that a rename loses is one that it retains, once nothing leads to it. -/
theorem mem_retains {bindings : List JsValue} {parsed : Remote.Rename} {ino : Int}
    (parsing : Remote.Rename.parse bindings = .ok parsed) (lost : parsed.Loses volume ino)
    (loose : ((rename bindings).step volume).links ino = 0) : ino ∈ (rename bindings).retains volume := by
  obtain ⟨destination, found, same, directory, leased⟩ := lost
  subst same
  rw [Option.mem_def] at found
  simp only [retains, parsing, found]
  rw [if_pos ⟨directory, leased, loose⟩]
  exact List.mem_singleton_self _

theorem positive (tree : volume.Tree) {ino : Int} {row : InodeRow} (stored : volume.inode? ino = some row) : 0 < ino :=
  (tree.tidy.numbered ino (.inl (by rw [Volume.ledger_account_node, stored]; simp))).1

/-- One call: either nothing changed, or it succeeded and kept what a step keeps. -/
theorem execute_cases {call : RemoteCall} {status : Int} {result : Volume} (tree : volume.Tree)
    (plain : ¬call.MakesDirectoryNode) (done : call.execute volume = .ok (status, result)) :
    result = volume ∨ (0 < status ∧ Volume.Keeps (fun ino => ino ∈ call.retains volume) volume result) := by
  -- Creating and linking lose nothing at all.
  have weaken : Volume.Keeps (fun _ => False) volume result →
      Volume.Keeps (fun ino => ino ∈ call.retains volume) volume result :=
    fun keeps => ⟨keeps.tree, fun ino detached => (keeps.attached ino detached).imp_right False.elim,
      fun ino before after _ => keeps.surplus ino before after not_false⟩
  have stepped := step_of_ok done
  cases call with
  | createNode bindings =>
    obtain ⟨parsed, parsing, ran⟩ := bind_eq_ok.mp done
    rcases Remote.CreateNode.run_cases ran with ⟨_, same⟩ | creates
    · exact .inl same
    · have within := tree.tidy.numbered ROOT_INO (.inl (Ledger.stored_of_directory tree.tidy.root))
      refine .inr ⟨by rw [creates.number]; rw [Volume.ledger_sequence] at within; omega, weaken (creates.keeps ?_ tree)⟩
      intro made
      exact plain ⟨parsed, by rw [parsing]; rfl, made⟩
  | link bindings =>
    obtain ⟨parsed, _, ran⟩ := bind_eq_ok.mp done
    rcases Remote.Link.run_cases ran with ⟨_, same⟩ | ⟨number, source, links⟩
    · exact .inl same
    · refine .inr ⟨?_, weaken (links.keeps tree)⟩
      rw [number]
      exact positive tree links.stored
  | rename bindings =>
    obtain ⟨parsed, parsing, ran⟩ := bind_eq_ok.mp done
    rcases Remote.Rename.run_cases ran with same | ⟨source, number, moves⟩
    · exact .inl same
    · obtain ⟨_, _, _, stored⟩ := Remote.joined_some moves.sourced
      have keeps := moves.keeps tree
      have retained : ∀ ino, parsed.Loses volume ino → ino ∈ (rename bindings).retains volume := by
        intro ino lost
        apply mem_retains parsing lost
        rw [stepped]
        exact moves.loses_links tree lost
      refine .inr ⟨by rw [number]; exact positive tree stored, keeps.tree, ?_, ?_⟩
      · intro ino detached
        exact (keeps.attached ino detached).imp_right (retained ino)
      · intro ino before after kept
        exact keeps.surplus ino before after fun lost => kept (retained ino lost)

theorem step_keeps {call : RemoteCall} (tree : volume.Tree) (plain : ¬call.MakesDirectoryNode) :
    Volume.Keeps (fun ino => ino ∈ call.retains volume) volume (call.step volume) ∧
      call.Safe volume (call.step volume) := by
  have kept : Volume.Keeps (fun ino => ino ∈ call.retains volume) volume (call.step volume) := by
    cases done : call.execute volume with
    | error failure =>
      rw [step_of_error done]
      exact .refl tree _
    | ok pair =>
      rw [step_of_ok done]
      rcases execute_cases tree plain done with same | ⟨_, keeps⟩
      · rw [same]
        exact .refl tree _
      · exact keeps
  refine ⟨kept, ?_, ?_, ?_⟩
  · intro row row' stored stored' directory directory' free
    have surplus := kept.surplus row.ino (by rw [Volume.directory_iff stored]; exact directory)
      (by rw [Volume.directory_iff stored']; exact directory') free
    rw [Volume.nlink_of_stored stored, Volume.nlink_of_stored stored'] at surplus
    exact surplus
  · intro status result done failed
    rcases execute_cases tree plain done with same | ⟨succeeded, _⟩
    · rw [same]
      exact ⟨rfl, rfl, rfl, rfl⟩
    · omega
  · intro failure thrown
    exact step_of_error thrown

/-- A sequence of calls keeps the tree, and detaches only what it retains. -/
theorem run_keeps {calls : List RemoteCall} (tree : volume.Tree) (plain : ∀ call ∈ calls, ¬call.MakesDirectoryNode) :
    (run step volume calls).Tree ∧
      ∀ ino, (run step volume calls).Detached ino → volume.Detached ino ∨ ino ∈ retained volume calls := by
  induction calls generalizing volume with
  | nil => exact ⟨tree, fun ino detached => .inl detached⟩
  | cons call rest ih =>
    have kept := (step_keeps tree (plain call List.mem_cons_self)).1
    obtain ⟨later, detaches⟩ := ih kept.tree fun other member => plain other (List.mem_cons_of_mem _ member)
    refine ⟨later, ?_⟩
    intro ino detached
    rw [retained, List.mem_append]
    rcases detaches ino detached with earlier | since
    · rcases kept.attached ino earlier with before | now
      · exact .inl before
      · exact .inr (.inl now)
    · exact .inr (.inr since)

end RemoteCall

/-- Two empty directories. -/
def twoDirectories : List RemoteCall :=
  ["a", "b"].map fun name => .createNode [.text "mkdir".toList, .integer 1, .text name.toList, .integer 0o755,
    .integer 0, .integer 0, .integer 0, .null, .integer 0, .integer 0]

/-- The second of them is open in some session. -/
def openDirectory : Volume :=
  Remote.pinOpenInode (run RemoteCall.step (Volume.fresh 0) twoDirectories) "session".toList 3 60

/-- The first takes its place. -/
def replaceOpen : List RemoteCall :=
  [.rename [.integer 1, .text "a".toList, .integer 1, .text "b".toList, .integer 30, .integer 0]]

theorem openDirectory_tree : openDirectory.TreeInvariant [] := by
  have start := Volume.TreeInvariant.fresh 0
  obtain ⟨tree, detaches⟩ := RemoteCall.run_keeps start.tree (by decide : ∀ call ∈ twoDirectories,
    ¬call.MakesDirectoryNode)
  have none : RemoteCall.retained (Volume.fresh 0) twoDirectories = [] := by decide
  refine Volume.TreeInvariant.leases (.of_tree tree ?_) _
  intro ino detached
  rcases detaches ino detached with before | since
  · exact start.detached before
  · rw [none] at since
    exact since

/-- Every sequence of remote calls without a directory made by `mknod` keeps the tree in every
state it passes through, up to the directories it retains, and each of its calls is safe. -/
theorem remoteTree {volume : Volume} (start : volume.TreeInvariant []) (calls : List RemoteCall)
    (plain : ∀ call ∈ calls, ¬call.MakesDirectoryNode) {reached : List RemoteCall} (earlier : reached <+: calls) :
    (run RemoteCall.step volume reached).TreeInvariant (RemoteCall.retained volume reached) ∧
      ∀ call, reached ++ [call] <+: calls → call.Safe (run RemoteCall.step volume reached)
        (run RemoteCall.step volume (reached ++ [call])) := by
  have still : ∀ call ∈ reached, ¬call.MakesDirectoryNode := fun call member => plain call (earlier.subset member)
  obtain ⟨tree, detaches⟩ := RemoteCall.run_keeps start.tree still
  refine ⟨.of_tree tree ?_, ?_⟩
  · intro ino detached
    rcases detaches ino detached with before | since
    · exact absurd (start.detached before) List.not_mem_nil
    · exact since
  · intro call next
    have ran : run RemoteCall.step volume (reached ++ [call]) = call.step (run RemoteCall.step volume reached) := by
      rw [run, List.foldl_append]
      rfl
    rw [ran]
    exact (RemoteCall.step_keeps tree (plain call (next.subset (by simp)))).2

theorem remoteTree_replaceOpen : (run RemoteCall.step openDirectory replaceOpen).TreeInvariant [3] := by
  have retained : RemoteCall.retained openDirectory replaceOpen = [3] := by decide
  rw [← retained]
  exact (remoteTree openDirectory_tree replaceOpen (by decide) List.prefix_rfl).1

/-- Without the exception the replaced directory, which is still stored, has no entry. -/
theorem replaceOpen_detaches : ¬∀ volume calls, Volume.TreeInvariant [] volume →
    (run RemoteCall.step volume calls).TreeInvariant [] := by
  intro kept
  have invariant := kept openDirectory replaceOpen openDirectory_tree
  have stored : ∃ row ∈ (run RemoteCall.step openDirectory replaceOpen).inode.rows,
      isDirectory row.mode = true ∧ row.ino = 3 := by decide
  obtain ⟨row, member, directory, number⟩ := stored
  have loose : (run RemoteCall.step openDirectory replaceOpen).links 3 = 0 := by decide
  rcases invariant.single row member directory (by rw [number]; decide) with one | ⟨never, _⟩
  · rw [number, loose] at one
    cases one
  · exact absurd never List.not_mem_nil

end AiryFS
