import AiryFS.Transfer.Extracting
import AiryFS.Transfer.Frames

/-! Extraction returns when the archive is in order.

An archive is in order when every entry comes after the directories above it and no path
comes twice. Its extraction can then only fail for want of room, or because the stream does.
-/

set_option autoImplicit false

namespace AiryFS

open Foundation Attempt

/-- Each entry is new, below directories that are there. -/
def PathTree.Accepts : PathTree → List (Text × TreeNode) → Prop
  | _, [] => True
  | tree, (rel, node) :: entries => rel ≠ [] ∧ tree (fields '/' rel) = none ∧
    (∀ front back, (fields '/' rel).dropLast = front ++ back → tree front = some .directory) ∧
    PathTree.Accepts (tree.plant (fields '/' rel) node) entries

namespace Disk

variable {α : Type} {disk : Disk}

theorem post_mutate_calm {operation : Volume → Except Failure Volume} {volume' : Volume} (calm : disk.fault = none)
    (ran : operation disk.volume = .ok volume') {returned : Unit → Disk → Prop} {thrown : Failure → Disk → Prop}
    (returns : returned () { disk with volume := volume', fault := none }) : Post (mutate operation) disk returned thrown := by
  unfold Post mutate call
  simp only [calm, ran, Except.map, Option.map_none]
  exact returns

theorem post_inspect_calm {operation : Volume → Except Failure α} {value : α} (calm : disk.fault = none)
    (ran : operation disk.volume = .ok value) {returned : α → Disk → Prop} {thrown : Failure → Disk → Prop}
    (returns : returned value { disk with fault := none }) : Post (inspect operation) disk returned thrown := by
  unfold Post inspect call
  simp only [calm, ran, Except.map, Option.map_none]
  exact returns

end Disk

namespace Archive

variable {start : Volume} {chunkSize : Nat} {place segments : List Text} {base ino : Int} {tree : PathTree} {disk : Disk}
  {registry registry' : PathRegistry} {firstEntry : Bool} {rel abs : Text} {type : EntryType}

/-! ## Files -/

/-- While the stream still has the bytes, every round reads and writes some. -/
theorem writeFrom_returns {file : AgentFSFile} {rounds offset remaining : Nat} {reader : ByteStreamReader} (calm : disk.fault = none)
    (unlimited : disk.volume.Unlimited) (held : remaining ≤ reader.rest.length) :
    Post (writeFrom file rounds reader offset remaining) disk (fun _ disk' => disk'.fault = none) (fun _ _ => False) := by
  induction rounds generalizing disk reader offset remaining with
  | zero =>
    unfold writeFrom
    rw [post_pure]
    exact calm
  | succ rounds ih =>
    unfold writeFrom
    split
    · rename_i more
      have some : reader.rest ≠ [] := by
        intro none
        rw [none] at held
        exact absurd held (by simp; omega)
      obtain ⟨chunk, later, read⟩ := ByteStreamReader.readSome_of_rest some remaining
      obtain ⟨_, _, spelled, _⟩ := ByteStreamReader.readSome_ok more read
      obtain ⟨volume', written⟩ := @AgentFSFile.pwrite_unlimited file _ unlimited offset chunk
      rw [post_lift_bind read]
      rw [post_bind]
      refine Disk.post_mutate_calm calm written (ih rfl ?_ ?_)
      · unfold Volume.Unlimited
        rw [(AgentFSFile.pwrite_touches written).1.config]
        exact unlimited
      · rw [spelled, List.length_append] at held
        omega
    · rw [post_pure]
      exact calm

theorem writeFileBody_returns {path name : Text} {size : Nat} {reader : ByteStreamReader} (calm : disk.fault = none)
    (growing : Volume.Growing start chunkSize place base disk.volume tree) (unlimited : start.Unlimited)
    (passes : disk.volume.Passes place) (spelled : fields '/' path = place ++ (segments ++ [name]))
    (directories : ∀ front back, segments = front ++ back → tree front = some .directory)
    (absent : tree (segments ++ [name]) = none) (held : size ≤ reader.rest.length) :
    Post (writeFileBody chunkSize path reader size) disk (fun _ disk' => disk'.fault = none) (fun _ _ => False) := by
  obtain ⟨volume', written⟩ := AgentFS.writeFile_succeeds growing unlimited spelled passes directories absent
  have grown := AgentFS.writeFile_grows growing spelled (by simp) (by rw [absent]; exact fun _ known => by cases known) written
  unfold writeFileBody
  rw [post_bind]
  refine Disk.post_mutate_calm calm written ?_
  split
  · rw [post_pure]
  · have known : tree.plant (segments ++ [name]) (.file []) (segments ++ [name]) = some (.file []) := Function.update_self _ _ _
    obtain ⟨ino, walked, stored, row, found, regular⟩ := grown.listed known
    have resolved : AgentFS.resolvePath volume' path = some ino := by
      rw [grown.resolves spelled]
      exact walked
    have opened : AgentFS.openFile volume' chunkSize path = .ok ⟨ino, chunkSize⟩ := by
      unfold AgentFS.openFile
      rw [AgentFS.resolvePathOrThrow_of_resolved resolved]
      simp only [bind, Except.bind]
      rw [refuse_of_not (by simp [AgentFS.knownDirectory, AgentFS.getInodeMode, found,
        AgentFS.isDirectory_of_isRegular regular])]
      rfl
    rw [post_bind]
    refine Disk.post_inspect_calm rfl opened ?_
    rw [post_bind]
    refine (writeFrom_returns rfl (grown.extended.unlimited unlimited) held).mono ?_ fun _ _ => id
    intro reader' disk' calm
    rw [post_bind]
    have synced : (fun _ : Volume => (Except.ok () : Except Failure Unit)) disk'.volume = .ok () := rfl
    exact Disk.post_inspect_calm calm synced rfl

/-! ## Entries -/

theorem typeOf_readNode {header : Json} {reader reader' : ByteStreamReader} {node : TreeNode}
    (read : readNode type header reader = .ok (node, reader')) : typeOf node = type := by
  unfold readNode at read
  cases type with
  | directory =>
    rw [pure_eq_ok, Prod.mk.injEq] at read
    rw [← read.1]
    rfl
  | symlink =>
    dsimp only at read
    split at read
    · rw [pure_eq_ok, Prod.mk.injEq] at read
      rw [← read.1]
      rfl
    · cases read
  | file =>
    obtain ⟨_, _, read⟩ := bind_eq_ok.mp read
    obtain ⟨_, _, read⟩ := bind_eq_ok.mp read
    rw [pure_eq_ok, Prod.mk.injEq] at read
    rw [← read.1]
    rfl

theorem extractEntry_returns {header : Json} {reader plain plain' : ByteStreamReader} {summary : TreeSummary} {node : TreeNode}
    (calm : disk.fault = none) (growing : Volume.Growing start chunkSize place base disk.volume tree)
    (unlimited : start.Unlimited) (passes : disk.volume.Passes place) (below : rel ≠ [])
    (joined : ['/'].intercalate (fields '/' rel) = rel) (spelled : fields '/' abs = place ++ fields '/' rel)
    (directories : ∀ front back, (fields '/' rel).dropLast = front ++ back → tree front = some .directory)
    (absent : tree (fields '/' rel) = none) (same : reader.rest = plain.rest)
    (read : readNode type header plain = .ok (node, plain')) :
    Post (extractEntry chunkSize abs rel type header reader summary) disk (fun _ disk' => disk'.fault = none) (fun _ _ => False) := by
  have filled : fields '/' rel ≠ [] := by
    intro none
    rw [none] at joined
    exact below joined.symm
  obtain ⟨above, name, parts⟩ := (List.eq_nil_or_concat (fields '/' rel)).resolve_left filled
  rw [List.concat_eq_append] at parts
  rw [parts] at spelled directories absent
  rw [List.dropLast_concat] at directories
  have parent := directories above [] (List.append_nil _).symm
  unfold extractEntry
  unfold readNode at read
  cases type with
  | directory =>
    obtain ⟨volume', made⟩ := AgentFS.mkdir_succeeds growing unlimited spelled parent absent
    dsimp only
    rw [if_neg below, post_bind]
    exact Disk.post_mutate_calm calm made rfl
  | symlink =>
    dsimp only at read ⊢
    split at read
    · rename_i target listed
      obtain ⟨volume', linked⟩ := @AgentFS.symlink_succeeds _ _ _ _ _ abs _ _ _ target growing unlimited spelled parent absent
      have planted : Post (do
          Disk.mutate fun volume => AgentFS.symlink volume target abs
          return (reader, { summary with symlinks := summary.symlinks + 1 })) disk (fun _ disk' => disk'.fault = none) fun _ _ => False := by
        rw [post_bind]
        exact Disk.post_mutate_calm calm linked rfl
      simpa only [listed] using planted
    · cases read
  | file =>
    obtain ⟨size, sized, read⟩ := bind_eq_ok.mp read
    obtain ⟨⟨body, after⟩, bodyRead, _⟩ := bind_eq_ok.mp read
    obtain ⟨length, rest, _⟩ := ByteStreamReader.readExact_ok bodyRead
    have held : size ≤ reader.rest.length := by
      rw [same, rest, List.length_append]
      omega
    dsimp only
    rw [post_lift_bind sized]
    rw [post_bind]
    refine (writeFileBody_returns calm growing unlimited passes spelled directories absent held).mono ?_ fun _ _ => id
    intro _ _ calm
    exact calm

/-- The registry knows of each path what the tree does. -/
def Matches (registry : PathRegistry) (tree : PathTree) : Prop :=
  ∀ path type, registry.type? path = some type → ∃ node, tree (fields '/' path) = some node ∧ typeOf node = type

theorem Matches.plant (matching : Matches registry tree) {node : TreeNode} (absent : tree (fields '/' rel) = none)
    (directories : ∀ front back, (fields '/' rel).dropLast = front ++ back → tree front = some .directory) :
    Matches ((rel, typeOf node) :: registry) (tree.plant (fields '/' rel) node) := by
  have planted : tree.plant (fields '/' rel) node = Function.update tree (fields '/' rel) (some node) := by
    unfold PathTree.plant
    split
    · rw [PathTree.withDirectories_of_present]
      intro front back same _
      rw [List.nil_append, directories front back same]
      rfl
    · rfl
  rw [planted]
  intro path type known
  rw [PathRegistry.type?_cons] at known
  split at known
  · rename_i same
    rw [← same]
    exact ⟨node, Function.update_self _ _ _, Option.some.inj known⟩
  · obtain ⟨other, found, kind⟩ := matching path type known
    refine ⟨other, ?_, kind⟩
    rw [Function.update_of_ne, found]
    intro same
    rw [same, absent] at found
    cases found

theorem splitOn_of_valid {value : Option Json} (valid : validateRelativePath value = .ok rel) (below : rel ≠ []) :
    rel.splitOn '/' = fields '/' rel := by
  have joined := validateRelativePath_ok valid
  have separable := @fields_separable Char _ '/' rel
  have some : fields '/' rel ≠ [] := by
    intro none
    rw [none] at joined
    exact below joined.symm
  have split := List.splitOn_intercalate '/' (fun piece member => (separable piece member).2) some
  rw [joined] at split
  exact split

/-- Nothing above the path is anything but a directory, so that it can be registered. -/
theorem add_accepts (matching : Matches registry tree) {value : Option Json} (valid : validateRelativePath value = .ok rel)
    (below : rel ≠ []) (absent : tree (fields '/' rel) = none)
    (directories : ∀ front back, (fields '/' rel).dropLast = front ++ back → tree front = some .directory) :
    registry.add rel type = .ok ((rel, type) :: registry) := by
  have fresh : ¬(registry.type? rel).isSome = true := by
    intro known
    obtain ⟨other, found⟩ := Option.isSome_iff_exists.mp known
    obtain ⟨node, listed, _⟩ := matching rel other found
    rw [absent] at listed
    cases listed
  have clear : ¬∃ ancestor ∈ ancestorPaths rel, ∃ other ∈ registry.type? ancestor, other ≠ .directory := by
    rintro ⟨ancestor, member, other, known, kind⟩
    unfold ancestorPaths at member
    rw [splitOn_of_valid valid below] at member
    dsimp only at member
    rw [List.mem_map] at member
    obtain ⟨count, counted, rfl⟩ := member
    rw [List.mem_range'_1] at counted
    have separable := @fields_separable Char _ '/' rel
    have taken : fields '/' (['/'].intercalate ((fields '/' rel).take count)) = (fields '/' rel).take count :=
      fields_intercalate fun piece member => separable piece (List.mem_of_mem_take member)
    obtain ⟨node, listed, same⟩ := matching _ _ known
    have directory := directories ((fields '/' rel).take count) (((fields '/' rel).dropLast).drop count) (by
      have shorter : (fields '/' rel).take count = ((fields '/' rel).dropLast).take count := by
        rw [List.dropLast_eq_take, List.take_take, Nat.min_eq_left (by omega)]
      rw [shorter, List.take_append_drop])
    rw [taken, directory, Option.some.injEq] at listed
    rw [← listed] at same
    exact kind same.symm
  unfold PathRegistry.add
  dsimp only
  rw [refuse_of_not fresh, refuse_of_not clear]
  rfl

theorem extractEntries_returns (positive : 0 < chunkSize) {targetDir : Text} (named : fields '/' targetDir = place) {rounds : Nat}
    {reader plain plain' : ByteStreamReader} {summary : TreeSummary} {entries : List (Text × TreeNode)} (calm : disk.fault = none)
    (extracting : Extracting start chunkSize place base registry false disk.volume tree) (matching : Matches registry tree)
    (numbered : start.Numbered) (rooted : ROOT_INO ≤ start.inodeSequence) (unlimited : start.Unlimited) (passes : start.Passes place)
    (accepts : tree.Accepts entries) (same : reader.rest = plain.rest)
    (held : readEntries rounds plain = .ok (entries, plain')) :
    Post (extractEntries chunkSize targetDir rounds reader registry false summary) disk (fun _ disk' => disk'.fault = none)
      (fun _ _ => False) := by
  induction rounds generalizing disk reader registry summary tree plain entries with
  | zero =>
    unfold extractEntries
    rw [post_pure]
    exact calm
  | succ rounds ih =>
    unfold readEntries at held
    obtain ⟨⟨header, plainLater⟩, plainRead, held⟩ := bind_eq_ok.mp held
    obtain ⟨later, read, rest, _, _⟩ := readHeader_same same.symm plainRead
    unfold extractEntries
    rw [post_lift_bind read]
    cases header with
    | none =>
      dsimp only
      rw [post_pure]
      exact calm
    | some found =>
      obtain ⟨type, header⟩ := found
      dsimp only at held ⊢
      obtain ⟨rel, valid, held⟩ := bind_eq_ok.mp held
      obtain ⟨⟨node, plainNode⟩, nodeRead, held⟩ := bind_eq_ok.mp held
      obtain ⟨⟨more, last⟩, moreRead, held⟩ := bind_eq_ok.mp held
      rw [pure_eq_ok, Prod.mk.injEq] at held
      rw [← held.1] at accepts
      dsimp only at moreRead held
      rw [held.2] at moreRead
      obtain ⟨below, absent, directories, accepts⟩ := accepts
      have joined := validateRelativePath_ok valid
      have added : registry.add rel type = .ok ((rel, type) :: registry) :=
        add_accepts matching valid below absent directories
      rw [post_lift_bind valid]
      rw [post_lift_bind (refuse_of_not (by simp) _)]
      rw [post_lift_bind added]
      have spelled : fields '/' (if rel = [] then targetDir else targetDir ++ '/' :: rel) = place ++ fields '/' rel := by
        rw [if_neg below, fields_append_sep, named]
      have present := extracting.growing.extended.passes numbered rooted passes
      have done := (extractEntry_post positive later summary extracting added joined spelled (fun root => absurd root below)
        (fun fresh => by cases fresh) rest.symm).and
        (extractEntry_returns calm extracting.growing unlimited present below joined spelled directories absent rest.symm
          nodeRead)
      rw [post_bind]
      refine done.mono ?_ fun _ _ failed => failed.2
      rintro ⟨reader', summary'⟩ disk' ⟨⟨other, plainOther, otherRead, rest, _, _, extracted⟩, calm⟩
      rw [nodeRead, Except.ok.injEq, Prod.mk.injEq] at otherRead
      obtain ⟨rfl, rfl⟩ := otherRead
      have matched : Matches ((rel, type) :: registry) (tree.plant (fields '/' rel) node) := by
        rw [← typeOf_readNode nodeRead]
        exact matching.plant absent directories
      exact ih calm extracted matched accepts rest moreRead

/-- The record of the root comes first and makes nothing. -/
theorem extractRoot_returns (positive : 0 < chunkSize) {targetDir : Text} (named : fields '/' targetDir = place) {rounds : Nat}
    {reader plain plain' : ByteStreamReader} {summary : TreeSummary} {entries : List (Text × TreeNode)} (calm : disk.fault = none)
    (growing : Volume.Growing start chunkSize place base disk.volume PathTree.empty) (numbered : start.Numbered)
    (rooted : ROOT_INO ≤ start.inodeSequence) (unlimited : start.Unlimited) (passes : start.Passes place)
    (accepts : PathTree.empty.Accepts entries) (same : reader.rest = plain.rest)
    (held : readEntries (rounds + 1) plain = .ok (([], .directory) :: entries, plain')) :
    Post (extractEntries chunkSize targetDir (rounds + 1) reader [] true summary) disk (fun _ disk' => disk'.fault = none)
      (fun _ _ => False) := by
  unfold readEntries at held
  obtain ⟨⟨header, plainLater⟩, plainRead, held⟩ := bind_eq_ok.mp held
  obtain ⟨later, read, rest, _, _⟩ := readHeader_same same.symm plainRead
  cases header with
  | none =>
    rw [pure_eq_ok, Prod.mk.injEq] at held
    cases held.1
  | some found =>
    obtain ⟨type, header⟩ := found
    dsimp only at held
    obtain ⟨rel, valid, held⟩ := bind_eq_ok.mp held
    obtain ⟨⟨node, plainNode⟩, nodeRead, held⟩ := bind_eq_ok.mp held
    obtain ⟨⟨more, last⟩, moreRead, held⟩ := bind_eq_ok.mp held
    simp only [pure_eq_ok, Prod.mk.injEq, List.cons.injEq] at held
    obtain ⟨⟨⟨rfl, rfl⟩, rfl⟩, rfl⟩ := held
    obtain rfl := typeOf_readNode nodeRead
    have stayed : plainNode = plainLater := by
      unfold readNode at nodeRead
      dsimp only [typeOf] at nodeRead
      rw [pure_eq_ok, Prod.mk.injEq] at nodeRead
      exact nodeRead.2.symm
    rw [stayed] at moreRead
    have extracting : Extracting start chunkSize place base [([], .directory)] false disk.volume PathTree.empty := by
      refine ⟨growing, rfl, ?_, .inr (by decide)⟩
      intro path node known other
      unfold PathTree.empty at known
      split at known
      · exact absurd (Option.some.inj known).symm other
      · cases known
    have matching : Matches [([], .directory)] PathTree.empty := by
      intro path type known
      rw [PathRegistry.type?_cons] at known
      split at known
      · rename_i root
        rw [← root, fields_nil]
        exact ⟨.directory, rfl, Option.some.inj known⟩
      · cases known
    have added : PathRegistry.add [] [] .directory = .ok [([], .directory)] := by rfl
    unfold extractEntries
    rw [post_lift_bind read]
    dsimp only [typeOf]
    rw [post_lift_bind valid, post_lift_bind (refuse_of_not (by simp) _), post_lift_bind added, post_bind]
    unfold extractEntry
    dsimp only
    rw [if_pos rfl, post_pure]
    exact extractEntries_returns positive named calm extracting matching numbered rooted unlimited passes accepts rest.symm
      moreRead

/-- Extraction of an archive in order returns, given room and a complete stream. -/
theorem extractTree_returns (positive : 0 < chunkSize) {targetDir : Text} {stream : Stream} {entries : List (Text × TreeNode)}
    (calm : disk.fault = none)
    (growing : Volume.Growing disk.volume chunkSize (fields '/' targetDir) base disk.volume PathTree.empty)
    (rooted : ROOT_INO ≤ disk.volume.inodeSequence) (unlimited : disk.volume.Unlimited)
    (passes : disk.volume.Passes (fields '/' targetDir)) (complete : stream.failure = none)
    (held : contents stream.chunks.flatten = .ok (([], .directory) :: entries)) (accepts : PathTree.empty.Accepts entries) :
    Post (extractTree chunkSize targetDir stream) disk (fun _ _ => True) (fun _ _ => False) := by
  obtain ⟨⟨magic, plain⟩, plainRead, held⟩ := bind_eq_ok.mp held
  obtain ⟨_, marked, held⟩ := bind_eq_ok.mp held
  obtain ⟨⟨found, plain'⟩, entriesRead, held⟩ := bind_eq_ok.mp held
  obtain ⟨ended, plainEnded, held⟩ := bind_eq_ok.mp held
  obtain ⟨_, whole, held⟩ := bind_eq_ok.mp held
  rw [pure_eq_ok] at held
  rw [held] at entriesRead
  rw [refuse_eq_ok, Bool.not_eq_false] at whole
  obtain ⟨reader, read, rest, plainKept, kept⟩ := @readExact_same _
    { buffer := [], chunks := stream.chunks, failure := stream.failure } _ _ _
    (by unfold ByteStreamReader.rest; simp) plainRead
  unfold extractTree
  dsimp only
  rw [post_lift_bind read]
  rw [post_lift_bind marked]
  have extracting : Extracting disk.volume chunkSize (fields '/' targetDir) base [] true disk.volume PathTree.empty := by
    refine ⟨growing, rfl, ?_, .inl rfl⟩
    intro path node known other
    unfold PathTree.empty at known
    split at known
    · exact absurd (Option.some.inj known).symm other
    · cases known
  have done := (extractEntries_post positive rfl reader ⟨0, 0, 0, 0⟩ extracting rest.symm).and
    (extractRoot_returns positive rfl calm growing growing.numbered rooted unlimited passes accepts rest.symm entriesRead)
  rw [post_bind]
  refine done.mono ?_ fun _ _ failed => failed.2
  rintro ⟨reader', summary⟩ disk' ⟨⟨others, last, othersRead, same, failed, lastFailed, _⟩, _⟩
  rw [entriesRead, Except.ok.injEq, Prod.mk.injEq] at othersRead
  obtain ⟨rfl, rfl⟩ := othersRead
  have finished : reader'.atEnd = .ok true := by
    rw [ByteStreamReader.atEnd_eq, whole] at plainEnded
    rw [ByteStreamReader.atEnd_eq, same, failed, kept, complete]
    dsimp only
    split at plainEnded
    · rename_i nothing
      rw [if_pos nothing]
    · cases plainEnded
  rw [post_lift_bind finished, post_lift_bind (refuse_of_not (by simp) _), post_pure]
  trivial

end Archive

end AiryFS
