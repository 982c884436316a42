import AiryFS.Transfer.Archive
import AiryFS.Transfer.Reading
import AiryFS.Direct.Growing

/-! What extraction leaves, whichever way it ends.

Every call either fills the directory further or leaves it as it is. When extraction
returns, the directory holds what the bytes of the archive say.
-/

set_option autoImplicit false

namespace AiryFS

open Foundation Attempt

/-- The entries of an archive, one after the other. -/
def PathTree.plantAll (tree : PathTree) (entries : List (Text × TreeNode)) : PathTree :=
  entries.foldl (fun tree entry => tree.plant (fields '/' entry.1) entry.2) tree

/-- Only the node itself may be no directory. -/
theorem PathTree.withDirectories_eq_some {tree : PathTree} {above rest path : List Text} {node : TreeNode}
    (known : tree.withDirectories above rest path = some node) : node = .directory ∨ tree path = some node := by
  induction rest generalizing tree above with
  | nil => exact .inr known
  | cons name rest ih =>
    unfold withDirectories at known
    dsimp only at known
    rcases ih known with kind | earlier
    · exact .inl kind
    · split at earlier
      · exact .inr earlier
      · rw [Function.update_apply] at earlier
        split at earlier
        · exact .inl (Option.some.inj earlier).symm
        · exact .inr earlier

theorem PathTree.plant_eq_some {tree : PathTree} {path other : List Text} {node kept : TreeNode}
    (known : tree.plant path node other = some kept) : other = path ∨ kept = .directory ∨ tree other = some kept := by
  by_cases same : other = path
  · exact .inl same
  · right
    unfold plant at known
    split at known
    · rw [Function.update_of_ne same] at known
      exact withDirectories_eq_some known
    · rw [Function.update_of_ne same] at known
      exact .inr known

/-! ## Calls -/

namespace Disk

variable {α : Type} {disk : Disk}

theorem post_mutate {operation : Volume → Except Failure Volume} {returned : Unit → Disk → Prop}
    {thrown : Failure → Disk → Prop}
    (returns : ∀ volume', operation disk.volume = .ok volume' → ∀ fault, returned () { disk with volume := volume', fault })
    (throws : ∀ failure fault, thrown failure { disk with fault }) : Post (mutate operation) disk returned thrown := by
  unfold Post mutate call
  split
  · rename_i ran
    split at ran
    · cases ran
    · dsimp only at ran
      cases result : operation disk.volume with
      | error failure => simp [result, Except.map] at ran
      | ok volume =>
        simp only [result, Except.map, EStateM.Result.ok.injEq] at ran
        rw [← ran.2]
        exact returns volume result _
  · rename_i ran
    split at ran
    · rw [← (EStateM.Result.error.inj ran).2]
      exact throws _ _
    · dsimp only at ran
      cases result : operation disk.volume with
      | error failure =>
        simp only [result, Except.map, EStateM.Result.error.injEq] at ran
        rw [← ran.2]
        exact throws _ _
      | ok volume => simp [result, Except.map] at ran

theorem post_inspect {operation : Volume → Except Failure α} {returned : α → Disk → Prop} {thrown : Failure → Disk → Prop}
    (returns : ∀ value, operation disk.volume = .ok value → ∀ fault, returned value { disk with fault })
    (throws : ∀ failure fault, thrown failure { disk with fault }) : Post (inspect operation) disk returned thrown := by
  unfold Post inspect call
  split
  · rename_i ran
    split at ran
    · cases ran
    · dsimp only at ran
      cases result : operation disk.volume with
      | error failure => simp [result, Except.map] at ran
      | ok value =>
        simp only [result, Except.map, EStateM.Result.ok.injEq] at ran
        rw [← ran.1, ← ran.2]
        exact returns value result _
  · rename_i ran
    split at ran
    · rw [← (EStateM.Result.error.inj ran).2]
      exact throws _ _
    · dsimp only at ran
      cases result : operation disk.volume with
      | error failure =>
        simp only [result, Except.map, EStateM.Result.error.injEq] at ran
        rw [← ran.2]
        exact throws _ _
      | ok value => simp [result, Except.map] at ran

end Disk

namespace Archive

/-! ## Paths -/

theorem validateRelativePath_ok {value : Option Json} {rel : Text} (valid : validateRelativePath value = .ok rel) :
    ['/'].intercalate (fields '/' rel) = rel := by
  unfold validateRelativePath at valid
  split at valid
  · split at valid
    · rw [← pure_eq_ok.mp valid]
      rfl
    · obtain ⟨_, _, valid⟩ := bind_eq_ok.mp valid
      obtain ⟨_, _, valid⟩ := bind_eq_ok.mp valid
      obtain ⟨_, safe, valid⟩ := bind_eq_ok.mp valid
      rw [← pure_eq_ok.mp valid]
      rw [refuse_eq_ok] at safe
      unfold fields
      rw [List.filter_eq_self.mpr, List.intercalate_splitOn]
      intro segment member
      by_contra blank
      refine safe ⟨segment, member, ?_⟩
      have empty : segment = [] := by simpa using blank
      rw [empty]
      rfl
  · cases valid

theorem PathRegistry.add_ok {registry registry' : PathRegistry} {path : Text} {type : EntryType}
    (added : registry.add path type = .ok registry') : registry.type? path = none ∧ registry' = (path, type) :: registry := by
  obtain ⟨_, fresh, added⟩ := bind_eq_ok.mp added
  obtain ⟨_, _, added⟩ := bind_eq_ok.mp added
  rw [refuse_eq_ok] at fresh
  exact ⟨by simpa using fresh, (pure_eq_ok.mp added).symm⟩

theorem PathRegistry.type?_cons (registry : PathRegistry) (path other : Text) (type : EntryType) :
    PathRegistry.type? ((path, type) :: registry) other = if path = other then some type else registry.type? other := by
  unfold PathRegistry.type?
  rw [List.find?_cons]
  by_cases same : path = other
  · simp [same]
  · simp [same]

/-! ## Files -/

variable {start : Volume} {chunkSize : Nat} {place segments : List Text} {base ino : Int} {tree : PathTree} {disk : Disk}

/-- Whatever becomes of a body that is being written, the directory only fills further. -/
theorem writeFrom_post (positive : 0 < chunkSize) (filled : segments ≠ []) {rounds remaining : Nat} (reader : ByteStreamReader)
    {content : Bytes} (growing : Volume.Growing start chunkSize place base disk.volume tree)
    (here : AgentFS.walk disk.volume base segments = some ino) (known : tree segments = some (.file content))
    (enough : remaining ≤ rounds) :
    Post (writeFrom ⟨ino, chunkSize⟩ rounds reader content.length remaining) disk
      (fun reader' disk' => ∃ data, data.length = remaining ∧ reader.rest = data ++ reader'.rest ∧
        reader'.failure = reader.failure ∧ Volume.Growing start chunkSize place base disk'.volume
          (Function.update tree segments (some (.file (content ++ data)))))
      (fun _ disk' => ∃ tree', Volume.Growing start chunkSize place base disk'.volume tree') := by
  induction rounds generalizing disk reader content tree remaining with
  | zero =>
    rw [Nat.le_zero.mp enough]
    unfold writeFrom
    rw [post_pure]
    refine ⟨[], rfl, rfl, rfl, ?_⟩
    rw [List.append_nil, ← known, Function.update_eq_self]
    exact growing
  | succ rounds ih =>
    unfold writeFrom
    split
    · rename_i more
      rw [post_bind, post_lift]
      refine ⟨?_, fun _ _ => ⟨tree, growing⟩⟩
      rintro ⟨chunk, later⟩ read
      obtain ⟨some, within, spelled, kept⟩ := ByteStreamReader.readSome_ok more read
      have length := List.length_pos_iff.mpr some
      rw [post_bind]
      refine Disk.post_mutate ?_ fun _ _ => ⟨tree, growing⟩
      intro volume' written fault
      have grown := AgentFS.pwrite_grows growing positive filled here known written
      have walked : AgentFS.walk volume' base segments = Option.some ino := by
        rw [(AgentFSFile.pwrite_touches written).1.walks]
        exact here
      have rest := @ih _ { disk with volume := volume', fault } (remaining - chunk.length) later (content ++ chunk) grown walked
        (Function.update_self _ _ _) (by omega)
      rw [List.length_append] at rest
      refine rest.mono ?_ fun _ _ => id
      rintro reader' disk' ⟨data, size, same, failure, final⟩
      refine ⟨chunk ++ data, by rw [List.length_append]; omega, by rw [spelled, same, List.append_assoc], failure.trans kept, ?_⟩
      rw [Function.update_idem, List.append_assoc] at final
      exact final
    · rename_i done
      rw [post_pure]
      refine ⟨[], by rw [List.length_nil]; omega, rfl, rfl, ?_⟩
      rw [List.append_nil, ← known, Function.update_eq_self]
      exact growing

theorem writeFileBody_post (positive : 0 < chunkSize) (filled : segments ≠ []) {path : Text} {size : Nat}
    (reader : ByteStreamReader) (growing : Volume.Growing start chunkSize place base disk.volume tree)
    (spelled : fields '/' path = place ++ segments) (free : ∀ node, tree segments = some node → node = .directory) :
    Post (writeFileBody chunkSize path reader size) disk
      (fun reader' disk' => ∃ body, body.length = size ∧ reader.rest = body ++ reader'.rest ∧
        reader'.failure = reader.failure ∧
        Volume.Growing start chunkSize place base disk'.volume (tree.plant segments (.file body)))
      (fun _ disk' => ∃ tree', Volume.Growing start chunkSize place base disk'.volume tree') := by
  unfold writeFileBody
  rw [post_bind]
  refine Disk.post_mutate ?_ fun _ _ => ⟨tree, growing⟩
  intro volume' written fault
  have grown := AgentFS.writeFile_grows growing spelled filled free written
  have known : tree.plant segments (.file []) segments = some (.file []) := Function.update_self _ _ _
  split
  · rename_i none
    rw [post_pure]
    exact ⟨[], by rw [none]; rfl, rfl, rfl, grown⟩
  · rw [post_bind]
    refine Disk.post_inspect ?_ fun _ _ => ⟨_, grown⟩
    intro file opened fault
    obtain ⟨⟨normalizedPath, ino⟩, resolved, opened⟩ := bind_eq_ok.mp opened
    obtain ⟨_, _, opened⟩ := bind_eq_ok.mp opened
    rw [← pure_eq_ok.mp opened]
    have here := (AgentFS.resolvePathOrThrow_ok resolved).2
    rw [grown.resolves spelled] at here
    rw [post_bind]
    have body := @writeFrom_post start chunkSize place segments base ino _ { disk with volume := volume', fault } positive filled size size reader []
      grown here known (le_refl size)
    refine body.mono ?_ fun _ _ => id
    rintro reader' disk' ⟨data, length, rest, kept, final⟩
    -- One file under one path, however often its content was replaced.
    have planted : Function.update (tree.plant segments (.file [])) segments (some (.file ([] ++ data))) =
        tree.plant segments (.file data) := by
      unfold PathTree.plant
      dsimp only
      rw [Function.update_idem, List.nil_append]
    rw [planted] at final
    rw [post_bind]
    refine Disk.post_inspect ?_ fun _ _ => ⟨_, final⟩
    intro _ _ fault
    rw [post_pure]
    exact ⟨data, length, rest, kept, final⟩

/-! ## Entries -/

/-- What the extraction knows of the tree so far. -/
structure Extracting (start : Volume) (chunkSize : Nat) (place : List Text) (base : Int) (registry : PathRegistry)
    (firstEntry : Bool) (volume : Volume) (tree : PathTree) : Prop where
  growing : Volume.Growing start chunkSize place base volume tree
  rooted : tree [] = some .directory
  registered : ∀ path node, tree path = some node → node ≠ .directory → registry.type? (['/'].intercalate path) ≠ none
  started : firstEntry = true ∨ registry.type? [] ≠ none

variable {registry registry' : PathRegistry} {firstEntry : Bool} {rel abs : Text} {type : EntryType}

theorem PathRegistry.type?_of_add (added : registry.add rel type = .ok registry') {path : Text}
    (known : registry.type? path ≠ none) : registry'.type? path ≠ none := by
  rw [(PathRegistry.add_ok added).2, PathRegistry.type?_cons]
  split
  · simp
  · exact known

theorem Extracting.plant (extracting : Extracting start chunkSize place base registry firstEntry disk.volume tree)
    (added : registry.add rel type = .ok registry') (joined : ['/'].intercalate (fields '/' rel) = rel) {node : TreeNode}
    (top : rel = [] → node = .directory) {volume' : Volume}
    (grown : Volume.Growing start chunkSize place base volume' (tree.plant (fields '/' rel) node))
    (first : firstEntry = true → rel = []) :
    Extracting start chunkSize place base registry' false volume' (tree.plant (fields '/' rel) node) := by
  have own : registry'.type? rel ≠ none := by
    rw [(PathRegistry.add_ok added).2, PathRegistry.type?_cons, if_pos rfl]
    simp
  refine ⟨grown, ?_, ?_, ?_⟩
  · by_cases root : rel = []
    · rw [top root, root, fields_nil]
      unfold PathTree.plant
      dsimp only
      rw [Function.update_self]
    · have filled : [] ≠ fields '/' rel := by
        intro none
        rw [← none] at joined
        exact root joined.symm
      unfold PathTree.plant
      split
      · rw [Function.update_of_ne filled]
        rw [PathTree.withDirectories_of_le (le_refl _)]
        exact extracting.rooted
      · rw [Function.update_of_ne filled]
        exact extracting.rooted
  · intro path kept known file
    rcases PathTree.plant_eq_some known with rfl | kind | earlier
    · rw [joined]
      exact own
    · exact absurd kind file
    · exact PathRegistry.type?_of_add added (extracting.registered path kept earlier file)
  · right
    rcases extracting.started with fresh | known
    · rw [← first fresh]
      exact own
    · exact PathRegistry.type?_of_add added known

theorem extractEntry_post (positive : 0 < chunkSize) {header : Json} (reader : ByteStreamReader) (summary : TreeSummary)
    (extracting : Extracting start chunkSize place base registry firstEntry disk.volume tree)
    (added : registry.add rel type = .ok registry') (joined : ['/'].intercalate (fields '/' rel) = rel)
    (spelled : fields '/' abs = place ++ fields '/' rel) (top : rel = [] → type = .directory) (first : firstEntry = true → rel = [])
    {plain : ByteStreamReader} (same : reader.rest = plain.rest) :
    Post (extractEntry chunkSize abs rel type header reader summary) disk
      (fun result disk' => ∃ node plain', readNode type header plain = .ok (node, plain') ∧
        result.1.rest = plain'.rest ∧ result.1.failure = reader.failure ∧ plain'.failure = plain.failure ∧
        Extracting start chunkSize place base registry' false disk'.volume (tree.plant (fields '/' rel) node))
      (fun _ disk' => ∃ tree', Volume.Growing start chunkSize place base disk'.volume tree') := by
  have growing := extracting.growing
  have filled : rel ≠ [] → fields '/' rel ≠ [] := by
    intro some none
    rw [none] at joined
    exact some joined.symm
  cases type with
  | directory =>
    unfold extractEntry
    dsimp only
    split
    · rename_i root
      rw [post_pure]
      refine ⟨.directory, plain, rfl, same, rfl, rfl, extracting.plant added joined (fun _ => rfl) ?_ first⟩
      have kept : tree.plant (fields '/' rel) .directory = tree := by
        rw [root, fields_nil]
        unfold PathTree.plant
        dsimp only
        rw [← extracting.rooted, Function.update_eq_self]
      rw [kept]
      exact growing
    · rename_i below
      rw [post_bind]
      refine Disk.post_mutate ?_ fun _ _ => ⟨tree, growing⟩
      intro volume' made fault
      rw [post_pure]
      exact ⟨.directory, plain, rfl, same, rfl, rfl,
        extracting.plant added joined (fun _ => rfl) (AgentFS.mkdir_grows growing spelled (filled below) made) first⟩
  | symlink =>
    have below : rel ≠ [] := fun root => by cases top root
    unfold extractEntry
    dsimp only
    split
    · rename_i target listed
      have described : readNode .symlink header plain = .ok (.symlink target, plain) := by
        unfold readNode
        dsimp only
        rw [listed]
        rfl
      rw [post_bind]
      refine Disk.post_mutate ?_ fun _ _ => ⟨tree, growing⟩
      intro volume' linked fault
      rw [post_pure]
      exact ⟨.symlink target, plain, described, same, rfl, rfl, extracting.plant added joined (fun root => absurd root below)
        (AgentFS.symlink_grows growing spelled (filled below) linked) first⟩
    · rw [post_lift]
      exact ⟨fun _ returned => by (cases returned), fun _ _ => ⟨tree, growing⟩⟩
  | file =>
    have below : rel ≠ [] := fun root => by cases top root
    have free : ∀ node, tree (fields '/' rel) = some node → node = .directory := by
      intro node known
      by_contra other
      apply extracting.registered _ node known other
      rw [joined]
      exact (PathRegistry.add_ok added).1
    unfold extractEntry
    dsimp only
    rw [post_bind, post_lift]
    refine ⟨?_, fun _ _ => ⟨tree, growing⟩⟩
    intro size sized
    rw [post_bind]
    refine (writeFileBody_post positive (filled below) reader growing spelled free).mono ?_ fun _ _ => id
    rintro reader' disk' ⟨body, length, rest, kept, grown⟩
    rw [post_pure]
    rw [same] at rest
    obtain ⟨plain', read, more, unchanged⟩ := ByteStreamReader.readExact_of_rest rest
    rw [length] at read
    refine ⟨.file body, plain', ?_, more.symm, kept, unchanged,
      extracting.plant added joined (fun root => absurd root below) grown first⟩
    unfold readNode
    dsimp only
    rw [sized]
    simp only [bind, Except.bind, read]
    rfl

/-- What extraction has put there is what the same bytes describe. -/
theorem extractEntries_post (positive : 0 < chunkSize) {targetDir : Text} (named : fields '/' targetDir = place) {rounds : Nat}
    (reader : ByteStreamReader) (summary : TreeSummary)
    (extracting : Extracting start chunkSize place base registry firstEntry disk.volume tree) {plain : ByteStreamReader}
    (same : reader.rest = plain.rest) :
    Post (extractEntries chunkSize targetDir rounds reader registry firstEntry summary) disk
      (fun result disk' => ∃ entries plain', readEntries rounds plain = .ok (entries, plain') ∧
        result.1.rest = plain'.rest ∧ result.1.failure = reader.failure ∧ plain'.failure = plain.failure ∧
        Volume.Growing start chunkSize place base disk'.volume (tree.plantAll entries))
      (fun _ disk' => ∃ tree', Volume.Growing start chunkSize place base disk'.volume tree') := by
  induction rounds generalizing disk reader registry firstEntry summary tree plain with
  | zero =>
    unfold extractEntries
    rw [post_pure]
    exact ⟨[], plain, rfl, same, rfl, rfl, extracting.growing⟩
  | succ rounds ih =>
    unfold extractEntries
    rw [post_bind, post_lift]
    refine ⟨?_, fun _ _ => ⟨tree, extracting.growing⟩⟩
    rintro ⟨header, later⟩ read
    obtain ⟨plainLater, plainRead, same, kept, plainKept⟩ := readHeader_same same read
    cases header with
    | none =>
      dsimp only
      rw [post_pure]
      refine ⟨[], plainLater, ?_, same, kept, plainKept, extracting.growing⟩
      unfold readEntries
      rw [plainRead]
      rfl
    | some found =>
      obtain ⟨type, header⟩ := found
      dsimp only
      rw [post_bind, post_lift]
      refine ⟨?_, fun _ _ => ⟨tree, extracting.growing⟩⟩
      intro rel valid
      rw [post_bind, post_lift]
      refine ⟨?_, fun _ _ => ⟨tree, extracting.growing⟩⟩
      intro _ ordered
      rw [refuse_eq_ok] at ordered
      rw [post_bind, post_lift]
      refine ⟨?_, fun _ _ => ⟨tree, extracting.growing⟩⟩
      intro registry' added
      have joined := validateRelativePath_ok valid
      have first : firstEntry = true → rel = [] := by
        intro fresh
        by_contra below
        exact ordered ⟨fresh, .inl below⟩
      have top : rel = [] → type = .directory := by
        intro root
        by_contra other
        rcases extracting.started with fresh | known
        · exact ordered ⟨fresh, .inr other⟩
        · rw [← root] at known
          exact known (PathRegistry.add_ok added).1
      have spelled : fields '/' (if rel = [] then targetDir else targetDir ++ '/' :: rel) = place ++ fields '/' rel := by
        split
        · rename_i root
          rw [root, fields_nil, List.append_nil, named]
        · rw [fields_append_sep, named]
      rw [post_bind]
      refine (extractEntry_post positive later summary extracting added joined spelled top first same).mono ?_ fun _ _ => id
      rintro ⟨reader', summary'⟩ disk' ⟨node, plain', nodeRead, rest, nodeKept, plainNodeKept, extracted⟩
      refine (ih reader' summary' extracted rest).mono ?_ fun _ _ => id
      rintro result disk'' ⟨entries, last, entriesRead, final, lastKept, plainLastKept, grown⟩
      refine ⟨(rel, node) :: entries, last, ?_, final, lastKept.trans (nodeKept.trans kept),
        plainLastKept.trans (plainNodeKept.trans plainKept), grown⟩
      unfold readEntries
      rw [plainRead]
      simp only [bind, Except.bind, valid, nodeRead, entriesRead]
      rfl

/-- Extraction only fills its directory, and one that returns fills it with what the archive holds. -/
theorem extractTree_post (positive : 0 < chunkSize) {targetDir : Text} {stream : Stream}
    (growing : Volume.Growing disk.volume chunkSize (fields '/' targetDir) base disk.volume PathTree.empty) :
    Post (extractTree chunkSize targetDir stream) disk
      (fun _ disk' => stream.failure = none ∧ ∃ entries, contents stream.chunks.flatten = .ok entries ∧
        Volume.Growing disk.volume chunkSize (fields '/' targetDir) base disk'.volume (PathTree.empty.plantAll entries))
      (fun _ disk' => ∃ tree', Volume.Growing disk.volume chunkSize (fields '/' targetDir) base disk'.volume tree') := by
  unfold extractTree
  dsimp only
  rw [post_bind, post_lift]
  refine ⟨?_, fun _ _ => ⟨_, growing⟩⟩
  rintro ⟨magic, reader⟩ read
  obtain ⟨plain, plainRead, same, kept, plainKept⟩ := @readExact_same _
    { buffer := stream.chunks.flatten, chunks := [], failure := none } _ _ _
    (by unfold ByteStreamReader.rest; simp) read
  rw [post_bind, post_lift]
  refine ⟨?_, fun _ _ => ⟨_, growing⟩⟩
  intro _ marked
  have extracting : Extracting disk.volume chunkSize (fields '/' targetDir) base [] true disk.volume PathTree.empty := by
    refine ⟨growing, rfl, ?_, .inl rfl⟩
    intro path node known other
    unfold PathTree.empty at known
    split at known
    · exact absurd (Option.some.inj known).symm other
    · cases known
  rw [post_bind]
  refine (extractEntries_post positive rfl reader ⟨0, 0, 0, 0⟩ extracting same).mono ?_ fun _ _ => id
  rintro ⟨reader', summary⟩ disk' ⟨entries, plain', entriesRead, rest, failed, plainFailed, grown⟩
  rw [post_bind, post_lift]
  refine ⟨?_, fun _ _ => ⟨_, grown⟩⟩
  intro ended complete
  rw [post_bind, post_lift]
  refine ⟨?_, fun _ _ => ⟨_, grown⟩⟩
  intro _ done
  rw [post_pure]
  rw [refuse_eq_ok, Bool.not_eq_false] at done
  rw [ByteStreamReader.atEnd_eq, done] at complete
  dsimp only at failed complete
  rw [failed, kept] at complete
  split at complete
  · rename_i ended
    split at complete
    · rename_i whole
      refine ⟨whole, entries, ?_, grown⟩
      have finished : plain'.atEnd = .ok true := by
        rw [ByteStreamReader.atEnd_eq, ← rest, if_pos ended, plainFailed, plainKept]
      unfold contents
      simp only [bind, Except.bind, plainRead, marked, entriesRead, finished]
      rfl
    · cases complete
  · cases complete

end Archive

end AiryFS
