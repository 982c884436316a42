import AiryFS.Assets.AssetEffects

/-! Assets stay correct, whatever the order in which the calls go on.

Of each call is known where its temporary file is and what it holds, by the phase that the call is in. No step
of another call is in the way of that, and an asset comes into being as a file whose digest was found to be its
name, under a lock that no other call for the same asset holds.
-/

set_option autoImplicit false

namespace AiryFS

open Foundation Sites Volume

variable {sha256 : Bytes → Text} {chunkSize : Nat} {volume volume' before after : Volume}

/-! ## Names -/

/-- Every file under the directory of the assets that a digest names has the contents. -/
def Vouched (sha256 : Bytes → Text) (chunkSize : Nat) (volume : Volume) : Prop :=
  ∀ hash ino, isHash hash = true → AgentFS.resolvePath volume (assetPath hash) = some ino →
    ∃ content, volume.Stored chunkSize ino (.file content) ∧ sha256 content = hash

theorem plain_of_isHash {hash : Text} (valid : isHash hash = true) : hash ≠ [] ∧ '/' ∉ hash ∧ '.' ∉ hash ∧ hash ∉ assetParts := by
  obtain ⟨length, digits⟩ := (Bool.and_eq_true _ _).mp valid
  have length := of_decide_eq_true length
  rw [List.all_eq_true] at digits
  refine ⟨?_, fun slash => ?_, fun dot => ?_, fun member => ?_⟩
  · rintro rfl
    cases length
  · exact absurd (digits _ slash) (by decide)
  · exact absurd (digits _ dot) (by decide)
  · have short : ∀ name ∈ assetParts, name.length ≠ 64 := by decide
    exact short hash member length

theorem resolvePath_assetPath {hash : Text} (valid : isHash hash = true) :
    AgentFS.resolvePath volume (assetPath hash) = volume.inAssets hash :=
  resolvePath_below (plain_of_isHash valid).1 (plain_of_isHash valid).2.1

namespace AssetCall

variable {call : AssetCall}

/-- The names of the temporary files of a call. -/
def Own (call : AssetCall) (label : Text) : Prop := label = call.stream.uploadName ∨ label = call.uploadName

/-- What else a call may add in a phase. -/
def Adds (call : AssetCall) (phase : AssetPhase) (label : Text) : Prop :=
  label ∈ assetParts ∨ label = call.checksum ∧ ∃ actual, phase = .publishing actual

/-- A random identifier is no path. -/
structure Plain (call : AssetCall) : Prop where
  uuid : '/' ∉ call.uuid
  streamUuid : '/' ∉ call.streamUuid

theorem own_dot {label : Text} (own : call.Own label) : '.' ∈ label := by
  rcases own with rfl | rfl
  · exact List.mem_append_left _ (by decide)
  · exact List.mem_append_left _ (by decide)

theorem own_parts {label : Text} (own : call.Own label) : label ∉ assetParts := by
  intro member
  rcases own with rfl | rfl
  · have shorter : ∀ name ∈ assetParts, ¬".airyfs-upload-".toList <+: name := by decide
    exact shorter _ member (List.prefix_append _ _)
  · have shorter : ∀ name ∈ assetParts, ¬".upload-".toList <+: name := by decide
    exact shorter _ member (List.prefix_append _ _)

theorem names_apart {call' : AssetCall} : call.stream.uploadName ≠ call'.uploadName := by
  intro same
  have first (uuid : Text) : (".airyfs-upload-".toList ++ uuid)[1]? = some 'a' := rfl
  have second (uuid : Text) : (".upload-".toList ++ uuid)[1]? = some 'u' := rfl
  have letter := congrArg (·[1]?) same
  dsimp only [FileStream.uploadName, uploadName] at letter
  rw [first, second] at letter
  exact absurd letter (by decide)

theorem rdropWhile_name (front : Text) {label : Text} (plain : '/' ∉ label) :
    (front ++ ['/'] ++ label).rdropWhile (· ≠ '/') = front ++ ['/'] := by
  induction label using List.reverseRecOn with
  | nil => rw [List.append_nil, List.rdropWhile_concat_neg _ _ _ (by simp)]
  | append_singleton label c ih =>
    rw [List.mem_append, List.mem_singleton, not_or] at plain
    rw [← List.append_assoc, List.rdropWhile_concat_pos _ _ _ (by simpa using Ne.symm plain.2), ih plain.1]

section Paths
variable (plain : call.Plain)
include plain

theorem plain_upload : call.uploadName ≠ [] ∧ '/' ∉ call.uploadName := by
  refine ⟨List.append_ne_nil_of_left_ne_nil (by decide) _, fun slash => ?_⟩
  exact (List.mem_append.mp slash).elim (by decide) plain.uuid

theorem plain_stream : call.stream.uploadName ≠ [] ∧ '/' ∉ call.stream.uploadName := by
  refine ⟨List.append_ne_nil_of_left_ne_nil (by decide) _, fun slash => ?_⟩
  exact (List.mem_append.mp slash).elim (by decide) plain.streamUuid

theorem fields_temporary : fields '/' call.temporary = assetParts ++ [call.uploadName] :=
  fields_below (plain_upload plain).1 (plain_upload plain).2

theorem resolvePath_temporary : AgentFS.resolvePath volume call.temporary = volume.inAssets call.uploadName :=
  resolvePath_below (plain_upload plain).1 (plain_upload plain).2

theorem stream_parent : call.stream.parent = ASSET_ROOT := by
  have shown : call.stream.path = ASSET_ROOT ++ ['/'] ++ call.uploadName := by
    change ASSET_ROOT ++ '/' :: call.uploadName = _
    rw [List.append_assoc, List.singleton_append]
  have front : call.stream.path.rdropWhile (· ≠ '/') = ASSET_ROOT ++ ['/'] := by
    rw [shown, rdropWhile_name _ (plain_upload plain).2]
  rw [FileStream.parent, front, List.dropLast_concat]

theorem stream_temp : call.stream.temp = ASSET_ROOT ++ '/' :: call.stream.uploadName := by
  rw [FileStream.temp, stream_parent plain]

theorem resolvePath_stream : AgentFS.resolvePath volume call.stream.temp = volume.inAssets call.stream.uploadName := by
  rw [stream_temp plain, resolvePath_below (plain_stream plain).1 (plain_stream plain).2]

theorem unguessed : call.stream.Unguessed where
  plain := plain.streamUuid
  apart := by
    change _ ∉ fields '/' call.temporary
    rw [fields_temporary plain, List.mem_append, List.mem_singleton, not_or]
    exact ⟨own_parts (.inl rfl), names_apart⟩

theorem start_stream (volume : Volume) : StreamSystem.start call.stream volume = ⟨volume, .queueTemp, none⟩ := by
  have valid : ¬(call.stream.path = ['/'] ∨ call.stream.path.getLast? = some '/') := by
    rintro (root | slash)
    · have parts := fields_temporary plain
      rw [show call.temporary = ['/'] from root] at parts
      exact absurd parts (by simp [assetParts])
    · have last : call.uploadName.getLast? = some '/' := by
        obtain ⟨front, c, spelled⟩ := (List.eq_nil_or_concat call.uploadName).resolve_left (plain_upload plain).1
        change (ASSET_ROOT ++ '/' :: call.uploadName).getLast? = _ at slash
        rw [spelled, List.concat_eq_append, ← List.cons_append, ← List.append_assoc, List.getLast?_concat] at slash
        rw [spelled, List.concat_eq_append, List.getLast?_concat, slash]
      exact (plain_upload plain).2 (List.mem_of_getLast? last)
  rw [StreamSystem.start, FileStream.temporaryPath, refuse_of_not valid]
  rfl

end Paths

/-! ## Where a call is -/

/-- The name leads to a file of the call with the contents. -/
def Keeps (chunkSize : Nat) (volume : Volume) (label : Text) (ino : Int) (content : Bytes) : Prop :=
  volume.Sits label ino ∧ volume.Stored chunkSize ino (.file content)

/-- What the hash asks is answered by volumes in which the file rests. -/
def fileWorld (chunkSize : Nat) (path : Text) (ino : Int) (content : Bytes) : Asking.World Answer Unit :=
  fun question _ reply _ => ∃ volume row, Volume.FileAt volume chunkSize path row content ∧ row.ino = ino ∧
    reply = answer chunkSize volume question

/-- The rest of the hash comes to the digest of the contents. -/
def Hashes (chunkSize : Nat) (path : Text) (ino : Int) (content : Bytes) (rest : Serving Hashed) : Prop :=
  Asking.Ensures (fileWorld chunkSize path ino content) (fun hashed _ => hashed.bytes = content) (fun _ _ => False) rest ()

section
variable (sha256 chunkSize) (call : AssetCall) (volume : Volume)

/-- Where the file of `writeFileStream` is. -/
def Writes (phase : StreamPhase) (made : Option Int) : Prop :=
  ((StreamSystem.mk volume phase made).Sound call.stream chunkSize ∧ (StreamSystem.mk volume phase made).finished = false) ∧
    (match made with
      | none => volume.Absent call.stream.uploadName
      | some ino => volume.Sits call.stream.uploadName ino) ∧
    (phase = .create → ∃ directory, AgentFS.walk volume ROOT_INO assetParts = some directory ∧ volume.Directory directory)

/-- Nothing or one file. -/
def Leaves (label : Text) : Prop := volume.Absent label ∨ ∃ ino content, Keeps chunkSize volume label ino content

/-- What is known of the temporary files of a call; one may be there for good where a removal failed. -/
def Knows (abandoned : Bool) : AssetPhase → Prop
  | .making directories => (∀ path ∈ directories, path ∈ assetDirectories) ∧
    volume.Absent call.stream.uploadName ∧ volume.Absent call.uploadName
  | .looking | .known | .measuring | .resolved _ =>
    volume.Absent call.stream.uploadName ∧ volume.Absent call.uploadName
  | .writing phase made => Writes chunkSize call volume phase made ∧ volume.Absent call.uploadName
  | .lockingHash | .dropping => volume.Absent call.stream.uploadName ∧
    ∃ ino content, Keeps chunkSize volume call.uploadName ino content
  | .hashing rest => volume.Absent call.stream.uploadName ∧
    ∃ ino content, Keeps chunkSize volume call.uploadName ino content ∧ Hashes chunkSize call.temporary ino content rest
  | .locking _ | .checking _ => volume.Absent call.stream.uploadName ∧
    ∃ ino content, Keeps chunkSize volume call.uploadName ino content ∧ sha256 content = call.checksum
  | .publishing _ => (volume.Absent call.stream.uploadName ∧
    ∃ ino content, Keeps chunkSize volume call.uploadName ino content ∧ sha256 content = call.checksum) ∧
      volume.inAssets call.checksum = none
  | .cleanUp _ => Leaves chunkSize volume call.stream.uploadName ∧ Leaves chunkSize volume call.uploadName ∧
    (abandoned = false → volume.Absent call.stream.uploadName)
  | .rejected _ => Leaves chunkSize volume call.stream.uploadName ∧ Leaves chunkSize volume call.uploadName ∧
    (abandoned = false → volume.Absent call.stream.uploadName ∧ volume.Absent call.uploadName)

end

/-! ## The steps of others -/

section Others
variable {own added : Text → Prop} {label : Text} {ino : Int} {content : Bytes} {abandoned : Bool} {phase : AssetPhase}
variable (effect : Effect own added before after) (apart : ∀ label ∈ assetParts, ¬own label)
variable (others : ∀ label, call.Own label → ¬own label ∧ ¬added label)

include effect

include apart in
theorem Keeps.spared (other : ¬own label ∧ ¬added label) (keeps : Keeps chunkSize before label ino content) :
    Keeps chunkSize after label ino content := by
  obtain ⟨sits, same⟩ := effect.sits apart other.1 other.2 keeps.1
  exact ⟨sits, same.stored keeps.2⟩

include apart in
theorem Leaves.spared (other : ¬own label ∧ ¬added label) (leaves : Leaves chunkSize before label) :
    Leaves chunkSize after label :=
  leaves.imp (effect.absent other.1 other.2) fun ⟨ino, content, keeps⟩ => ⟨ino, content, keeps.spared effect apart other⟩

include apart others in
theorem Writes.spared {phase : StreamPhase} {made : Option Int} (writes : Writes chunkSize call before phase made) :
    Writes chunkSize call after phase made := by
  obtain ⟨sound, placed, ready⟩ := writes
  have other := others _ (.inl rfl)
  have spares : (StreamSystem.mk before phase made).Spares call.stream after := by
    refine ⟨fun ino same => ?_, fun ino same named => ?_⟩
    · cases same
      exact (effect.sits apart other.1 other.2 placed).1.sole
    · cases same
      obtain ⟨directory, -, led, -⟩ := Sits.entry placed
      exact ⟨⟨directory, _, led⟩, (effect.sits apart other.1 other.2 placed).2⟩
  refine ⟨⟨sound.1.spared ⟨effect.tree, effect.sequence⟩ spares, sound.2⟩, ?_, ?_⟩
  · cases made with
    | none => exact effect.absent other.1 other.2 placed
    | some ino => exact (effect.sits apart other.1 other.2 placed).1
  · intro creating
    obtain ⟨directory, reached, kind⟩ := ready creating
    exact ⟨directory, effect.walks apart reached, effect.directory _ kind⟩

include apart others in
/-- A step of another call leaves what is known of a call, as long as it does not publish the same asset. -/
theorem Knows.spared (free : ∀ actual, phase = .publishing actual → after.inAssets call.checksum = none)
    (knows : call.Knows sha256 chunkSize before abandoned phase) : call.Knows sha256 chunkSize after abandoned phase := by
  have stream := others _ (.inl rfl)
  have own := others _ (.inr rfl)
  cases phase with
  | making directories =>
    exact ⟨knows.1, effect.absent stream.1 stream.2 knows.2.1, effect.absent own.1 own.2 knows.2.2⟩
  | looking => exact ⟨effect.absent stream.1 stream.2 knows.1, effect.absent own.1 own.2 knows.2⟩
  | known => exact ⟨effect.absent stream.1 stream.2 knows.1, effect.absent own.1 own.2 knows.2⟩
  | measuring => exact ⟨effect.absent stream.1 stream.2 knows.1, effect.absent own.1 own.2 knows.2⟩
  | resolved info => exact ⟨effect.absent stream.1 stream.2 knows.1, effect.absent own.1 own.2 knows.2⟩
  | writing phase made => exact ⟨knows.1.spared effect apart others, effect.absent own.1 own.2 knows.2⟩
  | lockingHash =>
    obtain ⟨absent, ino, content, keeps⟩ := knows
    exact ⟨effect.absent stream.1 stream.2 absent, ino, content, keeps.spared effect apart own⟩
  | dropping =>
    obtain ⟨absent, ino, content, keeps⟩ := knows
    exact ⟨effect.absent stream.1 stream.2 absent, ino, content, keeps.spared effect apart own⟩
  | hashing rest =>
    obtain ⟨absent, ino, content, keeps, hashes⟩ := knows
    exact ⟨effect.absent stream.1 stream.2 absent, ino, content, keeps.spared effect apart own, hashes⟩
  | locking actual =>
    obtain ⟨absent, ino, content, keeps, digest⟩ := knows
    exact ⟨effect.absent stream.1 stream.2 absent, ino, content, keeps.spared effect apart own, digest⟩
  | checking actual =>
    obtain ⟨absent, ino, content, keeps, digest⟩ := knows
    exact ⟨effect.absent stream.1 stream.2 absent, ino, content, keeps.spared effect apart own, digest⟩
  | publishing actual =>
    obtain ⟨⟨absent, ino, content, keeps, digest⟩, -⟩ := knows
    exact ⟨⟨effect.absent stream.1 stream.2 absent, ino, content, keeps.spared effect apart own, digest⟩, free actual rfl⟩
  | cleanUp failure =>
    obtain ⟨first, second, clean⟩ := knows
    exact ⟨first.spared effect apart stream, second.spared effect apart own, fun done => effect.absent stream.1 stream.2 (clean done)⟩
  | rejected failure =>
    obtain ⟨first, second, clean⟩ := knows
    exact ⟨first.spared effect apart stream, second.spared effect apart own, fun done =>
      ⟨effect.absent stream.1 stream.2 (clean done).1, effect.absent own.1 own.2 (clean done).2⟩⟩

end Others

/-! ## The steps of a call -/

section Own
variable {phase : AssetPhase} {abandoned : Bool} {ino : Int} {content : Bytes}

/-- What a step of a call comes to: its effect, what is known then, and that the assets are still what they should be. -/
structure Goes (sha256 : Bytes → Text) (chunkSize : Nat) (call : AssetCall) (abandoned : Bool) (before : Volume) (phase : AssetPhase)
    (next : Volume × AssetPhase) : Prop where
  effect : Effect call.Own (call.Adds phase) before next.1
  knows : call.Knows sha256 chunkSize next.1 abandoned next.2
  vouched : Vouched sha256 chunkSize before → Vouched sha256 chunkSize next.1

/-- Where nothing comes under the name of a digest, the assets are what they were. -/
theorem vouched_effect {added : Text → Prop} (vouched : Vouched sha256 chunkSize before) (tree : before.DirectoryTree)
    (effect : Effect call.Own added before after) {directory : Int}
    (reached : AgentFS.walk before ROOT_INO assetParts = some directory)
    (alone : ∀ label, call.Own label → ∀ other ino, before.child other label = some ino → before.Sole label ino)
    (new : ∀ hash ino, isHash hash = true → added hash → after.child directory hash = some ino →
      before.child directory hash = some ino ∨ ∃ content, after.Stored chunkSize ino (.file content) ∧ sha256 content = hash) :
    Vouched sha256 chunkSize after := by
  intro hash ino valid found
  rw [resolvePath_assetPath valid] at found
  have plain := plain_of_isHash valid
  have other : ¬call.Own hash := fun own => plain.2.2.1 (own_dot own)
  have walked := effect.walks (fun label member own => own_parts own member) reached
  rw [inAssets, walked, Option.bind_some] at found
  have earlier : before.child directory hash = some ino ∨ ∃ content, after.Stored chunkSize ino (.file content) ∧ sha256 content = hash := by
    rcases effect.led directory hash ino found with earlier | ⟨named, -⟩
    · exact .inl earlier
    · exact new hash ino valid (named.resolve_left other) found
  rcases earlier with earlier | stored
  · have asset : AgentFS.resolvePath before (assetPath hash) = some ino := by
      rw [resolvePath_assetPath valid, inAssets, reached, Option.bind_some, earlier]
    obtain ⟨content, stored, digest⟩ := vouched hash ino valid asset
    have within := tree.walk_le (by rw [← AgentFS.resolvePath_eq]; exact asset)
    refine ⟨content, (effect.nodes ino within fun parent label led own => ?_).stored stored, digest⟩
    exact other (((alone label own parent ino led) directory hash earlier).1 ▸ own)
  · exact stored

section Steps
variable (plain : call.Plain) (tree : volume.DirectoryTree) (positive : 0 < chunkSize)

theorem Keeps.fileAt {label : Text} (filled : label ≠ []) (named : '/' ∉ label)
    (keeps : Keeps chunkSize volume label ino content) :
    ∃ row, volume.FileAt chunkSize (ASSET_ROOT ++ '/' :: label) row content ∧ row.ino = ino := by
  obtain ⟨sits, ⟨⟨row, stored, -, size⟩, laidOut⟩, row', stored', regular⟩ := keeps
  obtain rfl : row = row' := Option.some.inj (stored.symm.trans stored')
  obtain rfl := volume.inode.find?_key stored
  refine ⟨row, ⟨?_, stored, regular, size, laidOut⟩, rfl⟩
  have here := sits.here
  rwa [← resolvePath_below filled named, AgentFS.resolvePath_eq] at here

/-! The digest. -/

theorem hashes_hashChunks (path : Text) (rounds offset : Nat) (positive : 0 < chunkSize)
    (enough : content.length ≤ offset + rounds) :
    Asking.Ensures (fileWorld chunkSize path ino content) (fun bytes _ => bytes = content) (fun _ _ => False)
      (hashChunks path ⟨ino, chunkSize⟩ content.length rounds offset (content.take offset)) () := by
  induction rounds generalizing offset with
  | zero =>
    rw [hashChunks]
    exact List.take_of_length_le (by omega)
  | succ rounds ih =>
    rw [hashChunks]
    split
    · rename_i inside
      refine Asking.ensures_bind.mpr (Asking.ensures_question.mpr ?_)
      rintro reply _ ⟨volume, row, file, rfl, rfl⟩
      have chunk : answer chunkSize volume (.pread ⟨row.ino, chunkSize⟩ offset (min HASH_CHUNK_SIZE (content.length - offset))) =
          (content.drop offset).take (min HASH_CHUNK_SIZE (content.length - offset)) := file.pread positive _ _
      have bound : 0 < HASH_CHUNK_SIZE := by decide
      have count : ((content.drop offset).take (min HASH_CHUNK_SIZE (content.length - offset))).length =
          min HASH_CHUNK_SIZE (content.length - offset) := by
        rw [List.length_take, List.length_drop]
        omega
      have taken : content.take offset ++ (content.drop offset).take (min HASH_CHUNK_SIZE (content.length - offset)) =
          content.take (offset + min HASH_CHUNK_SIZE (content.length - offset)) := List.take_add.symm
      dsimp only
      rw [chunk, count, if_neg (by omega), taken]
      exact ih _ (by omega)
    · exact List.take_of_length_le (by omega)

theorem hashes_sha256Path (path : Text) (positive : 0 < chunkSize) : Hashes chunkSize path ino content (sha256Path path) := by
  refine Asking.ensures_bind.mpr (Asking.ensures_consult.mpr ?_)
  rintro reply _ ⟨volume, row, file, rfl, rfl⟩
  have found : answer chunkSize volume (.stat path) = .ok row := file.stat
  rw [found]
  refine ⟨fun stats same => ?_, fun _ failed => by cases failed⟩
  cases same
  rw [if_neg (not_not_intro file.regular)]
  split
  · refine Asking.ensures_bind.mpr (Asking.ensures_consult.mpr ?_)
    rintro reply _ ⟨volume', row', file', here, rfl⟩
    have opened : answer chunkSize volume' (.open path) = .ok ⟨row'.ino, chunkSize⟩ := file'.openFile
    rw [opened, here, file.size]
    refine ⟨fun handle same => ?_, fun _ failed => by cases failed⟩
    cases same
    exact Asking.ensures_bind.mpr ((hashes_hashChunks path _ 0 positive (by omega)).mono (fun _ _ whole => whole) fun _ _ => id)
  · rename_i empty
    exact (List.eq_nil_of_length_eq_zero (by rw [← file.size]; omega)).symm

theorem knows_hashed (absent : volume.Absent call.stream.uploadName) (keeps : Keeps chunkSize volume call.uploadName ino content)
    {rest : Serving Hashed} (hashes : Hashes chunkSize call.temporary ino content rest) :
    call.Knows sha256 chunkSize volume abandoned (call.hashed sha256 rest) := by
  cases rest with
  | returned hashed =>
    have bytes : hashed.bytes = content := hashes
    rw [AssetCall.hashed]
    dsimp only
    split
    · rename_i digest
      refine ⟨absent, ino, content, keeps, ?_⟩
      rw [← bytes]
      exact digest
    · exact ⟨.inl absent, .inr ⟨ino, content, keeps⟩, fun _ => absent⟩
  | thrown failure => exact (hashes : False).elim
  | ask question rest => exact ⟨absent, ino, content, keeps, hashes⟩

/-! One lemma for each kind of step. -/

theorem goes_quiet (tree : volume.DirectoryTree) {next : AssetPhase} (knows : call.Knows sha256 chunkSize volume abandoned next) :
    Goes sha256 chunkSize call abandoned volume phase (volume, next) :=
  ⟨.refl tree, knows, id⟩

/-- A directory on the way to the assets is made. -/
theorem goes_making (tree : volume.DirectoryTree) {directory : Text} {directories : List Text} {volume' : Volume}
    (knows : call.Knows sha256 chunkSize volume abandoned (.making (directory :: directories)))
    (made : AgentFS.mkdir volume directory = .ok volume') :
    Goes sha256 chunkSize call abandoned volume (.making (directory :: directories)) (volume', .making directories) := by
  obtain ⟨listed, absent, absent'⟩ := knows
  obtain ⟨parent, name, ino, above, adds, stored⟩ := @AgentFS.mkdir_adds volume volume' chunkSize directory made
  obtain ⟨front, spelled, reached⟩ := AgentFS.resolveParent_eq_some.mp above
  have fresh := adds.fresh
  have part : name ∈ assetParts := by
    have parts : ∀ path ∈ assetDirectories, ∀ name ∈ fields '/' path, name ∈ assetParts := by decide
    exact parts directory (listed directory List.mem_cons_self) name (by rw [spelled]; simp)
  have below : volume.Directory parent := by
    obtain ⟨row, found⟩ := tree.stored reached
    refine ⟨row, found, ?_⟩
    have kind := (AgentFS.mkdir_parent made above).2
    simpa [AgentFS.knownFile, AgentFS.getInodeMode, found] using kind
  have valid := fields_separable directory name (by rw [spelled]; simp)
  obtain ⟨row, found, -⟩ := stored
  have effect : Effect (fun _ => False) (· ∈ assetParts) volume volume' := effect_adds tree adds below ⟨row, found⟩ valid (.inr part)
  have keeps {label : Text} (own : call.Own label) (absent : volume.Absent label) : volume'.Absent label :=
    effect.absent id (own_parts own) absent
  refine ⟨effect.mono (fun _ => False.elim) fun _ => .inl, ⟨fun path member => listed path (List.mem_cons_of_mem _ member),
    keeps (.inl rfl) absent, keeps (.inr rfl) absent'⟩, fun vouched hash number digest asset => ?_⟩
  -- What leads to an old inode has been there before.
  have old : ∀ path number, number ≠ ino → AgentFS.walk volume' ROOT_INO path = some number →
      AgentFS.walk volume ROOT_INO path = some number := by
    intro path
    induction path using List.reverseRecOn with
    | nil => exact fun _ _ reached => reached
    | append_singleton path label ih =>
      intro number different reached
      rw [walk_concat, Option.bind_eq_some_iff] at reached ⊢
      obtain ⟨current, reached, led⟩ := reached
      rw [adds.child] at led
      split at led
      · exact (different (Option.some.inj led).symm).elim
      · obtain ⟨entry, member, rfl, -, -⟩ := mem_of_child led
        have within := (tree.numbered.entries entry member).2
        exact ⟨_, ih _ (by omega) reached, led⟩
  rw [resolvePath_assetPath digest] at asset
  obtain ⟨current, reached, led⟩ := Option.bind_eq_some_iff.mp asset
  rw [adds.child, if_neg fun same : current = parent ∧ hash = name => (plain_of_isHash digest).2.2.2 (same.2 ▸ part)] at led
  obtain ⟨entry, member, rfl, -, -⟩ := mem_of_child led
  have within := (tree.numbered.entries entry member).2
  have earlier : AgentFS.resolvePath volume (assetPath hash) = some number := by
    rw [resolvePath_assetPath digest]
    exact Option.bind_eq_some_iff.mpr ⟨_, old _ _ (by omega) reached, led⟩
  obtain ⟨content, held, same⟩ := vouched hash number digest earlier
  exact ⟨content, (adds.untouched number (tree.walk_le (by rw [← AgentFS.resolvePath_eq]; exact earlier))).same.stored held, same⟩

/-- The only entries under names of a call are those of its files. -/
theorem alone_of {label : Text} (leaves : volume.Absent label ∨ ∃ ino, volume.Sits label ino) (other : Int) (ino : Int)
    (led : volume.child other label = some ino) : volume.Sole label ino := by
  rcases leaves with absent | ⟨number, sits⟩
  · cases (absent other).symm.trans led
  · rw [sits.only other ino led]
    exact sits.sole

theorem kind_of_stored (stored : volume.Stored chunkSize ino (.file content)) : ¬volume.Directory ino := by
  obtain ⟨-, row, found, regular⟩ := stored
  rintro ⟨row', found', kind⟩
  obtain rfl : row = row' := Option.some.inj (found.symm.trans found')
  rw [AgentFS.isDirectory_of_isRegular regular] at kind
  cases kind

/-- One of the files of a call is removed, and the other stays. -/
theorem goes_removing (tree : volume.DirectoryTree) {label other : Text} {next : AssetPhase} (mine : call.Own label)
    (path : Text) (resolves : AgentFS.resolvePath volume path = volume.inAssets label)
    (apart : label ≠ other) (leaves : Leaves chunkSize volume label) (leaves' : volume.Absent other ∨ ∃ ino, volume.Sits other ino)
    (names : ∀ label', call.Own label' → label' = label ∨ label' = other)
    (knows : ∀ after, (Effect (· = label) (fun _ => False) volume after) → after.Absent label →
      call.Knows sha256 chunkSize after abandoned next) :
    Goes sha256 chunkSize call abandoned volume phase (settle volume (AgentFS.rm volume path true false), next) := by
  rcases leaves with absent | ⟨ino, content, sits, stored⟩
  · have missing : AgentFS.resolvePath volume path = none := by
      rw [resolves, inAssets]
      cases AgentFS.walk volume ROOT_INO assetParts with
      | none => rfl
      | some directory => exact absent directory
    rw [AgentFS.rm_missing missing]
    exact goes_quiet tree (knows volume (.refl tree) absent)
  · obtain ⟨directory, reached, led, only⟩ := sits.entry
    have here : AgentFS.resolvePath volume path = some ino := resolves.trans sits.here
    obtain ⟨parts, label', parent, -, found, removed⟩ := AgentFS.rm_file here (by have := sits.known.1; omega) stored
    obtain ⟨rfl, rfl⟩ := only parent label' found
    have kind := kind_of_stored stored
    have effect : Effect (· = label') (fun _ => False) volume (AgentFS.removeDentryAndMaybeInode volume parent label' ino) :=
      effect_removes tree found only kind rfl
    rw [removed]
    refine ⟨effect.mono (fun _ same => same ▸ mine) fun _ => False.elim, knows _ effect (absent_removes sits found), fun vouched => ?_⟩
    have wide : Effect call.Own (fun _ => False) volume (AgentFS.removeDentryAndMaybeInode volume parent label' ino) :=
      effect.mono (fun _ same => same ▸ mine) fun _ => id
    refine vouched_effect vouched tree wide reached (fun name own other' number led' => ?_) fun _ _ _ new => new.elim
    rcases names name own with rfl | rfl
    · exact alone_of (.inr ⟨ino, sits⟩) other' number led'
    · exact alone_of leaves' other' number led'

/-- The asset comes into being, as a file whose digest is its name. -/
theorem goes_publishing (plain : call.Plain) (tree : volume.DirectoryTree) (valid : isHash call.checksum = true) {volume' : Volume}
    {actual : ChecksumResult} {info : AssetInfo} (knows : call.Knows sha256 chunkSize volume abandoned (.publishing actual))
    (renamed : AgentFS.rename volume call.temporary call.target = .ok volume') :
    Goes sha256 chunkSize call abandoned volume (.publishing actual) (volume', .resolved info) := by
  obtain ⟨⟨absent, ino, content, ⟨sits, stored⟩, digest⟩, free⟩ := knows
  have named := plain_of_isHash valid
  have other : ¬call.Own call.checksum := fun own => named.2.2.1 (own_dot own)
  have different : call.uploadName ≠ call.checksum := fun same => other (same ▸ .inr rfl)
  obtain ⟨directory, reached, led, unled, below, moves⟩ := rename_sits tree sits (fields_temporary plain)
    (fields_below named.1 named.2.1) free different renamed
  have effect : Effect (· = call.uploadName) (· = call.checksum) volume volume' :=
    effect_moves tree moves led unled below ⟨named.1, named.2.1⟩ (kind_of_stored stored) rfl (.inr rfl)
  have wide : Effect call.Own (· = call.checksum) volume volume' := effect.mono (fun _ same => .inr same) fun _ => id
  refine ⟨wide.mono (fun _ => id) fun _ same => .inr ⟨same, actual, rfl⟩,
    ⟨effect.absent names_apart (fun same => other (same ▸ .inl rfl)) absent, absent_moves sits moves reached different⟩, fun vouched => ?_⟩
  refine vouched_effect vouched tree wide reached (fun name own other number led' => ?_) fun hash number _ same found => ?_
  · rcases own with rfl | rfl
    · exact alone_of (.inl absent) other number led'
    · exact alone_of (.inr ⟨ino, sits⟩) other number led'
  · right
    subst same
    rw [moves.children, if_pos ⟨rfl, rfl⟩] at found
    cases found
    exact ⟨content, (moves.nodes ino (by simp [unled])).stored stored, digest⟩

/-! The steps of `writeFileStream`. -/

theorem ready_of_writes (plain : call.Plain) {phase : StreamPhase} {made : Option Int} (writes : Writes chunkSize call volume phase made) :
    (StreamSystem.mk volume phase made).Ready call.stream := by
  obtain ⟨-, placed, -⟩ := writes
  have here : (StreamSystem.mk volume phase made).Placed call.stream := by
    unfold StreamSystem.Placed
    dsimp only
    rw [resolvePath_stream plain]
    cases made with
    | none =>
      dsimp only
      rw [inAssets]
      cases AgentFS.walk volume ROOT_INO assetParts with
      | none => rfl
      | some directory => exact placed directory
    | some ino => exact .inl placed.here
  cases phase with
  | cleanUp failure =>
    refine ⟨here, fun ino same _ => ?_⟩
    rw [resolvePath_stream plain]
    cases made with
    | none => cases same
    | some number =>
      cases same
      exact placed.here
  | create => exact here
  | opening => exact here
  | rename => exact here
  | _ => trivial

/-! What `next` does in each phase. -/

section Phases
variable (volume : Volume)

theorem next_making (directory : Text) (directories : List Text) : call.next sha256 chunkSize volume (.making (directory :: directories)) =
    match AgentFS.mkdir volume directory with
    | .ok volume => (volume, .making directories)
    | .error failure => if hasCode failure .EEXIST then (volume, .making directories) else (volume, .rejected failure) := by
  unfold AssetCall.next
  rfl

theorem next_looking : call.next sha256 chunkSize volume .looking =
    match call.targetExists volume with
    | .ok true => (volume, .known)
    | .ok false => (volume, .ofStream (StreamSystem.start call.stream volume).phase none)
    | .error failure => (volume, .rejected failure) := by
  unfold AssetCall.next
  rfl

theorem next_known : call.next sha256 chunkSize volume .known =
    match AgentFS.stat volume call.target with
    | .ok row => (volume, .resolved ⟨call.checksum, row.size, false⟩)
    | .error failure => (volume, .rejected failure) := by
  unfold AssetCall.next
  rfl

theorem next_writing (phase : StreamPhase) (made : Option Int) :
    call.next sha256 chunkSize volume (.writing phase made) =
      ((StreamSystem.next call.stream chunkSize ⟨volume, phase, made⟩).volume,
        .ofStream (StreamSystem.next call.stream chunkSize ⟨volume, phase, made⟩).phase
          (StreamSystem.next call.stream chunkSize ⟨volume, phase, made⟩).made) := by
  unfold AssetCall.next
  rfl

theorem next_checking (actual : ChecksumResult) : call.next sha256 chunkSize volume (.checking actual) =
    match call.targetExists volume with
    | .ok true => (volume, .dropping)
    | .ok false => (volume, .publishing actual)
    | .error failure => (volume, .cleanUp failure) := by
  unfold AssetCall.next
  rfl

theorem next_dropping : call.next sha256 chunkSize volume .dropping =
    match AgentFS.rm volume call.temporary true false with
    | .ok volume => (volume, .measuring)
    | .error failure => (volume, .cleanUp failure) := by
  unfold AssetCall.next
  rfl

theorem next_measuring : call.next sha256 chunkSize volume .measuring =
    match AgentFS.stat volume call.target with
    | .ok row => (volume, .resolved ⟨call.checksum, row.size, false⟩)
    | .error failure => (volume, .cleanUp failure) := by
  unfold AssetCall.next
  rfl

theorem next_publishing (actual : ChecksumResult) : call.next sha256 chunkSize volume (.publishing actual) =
    match AgentFS.rename volume call.temporary call.target with
    | .ok volume => (volume, .resolved ⟨call.checksum, actual.size, true⟩)
    | .error failure => (volume, .cleanUp failure) := by
  unfold AssetCall.next
  rfl

end Phases

section Stream
variable {streamPhase streamPhase' : StreamPhase} {made : Option Int}
variable (plain : call.Plain) (tree : volume.DirectoryTree) (positive : 0 < chunkSize)
variable (writes : Writes chunkSize call volume streamPhase made) (absent : volume.Absent call.uploadName)
include plain positive writes

theorem progress_of_writes : StreamSystem.Progress call.stream chunkSize ⟨volume, streamPhase, made⟩
    (StreamSystem.next call.stream chunkSize ⟨volume, streamPhase, made⟩) :=
  writes.1.1.progress positive (unguessed plain) writes.1.2 (ready_of_writes plain writes)

include tree absent

theorem goes_on (next : StreamSystem.next call.stream chunkSize ⟨volume, streamPhase, made⟩ = ⟨volume, streamPhase', made⟩)
    (going : (StreamSystem.mk volume streamPhase' made).finished = false)
    (creating : streamPhase' = .create → ∃ directory, AgentFS.walk volume ROOT_INO assetParts = some directory ∧ volume.Directory directory) :
    Goes sha256 chunkSize call abandoned volume (.writing streamPhase made)
      (call.next sha256 chunkSize volume (.writing streamPhase made)) := by
  have progress := progress_of_writes plain positive writes
  have same : AssetPhase.ofStream streamPhase' made = .writing streamPhase' made := by
    cases streamPhase' with
    | resolved => cases going
    | rejected failure => cases going
    | _ => rfl
  rw [next] at progress
  have knows : call.Knows sha256 chunkSize volume abandoned (.writing streamPhase' made) :=
    ⟨⟨⟨progress.sound going, going⟩, writes.2.1, creating⟩, absent⟩
  rw [next_writing, next]
  dsimp only
  rw [same]
  exact goes_quiet tree knows

/-- The file of the stream comes up. -/
theorem goes_creating (writing : streamPhase = .create)
    (written : AgentFS.writeFile volume chunkSize call.stream.temp [] = .ok volume') :
    Goes sha256 chunkSize call abandoned volume (.writing streamPhase made)
      (call.next sha256 chunkSize volume (.writing streamPhase made)) := by
  subst writing
  have progress := progress_of_writes plain positive writes
  obtain ⟨⟨sound, -⟩, placed, creating⟩ := writes
  obtain ⟨directory, reached, below⟩ := creating rfl
  have none_ : made = none := by
    cases made with
    | none => rfl
    | some ino =>
      obtain ⟨parent, -, led, -⟩ := Sits.entry placed
      obtain ⟨_, -, held⟩ := sound.filled ino rfl ⟨parent, _, led⟩
      exact held.elim
  subst none_
  have above : AgentFS.resolveParent volume call.stream.temp = some (directory, call.stream.uploadName) :=
    AgentFS.resolveParent_eq_some.mpr ⟨assetParts, by rw [stream_temp plain, fields_below (plain_stream plain).1 (plain_stream plain).2], reached⟩
  obtain ⟨ino, adds, stored, _⟩ := writeFile_adds above (placed directory) written
  obtain ⟨row, found⟩ := Option.ne_none_iff_exists'.mp stored.present
  have effect : Effect (· = call.stream.uploadName) (fun _ => False) volume volume' :=
    effect_adds tree adds below ⟨row, found⟩ (plain_stream plain) (.inl rfl)
  have wide : Effect call.Own (fun _ => False) volume volume' := effect.mono (fun _ same => .inl same) fun _ => id
  have sits : volume'.Sits call.stream.uploadName ino := sits_adds tree adds reached placed
  have made : AgentFS.resolvePath volume' call.stream.temp = some ino := by
    rw [resolvePath_stream plain]
    exact sits.here
  have next : StreamSystem.next call.stream chunkSize ⟨volume, .create, none⟩ =
      ⟨volume', if call.stream.body.isSome then .opening else .validate, some ino⟩ := by
    unfold StreamSystem.next
    dsimp only
    rw [written]
    dsimp only
    rw [made]
  rw [next] at progress
  have going : (StreamSystem.mk volume' (if call.stream.body.isSome then .opening else .validate) (some ino)).finished = false := by
    split <;> rfl
  have knows : call.Knows sha256 chunkSize volume' abandoned
      (.writing (if call.stream.body.isSome then .opening else .validate) (some ino)) := by
    refine ⟨⟨⟨progress.sound going, going⟩, sits, fun again => ?_⟩, effect.absent (Ne.symm names_apart) id absent⟩
    split at again <;> cases again
  have same : AssetPhase.ofStream (if call.stream.body.isSome then .opening else .validate) (some ino) =
      .writing (if call.stream.body.isSome then .opening else .validate) (some ino) := by
    split <;> rfl
  rw [next_writing, next]
  dsimp only
  rw [same]
  refine ⟨wide.mono (fun _ => id) fun _ => False.elim, knows, fun vouched => ?_⟩
  refine vouched_effect vouched tree wide reached (fun name own other number led => ?_) fun _ _ _ new => new.elim
  rcases own with rfl | rfl
  · exact alone_of (.inl placed) other number led
  · exact alone_of (.inl absent) other number led

/-- It grows. -/
theorem goes_growing {handle : AgentFSFile} {offset : Nat} {piece : Bytes} {remaining : List Bytes}
    (writing : streamPhase = .writing handle offset (piece :: remaining)) (written : handle.pwrite volume offset piece = .ok volume') :
    Goes sha256 chunkSize call abandoned volume (.writing streamPhase made)
      (call.next sha256 chunkSize volume (.writing streamPhase made)) := by
  subst writing
  have progress := progress_of_writes plain positive writes
  obtain ⟨⟨sound, -⟩, placed, -⟩ := writes
  obtain ⟨same, -⟩ := sound.handle handle offset _ rfl
  obtain rfl : made = some handle.ino := same
  have sits : volume.Sits call.stream.uploadName handle.ino := placed
  obtain ⟨directory, reached, led, -⟩ := sits.entry
  obtain ⟨content, stored, -⟩ := sound.filled handle.ino rfl ⟨directory, _, led⟩
  obtain ⟨touches, -⟩ := AgentFSFile.pwrite_touches written
  have tree' := AgentFSFile.pwrite_tree tree sits.known.2 written
  have effect : Effect (· = call.stream.uploadName) (fun _ => False) volume volume' :=
    effect_touches touches tree' led rfl (kind_of_stored stored)
  have wide : Effect call.Own (fun _ => False) volume volume' := effect.mono (fun _ same => .inl same) fun _ => id
  have next : StreamSystem.next call.stream chunkSize ⟨volume, .writing handle offset (piece :: remaining), some handle.ino⟩ =
      ⟨volume', .writing handle (offset + piece.length) remaining, some handle.ino⟩ := by
    unfold StreamSystem.next
    dsimp only
    rw [written]
  have children := child_congr touches.dentry
  have sits' : volume'.Sits call.stream.uploadName handle.ino := by
    have walks : AgentFS.walk volume' ROOT_INO assetParts = some directory := effect.walks (fun _ member same => own_parts (.inl same) member) reached
    refine ⟨Option.bind_eq_some_iff.mpr ⟨directory, walks, by rw [children]; exact led⟩, ?_, ?_, ?_⟩
    · rw [children]
      exact sits.only
    · unfold Sole
      rw [children]
      exact sits.sole
    · rw [touches.sequence]
      exact sits.known
  rw [next] at progress
  have knows : call.Knows sha256 chunkSize volume' abandoned
      (.writing (.writing handle (offset + piece.length) remaining) (some handle.ino)) :=
    ⟨⟨⟨progress.sound rfl, rfl⟩, sits', nofun⟩, effect.absent (Ne.symm names_apart) id absent⟩
  rw [next_writing, next]
  refine ⟨wide.mono (fun _ => id) fun _ => False.elim, knows, fun vouched => ?_⟩
  refine vouched_effect vouched tree wide reached (fun name own other number led => ?_) fun _ _ _ new => new.elim
  rcases own with rfl | rfl
  · exact alone_of (.inr ⟨_, sits⟩) other number led
  · exact alone_of (.inl absent) other number led

omit positive in
/-- It gets the name that the call has for it. -/
theorem goes_moving (writing : streamPhase = .rename)
    (renamed : AgentFS.rename volume call.stream.temp call.stream.path = .ok volume') :
    Goes sha256 chunkSize call abandoned volume (.writing streamPhase made)
      (call.next sha256 chunkSize volume (.writing streamPhase made)) := by
  subst writing
  have ready := ready_of_writes plain writes
  obtain ⟨⟨sound, -⟩, placed, -⟩ := writes
  have spelled : fields '/' call.stream.temp = assetParts ++ [call.stream.uploadName] := by
    rw [stream_temp plain, fields_below (plain_stream plain).1 (plain_stream plain).2]
  have spelled' : fields '/' call.stream.path = assetParts ++ [call.uploadName] := fields_temporary plain
  obtain ⟨ino, rfl⟩ : ∃ ino, made = some ino := by
    cases made with
    | some ino => exact ⟨ino, rfl⟩
    | none =>
      refine (AgentFS.rename_missing ready ?_ volume' renamed).elim
      rw [spelled, spelled']
      intro same
      exact names_apart (List.singleton_inj.mp (List.append_inj' same rfl).2)
  have sits : volume.Sits call.stream.uploadName ino := placed
  have free : volume.inAssets call.uploadName = none := by
    rw [inAssets]
    cases AgentFS.walk volume ROOT_INO assetParts with
    | none => rfl
    | some directory => exact absent directory
  obtain ⟨directory, reached, led, unled, below, moves⟩ := rename_sits tree sits spelled spelled' free names_apart renamed
  obtain ⟨content, stored, -⟩ := sound.filled ino rfl ⟨directory, _, led⟩
  have effect : Effect call.Own (fun _ => False) volume volume' :=
    effect_moves tree moves led unled below (plain_upload plain) (kind_of_stored stored) (.inl rfl) (.inl (.inr rfl))
  have next : StreamSystem.next call.stream chunkSize ⟨volume, .rename, some ino⟩ = ⟨volume', .resolved, some ino⟩ := by
    unfold StreamSystem.next
    dsimp only
    rw [renamed]
  have knows : call.Knows sha256 chunkSize volume' abandoned .lockingHash :=
    ⟨absent_moves sits moves reached names_apart, ino, content,
      sits_moves sits moves reached absent (own_parts (.inl rfl)) (own_parts (.inr rfl)),
      (moves.nodes ino (by simp [unled])).stored stored⟩
  rw [next_writing, next]
  refine ⟨effect.mono (fun _ => id) fun _ => False.elim, knows, fun vouched => ?_⟩
  refine vouched_effect vouched tree effect reached (fun name own other number led => ?_) fun _ _ _ new => new.elim
  rcases own with rfl | rfl
  · exact alone_of (.inr ⟨_, sits⟩) other number led
  · exact alone_of (.inl absent) other number led

omit plain tree positive absent in
theorem leaves_of_writes : Leaves chunkSize volume call.stream.uploadName := by
  obtain ⟨⟨sound, -⟩, placed, -⟩ := writes
  cases made with
  | none => exact .inl placed
  | some ino =>
    obtain ⟨directory, -, led, -⟩ := Sits.entry placed
    obtain ⟨content, stored, -⟩ := sound.filled ino rfl ⟨directory, _, led⟩
    exact .inr ⟨ino, content, placed, stored⟩

omit positive in
theorem goes_streamCleanUp {failure : Failure} (writing : streamPhase = .cleanUp failure) :
    Goes sha256 chunkSize call abandoned volume (.writing streamPhase made)
      (call.next sha256 chunkSize volume (.writing streamPhase made)) := by
  subst writing
  have next : StreamSystem.next call.stream chunkSize ⟨volume, .cleanUp failure, made⟩ =
      ⟨settle volume (AgentFS.rm volume call.stream.temp true false), .rejected failure, made⟩ := by
    unfold StreamSystem.next
    rfl
  rw [next_writing, next]
  exact goes_removing tree (.inl rfl) call.stream.temp (resolvePath_stream plain) names_apart
    (leaves_of_writes writes) (.inl absent) (fun _ => id)
    fun after effect gone => ⟨.inl gone, .inl (effect.absent (Ne.symm names_apart) id absent), fun _ => gone⟩

theorem goes_writing : Goes sha256 chunkSize call abandoned volume (.writing streamPhase made)
    (call.next sha256 chunkSize volume (.writing streamPhase made)) := by
  have fails (failure : Failure) (next : StreamSystem.next call.stream chunkSize ⟨volume, streamPhase, made⟩ =
      ⟨volume, .cleanUp failure, made⟩) : Goes sha256 chunkSize call abandoned volume (.writing streamPhase made)
        (call.next sha256 chunkSize volume (.writing streamPhase made)) := goes_on plain tree positive writes absent next rfl nofun
  cases phase : streamPhase with
  | queueTemp =>
    subst phase
    exact goes_on plain tree positive writes absent rfl rfl nofun
  | stat =>
    subst phase
    have place : call.stream.parentPath = ASSET_ROOT := by
      rw [FileStream.parentPath, stream_parent plain, if_neg (by decide)]
    cases found : AgentFS.stat volume call.stream.parentPath with
    | error failure => exact fails failure (by simp only [StreamSystem.next, found])
    | ok row =>
      cases kind : isDirectory row.mode with
      | false => exact fails _ (by simp only [StreamSystem.next, found, kind]; rfl)
      | true =>
        refine goes_on plain tree positive writes absent (by simp only [StreamSystem.next, found, kind]; rfl) rfl fun _ => ?_
        rw [place] at found
        obtain ⟨⟨_, ino⟩, resolved, stored⟩ := bind_eq_ok.mp found
        have here := (AgentFS.resolvePathOrThrow_ok resolved).2
        rw [AgentFS.resolvePath_eq, fields_assetRoot] at here
        exact ⟨ino, here, row, required_eq_ok.mp stored, kind⟩
  | create =>
    subst phase
    cases written : AgentFS.writeFile volume chunkSize call.stream.temp [] with
    | error failure => exact fails failure (by simp only [StreamSystem.next, written])
    | ok volume' => exact goes_creating plain tree positive writes absent rfl written
  | opening =>
    subst phase
    cases opened : AgentFS.openFile volume chunkSize call.stream.temp with
    | error failure => exact fails failure (by simp only [StreamSystem.next, opened])
    | ok handle =>
      have next : StreamSystem.next call.stream chunkSize ⟨volume, .opening, made⟩ =
          ⟨volume, .writing handle 0 call.stream.pieces, made⟩ := by simp only [StreamSystem.next, opened]
      exact goes_on plain tree positive writes absent next rfl nofun
  | writing handle offset remaining =>
    subst phase
    cases remaining with
    | nil =>
      cases failed : call.stream.body.bind (·.failure) with
      | some failure => exact fails failure (by simp only [StreamSystem.next, failed])
      | none =>
        have next : StreamSystem.next call.stream chunkSize ⟨volume, .writing handle offset [], made⟩ =
            ⟨volume, .validate, made⟩ := by simp only [StreamSystem.next, failed]
        exact goes_on plain tree positive writes absent next rfl nofun
    | cons piece remaining =>
      cases written : handle.pwrite volume offset piece with
      | error failure => exact fails failure (by simp only [StreamSystem.next, written])
      | ok volume' => exact goes_growing plain tree positive writes absent rfl written
  | validate =>
    subst phase
    exact goes_on plain tree positive writes absent rfl rfl nofun
  | queuePath =>
    subst phase
    exact goes_on plain tree positive writes absent rfl rfl nofun
  | rename =>
    subst phase
    cases renamed : AgentFS.rename volume call.stream.temp call.stream.path with
    | error failure => exact fails failure (by simp only [StreamSystem.next, renamed])
    | ok volume' => exact goes_moving plain tree writes absent rfl renamed
  | cleanUp failure => exact phase ▸ goes_streamCleanUp plain tree writes absent phase
  | resolved =>
    subst phase
    cases writes.1.2
  | rejected failure =>
    subst phase
    cases writes.1.2

end Stream

theorem targetExists_stored (valid : isHash call.checksum = true) (vouched : Vouched sha256 chunkSize volume)
    (none_ : call.targetExists volume = .ok false) : volume.inAssets call.checksum = none := by
  cases found : volume.inAssets call.checksum with
  | none => rfl
  | some ino =>
    rw [← resolvePath_assetPath valid] at found
    obtain ⟨content, ⟨-, row, stored, regular⟩, -⟩ := vouched _ ino valid found
    have stat : AgentFS.stat volume call.target = .ok row := by
      have resolved : AgentFS.resolvePathOrThrow volume call.target "stat" = _ := AgentFS.resolvePathOrThrow_of_resolved found "stat"
      rw [AgentFS.stat, resolved, ok_bind]
      dsimp only
      rw [stored]
      rfl
    delta targetExists at none_
    rw [stat] at none_
    dsimp only at none_
    rw [regular] at none_
    cases none_

/-- A step of a call does what it may, is known to lead where it leads, and keeps the assets. -/
theorem goes_next (plain : call.Plain) (tree : volume.DirectoryTree) (positive : 0 < chunkSize)
    (valid : phase.isSettled = false → isHash call.checksum = true) (vouched : Vouched sha256 chunkSize volume)
    (knows : call.Knows sha256 chunkSize volume abandoned phase) :
    Goes sha256 chunkSize call abandoned volume phase (call.next sha256 chunkSize volume phase) := by
  have rejects (failure : Failure) (absent : volume.Absent call.stream.uploadName) (absent' : volume.Absent call.uploadName) :
      call.Knows sha256 chunkSize volume abandoned (.rejected failure) := ⟨.inl absent, .inl absent', fun _ => ⟨absent, absent'⟩⟩
  have cleans (failure : Failure) (absent : volume.Absent call.stream.uploadName)
      (leaves : Leaves chunkSize volume call.uploadName) : call.Knows sha256 chunkSize volume abandoned (.cleanUp failure) :=
    ⟨.inl absent, leaves, fun _ => absent⟩
  cases phase with
  | making directories =>
    cases directories with
    | nil => exact goes_quiet tree knows.2
    | cons directory directories =>
      rw [next_making]
      cases made : AgentFS.mkdir volume directory with
      | ok volume' => exact goes_making tree knows made
      | error failure =>
        dsimp only
        split
        · exact goes_quiet tree ⟨fun path member => knows.1 path (List.mem_cons_of_mem _ member), knows.2⟩
        · exact goes_quiet tree (rejects failure knows.2.1 knows.2.2)
  | looking =>
    rw [next_looking]
    split
    · exact goes_quiet tree knows
    · rw [start_stream plain]
      have going : (StreamSystem.start call.stream volume).finished = false := by
        rw [start_stream plain]
        rfl
      have started := @StreamSystem.start_sound call.stream chunkSize volume tree going
      rw [start_stream plain] at started
      exact goes_quiet tree ⟨⟨⟨started, rfl⟩, knows.1, fun same => by cases same⟩, knows.2⟩
    · exact goes_quiet tree (rejects _ knows.1 knows.2)
  | known =>
    rw [next_known]
    split
    · exact goes_quiet tree knows
    · exact goes_quiet tree (rejects _ knows.1 knows.2)
  | writing streamPhase made => exact goes_writing plain tree positive knows.1 knows.2
  | lockingHash =>
    obtain ⟨absent, ino, content, keeps⟩ := knows
    exact goes_quiet tree (knows_hashed absent keeps (hashes_sha256Path _ positive))
  | hashing rest =>
    obtain ⟨absent, ino, content, keeps, hashes⟩ := knows
    cases rest with
    | returned hashed => exact goes_quiet tree (knows_hashed absent keeps hashes)
    | thrown failure => exact goes_quiet tree (knows_hashed absent keeps hashes)
    | ask question rest =>
      obtain ⟨row, file, same⟩ := keeps.fileAt (plain_upload plain).1 (plain_upload plain).2
      exact goes_quiet tree (knows_hashed absent keeps (hashes _ () ⟨volume, row, file, same, rfl⟩))
  | locking actual => exact goes_quiet tree knows
  | checking actual =>
    obtain ⟨absent, ino, content, keeps, digest⟩ := knows
    rw [next_checking]
    split
    · exact goes_quiet tree ⟨absent, ino, content, keeps⟩
    · rename_i none_
      exact goes_quiet tree ⟨⟨absent, ino, content, keeps, digest⟩, targetExists_stored (valid rfl) vouched none_⟩
    · exact goes_quiet tree (cleans _ absent (.inr ⟨ino, content, keeps⟩))
  | dropping =>
    obtain ⟨absent, ino, content, keeps⟩ := knows
    rw [next_dropping]
    cases removed : AgentFS.rm volume call.temporary true false with
    | error failure => exact goes_quiet tree (cleans failure absent (.inr ⟨ino, content, keeps⟩))
    | ok volume' =>
      have goes : Goes sha256 chunkSize call abandoned volume .dropping (settle volume (AgentFS.rm volume call.temporary true false), .measuring) :=
        goes_removing tree (.inr rfl) call.temporary (resolvePath_temporary plain) (Ne.symm names_apart) (.inr ⟨ino, content, keeps⟩)
          (.inl absent) (fun _ => Or.symm) fun after effect gone => ⟨effect.absent names_apart id absent, gone⟩
      rw [removed] at goes
      exact goes
  | measuring =>
    rw [next_measuring]
    split
    · exact goes_quiet tree knows
    · exact goes_quiet tree (cleans _ knows.1 (.inl knows.2))
  | publishing actual =>
    rw [next_publishing]
    cases renamed : AgentFS.rename volume call.temporary call.target with
    | ok volume' => exact goes_publishing plain tree (valid rfl) knows renamed
    | error failure =>
      obtain ⟨⟨absent, ino, content, keeps, -⟩, -⟩ := knows
      exact goes_quiet tree (cleans failure absent (.inr ⟨ino, content, keeps⟩))
  | cleanUp failure =>
    obtain ⟨first, second, clean⟩ := knows
    have sits : volume.Absent call.stream.uploadName ∨ ∃ ino, volume.Sits call.stream.uploadName ino :=
      first.imp_right fun ⟨ino, content, keeps⟩ => ⟨ino, keeps.1⟩
    refine goes_removing tree (.inr rfl) call.temporary (resolvePath_temporary plain) (Ne.symm names_apart) second sits
      (fun _ => Or.symm) fun after effect gone => ⟨?_, .inl gone, fun done => ⟨effect.absent names_apart id (clean done), gone⟩⟩
    exact first.spared effect (fun _ member same => own_parts (.inr same) member) ⟨names_apart, id⟩
  | resolved info => exact goes_quiet tree knows
  | rejected failure => exact goes_quiet tree knows

end Steps

end Own

end AssetCall

end AiryFS
