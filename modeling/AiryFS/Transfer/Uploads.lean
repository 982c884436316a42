import AiryFS.Assets.Assets
import AiryFS.Files.StreamSafety
import AiryFS.Foundation.Runs
import AiryFS.Jobs.Queue

/-! Resumable uploads, which publish what their chunks spell out.

The chunks of a session go to a hidden file beside its path, each at the offset that the session has got to. A call holds
the locks of the paths that it works on, so it is one step; between two steps other requests change the volume.
-/

set_option autoImplicit false

namespace AiryFS

open Foundation

def MAX_UPLOAD_CHUNK_BYTES : Nat := 1024 * 1024

structure UploadRow where
  path : Text
  id : Text
  size : Nat
  checksum : Text
  offset : Nat
  tempPath : Text
  createdAt : Int
  updatedAt : Int
  deriving DecidableEq, Repr

structure AppendChunk where
  offset : Int
  chunkSha256 : Text
  data : Bytes

/-- A volume and its table `fs_upload`. -/
structure Uploads where
  volume : Volume
  upload : Table UploadRow.path

def validateUploadPath (path : Text) : Except Failure Text := do
  let invalid := Failure.http 400 "INVALID_PATH" "A file path without a trailing slash is required"
  refuse (path = [] ∨ path = ['/'] ∨ path.getLast? = some '/') invalid
  let normalized := '/' :: ['/'].intercalate (Jobs.resolveSegments [] (path.splitOn '/'))
  refuse (normalized = ['/']) invalid
  return normalized

def validateChecksum (value : Text) (field : String) : Except Failure Unit :=
  refuse (isHash value = false) (Jobs.invalidArgument s!"Expected lowercase hex SHA-256 \"{field}\"")

/-- The paths of a session are those of a stream. -/
def uploadStream (path uuid : Text) (data : Bytes) : FileStream :=
  { path, uuid, body := some ⟨[data], none⟩, access := true, validateTemp := fun _ => .ok () }

namespace Uploads

variable (sha256 : Bytes → Text) (chunkSize : Nat) (state : Uploads)

def requireUpload (path : Text) : Except Failure UploadRow :=
  let shown := String.ofList path
  required (state.upload.find? path) (.http 404 "UPLOAD_NOT_FOUND" s!"No active upload for {shown}")

/-- `beginUpload` from the lock on, and whether the session is new. `id` and `uuid` are random. -/
def openUpload (path id uuid : Text) (size : Nat) (checksum : Text) : Except Failure ((UploadRow × Bool) × Uploads) := do
  match state.upload.find? path with
  | some existing =>
    let shown := String.ofList path
    refuse (existing.size ≠ size ∨ existing.checksum ≠ checksum)
      (.http 409 "UPLOAD_CONFLICT" s!"An upload with different size/checksum is already active for {shown}")
    return ((existing, false), state)
  | none =>
    let stream := uploadStream path uuid []
    let shown := String.ofList stream.parentPath
    let stats ← AgentFS.stat state.volume stream.parentPath
    refuse (isDirectory stats.mode = false)
      (.fs ⟨.ENOTDIR, "", stream.parentPath, s!"ENOTDIR: not a directory, open '{shown}'"⟩)
    let volume ← AgentFS.writeFile state.volume chunkSize stream.temp []
    let row : UploadRow := ⟨path, id, size, checksum, 0, stream.temp, volume.now, volume.now⟩
    let upload ← required (state.upload.insert? row) (.constraint "fs_upload")
    return ((row, true), ⟨volume, upload⟩)

def appendUpload (rawPath : Text) (chunk : AppendChunk) : Except Failure (UploadRow × Uploads) := do
  let path ← validateUploadPath rawPath
  validateChecksum chunk.chunkSha256 "X-AiryFS-Chunk-SHA256"
  refuse (isSafeInteger chunk.offset = false ∨ chunk.offset < 0)
    (Jobs.invalidArgument "Upload-Offset must be a non-negative integer")
  refuse (chunk.data.length = 0) (Jobs.invalidArgument "Chunk must not be empty")
  refuse (MAX_UPLOAD_CHUNK_BYTES < chunk.data.length)
    (.http 413 "CHUNK_TOO_LARGE" s!"Chunk exceeds {MAX_UPLOAD_CHUNK_BYTES} bytes")
  let row ← state.requireUpload path
  refuse (chunk.offset ≠ row.offset)
    (.http 409 "UPLOAD_OFFSET_MISMATCH" s!"Expected Upload-Offset {row.offset}, got {chunk.offset}")
  refuse (row.size < row.offset + chunk.data.length)
    (.http 400 "UPLOAD_OVERFLOW" s!"Chunk would exceed the declared size {row.size}")
  refuse (sha256 chunk.data ≠ chunk.chunkSha256)
    (.http 400 "CHUNK_CHECKSUM_MISMATCH" "Chunk SHA-256 does not match X-AiryFS-Chunk-SHA256")
  let handle ← AgentFS.openFile state.volume chunkSize row.tempPath
  let volume ← handle.pwrite state.volume row.offset chunk.data
  let advance := fun other : UploadRow =>
    if other.path = path then { other with offset := row.offset + chunk.data.length, updatedAt := volume.now } else other
  return (advance row, ⟨volume, state.upload.modify advance fun other => by dsimp only [advance]; split <;> rfl⟩)

/-- The row of what now is at the path, and its checksum. -/
def completeUpload (rawPath : Text) : Except Failure ((InodeRow × Text) × Uploads) := do
  let path ← validateUploadPath rawPath
  let row ← state.requireUpload path
  refuse (row.offset ≠ row.size) (.http 409 "UPLOAD_INCOMPLETE" s!"Upload is at {row.offset} of {row.size} bytes")
  let _ ← AgentFS.openFile state.volume chunkSize row.tempPath
  let hashed ← (sha256Path row.tempPath).run (Sites.answer chunkSize state.volume)
  let actual := String.ofList (sha256 hashed.bytes)
  let expected := String.ofList row.checksum
  refuse (sha256 hashed.bytes ≠ row.checksum)
    (.http 409 "UPLOAD_CHECKSUM_MISMATCH" s!"Uploaded content SHA-256 {actual} does not match expected {expected}")
  let volume ← AgentFS.rename state.volume row.tempPath path
  let stats ← AgentFS.stat volume path
  return ((stats, row.checksum), ⟨volume, state.upload.erase path⟩)

/-- A chunk comes, or other requests have their effect. -/
inductive Action where
  | append (rawPath : Text) (chunk : AppendChunk)
  | others (after : Uploads)

def step (action : Action) : Uploads :=
  match action with
  | .append rawPath chunk => settle state ((state.appendUpload sha256 chunkSize rawPath chunk).map Prod.snd)
  | .others after => after

/-! ## The hidden file

A session is where a stream is that has written as much. -/

def writing (volume : Volume) (ino : Int) (offset : Nat) (remaining : List Bytes) : StreamSystem :=
  ⟨volume, .writing ⟨ino, chunkSize⟩ offset remaining, some ino⟩

/-- No other session has the hidden file. -/
def Apart (stream : FileStream) : Prop :=
  ∀ other ∈ state.upload.rows, other.path ≠ stream.path → stream.uploadName ∉ fields '/' other.tempPath

/-- The hidden file holds what the session has got. -/
structure Staged (stream : FileStream) (checksum : Text) (ino : Int) : Prop where
  session : ∃ row, state.upload.find? stream.path = some row ∧ row.tempPath = stream.temp ∧ row.size = stream.content.length ∧
    row.checksum = checksum ∧
    (writing chunkSize state.volume ino row.offset [stream.content.drop row.offset]).Sound stream chunkSize
  led : AgentFS.resolvePath state.volume stream.temp = some ino
  apart : state.Apart stream

/-- A chunk for the path that fits its digest is a piece of the contents at its offset; other requests leave the session and
its file, and no other session gets its file. -/
def Allowed (stream : FileStream) (state : Uploads) : Action → Prop
  | .append rawPath chunk => validateUploadPath rawPath = .ok stream.path → sha256 chunk.data = chunk.chunkSha256 →
      chunk.data <+: stream.content.drop chunk.offset.toNat
  | .others after => after.upload.find? stream.path = state.upload.find? stream.path ∧ after.Apart stream ∧
      AgentFS.resolvePath after.volume stream.temp = AgentFS.resolvePath state.volume stream.temp ∧
      ∀ ino ∈ AgentFS.resolvePath state.volume stream.temp, (writing chunkSize state.volume ino 0 []).Treelike after.volume ∧
        (writing chunkSize state.volume ino 0 []).Spares stream after.volume

variable {sha256 chunkSize state} {after : Uploads} {stream : FileStream} {checksum : Text} {ino : Int}

theorem sound_writing {volume : Volume} {offset : Nat} {first second : List Bytes} (same : first.flatten = second.flatten)
    (sound : (writing chunkSize volume ino offset first).Sound stream chunkSize) :
    (writing chunkSize volume ino offset second).Sound stream chunkSize := by
  have progress : StreamSystem.Progress stream chunkSize (writing chunkSize volume ino offset first)
      (writing chunkSize volume ino offset second) := by
    refine sound.quiet (fun content held => ⟨held.1, same ▸ held.2⟩) ?_ nofun rfl
    rintro handle offset remaining ⟨⟩
    exact ⟨rfl, rfl⟩
  exact progress.sound rfl

theorem Staged.append (staged : Staged chunkSize state stream checksum ino) (positive : 0 < chunkSize) (unguessed : stream.Unguessed)
    {rawPath : Text} {chunk : AppendChunk} (allowed : Allowed sha256 chunkSize stream state (.append rawPath chunk))
    {result : UploadRow} (appended : state.appendUpload sha256 chunkSize rawPath chunk = .ok (result, after)) :
    Staged chunkSize after stream checksum ino := by
  obtain ⟨row, found, temp, sized, digest, sound⟩ := staged.session
  obtain ⟨path, valid, appended⟩ := bind_eq_ok.mp appended
  iterate 4 obtain ⟨_, -, appended⟩ := bind_eq_ok.mp appended
  obtain ⟨row', required, appended⟩ := bind_eq_ok.mp appended
  obtain ⟨_, placed, appended⟩ := bind_eq_ok.mp appended
  obtain ⟨_, -, appended⟩ := bind_eq_ok.mp appended
  obtain ⟨_, fits, appended⟩ := bind_eq_ok.mp appended
  obtain ⟨handle, opened, appended⟩ := bind_eq_ok.mp appended
  obtain ⟨volume, written, appended⟩ := bind_eq_ok.mp appended
  obtain ⟨-, rfl⟩ := Prod.mk.inj (pure_eq_ok.mp appended)
  rw [refuse_eq_ok, not_not] at placed fits
  have found' := required_eq_ok.mp required
  obtain ⟨led, width⟩ := AgentFS.openFile_resolved opened
  obtain ⟨touches, -⟩ := AgentFSFile.pwrite_touches written
  have still : AgentFS.resolvePath volume stream.temp = some ino := by
    rw [AgentFS.resolvePath_eq, touches.walks, ← AgentFS.resolvePath_eq]
    exact staged.led
  refine ⟨?_, still, ?_⟩
  · rw [Table.find?_modify, found, Option.map_some]
    refine ⟨_, rfl, ?_⟩
    by_cases own : path = stream.path
    · subst own
      obtain rfl := Option.some.inj (found.symm.trans found')
      rw [temp] at led
      obtain rfl := Option.some.inj (staged.led.symm.trans led)
      obtain ⟨rest, whole⟩ := allowed valid fits
      rw [placed, Int.toNat_natCast] at whole
      have behind : stream.content.drop (row.offset + chunk.data.length) = rest := by
        rw [← List.drop_drop, ← whole, List.drop_left]
      rw [if_pos (state.upload.find?_key found)]
      refine ⟨temp, sized, digest, ?_⟩
      have ahead : (writing chunkSize state.volume handle.ino row.offset [chunk.data, rest]).Sound stream chunkSize :=
        sound_writing (by simpa using whole.symm) sound
      have next := (ahead.writes positive unguessed rfl (by rw [← width]; exact written)).sound rfl
      rw [behind]
      exact next
    · rw [if_neg (by rw [state.upload.find?_key found]; exact Ne.symm own)]
      refine ⟨temp, sized, digest, ?_⟩
      have apart := staged.apart row' (state.upload.find?_mem found') (by rw [state.upload.find?_key found']; exact own)
      have elsewhere : handle.ino ≠ ino := by
        rintro rfl
        exact (sound.sole _ rfl).unseen (sound.known _ rfl).1 apart led
      have children := Volume.child_congr touches.dentry
      refine sound.spared ⟨?_, touches.sequence.ge⟩ ⟨?_, ?_⟩
      · exact AgentFSFile.pwrite_tree sound.tree (sound.tree.walk_le (by rw [← AgentFS.resolvePath_eq]; exact led)) written
      · intro number made
        unfold Volume.Sole
        rw [children]
        exact sound.sole number made
      · rintro _ ⟨⟩ named
        unfold Volume.Named at named
        rw [children] at named
        exact ⟨named, (touches.untouched (Ne.symm elsewhere)).same⟩
  · intro other member different
    obtain ⟨before, listed, rfl⟩ := List.mem_map.mp member
    revert different
    split <;> exact staged.apart before listed

theorem Staged.step (staged : Staged chunkSize state stream checksum ino) (positive : 0 < chunkSize) (unguessed : stream.Unguessed)
    {action : Action} (allowed : Allowed sha256 chunkSize stream state action) :
    Staged chunkSize (state.step sha256 chunkSize action) stream checksum ino := by
  cases action with
  | append rawPath chunk =>
    unfold Uploads.step
    dsimp only
    cases appended : state.appendUpload sha256 chunkSize rawPath chunk with
    | error failure => exact staged
    | ok result => exact staged.append positive unguessed allowed appended
  | others after =>
    obtain ⟨row, found, temp, sized, digest, sound⟩ := staged.session
    obtain ⟨same, apart, led, spared⟩ := allowed
    obtain ⟨treelike, spares⟩ := spared ino staged.led
    exact ⟨⟨row, same.trans found, temp, sized, digest, sound.spared ⟨treelike.tree, treelike.sequence⟩ ⟨spares.sole, spares.node⟩⟩,
      led.trans staged.led, apart⟩

/-- A new session begins with an empty file. -/
theorem staged_of_opened {path id uuid : Text} {data : Bytes} {row : UploadRow} (unguessed : (uploadStream path uuid data).Unguessed)
    (valid : (uploadStream path uuid data).temporaryPath = .ok (uploadStream path uuid data).temp)
    (tree : state.volume.DirectoryTree) (missing : AgentFS.resolvePath state.volume (uploadStream path uuid data).temp = none)
    (others : ∀ other ∈ state.upload.rows, (uploadStream path uuid data).uploadName ∉ fields '/' other.tempPath)
    (opened : state.openUpload chunkSize path id uuid data.length checksum = .ok ((row, true), after)) :
    ∃ ino, Staged chunkSize after (uploadStream path uuid data) checksum ino := by
  unfold openUpload at opened
  split at opened
  · obtain ⟨_, -, opened⟩ := bind_eq_ok.mp opened
    cases pure_eq_ok.mp opened
  · obtain ⟨_, -, opened⟩ := bind_eq_ok.mp opened
    obtain ⟨_, -, opened⟩ := bind_eq_ok.mp opened
    obtain ⟨volume, written, opened⟩ := bind_eq_ok.mp opened
    obtain ⟨upload, inserted, opened⟩ := bind_eq_ok.mp opened
    obtain ⟨same, rfl⟩ := Prod.mk.inj (pure_eq_ok.mp opened)
    rw [required_eq_ok] at inserted
    obtain ⟨parts, name, ino, spelled, plants, -⟩ := Volume.writeFile_plants tree missing written
    have led : AgentFS.resolvePath volume (uploadStream path uuid data).temp = some ino := by
      rw [AgentFS.resolvePath_eq, spelled]
      exact plants.reached
    have start : (⟨state.volume, .create, none⟩ : StreamSystem).Sound (uploadStream path uuid data) chunkSize :=
      ⟨tree, valid, nofun, nofun, nofun, nofun, nofun⟩
    have empty := (start.creates unguessed missing written).sound rfl
    rw [led] at empty
    have progress : StreamSystem.Progress (uploadStream path uuid data) chunkSize ⟨volume, .opening, some ino⟩
        (writing chunkSize volume ino 0 [data]) := by
      refine empty.quiet ?_ ?_ nofun rfl
      · rintro content rfl
        exact ⟨rfl, rfl⟩
      · rintro handle offset remaining ⟨⟩
        exact ⟨rfl, rfl⟩
    have content : (uploadStream path uuid data).content = data := List.append_nil data
    refine ⟨ino, ⟨_, (state.upload.find?_insert inserted path).trans (if_pos rfl), rfl, by rw [content], rfl, ?_⟩, led, ?_⟩
    · exact sound_writing (by rw [content]; rfl) (progress.sound rfl)
    · intro other member different
      rw [(state.upload.insert?_eq_some_iff.mp inserted).2, List.mem_append, List.mem_singleton] at member
      rcases member with earlier | rfl
      · exact others other earlier
      · exact absurd rfl different

/-- What is completed is at the path, whole, and has the digest that was announced. -/
theorem Staged.published (staged : Staged chunkSize state stream checksum ino) (positive : 0 < chunkSize)
    (unguessed : stream.Unguessed) {rawPath : Text} {result : InodeRow × Text} (valid : validateUploadPath rawPath = .ok stream.path)
    (completed : state.completeUpload sha256 chunkSize rawPath = .ok (result, after)) :
    after.upload.find? stream.path = none ∧ sha256 stream.content = checksum ∧ AgentFS.resolvePath after.volume stream.path = some ino ∧
      after.volume.Stored chunkSize ino (.file stream.content) := by
  obtain ⟨row, found, temp, sized, digest, sound⟩ := staged.session
  obtain ⟨path, valid', completed⟩ := bind_eq_ok.mp completed
  obtain rfl := Except.ok.inj (valid.symm.trans valid')
  obtain ⟨row', required, completed⟩ := bind_eq_ok.mp completed
  obtain rfl := Option.some.inj (found.symm.trans (required_eq_ok.mp required))
  obtain ⟨_, full, completed⟩ := bind_eq_ok.mp completed
  obtain ⟨_, -, completed⟩ := bind_eq_ok.mp completed
  obtain ⟨hashed, ran, completed⟩ := bind_eq_ok.mp completed
  obtain ⟨_, fits, completed⟩ := bind_eq_ok.mp completed
  obtain ⟨volume, renamed, completed⟩ := bind_eq_ok.mp completed
  obtain ⟨_, -, completed⟩ := bind_eq_ok.mp completed
  obtain ⟨-, rfl⟩ := Prod.mk.inj (pure_eq_ok.mp completed)
  rw [refuse_eq_ok, not_not] at full fits
  rw [full, sized, List.drop_length] at sound
  rw [temp] at ran renamed
  have progress : StreamSystem.Progress stream chunkSize (writing chunkSize state.volume ino stream.content.length [[]])
      ⟨state.volume, .rename, some ino⟩ :=
    sound.quiet (fun content held => (List.append_nil content).symm.trans held.2) nofun nofun rfl
  have ready := progress.sound rfl
  obtain ⟨_, parent, newParent, name, pieces, ⟨⟩, shape, reached, apart, -, unlike, stored, moves⟩ :=
    ready.exchanges unguessed rfl (.inl staged.led) renamed
  have file : ∃ row, state.volume.FileAt chunkSize stream.temp row stream.content := by
    obtain ⟨⟨⟨row, known, -, size⟩, laidOut⟩, row', known', regular⟩ := stored
    obtain rfl := Option.some.inj (known.symm.trans known')
    obtain rfl := state.volume.inode.find?_key known
    exact ⟨row, by rw [← AgentFS.resolvePath_eq]; exact staged.led, known, regular, size, laidOut⟩
  obtain ⟨inode, file⟩ := file
  obtain rfl := Except.ok.inj (ran.symm.trans (file.sha256Path positive))
  refine ⟨?_, fits.trans digest, ?_, (moves.nodes ino unlike).stored stored⟩
  · rw [Table.find?_erase, if_pos rfl]
  · rw [AgentFS.resolvePath_eq, shape, Volume.walk_concat,
      StreamSystem.walk_moved ready.tree moves apart reached pieces List.prefix_rfl, reached, Option.bind_some, moves.children, if_pos ⟨rfl, rfl⟩]

/-- Whatever chunks come, again or out of order or damaged, and whatever other requests do beside the session and its hidden
file: what a completed upload leaves at its path is what the chunks are pieces of, whole, and has the announced digest. -/
theorem upload_publishes {path id uuid rawPath : Text} {data : Bytes} {row : UploadRow} {opened : Uploads} {actions : List Action}
    {result : InodeRow × Text} (positive : 0 < chunkSize) (unguessed : (uploadStream path uuid data).Unguessed)
    (valid : (uploadStream path uuid data).temporaryPath = .ok (uploadStream path uuid data).temp)
    (tree : state.volume.DirectoryTree) (missing : AgentFS.resolvePath state.volume (uploadStream path uuid data).temp = none)
    (others : ∀ other ∈ state.upload.rows, (uploadStream path uuid data).uploadName ∉ fields '/' other.tempPath)
    (begun : state.openUpload chunkSize path id uuid data.length checksum = .ok ((row, true), opened))
    (allowed : Guarded (step sha256 chunkSize) (Allowed sha256 chunkSize (uploadStream path uuid data)) opened actions)
    (named : validateUploadPath rawPath = .ok path)
    (completed : (run (step sha256 chunkSize) opened actions).completeUpload sha256 chunkSize rawPath = .ok (result, after)) :
    after.upload.find? path = none ∧ sha256 data = checksum ∧ ∃ ino, AgentFS.resolvePath after.volume path = some ino ∧
      after.volume.Stored chunkSize ino (.file data) := by
  obtain ⟨ino, staged⟩ := staged_of_opened unguessed valid tree missing others begun
  have final : Staged chunkSize (run (step sha256 chunkSize) opened actions) (uploadStream path uuid data) checksum ino :=
    run_invariant (fun state action (staged : Staged chunkSize state _ _ _) allowed => staged.step positive unguessed allowed) staged allowed
  obtain ⟨gone, digest, led, stored⟩ := final.published positive unguessed named completed
  rw [show (uploadStream path uuid data).content = data from List.append_nil data] at digest stored
  exact ⟨gone, digest, ino, led, stored⟩

def digestSample (data : Bytes) : Text := List.replicate 64 (if data.length < 2 then '0' else '1')

def openedSample : Uploads :=
  let begun := openUpload 4 ⟨streamSample, .empty⟩ "/d/f".toList "id".toList "0".toList 2 (digestSample [1, 2])
  begun.toOption.elim ⟨streamSample, .empty⟩ Prod.snd

/-- Two chunks, the first of them sent twice. -/
def chunksSample : List Action :=
  [(0, 1), (0, 1), (1, 2)].map fun (offset, byte) => .append "/d//f".toList ⟨offset, digestSample [byte], [byte]⟩

def completedSample : Except Failure ((InodeRow × Text) × Uploads) :=
  (run (step digestSample 4) openedSample chunksSample).completeUpload digestSample 4 "/d/f".toList

theorem upload_publishes_sample : ∃ (after : Uploads) (ino : Int), AgentFS.resolvePath after.volume "/d/f".toList = some ino ∧
    after.volume.Stored 4 ino (.file [1, 2]) := by
  have completes : completedSample.toOption.isSome = true := by decide +kernel
  have allowed : Guarded (step digestSample 4) (Allowed digestSample 4 (uploadStream "/d/f".toList "0".toList [1, 2])) openedSample
      chunksSample := ⟨fun _ _ => ⟨[2], rfl⟩, fun _ _ => ⟨[2], rfl⟩, fun _ _ => ⟨[], rfl⟩, trivial⟩
  cases completed : completedSample with
  | error failure =>
    rw [completed] at completes
    cases completes
  | ok done =>
    obtain ⟨-, -, published⟩ := @upload_publishes digestSample 4 ⟨streamSample, .empty⟩ done.2 (digestSample [1, 2]) "/d/f".toList
      "id".toList "0".toList "/d/f".toList [1, 2] _ openedSample _ done.1 (by decide) ⟨by decide +kernel, by decide +kernel⟩
      (by decide +kernel) streamSample_tree (by decide +kernel) nofun rfl allowed (by decide +kernel) completed
    exact ⟨done.2, published⟩

end Uploads

end AiryFS
