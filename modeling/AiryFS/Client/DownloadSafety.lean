import AiryFS.Client.Download

/-! What an attempt of `resumableDownload` leaves at the local path, and when it comes to its end.

In any weather the local path changes at the rename alone, and what it then gets are the bytes
behind the server's checksum. In calm weather an attempt resolves exactly where the partial file
it goes on with is the beginning of the remote file.
-/

set_option autoImplicit false

namespace AiryFS

open Foundation Sites
open Asking (Ensures Maintains Plays Outcome)

variable {chunkSize : Nat} {parse : Text → Option Int} {sha256 : Bytes → Text} {weather : Weather}
variable {remotePath localPath path : Text} {remote : Remote} {force : Bool} {state state' : DownloadWorld}

/-! ## Paths that calls leave alone -/

/-- The call changes nothing at the path. -/
def FileCall.Spares (path : Text) : FileCall → Prop
  | .stat _ | .readFile _ => True
  | .rm other | .writeFile other _ | .append other _ => path ≠ other
  | .rename source target => path ≠ source ∧ path ≠ target

section Sparing
variable {files files' : Text → Option Bytes} {call : FileCall} {reply : Except TransferFailure call.Value}

theorem FileCall.Performs.spares (performs : call.Performs files reply files') (spares : call.Spares path) :
    files' path = files path := by
  cases call with
  | stat other => rw [performs.1]
  | readFile other => rw [performs.1]
  | rm other => rw [performs.1, Function.update_of_ne spares]
  | writeFile other data => rw [performs.1, Function.update_of_ne spares]
  | append other stream =>
    obtain ⟨count, appended, _⟩ := performs
    rw [appended, Function.update_of_ne spares]
  | rename source target =>
    rcases performs with ⟨_, same, _⟩ | ⟨data, _, moved, _⟩
    · rw [same]
    · rw [moved, Function.update_of_ne spares.2, Function.update_of_ne spares.1]

theorem FileCall.Tears.spares (tears : call.Tears files files') (spares : call.Spares path) : files' path = files path := by
  cases call with
  | stat other => rw [show files' = files from tears]
  | readFile other => rw [show files' = files from tears]
  | rm other => rw [show files' = files from tears]
  | rename source target => rw [show files' = files from tears]
  | writeFile other data =>
    rcases tears with rfl | ⟨count, rfl⟩
    · rfl
    · rw [Function.update_of_ne spares]
  | append other stream =>
    rcases tears with rfl | ⟨count, rfl⟩
    · rfl
    · rw [Function.update_of_ne spares]

end Sparing

theorem partialPath_ne (localPath : Text) : localPath ≠ partialPath localPath := by
  intro same
  have lengths := congrArg List.length same
  simp [partialPath] at lengths

theorem sidecarPath_ne (localPath : Text) : localPath ≠ sidecarPath localPath := by
  intro same
  have lengths := congrArg List.length same
  simp [sidecarPath, partialPath] at lengths

theorem partialPath_ne_sidecarPath (localPath : Text) : partialPath localPath ≠ sidecarPath localPath := by
  intro same
  have lengths := congrArg List.length same
  simp [sidecarPath] at lengths

/-! ## Any weather -/

/-- Nothing has happened to the path, and no checksum was given. -/
def DownloadWorld.Untouched (path : Text) (before : Option Bytes) (state : DownloadWorld) : Prop :=
  state.files path = before ∧ state.hashed = none

section Weathered
variable {before : Option Bytes}

theorem file_maintains {call : FileCall} (spares : call.Spares path) :
    Maintains (weather.world chunkSize parse sha256) (DownloadWorld.Untouched path before) (ask (.file call)) := by
  refine Asking.maintains_consult fun state reply state' untouched replied => ?_
  obtain ⟨files', rfl, performs | ⟨_, _, _, _, tears⟩⟩ := replied
  · exact ⟨(performs.spares spares).trans untouched.1, untouched.2⟩
  · exact ⟨(tears.spares spares).trans untouched.1, untouched.2⟩

theorem headFile_maintains : Maintains (weather.world chunkSize parse sha256) (DownloadWorld.Untouched path before)
    (ask (.headFile remotePath)) := by
  refine Asking.maintains_consult fun state reply state' untouched replied => ?_
  obtain ⟨volume', rfl, _⟩ := replied
  exact untouched

theorem readFile_maintains {range : Text} : Maintains (weather.world chunkSize parse sha256) (DownloadWorld.Untouched path before)
    (ask (.readFile remotePath range)) := by
  refine Asking.maintains_consult fun state reply state' untouched replied => ?_
  obtain ⟨volume', rfl, _⟩ := replied
  exact untouched

theorem fileSize_maintains {other : Text} :
    Maintains (weather.world chunkSize parse sha256) (DownloadWorld.Untouched path before) (fileSize other) := by
  refine Asking.maintains_handle (Asking.maintains_bind (file_maintains trivial) fun size => Asking.maintains_pure _) fun failure => ?_
  split
  · exact Asking.maintains_pure _
  · exact Asking.maintains_throw _

theorem pathExists_maintains {other : Text} :
    Maintains (weather.world chunkSize parse sha256) (DownloadWorld.Untouched path before) (pathExists other) := by
  refine Asking.maintains_handle (Asking.maintains_bind (file_maintains trivial) fun size => Asking.maintains_pure _) fun failure => ?_
  split
  · exact Asking.maintains_pure _
  · exact Asking.maintains_throw _

theorem readSidecar_maintains {other : Text} :
    Maintains (weather.world chunkSize parse sha256) (DownloadWorld.Untouched path before) (readSidecar other) := by
  refine Asking.maintains_bind (Asking.maintains_handle (Asking.maintains_bind (file_maintains trivial)
    fun data => Asking.maintains_pure _) fun failure => ?_) fun raw => Asking.maintains_pure _
  split
  · exact Asking.maintains_pure _
  · exact Asking.maintains_throw _

theorem requireFree_maintains : Maintains (weather.world chunkSize parse sha256) (DownloadWorld.Untouched path before)
    (requireFree localPath force) := by
  cases force with
  | true => exact Asking.maintains_pure _
  | false =>
    refine Asking.maintains_bind pathExists_maintains fun exists_ => ?_
    cases exists_ with
    | true => exact Asking.maintains_throw _
    | false => exact Asking.maintains_pure _

theorem headRemote_maintains : Maintains (weather.world chunkSize parse sha256) (DownloadWorld.Untouched path before)
    (headRemote remotePath) := by
  refine Asking.maintains_bind headFile_maintains fun head => ?_
  split
  · exact Asking.maintains_throw _
  · exact Asking.maintains_pure _

theorem prepare_maintains : Maintains (weather.world chunkSize parse sha256) (DownloadWorld.Untouched localPath before)
    (prepare localPath remote) := by
  refine Asking.maintains_bind readSidecar_maintains fun sidecar => Asking.maintains_bind fileSize_maintains fun partialSize => ?_
  split
  · exact Asking.maintains_pure _
  · refine Asking.maintains_bind (file_maintains (partialPath_ne localPath)) fun _ => ?_
    refine Asking.maintains_bind (file_maintains (sidecarPath_ne localPath)) fun _ => ?_
    refine Asking.maintains_bind (file_maintains (partialPath_ne localPath)) fun _ => ?_
    exact Asking.maintains_bind (file_maintains (sidecarPath_ne localPath)) fun _ => Asking.maintains_pure _

theorem readRest_maintains {offset : Nat} :
    Maintains (weather.world chunkSize parse sha256) (DownloadWorld.Untouched path before) (readRest remotePath offset) := by
  refine Asking.maintains_handle (Asking.maintains_bind readFile_maintains fun response => Asking.maintains_pure _) fun failure => ?_
  split
  · exact Asking.maintains_pure _
  · exact Asking.maintains_throw _

theorem fetchRest_maintains {offset : Nat} : Maintains (weather.world chunkSize parse sha256) (DownloadWorld.Untouched localPath before)
    (fetchRest remotePath localPath remote offset) := by
  unfold fetchRest
  split
  · refine Asking.maintains_bind readRest_maintains fun response => ?_
    split
    · exact Asking.maintains_pure _
    · split
      · exact Asking.maintains_throw _
      · split
        · exact Asking.maintains_pure _
        · exact file_maintains (partialPath_ne localPath)
  · exact Asking.maintains_pure _

/-- The partial file has the bytes behind the checksum, and the local path is as it was. -/
structure DownloadWorld.Verified (localPath : Text) (before : Option Bytes) (state : DownloadWorld) : Prop where
  untouched : state.files localPath = before
  agreed : ∃ data, state.files (partialPath localPath) = some data ∧ state.hashed = some data

/-- The local path has the bytes behind the checksum. -/
def DownloadWorld.Published (localPath : Text) (state : DownloadWorld) : Prop :=
  ∃ data, state.files localPath = some data ∧ state.hashed = some data

theorem ask_readFile : Ensures (weather.world chunkSize parse sha256) (fun (data : Bytes) state' => state' = state ∧ state.files path = some data)
    (fun _ state' => state' = state) (ask (.file (.readFile path))) state := by
  refine Asking.ensures_consult.mpr fun reply state' replied => ?_
  obtain ⟨files', rfl, ⟨rfl, answered⟩ | ⟨_, _, _, failed, rfl⟩⟩ := replied
  · constructor
    · rintro data rfl
      cases found : state.files path with
      | none =>
        rw [found] at answered
        cases answered
      | some stored =>
        rw [found] at answered
        cases answered
        exact ⟨rfl, rfl⟩
    · exact fun _ _ => rfl
  · constructor
    · rintro data rfl
      cases failed
    · exact fun _ _ => rfl

theorem ask_checksum : Ensures (weather.world chunkSize parse sha256)
    (fun (sum : ChecksumResult) state' => state'.files = state.files ∧ ∃ data, state'.hashed = some data ∧ sum.checksum = sha256 data)
    (fun _ state' => state'.files = state.files) (ask (.checksum path)) state := by
  refine Asking.ensures_consult.mpr fun reply state' replied => ?_
  rcases replied with ⟨volume', hashed, rfl, rfl, _⟩ | ⟨volume', failure, rfl, rfl, _⟩
  · constructor
    · rintro sum given
      cases given
      exact ⟨rfl, hashed.bytes, rfl, rfl⟩
    · exact fun _ _ => rfl
  · constructor
    · rintro sum given
      cases given
    · exact fun _ _ => rfl

theorem verify_ensures (injective : Function.Injective sha256) (untouched : state.Untouched localPath before) :
    Ensures (weather.world chunkSize parse sha256) (fun _ state' => state'.Verified localPath before)
      (fun _ state' => state'.files localPath = before) (verify sha256 remotePath localPath remote) state := by
  refine Asking.ensures_bind.mpr ((fileSize_maintains state untouched).mono (fun finalSize sized untouched => ?_) fun _ _ kept => kept.1)
  split
  · exact untouched.1
  refine Asking.ensures_bind.mpr (ask_checksum.mono ?_ fun failure state' same => ?_)
  · rintro sum summed ⟨same, data, hashed, digest⟩
    have kept : summed.files localPath = before := by rw [same, untouched.1]
    split
    · exact kept
    refine Asking.ensures_bind.mpr (ask_readFile.mono ?_ ?_)
    · rintro stored state' ⟨rfl, found⟩
      dsimp only
      by_cases agree : sha256 stored = sum.checksum
      · rw [if_neg (not_not_intro agree)]
        rw [digest] at agree
        exact ⟨kept, data, by rw [found, injective agree], hashed⟩
      · rw [if_pos agree]
        exact kept
    · rintro failure state' rfl
      exact kept
  · rw [same, untouched.1]

/-- The rename gives the local path what was verified. -/
theorem ask_rename {data : Bytes} (found : state.files (partialPath localPath) = some data) :
    Ensures (weather.world chunkSize parse sha256)
      (fun (_ : Unit) state' => state' = { state with
        files := Function.update (Function.update state.files (partialPath localPath) none) localPath (some data) })
      (fun _ state' => state' = state) (ask (.file (.rename (partialPath localPath) localPath))) state := by
  refine Asking.ensures_consult.mpr fun reply state' replied => ?_
  obtain ⟨files', rfl, (⟨none, _⟩ | ⟨moved, source, rfl, rfl⟩) | ⟨_, _, _, rfl, rfl⟩⟩ := replied
  · rw [found] at none
    cases none
  · rw [found, Option.some.injEq] at source
    rw [source]
    exact ⟨fun _ _ => rfl, fun failure given => (by cases given)⟩
  · exact ⟨fun _ given => (by cases given), fun _ _ => rfl⟩

theorem ask_rm : Ensures (weather.world chunkSize parse sha256)
    (fun (_ : Unit) state' => state' = { state with files := Function.update state.files path none })
    (fun failure state' => state' = state ∧ ∃ code, failure = .io code (.rm path)) (ask (.file (.rm path))) state := by
  refine Asking.ensures_consult.mpr fun reply state' replied => ?_
  obtain ⟨files', rfl, ⟨rfl, rfl⟩ | ⟨_, code, _, rfl, rfl⟩⟩ := replied
  · exact ⟨fun _ _ => rfl, fun failure given => (by cases given)⟩
  · refine ⟨fun _ given => (by cases given), fun failure given => ?_⟩
    cases given
    exact ⟨rfl, code, rfl⟩

theorem publish_ensures (verified : state.Verified localPath before) :
    Ensures (weather.world chunkSize parse sha256) (fun _ state' => state'.Published localPath)
      (fun failure state' => state'.files localPath = before ∨
        (∃ code, failure = .io code (.rm (sidecarPath localPath))) ∧ state'.Published localPath) (publish localPath) state := by
  obtain ⟨data, found, hashed⟩ := verified.agreed
  refine Asking.ensures_bind.mpr ((ask_rename found).mono ?_ ?_)
  · rintro _ renamed rfl
    refine ask_rm.mono ?_ ?_
    · rintro _ removed rfl
      refine ⟨data, ?_, hashed⟩
      dsimp only
      rw [Function.update_of_ne (sidecarPath_ne localPath), Function.update_self]
    · rintro failure state' ⟨rfl, code, rfl⟩
      refine .inr ⟨⟨code, rfl⟩, data, ?_, hashed⟩
      dsimp only
      rw [Function.update_self]
  · rintro failure state' rfl
    exact .inl verified.untouched

/-- What any attempt leaves at the local path. -/
theorem resumableDownload_ensures (injective : Function.Injective sha256) (untouched : state.Untouched localPath before) :
    Ensures (weather.world chunkSize parse sha256) (fun _ state' => state'.Published localPath)
      (fun failure state' => state'.files localPath = before ∨
        (∃ code, failure = .io code (.rm (sidecarPath localPath))) ∧ state'.Published localPath)
      (resumableDownload sha256 remotePath localPath force) state := by
  refine Asking.ensures_bind.mpr ((requireFree_maintains state untouched).mono ?_ fun _ _ kept => .inl kept.1)
  intro _ state untouched
  refine Asking.ensures_bind.mpr ((headRemote_maintains state untouched).mono ?_ fun _ _ kept => .inl kept.1)
  intro remote state untouched
  refine Asking.ensures_bind.mpr ((prepare_maintains state untouched).mono ?_ fun _ _ kept => .inl kept.1)
  intro offset state untouched
  refine Asking.ensures_bind.mpr ((fetchRest_maintains state untouched).mono ?_ fun _ _ kept => .inl kept.1)
  intro _ state untouched
  refine Asking.ensures_bind.mpr ((verify_ensures injective untouched).mono ?_ fun _ _ => .inl)
  intro remoteSum state verified
  exact Asking.ensures_bind.mpr ((publish_ensures verified).mono (fun _ _ published => published) fun _ _ => id)

end Weathered

/-! ## Calm weather -/

section Calm
variable {row : InodeRow} {content data kept : Bytes}

theorem calm_serves : Weather.calm.serves chunkSize = Asking.still (Sites.answer chunkSize) := by
  funext question volume given volume'
  refine propext (and_congr_right fun same => ?_)
  rw [same]

theorem calm_stat : Ensures (Weather.calm.world chunkSize parse sha256)
    (fun (size : Nat) state' => state' = state ∧ (state.files path).map List.length = some size)
    (fun failure state' => state' = state ∧ state.files path = none ∧ missing failure = true) (ask (.file (.stat path))) state := by
  refine Asking.ensures_consult.mpr fun reply state' replied => ?_
  obtain ⟨files', rfl, ⟨rfl, rfl⟩ | ⟨faulty, _⟩⟩ := replied
  · cases found : state.files path with
    | none => exact ⟨fun _ given => (by cases given), fun failure given => by cases given; exact ⟨rfl, rfl, rfl⟩⟩
    | some data => exact ⟨fun size given => by cases given; exact ⟨rfl, rfl⟩, fun _ given => (by cases given)⟩
  · exact faulty.elim

theorem calm_readFile : Ensures (Weather.calm.world chunkSize parse sha256)
    (fun (data : Bytes) state' => state' = state ∧ state.files path = some data)
    (fun failure state' => state' = state ∧ state.files path = none ∧ missing failure = true) (ask (.file (.readFile path))) state := by
  refine Asking.ensures_consult.mpr fun reply state' replied => ?_
  obtain ⟨files', rfl, ⟨rfl, rfl⟩ | ⟨faulty, _⟩⟩ := replied
  · cases found : state.files path with
    | none => exact ⟨fun _ given => (by cases given), fun failure given => by cases given; exact ⟨rfl, rfl, rfl⟩⟩
    | some data => exact ⟨fun size given => by cases given; exact ⟨rfl, rfl⟩, fun _ given => (by cases given)⟩
  · exact faulty.elim

theorem calm_rm : Ensures (Weather.calm.world chunkSize parse sha256)
    (fun (_ : Unit) state' => state' = { state with files := Function.update state.files path none }) (fun _ _ => False)
    (ask (.file (.rm path))) state := by
  refine Asking.ensures_consult.mpr fun reply state' replied => ?_
  obtain ⟨files', rfl, ⟨rfl, rfl⟩ | ⟨faulty, _⟩⟩ := replied
  · exact ⟨fun _ _ => rfl, fun _ given => (by cases given)⟩
  · exact faulty.elim

theorem calm_writeFile : Ensures (Weather.calm.world chunkSize parse sha256)
    (fun (_ : Unit) state' => state' = { state with files := Function.update state.files path (some data) }) (fun _ _ => False)
    (ask (.file (.writeFile path data))) state := by
  refine Asking.ensures_consult.mpr fun reply state' replied => ?_
  obtain ⟨files', rfl, ⟨rfl, rfl⟩ | ⟨faulty, _⟩⟩ := replied
  · exact ⟨fun _ _ => rfl, fun _ given => (by cases given)⟩
  · exact faulty.elim

theorem calm_append (found : state.files path = some kept) : Ensures (Weather.calm.world chunkSize parse sha256)
    (fun (_ : Unit) state' => state' = { state with files := Function.update state.files path (some (kept ++ data)) })
    (fun _ _ => False) (ask (.file (.append path ⟨data, none⟩))) state := by
  refine Asking.ensures_consult.mpr fun reply state' replied => ?_
  obtain ⟨files', rfl, ⟨count, rfl, ⟨_, enough, rfl⟩ | ⟨broken, _⟩⟩ | ⟨faulty, _⟩⟩ := replied
  · rw [found, Option.getD_some, List.take_of_length_le enough]
    exact ⟨fun _ _ => rfl, fun _ given => (by cases given)⟩
  · exact absurd rfl broken
  · exact faulty.elim

theorem calm_fileSize : Ensures (Weather.calm.world chunkSize parse sha256)
    (fun size state' => state' = state ∧ size = (state.files path).map List.length) (fun _ _ => False) (fileSize path) state := by
  refine Asking.ensures_handle.mpr (Asking.ensures_bind.mpr (calm_stat.mono ?_ ?_))
  · rintro size state' ⟨rfl, found⟩
    exact ⟨rfl, found.symm⟩
  · rintro failure state' ⟨rfl, none, absent⟩
    rw [if_pos absent]
    exact ⟨rfl, by rw [none]; rfl⟩

theorem calm_pathExists : Ensures (Weather.calm.world chunkSize parse sha256)
    (fun exists_ state' => state' = state ∧ exists_ = (state.files path).isSome) (fun _ _ => False) (pathExists path) state := by
  refine Asking.ensures_handle.mpr (Asking.ensures_bind.mpr (calm_stat.mono ?_ ?_))
  · rintro size state' ⟨rfl, found⟩
    refine ⟨rfl, ?_⟩
    cases stored : state'.files path with
    | none =>
      rw [stored] at found
      cases found
    | some data => rfl
  · rintro failure state' ⟨rfl, none, absent⟩
    rw [if_pos absent]
    exact ⟨rfl, by rw [none]; rfl⟩

/-- The sidecar as a file has it. -/
def storedSidecar (files : Text → Option Bytes) (localPath : Text) : Option Sidecar :=
  (files (sidecarPath localPath)).bind fun data => Sidecar.parse (Utf8.decodeFrom none data)

theorem calm_readSidecar : Ensures (Weather.calm.world chunkSize parse sha256)
    (fun sidecar state' => state' = state ∧ sidecar = storedSidecar state.files localPath) (fun _ _ => False)
    (readSidecar (sidecarPath localPath)) state := by
  refine Asking.ensures_bind.mpr (Asking.ensures_handle.mpr (Asking.ensures_bind.mpr (calm_readFile.mono ?_ ?_)))
  · rintro data state' ⟨rfl, found⟩
    exact ⟨rfl, by rw [storedSidecar, found]⟩
  · rintro failure state' ⟨rfl, none, absent⟩
    rw [if_pos absent]
    exact ⟨rfl, by rw [storedSidecar, none]⟩

/-- No file is in the way, or it may be overwritten. -/
def Free (force : Bool) (localPath : Text) (files : Text → Option Bytes) : Prop := force = true ∨ files localPath = none

theorem calm_requireFree : Ensures (Weather.calm.world chunkSize parse sha256)
    (fun _ state' => state' = state ∧ Free force localPath state.files)
    (fun _ state' => state' = state ∧ ¬Free force localPath state.files) (requireFree localPath force) state := by
  cases force with
  | true => exact ⟨rfl, .inl rfl⟩
  | false =>
    refine Asking.ensures_bind.mpr (calm_pathExists.mono ?_ fun _ _ => False.elim)
    rintro exists_ state' ⟨rfl, found⟩
    cases stored : state'.files localPath with
    | none =>
      rw [stored] at found
      subst found
      exact ⟨rfl, .inr stored⟩
    | some data =>
      rw [stored] at found
      subst found
      exact ⟨rfl, by simp [Free, stored]⟩

/-- What the partial file holds when the download goes on. -/
def continued (files : Text → Option Bytes) (localPath : Text) (remote : Remote) : Bytes :=
  match matching remote (storedSidecar files localPath) ((files (partialPath localPath)).map List.length) with
  | some _ => (files (partialPath localPath)).getD []
  | none => []

theorem matching_eq_some {sidecar : Option Sidecar} {stored : Option Bytes} {offset : Nat}
    (agreed : matching remote sidecar (stored.map List.length) = some offset) : ∃ data, stored = some data ∧
      sidecar = some ⟨remote.inode, some remote.size⟩ ∧ data.length = offset := by
  cases sidecar with
  | none => cases agreed
  | some sidecar =>
    cases stored with
    | none => cases agreed
    | some data =>
      unfold matching at agreed
      dsimp only [Option.map_some] at agreed
      split at agreed
      · rename_i same
        refine ⟨data, rfl, ?_, Option.some.inj agreed⟩
        rw [← same.1, ← same.2.1]
      · cases agreed

theorem matching_of_sidecar {sidecar : Option Sidecar} {data : Bytes} (same : sidecar = some ⟨remote.inode, some remote.size⟩)
    (short : data.length ≤ remote.size) : matching remote sidecar (some data.length) = some data.length := by
  rw [same, matching]
  exact if_pos ⟨rfl, rfl, short⟩

theorem continued_le (files : Text → Option Bytes) : (continued files localPath remote).length ≤ remote.size := by
  unfold continued
  cases agreed : matching remote (storedSidecar files localPath) ((files (partialPath localPath)).map List.length) with
  | none => exact Nat.zero_le _
  | some offset =>
    obtain ⟨data, stored, sidecar, rfl⟩ := matching_eq_some agreed
    rw [stored, Option.map_some, sidecar] at agreed
    rw [stored]
    unfold matching at agreed
    dsimp only at agreed
    split at agreed
    · rename_i same
      exact same.2.2
    · cases agreed

/-- A sidecar that was written reads back. -/
theorem parse_sidecarText {inode : Text} {size : Nat} (safe : isSafeInteger size = true) :
    Sidecar.parse (Utf8.decodeFrom none (Utf8.encode (sidecarText inode size))) = some ⟨inode, some size⟩ := by
  have small : size < 2 ^ 53 := by
    have bound : (size : Int) ≤ maxSafeInteger := (of_decide_eq_true safe).2
    rw [maxSafeInteger] at bound
    omega
  have members : ∀ entry ∈ [("inode".toList, Json.Scalar.string inode), ("size".toList, .natural size)], ∀ n,
      entry.2 = .natural n → n < 2 ^ 53 := by
    intro entry member n number
    rcases List.mem_pair.mp member with rfl | rfl
    · cases number
    · cases number
      exact small
  rw [Utf8.decodeFrom_encode, Sidecar.parse, sidecarText, Json.parse_stringify (by simp) members]
  rfl

/-- The local path is as it was, the partial file holds the data, and the sidecar speaks of the remote file. -/
structure Holding (before state : DownloadWorld) (localPath : Text) (remote : Remote) (data : Bytes) : Prop where
  volume : state.volume = before.volume
  untouched : state.files localPath = before.files localPath
  partialFile : state.files (partialPath localPath) = some data
  sidecar : storedSidecar state.files localPath = some ⟨remote.inode, some remote.size⟩

theorem calm_prepare (safe : isSafeInteger remote.size = true) : Ensures (Weather.calm.world chunkSize parse sha256)
    (fun offset state' => Holding state state' localPath remote (continued state.files localPath remote) ∧
      offset = (continued state.files localPath remote).length)
    (fun _ _ => False) (prepare localPath remote) state := by
  refine Asking.ensures_bind.mpr (calm_readSidecar.mono ?_ fun _ _ => False.elim)
  rintro sidecar _ ⟨rfl, rfl⟩
  refine Asking.ensures_bind.mpr (calm_fileSize.mono ?_ fun _ _ => False.elim)
  rintro partialSize state ⟨rfl, rfl⟩
  cases agreed : matching remote (storedSidecar state.files localPath) ((state.files (partialPath localPath)).map List.length) with
  | some offset =>
    obtain ⟨data, stored, sidecar, rfl⟩ := matching_eq_some agreed
    have kept : continued state.files localPath remote = data := by
      rw [continued, agreed, stored]
      rfl
    rw [kept]
    exact ⟨⟨rfl, rfl, stored, sidecar⟩, rfl⟩
  | none =>
    refine Asking.ensures_bind.mpr (calm_rm.mono ?_ fun _ _ => False.elim)
    rintro _ _ rfl
    refine Asking.ensures_bind.mpr (calm_rm.mono ?_ fun _ _ => False.elim)
    rintro _ _ rfl
    refine Asking.ensures_bind.mpr (calm_writeFile.mono ?_ fun _ _ => False.elim)
    rintro _ _ rfl
    refine Asking.ensures_bind.mpr (calm_writeFile.mono ?_ fun _ _ => False.elim)
    rintro _ _ rfl
    have kept : continued state.files localPath remote = [] := by
      rw [continued, agreed]
    rw [kept]
    refine ⟨⟨rfl, ?_, ?_, ?_⟩, rfl⟩
    · simp [Function.update_of_ne, partialPath_ne, sidecarPath_ne]
    · simp [Function.update_of_ne, partialPath_ne_sidecarPath]
    · simp only [storedSidecar, Function.update_self, Option.bind_some]
      exact parse_sidecarText safe

/-- A request that the server answers as the volume stands. -/
theorem calm_responds {request : Request} {volume volume' : Volume} {reply : Except TransferFailure Response} {response : Response}
    (ran : (fileResponse parse path request).run (Sites.answer chunkSize volume) = .ok response)
    (success : 200 ≤ response.status ∧ response.status ≤ 299)
    (responds : Weather.calm.Responds chunkSize parse path request volume reply volume') :
    volume' = volume ∧ reply = .ok response := by
  have returns : ∀ {other}, Plays (Weather.calm.serves chunkSize) (fileResponse parse path request) volume (.returned other) volume' →
      volume' = volume ∧ other = response := by
    intro other plays
    rw [calm_serves, Asking.still_returned, ran, Except.ok.injEq] at plays
    exact ⟨plays.1, plays.2.symm⟩
  cases reply with
  | ok given =>
    obtain ⟨other, plays, _, _, rfl | ⟨faulty, _⟩⟩ := responds
    · obtain ⟨same, rfl⟩ := returns plays
      exact ⟨same, rfl⟩
    · exact faulty.elim
  | error failure =>
    rcases responds with (⟨cause, plays, _⟩ | ⟨faulty, _⟩) | ⟨other, plays, refused, _⟩
    · rw [calm_serves, Asking.still_thrown, ran] at plays
      cases plays.2
    · exact faulty.elim
    · obtain ⟨_, rfl⟩ := returns plays
      exact absurd success refused

theorem remoteSize_integerText {size : Nat} (safe : isSafeInteger size = true) :
    remoteSize (some (integerText 10 size)) = some size := by
  have spelled : integerText 10 (size : Int) = Nat.toDigits 10 size := by
    rw [integerText, if_neg (by omega), List.nil_append, Int.natAbs_natCast]
  rw [remoteSize, Option.getD_some, spelled, digitsValue_toDigits]
  exact if_pos ⟨digits_toDigits size, safe⟩

section Remote
variable (file : state.volume.FileAt chunkSize remotePath row content)
include file

theorem calm_headRemote (safe : isSafeInteger content.length = true) : Ensures (Weather.calm.world chunkSize parse sha256)
    (fun remote state' => state' = state ∧ remote = ⟨content.length, integerText 10 row.ino⟩) (fun _ _ => False)
    (headRemote remotePath) state := by
  obtain ⟨response, served, status, length, inode⟩ := file.head parse remotePath
  refine Asking.ensures_bind.mpr (Asking.ensures_consult.mpr fun reply state' replied => ?_)
  obtain ⟨volume', rfl, responds⟩ := replied
  obtain ⟨rfl, rfl⟩ := calm_responds served (by omega) responds
  refine ⟨fun head given => ?_, fun _ given => (by cases given)⟩
  cases given
  rw [length, remoteSize_integerText safe]
  exact ⟨rfl, by rw [inodeHeader, inode]; rfl⟩

theorem calm_readRest (positive : 0 < chunkSize) (safe : isSafeInteger content.length = true) {offset : Nat}
    (inside : offset < content.length) : Ensures (Weather.calm.world chunkSize parse sha256)
    (fun response state' => state' = state ∧ ∃ given : Response, response = some given ∧
      inodeHeader given = integerText 10 row.ino ∧ given.body = some ⟨content.drop offset, none⟩) (fun _ _ => False)
    (readRest remotePath offset) state := by
  obtain ⟨response, served, status, inode, body⟩ := file.rest parse remotePath positive inside safe
  refine Asking.ensures_handle.mpr (Asking.ensures_bind.mpr (Asking.ensures_consult.mpr fun reply state' replied => ?_))
  obtain ⟨volume', rfl, responds⟩ := replied
  obtain ⟨rfl, rfl⟩ := calm_responds served (by omega) responds
  refine ⟨fun given replied => ?_, fun _ given => (by cases given)⟩
  cases replied
  exact ⟨rfl, response, rfl, by rw [inodeHeader, inode]; rfl, body⟩

theorem calm_checksum (positive : 0 < chunkSize) : Ensures (Weather.calm.world chunkSize parse sha256)
    (fun (sum : ChecksumResult) state' => state' = { state with hashed := some content } ∧ sum.ino = row.ino ∧
      sum.checksum = sha256 content) (fun _ _ => False) (ask (.checksum remotePath)) state := by
  refine Asking.ensures_consult.mpr fun reply state' replied => ?_
  have ran := file.sha256Path positive
  rcases replied with ⟨volume', hashed, rfl, rfl, plays⟩ | ⟨volume', failure, rfl, rfl, ⟨cause, plays, _⟩ | ⟨faulty, _⟩⟩
  · rw [calm_serves, Asking.still_returned] at plays
    obtain ⟨rfl, ran'⟩ := plays
    rw [ran] at ran'
    cases ran'
    exact ⟨fun sum given => by cases given; exact ⟨rfl, rfl, rfl⟩, fun _ given => (by cases given)⟩
  · rw [calm_serves, Asking.still_thrown, ran] at plays
    cases plays.2
  · exact faulty.elim

theorem calm_fetchRest (positive : 0 < chunkSize) (safe : isSafeInteger content.length = true) {before : DownloadWorld}
    (holding : Holding before state localPath ⟨content.length, integerText 10 row.ino⟩ kept) (short : kept.length ≤ content.length) :
    Ensures (Weather.calm.world chunkSize parse sha256)
      (fun _ state' => Holding before state' localPath ⟨content.length, integerText 10 row.ino⟩ (kept ++ content.drop kept.length)) (fun _ _ => False)
      (fetchRest remotePath localPath ⟨content.length, integerText 10 row.ino⟩ kept.length) state := by
  unfold fetchRest
  dsimp only
  split
  · rename_i inside
    refine Asking.ensures_bind.mpr ((calm_readRest file positive safe inside).mono ?_ fun _ _ => False.elim)
    rintro _ _ ⟨rfl, response, rfl, inode, body⟩
    dsimp only
    rw [inode, if_neg (not_not_intro rfl), body]
    refine (calm_append holding.partialFile).mono ?_ fun _ _ => id
    rintro _ _ rfl
    refine ⟨holding.volume, ?_, Function.update_self .., ?_⟩
    · dsimp only
      rw [Function.update_of_ne (partialPath_ne localPath), holding.untouched]
    · dsimp only
      rw [storedSidecar, Function.update_of_ne (partialPath_ne_sidecarPath localPath).symm]
      exact holding.sidecar
  · rename_i beyond
    rw [List.drop_eq_nil_of_le (by omega), List.append_nil]
    exact holding

theorem calm_verify (injective : Function.Injective sha256) (positive : 0 < chunkSize)
    (found : state.files (partialPath localPath) = some data) (length : data.length = content.length) :
    Ensures (Weather.calm.world chunkSize parse sha256)
      (fun sum state' => data = content ∧ sum.checksum = sha256 content ∧ state' = { state with hashed := some content })
      (fun _ state' => data ≠ content ∧ state' = { state with hashed := some content })
      (verify sha256 remotePath localPath ⟨content.length, integerText 10 row.ino⟩) state := by
  refine Asking.ensures_bind.mpr (calm_fileSize.mono ?_ fun _ _ => False.elim)
  rintro _ _ ⟨rfl, rfl⟩
  rw [found, Option.map_some, length, if_neg (not_not_intro rfl)]
  refine Asking.ensures_bind.mpr ((calm_checksum file positive).mono ?_ fun _ _ => False.elim)
  rintro sum _ ⟨rfl, inode, digest⟩
  rw [inode, if_neg (not_not_intro rfl)]
  refine Asking.ensures_bind.mpr (calm_readFile.mono ?_ ?_)
  · rintro stored _ ⟨rfl, stored'⟩
    have same : stored = data := by
      rw [found, Option.some.injEq] at stored'
      exact stored'.symm
    rw [same, digest]
    dsimp only
    by_cases agree : data = content
    · rw [if_neg (not_not_intro (congrArg sha256 agree))]
      exact ⟨agree, digest, rfl⟩
    · rw [if_pos fun equal => agree (injective equal)]
      exact ⟨agree, rfl⟩
  · rintro failure _ ⟨rfl, none, _⟩
    rw [found] at none
    cases none

end Remote

theorem calm_publish (found : state.files (partialPath localPath) = some data) : Ensures (Weather.calm.world chunkSize parse sha256)
    (fun _ state' => state'.files localPath = some data) (fun _ _ => False) (publish localPath) state := by
  refine Asking.ensures_bind.mpr (Asking.ensures_consult.mpr fun reply state' replied => ?_)
  obtain ⟨files', rfl, (⟨none, _⟩ | ⟨moved, source, rfl, rfl⟩) | ⟨faulty, _⟩⟩ := replied
  · rw [found] at none
    cases none
  · rw [found, Option.some.injEq] at source
    refine ⟨fun _ _ => calm_rm.mono ?_ fun _ _ => id, fun failure given => (by cases given)⟩
    rintro _ _ rfl
    dsimp only
    rw [Function.update_of_ne (sidecarPath_ne localPath), Function.update_self, source]
  · exact faulty.elim

/-- The condition under which a calm attempt resolves. -/
structure Resumable (force : Bool) (localPath : Text) (row : InodeRow) (content : Bytes) (files : Text → Option Bytes) : Prop where
  free : Free force localPath files
  beginning : continued files localPath ⟨content.length, integerText 10 row.ino⟩ <+: content

theorem resumableDownload_calm (injective : Function.Injective sha256) (positive : 0 < chunkSize)
    (file : state.volume.FileAt chunkSize remotePath row content) (safe : isSafeInteger content.length = true) :
    Ensures (Weather.calm.world chunkSize parse sha256)
      (fun result state' => Resumable force localPath row content state.files ∧ state'.files localPath = some content ∧
        result.checksum = sha256 content)
      (fun _ state' => ¬Resumable force localPath row content state.files ∧ state'.files localPath = state.files localPath ∧
        (Free force localPath state.files → ∃ data, data.length = content.length ∧ data ≠ content ∧
          state'.files (partialPath localPath) = some data ∧
          storedSidecar state'.files localPath = some ⟨integerText 10 row.ino, some content.length⟩))
      (resumableDownload sha256 remotePath localPath force) state := by
  have short : (continued state.files localPath ⟨content.length, integerText 10 row.ino⟩).length ≤ content.length :=
    continued_le state.files
  have whole : ∀ kept : Bytes, kept ++ content.drop kept.length = content ↔ kept <+: content := by
    intro kept
    constructor
    · exact fun equal => ⟨_, equal⟩
    · rintro ⟨rest, rfl⟩
      rw [List.drop_left]
  have filled : ∀ {kept : Bytes}, kept.length ≤ content.length → (kept ++ content.drop kept.length).length = content.length := by
    intro kept short
    rw [List.length_append, List.length_drop]
    omega
  refine Asking.ensures_bind.mpr (calm_requireFree.mono ?_ ?_)
  · rintro _ _ ⟨rfl, free⟩
    refine Asking.ensures_bind.mpr ((calm_headRemote file safe).mono ?_ fun _ _ => False.elim)
    rintro _ _ ⟨rfl, rfl⟩
    refine Asking.ensures_bind.mpr ((calm_prepare safe).mono ?_ fun _ _ => False.elim)
    rintro _ prepared ⟨holding, rfl⟩
    refine Asking.ensures_bind.mpr ((calm_fetchRest (by rwa [holding.volume]) positive safe holding short).mono ?_
      fun _ _ => False.elim)
    intro _ fetched holding
    refine Asking.ensures_bind.mpr ((calm_verify (by rwa [holding.volume]) injective positive holding.partialFile
      (filled short)).mono ?_ ?_)
    · rintro sum _ ⟨equal, digest, rfl⟩
      have held : DownloadWorld.files { fetched with hashed := some content } (partialPath localPath) = some _ := holding.partialFile
      refine Asking.ensures_bind.mpr ((calm_publish held).mono ?_ fun _ _ => False.elim)
      intro _ state' published
      exact ⟨⟨free, (whole _).mp equal⟩, by rw [published, equal], digest⟩
    · rintro failure _ ⟨different, rfl⟩
      exact ⟨fun resumable => different ((whole _).mpr resumable.beginning), holding.untouched,
        fun _ => ⟨_, filled short, different, holding.partialFile, holding.sidecar⟩⟩
  · rintro failure _ ⟨rfl, taken⟩
    exact ⟨fun resumable => taken resumable.free, rfl, fun free => absurd free taken⟩

/-- A partial file of the remote file's length and with other contents stays in the way. -/
theorem not_resumable_of_kept {files : Text → Option Bytes} (length : data.length = content.length) (different : data ≠ content)
    (found : files (partialPath localPath) = some data)
    (sidecar : storedSidecar files localPath = some ⟨integerText 10 row.ino, some content.length⟩) :
    ¬Resumable force localPath row content files := by
  intro resumable
  have again : continued files localPath ⟨content.length, integerText 10 row.ino⟩ = data := by
    rw [continued, found, Option.map_some,
      @matching_of_sidecar ⟨content.length, integerText 10 row.ino⟩ _ _ sidecar (Nat.le_of_eq length)]
    rfl
  have beginning := resumable.beginning
  rw [again] at beginning
  exact different (beginning.eq_of_length length)

theorem calm_responsive : Asking.Responsive (Weather.calm.world chunkSize parse sha256) := by
  have serves : Asking.Responsive (Weather.calm.serves chunkSize) :=
    fun question volume => ⟨Sites.answer chunkSize volume question, volume, rfl, rfl⟩
  have responds : ∀ path request volume, ∃ reply volume', Weather.calm.Responds chunkSize parse path request volume reply volume' := by
    intro path request volume
    rcases Asking.exists_plays serves (fileResponse parse path request) volume with ⟨response, volume', plays⟩ | ⟨cause, volume', plays⟩
    · by_cases success : 200 ≤ response.status ∧ response.status ≤ 299
      · exact ⟨.ok response, volume', response, plays, success.1, success.2, .inl rfl⟩
      · exact ⟨.error _, volume', .inr ⟨response, plays, success, rfl⟩⟩
    · exact ⟨.error _, volume', .inl (.inl ⟨cause, plays, rfl⟩)⟩
  intro call state
  cases call with
  | file call =>
    cases call with
    | stat path => exact ⟨_, _, state.files, rfl, .inl ⟨rfl, rfl⟩⟩
    | readFile path => exact ⟨_, _, state.files, rfl, .inl ⟨rfl, rfl⟩⟩
    | rm path => exact ⟨_, _, _, rfl, .inl ⟨rfl, rfl⟩⟩
    | writeFile path data => exact ⟨_, _, _, rfl, .inl ⟨rfl, rfl⟩⟩
    | append path stream =>
      by_cases whole : stream.failure = none
      · exact ⟨_, _, _, rfl, .inl ⟨stream.bytes.length, rfl, .inl ⟨whole, le_refl _, rfl⟩⟩⟩
      · exact ⟨_, _, _, rfl, .inl ⟨0, rfl, .inr ⟨whole, rfl⟩⟩⟩
    | rename source target =>
      cases found : state.files source with
      | none => exact ⟨_, _, state.files, rfl, .inl (.inl ⟨found, rfl, rfl⟩)⟩
      | some data => exact ⟨_, _, _, rfl, .inl (.inr ⟨data, found, rfl, rfl⟩)⟩
  | headFile path =>
    obtain ⟨reply, volume', replied⟩ := responds path (headRequest path) state.volume
    exact ⟨reply, _, volume', rfl, replied⟩
  | readFile path range =>
    obtain ⟨reply, volume', replied⟩ := responds path (rangeRequest path range) state.volume
    exact ⟨reply, _, volume', rfl, replied⟩
  | checksum path =>
    rcases Asking.exists_plays serves (sha256Path path) state.volume with ⟨hashed, volume', plays⟩ | ⟨cause, volume', plays⟩
    · exact ⟨_, _, .inl ⟨volume', hashed, rfl, rfl, plays⟩⟩
    · exact ⟨_, _, .inr ⟨volume', _, rfl, rfl, .inl ⟨cause, plays, rfl⟩⟩⟩

end Calm

/-! ## Attempts -/

section Attempts
variable (chunkSize parse sha256 weather remotePath localPath force state)

/-- Where nothing stops it, the attempt resolves. -/
def Weather.Resolves : Prop :=
  (∃ result state', weather.Attempts chunkSize parse sha256 remotePath localPath force state (.returned result) state') ∧
    ∀ failure state', ¬weather.Attempts chunkSize parse sha256 remotePath localPath force state (.thrown failure) state'

/-- Where nothing stops it, the attempt rejects. -/
def Weather.Rejects : Prop :=
  (∃ failure state', weather.Attempts chunkSize parse sha256 remotePath localPath force state (.thrown failure) state') ∧
    ∀ result state', ¬weather.Attempts chunkSize parse sha256 remotePath localPath force state (.returned result) state'

end Attempts

/-- Attempts that resolve publish what was hashed, attempts that reject leave the local path alone
unless it was the sidecar that could not be removed, and in calm weather an attempt resolves where
the partial file it goes on with is a beginning of the remote file. -/
theorem resumableDownload_converges (injective : Function.Injective sha256) (positive : 0 < chunkSize) :
    (∀ weather state result state', Weather.Attempts chunkSize parse sha256 weather remotePath localPath force state
      (.returned result) state' → state'.Published localPath) ∧
    (∀ weather state failure state', Weather.Attempts chunkSize parse sha256 weather remotePath localPath force state
      (.thrown failure) state' → state'.files localPath = state.files localPath ∨
        (∃ code, failure = .io code (.rm (sidecarPath localPath))) ∧ state'.Published localPath) ∧
    ∀ (state : DownloadWorld) row content, state.volume.FileAt chunkSize remotePath row content → isSafeInteger content.length = true →
      (Resumable force localPath row content state.files →
        Weather.calm.Resolves chunkSize parse sha256 remotePath localPath force state) ∧
      (¬Resumable force localPath row content state.files →
        Weather.calm.Rejects chunkSize parse sha256 remotePath localPath force state ∧
        ∀ failure state', Weather.calm.Attempts chunkSize parse sha256 remotePath localPath force state (.thrown failure) state' →
          ¬Resumable force localPath row content state'.files) := by
  refine ⟨fun weather state result state' plays => ?_, fun weather state failure state' plays => ?_, fun state row content file safe => ?_⟩
  · have untouched : DownloadWorld.Untouched localPath (state.files localPath) { state with hashed := none } := ⟨rfl, rfl⟩
    exact (resumableDownload_ensures injective untouched).of_returned plays
  · have untouched : DownloadWorld.Untouched localPath (state.files localPath) { state with hashed := none } := ⟨rfl, rfl⟩
    exact (resumableDownload_ensures injective untouched).of_thrown plays
  · have calm := @resumableDownload_calm chunkSize parse sha256 remotePath localPath force { state with hashed := none } row content
      injective positive file safe
    have ends := Asking.exists_plays (@calm_responsive chunkSize parse sha256)
      (resumableDownload sha256 remotePath localPath force) { state with hashed := none }
    constructor
    · intro resumable
      refine ⟨?_, fun failure state' plays => (calm.of_thrown plays).1 resumable⟩
      rcases ends with returns | ⟨failure, state', plays⟩
      · exact returns
      · exact absurd resumable (calm.of_thrown plays).1
    · intro stale
      refine ⟨⟨?_, fun result state' plays => stale (calm.of_returned plays).1⟩, fun failure state' plays => ?_⟩
      · rcases ends with ⟨result, state', plays⟩ | throws
        · exact absurd (calm.of_returned plays).1 stale
        · exact throws
      · obtain ⟨_, untouched, kept⟩ := calm.of_thrown plays
        by_cases free : Free force localPath state.files
        · obtain ⟨data, length, different, found, sidecar⟩ := kept free
          exact not_resumable_of_kept length different found sidecar
        · intro resumable
          have free' := resumable.free
          rw [Free, untouched] at free'
          exact free free'

/-! ## A remote file of one byte -/

def remoteSample (byte : UInt8) : Volume :=
  { Volume.fresh 0 with
    inode := ⟨[InodeRow.root 0, { InodeRow.create DEFAULT_FILE_MODE 0 0 0 with ino := 2, nlink := 1, size := 1 }], by decide⟩
    dentry := ⟨[⟨"f".toList, 1, 2⟩], by decide⟩
    data := ⟨[⟨2, 0, [byte]⟩], by simp⟩
    inodeSequence := 2 }

def remoteRow : InodeRow := { InodeRow.create DEFAULT_FILE_MODE 0 0 0 with ino := 2, nlink := 1, size := 1 }

theorem remoteSample_file (byte : UInt8) : (remoteSample byte).FileAt 4 "/f".toList remoteRow [byte] where
  reached := by rfl
  stored := by rfl
  regular := by decide
  size := rfl
  laidOut := by
    funext index
    cases index with
    | zero => rfl
    | succ index =>
      have beyond : ¬(index + 1) * 4 < [byte].length := by
        rw [List.length_singleton]
        omega
      rw [layout, if_neg beyond]
      rfl

/-- The bytes themselves as their digest. -/
def spell (bytes : Bytes) : Text := bytes.map fun byte => Char.ofNat byte.toNat

theorem spell_injective : Function.Injective spell := by
  refine List.map_injective_iff.mpr fun first second same => ?_
  have read : ∀ code < 256, (Char.ofNat code).toNat = code := by decide +kernel
  have codes := congrArg Char.toNat same
  rw [read _ first.toNat_lt, read _ second.toNat_lt] at codes
  exact UInt8.toNat_inj.mp codes

def sampleWorld (byte : UInt8) : DownloadWorld := ⟨remoteSample byte, fun _ => none, none⟩

theorem resumableDownload_converges_sample :
    Weather.calm.Resolves 4 (fun _ => none) spell "/f".toList "out".toList false (sampleWorld 7) := by
  have converges := @resumableDownload_converges 4 (fun _ => none) spell "/f".toList "out".toList false spell_injective (by decide)
  refine (converges.2.2 (sampleWorld 7) remoteRow [7] (remoteSample_file 7) (by decide)).1 ⟨.inr rfl, ?_⟩
  exact List.nil_prefix

/-! ## Partial files that stay, and a sidecar that stays -/

/-- Whatever a calm world answers, any world may. -/
theorem calm_le_any {call : Call} {reply : Reply call} (replied : Weather.calm.world chunkSize parse sha256 call state reply state') :
    Weather.any.world chunkSize parse sha256 call state reply state' := by
  have serves : ∀ question volume given volume', Weather.calm.serves chunkSize question volume given volume' →
      Weather.any.serves chunkSize question volume given volume' := fun _ _ _ _ served => ⟨trivial, served.2⟩
  have responds : ∀ {path request volume reply volume'}, Weather.calm.Responds chunkSize parse path request volume reply volume' →
      Weather.any.Responds chunkSize parse path request volume reply volume' := by
    intro path request volume reply volume' responds
    cases reply with
    | ok given =>
      obtain ⟨response, plays, low, high, same | ⟨faulty, _⟩⟩ := responds
      · exact ⟨response, plays.mono serves, low, high, .inl same⟩
      · exact faulty.elim
    | error failure =>
      rcases responds with (⟨cause, plays, same⟩ | ⟨faulty, _⟩) | ⟨response, plays, refused, same⟩
      · exact .inl (.inl ⟨cause, plays.mono serves, same⟩)
      · exact faulty.elim
      · exact .inr ⟨response, plays.mono serves, refused, same⟩
  cases call with
  | file call =>
    obtain ⟨files', same, performs | ⟨faulty, _⟩⟩ := replied
    · exact ⟨files', same, .inl performs⟩
    · exact faulty.elim
  | headFile path =>
    obtain ⟨volume', same, answered⟩ := replied
    exact ⟨volume', same, responds answered⟩
  | readFile path range =>
    obtain ⟨volume', same, answered⟩ := replied
    exact ⟨volume', same, responds answered⟩
  | checksum path =>
    rcases replied with ⟨volume', hashed, same, given, plays⟩ | ⟨volume', failure, same, given, ⟨cause, plays, refused⟩ | ⟨faulty, _⟩⟩
    · exact .inl ⟨volume', hashed, same, given, plays.mono serves⟩
    · exact .inr ⟨volume', failure, same, given, .inl ⟨cause, plays.mono serves, refused⟩⟩
    · exact faulty.elim

section Front
variable {row : InodeRow} {content : Bytes}

/-- The download, once the remote file was read to its end. -/
def finish (sha256 : Bytes → Text) (remotePath localPath : Text) (remote : Remote) (offset : Nat) : Session DownloadResult := do
  let remoteSum ← verify sha256 remotePath localPath remote
  publish localPath
  return ⟨remote.size, remoteSum.checksum, 0 < offset⟩

/-- A free attempt gets in calm weather to where the remote file is read. -/
theorem calm_fetched (positive : 0 < chunkSize) (file : state.volume.FileAt chunkSize remotePath row content)
    (safe : isSafeInteger content.length = true) (free : state.files localPath = none) (bare : state.files (partialPath localPath) = none) :
    ∃ fetched, Holding state fetched localPath ⟨content.length, integerText 10 row.ino⟩ content ∧
      ∀ {outcome state'}, Plays (Weather.any.world chunkSize parse sha256)
        (finish sha256 remotePath localPath ⟨content.length, integerText 10 row.ino⟩ 0) fetched outcome state' →
        Plays (Weather.any.world chunkSize parse sha256) (resumableDownload sha256 remotePath localPath false) state outcome state' := by
  have responsive := @calm_responsive chunkSize parse sha256
  have nothing : continued state.files localPath ⟨content.length, integerText 10 row.ino⟩ = [] := by
    rw [continued, bare]
    cases storedSidecar state.files localPath <;> rfl
  have unblocked : Ensures (Weather.calm.world chunkSize parse sha256) (fun _ state' => state' = state) (fun _ _ => False)
      (requireFree localPath false) state :=
    calm_requireFree.mono (fun _ _ ended => ended.1) fun _ _ blocked => blocked.2 (.inr free)
  obtain ⟨_, _, first, rfl⟩ := unblocked.returns responsive
  obtain ⟨_, _, second, rfl, rfl⟩ := (calm_headRemote file safe).returns responsive
  obtain ⟨offset, prepared, third, holding, rfl⟩ := (@calm_prepare _ _ _ localPath ⟨content.length, integerText 10 row.ino⟩ _ safe).returns
    responsive
  rw [nothing] at third holding
  obtain ⟨_, fetched, fourth, holding⟩ := (calm_fetchRest (by rwa [holding.volume]) positive safe holding (Nat.zero_le _)).returns responsive
  refine ⟨fetched, holding, fun rest => ?_⟩
  exact (first.mono fun _ _ _ _ => calm_le_any).bind ((second.mono fun _ _ _ _ => calm_le_any).bind
    ((third.mono fun _ _ _ _ => calm_le_any).bind ((fourth.mono fun _ _ _ _ => calm_le_any).bind rest)))

/-- The sidecar may be what cannot be removed, after the rename. -/
theorem finish_throws (injective : Function.Injective sha256) (positive : 0 < chunkSize)
    (file : state.volume.FileAt chunkSize remotePath row content) (found : state.files (partialPath localPath) = some content) :
    ∃ state', state'.files localPath = some content ∧ Plays (Weather.any.world chunkSize parse sha256)
      (finish sha256 remotePath localPath ⟨content.length, integerText 10 row.ino⟩ 0) state
        (.thrown (.io "EACCES" (.rm (sidecarPath localPath)))) state' := by
  have agreed : Ensures (Weather.calm.world chunkSize parse sha256) (fun _ state' => state' = { state with hashed := some content })
      (fun _ _ => False) (verify sha256 remotePath localPath ⟨content.length, integerText 10 row.ino⟩) state :=
    (calm_verify file injective positive found rfl).mono (fun _ _ verified => verified.2.2) fun _ _ different => different.1 rfl
  obtain ⟨sum, _, first, rfl⟩ := agreed.returns calm_responsive
  let published := Function.update (Function.update state.files (partialPath localPath) none) localPath (some content)
  refine ⟨⟨state.volume, published, some content⟩, Function.update_self .., ?_⟩
  refine (first.mono fun _ _ _ _ => calm_le_any).bind (Asking.Plays.bind_thrown ?_ _)
  have renamed : Weather.any.world chunkSize parse sha256 (.file (.rename (partialPath localPath) localPath))
      { state with hashed := some content } (.ok ()) ⟨state.volume, published, some content⟩ :=
    ⟨published, rfl, .inl (.inr ⟨content, found, rfl, rfl⟩)⟩
  have refused : Weather.any.world chunkSize parse sha256 (.file (.rm (sidecarPath localPath)))
      ⟨state.volume, published, some content⟩ (.error (.io "EACCES" (.rm (sidecarPath localPath))))
      ⟨state.volume, published, some content⟩ :=
    ⟨published, rfl, .inr ⟨trivial, "EACCES", by decide, rfl, rfl⟩⟩
  exact .asked renamed (.asked refused (.thrown _ _))

end Front

/-- A file rewritten in place, under a partial file that was complete, keeps the download from
resolving; and an attempt may reject after the rename. -/
theorem resumableDownload_stale :
    (¬∀ (state state' : DownloadWorld) outcome volume row content, state.files = (fun _ => none) →
      Weather.any.Attempts 4 (fun _ => none) spell "/f".toList "out".toList false state outcome state' →
      volume.FileAt 4 "/f".toList row content → isSafeInteger content.length = true →
      Weather.calm.Resolves 4 (fun _ => none) spell "/f".toList "out".toList false { state' with volume }) ∧
    ¬∀ (state state' : DownloadWorld) failure,
      Weather.any.Attempts 4 (fun _ => none) spell "/f".toList "out".toList false state (.thrown failure) state' →
      state'.files "out".toList = state.files "out".toList := by
  have converges := @resumableDownload_calm 4 (fun _ => none) spell "/f".toList "out".toList false
  obtain ⟨fetched, holding, attempts⟩ := @calm_fetched 4 (fun _ => none) spell "/f".toList "out".toList (sampleWorld 1) remoteRow [1]
    (by decide) (remoteSample_file 1) (by decide) rfl rfl
  constructor
  · intro claim
    have resolves := claim (sampleWorld 1) fetched .stopped (remoteSample 2) remoteRow [2] rfl (attempts (.stopped _ _))
      (remoteSample_file 2) (by decide)
    have different : ([1] : Bytes) ≠ [2] := by decide
    have length : ([1] : Bytes).length = ([2] : Bytes).length := rfl
    have stale : ¬Resumable false "out".toList remoteRow [2] fetched.files :=
      not_resumable_of_kept length different holding.partialFile holding.sidecar
    obtain ⟨⟨result, state', returned⟩, _⟩ := resolves
    have calm := @converges ⟨remoteSample 2, fetched.files, none⟩ remoteRow [2] spell_injective (by decide) (remoteSample_file 2) (by decide)
    exact stale (calm.of_returned returned).1
  · intro claim
    have file : fetched.volume.FileAt 4 "/f".toList remoteRow [1] := by
      rw [holding.volume]
      exact remoteSample_file 1
    obtain ⟨state', published, plays⟩ := @finish_throws 4 (fun _ => none) spell _ _ _ _ _ spell_injective (by decide) file holding.partialFile
    have kept := claim (sampleWorld 1) state' _ (attempts plays)
    rw [published] at kept
    cases kept

end AiryFS
