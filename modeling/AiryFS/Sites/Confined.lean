import AiryFS.Sites.Serving

/-! What a published site looks at.

A path below a prefix other than the root cannot leave it, and cannot reach the trash when the
prefix is not below the trash itself. Below the root the check of the trash compares texts, so
a sub-path reaches it whenever its segments do and its spelling does not.
-/

set_option autoImplicit false

namespace AiryFS

open Foundation

namespace Sites

/-! ## The files of a site -/

/-- The locations at or under the prefix and outside the trash. -/
def Inside (site : SiteRecord) (location : List Text) : Prop :=
  fields '/' site.pathPrefix <+: location ∧ ¬[TRASH_NAME] <+: location

/-- The inode lies at some location of the site. -/
def Reaches (site : SiteRecord) (volume : Volume) (ino : Int) : Prop :=
  ∃ location, Inside site location ∧ AgentFS.walk volume ROOT_INO location = some ino

/-- The questions whose answers are about files of the site only. -/
def Within (site : SiteRecord) (volume : Volume) : Question → Prop
  | .stat path => Inside site (fields '/' path)
  | .entries path hidden => Inside site (fields '/' path) ∧
    ∀ found, visibleEntries volume path hidden = .ok found → ∀ entry ∈ found, Inside site (fields '/' path ++ [entry.1])
  | .open path => Inside site (fields '/' path)
  | .pread file _ _ => Reaches site volume file.ino
  | .version ino => Reaches site volume ino

/-- The requests to a path of the site see the files of the site and nothing else. -/
structure Confined (localeCompare : Text → Text → Int) (parse : Text → Option Int) (chunkSize : Nat) (site : SiteRecord)
    (pathname : Text) : Prop where
  asked : ∀ volume request, request.pathname = pathname →
    ∀ question ∈ (handleSiteRequest localeCompare parse (some site) request).asked (answer chunkSize volume),
      Within site volume question
  alike : ∀ volume other request, request.pathname = pathname →
    (∀ question, Within site volume question → answer chunkSize volume question = answer chunkSize other question) →
      (handleSiteRequest localeCompare parse (some site) request).run (answer chunkSize volume) =
        (handleSiteRequest localeCompare parse (some site) request).run (answer chunkSize other)

/-- The segments of the path begin with the trash. -/
def Reserved (path : Text) : Prop := [TRASH_NAME] <+: Auth.segments path

instance (path : Text) : Decidable (Reserved path) := inferInstanceAs (Decidable (_ <+: _))

/-- Below the root, either the spelling of the sub-path is refused, or nothing that stands for it
is in the trash: the path itself, its index document and the fallback. -/
def Clear (site : SiteRecord) (subPath : Text) : Prop :=
  site.pathPrefix = ['/'] → Auth.AtOrUnder TRASH_NAME (slashless subPath) ∨
    ¬Reserved (slashless subPath ++ '/' :: site.indexDocument) ∧
    ((¬['/'] <:+ subPath ∨ site.directoryListing) → ¬Reserved (slashless subPath)) ∧
    (site.spa → ¬Reserved site.indexDocument)

/-! ## Resolution below the prefix -/

section Resolution
variable {site : SiteRecord} {subPath path : Text}

theorem fields_of_normal {path : Text} (normal : Auth.normalizePath path = path) : fields '/' path = Auth.segments path := by
  rw [← Auth.fields_normalizePath, normal]

theorem segments_ne_nil (site : SiteRecord) (below : site.pathPrefix ≠ ['/']) : Auth.segments site.pathPrefix ≠ [] := by
  intro empty
  apply below
  rw [← site.normal]
  exact Auth.normalizePath_eq_root.mpr empty

theorem resolveUnder_ok (resolved : resolveUnder site.pathPrefix subPath = .ok path) :
    path = Auth.normalizePath (site.pathPrefix ++ '/' :: subPath) ∧
      (site.pathPrefix ≠ ['/'] → Auth.segments site.pathPrefix <+: fields '/' path) := by
  unfold resolveUnder at resolved
  dsimp only at resolved
  split at resolved
  · cases resolved
  · rename_i inside
    rw [site.normal] at inside resolved
    obtain rfl := Except.ok.inj resolved
    rw [Auth.fields_normalizePath]
    refine ⟨rfl, fun below => ?_⟩
    rw [← Auth.normalizePath_atOrUnder (segments_ne_nil site below), site.normal]
    by_cases same : Auth.normalizePath (site.pathPrefix ++ '/' :: subPath) = site.pathPrefix
    · exact .inl same
    · right
      by_contra outside
      exact inside ⟨below, same, fun under => outside (List.isPrefixOf_iff_prefix.mp under)⟩

/-- A prefix that reaches the trash is at or under it. -/
theorem atOrUnder_trash (reserved : [TRASH_NAME] <+: Auth.segments site.pathPrefix) : Auth.AtOrUnder TRASH_ROOT site.pathPrefix := by
  have trash : Auth.Spellable [TRASH_NAME] := by
    constructor
    · intro piece member
      rw [List.mem_singleton.mp member]
      decide
    · intro piece member
      rw [List.mem_singleton.mp member]
      decide
  have spelled := (Auth.atOrUnder_iff trash (Auth.segments_spellable site.pathPrefix) (by simp)).mpr reserved
  rwa [← Auth.normalizePath, site.normal] at spelled

theorem inside_of_resolved (published : ¬Auth.AtOrUnder TRASH_ROOT site.pathPrefix)
    (clear : site.pathPrefix = ['/'] → ¬Reserved subPath) (resolved : resolveUnder site.pathPrefix subPath = .ok path) :
    Inside site (fields '/' path) := by
  obtain ⟨spelled, under⟩ := resolveUnder_ok resolved
  by_cases root : site.pathPrefix = ['/']
  · constructor
    · simp [root]
    · rw [spelled, root, Auth.fields_normalizePath]
      simpa [Reserved] using clear root
  · have below := under root
    constructor
    · rwa [fields_of_normal site.normal]
    · intro trash
      -- The prefix has a first segment, and it is the path's.
      have longer : [TRASH_NAME].length ≤ (Auth.segments site.pathPrefix).length :=
        List.length_pos_of_ne_nil (segments_ne_nil site root)
      exact published (atOrUnder_trash (List.prefix_of_prefix_length_le trash below longer))

end Resolution

/-! ## What each function asks -/

section Questions
variable {localeCompare : Text → Text → Int} {parse : Text → Option Int} {chunkSize : Nat} {site : SiteRecord}
  {volume : Volume} {path : Text} {request : Request}

/-- Every question is about the files of the site. -/
def Quiet (chunkSize : Nat) (site : SiteRecord) (volume : Volume) {α : Type} (computation : Serving α) : Prop :=
  Asking.Post (answer chunkSize volume) (Within site volume) (fun _ => True) (fun _ => True) computation

theorem quiet_bind {α β : Type} {first : Serving α} {next : α → Serving β} (start : Quiet chunkSize site volume first)
    (rest : ∀ value, Quiet chunkSize site volume (next value)) : Quiet chunkSize site volume (first >>= next) :=
  Asking.post_bind.mpr (start.mono (fun value _ => rest value) fun _ _ => trivial)

theorem quiet_pure {α : Type} (value : α) : Quiet chunkSize site volume (pure value : Serving α) := trivial

theorem quiet_throw {α : Type} (failure : Failure) : Quiet chunkSize site volume (throw failure : Serving α) := trivial

theorem quiet_lift {α : Type} (outcome : Except Failure α) : Quiet chunkSize site volume (Asking.lift outcome) :=
  Asking.post_lift.mpr ⟨fun _ _ => trivial, fun _ _ => trivial⟩

/-- What was computed without a question is known in what follows. -/
theorem quiet_lift_bind {α β : Type} {outcome : Except Failure α} {next : α → Serving β}
    (rest : ∀ value, outcome = .ok value → Quiet chunkSize site volume (next value)) :
    Quiet chunkSize site volume (Asking.lift outcome >>= next) :=
  Asking.post_bind.mpr (Asking.post_lift.mpr ⟨rest, fun _ _ => trivial⟩)

theorem resolved_of_stat {stats : InodeRow} (found : AgentFS.stat volume path = .ok stats) :
    AgentFS.walk volume ROOT_INO (fields '/' path) = some stats.ino := by
  obtain ⟨⟨normalizedPath, ino⟩, reached, row⟩ := bind_eq_ok.mp found
  have located := (AgentFS.resolvePathOrThrow_ok reached).2
  have own : stats.ino = ino := volume.inode.find?_key (required_eq_ok.mp row)
  rw [← AgentFS.resolvePath_eq, located, own]

theorem resolved_of_open {file : AgentFSFile} (opened : AgentFS.openFile volume chunkSize path = .ok file) :
    AgentFS.walk volume ROOT_INO (fields '/' path) = some file.ino := by
  obtain ⟨⟨normalizedPath, ino⟩, reached, rest⟩ := bind_eq_ok.mp opened
  obtain ⟨_, _, returned⟩ := bind_eq_ok.mp rest
  have located := (AgentFS.resolvePathOrThrow_ok reached).2
  rw [← AgentFS.resolvePath_eq, located, ← pure_eq_ok.mp returned]

theorem stat_post (inside : Inside site (fields '/' path)) :
    Asking.Post (answer chunkSize volume) (Within site volume) (fun stats => Reaches site volume stats.ino) (fun _ => True)
      (stat path) :=
  Asking.post_consult.mpr ⟨inside, fun _ found => ⟨_, inside, resolved_of_stat found⟩, fun _ _ => trivial⟩

theorem openFile_post (inside : Inside site (fields '/' path)) :
    Asking.Post (answer chunkSize volume) (Within site volume) (fun file => Reaches site volume file.ino) (fun _ => True)
      (openFile path) :=
  Asking.post_consult.mpr ⟨inside, fun _ opened => ⟨_, inside, resolved_of_open opened⟩, fun _ _ => trivial⟩

theorem createReadStream_quiet {file : AgentFSFile} (reached : Reaches site volume file.ino) (stop rounds offset : Nat)
    (sent : Bytes) : Quiet chunkSize site volume (createReadStream file stop rounds offset sent) := by
  induction rounds generalizing offset sent with
  | zero => exact quiet_pure _
  | succ rounds ih =>
    unfold createReadStream
    split
    · exact quiet_pure _
    · apply quiet_bind
      · exact Asking.post_question.mpr ⟨reached, trivial⟩
      · intro chunk
        split
        · exact quiet_pure _
        · exact ih _ _

theorem contentResponse_quiet (inside : Inside site (fields '/' path)) (stats : InodeRow) (headers : Headers)
    (range : Option (Nat × Nat)) : Quiet chunkSize site volume (contentResponse request path stats headers range) := by
  unfold contentResponse
  dsimp only
  split
  · exact quiet_pure _
  · apply Asking.post_bind.mpr
    apply (openFile_post inside).mono _ fun _ _ => trivial
    intro file reached
    exact quiet_bind (createReadStream_quiet reached _ _ _ _) fun body => quiet_pure _

theorem fileResponse_quiet (inside : Inside site (fields '/' path)) :
    Quiet chunkSize site volume (fileResponse parse path request) := by
  unfold fileResponse
  apply Asking.post_bind.mpr
  apply (stat_post inside).mono _ fun _ _ => trivial
  intro stats reached
  split
  · exact quiet_throw _
  · apply quiet_bind
    · exact Asking.post_question.mpr ⟨reached, trivial⟩
    · intro version
      dsimp only
      split
      · exact quiet_pure _
      · exact quiet_bind (quiet_lift _) fun range => contentResponse_quiet inside stats _ range

theorem isFile_quiet (inside : Inside site (fields '/' path)) : Quiet chunkSize site volume (isFile path) := by
  apply Asking.post_handle.mpr
  apply Asking.post_bind.mpr
  exact (stat_post inside).mono (fun _ _ => trivial) fun _ _ => trivial

theorem isDirectoryAt_quiet (inside : Inside site (fields '/' path)) : Quiet chunkSize site volume (isDirectoryAt path) := by
  apply Asking.post_handle.mpr
  apply Asking.post_bind.mpr
  exact (stat_post inside).mono (fun _ _ => trivial) fun _ _ => trivial

theorem publicFile_quiet (inside : Inside site (fields '/' path)) : Quiet chunkSize site volume (publicFile parse site path request) :=
  quiet_bind (fileResponse_quiet inside) fun _ => quiet_pure _

/-- A listing of the root hides the trash, and no other directory has an entry that leads there. -/
theorem directoryIndex_quiet {subPath : Text} (inside : Inside site (fields '/' path))
    (resolved : resolveUnder site.pathPrefix subPath = .ok path) :
    Quiet chunkSize site volume (directoryIndex localeCompare path request (path = site.pathPrefix) site.cacheControl) := by
  unfold directoryIndex
  apply quiet_bind _ fun _ => quiet_pure _
  refine Asking.post_consult.mpr ⟨⟨inside, ?_⟩, fun _ _ => trivial, fun _ _ => trivial⟩
  intro found listed entry member
  refine ⟨inside.1.trans (List.prefix_append _ _), fun trash => ?_⟩
  by_cases top : fields '/' path = []
  · -- The path is the root, and so is the prefix.
    have rooted : path = ['/'] := by
      obtain ⟨spelled, _⟩ := resolveUnder_ok resolved
      rw [spelled]
      rw [spelled, Auth.fields_normalizePath] at top
      exact Auth.normalizePath_eq_root.mpr top
    have published : site.pathPrefix = ['/'] := by
      by_contra below
      have empty := List.prefix_nil.mp (top ▸ (resolveUnder_ok resolved).2 below)
      exact segments_ne_nil site below empty
    obtain ⟨entries, _, returned⟩ := bind_eq_ok.mp listed
    rw [← pure_eq_ok.mp returned] at member
    obtain ⟨source, kept, rfl⟩ := List.mem_map.mp member
    have shown := (List.mem_filter.mp kept).2
    rw [top, List.nil_append] at trash
    have named : source.1 = TRASH_NAME := (List.cons_prefix_cons.mp trash).1.symm
    simp [rooted, published, named] at shown
  · exact inside.2 (List.prefix_of_prefix_length_le trash (List.prefix_append _ _) (List.length_pos_of_ne_nil top))

/-! ## What the site asks for a sub-path -/

variable {trimmed : Text}

theorem isFile_bind_quiet {α : Type} {next : Bool → Serving α} (inside : Inside site (fields '/' path))
    (rest : ∀ found, Quiet chunkSize site volume (next found)) : Quiet chunkSize site volume (isFile path >>= next) :=
  quiet_bind (isFile_quiet inside) rest

theorem findTarget_post {wantsIndex : Bool} (published : ¬Auth.AtOrUnder TRASH_ROOT site.pathPrefix)
    (indexed : site.pathPrefix = ['/'] → ¬Reserved (trimmed ++ '/' :: site.indexDocument))
    (named : wantsIndex = false → site.pathPrefix = ['/'] → ¬Reserved trimmed) :
    Asking.Post (answer chunkSize volume) (Within site volume)
      (fun found => ∀ target, found = some target → Inside site (fields '/' target)) (fun _ => True)
      (findTarget site trimmed wantsIndex) := by
  unfold findTarget
  apply Asking.post_bind.mpr
  apply Asking.post_lift.mpr
  refine ⟨fun primary resolved => ?_, fun _ _ => trivial⟩
  have inside : Inside site (fields '/' primary) := by
    apply inside_of_resolved published _ resolved
    cases wantsIndex with
    | true => exact indexed
    | false => exact named rfl
  apply Asking.post_bind.mpr
  apply (isFile_quiet inside).mono _ fun _ _ => trivial
  intro found _
  split
  · exact fun target same => Option.some.inj same ▸ inside
  · split
    · exact fun target same => (by cases same)
    · apply Asking.post_bind.mpr
      apply Asking.post_lift.mpr
      refine ⟨fun asDirIndex resolved => ?_, fun _ _ => trivial⟩
      have inside := inside_of_resolved published indexed resolved
      apply Asking.post_bind.mpr
      apply (isFile_quiet inside).mono _ fun _ _ => trivial
      intro found _
      split
      · exact fun target same => Option.some.inj same ▸ inside
      · exact fun target same => (by cases same)

theorem serveFallback_quiet (published : ¬Auth.AtOrUnder TRASH_ROOT site.pathPrefix)
    (fallback : site.spa → site.pathPrefix = ['/'] → ¬Reserved site.indexDocument) :
    Quiet chunkSize site volume (serveFallback parse site request) := by
  unfold serveFallback
  split
  · rename_i spa
    apply quiet_lift_bind
    intro path resolved
    have inside := inside_of_resolved published (fallback spa) resolved
    apply isFile_bind_quiet inside
    intro found
    split
    · exact publicFile_quiet inside
    · exact quiet_throw _
  · exact quiet_throw _

theorem serveListing_quiet (published : ¬Auth.AtOrUnder TRASH_ROOT site.pathPrefix)
    (resolved : resolveUnder site.pathPrefix trimmed = .ok path)
    (named : site.directoryListing → site.pathPrefix = ['/'] → ¬Reserved trimmed)
    (fallback : site.spa → site.pathPrefix = ['/'] → ¬Reserved site.indexDocument) :
    Quiet chunkSize site volume (serveListing localeCompare parse site path request) := by
  unfold serveListing
  split
  · rename_i listing
    have inside := inside_of_resolved published (named listing) resolved
    apply quiet_bind (isDirectoryAt_quiet inside)
    intro found
    split
    · exact directoryIndex_quiet inside resolved
    · exact serveFallback_quiet published fallback
  · exact serveFallback_quiet published fallback

theorem serveSite_quiet {subPath : Text} (clear : Clear site subPath) :
    Quiet chunkSize site volume (serveSite localeCompare parse site subPath request) := by
  unfold serveSite
  apply quiet_lift_bind
  intro _ passed
  have accepted := refuse_eq_ok.mp passed
  have published : ¬Auth.AtOrUnder TRASH_ROOT site.pathPrefix := fun trash => accepted (.inl trash)
  have open_ (root : site.pathPrefix = ['/']) := (clear root).resolve_left fun spelled => accepted (.inr ⟨root, spelled⟩)
  apply quiet_lift_bind
  intro requested resolved
  apply Asking.post_bind.mpr
  refine (findTarget_post published (fun root => (open_ root).1) ?_).mono ?_ fun _ _ => trivial
  · intro file root
    apply (open_ root).2.1
    left
    intro slash
    simp only [decide_eq_false_iff_not, not_or] at file
    exact file.2 (List.isSuffixOf_iff_suffix.mpr slash)
  · intro found targets
    cases found with
    | some target => exact publicFile_quiet (targets target rfl)
    | none =>
      exact serveListing_quiet published resolved (fun listing root => (open_ root).2.1 (.inr listing))
        fun spa root => (open_ root).2.2 spa

theorem handleSiteRequest_quiet (clear : ∀ subPath, subPathOf request.pathname = .ok subPath → Clear site subPath) :
    Quiet chunkSize site volume (handleSiteRequest localeCompare parse (some site) request) := by
  unfold handleSiteRequest
  apply quiet_lift_bind
  intro _ _
  apply quiet_lift_bind
  intro served same
  obtain rfl := Option.some.inj (required_eq_ok.mp same)
  apply quiet_lift_bind
  intro subPath spelled
  exact serveSite_quiet (clear subPath spelled)

end Questions

/-! ## A volume with nothing but its root -/

section Fresh
variable {localeCompare : Text → Text → Int} {parse : Text → Option Int} {chunkSize : Nat} {site : SiteRecord} {path : Text}

def bare : Volume := Volume.fresh 0

theorem walk_bare (pieces : List Text) : AgentFS.walk bare ROOT_INO pieces = if pieces = [] then some ROOT_INO else none := by
  cases pieces <;> rfl

theorem stat_bare (path : Text) : (AgentFS.stat bare path).toOption = if fields '/' path = [] then some (InodeRow.root 0) else none := by
  have walked := walk_bare (fields '/' path)
  rw [← AgentFS.resolvePath_eq] at walked
  split at walked
  · rename_i top
    rw [if_pos top, AgentFS.stat, AgentFS.resolvePathOrThrow_of_resolved walked]
    rfl
  · rename_i below
    rw [if_neg below, AgentFS.stat, AgentFS.resolvePathOrThrow, AgentFS.resolvePath_normalizePath, walked]
    rfl

theorem isFile_bare : (isFile path).run (answer chunkSize bare) = .ok false := by
  have found := stat_bare path
  change ((Asking.lift (AgentFS.stat bare path)).bind _ |>.handle _).run _ = _
  cases outcome : AgentFS.stat bare path with
  | error failure => rfl
  | ok stats =>
    rw [outcome] at found
    split at found
    · rw [Option.some.inj found]
      rfl
    · cases found

theorem isDirectoryAt_bare : (isDirectoryAt path).run (answer chunkSize bare) = .ok (decide (fields '/' path = [])) := by
  have found := stat_bare path
  change ((Asking.lift (AgentFS.stat bare path)).bind _ |>.handle _).run _ = _
  cases outcome : AgentFS.stat bare path with
  | error failure =>
    rw [outcome] at found
    split at found
    · cases found
    · rename_i below
      rw [decide_eq_false below]
      rfl
  | ok stats =>
    rw [outcome] at found
    split at found
    · rename_i top
      rw [Option.some.inj found, decide_eq_true top]
      rfl
    · cases found

variable {α : Type} {next : Bool → Serving α} {returned : α → Prop}

/-- A file that is looked for is one of the site. -/
theorem inside_of_isFile
    (post : Asking.Post (answer chunkSize bare) (Within site bare) returned (fun _ => True) (isFile path >>= next)) :
    Inside site (fields '/' path) ∧ Asking.Post (answer chunkSize bare) (Within site bare) returned (fun _ => True) (next false) :=
  ⟨post.1, post.rest isFile_bare⟩

theorem inside_of_isDirectoryAt
    (post : Asking.Post (answer chunkSize bare) (Within site bare) returned (fun _ => True) (isDirectoryAt path >>= next)) :
    Inside site (fields '/' path) ∧
      Asking.Post (answer chunkSize bare) (Within site bare) returned (fun _ => True) (next (fields '/' path = [])) :=
  ⟨post.1, post.rest isDirectoryAt_bare⟩

variable {subPath trimmed : Text} {request : Request}

theorem resolveUnder_root (root : site.pathPrefix = ['/']) (subPath : Text) :
    resolveUnder site.pathPrefix subPath = .ok (Auth.normalizePath subPath) := by
  have normal : Auth.normalizePath ['/'] = ['/'] := by decide
  have same : Auth.normalizePath (['/'] ++ '/' :: subPath) = Auth.normalizePath subPath :=
    Auth.normalizePath_inj.mpr (by simp)
  rw [root, resolveUnder, normal, if_neg (by simp), same]

theorem not_reserved (inside : Inside site (fields '/' (Auth.normalizePath path))) : ¬Reserved path := by
  intro reserved
  rw [Auth.fields_normalizePath] at inside
  exact inside.2 reserved

/-- What is asked in search of a target: the index below the path, and the path unless only the index counts. -/
theorem findTarget_bare {wantsIndex : Bool} (root : site.pathPrefix = ['/']) {returned : Option Text → Prop}
    (post : Asking.Post (answer chunkSize bare) (Within site bare) returned (fun _ => True) (findTarget site trimmed wantsIndex)) :
    ¬Reserved (trimmed ++ '/' :: site.indexDocument) ∧ (wantsIndex = false → ¬Reserved trimmed) ∧ returned none := by
  unfold findTarget at post
  dsimp only at post
  rw [resolveUnder_root root, resolveUnder_root root] at post
  obtain ⟨primary, rest⟩ := inside_of_isFile post
  cases wantsIndex with
  | true => exact ⟨not_reserved primary, fun absurd => (by cases absurd), rest⟩
  | false =>
    obtain ⟨indexed, rest⟩ := inside_of_isFile rest
    exact ⟨not_reserved indexed, fun _ => not_reserved primary, rest⟩

theorem serveFallback_bare (root : site.pathPrefix = ['/']) (spa : site.spa = true)
    (quiet : Quiet chunkSize site bare (serveFallback parse site request)) : ¬Reserved site.indexDocument := by
  unfold serveFallback at quiet
  rw [if_pos spa, resolveUnder_root root] at quiet
  exact not_reserved (inside_of_isFile quiet).1

/-- A listing of the root takes the place of the fallback, whose file is the index of the root. -/
theorem serveListing_bare (root : site.pathPrefix = ['/']) (indexed : ¬Reserved (trimmed ++ '/' :: site.indexDocument))
    (quiet : Quiet chunkSize site bare (serveListing localeCompare parse site (Auth.normalizePath trimmed) request)) :
    (site.directoryListing → ¬Reserved trimmed) ∧ (site.spa → ¬Reserved site.indexDocument) := by
  unfold serveListing at quiet
  split at quiet
  · obtain ⟨named, rest⟩ := inside_of_isDirectoryAt quiet
    refine ⟨fun _ => not_reserved named, fun spa => ?_⟩
    by_cases top : Auth.segments trimmed = []
    · have same : Auth.segments (trimmed ++ '/' :: site.indexDocument) = Auth.segments site.indexDocument := by
        rw [Auth.segments_append_sep, top, ← Auth.segments]
      rwa [Reserved, same] at indexed
    · rw [Auth.fields_normalizePath, decide_eq_false top] at rest
      exact serveFallback_bare root spa rest
  · rename_i unlisted
    exact ⟨fun listing => absurd listing unlisted, fun spa => serveFallback_bare root spa quiet⟩

theorem clear_of_quiet (quiet : Quiet chunkSize site bare (serveSite localeCompare parse site subPath request)) :
    Clear site subPath := by
  intro root
  by_cases spelled : Auth.AtOrUnder TRASH_NAME (slashless subPath)
  · exact .inl spelled
  · right
    have accepted : ¬Refused site subPath := by
      intro refused
      rcases refused with trash | ⟨_, same⟩
      · rw [root] at trash
        revert trash
        decide
      · exact spelled same
    unfold serveSite at quiet
    rw [refuse_of_not accepted] at quiet
    dsimp only at quiet
    rw [resolveUnder_root root] at quiet
    obtain ⟨indexed, named, rest⟩ := findTarget_bare root (Asking.post_bind.mp quiet)
    obtain ⟨listed, fallback⟩ := serveListing_bare root indexed rest
    refine ⟨indexed, fun counts => ?_, fallback⟩
    rcases counts with file | listing
    · by_cases empty : slashless subPath = []
      · rw [empty]
        decide
      · apply named
        simp only [decide_eq_false_iff_not, not_or]
        exact ⟨empty, fun slash => file (List.isSuffixOf_iff_suffix.mp slash)⟩
    · exact listed listing

end Fresh

/-! ## The condition -/

def getRequest (pathname : Text) : Request := ⟨"GET".toList, pathname, none, none, none, none⟩

/-- A site sees nothing but its own files at a path exactly when nothing that stands for the
decoded sub-path below the root is in the trash. -/
theorem site_confined_iff (localeCompare : Text → Text → Int) (parse : Text → Option Int) (chunkSize : Nat) (site : SiteRecord)
    (pathname : Text) : Confined localeCompare parse chunkSize site pathname ↔
      ∀ subPath, subPathOf pathname = .ok subPath → Clear site subPath := by
  constructor
  · intro confined subPath spelled
    have quiet := Asking.post_iff_asked.mpr (confined.asked bare (getRequest pathname) rfl)
    unfold handleSiteRequest at quiet
    rw [refuse_of_not (fun other => other.1 rfl), show (getRequest pathname).pathname = pathname from rfl, spelled] at quiet
    exact clear_of_quiet quiet
  · intro clear
    have quiet (volume : Volume) (request : Request) (same : request.pathname = pathname) :
        Quiet chunkSize site volume (handleSiteRequest localeCompare parse (some site) request) :=
      handleSiteRequest_quiet (same ▸ clear)
    constructor
    · exact fun volume request same => Asking.post_iff_asked.mp (quiet volume request same)
    · intro volume other request same alike
      apply Asking.run_congr
      exact fun question member => alike question (Asking.post_iff_asked.mp (quiet volume request same) question member)

/-! ## A trashed file on a public page -/

/-- A volume with the trash and one trashed file in it, of one byte. -/
def littered : Volume where
  inode := ⟨[InodeRow.root 0, { InodeRow.create DEFAULT_DIR_MODE 0 0 0 with ino := 2, nlink := 1 },
    { InodeRow.create DEFAULT_FILE_MODE 0 0 0 with ino := 3, nlink := 1, size := 1 }], by decide⟩
  dentry := ⟨[⟨TRASH_NAME, 1, 2⟩, ⟨['7'], 2, 3⟩], by decide⟩
  data := ⟨[⟨3, 0, [115]⟩], by decide⟩
  symlink := .empty
  openInode := .empty
  inodeSequence := 3
  config := ⟨none, none, none⟩
  feed := .initial
  clock := 0

def wholeVolume : SiteRecord := writeSite ['/'] "index.html".toList false false none

/-- One piece of the URL that spells `./.airyfs-trash/7`. -/
def leakyPath : Text := "/s/v/.%2F.airyfs-trash%2F7".toList

theorem site_unconfined :
    (∃ response, (handleSiteRequest (fun _ _ => 0) (fun _ => none) (some wholeVolume) (getRequest leakyPath)).run
        (answer 4096 littered) = .ok response ∧ response.status = 200 ∧ response.body = some ⟨[115], none⟩) ∧
      ¬Confined (fun _ _ => 0) (fun _ => none) 4096 wholeVolume leakyPath := by
  constructor
  · refine ⟨_, rfl, ?_, ?_⟩ <;> decide +kernel
  · intro confined
    have asked := confined.asked littered (getRequest leakyPath) rfl (.stat "/.airyfs-trash/7".toList) (by decide +kernel)
    exact asked.2 (by decide)

end Sites

end AiryFS
