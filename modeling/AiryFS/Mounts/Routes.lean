import AiryFS.Foundation.Fallible
import AiryFS.Foundation.PercentEncoding
import AiryFS.Foundation.Separated
import AiryFS.Storage.Values

/-! Routes of a volume: how they are spelled as a URL path, and how the path is read back.

Between the two stands the URL itself, which drops dot segments and escapes what a path
cannot hold.
-/

set_option autoImplicit false

namespace AiryFS

open Foundation

namespace Mounts

inductive Resource where
  | volume | forks | sql | files | directories | trees | tree | operations | exec | usage | usageHistory | metrics
  | quota | trash | services | capabilities | snapshots | uploads | browserUploads | assets | jobs | schedules
  | search | changes | webhooks | auth | sites | shares | mounts
  deriving DecidableEq, Repr

def Resource.name : Resource → String
  | .volume => "volume"
  | .forks => "forks"
  | .sql => "sql"
  | .files => "files"
  | .directories => "directories"
  | .trees => "trees"
  | .tree => "tree"
  | .operations => "operations"
  | .exec => "exec"
  | .usage => "usage"
  | .usageHistory => "usage-history"
  | .metrics => "metrics"
  | .quota => "quota"
  | .trash => "trash"
  | .services => "services"
  | .capabilities => "capabilities"
  | .snapshots => "snapshots"
  | .uploads => "uploads"
  | .browserUploads => "browser-uploads"
  | .assets => "assets"
  | .jobs => "jobs"
  | .schedules => "schedules"
  | .search => "search"
  | .changes => "changes"
  | .webhooks => "webhooks"
  | .auth => "auth"
  | .sites => "sites"
  | .shares => "shares"
  | .mounts => "mounts"

/-- The resources that a route can name. -/
def resources : List Resource :=
  [.forks, .sql, .files, .directories, .trees, .tree, .operations, .exec, .usage, .usageHistory, .metrics, .quota,
    .trash, .services, .capabilities, .snapshots, .uploads, .browserUploads, .assets, .jobs, .schedules, .search,
    .changes, .webhooks, .auth, .sites, .shares, .mounts]

structure V1Route where
  volume : Text
  resource : Resource
  path : Text
  deriving DecidableEq

/-! ## Percent encoding -/

def uriUnreserved (character : Char) : Bool := character.isAlphanum || character ∈ "-_.!~*'()".toList

def encodeURIComponent (text : Text) : Text := Percent.encode uriUnreserved text

def decodeURIComponent (text : Text) : Except Failure Text := required (Percent.decode text) (.error "URI malformed")

/-! ## The path of a URL -/

/-- Characters that a URL path keeps as they are. -/
def pathCharacter (character : Char) : Bool :=
  let code := character.toNat
  0x20 < code && code < 0x7F && !(code ∈ [0x22, 0x23, 0x3C, 0x3E, 0x3F, 0x5E, 0x60, 0x7B, 0x7D])

def singleDots : List Text := [".".toList, "%2e".toList, "%2E".toList]

def doubleDots : List Text :=
  ["..".toList, ".%2e".toList, ".%2E".toList, "%2e.".toList, "%2E.".toList, "%2e%2e".toList, "%2e%2E".toList,
    "%2E%2e".toList, "%2E%2E".toList]

/-- The segments of a URL path. A dot segment at the end leaves an empty one. -/
def pathSegments (resolved : List Text) : List Text → List Text
  | [] => resolved
  | segment :: rest =>
    let last := if rest = [] then [[]] else []
    if segment ∈ doubleDots then pathSegments (resolved.dropLast ++ last) rest
    else if segment ∈ singleDots then pathSegments (resolved ++ last) rest
    else pathSegments (resolved ++ [segment]) rest

/-- The path of a URL after `url.pathname = path`. Tabs and line ends are dropped, and a
backslash separates as a slash does. -/
def setPathname (path : Text) : Text :=
  let kept := path.filter fun character => !(character.toNat ∈ [0x9, 0xA, 0xD])
  let pieces := (kept.map fun character => if character.toNat = 0x5C then '/' else character).splitOn '/'
  let pieces := if pieces.head? = some [] then pieces.tail else pieces
  '/' :: ['/'].intercalate (pathSegments [] (pieces.map (Percent.encode fun character => pathCharacter character)))

/-! ## Routes -/

/-- Build a `/v1/volumes/:volume/:resource[/path]` pathname with encoded segments. -/
def buildV1Path (volume : Text) (resource : Resource) (path : Text) : Text :=
  let segments := if path = ['/'] then [] else ((path.splitOn '/').filter fun piece => !piece.isEmpty).map encodeURIComponent
  let suffix := if segments.length ≠ 0 then '/' :: ['/'].intercalate segments else []
  "/v1/volumes/".toList ++ encodeURIComponent volume ++ ['/'] ++ resource.name.toList ++ suffix

def invalidRoute (message : String) : Failure := .http 404 "INVALID_ROUTE" message

/-- A route that names no resource is the volume itself. -/
def parseVolumeRoute (parts : List Text) : Except Failure (Option V1Route) := do
  refuse (parts.length > 5 ∨ parts.length = 5 ∧ parts[4]? ≠ some []) (invalidRoute "Invalid v1 volume route")
  return some { volume := ← decodeURIComponent (parts[3]?.getD []), resource := .volume, path := ['/'] }

/-- `/` and the decoded rest of the parts. -/
def routePath (parts : List Text) : Except Failure Text := do
  if parts.length > 5 then return '/' :: ['/'].intercalate (← (parts.drop 5).mapM decodeURIComponent) else return ['/']

def parseResourceRoute (parts : List Text) : Except Failure (Option V1Route) := do
  let named := parts[4]?.getD []
  let resource ← required (resources.find? fun resource => resource.name.toList = named)
    (invalidRoute s!"Unknown volume resource: {String.ofList named}")
  refuse (resource ∈ [Resource.usage, .usageHistory, .metrics] ∧ parts.length > 5)
    (invalidRoute s!"{String.ofList named} does not accept a path suffix")
  -- exec accepts no suffix, cancellation, or one of the two terminal routes.
  refuse (resource = .exec ∧ parts.length > 5 ∧
      ¬(parts.length = 6 ∧ parts[5]?.getD [] ∈ ["cancel".toList, "pty".toList, "pty-ticket".toList]))
    (invalidRoute "Invalid exec route suffix")
  return some { volume := ← decodeURIComponent (parts[3]?.getD []), resource, path := ← routePath parts }

def parseV1Route (pathname : Text) : Except Failure (Option V1Route) :=
  let parts := pathname.splitOn '/'
  if parts[1]? ≠ some "v1".toList then .ok none
  else do
    refuse (parts[2]? ≠ some "volumes".toList ∨ parts[3]?.getD [] = []) (invalidRoute "Invalid v1 volume route")
    if parts[4]?.getD [] = [] then parseVolumeRoute parts else parseResourceRoute parts

end Mounts

/-! A route that is written as a URL path is read back as it was.

Encoding leaves no separator in a segment and nothing that the URL would escape. What a URL
does drop are dot segments, and only the name of the volume can be one.
-/

namespace Mounts

/-! ## Encoded segments -/

@[simp] theorem decodeURIComponent_encode (text : Text) : decodeURIComponent (encodeURIComponent text) = .ok text := by
  rw [decodeURIComponent, encodeURIComponent, Percent.decode_encode (by decide)]
  rfl

/-- A segment that a URL path takes as it is: no separator in it and nothing to escape. -/
structure UrlSegment (piece : Text) : Prop where
  filled : piece ≠ []
  kept : ∀ character ∈ piece, pathCharacter character = true
  whole : ∀ character ∈ piece, character ≠ '/' ∧ character.toNat ≠ 0x5C

/-- Whether a URL path takes the text as it is, letter by letter. -/
def takesAll (text : Text) : Bool :=
  text.all fun character => pathCharacter character && decide (character ≠ '/' ∧ character.toNat ≠ 0x5C)

theorem kept_of_takesAll {text : Text} (taken : takesAll text = true) :
    ∀ character ∈ text, pathCharacter character = true ∧ character ≠ '/' ∧ character.toNat ≠ 0x5C := by
  intro character member
  have one := List.all_eq_true.mp taken character member
  rw [Bool.and_eq_true, decide_eq_true_eq] at one
  exact one

theorem uriUnreserved_kept {character : Char} (unreserved : uriUnreserved character = true) :
    pathCharacter character = true ∧ character ≠ '/' ∧ character.toNat ≠ 0x5C := by
  rw [uriUnreserved, Bool.or_eq_true] at unreserved
  rcases unreserved with letter | mark
  · have code : 0x30 ≤ character.toNat ∧ character.toNat ≤ 0x39 ∨ 0x41 ≤ character.toNat ∧ character.toNat ≤ 0x5A ∨
        0x61 ≤ character.toNat ∧ character.toNat ≤ 0x7A := by
      delta Char.isAlphanum Char.isAlpha Char.isUpper Char.isLower Char.isDigit at letter
      simp only [Bool.or_eq_true, Bool.and_eq_true, decide_eq_true_eq, ge_iff_le, UInt32.le_iff_toNat_le, Char.reduceVal,
        UInt32.reduceToNat] at letter
      change 0x30 ≤ character.val.toNat ∧ character.val.toNat ≤ 0x39 ∨ 0x41 ≤ character.val.toNat ∧ character.val.toNat ≤ 0x5A ∨
        0x61 ≤ character.val.toNat ∧ character.val.toNat ≤ 0x7A
      omega
    refine ⟨?_, ?_, ?_⟩
    · simp only [pathCharacter, List.mem_cons, List.not_mem_nil, or_false, Bool.and_eq_true, decide_eq_true_eq,
        Bool.not_eq_true', decide_eq_false_iff_not]
      omega
    · rintro rfl
      revert code
      decide
    · omega
  · have all := @kept_of_takesAll "-_.!~*'()".toList (by decide)
    exact all character (by simpa using mark)

theorem encodeURIComponent_segment {piece : Text} (filled : piece ≠ []) : UrlSegment (encodeURIComponent piece) := by
  have spelled : ∀ character ∈ encodeURIComponent piece,
      pathCharacter character = true ∧ character ≠ '/' ∧ character.toNat ≠ 0x5C := by
    intro character member
    rcases Percent.mem_encode member with own | digit
    · exact uriUnreserved_kept own
    · exact @kept_of_takesAll "%0123456789ABCDEF".toList (by decide) character digit
  exact ⟨fun empty => filled ((Percent.encode_eq_nil (by decide)).mp empty),
    fun character member => (spelled character member).1, fun character member => (spelled character member).2⟩

/-- Decoding tells a dot segment from everything else. -/
theorem encodeURIComponent_dots (piece : Text) :
    (encodeURIComponent piece ∈ singleDots → piece = ".".toList) ∧
      (encodeURIComponent piece ∈ doubleDots → piece = "..".toList) := by
  have single : ∀ spelled ∈ singleDots, Percent.decode spelled = some ".".toList := by decide +kernel
  have double : ∀ spelled ∈ doubleDots, Percent.decode spelled = some "..".toList := by decide +kernel
  have own : Percent.decode (encodeURIComponent piece) = some piece := Percent.decode_encode (by decide) piece
  constructor
  · intro member
    have decoded := single _ member
    rw [own] at decoded
    exact Option.some.inj decoded
  · intro member
    have decoded := double _ member
    rw [own] at decoded
    exact Option.some.inj decoded

/-! ## The URL -/

theorem splitOn_absolute {pieces : List Text} (separable : Separable '/' pieces) (some_ : pieces ≠ []) :
    (absolute '/' pieces).splitOn '/' = [] :: pieces := by
  have joined := List.splitOn_intercalate '/' (fun piece member => (separable piece member).2) some_
  have cut := List.splitOn_append_cons_self_of_not_mem (show '/' ∉ ([] : Text) by simp) (['/'].intercalate pieces)
  rw [joined] at cut
  exact cut

theorem UrlSegment.separable {pieces : List Text} (each : ∀ piece ∈ pieces, UrlSegment piece) : Separable '/' pieces :=
  fun piece member => ⟨(each piece member).filled, fun inside => ((each piece member).whole _ inside).1 rfl⟩

theorem setPathname_absolute {pieces : List Text} (each : ∀ piece ∈ pieces, UrlSegment piece) (some_ : pieces ≠ []) :
    setPathname (absolute '/' pieces) = absolute '/' (pathSegments [] pieces) := by
  have character : ∀ c ∈ absolute '/' pieces, c.toNat ∉ [0x9, 0xA, 0xD] ∧ c.toNat ≠ 0x5C := by
    intro c member
    rcases mem_absolute member with rfl | ⟨piece, listed, inside⟩
    · decide
    · have kept := (each piece listed).kept c inside
      simp only [pathCharacter, Bool.and_eq_true, decide_eq_true_eq] at kept
      refine ⟨?_, ((each piece listed).whole c inside).2⟩
      simp only [List.mem_cons, List.not_mem_nil, or_false]
      omega
  have filtered : (absolute '/' pieces).filter (fun c => !(c.toNat ∈ [0x9, 0xA, 0xD])) = absolute '/' pieces := by
    apply List.filter_eq_self.mpr
    intro c member
    simpa using (character c member).1
  have mapped : (absolute '/' pieces).map (fun c => if c.toNat = 0x5C then '/' else c) = absolute '/' pieces := by
    refine Eq.trans (List.map_congr_left ?_) (List.map_id _)
    intro c member
    exact if_neg (character c member).2
  have escaped : pieces.map (Percent.encode fun c => pathCharacter c) = pieces := by
    refine Eq.trans (List.map_congr_left ?_) (List.map_id _)
    intro piece member
    exact Percent.encode_of_kept (each piece member).kept
  unfold setPathname
  dsimp only
  rw [filtered, mapped, splitOn_absolute (UrlSegment.separable each) some_, List.head?_cons, if_pos rfl, List.tail_cons,
    escaped, absolute]

theorem pathSegments_of_plain {pieces : List Text} (plain : ∀ piece ∈ pieces, piece ∉ singleDots ∧ piece ∉ doubleDots)
    (resolved : List Text) : pathSegments resolved pieces = resolved ++ pieces := by
  induction pieces generalizing resolved with
  | nil => simp [pathSegments]
  | cons piece pieces ih =>
    obtain ⟨single, double⟩ := plain piece List.mem_cons_self
    have rest := ih (fun other member => plain other (List.mem_cons_of_mem _ member)) (resolved ++ [piece])
    simp only [pathSegments, if_neg single, if_neg double, rest, List.append_assoc, List.singleton_append]

/-! ## Routes -/

/-- The segments of the URL path of a route. -/
def routeSegments (volume : Text) (resource : Resource) (path : Text) : List Text :=
  "v1".toList :: "volumes".toList :: encodeURIComponent volume :: resource.name.toList ::
    (fields '/' path).map encodeURIComponent

theorem buildV1Path_eq (volume : Text) (resource : Resource) (path : Text) :
    buildV1Path volume resource path = absolute '/' (routeSegments volume resource path) := by
  have listed : (if path = ['/'] then [] else ((path.splitOn '/').filter fun piece => !piece.isEmpty).map encodeURIComponent) =
      (fields '/' path).map encodeURIComponent := by
    split
    · rename_i root
      rw [root]
      rfl
    · rfl
  unfold buildV1Path routeSegments
  dsimp only
  rw [listed]
  generalize (fields '/' path).map encodeURIComponent = suffix
  have volumes : "/v1/volumes/".toList = ['/'] ++ "v1".toList ++ ['/'] ++ "volumes".toList ++ ['/'] := by decide
  rw [volumes]
  cases suffix with
  | nil => simp [absolute, List.intercalate_cons_cons]
  | cons first rest => simp [absolute, List.intercalate_cons_cons]

theorem resource_segment (resource : Resource) : UrlSegment resource.name.toList := by
  have all : resource.name.toList ≠ [] ∧ takesAll resource.name.toList = true := by
    cases resource <;> decide
  have spelled := kept_of_takesAll all.2
  exact ⟨all.1, fun character member => (spelled character member).1, fun character member => (spelled character member).2⟩

theorem routeSegments_url {volume : Text} (named : volume ≠ []) (resource : Resource) (path : Text) :
    ∀ piece ∈ routeSegments volume resource path, UrlSegment piece := by
  have fixed : ∀ piece ∈ ["v1".toList, "volumes".toList], piece ≠ [] ∧ takesAll piece = true := by decide
  have known : ∀ piece ∈ ["v1".toList, "volumes".toList], UrlSegment piece := by
    intro piece member
    obtain ⟨filled, taken⟩ := fixed piece member
    have spelled := kept_of_takesAll taken
    exact ⟨filled, fun character inside => (spelled character inside).1, fun character inside => (spelled character inside).2⟩
  intro piece member
  simp only [routeSegments, List.mem_cons, List.mem_map] at member
  rcases member with rfl | rfl | rfl | rfl | ⟨source, listed, rfl⟩
  · exact known _ List.mem_cons_self
  · exact known _ (List.mem_cons_of_mem _ List.mem_cons_self)
  · exact encodeURIComponent_segment named
  · exact resource_segment resource
  · exact encodeURIComponent_segment (fields_separable path source listed).1

/-- The resources of which a mounted subtree is served by its target. -/
def mounted : List Resource := [.files, .directories, .trees, .operations]

theorem mapM_decode (pieces : List Text) : (pieces.map encodeURIComponent).mapM decodeURIComponent = .ok pieces := by
  induction pieces with
  | nil => rfl
  | cons piece pieces ih =>
    rw [List.map_cons, List.mapM_cons, decodeURIComponent_encode, ok_bind, ih]
    rfl

theorem routePath_suffix (front : List Text) (five : front.length = 5) (pieces : List Text) :
    routePath (front ++ pieces.map encodeURIComponent) = .ok (absolute '/' pieces) := by
  have dropped : (front ++ pieces.map encodeURIComponent).drop 5 = pieces.map encodeURIComponent := by
    rw [← five, List.drop_left]
  unfold routePath
  rw [dropped, mapM_decode, List.length_append, List.length_map, five]
  cases pieces with
  | nil => rfl
  | cons => exact if_pos (by simp)

/-- The path is read back as its segments spell it. -/
theorem parseV1Route_segments {volume : Text} (named : volume ≠ []) {resource : Resource} (listed : resource ∈ mounted)
    (path : Text) : parseV1Route (absolute '/' (routeSegments volume resource path)) =
      .ok (some ⟨volume, resource, absolute '/' (fields '/' path)⟩) := by
  have cut : (absolute '/' (routeSegments volume resource path)).splitOn '/' =
      ["", "v1", "volumes"].map String.toList ++ [encodeURIComponent volume, resource.name.toList] ++
        (fields '/' path).map encodeURIComponent :=
    splitOn_absolute (UrlSegment.separable (routeSegments_url named resource path)) (by simp [routeSegments])
  have spelled : encodeURIComponent volume ≠ [] := (encodeURIComponent_segment named).filled
  have suffix := routePath_suffix (["", "v1", "volumes"].map String.toList ++ [encodeURIComponent volume, resource.name.toList])
    rfl (fields '/' path)
  have known : ∀ resource ∈ mounted, resource.name.toList ≠ [] ∧
      resources.find? (fun other => other.name.toList = resource.name.toList) = some resource ∧
      resource ∉ [Resource.usage, .usageHistory, .metrics] ∧ resource ≠ .exec := by decide +kernel
  obtain ⟨filled, found, suffixed, command⟩ := known resource listed
  unfold parseV1Route
  rw [cut]
  generalize (fields '/' path).map encodeURIComponent = rest at suffix ⊢
  have third : (["", "v1", "volumes"].map String.toList ++ [encodeURIComponent volume, resource.name.toList] ++ rest)[3]?.getD [] =
      encodeURIComponent volume := rfl
  have fourth : (["", "v1", "volumes"].map String.toList ++ [encodeURIComponent volume, resource.name.toList] ++ rest)[4]?.getD [] =
      resource.name.toList := rfl
  have resourceRoute : parseResourceRoute
      (["", "v1", "volumes"].map String.toList ++ [encodeURIComponent volume, resource.name.toList] ++ rest) =
        .ok (some ⟨volume, resource, absolute '/' (fields '/' path)⟩) := by
    unfold parseResourceRoute
    simp only [third, fourth, found, required, ok_bind, refuse_of_not (not_and_of_not_left _ suffixed),
      refuse_of_not (not_and_of_not_left _ command), decodeURIComponent_encode, suffix]
    rfl
  dsimp only
  rw [if_neg (by simp), refuse_of_not (by rw [third]; simpa using spelled), ok_bind, fourth, if_neg filled, resourceRoute]

end Mounts

end AiryFS
