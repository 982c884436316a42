import AiryFS.Foundation.ShellLanguage
import AiryFS.Hrana.ValueCodec
import AiryFS.Mounts.Resolution

/-! The shell lines by which the container mounts the guests of a volume.

A mountpoint and the name of a target volume are spliced into them as they are. The lines say what they are
meant to say exactly for the names that mean nothing to a shell.
-/

set_option autoImplicit false

namespace AiryFS

open Foundation Foundation.Shell Auth Mounts

namespace MountCommands

def MOUNT_ROOT : Text := "/volume".toList

/-! ## What the worker hands over -/

def base64UrlEncode (bytes : Bytes) : Text :=
  ((Hrana.btoa bytes).map fun c => if c = '+' then '-' else if c = '/' then '_' else c).rdropWhile (· = '=')

/-- The token of a capability: its JSON text and the signature over it. -/
def signCapability (payload signature : Bytes) : Text := base64UrlEncode payload ++ '.' :: base64UrlEncode signature

/-- The token of a mount is signed by the volume that makes the mount, or there is none. -/
def Signed (token : Option Text) : Prop := ∀ text ∈ token, ∃ payload signature, text = signCapability payload signature

structure GuestMountSpec where
  mountpoint : Text
  targetVolume : Text
  dataHttpPort : Nat
  invalidationHttpPort : Nat
  authToken : Text

def guestMountRuntime (index : Nat) (mount : MountRecord) : GuestMountSpec where
  mountpoint := mount.mountpoint
  targetVolume := mount.targetVolume
  dataHttpPort := 8100 + index
  invalidationHttpPort := 8200 + index
  authToken := mount.token.getD []

/-! ## The lines -/

def localhost (port : Nat) : Text := "http://localhost:".toList ++ Nat.toDigits 10 port

def buildGuestMountCommand (spec : GuestMountSpec) : Text :=
  [' '].intercalate [
    "agentfs mount".toList,
    "--remote-url ".toList ++ localhost spec.dataHttpPort,
    "--invalidation-url ".toList ++ localhost spec.invalidationHttpPort,
    "--auth-token \"".toList ++ spec.authToken ++ ['"'],
    "--cache-ttl-ms 1000".toList,
    "--foreground".toList,
    spec.targetVolume,
    MOUNT_ROOT ++ spec.mountpoint]

/-- The line of `isMountedAt`. -/
def probe (point : Text) : Text := "mountpoint -q ".toList ++ point

def unmount (point : Text) : Text :=
  "fusermount -u -z ".toList ++ point ++ ' ' :: "2>/dev/null || umount -l ".toList ++ point ++ ' ' :: "2>/dev/null".toList

def sealReadOnly (stub : Text) : Text :=
  "mount --bind ".toList ++ stub ++ [' '] ++ stub ++ ' ' :: "&& mount -o remount,bind,ro ".toList ++ stub ++ [' '] ++ stub

/-! ## What they are meant to run -/

/-- A program whose error output is thrown away. -/
def silent (arguments : List Text) : Invocation := ⟨arguments, [(some ['2'], ['>'], "/dev/null".toList)]⟩

/-- What comes before the volume and the mountpoint. -/
def options (spec : GuestMountSpec) : List Text :=
  ["agentfs".toList, "mount".toList, "--remote-url".toList, localhost spec.dataHttpPort,
    "--invalidation-url".toList, localhost spec.invalidationHttpPort, "--auth-token".toList, spec.authToken,
    "--cache-ttl-ms".toList, "1000".toList, "--foreground".toList]

/-- Each line runs its programs on the volume and the mountpoint, and nothing else. -/
structure Intended (spec : GuestMountSpec) (point : Text) : Prop where
  mounts : reading (buildGuestMountCommand spec) = some (⟨options spec ++ [spec.targetVolume, point], []⟩, [])
  probes : reading (probe point) = some (⟨["mountpoint".toList, "-q".toList, point], []⟩, [])
  unmounts : reading (unmount point) =
    some (silent ["fusermount".toList, "-u".toList, "-z".toList, point], [(['|', '|'], silent ["umount".toList, "-l".toList, point])])
  seals : reading (sealReadOnly point) =
    some (⟨["mount".toList, "--bind".toList, point, point], []⟩,
      [(['&', '&'], ⟨["mount".toList, "-o".toList, "remount,bind,ro".toList, point, point], []⟩)])

variable {spec : GuestMountSpec} {text rest : Text}

/-! ## Tokens and ports -/

theorem base64UrlEncode_quotable {bytes : Bytes} {c : Char} (member : c ∈ base64UrlEncode bytes) : c ∉ doubleSpecial := by
  have digits : ∀ value < 64, (if Hrana.btoa.digit value = '+' then '-' else if Hrana.btoa.digit value = '/' then '_'
      else Hrana.btoa.digit value) ∉ doubleSpecial := by decide +kernel
  have member := (List.rdropWhile_prefix _ _).subset member
  obtain ⟨digit, coded, rfl⟩ := List.mem_map.mp member
  rw [Hrana.Base64.btoa_eq, List.mem_append] at coded
  rcases coded with coded | padded
  · obtain ⟨value, listed, rfl⟩ := List.mem_map.mp coded
    exact digits value (Hrana.Base64.sixes_lt bytes value listed)
  · obtain rfl := List.eq_of_mem_replicate padded
    decide

theorem Signed.quotable {token : Option Text} (signed : Signed token) : ∀ c ∈ token.getD [], c ∉ doubleSpecial := by
  cases token with
  | none => exact fun c member => absurd member List.not_mem_nil
  | some text =>
    obtain ⟨payload, signature, rfl⟩ := signed text rfl
    intro c member
    rcases List.mem_append.mp member with payload_ | later
    · exact base64UrlEncode_quotable payload_
    rcases List.mem_cons.mp later with rfl | signature_
    · decide
    · exact base64UrlEncode_quotable signature_

theorem localhost_argument (port : Nat) : Argument (localhost port) := by
  have scheme : Plain "http://localhost:".toList := by decide
  have digits : Plain (Nat.toDigits 10 port) := by
    intro c member special_
    have undigited : (special.all fun c => !c.isDigit) = true := by decide
    have other := List.all_eq_true.mp undigited c special_
    rw [Nat.isDigit_of_mem_toDigits (by decide) (by decide) member] at other
    cases other
  refine ⟨List.append_ne_nil_of_left_ne_nil (by decide) _, scheme.append digits, ?_⟩
  show some 'h' ≠ some '#'
  decide

theorem localhost_literal (port : Nat) : literal (bare (localhost port)) = some (localhost port) := by
  refine literal_bare.mpr ⟨isPattern_free ?_, ?_⟩
  · intro letter member
    obtain ⟨c, listed, rfl⟩ := List.mem_map.mp member
    right
    rcases List.mem_append.mp listed with scheme | digit
    · have free : ("http://localhost:".toList.all fun c => c ∉ ['*', '?', '[']) = true := by decide
      exact of_decide_eq_true (List.all_eq_true.mp free c scheme)
    · have undigited : (['*', '?', '['].all fun c => !c.isDigit) = true := by decide
      intro marked
      have other := List.all_eq_true.mp undigited c marked
      rw [Nat.isDigit_of_mem_toDigits (by decide) (by decide) digit] at other
      cases other
  · show some 'h' ≠ some '~'
    decide

/-! ## The guest mount command -/

theorem buildGuestMountCommand_eq (spec : GuestMountSpec) : buildGuestMountCommand spec =
    "agentfs".toList ++ ' ' :: ("mount".toList ++ ' ' :: ("--remote-url".toList ++ ' ' :: (localhost spec.dataHttpPort ++ ' ' ::
      ("--invalidation-url".toList ++ ' ' :: (localhost spec.invalidationHttpPort ++ ' ' :: ("--auth-token".toList ++ ' ' ::
        ('"' :: (spec.authToken ++ '"' :: ' ' :: ("--cache-ttl-ms".toList ++ ' ' :: ("1000".toList ++ ' ' ::
          ("--foreground".toList ++ ' ' :: (spec.targetVolume ++ ' ' :: (MOUNT_ROOT ++ spec.mountpoint))))))))))))) := by
  simp only [buildGuestMountCommand, List.intercalate_cons_cons, List.intercalate_singleton, List.append_assoc]
  rfl

/-- The words before the volume. -/
def front (spec : GuestMountSpec) : List (List Letter) :=
  [bare "agentfs".toList, bare "mount".toList, bare "--remote-url".toList, bare (localhost spec.dataHttpPort),
    bare "--invalidation-url".toList, bare (localhost spec.invalidationHttpPort), bare "--auth-token".toList,
    spec.authToken.map fun c => ⟨c, true⟩, bare "--cache-ttl-ms".toList, bare "1000".toList, bare "--foreground".toList]

theorem literal_front (spec : GuestMountSpec) : (front spec).mapM literal = some (options spec) := by
  simp only [front, options, List.mapM_cons, List.mapM_nil, localhost_literal, literal_quoted]
  rfl

theorem tokens_front (quotable : ∀ c ∈ spec.authToken, c ∉ doubleSpecial) : tokensOf (buildGuestMountCommand spec) =
    (lex .nothing .bare (spec.targetVolume ++ ' ' :: (MOUNT_ROOT ++ spec.mountpoint))).map ((front spec).map Token.word ++ ·) := by
  have fixed : ∀ text ∈ ["agentfs".toList, "mount".toList, "--remote-url".toList, "--invalidation-url".toList, "--auth-token".toList,
      "--cache-ttl-ms".toList, "1000".toList, "--foreground".toList], Argument text := by
    decide
  rw [tokensOf, buildGuestMountCommand_eq, (fixed _ (by simp)).lex, (fixed _ (by simp)).lex, (fixed _ (by simp)).lex,
    (localhost_argument _).lex, (fixed _ (by simp)).lex, (localhost_argument _).lex, (fixed _ (by simp)).lex, lex_quoted quotable,
    (fixed _ (by simp)).lex, (fixed _ (by simp)).lex, (fixed _ (by simp)).lex]
  simp only [Option.map_map]
  rfl

theorem isPattern_root (text : Text) : isPattern (bare (MOUNT_ROOT ++ text)) = isPattern (bare text) := rfl

/-- The text of a path below the mount root is an argument that stands for itself. -/
structure PathStands (text : Text) : Prop where
  plain : Plain text
  unexpanded : isPattern (bare text) = false

/-- The name of a volume is an argument that stands for itself. A dash at its start means nothing to a shell. -/
structure VolumeStands (text : Text) : Prop where
  argument : Argument text
  unexpanded : literal (bare text) = some text

theorem PathStands.argument (stands : PathStands text) : Argument (MOUNT_ROOT ++ text) := by
  have root : Plain MOUNT_ROOT := by decide
  refine ⟨List.append_ne_nil_of_left_ne_nil (by decide) _, root.append stands.plain, ?_⟩
  show some '/' ≠ some '#'
  decide

theorem PathStands.literal (stands : PathStands text) : literal (bare (MOUNT_ROOT ++ text)) = some (MOUNT_ROOT ++ text) := by
  refine literal_bare.mpr ⟨by rw [isPattern_root]; exact stands.unexpanded, ?_⟩
  show some '/' ≠ some '~'
  decide

theorem pathStands_of (plain : Plain (MOUNT_ROOT ++ text)) (literal_ : Shell.literal (bare (MOUNT_ROOT ++ text)) = some (MOUNT_ROOT ++ text)) :
    PathStands text :=
  ⟨fun c member => plain c (List.mem_append_right _ member), by
    rw [← isPattern_root]
    exact (literal_bare.mp literal_).1⟩

section
variable {α β : Type} {f : α → Option β} {xs ys : List α} {as bs : List β} {one other : β}

theorem mapM_behind (front : xs.mapM f = some as) (mapped : (xs ++ ys).mapM f = some (as ++ bs)) : ys.mapM f = some bs := by
  rw [List.mapM_append, front, Option.bind_eq_bind, Option.bind_some] at mapped
  obtain ⟨later, mapped, same⟩ := Option.bind_eq_some_iff.mp mapped
  rw [mapped, List.append_cancel_left (Option.some.inj same)]

theorem mapM_singleton (mapped : xs.mapM f = some [one]) : ∃ x, xs = [x] ∧ f x = some one := by
  obtain _ | ⟨x, rest⟩ := xs
  · cases mapped
  rw [List.mapM_cons] at mapped
  obtain ⟨y, first, mapped⟩ := Option.bind_eq_some_iff.mp mapped
  obtain ⟨ys, mapped, same⟩ := Option.bind_eq_some_iff.mp mapped
  cases same
  rw [mapM_eq_nil mapped]
  exact ⟨x, rfl, first⟩

theorem mapM_pair (mapped : xs.mapM f = some [one, other]) : ∃ x y, xs = [x, y] ∧ f x = some one ∧ f y = some other := by
  obtain _ | ⟨x, rest⟩ := xs
  · cases mapped
  rw [List.mapM_cons] at mapped
  obtain ⟨_, first, mapped⟩ := Option.bind_eq_some_iff.mp mapped
  obtain ⟨ys, mapped, same⟩ := Option.bind_eq_some_iff.mp mapped
  cases same
  obtain ⟨y, rfl, second⟩ := mapM_singleton mapped
  exact ⟨x, y, rfl, first, second⟩

end

/-- The words that are left behind the ones that are known. -/
theorem words_behind {known words : List (List Letter)} {last : List Token} {as bs : List Text}
    (same : known.map Token.word ++ last = words.map Token.word) (front : known.mapM Shell.literal = some as)
    (literals : words.mapM Shell.literal = some (as ++ bs)) :
    ∃ behind : List (List Letter), last = behind.map Token.word ∧ behind.mapM Shell.literal = some bs := by
  obtain ⟨before, behind, rfl, front_, rfl⟩ := List.map_eq_append_iff.mp same.symm
  obtain rfl := (List.map_injective_iff.mpr fun _ _ => Token.word.inj) front_
  exact ⟨behind, rfl, mapM_behind front literals⟩

theorem mounts_iff (quotable : ∀ c ∈ spec.authToken, c ∉ doubleSpecial) :
    reading (buildGuestMountCommand spec) = some (⟨options spec ++ [spec.targetVolume, MOUNT_ROOT ++ spec.mountpoint], []⟩, []) ↔
      VolumeStands spec.targetVolume ∧ PathStands spec.mountpoint := by
  rw [reading_words, tokens_front quotable]
  constructor
  · rintro ⟨words, read, -, literals⟩
    obtain ⟨last, lexed, same⟩ := Option.map_eq_some_iff.mp read
    obtain ⟨behind, rfl, literals⟩ := words_behind same (literal_front spec) literals
    obtain ⟨first, second, rfl, one, other⟩ := mapM_pair literals
    obtain ⟨volume, point, rfl, rfl⟩ := arguments_of_lex_pair lexed (literal_eq_some.mp one).1 (literal_eq_some.mp other).1
    exact ⟨⟨volume, one⟩, pathStands_of point.plain other⟩
  · rintro ⟨volume, path⟩
    refine ⟨front spec ++ [bare spec.targetVolume, bare (MOUNT_ROOT ++ spec.mountpoint)], ?_, ?_, ?_⟩
    · rw [volume.argument.lex, path.argument.lex_last]
      rfl
    · exact ⟨_, _, rfl, by decide, by decide⟩
    · rw [List.mapM_append, literal_front]
      simp [volume.unexpanded, path.literal]

/-! ## The lines about a mountpoint -/

theorem begun_root (text : Text) : lex .nothing .bare (MOUNT_ROOT ++ text) = lex (.word (bare MOUNT_ROOT)) .bare text :=
  Argument.begun (by decide) text

theorem probes_iff : reading (probe (MOUNT_ROOT ++ text)) = some (⟨["mountpoint".toList, "-q".toList, MOUNT_ROOT ++ text], []⟩, []) ↔
    PathStands text := by
  have cut : tokensOf (probe (MOUNT_ROOT ++ text)) =
      (lex (.word (bare MOUNT_ROOT)) .bare text).map ([.word (bare "mountpoint".toList), .word (bare "-q".toList)] ++ ·) := by
    rw [← begun_root]
    exact lex_of_scan rfl _
  rw [reading_words, cut]
  constructor
  · rintro ⟨words, read, -, literals⟩
    obtain ⟨last, lexed, same⟩ := Option.map_eq_some_iff.mp read
    have known : [bare "mountpoint".toList, bare "-q".toList].mapM Shell.literal = some ["mountpoint".toList, "-q".toList] := rfl
    obtain ⟨behind, rfl, literals⟩ := words_behind same known literals
    obtain ⟨point, rfl, one⟩ := mapM_singleton literals
    obtain ⟨plain, rfl⟩ := plain_of_lex_last lexed (by rw [(literal_eq_some.mp one).1, chars_bare])
    have root : Plain MOUNT_ROOT := by decide
    rw [← bare_append] at one
    exact pathStands_of (root.append plain) one
  · intro stands
    refine ⟨[bare "mountpoint".toList, bare "-q".toList, bare (MOUNT_ROOT ++ text)], ?_, ⟨_, _, rfl, by decide, by decide⟩, ?_⟩
    · rw [← begun_root, stands.argument.lex_last]
      rfl
    · simp only [List.mapM_cons, List.mapM_nil, stands.literal]
      rfl

theorem PathStands.unmounts (stands : PathStands text) : reading (unmount (MOUNT_ROOT ++ text)) =
    some (silent ["fusermount".toList, "-u".toList, "-z".toList, MOUNT_ROOT ++ text],
      [(['|', '|'], silent ["umount".toList, "-l".toList, MOUNT_ROOT ++ text])]) := by
  have point := stands.argument
  have first : scan .nothing .bare "fusermount -u -z ".toList =
      some ([.word (bare "fusermount".toList), .word (bare "-u".toList), .word (bare "-z".toList)], .nothing, .bare) := by decide
  have second : scan .nothing .bare "2>/dev/null || umount -l ".toList = some ([.number ['2'], .operator ['>'],
      .word (bare "/dev/null".toList), .operator ['|', '|'], .word (bare "umount".toList), .word (bare "-l".toList)],
      .nothing, .bare) := by decide
  have last : lex .nothing .bare "2>/dev/null".toList =
      some [.number ['2'], .operator ['>'], .word (bare "/dev/null".toList)] := by decide
  have spelled : ∀ front point middle last : Text, front ++ point ++ ' ' :: middle ++ point ++ ' ' :: last =
      front ++ (point ++ ' ' :: (middle ++ (point ++ ' ' :: last))) := by
    intro front point middle last
    simp
  have cut : tokensOf (unmount (MOUNT_ROOT ++ text)) = some ([.word (bare "fusermount".toList), .word (bare "-u".toList),
      .word (bare "-z".toList), .word (bare (MOUNT_ROOT ++ text)), .number ['2'], .operator ['>'], .word (bare "/dev/null".toList),
      .operator ['|', '|'], .word (bare "umount".toList), .word (bare "-l".toList), .word (bare (MOUNT_ROOT ++ text)),
      .number ['2'], .operator ['>'], .word (bare "/dev/null".toList)]) := by
    refine (congrArg (lex .nothing .bare) (spelled "fusermount -u -z ".toList (MOUNT_ROOT ++ text) "2>/dev/null || umount -l ".toList
      "2>/dev/null".toList)).trans ?_
    rw [lex_of_scan first, point.lex, lex_of_scan second, point.lex, last]
    rfl
  have one : Simple.read ⟨[bare "fusermount".toList, bare "-u".toList, bare "-z".toList, bare (MOUNT_ROOT ++ text)],
      [⟨some ['2'], ['>'], bare "/dev/null".toList⟩]⟩ =
      some (silent ["fusermount".toList, "-u".toList, "-z".toList, MOUNT_ROOT ++ text]) := by
    refine Simple.read_of ⟨_, _, rfl, by decide, by decide⟩ ?_ rfl
    simp only [List.mapM_cons, List.mapM_nil, stands.literal]
    rfl
  have other : Simple.read ⟨[bare "umount".toList, bare "-l".toList, bare (MOUNT_ROOT ++ text)],
      [⟨some ['2'], ['>'], bare "/dev/null".toList⟩]⟩ = some (silent ["umount".toList, "-l".toList, MOUNT_ROOT ++ text]) := by
    refine Simple.read_of ⟨_, _, rfl, by decide, by decide⟩ ?_ rfl
    simp only [List.mapM_cons, List.mapM_nil, stands.literal]
    rfl
  exact reading_pair cut rfl one other

theorem PathStands.seals (stands : PathStands text) : reading (sealReadOnly (MOUNT_ROOT ++ text)) =
    some (⟨["mount".toList, "--bind".toList, MOUNT_ROOT ++ text, MOUNT_ROOT ++ text], []⟩,
      [(['&', '&'], ⟨["mount".toList, "-o".toList, "remount,bind,ro".toList, MOUNT_ROOT ++ text, MOUNT_ROOT ++ text], []⟩)]) := by
  have point := stands.argument
  have first : scan .nothing .bare "mount --bind ".toList =
      some ([.word (bare "mount".toList), .word (bare "--bind".toList)], .nothing, .bare) := by decide
  have second : scan .nothing .bare "&& mount -o remount,bind,ro ".toList = some ([.operator ['&', '&'], .word (bare "mount".toList),
      .word (bare "-o".toList), .word (bare "remount,bind,ro".toList)], .nothing, .bare) := by decide
  have spelled : ∀ front stub middle : Text, front ++ stub ++ [' '] ++ stub ++ ' ' :: middle ++ stub ++ [' '] ++ stub =
      front ++ (stub ++ ' ' :: (stub ++ ' ' :: (middle ++ (stub ++ ' ' :: stub)))) := by
    intro front stub middle
    simp
  have cut : tokensOf (sealReadOnly (MOUNT_ROOT ++ text)) = some ([.word (bare "mount".toList), .word (bare "--bind".toList),
      .word (bare (MOUNT_ROOT ++ text)), .word (bare (MOUNT_ROOT ++ text)), .operator ['&', '&'], .word (bare "mount".toList),
      .word (bare "-o".toList), .word (bare "remount,bind,ro".toList), .word (bare (MOUNT_ROOT ++ text)),
      .word (bare (MOUNT_ROOT ++ text))]) := by
    refine (congrArg (lex .nothing .bare) (spelled "mount --bind ".toList (MOUNT_ROOT ++ text)
      "&& mount -o remount,bind,ro ".toList)).trans ?_
    rw [lex_of_scan first, point.lex, point.lex, lex_of_scan second, point.lex, point.lex_last]
    rfl
  have one : Simple.read ⟨[bare "mount".toList, bare "--bind".toList, bare (MOUNT_ROOT ++ text), bare (MOUNT_ROOT ++ text)], []⟩ =
      some ⟨["mount".toList, "--bind".toList, MOUNT_ROOT ++ text, MOUNT_ROOT ++ text], []⟩ := by
    refine Simple.read_of ⟨_, _, rfl, by decide, by decide⟩ ?_ rfl
    simp only [List.mapM_cons, List.mapM_nil, stands.literal]
    rfl
  have other : Simple.read ⟨[bare "mount".toList, bare "-o".toList, bare "remount,bind,ro".toList, bare (MOUNT_ROOT ++ text),
      bare (MOUNT_ROOT ++ text)], []⟩ =
      some ⟨["mount".toList, "-o".toList, "remount,bind,ro".toList, MOUNT_ROOT ++ text, MOUNT_ROOT ++ text], []⟩ := by
    refine Simple.read_of ⟨_, _, rfl, by decide, by decide⟩ ?_ rfl
    simp only [List.mapM_cons, List.mapM_nil, stands.literal]
    rfl
  exact reading_pair cut rfl one other

/-! ## Every accepted mount -/

variable {now : Int} {mounts mounts' : FsMount} {input : CreateMountInput} {record : MountRecord}

/-- The lines made for an accepted mount run what they are meant to, and nothing else, exactly when neither the mountpoint
nor the name of the target volume means anything to a shell. -/
theorem lines_intended_iff (created : createMountRow now mounts input = .ok (record, mounts')) (signed : Signed input.token) (index : Nat) :
    Intended (guestMountRuntime index record) (MOUNT_ROOT ++ record.mountpoint) ↔
      PathStands (normalizePath input.mountpoint) ∧ VolumeStands input.targetVolume := by
  obtain ⟨rfl, -⟩ := createMountRow_spec created
  have quotable : ∀ c ∈ (guestMountRuntime index (input.row now)).authToken, c ∉ doubleSpecial := signed.quotable
  have lines := mounts_iff quotable
  constructor
  · intro intended
    exact (lines.mp intended.mounts).symm
  · rintro ⟨path, volume⟩
    exact ⟨lines.mpr ⟨volume, path⟩, probes_iff.mpr path, path.unmounts, path.seals⟩

/-- The first mount of a volume is accepted for any path but the root, and for any other volume that has a name. -/
theorem createMountRow_first (now : Int) (input : CreateMountInput) (below : normalizePath input.mountpoint ≠ ['/']) (named : SnapshotStorage.trim input.targetVolume ≠ [])
    (other : input.targetVolume ≠ input.hostVolume) :
    ∃ mounts', createMountRow now Table.empty input = .ok (input.row now, mounts') := by
  have none_ : listMounts Table.empty = [] := List.mergeSort_nil
  have inserted : ∃ mounts', (Table.empty : FsMount).insert? (input.row now) = some mounts' := Table.insert?_of_absent _ rfl
  obtain ⟨mounts', inserted⟩ := inserted
  refine ⟨mounts', ?_⟩
  unfold createMountRow
  dsimp only
  rw [refuse_of_not below, ok_bind, refuse_of_not named, ok_bind, refuse_of_not other, ok_bind, none_, List.mapM_nil, inserted]
  rfl

def plainMount : CreateMountInput := ⟨"/data".toList, "archive".toList, none, "home".toList, none, none, none⟩

theorem lines_intended_plain : ∃ record mounts', createMountRow 0 Table.empty plainMount = .ok (record, mounts') ∧
    Intended (guestMountRuntime 0 record) (MOUNT_ROOT ++ record.mountpoint) := by
  obtain ⟨mounts', created⟩ := createMountRow_first 0 plainMount (by decide) (by decide) (by decide)
  exact ⟨_, mounts', created, (lines_intended_iff created (fun _ none_ => by cases none_) 0).mpr
    ⟨⟨by decide, by decide⟩, ⟨by decide, by decide⟩⟩⟩

/-- A mountpoint with a semicolon in it. -/
def hostileMount : CreateMountInput := ⟨"/a;reboot".toList, "archive".toList, none, "home".toList, none, none, none⟩

/-- The probe of an accepted mount runs a command that its mountpoint names. -/
theorem mountpoint_runs_command : ∃ record mounts', createMountRow 0 Table.empty hostileMount = .ok (record, mounts') ∧
    Signed hostileMount.token ∧
    reading (probe (MOUNT_ROOT ++ record.mountpoint)) =
      some (⟨["mountpoint".toList, "-q".toList, "/volume/a".toList], []⟩, [([';'], ⟨["reboot".toList], []⟩)]) ∧
    ∀ index, ¬Intended (guestMountRuntime index record) (MOUNT_ROOT ++ record.mountpoint) := by
  obtain ⟨mounts', created⟩ := createMountRow_first 0 hostileMount (by decide) (by decide) (by decide)
  have spelled : MOUNT_ROOT ++ (hostileMount.row 0).mountpoint = "/volume/a;reboot".toList := by decide
  have cut : tokensOf (probe "/volume/a;reboot".toList) = some [.word (bare "mountpoint".toList), .word (bare "-q".toList),
      .word (bare "/volume/a".toList), .operator [';'], .word (bare "reboot".toList)] := by decide
  have one : Simple.read ⟨[bare "mountpoint".toList, bare "-q".toList, bare "/volume/a".toList], []⟩ =
      some ⟨["mountpoint".toList, "-q".toList, "/volume/a".toList], []⟩ := Simple.read_of ⟨_, _, rfl, by decide, by decide⟩ rfl rfl
  have other : Simple.read ⟨[bare "reboot".toList], []⟩ = some ⟨["reboot".toList], []⟩ :=
    Simple.read_of ⟨_, _, rfl, by decide, by decide⟩ rfl rfl
  have read := reading_pair cut rfl one other
  rw [← spelled] at read
  refine ⟨_, mounts', created, (fun _ none_ => by cases none_), read, fun index intended => ?_⟩
  have alone := (Prod.mk.inj (Option.some.inj (read.symm.trans intended.probes))).2
  cases alone

end MountCommands

end AiryFS
