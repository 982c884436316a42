import AiryFS.Files.StreamAlone

/-! When a literal replacement changes only the matches.

The file comes back as a new one: as UTF-8, with the mode and the owners of a new file, and under its path
only. That is what was asked for exactly where the old file was like that.
-/

set_option autoImplicit false

namespace AiryFS

open Foundation

/-! ## What is asked of a call -/

/-- What a literal replacement is to do to the file at a path, given by the bytes of both texts. -/
structure ChangesMatches (before after : Volume) (chunkSize : Nat) (path : Text) (ino : Int) (row : InodeRow)
    (content word other : Bytes) (dryRun : Bool) (result : ReplaceTextResult) : Prop where
  counted : result.count = occurrences word content
  /-- A read sets the access time. -/
  unwritten : dryRun = true ∨ occurrences word content = 0 →
    after = before.updateInode ino fun row => { row with atime := before.now }
  replaced : dryRun = false → occurrences word content ≠ 0 → ∃ new row', AgentFS.resolvePath after path = some new ∧
    after.inode? new = some row' ∧ row'.access = row.access ∧ after.Stores chunkSize new (replaceAll word other content)
  linked : dryRun = false → occurrences word content ≠ 0 → ∀ name, AgentFS.resolvePath before name = some ino →
    ∃ new, AgentFS.resolvePath after name = some new ∧ after.LaidOut chunkSize new (replaceAll word other content)

/-- Where the code does that. -/
structure ReplacesMatches (before : Volume) (path : Text) (ino : Int) (row : InodeRow) (content : Bytes)
    (needle replacement : Text) (dryRun : Bool) : Prop where
  /-- The decoder invents no match. -/
  read : Utf8.replacement ∉ needle ∨ Utf8.Valid content ∨
    occurrences needle (Utf8.decodeFrom none content) = occurrences (Utf8.encode needle) content
  kept : dryRun = false → occurrences (Utf8.encode needle) content ≠ 0 → Utf8.Valid content ∧
    row.access = (DEFAULT_FILE_MODE, 0, 0) ∧
    (replacement = needle ∨ ∀ name, AgentFS.resolvePath before name = some ino → fields '/' name = fields '/' path)

/-- No entry has the hidden name. -/
structure Volume.Unused (volume : Volume) (uuid : Text) : Prop where
  plain : '/' ∉ uuid
  absent : ∀ parent, volume.child parent (".airyfs-upload-".toList ++ uuid) = none

/-! ## The parts of the call -/

namespace ReplaceTextRequest

variable {request : ReplaceTextRequest} {volume volume' after : Volume} {chunkSize : Nat} {uuid text : Text} {ino : Int} {row : InodeRow}
  {content : Bytes} {needle replacement : Text} {result : ReplaceTextResult}

/-- The volume after the file has been read. -/
def touched (volume : Volume) (ino : Int) : Volume := volume.updateInode ino fun row => { row with atime := volume.now }

theorem touches_touched (volume : Volume) (ino : Int) : Volume.Touches ino volume (touched volume ino) :=
  AgentFS.updateInode_touches _ _ _

theorem readText_ok (positive : 0 < chunkSize) (resolved : AgentFS.resolvePath volume request.path = some ino)
    (known : volume.inode? ino = some row) (holds : volume.LaidOut chunkSize ino content)
    (read : request.readText volume = .ok (text, volume')) :
    isDirectory row.mode = false ∧ text = Utf8.decodeFrom none content ∧ volume' = touched volume ino := by
  obtain ⟨stats, found, read⟩ := bind_eq_ok.mp read
  obtain ⟨_, kind, read⟩ := bind_eq_ok.mp read
  obtain ⟨_, _, read⟩ := bind_eq_ok.mp read
  obtain ⟨⟨bytes, later⟩, rows, read⟩ := bind_eq_ok.mp read
  have same : stats = row := by
    obtain ⟨⟨_, number⟩, found', stored⟩ := bind_eq_ok.mp found
    have here := (AgentFS.resolvePathOrThrow_ok found').2
    rw [resolved, Option.some.injEq] at here
    rw [required_eq_ok, ← here, known] at stored
    exact (Option.some.inj stored).symm
  rw [refuse_eq_ok, same] at kind
  obtain ⟨⟨_, number⟩, found', rows⟩ := bind_eq_ok.mp rows
  obtain ⟨_, _, rows⟩ := bind_eq_ok.mp rows
  have here := (AgentFS.resolvePathOrThrow_ok found').2
  dsimp only at here rows
  rw [resolved, Option.some.injEq] at here
  have pair := pure_eq_ok.mp rows
  rw [Prod.mk.injEq] at pair
  obtain ⟨rfl, rfl⟩ := pair
  have returned := pure_eq_ok.mp read
  rw [Prod.mk.injEq] at returned
  refine ⟨by simpa using kind, ?_, ?_⟩
  · rw [← returned.1, ← here, holds.whole positive]
  · rw [← returned.2, ← here, touched]

end ReplaceTextRequest

/-! ## Names of a file -/

namespace Volume

variable {volume after : Volume} {ino new directory : Int} {name hidden label : Text} {place : List Text}

theorem entry_of_walk {start : Int} (reached : AgentFS.walk volume start place = some ino) (member : label ∈ place) :
    ∃ parent number, volume.child parent label = some number := by
  induction place generalizing start with
  | nil => cases member
  | cons first place ih =>
    rw [walk_cons, Option.bind_eq_some_iff] at reached
    obtain ⟨middle, found, reached⟩ := reached
    rcases List.mem_cons.mp member with rfl | member
    · exact ⟨start, middle, found⟩
    · exact ih reached member

theorem two_links {parent other : Int} {label' : Text} (first : volume.child parent label = some ino)
    (second : volume.child other label' = some ino) (apart : ¬(parent = other ∧ label = label')) : 2 ≤ volume.links ino := by
  obtain ⟨entry, member, rfl, rfl, led⟩ := mem_of_child first
  obtain ⟨entry', member', rfl, rfl, led'⟩ := mem_of_child second
  have different : entry' ≠ entry := by
    rintro rfl
    exact apart ⟨rfl, rfl⟩
  obtain ⟨front, behind, shape⟩ := List.append_of_mem member
  have further : 0 < (front ++ behind).countP fun entry => decide (entry.ino = ino) := by
    refine List.countP_pos_iff.mpr ⟨entry', ?_, by simpa using led'⟩
    rw [shape] at member'
    simpa [different] using member'
  rw [links, Table.count, shape, List.countP_append, List.countP_cons_of_pos (by simpa using led)]
  rw [List.countP_append] at further
  omega

/-- The names of a file that are not its path stay, when another file comes under the path. -/
theorem walks_beside (tree : volume.DirectoryTree) (children : ∀ parent label, label ≠ hidden →
      after.child parent label = if parent = directory ∧ label = name then some new else volume.child parent label)
    (absent : ∀ parent, volume.child parent hidden = none) (here : volume.child directory name = some ino)
    (kind : ¬volume.Directory ino) {parts : List Text} (walked : AgentFS.walk volume ROOT_INO parts = some directory)
    (reached : AgentFS.walk volume ROOT_INO place = some ino) (other : place ≠ parts ++ [name]) :
    AgentFS.walk after ROOT_INO place = some ino ∧ 2 ≤ volume.links ino := by
  have visible : ∀ {parent number : Int} {label : Text}, volume.child parent label = some number → label ≠ hidden := by
    rintro parent number label found rfl
    rw [absent] at found
    cases found
  -- No directory on the way is the file.
  have above : ∀ (front : List Text) (holder : Int), AgentFS.walk volume ROOT_INO front = some holder → volume.Directory holder →
      AgentFS.walk after ROOT_INO front = some holder := by
    intro front
    induction front using List.reverseRecOn with
    | nil => exact fun _ found _ => found
    | append_singleton front label ih =>
      intro holder found inner
      rw [walk_concat, Option.bind_eq_some_iff] at found
      obtain ⟨middle, reached, found⟩ := found
      rw [walk_concat, ih middle reached (tree.holder found), Option.bind_some, children _ _ (visible found), if_neg]
      · exact found
      · rintro ⟨rfl, rfl⟩
        rw [here, Option.some.injEq] at found
        exact kind (found ▸ inner)
  rcases List.eq_nil_or_concat place with rfl | ⟨front, label, rfl⟩
  · rw [AgentFS.walk, Option.some.injEq] at reached
    exact absurd tree.root (reached ▸ kind)
  · rw [List.concat_eq_append] at reached other ⊢
    rw [walk_concat, Option.bind_eq_some_iff] at reached
    obtain ⟨holder, reached, found⟩ := reached
    have apart : ¬(holder = directory ∧ label = name) := by
      rintro ⟨rfl, rfl⟩
      exact other (by rw [tree.walk_unique (tree.holder found) reached walked])
    refine ⟨?_, two_links found here apart⟩
    rw [walk_concat, above front holder reached (tree.holder found), Option.bind_some, children _ _ (visible found), if_neg apart]
    exact found

end Volume

namespace ReplaceTextRequest

variable {request : ReplaceTextRequest} {volume after : Volume} {chunkSize : Nat} {uuid text : Text} {ino : Int} {row : InodeRow}
  {content : Bytes}

/-- What the new file is, and what becomes of the old one. -/
structure Rewritten (volume : Volume) (chunkSize : Nat) (path : Text) (ino : Int) (content : Bytes) (after : Volume) (new : Int) :
    Prop where
  reached : AgentFS.resolvePath after path = some new
  stored : after.Stored chunkSize new (.file content)
  access : (after.inode? new).map InodeRow.access = some (DEFAULT_FILE_MODE, 0, 0)
  beside : ∀ name, AgentFS.resolvePath volume name = some ino → fields '/' name ≠ fields '/' path →
    AgentFS.resolvePath after name = some ino ∧ after.chunk? ino = volume.chunk? ino

theorem alone_rewrites (positive : 0 < chunkSize) (tree : volume.DirectoryTree) (unused : volume.Unused uuid)
    (resolved : AgentFS.resolvePath volume request.path = some ino) (known : volume.inode? ino = some row)
    (kind : isDirectory row.mode = false) (counted : row.nlink = volume.links ino)
    (finished : (StreamSystem.alone (request.writeBack uuid text) chunkSize (touched volume ino)).phase = .resolved) :
    ∃ new, Rewritten volume chunkSize request.path ino (Utf8.encode text)
      (StreamSystem.alone (request.writeBack uuid text) chunkSize (touched volume ino)).volume new := by
  have file : ¬volume.Directory ino := by
    rintro ⟨row', found, directory⟩
    rw [known, Option.some.injEq] at found
    rw [← found, kind] at directory
    cases directory
  have touches := touches_touched volume ino
  have numbered : row.ino = ino := volume.inode.find?_key known
  have read : (touched volume ino).inode? ino = some { row with atime := volume.now } := by
    rw [touched, Volume.inode?_updateInode, known, Option.map_some, Volume.changeRow, if_pos numbered, numbered]
  have inner : (touched volume ino).DirectoryTree := tree.touches touches known read rfl
  have below : ino ≠ ROOT_INO := by
    rintro rfl
    exact file tree.root
  obtain ⟨parts, name, directory, spelled, walked, here⟩ := Volume.named_of_resolve resolved below
  have children := Volume.child_congr touches.dentry
  have above : AgentFS.resolveParent (touched volume ino) request.path = some (directory, name) :=
    AgentFS.resolveParent_eq_some.mpr ⟨parts, spelled, by rw [touches.walks]; exact walked⟩
  have unguessed : (request.writeBack uuid text).Unguessed := by
    refine ⟨unused.plain, fun member => ?_⟩
    rw [AgentFS.resolvePath_eq] at resolved
    obtain ⟨parent, number, found⟩ := Volume.entry_of_walk resolved member
    have none_ := found.symm.trans (unused.absent parent)
    cases none_
  have missing : AgentFS.resolvePath (touched volume ino) (request.writeBack uuid text).temp = none := by
    rw [AgentFS.resolvePath_eq, unguessed.fields_temp, Volume.walk_concat, Option.bind_eq_none_iff]
    intro parent _
    rw [children]
    exact unused.absent parent
  obtain ⟨new, replaced⟩ := StreamSystem.alone_replaces positive unguessed inner above missing finished
  have contents : (request.writeBack uuid text).content = Utf8.encode text := by
    rw [FileStream.content, writeBack]
    exact List.append_nil _
  refine ⟨new, replaced.reached, contents ▸ replaced.stored, replaced.access, fun other led different => ?_⟩
  rw [AgentFS.resolvePath_eq] at led
  rw [spelled] at different
  obtain ⟨kept, linked⟩ := Volume.walks_beside tree (fun parent label apart => by rw [replaced.children parent label apart, children])
    unused.absent here file walked led different
  refine ⟨by rw [AgentFS.resolvePath_eq]; exact kept, ?_⟩
  rw [replaced.spared ino (by rw [children]; exact here) ?_]
  · rfl
  · rw [AgentFS.getLinkCount, read]
    dsimp only
    omega

/-- The two ways a call ends well. -/
theorem run_cases {needle : Text} {result : ReplaceTextResult} (literal : request.regex = .literal needle) (positive : 0 < chunkSize)
    (resolved : AgentFS.resolvePath volume request.path = some ino) (known : volume.inode? ino = some row)
    (holds : volume.LaidOut chunkSize ino content) (returned : request.run chunkSize volume uuid = (.ok result, after)) :
    isDirectory row.mode = false ∧ result.count = occurrences needle (Utf8.decodeFrom none content) ∧
      ((request.dryRun = true ∨ result.count = 0) ∧ after = touched volume ino ∨
        request.dryRun = false ∧ result.count ≠ 0 ∧
          ∃ text, text = request.regex.replace (Utf8.decodeFrom none content) request.replacement ∧
            (StreamSystem.alone (request.writeBack uuid text) chunkSize (touched volume ino)).phase = .resolved ∧
            after = (StreamSystem.alone (request.writeBack uuid text) chunkSize (touched volume ino)).volume) := by
  unfold run at returned
  split at returned
  · cases returned
  · rename_i text later read
    obtain ⟨kind, rfl, rfl⟩ := readText_ok positive resolved known holds read
    refine ⟨kind, ?_⟩
    dsimp only at returned
    split at returned
    · cases returned
    · split at returned
      · rename_i unwritten
        cases returned
        rw [literal] at unwritten ⊢
        exact ⟨rfl, .inl ⟨unwritten, rfl⟩⟩
      · rename_i writing
        rw [not_or, Bool.not_eq_true] at writing
        have done := StreamSystem.alone_finished
          (request.writeBack uuid (request.regex.replace (Utf8.decodeFrom none content) request.replacement)) chunkSize (touched volume ino)
        split at returned
        · cases returned
        · rename_i other
          cases returned
          rw [StreamSystem.finished] at done
          split at done
          · rename_i phase
            rw [literal] at writing
            rw [literal] at phase ⊢
            exact ⟨rfl, .inr ⟨writing.1, writing.2, _, rfl, phase, rfl⟩⟩
          · rename_i failure phase
            exact absurd phase (other failure)
          · cases done

section

variable {needle : Text} {result : ReplaceTextResult} (literal : request.regex = .literal needle) (some_ : needle ≠ [])
  (plain : '$' ∉ request.replacement) (positive : 0 < chunkSize) (tree : volume.DirectoryTree) (unused : volume.Unused uuid)
  (resolved : AgentFS.resolvePath volume request.path = some ino) (known : volume.inode? ino = some row)
  (counted : row.nlink = volume.links ino) (holds : volume.LaidOut chunkSize ino content)
  (returned : request.run chunkSize volume uuid = (.ok result, after))

include literal some_ plain positive tree unused resolved known counted holds returned

theorem run_changes (replaces : ReplacesMatches volume request.path ino row content needle request.replacement request.dryRun) :
    ChangesMatches volume after chunkSize request.path ino row content (Utf8.encode needle) (Utf8.encode request.replacement)
      request.dryRun result := by
  obtain ⟨kind, count, ways⟩ := run_cases literal positive resolved known holds returned
  have agree : occurrences needle (Utf8.decodeFrom none content) = occurrences (Utf8.encode needle) content := by
    rcases replaces.read with absent | valid | same
    · exact Utf8.occurrences_decode some_ (.inl absent)
    · exact Utf8.occurrences_decode some_ (.inr valid)
    · exact same
  rw [agree] at count
  rw [count] at ways
  rcases ways with ⟨unwritten, rfl⟩ | ⟨wet, matching, text, rfl, finished, rfl⟩
  · refine ⟨count, fun _ => rfl, fun wet found => ?_, fun wet found => ?_⟩ <;>
      · rcases unwritten with dry | none_
        · rw [wet] at dry
          cases dry
        · exact absurd none_ found
  · obtain ⟨valid, access, names⟩ := replaces.kept wet matching
    obtain ⟨new, rewritten⟩ := alone_rewrites positive tree unused resolved known kind counted finished
    obtain ⟨reached, stored, given, beside⟩ := rewritten
    have bytes : Utf8.encode (request.regex.replace (Utf8.decodeFrom none content) request.replacement) =
        replaceAll (Utf8.encode needle) (Utf8.encode request.replacement) content := by
      rw [literal, RegExp.literal_replace plain, Utf8.replaceAll_encode some_, show Utf8.encode (Utf8.decodeFrom none content) = content from valid]
    rw [bytes] at stored
    refine ⟨count, fun unwritten => ?_, fun _ _ => ?_, fun _ _ name led => ?_⟩
    · rcases unwritten with dry | none_
      · rw [wet] at dry
        cases dry
      · exact absurd none_ matching
    · rw [Option.map_eq_some_iff] at given
      obtain ⟨row', found, same⟩ := given
      exact ⟨new, row', reached, found, same.trans access.symm, stored.1⟩
    · by_cases own : fields '/' name = fields '/' request.path
      · refine ⟨new, ?_, stored.1.laidOut⟩
        rw [AgentFS.resolvePath_eq, own, ← AgentFS.resolvePath_eq]
        exact reached
      · obtain ⟨still, chunks⟩ := beside name led own
        refine ⟨ino, still, ?_⟩
        have same := names.resolve_right fun only => own (only name led)
        rw [Volume.LaidOut, chunks, same, replaceAll_self (Utf8.encode_ne_nil some_)]
        exact holds

theorem run_replaces (changes : ChangesMatches volume after chunkSize request.path ino row content (Utf8.encode needle)
    (Utf8.encode request.replacement) request.dryRun result) :
    ReplacesMatches volume request.path ino row content needle request.replacement request.dryRun := by
  obtain ⟨kind, count, ways⟩ := run_cases literal positive resolved known holds returned
  have agree := count.symm.trans changes.counted
  refine ⟨.inr (.inr agree), fun wet matching => ?_⟩
  rcases ways with ⟨unwritten, _⟩ | ⟨_, _, text, rfl, finished, rfl⟩
  · rcases unwritten with dry | none_
    · rw [wet] at dry
      cases dry
    · exact absurd (changes.counted.symm.trans none_) matching
  · obtain ⟨new, rewritten⟩ := alone_rewrites positive tree unused resolved known kind counted finished
    obtain ⟨reached, stored, given, beside⟩ := rewritten
    obtain ⟨other, row', here, found, same, laidOut⟩ := changes.replaced wet matching
    obtain rfl : new = other := Option.some.inj (reached.symm.trans here)
    have bytes := (stored.1.laidOut.whole positive).symm.trans (laidOut.laidOut.whole positive)
    rw [literal, RegExp.literal_replace plain] at bytes
    refine ⟨Utf8.valid_of_replaceAll some_ agree bytes, ?_, ?_⟩
    · rw [found, Option.map_some, Option.some.injEq] at given
      rw [← same, given]
    · by_cases unchanged : request.replacement = needle
      · exact .inl unchanged
      · right
        intro name led
        by_contra apart
        obtain ⟨still, chunks⟩ := beside name led apart
        obtain ⟨number, led', shown⟩ := changes.linked wet matching name led
        obtain rfl : ino = number := Option.some.inj (still.symm.trans led')
        rw [Volume.LaidOut, chunks] at shown
        have whole := (Volume.LaidOut.whole (show volume.LaidOut chunkSize ino _ from shown) positive).symm.trans (holds.whole positive)
        exact unchanged (Utf8.encode_inj (eq_of_replaceAll (Utf8.encode_ne_nil some_) matching whole))

end

end ReplaceTextRequest

/-! ## Literal requests -/

variable {engine : RegExpEngine} {input : ReplaceTextInput} {original needle replacement : Text}

theorem ReplaceTextInput.parse_literal {request : ReplaceTextRequest} (path : input.path = some (.string original))
    (pattern : input.pattern = some (.string needle)) (put : input.replacement = some (.string replacement))
    (literal : holdsTrue input.literal = true) (cased : holdsTrue input.ignoreCase = false) (parsed : input.parse engine = .ok request) :
    needle ≠ [] ∧ request = ⟨original, .literal needle, replacement, holdsTrue input.dryRun⟩ := by
  obtain ⟨read, here, parsed⟩ := bind_eq_ok.mp parsed
  obtain ⟨word, found, parsed⟩ := bind_eq_ok.mp parsed
  rw [path, reqString] at here
  rw [pattern, reqString] at found
  obtain ⟨_, _, here⟩ := bind_eq_ok.mp here
  obtain ⟨_, filled, found⟩ := bind_eq_ok.mp found
  rw [refuse_eq_ok] at filled
  rw [put, ← pure_eq_ok.mp here, ← pure_eq_ok.mp found, literal, cased] at parsed
  dsimp only at parsed
  rw [if_pos rfl, RegExpEngine.regExp, if_neg (by decide), RegExp.literalSource_escape] at parsed
  exact ⟨filled, (pure_eq_ok.mp parsed).symm⟩

/-- A literal replacement does what is asked for exactly in files that it leaves their form. -/
theorem replaceText_changes_matches_iff {chunkSize : Nat} {volume after : Volume} {uuid : Text} {ino : Int} {row : InodeRow}
    {content : Bytes} {result : ReplaceTextResult} (path : input.path = some (.string original))
    (pattern : input.pattern = some (.string needle)) (put : input.replacement = some (.string replacement))
    (literal : holdsTrue input.literal = true) (cased : holdsTrue input.ignoreCase = false) (plain : '$' ∉ replacement)
    (positive : 0 < chunkSize) (tree : volume.DirectoryTree) (unused : volume.Unused uuid)
    (resolved : AgentFS.resolvePath volume (Auth.normalizePath original) = some ino) (known : volume.inode? ino = some row)
    (counted : row.nlink = volume.links ino) (holds : volume.LaidOut chunkSize ino content)
    (returned : replaceText engine chunkSize volume uuid input = (.ok result, after)) :
    ChangesMatches volume after chunkSize (Auth.normalizePath original) ino row content (Utf8.encode needle) (Utf8.encode replacement)
        (holdsTrue input.dryRun) result ↔
      ReplacesMatches volume (Auth.normalizePath original) ino row content needle replacement (holdsTrue input.dryRun) := by
  unfold replaceText at returned
  split at returned
  · cases returned
  · rename_i request parsed
    obtain ⟨some_, same⟩ := ReplaceTextInput.parse_literal path pattern put literal cased parsed
    have regex : request.regex = .literal needle := by rw [same]
    have named : Auth.normalizePath original = request.path := by rw [same, ReplaceTextRequest.path]
    have other : replacement = request.replacement := by rw [same]
    have dry : holdsTrue input.dryRun = request.dryRun := by rw [same]
    rw [named] at resolved ⊢
    rw [other] at plain ⊢
    rw [dry]
    exact ⟨ReplaceTextRequest.run_replaces regex some_ plain positive tree unused resolved known counted holds returned,
      ReplaceTextRequest.run_changes regex some_ plain positive tree unused resolved known counted holds returned⟩

/-- The file `/f` with a few bytes. -/
def textSample (content : Bytes) : Volume :=
  { Volume.fresh 0 with
    inode := ⟨[InodeRow.root 0, { InodeRow.create DEFAULT_FILE_MODE 0 0 0 with ino := 2, nlink := 1, size := content.length }],
      show ([1, 2] : List Int).Nodup by decide⟩
    dentry := ⟨[⟨"f".toList, 1, 2⟩], List.nodup_singleton _⟩
    data := ⟨[⟨2, 0, content⟩], List.pairwise_singleton _ _⟩
    inodeSequence := 2 }

def sampleInput : ReplaceTextInput where
  path := some (.string "/f".toList)
  pattern := some (.string "a".toList)
  replacement := some (.string "b".toList)
  ignoreCase := none
  literal := some (.bool true)
  dryRun := none

def sampleRow (content : Bytes) : InodeRow :=
  { InodeRow.create DEFAULT_FILE_MODE 0 0 0 with ino := 2, nlink := 1, size := content.length }

theorem textSample_tree (content : Bytes) : (textSample content).DirectoryTree := by
  have known : (textSample content).inode? 2 = some (sampleRow content) := rfl
  refine .of_entries ⟨_, rfl, by decide⟩ ?_ ?_ ?_ ?_ ?_ ⟨?_, ?_, ?_⟩
  · intro entry member
    obtain rfl := List.mem_singleton.mp member
    exact ⟨_, rfl, by decide⟩
  · intro entry member
    obtain rfl := List.mem_singleton.mp member
    exact ⟨by decide, by rw [known]; rfl⟩
  · intro entry member other member' _ _
    rw [List.mem_singleton.mp member, List.mem_singleton.mp member']
    exact ⟨rfl, rfl⟩
  · intro entry member
    obtain rfl := List.mem_singleton.mp member
    exact ⟨List.cons_ne_nil _ _, by decide⟩
  · intro entry member
    obtain rfl := List.mem_singleton.mp member
    exact ⟨show (2 : Int) ≤ 2 by decide, show (1 : Int) ≤ 2 by decide⟩
  · intro row member
    rcases List.mem_cons.mp member with rfl | member
    · exact show (1 : Int) ≤ 2 by decide
    · rw [List.mem_singleton.mp member]
      exact show (2 : Int) ≤ 2 by decide
  · intro row member
    rw [List.mem_singleton.mp member]
    exact show (2 : Int) ≤ 2 by decide
  · intro row member
    cases member

theorem textSample_unused (content : Bytes) : (textSample content).Unused "0".toList where
  plain := by decide
  absent parent := by
    cases found : (textSample content).child parent (".airyfs-upload-".toList ++ "0".toList) with
    | none => rfl
    | some ino =>
      obtain ⟨entry, member, _, named, _⟩ := Volume.mem_of_child found
      obtain rfl := List.mem_singleton.mp member
      exact absurd named (by decide)

theorem textSample_holds {content : Bytes} (filled : content ≠ []) (short : content.length ≤ 4) :
    (textSample content).LaidOut 4 2 content := by
  have positive := List.length_pos_iff.mpr filled
  funext index
  rw [layout]
  cases index with
  | zero =>
    rw [if_pos (by omega), chunk, Nat.zero_mul, List.drop_zero, List.take_of_length_le short]
    rfl
  | succ index =>
    rw [if_neg (by omega), Volume.chunk?, Option.map_eq_none_iff]
    refine (textSample content).data.find?_eq_none_iff.mpr fun row member same => ?_
    rw [List.mem_singleton.mp member, DataRow.key] at same
    cases same

theorem textSample_resolves (content : Bytes) : AgentFS.resolvePath (textSample content) (Auth.normalizePath "/f".toList) = some 2 := by
  rw [AgentFS.resolvePath_eq]
  rfl

def sampleEngine : RegExpEngine := ⟨fun _ _ => .error "Invalid regular expression"⟩

def sampleResult : ReplaceTextResult := ⟨1, true, false⟩

/-- In the file `ab` the letter is replaced. -/
theorem replaceText_changes_sample : ChangesMatches (textSample [97, 98])
    (replaceText sampleEngine 4 (textSample [97, 98]) "0".toList sampleInput).2 4 (Auth.normalizePath "/f".toList) 2
    (sampleRow [97, 98]) [97, 98] (Utf8.encode "a".toList) (Utf8.encode "b".toList) false sampleResult := by
  have done : (replaceText sampleEngine 4 (textSample [97, 98]) "0".toList sampleInput).1 = .ok sampleResult := by decide +kernel
  refine (@replaceText_changes_matches_iff sampleEngine sampleInput _ _ _ 4 _ _ _ 2 _ [97, 98] _ rfl rfl rfl rfl rfl (by decide)
    (by decide) (textSample_tree _) (textSample_unused _) (textSample_resolves _) rfl (by decide)
    (textSample_holds (by decide) (by decide)) (Prod.ext done rfl)).mpr ⟨.inl (by decide), fun _ _ => ⟨by decide, rfl, .inr ?_⟩⟩
  intro name led
  obtain ⟨parts, label, parent, spelled, walked, found⟩ := Volume.named_of_resolve led (by decide)
  obtain ⟨entry, member, above, named, _⟩ := Volume.mem_of_child found
  obtain rfl := List.mem_singleton.mp member
  rw [← above] at walked
  rw [spelled, (textSample_tree _).walk_root walked, ← named]
  decide

/-- In the file with the byte 255 behind the letter, that byte becomes three others. -/
theorem replaceText_alters_byte : ¬∀ (engine : RegExpEngine) (input : ReplaceTextInput) (original needle replacement : Text)
    (chunkSize : Nat) (volume after : Volume) (uuid : Text) (ino : Int) (row : InodeRow) (content : Bytes) (result : ReplaceTextResult),
    input.path = some (.string original) → input.pattern = some (.string needle) → input.replacement = some (.string replacement) →
    holdsTrue input.literal = true → holdsTrue input.ignoreCase = false → '$' ∉ replacement → 0 < chunkSize → volume.DirectoryTree →
    volume.Unused uuid → AgentFS.resolvePath volume (Auth.normalizePath original) = some ino → volume.inode? ino = some row →
    row.nlink = volume.links ino → volume.LaidOut chunkSize ino content →
    replaceText engine chunkSize volume uuid input = (.ok result, after) →
    ChangesMatches volume after chunkSize (Auth.normalizePath original) ino row content (Utf8.encode needle) (Utf8.encode replacement)
      (holdsTrue input.dryRun) result := by
  intro claim
  have done : (replaceText sampleEngine 4 (textSample [97, 255]) "0".toList sampleInput).1 = .ok sampleResult := by decide +kernel
  have changes := claim sampleEngine sampleInput "/f".toList "a".toList "b".toList 4 (textSample [97, 255])
    (replaceText sampleEngine 4 (textSample [97, 255]) "0".toList sampleInput).2 "0".toList 2 (sampleRow [97, 255]) [97, 255] sampleResult rfl rfl rfl rfl rfl (by decide) (by decide) (textSample_tree _) (textSample_unused _)
    (textSample_resolves _) rfl (by decide) (textSample_holds (by decide) (by decide)) (Prod.ext done rfl)
  obtain ⟨new, row, reached, _, _, stored⟩ := changes.replaced rfl (by decide)
  have resolves : AgentFS.resolvePath (replaceText sampleEngine 4 (textSample [97, 255]) "0".toList sampleInput).2
      (Auth.normalizePath "/f".toList) = some 3 := by decide +kernel
  obtain rfl : new = 3 := Option.some.inj (reached.symm.trans resolves)
  have held := congrFun stored.laidOut 0
  have stands : (replaceText sampleEngine 4 (textSample [97, 255]) "0".toList sampleInput).2.chunk? 3 0 =
      some [98, 239, 191, 189] := by decide +kernel
  rw [stands] at held
  exact absurd held (by decide)

end AiryFS
