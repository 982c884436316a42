import AiryFS.Files.DirectoryTree
import AiryFS.Sites.Serving
import AiryFS.Transfer.Encoding

/-! `cp -r` on the server: the source is listed breadth first, and then every entry is copied.

The listing is a list of operations in which a directory comes before what is in it. It names
every entry below the source exactly once.
-/

set_option autoImplicit false

namespace AiryFS

open Foundation

def MAX_COPY_ENTRIES : Nat := 100000

def isSameOrDescendant (parent candidate : Text) : Bool :=
  let p := Auth.normalizePath parent
  let c := Auth.normalizePath candidate
  c = p || p = ['/'] || (p ++ ['/']).isPrefixOf c

inductive CopyKind where
  | dir
  | file
  | symlink
  deriving DecidableEq, Repr

structure CopyOp where
  kind : CopyKind
  src : Text
  dest : Text
  deriving DecidableEq, Repr

def CopyKind.ofRow (row : InodeRow) : CopyKind :=
  if isDirectory row.mode then .dir else if isSymlink row.mode then .symlink else .file

/-! ## Listing the source -/

/-- The variables of the loop over the queue. -/
structure CopyListing where
  ops : List CopyOp
  queue : List Text
  count : Nat

/-- A round of the loop over the entries of `dir`. -/
def CopyListing.add (limit : Nat) (src dest dir : Text) (listing : CopyListing) (entry : Text × InodeRow) :
    Except Failure CopyListing :=
  if dir = ['/'] ∧ entry.1 = TRASH_NAME then return listing
  else do
    let count := listing.count + 1
    refuse (count > limit) (.http 400 "INVALID_ARGUMENT" s!"copy exceeds {limit} entries")
    let s := if dir = ['/'] then '/' :: entry.1 else dir ++ '/' :: entry.1
    let d := dest ++ s.drop src.length
    return {
      ops := listing.ops ++ [⟨.ofRow entry.2, s, d⟩]
      queue := if isDirectory entry.2.mode then listing.queue ++ [s] else listing.queue
      count }

/-- The loop over the queue. Every round takes one directory, and each directory of the queue
but the first was counted, so there are no more rounds than the limit allows. -/
def CopyListing.list (volume : Volume) (limit : Nat) (src dest : Text) : Nat → CopyListing → Except Failure (List CopyOp)
  | 0, listing => return listing.ops
  | rounds + 1, listing =>
    match listing.queue with
    | [] => return listing.ops
    | dir :: queue => do
      let entries ← AgentFS.readdirPlus volume dir
      let listing ← entries.foldlM (CopyListing.add limit src dest dir) { listing with queue }
      CopyListing.list volume limit src dest rounds listing

def listSubtree (volume : Volume) (limit : Nat) (src dest : Text) : Except Failure (List CopyOp) :=
  CopyListing.list volume limit src dest (limit + 2) ⟨[⟨.dir, src, dest⟩], [src], 0⟩

/-! ## Copying -/

open Attempt in
def CopyOp.apply (op : CopyOp) : Attempt Failure Volume Unit :=
  match op.kind with
  | .dir => tryCatch (commit fun volume => AgentFS.mkdir volume op.dest) fun failure =>
      match failure with
      | .fs ⟨.EEXIST, _, _, _⟩ => pure ()
      | other => throw other
  | .symlink => do
    let volume ← get
    let target ← lift (AgentFS.readlink volume op.src)
    commit fun volume => AgentFS.symlink volume target op.dest
  | .file => commit fun volume => AgentFS.copyFile volume op.src op.dest

/-- What is copied, and how, with every check that comes before the first copy. A source that is
no directory is copied like an entry. -/
def copyPlan (volume : Volume) (limit : Nat) (fromPath toPath : Text) : Except Failure (List CopyOp) := do
  let src := Auth.normalizePath fromPath
  let dest := Auth.normalizePath toPath
  let srcStat ← AgentFS.stat volume src
  if isDirectory srcStat.mode then
    let fromShown := String.ofList fromPath
    let toShown := String.ofList toPath
    refuse (isSameOrDescendant src dest)
      (.fs ⟨.EINVAL, "", [], s!"EINVAL: cannot copy '{fromShown}' into itself, '{toShown}'"⟩)
    listSubtree volume limit src dest
  else return [⟨.ofRow srcStat, src, dest⟩]

open Attempt in
def copyRecursive (limit : Nat) (fromPath toPath : Text) : Attempt Failure Volume Unit := do
  let volume ← get
  let ops ← lift (copyPlan volume limit fromPath toPath)
  ops.forM CopyOp.apply

/-! ## What a listing holds -/

/-- The text of names below a path. -/
def spelled (names : List Text) : Text := names.flatMap fun name => '/' :: name

theorem spelled_concat (names : List Text) (name : Text) : spelled (names ++ [name]) = spelled names ++ '/' :: name := by
  simp [spelled]

theorem fields_spelled {names : List Text} (separable : Separable '/' names) (base : Text) :
    fields '/' (base ++ spelled names) = fields '/' base ++ names := by
  induction names using List.reverseRecOn with
  | nil => simp [spelled]
  | append_singleton names name ih =>
    have front : Separable '/' names := fun piece member => separable piece (List.mem_append_left _ member)
    have single : Separable '/' [name] := fun piece member => separable piece (List.mem_append_right _ member)
    have own : fields '/' name = [name] := by simpa using fields_intercalate single
    rw [spelled_concat, ← List.append_assoc, fields_append_sep, ih front, own, List.append_assoc]

/-- An entry of the source: its kind, and its place below the source. -/
abbrev Sight : Type := CopyKind × List Text

def Sight.op (src dest : Text) (sight : Sight) : CopyOp := ⟨sight.1, src ++ spelled sight.2, dest ++ spelled sight.2⟩

/-- Some entries below `base`, each once and each after the directory that it is in. The directories
of the list that are still to be opened have nothing in the list yet, the others have everything. -/
structure Sighted (volume : Volume) (base : Int) (plan : List Sight) (pending : List (List Text)) : Prop where
  nodup : (plan.map Prod.snd).Nodup
  known : ∀ sight ∈ plan, ∃ ino row, AgentFS.walk volume base sight.2 = some ino ∧ volume.inode? ino = some row ∧
    sight.1 = .ofRow row
  ordered : ∀ done sight rest, plan = done ++ sight :: rest → sight.2 = [] ∨
    ∃ above name, sight.2 = above ++ [name] ∧ (.dir, above) ∈ done
  apart : pending.Nodup
  waiting : ∀ place ∈ pending, (.dir, place) ∈ plan ∧ ∀ name, place ++ [name] ∉ plan.map Prod.snd
  opened : ∀ place, (.dir, place) ∈ plan → place ∉ pending → ∀ name ino row,
    AgentFS.walk volume base (place ++ [name]) = some ino → volume.inode? ino = some row → place ++ [name] ∈ plan.map Prod.snd
  start : (.dir, []) ∈ plan

/-- The entries of a directory, as the listing gets them. -/
def sights (place : List Text) (entries : List (Text × InodeRow)) : List Sight :=
  entries.map fun entry => (.ofRow entry.2, place ++ [entry.1])

def subdirectories (place : List Text) (entries : List (Text × InodeRow)) : List (List Text) :=
  (entries.filter fun entry => isDirectory entry.2.mode).map fun entry => place ++ [entry.1]

section Listing

variable {volume : Volume} {base ino : Int} {limit : Nat} {src dest dir : Text} {place : List Text} {entries : List (Text × InodeRow)}

theorem sights_snd (place : List Text) (entries : List (Text × InodeRow)) :
    (sights place entries).map Prod.snd = entries.map fun entry => place ++ [entry.1] := by
  simp [sights]

theorem mem_sights {sight : Sight} : sight ∈ sights place entries ↔
    ∃ entry ∈ entries, sight = (.ofRow entry.2, place ++ [entry.1]) := by
  simp [sights, eq_comm]

theorem ofRow_dir {row : InodeRow} : CopyKind.ofRow row = .dir ↔ isDirectory row.mode = true := by
  unfold CopyKind.ofRow
  split
  · simp [*]
  · split <;> simp [*]

theorem mem_subdirectories {below : List Text} : below ∈ subdirectories place entries ↔
    ∃ entry ∈ entries, isDirectory entry.2.mode = true ∧ below = place ++ [entry.1] := by
  simp only [subdirectories, List.mem_map, List.mem_filter]
  constructor
  · rintro ⟨entry, ⟨member, directory⟩, rfl⟩
    exact ⟨entry, member, directory, rfl⟩
  · rintro ⟨entry, member, directory, rfl⟩
    exact ⟨entry, ⟨member, directory⟩, rfl⟩

/-- Induction on the entries. -/
theorem add_all {listing listing' : CopyListing} (below : dir = src ++ spelled place) (apart : dir ≠ ['/'])
    (added : entries.foldlM (CopyListing.add limit src dest dir) listing = .ok listing') :
    listing'.ops = listing.ops ++ (sights place entries).map (Sight.op src dest) ∧
      listing'.queue = listing.queue ++ (subdirectories place entries).map (fun place => src ++ spelled place) ∧
      listing'.count = listing.count + entries.length ∧ (listing.count ≤ limit → listing'.count ≤ limit) := by
  induction entries generalizing listing with
  | nil =>
    rw [← pure_eq_ok.mp added]
    simp [sights, subdirectories]
  | cons entry entries ih =>
    rw [List.foldlM_cons] at added
    obtain ⟨middle, first, rest⟩ := bind_eq_ok.mp added
    unfold CopyListing.add at first
    rw [if_neg (by simp [apart])] at first
    obtain ⟨_, room, first⟩ := bind_eq_ok.mp first
    rw [refuse_eq_ok] at room
    have text : dir ++ '/' :: entry.1 = src ++ spelled (place ++ [entry.1]) := by
      rw [below, spelled_concat, List.append_assoc]
    have tail : (src ++ spelled (place ++ [entry.1])).drop src.length = spelled (place ++ [entry.1]) := List.drop_left
    rw [if_neg apart, text] at first
    dsimp only at first
    rw [tail] at first
    obtain ⟨ops, queue, count, bound⟩ := ih rest
    rw [← pure_eq_ok.mp first] at ops queue count bound
    dsimp only at ops queue count bound
    refine ⟨?_, ?_, ?_, ?_⟩
    · rw [ops]
      simp [sights, Sight.op]
    · rw [queue]
      by_cases directory : isDirectory entry.2.mode = true
      · simp [subdirectories, directory]
      · simp [subdirectories, directory]
    · rw [count, List.length_cons]
      omega
    · intro _
      exact bound (by omega)

/-- What is listed has its directory listed. -/
theorem Sighted.above {plan : List Sight} {pending : List (List Text)} {name : Text} (sighted : Sighted volume base plan pending)
    (listed : place ++ [name] ∈ plan.map Prod.snd) : (.dir, place) ∈ plan := by
  obtain ⟨sight, member, same⟩ := List.mem_map.mp listed
  obtain ⟨done, rest, rfl⟩ := List.append_of_mem member
  rcases sighted.ordered done sight rest rfl with top | ⟨above, label, split, earlier⟩
  · rw [same] at top
    simp at top
  · rw [same] at split
    obtain ⟨rfl, _⟩ := List.append_inj' split rfl
    exact List.mem_append_left _ earlier

/-- A directory is opened: what is in it goes to the end of the list. -/
theorem Sighted.open {plan : List Sight} {pending : List (List Text)} (sighted : Sighted volume base plan (place :: pending))
    (reached : AgentFS.walk volume base place = some ino) :
    Sighted volume base (plan ++ sights place (Archive.children volume ino))
      (pending ++ subdirectories place (Archive.children volume ino)) := by
  obtain ⟨listed, empty⟩ := sighted.waiting place List.mem_cons_self
  obtain ⟨different, apart⟩ := List.nodup_cons.mp sighted.apart
  have extending : Function.Injective fun name : Text => place ++ [name] := fun first second same => by simpa using same
  have places : ((Archive.children volume ino).map fun entry => place ++ [entry.1]).Nodup := by
    have mapped := (Archive.nodup_children volume ino).map extending
    rwa [List.map_map] at mapped
  have found : ∀ name number row, AgentFS.walk volume base (place ++ [name]) = some number → volume.inode? number = some row →
      (name, row) ∈ Archive.children volume ino := by
    intro name number row walked stored
    rw [Volume.walk_concat, reached, Option.bind_some, Volume.child, Option.map_eq_some_iff] at walked
    obtain ⟨entry, entered, rfl⟩ := walked
    exact Archive.mem_children.mpr ⟨entry, entered, stored⟩
  have new : ∀ below, below ∈ (sights place (Archive.children volume ino)).map Prod.snd → ∃ name, below = place ++ [name] := by
    intro below member
    rw [sights_snd, List.mem_map] at member
    obtain ⟨entry, _, rfl⟩ := member
    exact ⟨entry.1, rfl⟩
  refine ⟨?_, ?_, ?_, ?_, ?_, ?_, List.mem_append_left _ sighted.start⟩
  · rw [List.map_append, List.nodup_append]
    refine ⟨sighted.nodup, ?_, ?_⟩
    · rw [sights_snd]
      exact places
    · rintro below member _ member' rfl
      obtain ⟨name, rfl⟩ := new below member'
      exact empty name member
  · intro sight member
    rcases List.mem_append.mp member with earlier | last
    · exact sighted.known sight earlier
    · obtain ⟨entry, within, rfl⟩ := mem_sights.mp last
      obtain ⟨row, entered, stored⟩ := Archive.mem_children.mp within
      refine ⟨row.ino, entry.2, ?_, stored, rfl⟩
      rw [Volume.walk_concat, reached, Option.bind_some, Volume.child, entered, Option.map_some]
  · intro done sight rest split
    rcases List.append_eq_append_iff.mp split with ⟨front, rfl, tail⟩ | ⟨back, rfl, tail⟩
    · have member : sight ∈ sights place (Archive.children volume ino) := by rw [tail]; simp
      obtain ⟨entry, _, rfl⟩ := mem_sights.mp member
      exact .inr ⟨place, entry.1, rfl, List.mem_append_left _ listed⟩
    · cases back with
      | nil =>
        have member : sight ∈ sights place (Archive.children volume ino) := by
          rw [List.nil_append] at tail
          rw [← tail]
          exact List.mem_cons_self
        obtain ⟨entry, _, rfl⟩ := mem_sights.mp member
        rw [List.append_nil] at listed
        exact .inr ⟨place, entry.1, rfl, listed⟩
      | cons first back =>
        rw [List.cons_append, List.cons.injEq] at tail
        rw [tail.1]
        exact sighted.ordered done first back rfl
  · rw [List.nodup_append]
    refine ⟨apart, ?_, ?_⟩
    · exact (List.filter_sublist.map _).nodup places
    · rintro below member _ member' rfl
      obtain ⟨entry, _, _, rfl⟩ := mem_subdirectories.mp member'
      exact empty entry.1 (List.mem_map_of_mem (sighted.waiting _ (List.mem_cons_of_mem _ member)).1)
  · intro below member
    rcases List.mem_append.mp member with earlier | last
    · obtain ⟨listed', empty'⟩ := sighted.waiting below (List.mem_cons_of_mem _ earlier)
      refine ⟨List.mem_append_left _ listed', ?_⟩
      intro name inside
      rw [List.map_append, List.mem_append] at inside
      rcases inside with old | fresh
      · exact empty' name old
      · obtain ⟨label, same⟩ := new _ fresh
        obtain ⟨rfl, _⟩ := List.append_inj' same rfl
        exact different earlier
    · obtain ⟨entry, within, directory, rfl⟩ := mem_subdirectories.mp last
      refine ⟨List.mem_append_right _ (mem_sights.mpr ⟨entry, within, by rw [ofRow_dir.mpr directory]⟩), ?_⟩
      intro name inside
      rw [List.map_append, List.mem_append] at inside
      rcases inside with old | fresh
      · exact empty entry.1 (List.mem_map_of_mem (sighted.above old))
      · obtain ⟨label, same⟩ := new _ fresh
        have lengths := congrArg List.length same
        simp at lengths
  · intro below member closed name number row walked stored
    rw [List.map_append, List.mem_append]
    rcases List.mem_append.mp member with earlier | last
    · by_cases here : below = place
      · right
        rw [here] at walked ⊢
        rw [sights_snd]
        exact List.mem_map_of_mem (found name number row walked stored)
      · left
        refine sighted.opened below earlier ?_ name number row walked stored
        intro within
        rcases List.mem_cons.mp within with same | later
        · exact here same
        · exact closed (List.mem_append_left _ later)
    · obtain ⟨entry, within, same⟩ := mem_sights.mp last
      obtain ⟨kind, rfl⟩ := Prod.mk.injEq .. ▸ same
      exact absurd (List.mem_append_right _ (mem_subdirectories.mpr ⟨entry, within, ofRow_dir.mp kind.symm, rfl⟩)) closed

theorem resolves_below (tree : volume.DirectoryTree) (found : AgentFS.resolvePath volume src = some base)
    (reached : AgentFS.walk volume base place = some ino) : AgentFS.resolvePath volume (src ++ spelled place) = some ino := by
  rw [AgentFS.resolvePath_eq] at found ⊢
  rw [fields_spelled (tree.separable reached), AgentFS.walk_append, found, Option.bind_some, reached]

/-- The loop lists everything. Each round takes a directory off, and what it adds counts against the limit. -/
theorem list_sighted {rounds : Nat} {listing : CopyListing} {plan : List Sight} {pending : List (List Text)} {ops : List CopyOp}
    (tree : volume.DirectoryTree) (found : AgentFS.resolvePath volume src = some base) (some_ : src ≠ []) (below : src ≠ ['/'])
    (sighted : Sighted volume base plan pending) (spelledOps : listing.ops = plan.map (Sight.op src dest))
    (spelledQueue : listing.queue = pending.map fun place => src ++ spelled place) (bound : listing.count ≤ limit)
    (enough : pending.length + (limit - listing.count) < rounds)
    (listed : CopyListing.list volume limit src dest rounds listing = .ok ops) :
    ∃ plan, Sighted volume base plan [] ∧ ops = plan.map (Sight.op src dest) := by
  induction rounds generalizing listing plan pending with
  | zero => omega
  | succ rounds ih =>
    unfold CopyListing.list at listed
    cases pending with
    | nil =>
      rw [spelledQueue, List.map_nil] at listed
      exact ⟨plan, sighted, by rw [← pure_eq_ok.mp listed, spelledOps]⟩
    | cons place pending =>
      rw [spelledQueue, List.map_cons] at listed
      dsimp only at listed
      obtain ⟨member, _⟩ := sighted.waiting place List.mem_cons_self
      obtain ⟨ino, row, reached, stored, kind⟩ := sighted.known _ member
      have directory : volume.Stored 0 ino .directory := ⟨row, stored, ofRow_dir.mp kind.symm⟩
      rw [Archive.readdirPlus_stored (resolves_below tree found reached) directory, ok_bind] at listed
      obtain ⟨listing', added, listed⟩ := bind_eq_ok.mp listed
      have apart : src ++ spelled place ≠ ['/'] := by
        intro same
        rcases List.append_eq_singleton_iff.mp same with ⟨empty, _⟩ | ⟨root, _⟩
        · exact some_ empty
        · exact below root
      obtain ⟨ops', queue', count', bound'⟩ := add_all rfl apart added
      dsimp only at ops' queue' count' bound'
      refine ih (sighted.open reached) ?_ ?_ (bound' bound) ?_ listed
      · rw [ops', spelledOps, List.map_append]
      · rw [queue', List.map_append]
      · have fewer : (subdirectories place (Archive.children volume ino)).length ≤ (Archive.children volume ino).length := by
          unfold subdirectories
          rw [List.length_map]
          exact List.length_filter_le _ _
        rw [List.length_append]
        rw [List.length_cons] at enough
        have within := bound' bound
        omega

theorem Sighted.initial {row : InodeRow} (stored : volume.inode? base = some row) (directory : isDirectory row.mode = true) :
    Sighted volume base [(.dir, [])] [[]] := by
  refine ⟨by simp, ?_, ?_, by simp, by simp, ?_, List.mem_cons_self⟩
  · intro sight member
    rw [List.mem_singleton.mp member]
    exact ⟨base, row, rfl, stored, (ofRow_dir.mpr directory).symm⟩
  · intro done sight rest split
    cases done with
    | nil =>
      rw [List.nil_append, List.cons.injEq] at split
      rw [← split.1]
      exact .inl rfl
    | cons first done => simp at split
  · intro place member closed
    rw [List.mem_singleton, Prod.mk.injEq] at member
    exact absurd (by rw [member.2]; exact List.mem_cons_self) closed

/-- With every directory opened, nothing is missing. Induction on the path. -/
theorem Sighted.complete {plan : List Sight} {row : InodeRow} (sighted : Sighted volume base plan []) (tree : volume.DirectoryTree)
    (reached : AgentFS.walk volume base place = some ino) (stored : volume.inode? ino = some row) :
    (.ofRow row, place) ∈ plan := by
  have listed : place ∈ plan.map Prod.snd := by
    induction place using List.reverseRecOn generalizing ino row with
    | nil => exact List.mem_map_of_mem sighted.start
    | append_singleton front name ih =>
      rw [Volume.walk_concat, Option.bind_eq_some_iff] at reached
      obtain ⟨above, walked, found⟩ := reached
      obtain ⟨row', stored', kind⟩ := tree.holder found
      obtain ⟨sight, member, rfl⟩ := List.mem_map.mp (ih walked stored')
      obtain ⟨number, own, walked', stored'', same⟩ := sighted.known sight member
      rw [walked, Option.some.injEq] at walked'
      rw [← walked', stored', Option.some.injEq] at stored''
      rw [← stored'', ofRow_dir.mpr kind] at same
      refine sighted.opened sight.2 (by rw [← same]; exact member) List.not_mem_nil name ino row ?_ stored
      rw [Volume.walk_concat, walked, Option.bind_some, found]
  obtain ⟨sight, member, rfl⟩ := List.mem_map.mp listed
  obtain ⟨number, own, walked, stored', same⟩ := sighted.known sight member
  rw [reached, Option.some.injEq] at walked
  rw [← walked, stored, Option.some.injEq] at stored'
  rw [stored', ← same]
  exact member

/-- A directory is copied by the list of everything below it. -/
theorem copyPlan_directory {fromPath toPath : Text} {ops : List CopyOp} {row : InodeRow} (tree : volume.DirectoryTree)
    (planned : copyPlan volume limit fromPath toPath = .ok ops)
    (found : AgentFS.resolvePath volume (Auth.normalizePath fromPath) = some base) (stored : volume.inode? base = some row)
    (directory : isDirectory row.mode = true) : ∃ plan, Sighted volume base plan [] ∧
      ops = plan.map (Sight.op (Auth.normalizePath fromPath) (Auth.normalizePath toPath)) := by
  have status : AgentFS.stat volume (Auth.normalizePath fromPath) = .ok row := by
    unfold AgentFS.stat
    rw [AgentFS.resolvePathOrThrow_of_resolved found, ok_bind]
    simp only [stored, required]
  unfold copyPlan at planned
  dsimp only at planned
  rw [status, ok_bind, if_pos directory] at planned
  obtain ⟨_, outside, planned⟩ := bind_eq_ok.mp planned
  rw [refuse_eq_ok] at outside
  refine list_sighted tree found ?_ ?_ (.initial stored directory) ?_ ?_ (Nat.zero_le limit) ?_ planned
  · simp [Auth.normalizePath, absolute]
  · intro root
    have whole : Auth.normalizePath (Auth.normalizePath fromPath) = ['/'] := by rw [Auth.normalizePath_idem, root]
    refine outside ?_
    unfold isSameOrDescendant
    simp [whole]
  · simp [Sight.op, spelled]
  · simp [spelled]
  · simp only [List.length_singleton]
    omega

end Listing

end AiryFS
