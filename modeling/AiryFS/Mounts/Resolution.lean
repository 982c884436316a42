import AiryFS.Mounts.MountTable
import AiryFS.Mounts.Routes
import Mathlib.Order.Antichain

/-! No mountpoint lies at or under another one, so a path is under at most one of them and the
translation into the target volume can be undone.
-/

set_option autoImplicit false

namespace AiryFS

open Foundation Auth

namespace Mounts

/-- The path is the other one or one of its ancestors. -/
def Within (top path : Text) : Prop := segments top <+: segments path

instance (top path : Text) : Decidable (Within top path) := inferInstanceAs (Decidable (_ <+: _))

/-! ## The mount table -/

structure WellFormed (mount : MountRecord) : Prop where
  mountpoint : normalizePath mount.mountpoint = mount.mountpoint
  below : segments mount.mountpoint ≠ []
  targetSubpath : normalizePath mount.targetSubpath = mount.targetSubpath
  target : mount.targetVolume ≠ []

structure Consistent (mounts : FsMount) : Prop where
  wellFormed : ∀ mount ∈ mounts.rows, WellFormed mount
  apart : ∀ first ∈ mounts.rows, ∀ second ∈ mounts.rows, Within first.mountpoint second.mountpoint → first = second

theorem WellFormed.spelled {mount : MountRecord} (wellFormed : WellFormed mount) :
    mount.mountpoint = absolute '/' (segments mount.mountpoint) := by
  rw [← normalizePath, wellFormed.mountpoint]

theorem WellFormed.atOrUnder {mount : MountRecord} (wellFormed : WellFormed mount) (path : Text) :
    AtOrUnder mount.mountpoint (normalizePath path) ↔ Within mount.mountpoint path := by
  have spelled := @normalizePath_atOrUnder mount.mountpoint path wellFormed.below
  rwa [wellFormed.mountpoint] at spelled

@[simp] theorem mem_listMounts {mounts : FsMount} {mount : MountRecord} : mount ∈ listMounts mounts ↔ mount ∈ mounts.rows :=
  List.mem_mergeSort

theorem Consistent.empty : Consistent Table.empty :=
  ⟨fun _ member => (List.not_mem_nil member).elim, fun _ member => (List.not_mem_nil member).elim⟩

theorem trim_nil : SnapshotStorage.trim [] = [] := rfl

/-- What a new row has passed: it is well formed, and overlaps no other one. -/
theorem createMountRow_spec {now : Int} {mounts mounts' : FsMount} {input : CreateMountInput} {record : MountRecord}
    (created : createMountRow now mounts input = .ok (record, mounts')) :
    record = input.row now ∧ mounts'.rows = mounts.rows ++ [record] ∧ WellFormed record ∧
      input.targetVolume ≠ input.hostVolume ∧
        ∀ mount ∈ mounts.rows, ¬AtOrUnder mount.mountpoint record.mountpoint ∧ ¬AtOrUnder record.mountpoint mount.mountpoint := by
  unfold createMountRow at created
  dsimp only at created
  obtain ⟨_, below, created⟩ := bind_eq_ok.mp created
  obtain ⟨_, named, created⟩ := bind_eq_ok.mp created
  obtain ⟨_, other, created⟩ := bind_eq_ok.mp created
  obtain ⟨_, passed, created⟩ := bind_eq_ok.mp created
  obtain ⟨table, inserted, created⟩ := bind_eq_ok.mp created
  obtain ⟨rfl, rfl⟩ := Prod.mk.inj (pure_eq_ok.mp created)
  rw [required_eq_ok, Table.insert?_eq_some_iff] at inserted
  refine ⟨rfl, inserted.2, ?_, refuse_eq_ok.mp other, ?_⟩
  · constructor
    · exact normalizePath_idem input.mountpoint
    · intro root
      refine refuse_eq_ok.mp below (normalizePath_eq_root.mpr ?_)
      rwa [← segments_normalizePath]
    · exact normalizePath_idem _
    · intro empty
      refine refuse_eq_ok.mp named ?_
      rw [show input.targetVolume = [] from empty, trim_nil]
  · intro mount member
    obtain ⟨_, checked, -⟩ := mapM_ok_mem passed (mem_listMounts.mpr member)
    obtain ⟨_, different, checked⟩ := bind_eq_ok.mp checked
    have same := refuse_eq_ok.mp different
    have nested := refuse_eq_ok.mp checked
    constructor
    · intro under
      exact under.elim (fun equal => same equal.symm) (fun longer => nested (.inl longer))
    · intro under
      exact under.elim same (fun longer => nested (.inr longer))

theorem Consistent.createMountRow {now : Int} {mounts mounts' : FsMount} {input : CreateMountInput} {record : MountRecord}
    (consistent : Consistent mounts) (created : createMountRow now mounts input = .ok (record, mounts')) :
    Consistent mounts' := by
  obtain ⟨_, rows, wellFormed, _, apart⟩ := createMountRow_spec created
  have each : ∀ mount ∈ mounts'.rows, mount ∈ mounts.rows ∨ mount = record := by
    intro mount member
    rw [rows] at member
    simpa using member
  have sound : ∀ mount ∈ mounts'.rows, WellFormed mount := by
    intro mount member
    rcases each mount member with old | rfl
    · exact consistent.wellFormed mount old
    · exact wellFormed
  refine ⟨sound, ?_⟩
  intro first left second right within
  have spelled := ((sound first left).atOrUnder second.mountpoint).mpr within
  rw [(sound second right).mountpoint] at spelled
  rcases each first left with old | rfl
  · rcases each second right with old' | rfl
    · exact consistent.apart first old second old' within
    · exact absurd spelled (apart first old).1
  · rcases each second right with old' | rfl
    · exact absurd spelled (apart second old').2
    · rfl

theorem deleteMountRow_spec {mounts mounts' : FsMount} {mountpoint : Text} {record : MountRecord}
    (deleted : deleteMountRow mounts mountpoint = .ok (record, mounts')) :
    record ∈ mounts.rows ∧ record.mountpoint = normalizePath mountpoint ∧ mounts' = mounts.erase record.mountpoint := by
  obtain ⟨found, present, done⟩ := bind_eq_ok.mp deleted
  obtain ⟨rfl, rfl⟩ := Prod.mk.inj (pure_eq_ok.mp done)
  rw [required_eq_ok] at present
  exact ⟨mounts.find?_mem present, mounts.find?_key present, rfl⟩

theorem Consistent.erase {mounts : FsMount} (consistent : Consistent mounts) (mountpoint : Text) :
    Consistent (mounts.erase mountpoint) := by
  constructor
  · intro mount member
    exact consistent.wellFormed mount (mounts.mem_erase.mp member).1
  · intro first left second right
    exact consistent.apart first (mounts.mem_erase.mp left).1 second (mounts.mem_erase.mp right).1

/-- A call on the mount table. -/
inductive MountCall where
  | create (now : Int) (input : CreateMountInput)
  | delete (mountpoint : Text)

def MountCall.apply (mounts : FsMount) : MountCall → FsMount
  | .create now input => settle mounts ((createMountRow now mounts input).map Prod.snd)
  | .delete mountpoint => settle mounts ((deleteMountRow mounts mountpoint).map Prod.snd)

theorem map_eq_ok {ε α β : Type} {outcome : Except ε α} {f : α → β} {result : β} :
    outcome.map f = .ok result ↔ ∃ value, outcome = .ok value ∧ f value = result := by
  cases outcome <;> simp [Except.map]

theorem Consistent.apply {mounts : FsMount} (consistent : Consistent mounts) (call : MountCall) :
    Consistent (call.apply mounts) := by
  cases call with
  | create now input =>
    refine settle_induction consistent ?_
    intro next done
    obtain ⟨⟨record, table⟩, created, rfl⟩ := map_eq_ok.mp done
    exact consistent.createMountRow created
  | delete mountpoint =>
    refine settle_induction consistent ?_
    intro next done
    obtain ⟨⟨record, table⟩, deleted, rfl⟩ := map_eq_ok.mp done
    obtain ⟨_, _, rfl⟩ := deleteMountRow_spec deleted
    exact consistent.erase record.mountpoint

/-- The mount table after the calls. -/
def afterCalls (calls : List MountCall) : FsMount := calls.foldl MountCall.apply Table.empty

theorem afterCalls_consistent (calls : List MountCall) : Consistent (afterCalls calls) := by
  suffices kept : ∀ mounts, Consistent mounts → Consistent (calls.foldl MountCall.apply mounts) from kept _ Consistent.empty
  induction calls with
  | nil => exact fun mounts consistent => consistent
  | cons call calls ih => exact fun mounts consistent => ih _ (consistent.apply call)

/-! ## Resolution -/

theorem closer_keeps {path : Text} {best : Option MountRecord} {mount : MountRecord} (apart : ¬AtOrUnder mount.mountpoint path) :
    closer path best mount = best := if_neg apart

/-- Where at most one mount matches, it is the one that is found. -/
theorem foldl_closer {path : Text} {mounts : List MountRecord} {mount : MountRecord} (under : AtOrUnder mount.mountpoint path)
    (only : ∀ other ∈ mounts, AtOrUnder other.mountpoint path → other = mount) (best : Option MountRecord)
    (found : best = none ∨ best = some mount) :
    mounts.foldl (closer path) best = if mount ∈ mounts then some mount else best := by
  induction mounts generalizing best with
  | nil => rfl
  | cons first rest ih =>
    have later := ih (fun other member => only other (List.mem_cons_of_mem _ member))
    rw [List.foldl_cons]
    by_cases own : first = mount
    · subst own
      have taken : closer path best first = some first := by
        unfold closer
        rw [if_pos under]
        rcases found with rfl | rfl
        · rfl
        · exact if_neg (lt_irrefl _)
      rw [taken, later _ (.inr rfl), ite_self, if_pos List.mem_cons_self]
    · have other : ¬AtOrUnder first.mountpoint path := fun near => own (only first List.mem_cons_self near)
      rw [closer_keeps other, later best found]
      simp [Ne.symm own]

theorem foldl_closer_none {path : Text} {mounts : List MountRecord} (none_ : ∀ mount ∈ mounts, ¬AtOrUnder mount.mountpoint path) :
    mounts.foldl (closer path) none = none := by
  induction mounts with
  | nil => rfl
  | cons first rest ih =>
    rw [List.foldl_cons, closer_keeps (none_ first List.mem_cons_self)]
    exact ih fun mount member => none_ mount (List.mem_cons_of_mem _ member)

/-- At most one mount matches a path. -/
theorem Consistent.single {mounts : FsMount} (consistent : Consistent mounts) {path : Text} {first second : MountRecord}
    (left : first ∈ mounts.rows) (right : second ∈ mounts.rows) (near : Within first.mountpoint path)
    (near' : Within second.mountpoint path) : first = second := by
  rcases List.prefix_or_prefix_of_prefix near near' with shorter | shorter
  · exact consistent.apart first left second right shorter
  · exact (consistent.apart second right first left shorter).symm

/-- The resolution finds the mount that the path lies within, and translates the path. -/
theorem Consistent.resolveMount {mounts : FsMount} (consistent : Consistent mounts) (path : Text) (hit : ResolvedMount) :
    resolveMount (listMounts mounts) path = some hit ↔
      hit.mount ∈ mounts.rows ∧ Within hit.mount.mountpoint path ∧ hit.targetPath = translate hit.mount path := by
  have matches_ : ∀ mount ∈ mounts.rows, AtOrUnder mount.mountpoint (normalizePath path) ↔ Within mount.mountpoint path :=
    fun mount member => (consistent.wellFormed mount member).atOrUnder path
  unfold Mounts.resolveMount
  by_cases some_ : ∃ mount ∈ mounts.rows, Within mount.mountpoint path
  · obtain ⟨mount, member, within⟩ := some_
    have only : ∀ other ∈ listMounts mounts, AtOrUnder other.mountpoint (normalizePath path) → other = mount := by
      intro other listed under
      have own := mem_listMounts.mp listed
      exact consistent.single own member ((matches_ other own).mp under) within
    rw [foldl_closer ((matches_ mount member).mpr within) only none (.inl rfl), if_pos (mem_listMounts.mpr member),
      Option.map_some, Option.some.injEq]
    constructor
    · rintro rfl
      exact ⟨member, within, rfl⟩
    · intro found
      obtain ⟨own, near, translated⟩ := found
      have same := consistent.single own member near within
      cases hit
      simp only at same translated
      rw [translated, same]
  · have missed : ∀ mount ∈ listMounts mounts, ¬AtOrUnder mount.mountpoint (normalizePath path) := by
      intro mount listed under
      exact some_ ⟨mount, mem_listMounts.mp listed, (matches_ mount (mem_listMounts.mp listed)).mp under⟩
    rw [foldl_closer_none missed]
    constructor
    · intro found
      cases found
    · exact fun found => absurd ⟨hit.mount, found.1, found.2.1⟩ some_

/-! ## Translation -/

/-- What of a path is below the mountpoint is put below the target's subtree. -/
theorem WellFormed.translate {mount : MountRecord} (wellFormed : WellFormed mount) {path : Text} {rest : List Text}
    (below : segments path = segments mount.mountpoint ++ rest) :
    Mounts.translate mount path = absolute '/' (segments mount.targetSubpath ++ rest) := by
  have spellable := segments_spellable path
  rw [below] at spellable
  have tail : Spellable rest := spellable.suffix
  have target := segments_spellable mount.targetSubpath
  have remainder : (normalizePath path).drop mount.mountpoint.length = if rest = [] then [] else absolute '/' rest := by
    have length := congrArg List.length wellFormed.spelled
    rw [normalizePath, below, length]
    split
    · rename_i empty
      rw [empty, List.append_nil, List.drop_length]
    · rename_i more
      rw [absolute_append wellFormed.below more, List.drop_left]
  have spelled : mount.targetSubpath = absolute '/' (segments mount.targetSubpath) := by
    rw [← normalizePath, wellFormed.targetSubpath]
  have cut : fields '/' (mount.targetSubpath ++ if rest = [] then [] else absolute '/' rest) = segments mount.targetSubpath ++ rest := by
    split
    · rename_i empty
      rw [empty, List.append_nil, List.append_nil]
      conv_lhs => rw [spelled]
      exact fields_absolute target.separable
    · rw [absolute, fields_append_sep, fields_intercalate tail.separable]
      conv_lhs => rw [spelled]
      rw [fields_absolute target.separable]
  rw [Mounts.translate, remainder, normalizePath, segments_of_fields (target.append tail) cut]

theorem WellFormed.segments_translate {mount : MountRecord} (wellFormed : WellFormed mount) {path : Text} {rest : List Text}
    (below : segments path = segments mount.mountpoint ++ rest) :
    segments (Mounts.translate mount path) = segments mount.targetSubpath ++ rest := by
  have spellable := segments_spellable path
  rw [below] at spellable
  rw [wellFormed.translate below, segments_absolute ((segments_spellable mount.targetSubpath).append spellable.suffix)]

theorem WellFormed.translate_within {mount : MountRecord} (wellFormed : WellFormed mount) {path : Text}
    (within : Within mount.mountpoint path) : Within mount.targetSubpath (Mounts.translate mount path) := by
  obtain ⟨rest, below⟩ := within
  exact ⟨rest, (wellFormed.segments_translate below.symm).symm⟩

theorem WellFormed.translate_injective {mount : MountRecord} (wellFormed : WellFormed mount) {first second : Text}
    (left : Within mount.mountpoint first) (right : Within mount.mountpoint second)
    (same : Mounts.translate mount first = Mounts.translate mount second) : normalizePath first = normalizePath second := by
  obtain ⟨rest, below⟩ := left
  obtain ⟨rest', below'⟩ := right
  have spelled := congrArg segments same
  rw [wellFormed.segments_translate below.symm, wellFormed.segments_translate below'.symm] at spelled
  rw [normalizePath_inj, ← below, ← below', List.append_cancel_left spelled]

/-! ## The forwarded route -/

/-- What the target volume reads of the URL that a request is forwarded to. -/
def readBack (volume : Text) (resource : Resource) (path : Text) : Except Failure (Option V1Route) :=
  parseV1Route (setPathname (buildV1Path volume resource path))

/-- Names that a URL takes for a step to the same or to the parent directory. -/
def dotNames : List Text := [".".toList, "..".toList]

theorem readBack_segments {volume : Text} (named : volume ≠ []) (resource : Resource) (path : Text) :
    readBack volume resource path = parseV1Route (absolute '/' (pathSegments [] (routeSegments volume resource path))) := by
  rw [readBack, buildV1Path_eq, setPathname_absolute (routeSegments_url named resource path) (by simp [routeSegments])]

/-- Where a route is read, the volume stands behind `volumes`. -/
theorem parseV1Route_volume {pathname : Text} {route : V1Route} (read : parseV1Route pathname = .ok (some route)) :
    (pathname.splitOn '/')[2]? = some "volumes".toList ∧
      decodeURIComponent ((pathname.splitOn '/')[3]?.getD []) = .ok route.volume := by
  unfold parseV1Route at read
  dsimp only at read
  generalize pathname.splitOn '/' = parts at read ⊢
  split at read
  · cases Except.ok.inj read
  · obtain ⟨_, volumes, read⟩ := bind_eq_ok.mp read
    have passed := refuse_eq_ok.mp volumes
    refine ⟨not_not.mp fun other => passed (.inl other), ?_⟩
    split at read
    · obtain ⟨_, _, read⟩ := bind_eq_ok.mp read
      obtain ⟨volume, decoded, read⟩ := bind_eq_ok.mp read
      rw [decoded, ← Option.some.inj (pure_eq_ok.mp read)]
    · obtain ⟨_, _, read⟩ := bind_eq_ok.mp read
      obtain ⟨_, _, read⟩ := bind_eq_ok.mp read
      obtain ⟨_, _, read⟩ := bind_eq_ok.mp read
      obtain ⟨volume, decoded, read⟩ := bind_eq_ok.mp read
      obtain ⟨_, _, read⟩ := bind_eq_ok.mp read
      rw [decoded, ← Option.some.inj (pure_eq_ok.mp read)]

/-- The URL drops a dot name, and a double one takes the segment before it along. -/
theorem pathSegments_dots {suffix : List Text} (plain : ∀ piece ∈ suffix, piece ∉ singleDots ∧ piece ∉ doubleDots)
    (some_ : suffix ≠ []) :
    pathSegments [] ("v1".toList :: "volumes".toList :: encodeURIComponent ".".toList :: suffix) =
        "v1".toList :: "volumes".toList :: suffix ∧
      pathSegments [] ("v1".toList :: "volumes".toList :: encodeURIComponent "..".toList :: suffix) =
        "v1".toList :: suffix := by
  have front : ∀ (piece : Text) (rest : List Text), pathSegments [] ("v1".toList :: "volumes".toList :: piece :: rest) =
      pathSegments ["v1".toList, "volumes".toList] (piece :: rest) := by
    intro piece rest
    have fixed : "v1".toList ∉ singleDots ∧ "v1".toList ∉ doubleDots ∧ "volumes".toList ∉ singleDots ∧
        "volumes".toList ∉ doubleDots := by decide +kernel
    rw [pathSegments, if_neg fixed.2.1, if_neg fixed.1, pathSegments, if_neg fixed.2.2.2, if_neg fixed.2.2.1]
    rfl
  have dot : encodeURIComponent ".".toList ∈ singleDots ∧ encodeURIComponent ".".toList ∉ doubleDots ∧
      encodeURIComponent "..".toList ∈ doubleDots := by decide +kernel
  constructor
  · rw [front, pathSegments, if_neg dot.2.1, if_pos dot.1, if_neg some_, pathSegments_of_plain plain]
    rfl
  · rw [front, pathSegments, if_pos dot.2.2, if_neg some_, pathSegments_of_plain plain]
    rfl

/-- A path is read back unless the URL drops the name of its volume. -/
theorem readBack_iff {volume : Text} (named : volume ≠ []) {resource : Resource} (listed : resource ∈ mounted)
    {path : Text} (normal : normalizePath path = path) :
    readBack volume resource path = .ok (some ⟨volume, resource, path⟩) ↔ volume ∉ dotNames := by
  have spelled : path = absolute '/' (segments path) := by rw [← normalizePath, normal]
  have pieces : fields '/' path = segments path := by
    conv_lhs => rw [spelled]
    exact fields_absolute (segments_spellable path).separable
  have known : ∀ resource ∈ mounted, resource.name.toList ∉ singleDots ∧ resource.name.toList ∉ doubleDots ∧
      resource.name.toList ≠ "volumes".toList := by decide +kernel
  obtain ⟨single, double, other⟩ := known resource listed
  have suffix : ∀ piece ∈ (fields '/' path).map encodeURIComponent, piece ∉ singleDots ∧ piece ∉ doubleDots := by
    intro piece member
    obtain ⟨source, inside, rfl⟩ := List.mem_map.mp member
    rw [pieces] at inside
    have plain := (segments_spellable path).plain source inside
    exact ⟨fun dot => plain.1 ((encodeURIComponent_dots source).1 dot),
      fun dots => plain.2 ((encodeURIComponent_dots source).2 dots)⟩
  have tail : ∀ piece ∈ resource.name.toList :: (fields '/' path).map encodeURIComponent,
      piece ∉ singleDots ∧ piece ∉ doubleDots := by
    intro piece member
    rcases List.mem_cons.mp member with rfl | inside
    · exact ⟨single, double⟩
    · exact suffix piece inside
  rw [readBack_segments named]
  constructor
  · intro read dots
    -- The URL has lost the volume, so the resource is read in its place.
    simp only [dotNames, List.mem_cons, List.not_mem_nil, or_false] at dots
    have some_ : resource.name.toList :: (fields '/' path).map encodeURIComponent ≠ [] := by simp
    have url := UrlSegment.separable (routeSegments_url named resource path)
    obtain ⟨once, twice⟩ := pathSegments_dots tail some_
    rcases dots with rfl | rfl
    · have kept : Separable '/' ("v1".toList :: "volumes".toList :: resource.name.toList ::
          (fields '/' path).map encodeURIComponent) :=
        fun piece member => url piece (((((List.Sublist.refl _).cons _).cons_cons _).cons_cons _).subset member)
      rw [routeSegments, once] at read
      have volume := (parseV1Route_volume read).2
      simp only [splitOn_absolute kept (List.cons_ne_nil _ _), List.getElem?_cons_succ, List.getElem?_cons_zero,
        Option.getD_some] at volume
      have decoded : ∀ resource ∈ mounted, decodeURIComponent resource.name.toList ≠ .ok ".".toList := by decide +kernel
      exact decoded resource listed volume
    · have kept : Separable '/' ("v1".toList :: resource.name.toList :: (fields '/' path).map encodeURIComponent) :=
        fun piece member => url piece (((((List.Sublist.refl _).cons _).cons _).cons_cons _).subset member)
      rw [routeSegments, twice] at read
      have volumes := (parseV1Route_volume read).1
      simp only [splitOn_absolute kept (List.cons_ne_nil _ _), List.getElem?_cons_succ, List.getElem?_cons_zero,
        Option.some.injEq] at volumes
      exact other volumes
  · intro proper
    have dotless : encodeURIComponent volume ∉ singleDots ∧ encodeURIComponent volume ∉ doubleDots := by
      constructor
      · intro dot
        exact proper (by rw [(encodeURIComponent_dots volume).1 dot]; decide)
      · intro dots
        exact proper (by rw [(encodeURIComponent_dots volume).2 dots]; decide)
    have whole : pathSegments [] (routeSegments volume resource path) = routeSegments volume resource path := by
      refine pathSegments_of_plain ?_ []
      intro piece member
      simp only [routeSegments, List.mem_cons] at member
      rcases member with rfl | rfl | rfl | rest
      · decide +kernel
      · decide +kernel
      · exact dotless
      · exact tail piece (List.mem_cons.mpr rest)
    rw [whole, parseV1Route_segments named listed, pieces, ← spelled]

/-! ## Unambiguous and invertible -/

/-- What makes the mounts of a volume unambiguous and invertible. -/
structure Resolves (mounts : FsMount) : Prop where
  antichain : IsAntichain Within {mountpoint | ∃ mount ∈ mounts.rows, mount.mountpoint = mountpoint}
  single : ∀ path, ∀ first ∈ mounts.rows, ∀ second ∈ mounts.rows,
    AtOrUnder first.mountpoint (normalizePath path) → AtOrUnder second.mountpoint (normalizePath path) → first = second
  within : ∀ path hit, resolveMount (listMounts mounts) path = some hit → Within hit.mount.targetSubpath hit.targetPath
  injective : ∀ first second hit hit', resolveMount (listMounts mounts) first = some hit →
    resolveMount (listMounts mounts) second = some hit' → hit.mount = hit'.mount → hit.targetPath = hit'.targetPath →
      normalizePath first = normalizePath second
  readBack : ∀ path hit, resolveMount (listMounts mounts) path = some hit → ∀ resource ∈ mounted,
    readBack hit.mount.targetVolume resource hit.targetPath = .ok (some ⟨hit.mount.targetVolume, resource, hit.targetPath⟩)

/-- Mounts can be told apart and undone as long as no target's name is a dot segment. -/
theorem mounts_resolve (calls : List MountCall) :
    Resolves (afterCalls calls) ↔ ∀ mount ∈ (afterCalls calls).rows, mount.targetVolume ∉ dotNames := by
  have consistent := afterCalls_consistent calls
  constructor
  · intro resolves mount member
    have wellFormed := consistent.wellFormed mount member
    have hit := (consistent.resolveMount mount.mountpoint ⟨mount, Mounts.translate mount mount.mountpoint⟩).mpr
      ⟨member, List.prefix_rfl, rfl⟩
    have read := resolves.readBack _ _ hit .files (by decide)
    exact (readBack_iff wellFormed.target (by decide) (normalizePath_idem _)).mp read
  · intro proper
    constructor
    · rintro _ ⟨first, left, rfl⟩ _ ⟨second, right, rfl⟩ different within
      exact different (congrArg MountRecord.mountpoint (consistent.apart first left second right within))
    · intro path first left second right near near'
      exact consistent.single left right (((consistent.wellFormed first left).atOrUnder path).mp near)
        (((consistent.wellFormed second right).atOrUnder path).mp near')
    · intro path hit found
      obtain ⟨member, within, translated⟩ := (consistent.resolveMount path hit).mp found
      rw [translated]
      exact (consistent.wellFormed hit.mount member).translate_within within
    · intro first second hit hit' found found' same target
      obtain ⟨member, within, translated⟩ := (consistent.resolveMount first hit).mp found
      obtain ⟨_, within', translated'⟩ := (consistent.resolveMount second hit').mp found'
      rw [← same] at within' translated'
      rw [translated, translated'] at target
      exact (consistent.wellFormed hit.mount member).translate_injective within within' target
    · intro path hit found resource listed
      obtain ⟨member, _, translated⟩ := (consistent.resolveMount path hit).mp found
      rw [translated]
      exact (readBack_iff (consistent.wellFormed hit.mount member).target listed (normalizePath_idem _)).mpr
        (proper hit.mount member)

/-- A volume that is called `.` can be mounted, and no request reaches it. -/
theorem mounts_unreadable : ¬Resolves (afterCalls
    [.create 0 ⟨"/m".toList, ".".toList, none, "host".toList, none, none, none⟩]) := by
  intro resolves
  have read := resolves.readBack "/m/a".toList ⟨⟨"/m".toList, ".".toList, "/".toList, none, none, "{}".toList, 0⟩, "/a".toList⟩
    (by decide +kernel) .files (by decide)
  revert read
  decide +kernel

end Mounts

end AiryFS
