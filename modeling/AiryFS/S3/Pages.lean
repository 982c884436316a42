import AiryFS.Direct.Paths
import AiryFS.Foundation.Pages
import AiryFS.Foundation.Utf8Stream
import AiryFS.Hrana.ValueCodec

/-! The object listing of the S3 interface.

A page ends with an object or a common prefix, whose name goes to the client as a token and comes back for the
next page.
-/

set_option autoImplicit false

namespace AiryFS

open Foundation

namespace S3

def MAX_KEYS : Nat := 1000

/-- A file that `walkFiles` finds. -/
structure S3Object where
  key : Text
  stats : InodeRow
  deriving DecidableEq, Repr

inductive S3Entry where
  | object (stats : InodeRow)
  | commonPrefix
  deriving DecidableEq, Repr

/-- The parameters of a request; `maxKeys` where it is a safe integer. -/
structure ListQuery where
  keyPrefix : Text
  delimiter : Option Text
  continuationToken : Option Text
  startAfter : Option Text
  maxKeys : Option Int

/-- A page, in the order of its names. -/
structure Listing where
  page : List (Text × S3Entry)
  isTruncated : Bool
  nextToken : Option Text
  maxKeys : Nat

/-! ## Names -/

@[grind =]
def compareBytes : Bytes → Bytes → Int
  | a :: left, b :: right => if a ≠ b then (a.toNat : Int) - b.toNat else compareBytes left right
  | left, right => (left.length : Int) - right.length

def compareUtf8 (left right : Text) : Int := compareBytes (Utf8.encode left) (Utf8.encode right)

def encodeToken (key : Text) : Text := Hrana.btoa (Utf8.encode key)

/-- `decoder.decode` with `fatal`: what is not the encoding of a text is refused. A byte order mark is dropped. -/
def decodeFatal (bytes : Bytes) : Option Text :=
  let text := Utf8.decodeFrom none bytes
  if Utf8.encode text = bytes then some (Utf8.dropMark text) else none

def decodeToken (token : Option Text) : Except Failure Text :=
  match token with
  | none | some [] => .ok []
  | some token =>
    required ((Hrana.atob token).bind decodeFatal)
      (.http 400 "InvalidArgument" "The continuation token provided is incorrect.")

@[grind =]
def indexOf (pattern : Text) : Text → Option Nat
  | [] => if pattern = [] then some 0 else none
  | c :: rest => if pattern.isPrefixOf (c :: rest) then some 0 else (indexOf pattern rest).map (· + 1)

/-! ## Pages -/

/-- `entries.set`. -/
def setEntry (entries : List (Text × S3Entry)) (name : Text) (entry : S3Entry) : List (Text × S3Entry) :=
  if name ∈ entries.map Prod.fst then entries.map fun item => if item.1 = name then (name, entry) else item
  else entries ++ [(name, entry)]

/-- What the key of an object is folded into; an empty delimiter is none. -/
def commonPrefix (query : ListQuery) (key : Text) : Option Text :=
  let suffix := key.drop query.keyPrefix.length
  match query.delimiter with
  | none | some [] => none
  | some delimiter => (indexOf delimiter suffix).map fun index => query.keyPrefix ++ suffix.take (index + delimiter.length)

def addObject (query : ListQuery) (entries : List (Text × S3Entry)) (object : S3Object) : List (Text × S3Entry) :=
  if query.keyPrefix.isPrefixOf object.key = false then entries
  else
    match commonPrefix query object.key with
    | some name => setEntry entries name .commonPrefix
    | none => setEntry entries object.key (.object object.stats)

def entriesOf (query : ListQuery) (objects : List S3Object) : List (Text × S3Entry) := objects.foldl (addObject query) []

def pageSize (maxKeys : Option Int) : Nat :=
  match maxKeys with
  | none => MAX_KEYS
  | some requested => if 0 ≤ requested then min requested.toNat MAX_KEYS else MAX_KEYS

def listObjects (objects : List S3Object) (query : ListQuery) : Except Failure Listing := do
  let decoded ← decodeToken query.continuationToken
  let continuation := if decoded ≠ [] then decoded else query.startAfter.getD []
  let maxKeys := pageSize query.maxKeys
  let behind := (entriesOf query objects).filter fun item => continuation = [] || decide (0 < compareUtf8 item.1 continuation)
  let sorted := behind.mergeSort fun left right => compareUtf8 left.1 right.1 ≤ 0
  let page := sorted.take maxKeys
  let truncated := decide (0 < maxKeys) && decide (page.length < sorted.length)
  let nextToken := if truncated && decide (0 < page.length) then page.getLast?.map fun last => encodeToken last.1 else none
  return { page, isTruncated := truncated, nextToken := nextToken.filter (· ≠ []), maxKeys }

/-- A client that begins without a token and follows each that it gets. -/
@[grind =]
def followTokens (objects : List S3Object) (query : ListQuery) : Nat → Option Text → Option (List Listing)
  | 0, _ => none
  | rounds + 1, token =>
    match listObjects objects { query with continuationToken := token } with
    | .error _ => none
    | .ok listing =>
      match listing.nextToken with
      | none => some [listing]
      | some token => (followTokens objects query rounds (some token)).map fun listings => listing :: listings

end S3

/-! Following the tokens of a listing gives every name once and in order, where no token comes back changed.

Names are compared by their bytes, so they are listed in one order whatever the page, and only the mark that the
decoder drops from the front of a name can move the place where the next page begins.
-/

namespace S3

/-! ## The order of names -/

theorem compareBytes_cons (a b : UInt8) (left right : Bytes) :
    compareBytes (a :: left) (b :: right) = if a ≠ b then (a.toNat : Int) - b.toNat else compareBytes left right := by
  rw [compareBytes]

theorem compareBytes_self (bytes : Bytes) : compareBytes bytes bytes = 0 := by
  induction bytes with
  | nil => rfl
  | cons byte bytes ih => rw [compareBytes_cons, if_neg (fun different => different rfl), ih]

theorem compareBytes_swap (left right : Bytes) : compareBytes right left = -compareBytes left right := by
  induction left generalizing right with
  | nil => cases right <;> simp [compareBytes]
  | cons a left ih =>
    cases right with
    | nil => simp [compareBytes]
    | cons b right =>
      rw [compareBytes_cons, compareBytes_cons, ih]
      by_cases same : a = b
      · subst same
        simp
      · rw [if_pos same, if_pos (Ne.symm same)]
        omega

theorem eq_of_compareBytes {left right : Bytes} (same : compareBytes left right = 0) : left = right := by
  induction left generalizing right with
  | nil =>
    cases right with
    | nil => rfl
    | cons b right =>
      simp only [compareBytes, List.length_nil, List.length_cons] at same
      omega
  | cons a left ih =>
    cases right with
    | nil =>
      simp only [compareBytes, List.length_nil, List.length_cons] at same
      omega
    | cons b right =>
      rw [compareBytes_cons] at same
      split at same
      · rename_i different
        exact (different (UInt8.toNat_inj.mp (by omega))).elim
      · rename_i equal
        rw [ih same, not_not.mp equal]

theorem compareBytes_trans {a b c : Bytes} (first : compareBytes a b < 0) (second : compareBytes b c < 0) : compareBytes a c < 0 := by
  induction a generalizing b c with
  | nil =>
    cases c with
    | nil =>
      cases b with
      | nil => exact first
      | cons y b =>
        simp only [compareBytes, List.length_nil, List.length_cons] at second
        omega
    | cons z c =>
      simp only [compareBytes, List.length_nil, List.length_cons]
      omega
  | cons x a ih =>
    cases b with
    | nil =>
      simp only [compareBytes, List.length_nil, List.length_cons] at first
      omega
    | cons y b =>
      cases c with
      | nil =>
        simp only [compareBytes, List.length_nil, List.length_cons] at second
        omega
      | cons z c =>
        rw [compareBytes_cons] at first second ⊢
        by_cases here : x = y
        · subst here
          rw [if_neg (not_not.mpr rfl)] at first
          by_cases there : x = z
          · subst there
            rw [if_neg (not_not.mpr rfl)] at second ⊢
            exact ih first second
          · rwa [if_pos there] at second ⊢
        · rw [if_pos here] at first
          by_cases there : y = z
          · subst there
            rw [if_pos here]
            exact first
          · rw [if_pos there] at second
            have lower : (x.toNat : Int) - z.toNat < 0 := by omega
            rw [if_pos (fun same => by subst same; omega)]
            exact lower

theorem encode_inj {left right : Text} (same : Utf8.encode left = Utf8.encode right) : left = right := by
  rw [← Utf8.decodeFrom_encode left, same, Utf8.decodeFrom_encode]

/-- One item comes before another. -/
def Before (left right : Text × S3Entry) : Prop := compareUtf8 left.1 right.1 < 0

instance : DecidableRel Before := fun left right => inferInstanceAs (Decidable (compareUtf8 left.1 right.1 < 0))

instance : IsStrictOrder (Text × S3Entry) Before where
  irrefl item := by
    unfold Before compareUtf8
    rw [compareBytes_self]
    omega
  trans _ _ _ := compareBytes_trans

theorem behind_iff (left right : Text) : 0 < compareUtf8 left right ↔ compareUtf8 right left < 0 := by
  unfold compareUtf8
  rw [compareBytes_swap]
  omega

theorem compareUtf8_trichotomy (left right : Text) : compareUtf8 left right < 0 ∨ left = right ∨ compareUtf8 right left < 0 := by
  have swap := compareBytes_swap (Utf8.encode left) (Utf8.encode right)
  by_cases same : compareUtf8 left right = 0
  · exact .inr (.inl (encode_inj (eq_of_compareBytes same)))
  · unfold compareUtf8 at same ⊢
    omega

/-! ## Tokens -/

theorem encode_eq_nil (key : Text) : Utf8.encode key = [] ↔ key = [] := by
  constructor
  · intro empty
    exact encode_inj empty
  · rintro rfl
    rfl

theorem encodeToken_eq_nil {key : Text} : encodeToken key = [] ↔ key = [] := by
  rw [encodeToken, ← encode_eq_nil key]
  constructor
  · intro empty
    have back := Hrana.Base64.atob_btoa (Utf8.encode key)
    rw [empty] at back
    exact (Option.some.inj back).symm
  · intro empty
    rw [empty]
    rfl

/-- What comes back of a name is the name without a mark at its front. -/
theorem decodeToken_encodeToken (key : Text) : decodeToken (some (encodeToken key)) = .ok (Utf8.dropMark key) := by
  have back : (Hrana.atob (encodeToken key)).bind decodeFatal = some (Utf8.dropMark key) := by
    rw [encodeToken, Hrana.Base64.atob_btoa, Option.bind_some, decodeFatal, Utf8.decodeFrom_encode]
    exact if_pos rfl
  cases token : encodeToken key with
  | nil =>
    rw [encodeToken_eq_nil.mp token]
    rfl
  | cons c rest =>
    rw [← token]
    unfold decodeToken
    split
    · rename_i none_
      cases none_
    · rename_i empty
      rw [Option.some.inj empty] at token
      cases token
    · rename_i same
      cases same
      rw [back]
      rfl

/-! ## What is to be listed -/

/-- The delimiter ends the name for the first time in the key behind the prefix. -/
def FoldsInto (query : ListQuery) (key name : Text) : Prop :=
  ∃ delimiter front rest, query.delimiter = some delimiter ∧ delimiter ≠ [] ∧
    key = query.keyPrefix ++ (front ++ (delimiter ++ rest)) ∧ name = query.keyPrefix ++ (front ++ delimiter) ∧
    ∀ earlier, earlier ++ delimiter <+: front ++ (delimiter ++ rest) → front.length ≤ earlier.length

/-- The keys that match and are not folded, and the names that keys are folded into. -/
def Listed (objects : List S3Object) (query : ListQuery) (item : Text × S3Entry) : Prop :=
  match item.2 with
  | .object stats => ⟨item.1, stats⟩ ∈ objects ∧ query.keyPrefix <+: item.1 ∧ ∀ name, ¬FoldsInto query item.1 name
  | .commonPrefix => ∃ object ∈ objects, FoldsInto query object.key item.1

variable {objects : List S3Object} {query : ListQuery} {key name : Text}

theorem indexOf_some {pattern text : Text} {index : Nat} (found : indexOf pattern text = some index) :
    (∃ rest, text = text.take index ++ (pattern ++ rest)) ∧ index ≤ text.length ∧
      ∀ earlier, earlier ++ pattern <+: text → index ≤ earlier.length := by
  induction text generalizing index with
  | nil =>
    rw [indexOf] at found
    split at found
    · rename_i empty
      cases found
      exact ⟨⟨[], by rw [empty]; rfl⟩, Nat.le_refl _, fun _ _ => Nat.zero_le _⟩
    · cases found
  | cons c text ih =>
    rw [indexOf] at found
    split at found
    · rename_i here
      cases found
      obtain ⟨rest, spelled⟩ := List.isPrefixOf_iff_prefix.mp here
      exact ⟨⟨rest, spelled.symm⟩, Nat.zero_le _, fun _ _ => Nat.zero_le _⟩
    · rename_i elsewhere
      obtain ⟨inner, further, rfl⟩ := Option.map_eq_some_iff.mp found
      obtain ⟨⟨rest, spelled⟩, within, first⟩ := ih further
      refine ⟨⟨rest, congrArg (c :: ·) spelled⟩, Nat.succ_le_succ within, fun earlier inside => ?_⟩
      cases earlier with
      | nil => exact (elsewhere (List.isPrefixOf_iff_prefix.mpr inside)).elim
      | cons e earlier => exact Nat.succ_le_succ (first earlier (List.cons_prefix_cons.mp inside).2)

theorem indexOf_none {pattern text : Text} (missing : indexOf pattern text = none) : ¬pattern <:+: text := by
  induction text with
  | nil =>
    intro inside
    rw [indexOf, if_pos (List.infix_nil.mp inside)] at missing
    cases missing
  | cons c text ih =>
    rw [indexOf] at missing
    split at missing
    · cases missing
    · rename_i elsewhere
      intro inside
      rcases List.infix_cons_iff.mp inside with here | further
      · exact elsewhere (List.isPrefixOf_iff_prefix.mpr here)
      · exact ih (Option.map_eq_none_iff.mp missing) further

theorem commonPrefix_iff (matching : query.keyPrefix <+: key) : commonPrefix query key = some name ↔ FoldsInto query key name := by
  obtain ⟨suffix, rfl⟩ := matching
  unfold commonPrefix
  dsimp only
  rw [List.drop_left]
  constructor
  · intro folded
    cases given : query.delimiter with
    | none =>
      rw [given] at folded
      cases folded
    | some delimiter =>
      rw [given] at folded
      have filled : delimiter ≠ [] := by
        rintro rfl
        cases folded
      obtain ⟨index, found, rfl⟩ : ∃ index, indexOf delimiter suffix = some index ∧
          query.keyPrefix ++ suffix.take (index + delimiter.length) = name := by
        cases delimiter with
        | nil => exact (filled rfl).elim
        | cons d delimiter => exact Option.map_eq_some_iff.mp folded
      obtain ⟨⟨rest, spelled⟩, within, first⟩ := indexOf_some found
      have width : (suffix.take index).length = index := List.length_take_of_le within
      have taken : suffix.take (index + delimiter.length) = suffix.take index ++ delimiter := by
        conv_lhs => rw [spelled, ← List.append_assoc]
        rw [List.take_left' (by rw [List.length_append, width])]
      refine ⟨delimiter, suffix.take index, rest, given, filled, by rw [← spelled], by rw [taken], fun earlier inside => ?_⟩
      rw [width]
      exact first earlier (by rw [spelled]; exact inside)
  · rintro ⟨delimiter, front, rest, given, filled, spelled, rfl, first⟩
    obtain rfl := List.append_cancel_left spelled
    rw [given]
    cases delimiter with
    | nil => exact (filled rfl).elim
    | cons d delimiter =>
      dsimp only
      cases found : indexOf (d :: delimiter) (front ++ (d :: delimiter ++ rest)) with
      | none => exact (indexOf_none found ⟨front, rest, by rw [List.append_assoc]⟩).elim
      | some index =>
        obtain ⟨⟨rest', spelled'⟩, within, least⟩ := indexOf_some found
        have lower := first _ ⟨rest', by rw [List.append_assoc]; exact spelled'.symm⟩
        rw [List.length_take_of_le within] at lower
        have upper := least front ⟨rest, by rw [List.append_assoc]⟩
        obtain rfl : index = front.length := Nat.le_antisymm upper lower
        rw [Option.map_some, ← List.append_assoc, List.take_left' (by rw [List.length_append])]

/-- A name that keys are folded into is folded into itself, so it is no key that is listed. -/
theorem FoldsInto.self (folds : FoldsInto query key name) : FoldsInto query name name := by
  obtain ⟨delimiter, front, rest, given, filled, rfl, rfl, first⟩ := folds
  refine ⟨delimiter, front, [], given, filled, by rw [List.append_nil], rfl, fun earlier inside => first earlier ?_⟩
  rw [List.append_nil] at inside
  rw [← List.append_assoc]
  exact inside.trans (List.prefix_append _ _)

theorem FoldsInto.matching (folds : FoldsInto query key name) : query.keyPrefix <+: key := by
  obtain ⟨_, _, _, -, -, rfl, -⟩ := folds
  exact List.prefix_append _ _

theorem setEntry_absent {entries : List (Text × S3Entry)} {entry : S3Entry} (absent : name ∉ entries.map Prod.fst) :
    setEntry entries name entry = entries ++ [(name, entry)] := if_neg absent

theorem setEntry_same {entries : List (Text × S3Entry)} {entry : S3Entry} (present : name ∈ entries.map Prod.fst)
    (same : ∀ item ∈ entries, item.1 = name → item.2 = entry) : setEntry entries name entry = entries := by
  rw [setEntry, if_pos present]
  refine (List.map_congr_left fun item member => ?_).trans (List.map_id _)
  split
  · rename_i named
    rw [← same item member named, ← named]
    rfl
  · rfl

theorem listed_append (first second : List S3Object) (item : Text × S3Entry) :
    Listed (first ++ second) query item ↔ Listed first query item ∨ Listed second query item := by
  obtain ⟨name, entry⟩ := item
  cases entry with
  | object stats => simp [Listed, or_and_right]
  | commonPrefix => simp [Listed, or_and_right, exists_or]

theorem listed_unmatched {object : S3Object} (unmatched : ¬query.keyPrefix <+: object.key) (item : Text × S3Entry) :
    ¬Listed [object] query item := by
  obtain ⟨name, entry⟩ := item
  cases entry with
  | object stats =>
    rintro ⟨member, matching, -⟩
    rw [← List.mem_singleton.mp member] at unmatched
    exact unmatched matching
  | commonPrefix =>
    rintro ⟨_, member, folds⟩
    rw [← List.mem_singleton.mp member] at unmatched
    exact unmatched folds.matching

theorem listed_folded {object : S3Object} (folds : FoldsInto query object.key name) (item : Text × S3Entry) :
    Listed [object] query item ↔ item = (name, .commonPrefix) := by
  obtain ⟨name', entry⟩ := item
  cases entry with
  | object stats =>
    constructor
    · rintro ⟨member, -, plain⟩
      rw [← List.mem_singleton.mp member] at folds
      exact (plain name folds).elim
    · intro same
      cases same
  | commonPrefix =>
    constructor
    · rintro ⟨_, member, folds'⟩
      rw [List.mem_singleton.mp member] at folds'
      have same := (commonPrefix_iff folds.matching).mpr folds
      rw [(commonPrefix_iff folds.matching).mpr folds'] at same
      exact congrArg (·, S3Entry.commonPrefix) (Option.some.inj same)
    · rintro ⟨⟩
      exact ⟨object, List.mem_singleton_self _, folds⟩

theorem listed_plain {object : S3Object} (matching : query.keyPrefix <+: object.key) (plain : ∀ name, ¬FoldsInto query object.key name)
    (item : Text × S3Entry) : Listed [object] query item ↔ item = (object.key, .object object.stats) := by
  obtain ⟨name, entry⟩ := item
  cases entry with
  | object stats =>
    constructor
    · rintro ⟨member, -⟩
      rw [← List.mem_singleton.mp member]
    · rintro ⟨⟩
      exact ⟨List.mem_singleton_self _, matching, plain⟩
  | commonPrefix =>
    constructor
    · rintro ⟨_, member, folds⟩
      rw [List.mem_singleton.mp member] at folds
      exact (plain name folds).elim
    · intro same
      cases same

/-- The map holds what is to be listed, each name once. -/
theorem entriesOf_spec (distinct : (objects.map S3Object.key).Nodup) :
    ((entriesOf query objects).map Prod.fst).Nodup ∧ ∀ item, item ∈ entriesOf query objects ↔ Listed objects query item := by
  induction objects using List.reverseRecOn with
  | nil =>
    refine ⟨List.nodup_nil, fun item => ⟨fun member => (by cases member), fun listed => ?_⟩⟩
    obtain ⟨name, entry⟩ := item
    cases entry with
    | object stats => cases listed.1
    | commonPrefix =>
      obtain ⟨_, member, -⟩ := listed
      cases member
  | append_singleton objects object ih =>
    rw [List.map_append, List.map_singleton, List.nodup_append] at distinct
    obtain ⟨once, listed⟩ := ih distinct.1
    have step : entriesOf query (objects ++ [object]) = addObject query (entriesOf query objects) object := by
      rw [entriesOf, List.foldl_append]
      rfl
    have added {name : Text} {entry : S3Entry} (new : ∀ item, Listed [object] query item ↔ item = (name, entry))
        (absent : name ∉ (entriesOf query objects).map Prod.fst) :
        ((entriesOf query objects ++ [(name, entry)]).map Prod.fst).Nodup ∧
          ∀ item, item ∈ entriesOf query objects ++ [(name, entry)] ↔ Listed (objects ++ [object]) query item := by
      refine ⟨?_, fun item => ?_⟩
      · rw [List.map_append, List.map_singleton]
        refine List.nodup_append.mpr ⟨once, List.nodup_singleton _, fun other member last within same => ?_⟩
        rw [same, List.mem_singleton.mp within] at member
        exact absent member
      · rw [List.mem_append, List.mem_singleton, listed_append, new, listed]
    rw [step, addObject]
    by_cases matching : query.keyPrefix <+: object.key
    · rw [if_neg (by rw [List.isPrefixOf_iff_prefix.mpr matching]; exact Bool.noConfusion)]
      cases folded : commonPrefix query object.key with
      | some name =>
        have folds := (commonPrefix_iff matching).mp folded
        dsimp only
        by_cases present : name ∈ (entriesOf query objects).map Prod.fst
        · have same : ∀ item ∈ entriesOf query objects, item.1 = name → item.2 = .commonPrefix := by
            rintro ⟨name', entry⟩ member rfl
            cases entry with
            | commonPrefix => rfl
            | object stats => exact (((listed _).mp member).2.2 name' folds.self).elim
          rw [setEntry_same present same]
          refine ⟨once, fun item => ?_⟩
          rw [listed_append, listed_folded folds, listed, or_iff_left_of_imp]
          rintro rfl
          obtain ⟨item, member, named⟩ := List.mem_map.mp present
          have whole : item = (name, .commonPrefix) := Prod.ext named (same item member named)
          exact (listed _).mp (whole ▸ member)
        · rw [setEntry_absent present]
          exact added (listed_folded folds) present
      | none =>
        have plain : ∀ name, ¬FoldsInto query object.key name := fun name folds => by
          rw [(commonPrefix_iff matching).mpr folds] at folded
          cases folded
        have absent : object.key ∉ (entriesOf query objects).map Prod.fst := by
          intro present
          obtain ⟨⟨name, entry⟩, member, rfl⟩ := List.mem_map.mp present
          have earlier := (listed _).mp member
          cases entry with
          | object stats => exact distinct.2.2 _ (List.mem_map_of_mem earlier.1) _ (List.mem_singleton_self _) rfl
          | commonPrefix =>
            obtain ⟨_, -, folds⟩ := earlier
            exact plain _ folds.self
        dsimp only
        rw [setEntry_absent absent]
        exact added (listed_plain matching plain) absent
    · rw [if_pos (Bool.eq_false_iff.mpr fun matches_ => matching (List.isPrefixOf_iff_prefix.mp matches_))]
      refine ⟨once, fun item => ?_⟩
      rw [listed_append, listed, or_iff_left (listed_unmatched matching item)]

/-! ## The listing as a whole -/

/-- The items in order. -/
def sortedEntries (objects : List S3Object) (query : ListQuery) : List (Text × S3Entry) :=
  (entriesOf query objects).mergeSort fun left right => compareUtf8 left.1 right.1 ≤ 0

theorem compareUtf8_self (name : Text) : compareUtf8 name name = 0 := compareBytes_self _

theorem compareUtf8_le (left right : Text) : compareUtf8 left right ≤ 0 ↔ compareUtf8 left right < 0 ∨ left = right := by
  constructor
  · intro within
    rcases compareUtf8_trichotomy left right with before | same | behind
    · exact .inl before
    · exact .inr same
    · rw [← behind_iff] at behind
      omega
  · rintro (before | rfl)
    · exact Int.le_of_lt before
    · exact Int.le_of_eq (compareUtf8_self left)

/-- Sorting items whose names are different puts them in strict order. -/
theorem mergeSort_before {items : List (Text × S3Entry)} (once : (items.map Prod.fst).Nodup) :
    (items.mergeSort fun left right => compareUtf8 left.1 right.1 ≤ 0).Pairwise Before := by
  have ordered := @List.pairwise_mergeSort _ (fun (left right : Text × S3Entry) => decide (compareUtf8 left.1 right.1 ≤ 0))
    (fun a b c first second => by
      rw [decide_eq_true_iff, compareUtf8_le] at *
      rcases first with before | same
      · rcases second with before' | same'
        · exact .inl (compareBytes_trans before before')
        · exact .inl (same' ▸ before)
      · exact same ▸ second)
    (fun a b => by
      rw [Bool.or_eq_true, decide_eq_true_iff, decide_eq_true_iff]
      rcases compareUtf8_trichotomy a.1 b.1 with before | same | behind
      · exact .inl (Int.le_of_lt before)
      · exact .inl ((compareUtf8_le _ _).mpr (.inr same))
      · exact .inr (Int.le_of_lt behind)) items
  have apart : (items.mergeSort fun left right => compareUtf8 left.1 right.1 ≤ 0).Pairwise fun left right => left.1 ≠ right.1 :=
    List.pairwise_map.mp (((List.mergeSort_perm items _).map Prod.fst).nodup_iff.mpr once)
  exact (ordered.and apart).imp fun ⟨within, different⟩ => ((compareUtf8_le _ _).mp (of_decide_eq_true within)).resolve_right different

/-- There is one list in strict order with given items. -/
theorem eq_of_before {first second : List (Text × S3Entry)} (sorted : first.Pairwise Before) (sorted' : second.Pairwise Before)
    (same : ∀ item, item ∈ first ↔ item ∈ second) : first = second := by
  have apart {items : List (Text × S3Entry)} (sorted : items.Pairwise Before) : items.Nodup := by
    refine List.Pairwise.imp ?_ sorted
    rintro a b before rfl
    exact irrefl a before
  refine @List.Perm.eq_of_pairwise _ Before _ _ (fun a b _ _ before before' => (asymm before before').elim) sorted sorted' ?_
  exact (List.perm_ext_iff_of_nodup (apart sorted) (apart sorted')).mpr same

/-! ## Pages -/

/-- What the token of an item puts the next page behind; no token is handed out for an empty name. -/
def cursorOf (name : Text) : Option (Text × S3Entry) := if name = [] then none else some (name, .commonPrefix)

def resume (item : Text × S3Entry) : Option (Option (Text × S3Entry)) :=
  if item.1 = [] then none else some (cursorOf (Utf8.dropMark item.1))

theorem passes_cursorOf (name : Text) (item : Text × S3Entry) :
    CursorPages.passes Before (cursorOf name) item = (decide (name = []) || decide (0 < compareUtf8 item.1 name)) := by
  unfold cursorOf
  by_cases empty : name = []
  · rw [if_pos empty, decide_eq_true empty]
    rfl
  · rw [if_neg empty, decide_eq_false empty, Bool.false_or]
    exact decide_eq_decide.mpr (behind_iff _ _).symm

variable (distinct : (objects.map S3Object.key).Nodup) (unstarted : query.startAfter = none) (some_ : query.maxKeys ≠ some 0)

theorem pageSize_pos {maxKeys : Option Int} (some_ : maxKeys ≠ some 0) : 0 < pageSize maxKeys := by
  unfold pageSize
  cases maxKeys with
  | none => decide
  | some requested =>
    have nonzero : requested ≠ 0 := fun zero => some_ (congrArg some zero)
    have large : 0 < MAX_KEYS := by decide
    dsimp only
    split <;> omega

def Listing.toPage (listing : Listing) : CursorPages.Page (Text × S3Entry) := ⟨listing.page, listing.isTruncated⟩

theorem sortedEntries_before (distinct : (objects.map S3Object.key).Nodup) : (sortedEntries objects query).Pairwise Before :=
  mergeSort_before (entriesOf_spec distinct).1

theorem mem_sortedEntries (distinct : (objects.map S3Object.key).Nodup) (item : Text × S3Entry) :
    item ∈ sortedEntries objects query ↔ Listed objects query item := by
  rw [sortedEntries, List.mem_mergeSort]
  exact (entriesOf_spec distinct).2 item

include distinct in
/-- What is left is sorted as it is in the whole listing. -/
theorem sorted_behind (name : Text) :
    ((entriesOf query objects).filter fun item => name = [] || decide (0 < compareUtf8 item.1 name)).mergeSort
        (fun left right => compareUtf8 left.1 right.1 ≤ 0) =
      (sortedEntries objects query).filter (CursorPages.passes Before (cursorOf name)) := by
  have once : ((entriesOf query objects).map Prod.fst).Nodup := (entriesOf_spec distinct).1
  refine eq_of_before (mergeSort_before ?_) ((sortedEntries_before distinct).sublist List.filter_sublist) fun item => ?_
  · exact once.sublist (List.filter_sublist.map Prod.fst)
  · rw [List.mem_mergeSort, List.mem_filter, List.mem_filter, sortedEntries, List.mem_mergeSort, passes_cursorOf]

include distinct unstarted some_ in
/-- A request with a token gives the page behind the name that the token stands for. -/
theorem listObjects_page {token : Option Text} {name : Text} (decoded : decodeToken token = .ok name) :
    ∃ listing, listObjects objects { query with continuationToken := token } = .ok listing ∧
      listing.toPage = CursorPages.page Before (sortedEntries objects query) (pageSize query.maxKeys) (cursorOf name) ∧
      listing.nextToken = if listing.isTruncated then (listing.page.getLast?.map fun last => encodeToken last.1).filter (· ≠ []) else none := by
  have positive := pageSize_pos some_
  have continuation : (if name ≠ [] then name else query.startAfter.getD []) = name := by
    rw [unstarted, Option.getD_none]
    split
    · rfl
    · rename_i empty
      exact (not_not.mp empty).symm
  unfold listObjects
  rw [decoded, ok_bind]
  dsimp only
  rw [continuation, show entriesOf { query with continuationToken := token } objects = entriesOf query objects from rfl,
    sorted_behind distinct name]
  generalize left_ : (sortedEntries objects query).filter (CursorPages.passes Before (cursorOf name)) = left
  have truncated : (decide (0 < pageSize query.maxKeys) && decide ((left.take (pageSize query.maxKeys)).length < left.length)) =
      decide (pageSize query.maxKeys < left.length) := by
    rw [decide_eq_true positive, Bool.true_and, List.length_take]
    exact decide_eq_decide.mpr (by omega)
  refine ⟨_, rfl, ?_, ?_⟩
  · unfold Listing.toPage CursorPages.page
    dsimp only
    rw [truncated, left_]
  · dsimp only
    rw [truncated]
    cases more : decide (pageSize query.maxKeys < left.length) with
    | false => rfl
    | true =>
      have longer := of_decide_eq_true more
      have filled : 0 < (left.take (pageSize query.maxKeys)).length := by
        rw [List.length_take]
        omega
      rw [decide_eq_true filled]
      rfl

include distinct unstarted some_ in
/-- A client gets the pages of the whole listing, each behind what its token stands for. -/
theorem followTokens_pages (rounds : Nat) {token : Option Text} {name : Text} (decoded : decodeToken token = .ok name) :
    (followTokens objects query rounds token).map (List.map Listing.toPage) =
      CursorPages.follow Before (sortedEntries objects query) (pageSize query.maxKeys) resume rounds (cursorOf name) := by
  induction rounds generalizing token name with
  | zero => rfl
  | succ rounds ih =>
    obtain ⟨listing, answered, same, handed⟩ := listObjects_page distinct unstarted some_ decoded
    rw [followTokens, answered, CursorPages.follow, ← same]
    dsimp only
    rw [handed, CursorPages.next]
    cases truncated : listing.isTruncated with
    | false =>
      have last : listing.toPage.truncated = false := truncated
      rw [if_neg Bool.false_ne_true, last, if_neg Bool.false_ne_true]
      rfl
    | true =>
      have more : listing.toPage.truncated = true := truncated
      rw [if_pos rfl, if_pos more, show listing.toPage.items = listing.page from rfl]
      cases listing.page.getLast? with
      | none => rfl
      | some last =>
        rw [Option.map_some, Option.bind_some, resume]
        by_cases empty : last.1 = []
        · rw [if_pos empty, Option.filter_some_neg (by simpa using encodeToken_eq_nil.mpr empty)]
          rfl
        · rw [if_neg empty, Option.filter_some_pos (by simpa using fun none_ => empty (encodeToken_eq_nil.mp none_))]
          dsimp only
          rw [← ih (decodeToken_encodeToken last.1), Option.map_map, Option.map_map]
          rfl

/-- The pages have every name that is to be listed once and in order, and each but the last says that it is not the last. -/
structure Partitions (objects : List S3Object) (query : ListQuery) (pages : List Listing) : Prop where
  ordered : (pages.flatMap Listing.page).Pairwise Before
  complete : ∀ item, item ∈ pages.flatMap Listing.page ↔ Listed objects query item
  truncated : ∀ i (inside : i < pages.length), pages[i].isTruncated = true ↔ i + 1 < pages.length

/-- Where a page ends and more is to come, the name without a mark at its front is not empty, and no name of the
listing lies between the two. -/
def Resumable (objects : List S3Object) (query : ListQuery) : Prop :=
  ∀ names : List (Text × S3Entry), names.Pairwise Before → (∀ item, item ∈ names ↔ Listed objects query item) →
    ∀ front last rest, names = front ++ last :: rest → rest ≠ [] → pageSize query.maxKeys ∣ front.length + 1 →
      Utf8.dropMark last.1 ≠ [] ∧
        ∀ item ∈ names, 0 < compareUtf8 item.1 (Utf8.dropMark last.1) ↔ 0 < compareUtf8 item.1 last.1

include distinct in
theorem resumes_iff : CursorPages.Resumes Before (sortedEntries objects query) (pageSize query.maxKeys) resume ↔ Resumable objects query := by
  have sorted : (sortedEntries objects query).Pairwise Before := sortedEntries_before distinct
  have same {names : List (Text × S3Entry)} (ordered : names.Pairwise Before) (complete : ∀ item, item ∈ names ↔ Listed objects query item) :
      names = sortedEntries objects query :=
    eq_of_before ordered sorted fun item => (complete item).trans (mem_sortedEntries distinct item).symm
  constructor
  · intro resumes names ordered complete front last rest spelled filled boundary
    obtain rfl := same ordered complete
    obtain ⟨cursor, handed, lets⟩ := resumes front last rest spelled filled boundary
    unfold resume at handed
    split at handed
    · cases handed
    · cases handed
      have passes (item : Text × S3Entry) (member : item ∈ sortedEntries objects query) :
          (decide (Utf8.dropMark last.1 = []) || decide (0 < compareUtf8 item.1 (Utf8.dropMark last.1))) =
            decide (0 < compareUtf8 item.1 last.1) := by
        rw [← passes_cursorOf, lets item member]
        exact decide_eq_decide.mpr (behind_iff _ _).symm
      have nonempty : Utf8.dropMark last.1 ≠ [] := by
        intro empty
        have own := passes last (by rw [spelled]; simp)
        rw [decide_eq_true empty, Bool.true_or, compareUtf8_self] at own
        cases own
      refine ⟨nonempty, fun item member => ?_⟩
      have equal := passes item member
      rw [decide_eq_false nonempty, Bool.false_or] at equal
      exact decide_eq_decide.mp equal
  · intro resumable front last rest spelled filled boundary
    obtain ⟨nonempty, between⟩ := resumable _ sorted (mem_sortedEntries distinct) front last rest spelled filled boundary
    have named : last.1 ≠ [] := by
      intro empty
      rw [empty] at nonempty
      exact nonempty rfl
    refine ⟨cursorOf (Utf8.dropMark last.1), if_neg named, fun item member => ?_⟩
    rw [passes_cursorOf, decide_eq_false nonempty, Bool.false_or]
    exact decide_eq_decide.mpr ((between item member).trans (behind_iff _ _))

theorem flagged_toPage (listings : List Listing) : CursorPages.Flagged (listings.map Listing.toPage) ↔
    ∀ i (inside : i < listings.length), listings[i].isTruncated = true ↔ i + 1 < listings.length := by
  unfold CursorPages.Flagged
  simp [Listing.toPage]

theorem partitions_iff_resumes (distinct : (objects.map S3Object.key).Nodup) (unstarted : query.startAfter = none)
    (some_ : query.maxKeys ≠ some 0) :
    (∃ rounds pages, followTokens objects query rounds none = some pages ∧ Partitions objects query pages) ↔
      CursorPages.Resumes Before (sortedEntries objects query) (pageSize query.maxKeys) resume := by
  rw [← CursorPages.follow_iff (sortedEntries_before distinct) (pageSize_pos some_)]
  have pages (rounds : Nat) := @followTokens_pages _ _ distinct unstarted some_ rounds none _ rfl
  have items (pages : List Listing) : (pages.map Listing.toPage).flatMap CursorPages.Page.items = pages.flatMap Listing.page := by
    rw [List.flatMap_map]
    rfl
  constructor
  · rintro ⟨rounds, listings, followed, partitions⟩
    refine ⟨rounds, listings.map Listing.toPage, ?_, ?_, (flagged_toPage listings).mpr partitions.truncated⟩
    · exact (pages rounds).symm.trans (congrArg _ followed)
    · rw [items]
      exact eq_of_before partitions.ordered (sortedEntries_before distinct) fun item =>
        (partitions.complete item).trans (mem_sortedEntries distinct item).symm
  · rintro ⟨rounds, paged, followed, whole, flagged⟩
    obtain ⟨listings, followed', rfl⟩ := Option.map_eq_some_iff.mp ((pages rounds).trans followed)
    rw [items] at whole
    refine ⟨rounds, listings, followed', ⟨?_, fun item => ?_, (flagged_toPage listings).mp flagged⟩⟩
    · rw [whole]
      exact sortedEntries_before distinct
    · rw [whole]
      exact mem_sortedEntries distinct item

/-- Following the tokens partitions the listing exactly where no page ends with a name that comes back as another place. -/
theorem listing_partitions_iff (distinct : (objects.map S3Object.key).Nodup) (unstarted : query.startAfter = none)
    (some_ : query.maxKeys ≠ some 0) :
    (∃ rounds pages, followTokens objects query rounds none = some pages ∧ Partitions objects query pages) ↔ Resumable objects query :=
  (partitions_iff_resumes distinct unstarted some_).trans (resumes_iff distinct)

/-- In particular where no key begins with a byte order mark. -/
theorem resumable_of_plain (plain : ∀ object ∈ objects, object.key ≠ [] ∧ object.key.head? ≠ some (Char.ofNat 0xFEFF)) :
    Resumable objects query := by
  intro names _ complete front last rest spelled _ _
  have listed : Listed objects query last := (complete last).mp (by rw [spelled]; simp)
  obtain ⟨name, entry⟩ := last
  obtain ⟨object, member, begins, filled⟩ : ∃ object ∈ objects, name <+: object.key ∧ name ≠ [] := by
    cases entry with
    | object stats => exact ⟨_, listed.1, List.prefix_refl _, (plain _ listed.1).1⟩
    | commonPrefix =>
      obtain ⟨object, member, delimiter, front, rest, -, filled, spelled, whole, -⟩ := listed
      refine ⟨object, member, ⟨rest, ?_⟩, fun empty => filled ?_⟩
      · change name ++ rest = _
        rw [spelled, show name = _ from whole]
        simp
      · have nothing : query.keyPrefix ++ (front ++ delimiter) = [] := whole.symm.trans empty
        simp only [List.append_eq_nil_iff] at nothing
        exact nothing.2.2
  have same : Utf8.dropMark name = name := by
    obtain ⟨first, more, rfl⟩ := List.exists_cons_of_ne_nil filled
    obtain ⟨behind, whole⟩ := begins
    have marked := (plain object member).2
    rw [← whole] at marked
    rw [Utf8.dropMark, if_neg fun mark => marked (congrArg some mark)]
  dsimp only
  rw [same]
  exact ⟨filled, fun _ _ => Iff.rfl⟩

def sampleObjects (keys : List Text) : List S3Object := keys.map fun key => ⟨key, InodeRow.root 0⟩

def sampleQuery (delimiter : Option Text) : ListQuery := ⟨[], delimiter, none, none, some 1⟩

theorem listing_partitions_sample :
    ∃ rounds pages, followTokens (sampleObjects ["b".toList, "a/x".toList, "a/y".toList]) (sampleQuery (some ['/'])) rounds none =
      some pages ∧ Partitions (sampleObjects ["b".toList, "a/x".toList, "a/y".toList]) (sampleQuery (some ['/'])) pages :=
  (listing_partitions_iff (by decide) rfl (by decide)).mpr (resumable_of_plain (by decide))

/-- A name that begins with a byte order mark comes back without it, and the page is given again and again. -/
theorem listing_loops : ¬∀ (objects : List S3Object) (query : ListQuery), (objects.map S3Object.key).Nodup → query.startAfter = none →
    query.maxKeys ≠ some 0 →
    ∃ rounds pages, followTokens objects query rounds none = some pages ∧ Partitions objects query pages := by
  intro claim
  have distinct : ((sampleObjects ["\uFEFFa".toList, "\uFEFFb".toList]).map S3Object.key).Nodup := by decide
  have resumes := (partitions_iff_resumes distinct rfl (by decide)).mp (claim _ (sampleQuery none) distinct rfl (by decide))
  have sorted : sortedEntries (sampleObjects ["\uFEFFa".toList, "\uFEFFb".toList]) (sampleQuery none) =
      entriesOf (sampleQuery none) (sampleObjects ["\uFEFFa".toList, "\uFEFFb".toList]) :=
    eq_of_before (sortedEntries_before distinct) (by decide) fun item => List.mem_mergeSort
  rw [sorted] at resumes
  obtain ⟨cursor, handed, lets⟩ := resumes [] ("\uFEFFa".toList, .object (InodeRow.root 0))
    [("\uFEFFb".toList, .object (InodeRow.root 0))] (by decide) (by decide) (by decide)
  have issued : resume ("\uFEFFa".toList, .object (InodeRow.root 0)) = some (cursorOf "a".toList) := by decide
  obtain rfl := Option.some.inj (issued.symm.trans handed)
  exact absurd (lets ("\uFEFFa".toList, .object (InodeRow.root 0)) (by decide)) (by decide)

end S3

end AiryFS
