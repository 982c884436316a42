import AiryFS.Direct.Creating
import AiryFS.Foundation.Interplay
import AiryFS.Sites.FileResponse

/-! What a file that nobody changes answers to a request. -/

set_option autoImplicit false

namespace AiryFS

open Foundation Sites

theorem run_stat (chunkSize : Nat) (volume : Volume) (path : Text) :
    (Sites.stat path).run (answer chunkSize volume) = AgentFS.stat volume path :=
  Asking.run_lift _ _

theorem run_openFile (chunkSize : Nat) (volume : Volume) (path : Text) :
    (Sites.openFile path).run (answer chunkSize volume) = AgentFS.openFile volume chunkSize path :=
  Asking.run_lift _ _

namespace Sites

/-! ## Headers and ranges -/

def Headers.get (headers : Headers) (name : String) : Option Text := (headers.find? fun header => header.1 = name).map (·.2)

@[simp] theorem Headers.get_set_self (headers : Headers) (name : String) (value : Text) :
    (headers.set name value).get name = some value := by
  have others : (headers.filter fun header => header.1 ≠ name).find? (fun header => header.1 = name) = none := by
    rw [List.find?_eq_none]
    intro header member
    simpa using (List.mem_filter.mp member).2
  rw [Headers.get, Headers.set, List.find?_append, others]
  simp

theorem Headers.get_set_of_ne (headers : Headers) {name other : String} (value : Text) (different : other ≠ name) :
    (headers.set name value).get other = headers.get other := by
  induction headers with
  | nil => simp [Headers.get, Headers.set, different.symm]
  | cons header headers ih =>
    simp only [Headers.get, Headers.set] at ih ⊢
    by_cases same : header.1 = name
    · rw [List.filter_cons_of_neg (by simp [same]), ih, List.find?_cons_of_neg (by simp [same, different.symm])]
    · rw [List.filter_cons_of_pos (by simp [same]), List.cons_append]
      by_cases found : header.1 = other
      · rw [List.find?_cons_of_pos (by simp [found]), List.find?_cons_of_pos (by simp [found])]
      · rw [List.find?_cons_of_neg (by simp [found]), List.find?_cons_of_neg (by simp [found]), ih]

/-- `bytes=<start>-`: everything from there on. -/
def rangeFrom (start : Nat) : Text := "bytes=".toList ++ (Nat.toDigits 10 start ++ ['-'])

theorem digit_toDigits {start : Nat} {c : Char} (member : c ∈ Nat.toDigits 10 start) : c.isDigit = true :=
  Nat.isDigit_of_mem_toDigits (by decide) (by decide) member

theorem digits_toDigits (start : Nat) : digits (Nat.toDigits 10 start) = true := by
  rw [digits, List.all_eq_true]
  intro c member
  have digit := digit_toDigits member
  simp only [Char.isDigit, Bool.and_eq_true, decide_eq_true_eq, ge_iff_le, UInt32.le_iff_toNat_le] at digit
  simp only [Bool.and_eq_true, decide_eq_true_eq]
  exact digit

theorem digitsValue_toDigits (start : Nat) : digitsValue (Nat.toDigits 10 start) = start := by
  have same : digitsValue (Nat.toDigits 10 start) = Nat.ofDigitChars 10 (Nat.toDigits 10 start) 0 := by
    rw [digitsValue, Nat.ofDigitChars]
    congr 1
    funext value c
    rw [Nat.mul_comm]
    rfl
  rw [same, Nat.ofDigitChars_ten_toDigits]

theorem trim_rangeFrom (start : Nat) : SnapshotStorage.trim (rangeFrom start) = rangeFrom start := by
  have front : (rangeFrom start).dropWhile SnapshotStorage.trimmable = rangeFrom start :=
    List.dropWhile_cons_of_neg (by decide)
  rw [SnapshotStorage.trim, front, rangeFrom, ← List.append_assoc, List.rdropWhile_concat_neg _ _ _ (by decide)]

theorem matchRange_rangeFrom (start : Nat) : matchRange (rangeFrom start) = some (Nat.toDigits 10 start, []) := by
  have dash : '-' ∉ Nat.toDigits 10 start := fun member => absurd (digit_toDigits member) (by decide)
  have split : (Nat.toDigits 10 start ++ ['-']).splitOn '-' = [Nat.toDigits 10 start, []] := by
    rw [List.splitOn_append_cons_self, List.splitOn_eq_singleton dash, List.splitOn_nil]
    rfl
  have leading : "bytes=".toList.isPrefixOf (rangeFrom start) = true := by
    rw [List.isPrefixOf_iff_prefix]
    exact List.prefix_append _ _
  have behind : (rangeFrom start).drop 6 = Nat.toDigits 10 start ++ ['-'] := List.drop_left' rfl
  rw [matchRange, if_pos leading, behind, split]
  dsimp only
  rw [digits_toDigits, if_pos (by rfl)]

theorem parseRange_rangeFrom {start size : Nat} (inside : start < size) (safe : isSafeInteger size = true) :
    parseRange (some (rangeFrom start)) size = .ok (some (start, size - 1)) := by
  have bounds : (size : Int) ≤ maxSafeInteger := (of_decide_eq_true safe).2
  have filled : given (some (rangeFrom start)) = some (rangeFrom start) := by
    rw [given, Option.filter_some, if_pos (by simp [rangeFrom])]
  have leading : "bytes=".toList.isPrefixOf (rangeFrom start) = true := by
    rw [List.isPrefixOf_iff_prefix]
    exact List.prefix_append _ _
  have comma : ',' ∉ rangeFrom start := by
    simp only [rangeFrom, List.mem_append, not_or]
    exact ⟨by decide, fun member => absurd (digit_toDigits member) (by decide), by decide⟩
  have safeStart : isSafeInteger (start : Int) = true := decide_eq_true ⟨by rw [maxSafeInteger]; omega, by omega⟩
  have safeStop : isSafeInteger ((size - 1 : Nat) : Int) = true := decide_eq_true ⟨by rw [maxSafeInteger]; omega, by omega⟩
  unfold parseRange
  rw [filled]
  dsimp only
  rw [if_neg (not_or_intro (not_not_intro leading) comma), trim_rangeFrom, matchRange_rangeFrom]
  dsimp only
  rw [if_neg (by simp [Nat.toDigits_ne_nil]), if_neg (by omega), if_neg Nat.toDigits_ne_nil, digitsValue_toDigits,
    if_pos rfl, if_neg (by rw [safeStart, safeStop]; simp; omega), Nat.min_self]

end Sites

/-! ## A file at rest -/

/-- The path leads to a regular file with the content. -/
structure Volume.FileAt (volume : Volume) (chunkSize : Nat) (path : Text) (row : InodeRow) (content : Bytes) : Prop where
  reached : AgentFS.walk volume ROOT_INO (fields '/' path) = some row.ino
  stored : volume.inode? row.ino = some row
  regular : isRegular row.mode = true
  size : row.size = content.length
  laidOut : volume.LaidOut chunkSize row.ino content

namespace Volume.FileAt

variable {volume : Volume} {chunkSize : Nat} {path : Text} {row : InodeRow} {content : Bytes}
variable (file : volume.FileAt chunkSize path row content)
include file

theorem stat : AgentFS.stat volume path = .ok row := by
  have resolved : AgentFS.resolvePath volume path = some row.ino := by
    rw [AgentFS.resolvePath_eq, file.reached]
  rw [AgentFS.stat, AgentFS.resolvePathOrThrow_of_resolved resolved, ok_bind]
  dsimp only
  rw [file.stored]
  rfl

theorem openFile : AgentFS.openFile volume chunkSize path = .ok ⟨row.ino, chunkSize⟩ := by
  have resolved : AgentFS.resolvePath volume path = some row.ino := by
    rw [AgentFS.resolvePath_eq, file.reached]
  have plain : ¬AgentFS.knownDirectory (AgentFS.getInodeMode volume row.ino) := by
    simp [AgentFS.knownDirectory, AgentFS.getInodeMode, file.stored, AgentFS.isDirectory_of_isRegular file.regular]
  rw [AgentFS.openFile, AgentFS.resolvePathOrThrow_of_resolved resolved, ok_bind]
  dsimp only
  rw [refuse_of_not plain]
  rfl

theorem pread (positive : 0 < chunkSize) (offset size : Nat) :
    AgentFSFile.pread ⟨row.ino, chunkSize⟩ volume offset size = (content.drop offset).take size :=
  AgentFSFile.pread_laidOut file.laidOut positive offset size

omit file in
/-- One round takes what the file has from the offset on, up to the bound. -/
theorem drop_round (content : Bytes) (offset bound : Nat) :
    (content.drop offset).take bound ++ content.drop (offset + ((content.drop offset).take bound).length) = content.drop offset := by
  conv_rhs => rw [← List.take_append_drop bound (content.drop offset)]
  rw [List.drop_drop, List.length_take, List.length_drop]
  congr 1
  rcases Nat.le_total bound (content.length - offset) with short | long
  · rw [Nat.min_eq_left short]
  · rw [Nat.min_eq_right long, List.drop_eq_nil_of_le (by omega), List.drop_eq_nil_of_le (by omega)]

/-- The rounds left are at least the bytes left. -/
theorem createReadStream (positive : 0 < chunkSize) (stop : Nat) (inside : stop < content.length) (rounds offset : Nat)
    (sent : Bytes) (enough : stop + 1 ≤ offset + rounds) :
    (Sites.createReadStream ⟨row.ino, chunkSize⟩ stop rounds offset sent).run (answer chunkSize volume) =
      .ok ⟨sent ++ (content.take (stop + 1)).drop offset, none⟩ := by
  have length : (content.take (stop + 1)).length = stop + 1 := by
    rw [List.length_take]
    omega
  induction rounds generalizing offset sent with
  | zero =>
    rw [Sites.createReadStream, Asking.run_pure, List.drop_eq_nil_of_le (by omega), List.append_nil]
  | succ rounds ih =>
    rw [Sites.createReadStream]
    by_cases beyond : offset > stop
    · rw [if_pos beyond, Asking.run_pure, List.drop_eq_nil_of_le (by omega), List.append_nil]
    · have own : (content.drop offset).take (min READ_CHUNK_SIZE (stop - offset + 1)) =
          ((content.take (stop + 1)).drop offset).take (min READ_CHUNK_SIZE (stop - offset + 1)) := by
        rw [List.drop_take, List.take_take]
        congr 1
        omega
      have chunk : (Sites.pread ⟨row.ino, chunkSize⟩ offset (min READ_CHUNK_SIZE (stop - offset + 1))).run (answer chunkSize volume) =
          .ok (((content.take (stop + 1)).drop offset).take (min READ_CHUNK_SIZE (stop - offset + 1))) :=
        congrArg Except.ok ((file.pread positive offset _).trans own)
      have count : 0 < (((content.take (stop + 1)).drop offset).take (min READ_CHUNK_SIZE (stop - offset + 1))).length := by
        rw [List.length_take, List.length_drop, length]
        have bound : 0 < READ_CHUNK_SIZE := by decide
        omega
      rw [if_neg beyond, Asking.run_bind, chunk, ok_bind, if_neg (by omega), ih _ _ (by omega), List.append_assoc, drop_round]

section Responses
variable (parse : Text → Option Int) (pathname : Text)

/-- Without conditions, a request is answered with contents. -/
theorem response {method : Text} {range : Option Text} {wanted : Option (Nat × Nat)}
    (ranged : (if method = "GET".toList then parseRange range content.length else .ok none) = .ok wanted) :
    (fileResponse parse path ⟨method, pathname, none, none, none, range⟩).run (answer chunkSize volume) =
      (contentResponse ⟨method, pathname, none, none, none, range⟩ path row
        (baseHeaders row (entityTag row (latestFileVersion volume row.ino))) wanted).run (answer chunkSize volume) := by
  have version : (versionForInode row.ino).run (answer chunkSize volume) = .ok (latestFileVersion volume row.ino) := rfl
  rw [fileResponse, Asking.run_bind, run_stat, file.stat, ok_bind, if_neg (not_not_intro file.regular), Asking.run_bind, version,
    ok_bind]
  simp only [isNotModified, canServeRange, given, Option.filter_none, Bool.false_eq_true, if_false, and_true]
  rw [Asking.run_bind, Asking.run_lift, file.size, ranged, ok_bind]

/-- A `HEAD` request tells the length and the inode. -/
theorem head : ∃ response, (fileResponse parse path ⟨"HEAD".toList, pathname, none, none, none, none⟩).run (answer chunkSize volume) =
      .ok response ∧ response.status = 200 ∧ response.headers.get "Content-Length" = some (integerText 10 content.length) ∧
      response.headers.get "X-AiryFS-Inode" = some (integerText 10 row.ino) := by
  rw [file.response parse pathname rfl, contentResponse]
  simp only [Option.elim_none, Option.isSome_none, Bool.false_eq_true, if_false, true_or, if_true, Asking.run_pure]
  refine ⟨_, rfl, rfl, ?_, ?_⟩
  · have whole : (if row.size = 0 then 0 else row.size - 1 - 0 + 1) = content.length := by
      rw [file.size]
      split <;> omega
    rw [Headers.get_set_self, whole]
  · rw [Headers.get_set_of_ne _ _ (by decide)]
    rfl

/-- A range that starts inside the file gets the rest of it. -/
theorem rest (positive : 0 < chunkSize) {start : Nat} (inside : start < content.length) (safe : isSafeInteger content.length = true) :
    ∃ response, (fileResponse parse path ⟨"GET".toList, pathname, none, none, none, some (rangeFrom start)⟩).run
        (answer chunkSize volume) = .ok response ∧ response.status = 206 ∧ response.headers.get "X-AiryFS-Inode" = some (integerText 10 row.ino) ∧
      response.body = some ⟨content.drop start, none⟩ := by
  rw [file.response parse pathname (by rw [if_pos rfl, parseRange_rangeFrom inside safe]), contentResponse]
  have filled : ¬("GET".toList = "HEAD".toList ∨ row.size = 0) := by
    rw [file.size]
    rintro (head | empty)
    · exact absurd head (by decide)
    · omega
  simp only [Option.elim_some, Option.isSome_some, if_true]
  rw [if_neg filled, Asking.run_bind, run_openFile, file.openFile, ok_bind, Asking.run_bind,
    file.createReadStream positive _ (by omega) _ _ _ (by omega), ok_bind, Asking.run_pure, List.take_of_length_le (by omega)]
  refine ⟨_, rfl, rfl, ?_, rfl⟩
  dsimp only
  rw [Headers.get_set_of_ne _ _ (by decide), Headers.get_set_of_ne _ _ (by decide)]
  rfl

end Responses

end Volume.FileAt

end AiryFS
