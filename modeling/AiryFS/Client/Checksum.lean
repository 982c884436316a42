import AiryFS.Sites.RestingFile

/-! The checksum of a volume path, hashed in bounded chunks.

The hash itself is left to the platform: `hash.update` of one chunk after the other and
`hash.digest` give the digest of all the bytes.
-/

set_option autoImplicit false

namespace AiryFS

open Foundation

def HASH_CHUNK_SIZE : Nat := 256 * 1024

structure ChecksumResult where
  checksum : Text
  size : Nat
  ino : Int
  deriving DecidableEq, Repr

/-- What a hash is made of: the file as it was found, and the bytes that went in. -/
structure Hashed where
  stats : InodeRow
  bytes : Bytes

def Hashed.result (sha256 : Bytes → Text) (hashed : Hashed) : ChecksumResult :=
  ⟨sha256 hashed.bytes, hashed.stats.size, hashed.stats.ino⟩

open Sites

/-- The loop over the chunks. Every round but a failing one takes a byte, which bounds the rounds. -/
def hashChunks (path : Text) (handle : AgentFSFile) (size : Nat) : Nat → Nat → Bytes → Serving Bytes
  | 0, _, taken => return taken
  | rounds + 1, offset, taken =>
    if offset < size then do
      let chunk ← pread handle offset (min HASH_CHUNK_SIZE (size - offset))
      if chunk.length = 0 then
        let shown := String.ofList path
        throw (.error s!"File shrank while it was being checksummed: {shown}")
      else hashChunks path handle size rounds (offset + chunk.length) (taken ++ chunk)
    else return taken

/-- `sha256Path` up to the digest. -/
def sha256Path (path : Text) : Serving Hashed := do
  let stats ← stat path
  let shown := String.ofList path
  if ¬isRegular stats.mode then
    throw (if isDirectory stats.mode then .fs ⟨.EISDIR, "", path, s!"EISDIR: checksum requires a regular file, got '{shown}'"⟩
      else .fs ⟨.EINVAL, "", path, s!"EINVAL: checksum requires a regular file, got '{shown}'"⟩)
  else if 0 < stats.size then do
    let handle ← openFile path
    return ⟨stats, ← hashChunks path handle stats.size stats.size 0 []⟩
  else return ⟨stats, []⟩

namespace Volume.FileAt

variable {volume : Volume} {chunkSize : Nat} {path : Text} {row : InodeRow} {content : Bytes}
variable (file : volume.FileAt chunkSize path row content)
include file

/-- The rounds left are at least the bytes left. -/
theorem hashChunks (positive : 0 < chunkSize) (rounds offset : Nat) (taken : Bytes) (enough : content.length ≤ offset + rounds) :
    (AiryFS.hashChunks path ⟨row.ino, chunkSize⟩ content.length rounds offset taken).run (answer chunkSize volume) =
      .ok (taken ++ content.drop offset) := by
  induction rounds generalizing offset taken with
  | zero =>
    rw [AiryFS.hashChunks, Asking.run_pure, List.drop_eq_nil_of_le (by omega), List.append_nil]
  | succ rounds ih =>
    rw [AiryFS.hashChunks]
    by_cases inside : offset < content.length
    · rw [if_pos inside, Asking.run_bind]
      have chunk : (Sites.pread ⟨row.ino, chunkSize⟩ offset (min HASH_CHUNK_SIZE (content.length - offset))).run (answer chunkSize volume) =
          .ok ((content.drop offset).take (min HASH_CHUNK_SIZE (content.length - offset))) :=
        congrArg Except.ok (file.pread positive offset _)
      have count : 0 < ((content.drop offset).take (min HASH_CHUNK_SIZE (content.length - offset))).length := by
        rw [List.length_take, List.length_drop]
        have bound : 0 < HASH_CHUNK_SIZE := by decide
        omega
      rw [chunk, ok_bind, if_neg (by omega), ih _ _ (by omega), List.append_assoc, drop_round]
    · rw [if_neg inside, Asking.run_pure, List.drop_eq_nil_of_le (by omega), List.append_nil]

/-- At rest, the bytes hashed are the bytes of the file. -/
theorem sha256Path (positive : 0 < chunkSize) :
    (AiryFS.sha256Path path).run (answer chunkSize volume) = .ok ⟨row, content⟩ := by
  rw [AiryFS.sha256Path, Asking.run_bind, run_stat, file.stat, ok_bind]
  dsimp only
  rw [if_neg (not_not_intro file.regular)]
  split
  · rw [Asking.run_bind, run_openFile, file.openFile, ok_bind, Asking.run_bind, file.size, file.hashChunks positive _ _ _ (by omega), ok_bind,
      List.drop_zero, List.nil_append, Asking.run_pure]
  · rename_i empty
    have nothing : content = [] := List.eq_nil_of_length_eq_zero (by rw [← file.size]; omega)
    rw [Asking.run_pure, nothing]

end Volume.FileAt

end AiryFS
