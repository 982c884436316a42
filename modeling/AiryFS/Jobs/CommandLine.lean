import AiryFS.Foundation.ShellLanguage
import AiryFS.Jobs.Runner

/-! The line that a job's command becomes, as a shell reads it. -/

set_option autoImplicit false

namespace AiryFS
namespace Jobs

open Foundation.Shell

variable {letters : List Letter} {value cwd : Text}

/-- Where the container has a directory of the volume. -/
def mounted (cwd : Text) : Text := if cwd = ['/'] then "/volume".toList else "/volume".toList ++ cwd

theorem scan_quoted (clean : '\x00' ∉ value) :
    scan (.word letters) .single (value.flatMap fun character =>
      if character = apostrophe then [apostrophe, '"', apostrophe, '"', apostrophe] else [character]) =
        some ([], .word (letters ++ value.map fun character => ⟨character, true⟩), .single) := by
  induction value generalizing letters with
  | nil => simp [scan]
  | cons character value ih =>
    rw [List.mem_cons, not_or] at clean
    have first : scan (.word letters) .single (if character = apostrophe then [apostrophe, '"', apostrophe, '"', apostrophe]
        else [character]) = some ([], .word (letters ++ [⟨character, true⟩]), .single) := by
      split
      · rename_i same
        simp [same, scan, step, apostrophe, Pending.append, Pending.letters, Pending.before]
      · rename_i other
        simp [scan, step, show character ≠ '\'' from other, Ne.symm clean.1, Pending.append, Pending.letters]
    exact (scan_append first (ih clean.2)).trans (by simp)

theorem plain_special {character : Char} (plain : plainCharacter character = true) : character ∉ special ++ ['*', '?', '['] := by
  have quoted : ((special ++ ['*', '?', '[']).all fun other => !plainCharacter other) = true := by decide
  intro listed
  simpa [plain] using List.all_eq_true.mp quoted character listed

/-- A path is one word, which stands for itself. -/
theorem scan_shellQuote (clean : '\x00' ∉ '/' :: value) : ∃ letters, literal letters = some ('/' :: value) ∧
    scan .nothing .bare (shellQuote ('/' :: value)) = some ([], .word letters, .bare) := by
  unfold shellQuote
  split
  · rename_i plain
    have each := List.all_eq_true.mp plain.2
    refine ⟨bare ('/' :: value), literal_bare.mpr ⟨isPattern_free ?_, by simp⟩, ?_⟩
    · intro letter member
      obtain ⟨character, listed, rfl⟩ := List.mem_map.mp member
      exact .inr fun pattern => plain_special (each character listed) (List.mem_append_right _ pattern)
    · have start : scan .nothing .bare ['/'] = some ([], .word (bare ['/']), .bare) := rfl
      exact scan_append start (scan_plain fun character listed breaks =>
        plain_special (each character (List.mem_cons_of_mem _ listed)) (List.mem_append_left _ breaks))
  · have start : scan .nothing .bare [apostrophe] = some ([], .word [], .single) := rfl
    have last (letters : List Letter) : scan (.word letters) .single [apostrophe] = some ([], .word letters, .bare) := rfl
    exact ⟨_, literal_quoted _, scan_append start (scan_append (scan_quoted clean) (last _))⟩

/-- Where the command begins, a shell has read `cd -- DIRECTORY &&` for just that directory and is outside quotes and between
words, whatever the command is; only the first of the command's programs is joined to the `cd`. -/
theorem job_command_behind_cd (command : Text) (clean : '\x00' ∉ cwd) : ∃ line directory,
    composeJobCommand command cwd = line ++ command ∧ literal directory = some (mounted cwd) ∧
    scan .nothing .bare line = some ([bare "cd".toList, bare "--".toList, directory].map Token.word ++ [.operator ['&', '&']], .nothing, .bare) ∧
    reading (composeJobCommand command cwd) = (reading command).map fun chain =>
      (⟨["cd".toList, "--".toList, mounted cwd], []⟩, (['&', '&'], chain.1) :: chain.2) := by
  obtain ⟨rest, shape, clean⟩ : ∃ rest, mounted cwd = '/' :: rest ∧ '\x00' ∉ '/' :: rest := by
    unfold mounted
    split
    · exact ⟨_, rfl, by decide⟩
    · exact ⟨"volume".toList ++ cwd, rfl, by simpa using clean⟩
  obtain ⟨directory, literally, scanned⟩ := scan_shellQuote clean
  rw [← shape] at literally scanned
  have start : scan .nothing .bare "cd -- ".toList = some ([.word (bare "cd".toList), .word (bare "--".toList)], .nothing, .bare) := rfl
  have last : scan (.word directory) .bare " && ".toList = some ([.word directory, .operator ['&', '&']], .nothing, .bare) := by
    simp [scan, step, Pending.close, breaking, operators]
  have line := scan_append (scan_append start scanned) last
  have alone : Simple.read ⟨[bare "cd".toList, bare "--".toList, directory], []⟩ = some ⟨["cd".toList, "--".toList, mounted cwd], []⟩ := by
    refine Simple.read_of ⟨_, _, rfl, by decide, by decide⟩ ?_ rfl
    simp only [List.mapM_cons, literally]
    rfl
  exact ⟨_, directory, rfl, literally, line, reading_joined (by decide) (by exact lex_of_scan line command) alone⟩

/-- The second program of this command does not hang on the `cd`. -/
theorem job_command_behind_cd_sample : reading (composeJobCommand "a; b".toList "/it's".toList) =
    some (⟨["cd".toList, "--".toList, "/volume/it's".toList], []⟩,
      [("&&".toList, ⟨["a".toList], []⟩), (";".toList, ⟨["b".toList], []⟩)]) := by
  obtain ⟨_, _, -, -, -, reads⟩ := job_command_behind_cd "a; b".toList (show '\x00' ∉ "/it's".toList by decide)
  rw [reads]
  decide

end Jobs
end AiryFS
